import RigNodes.Resolver.History

/-! The resolver as one object that changes while it works. Besides what a resolver keeps, a session
knows the section at hand and the nodes of the entry at hand. Every message is emitted and every
count raised at once, in the place where the object stands. -/
namespace RigNodes

structure Session extends Resolver where
  keyword : Option Keyword
  defining : Option Span

namespace Session

def new (o : Options) : Session := ⟨Resolver.new o, none, none⟩

/-- Messages of the section at hand. Outside of sections a kind may lend its keyword. -/
def emit (kind : Option Kind) (ns : List Notice) : StateM Session Unit :=
  modify fun s =>
    let keyword := s.keyword.or (kind.map Kind.keyword)
    { s with
      diagnostics := s.diagnostics.emitAll
        (ns.map fun n => Finding.message s.moduleName ⟨keyword, n⟩) }

def take {α : Type} (kind : Option Kind) (g : Registered α) : StateM Session α := do
  modify fun s => { s with table := g.table }
  emit kind g.notices
  return g.result

def addNumber (n : UInt32) : StateM Session (Option Nat) := do
  take (some .numbered) ((← get).table.registerNumber n)

def addName (x : String) : StateM Session (Option Nat) := do
  take (some .named) ((← get).table.registerName x)

/-- The kind of a definition whose id is a slot follows the section at hand. -/
def addDefinition (id : NodeRef) : StateM Session (Option Nat) := do
  match id with
  | .number n => addNumber n
  | .name x => addName x
  | id =>
    let s ← get
    let kind := match s.keyword with
      | some k => Build.slotKind k
      | none => .numbered
    take none (s.table.define kind id)

def registerNumber (n : UInt32) : StateM Session Bool := do
  if (← get).options.enabled then return (← addNumber n).isSome
  else return false

def registerName (x : String) : StateM Session Bool := do
  if (← get).options.enabled then return (← addName x).isSome
  else return false

def registerGenerated (kind : Kind) (role : Option Role) : StateM Session (Option Nat) := do
  let s ← get
  if s.options.enabled then return some (← take (some kind) (s.table.registerGenerated kind role))
  else return none

/-- A wheel counts once its nodes are in the table. -/
def countWheel (rigid : Bool) : Option Span → StateM Session (Option WheelNodes)
  | some span => do
    modify fun s => { s with stats := s.stats + ⟨0, 0, 0, if rigid then 1 else 0⟩ }
    return some ⟨span, rigid⟩
  | none => return none

def registerWheel (kind : Kind) (rays : UInt32) (rigid : Bool) :
    StateM Session (Option WheelNodes) := do
  let s ← get
  if s.options.enabled then
    let span ← take (some kind) (s.table.registerWheel kind rays)
    countWheel rigid span
  else return none

/-- The scope of a reference: the table as it is, and the nodes of the entry at hand. -/
def scope (s : Session) : Scope := ⟨s.table, s.options.legacy, s.defining⟩

def absorb {α : Type} (o : Resolved α) : StateM Session α := do
  modify fun s => { s with stats := s.stats + o.stats }
  emit none o.notices
  return o.value

def resolve (x : NodeRef) : StateM Session NodeRef := do
  let s ← get
  if s.options.enabled then absorb (s.scope.resolve x) else return x

def resolveRange (x : NodeRange) : StateM Session NodeRange := do
  let s ← get
  if s.options.enabled then absorb (s.scope.resolveRange x) else return x

def resolveByPosition (kind : Kind) (i : UInt32) : StateM Session NodeRef := do
  let s ← get
  if s.options.enabled then
    let count := s.table.groupCount kind
    if i.toNat < count then return .slot (.ofPosition (s.table.baseOffset kind + i.toNat))
    else
      emit (some kind) [.noNodeAtPosition kind i count]
      return .unresolved
  else return .unresolved

def visitor : Visitor (StateM Session) where
  ref := resolve
  range := resolveRange

/-- Clears the table and whatever was at hand. -/
def beginModule (name : String) : StateM Session Unit :=
  modify fun s => { s with table := .empty, moduleName := name, keyword := none, defining := none }

def finishModule : StateM Session Unit :=
  modify fun s =>
    { s with
      finished := s.finished ++ [⟨s.moduleName, s.table⟩]
      keyword := none
      defining := none }

def produce : Production → StateM Session (Option Span)
  | .definition id => do return (← addDefinition id).map fun p => ⟨p, 1⟩
  | .point kind => do return (← registerGenerated kind none).map fun p => ⟨p, 1⟩
  | .wheel kind rays rigid => do return (← registerWheel kind rays rigid).map WheelNodes.span

def buildSection (c : Section × Nat) : StateM Session (Nat × List (Option Span)) := do
  modify fun s => { s with keyword := some c.1.keyword }
  return (c.2, ← c.1.productions.mapM produce)

/-- The build pass: the table is filled, and the order of the document is recorded in it. -/
def build (m : Module) : StateM Session EntrySpans := do
  let handed ← m.visits.mapM buildSection
  modify fun s => { s with keyword := none }
  let spans := m.entrySpans (← get).table handed
  modify fun s => { s with table := s.table.setLegacyOrder (Module.legacyOrder spans) }
  return spans

/-- A definition takes its slot; the references of any other entry are resolved while the nodes that
it makes are at hand. -/
def rewriteEntry (span : Option Span) (k : Keyword) (e : Entry k) : StateM Session (Entry k) :=
  match k, e with
  | .nodes, e | .nodes2, e =>
    let id : NodeRef := match span with
      | some p => .slot (.ofPosition p.start)
      | none => .unresolved
    let node : Node := { e with id }
    pure node
  | k, e => do
    modify fun s => { s with defining := span }
    walk visitor (α := Entry k) e

/-- Entries and positions side by side. An entry without a place in the list is left as it is. -/
def rewriteEntries (k : Keyword) :
    List (Option Span) → List (Entry k) → StateM Session (List (Entry k))
  | span :: spans, e :: es => do
    let e' ← rewriteEntry span k e
    let es' ← rewriteEntries k spans es
    return e' :: es'
  | _, es => pure es

def rewriteSection (c : Section × List (Option Span)) : StateM Session Section := do
  modify fun s => { s with keyword := some c.1.keyword }
  if c.1.keyword.producesNodes then
    let es ← rewriteEntries c.1.keyword c.2 c.1.entries
    modify fun s => { s with defining := none }
    return ⟨c.1.keyword, es⟩
  else return ⟨c.1.keyword, ← walk visitor c.1.entries⟩

def rewrite (m : Module) (spans : EntrySpans) : StateM Session Module := do
  let sections ← (m.sections.zip spans).mapM rewriteSection
  modify fun s => { s with keyword := none }
  return { m with sections }

/-- Tells how far the count of self-references has come since a module began. -/
def noteSelfReferences (before : Nat) : StateM Session Unit := do
  let own := (← get).stats.resolvedToSelf - before
  if 0 < own then emit none [.selfReferences own]

/-- The second pass over a module. Counts go on from module to module. -/
def settle (m : Module) (spans : EntrySpans) : StateM Session Module := do
  let before := (← get).stats.resolvedToSelf
  let m' ← rewrite m spans
  noteSelfReferences before
  finishModule
  return m'

def processModule (m : Module) : StateM Session Module := do
  beginModule m.name
  let spans ← build m
  settle m spans

def process (d : Document) : StateM Session Document := do
  if (← get).options.enabled then
    return { d with modules := ← d.modules.mapM processModule }
  else return d

def answer : Request → StateM Session Reply
  | .init enabled => do
    modify fun s => new { s.options with enabled }
    return .done
  | .disable => do
    modify fun s =>
      { s with
        options := { s.options with enabled := false }
        table := .empty
        finished := []
        defining := none }
    return .done
  | .beginModule name => do
    beginModule name
    return .done
  | .registerNumber n => do return .accepted (← registerNumber n)
  | .registerName x => do return .accepted (← registerName x)
  | .registerGenerated k role => do return .position (← registerGenerated k role)
  | .registerWheel k rays rigid => do return .wheel (← registerWheel k rays rigid)
  | .resolve x => do return .ref (← resolve x)
  | .resolveRange x => do return .range (← resolveRange x)
  | .resolveByPosition k i => do return .ref (← resolveByPosition k i)
  | .process d => do return .document (← process d)

/-- The replies to a list of requests. -/
def replay (qs : List Request) : StateM Session (List Reply) := qs.mapM answer

end Session

end RigNodes
