import RigNodes.Document.Producer
import RigNodes.Table.Register

/-! The build pass of a module. Sections that produce nodes are visited in canonical order, so
that the table does not depend on the order in which they were written. Afterwards every entry of
the module is given the positions of its nodes. -/
namespace RigNodes

/-- The table under construction and what was noticed on the way. -/
structure Build where
  table : NodeTable
  findings : Array Finding
  rigidWheels : Nat

namespace Build

def start : Build := ⟨NodeTable.empty, #[], 0⟩

/-- Takes over a registration made for a section with the given keyword. -/
def take {α : Type} (b : Build) (k : Keyword) (r : Registered α) : Build :=
  { b with
    table := r.table
    findings := b.findings ++ (r.notices.map fun n => ⟨some k, n⟩).toArray }

/-- The kind of a definition whose id is a slot: `nodes2` held the named nodes. -/
def slotKind (k : Keyword) : Kind := if k = .nodes2 then .named else .numbered

/-- Registers one production and gives the positions it was handed. -/
def produce (k : Keyword) (p : Production) : StateM Build (Option Span) := do
  let b ← get
  match p with
  | .definition id =>
    let r := b.table.define (slotKind k) id
    set (b.take k r)
    return r.result.map fun p => ⟨p, 1⟩
  | .point kind =>
    let r := b.table.registerGenerated kind none
    set (b.take k r)
    return some ⟨r.result, 1⟩
  | .wheel kind rays rigid =>
    let r := b.table.registerWheel kind rays
    set { b.take k r with rigidWheels := b.rigidWheels + if rigid then 1 else 0 }
    return r.result

end Build

namespace Section

/-- What the entries of a section produce, in declared order. -/
def productions (s : Section) : List Production :=
  s.entries.filterMap (production? s.keyword)

end Section

namespace Module

/-- The sections in the order of the build pass, each with its place in the module: by keyword in
canonical order, and in declared order under one keyword. -/
def visits (m : Module) : List (Section × Nat) :=
  Keyword.canonicalSequence.flatMap fun k => m.sections.zipIdx.filter fun s => s.1.keyword == k

/-- Visits the sections and returns, for each place visited, the positions of its entries. A
definition that was refused has none. -/
def buildVisits (m : Module) : StateM Build (List (Nat × List (Option Span))) :=
  m.visits.mapM fun (s, i) => do
    return (i, ← s.productions.mapM (Build.produce s.keyword))

end Module

/-- Positions of generated entries in closed form: each kind is filled up from its base offset, in
declared order. `used` holds how much of each kind is filled. -/
def generatedSpan (t : NodeTable) (p : Production) : StateM KindCounts (Option Span) := do
  match p.kind? with
  | none => return none
  | some k =>
    let used ← get
    set (used.add k p.width)
    return some ⟨t.baseOffset k + used.get k, p.width⟩

/-- The positions of every entry of a module: one list for each section, empty for sections that
produce nothing. -/
abbrev EntrySpans := List (List (Option Span))

namespace Module

/-- Definitions keep the positions they were handed, generated entries get theirs in closed
form. -/
def sectionSpans (t : NodeTable) (handed : List (Nat × List (Option Span))) (s : Section × Nat) :
    StateM KindCounts (List (Option Span)) :=
  if s.1.nodes?.isSome then pure ((handed.lookup s.2).getD [])
  else s.1.productions.mapM (generatedSpan t)

def entrySpans (m : Module) (t : NodeTable) (handed : List (Nat × List (Option Span))) :
    EntrySpans :=
  ((m.sections.zipIdx.mapM (sectionSpans t handed)).run KindCounts.zero).1

/-- The table positions in the order in which the document mentions the nodes. -/
def legacyOrder (spans : EntrySpans) : Array Nat :=
  (spans.flatten.flatMap fun s => (s.map Span.positions).getD []).toArray

end Module

/-- The node table of a module, with the positions of its entries. -/
structure Layout where
  table : NodeTable
  spans : EntrySpans
  findings : List Finding
  rigidWheels : Nat

/-- The build pass as a whole. -/
def Layout.of (m : Module) : Layout :=
  let (handed, b) := m.buildVisits.run Build.start
  let spans := m.entrySpans b.table handed
  { table := b.table.setLegacyOrder (Module.legacyOrder spans)
    spans := spans
    findings := b.findings.toList
    rigidWheels := b.rigidWheels }

end RigNodes
