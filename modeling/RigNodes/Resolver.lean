import RigNodes.ModuleRun

/-! The resolver: a node table under construction, the tables of the modules processed so far, and
what was noticed and counted. Callers build a table node by node, resolve single references, or
have a whole document processed. -/
namespace RigNodes

structure Options where
  /-- When false, nothing is registered and documents pass through. -/
  enabled : Bool
  /-- Whether a number without a node may stand for a place in the document. -/
  legacy : Bool
  deriving DecidableEq, Repr

structure Resolver where
  options : Options
  /-- The table of the module at hand, or of the last one. -/
  table : NodeTable
  finished : List ModuleTable
  diagnostics : Diagnostics
  stats : Stats
  moduleName : String
  deriving DecidableEq

/-- The nodes of one wheel. The rigidity node is none of them. -/
structure WheelNodes where
  span : Span
  rigid : Bool
  deriving DecidableEq, Repr

namespace Resolver

def new (o : Options) : Resolver where
  options := o
  table := .empty
  finished := []
  diagnostics := .empty
  stats := .zero
  moduleName := Module.rootName

/-- Starts over. Only the legacy option is kept. -/
def init (r : Resolver) (enabled : Bool) : Resolver := new { r.options with enabled }

/-- Switches to passing documents through and drops all tables. -/
def disable (r : Resolver) : Resolver :=
  { r with options := { r.options with enabled := false }, table := .empty, finished := [] }

def beginModule (r : Resolver) (name : String) : Resolver :=
  { r with table := .empty, moduleName := name }

def emit (r : Resolver) (fs : List Finding) : Resolver :=
  { r with diagnostics := r.diagnostics.emitAll (fs.map (Finding.message r.moduleName)) }

/-- Takes over a registration that was not made for a section: its notices carry the keyword of
the kind. -/
def take {α : Type} (r : Resolver) (k : Kind) (g : Registered α) : Resolver :=
  { r with table := g.table }.emit (g.notices.map fun n => ⟨some k.keyword, n⟩)

def registerNumber (r : Resolver) (n : UInt32) : Resolver × Bool :=
  if r.options.enabled then
    let g := r.table.registerNumber n
    (r.take .numbered g, g.result.isSome)
  else (r, false)

def registerName (r : Resolver) (x : String) : Resolver × Bool :=
  if r.options.enabled then
    let g := r.table.registerName x
    (r.take .named g, g.result.isSome)
  else (r, false)

def registerGenerated (r : Resolver) (k : Kind) (role : Option Role) : Resolver × Option Nat :=
  if r.options.enabled then
    let g := r.table.registerGenerated k role
    (r.take k g, some g.result)
  else (r, none)

def registerWheel (r : Resolver) (k : Kind) (rays : UInt32) (rigid : Bool) :
    Resolver × Option WheelNodes :=
  if r.options.enabled then
    let g := r.table.registerWheel k rays
    let r' := r.take k g
    match g.result with
    | some span =>
      ({ r' with stats := r'.stats + ⟨0, 0, 0, if rigid then 1 else 0⟩ }, some ⟨span, rigid⟩)
    | none => (r', none)
  else (r, none)

/-- The scope of references that stand in no section. -/
def scope (r : Resolver) : Scope := ⟨r.table, r.options.legacy, none⟩

/-- Takes over an answer that belongs to no section. -/
def absorb {α : Type} (r : Resolver) (o : Resolved α) : Resolver :=
  { r with stats := r.stats + o.stats }.emit (o.notices.map fun n => ⟨none, n⟩)

def resolve (r : Resolver) (x : NodeRef) : Resolver × NodeRef :=
  if r.options.enabled then
    let o := r.scope.resolve x
    (r.absorb o, o.value)
  else (r, x)

def resolveRange (r : Resolver) (x : NodeRange) : Resolver × NodeRange :=
  if r.options.enabled then
    let o := r.scope.resolveRange x
    (r.absorb o, o.value)
  else (r, x)

/-- The slot of a kind's node, counted from the first one of its group. -/
def resolveByPosition (r : Resolver) (k : Kind) (i : UInt32) : Resolver × NodeRef :=
  if r.options.enabled then
    let count := r.table.groupCount k
    if i.toNat < count then (r, .slot (.ofPosition (r.table.baseOffset k + i.toNat)))
    else (r.emit [⟨some k.keyword, .noNodeAtPosition k i count⟩], .unresolved)
  else (r, .unresolved)

/-- Takes over a processed module. Its table stays the current one. -/
def finish (r : Resolver) (run : ModuleRun) : Resolver :=
  { r with
    table := run.table
    moduleName := run.module.name
    finished := r.finished ++ [run.moduleTable]
    diagnostics := r.diagnostics.emitAll run.messages
    stats := r.stats + run.stats }

/-- The runs of a document's modules, none of which sees the others. -/
def runs (r : Resolver) (d : Document) : List ModuleRun := d.modules.map (Module.resolve r.options.legacy)

/-- Resolves every reference of a document, module by module. -/
def process (r : Resolver) (d : Document) : Resolver × Document :=
  if r.options.enabled then
    let done := r.runs d
    (done.foldl finish r, { d with modules := done.map ModuleRun.module })
  else (r, d)

end Resolver

end RigNodes
