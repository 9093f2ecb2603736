import RigNodes.Layout
import RigNodes.Resolution

/-! The run over one module: its node table is built, then every definition and every reference is
replaced by its slot, in declared order. The outcome depends on the module and the options alone, so
modules never see each other's nodes. -/
namespace RigNodes

namespace Scope

/-- A definition takes the slot it was handed. Any other entry has its references resolved, while
the nodes that it generates itself are known. -/
def settleEntry (s : Scope) (span : Option Span) (k : Keyword) (e : Entry k) :
    StateM Tally (Entry k) :=
  match k, e with
  | .nodes, e | .nodes2, e =>
    let id : NodeRef := match span with
      | some p => .slot (.ofPosition p.start)
      | none => .unresolved
    let node : Node := { e with id }
    pure node
  | k, e => walk ({ s with defining := span } : Scope).visitor (α := Entry k) e

/-- Settles the entries of a section, each with its own positions. Entries beyond the last
position have none. -/
def settleEntries (s : Scope) (k : Keyword) :
    List (Option Span) → List (Entry k) → StateM Tally (List (Entry k))
  | _, [] => pure []
  | spans, e :: es => do
    let e' ← s.settleEntry spans.head?.join k e
    let es' ← settleEntries s k spans.tail es
    return e' :: es'

/-- Settles one section on its own. -/
def settleSection (s : Scope) (spans : List (Option Span)) (c : Section) : Section × Tally :=
  let (es, t) := (s.settleEntries c.keyword spans c.entries).run .zero
  (⟨c.keyword, es⟩, t)

end Scope

namespace Tally

/-- What was noticed, tagged with the section it was noticed in. -/
def findings (t : Tally) (k : Keyword) : List Finding :=
  t.notices.toList.map fun n => ⟨some k, n⟩

end Tally

/-- What becomes of one module. -/
structure ModuleRun where
  module : Module
  table : NodeTable
  /-- From the build pass. -/
  building : List Finding
  /-- From the references, and a closing count of self-references. -/
  settling : List Finding
  stats : Stats

namespace ModuleRun

/-- A module with references to its own generated nodes gets one closing notice. -/
def closing (selfReferences : Nat) : List Finding :=
  if 0 < selfReferences then [⟨none, .selfReferences selfReferences⟩] else []

def messages (r : ModuleRun) : List Message :=
  (r.building ++ r.settling).map (Finding.message r.module.name)

def moduleTable (r : ModuleRun) : ModuleTable := ⟨r.module.name, r.table⟩

end ModuleRun

/-- Processes a module in a scope of its own. -/
def Module.resolve (legacy : Bool) (m : Module) : ModuleRun :=
  let layout := Layout.of m
  let scope : Scope := ⟨layout.table, legacy, none⟩
  let settled := (m.sections.zip layout.spans).map fun (c, spans) => scope.settleSection spans c
  let stats := settled.foldl (fun a c => a + c.2.stats) ⟨0, 0, 0, layout.rigidWheels⟩
  { module := { m with sections := settled.map Prod.fst }
    table := layout.table
    building := layout.findings
    settling :=
      settled.flatMap (fun c => c.2.findings c.1.keyword) ++ ModuleRun.closing stats.resolvedToSelf
    stats := stats }

end RigNodes
