import RigNodes.Resolver
import RigNodes.Text.Quoted

/-! The trace of a resolver: the events that a run leaves in a log, in order. -/
namespace RigNodes

inductive Level
  | trace | debug | info | warn | error
  deriving DecidableEq, Repr

def Level.text : Level → String
  | trace => "TRACE"
  | debug => "DEBUG"
  | info => "INFO"
  | warn => "WARN"
  | error => "ERROR"

/-- What happened, with the data that the log shows. -/
inductive Event
  | noticed (m : Message)
  | tableBuilt (moduleName : String) (t : NodeTable)
  | node (moduleName : String) (p : Nat) (e : TableEntry)
  | processed (d : Document) (stats : Stats) (errors warnings : Nat)
  | passedThrough (d : Document)

namespace Event

def level : Event → Level
  | noticed m =>
    match m.severity with
    | .info => .info
    | .warning => .warn
    | .error | .fatal => .error
  | tableBuilt .. | processed .. | passedThrough .. => .debug
  | node .. => .trace

/-- An id in the log names its form. -/
def shownId : Option NodeRef → String
  | none => "None"
  | some (.number n) => s!"Some(Number({n.toNat}))"
  | some (.name x) => s!"Some(Name({Text.quoted x}))"
  | some (.slot s) => s!"Some(Slot(Slot({s.position})))"
  | some .unresolved => "Some(Unresolved)"

/-- The fields of an event with their texts. -/
def fields : Event → List (String × String)
  | noticed m =>
    [("module", m.moduleName), ("keyword", (m.keyword.map Keyword.text).getD "-")]
      ++ (if m.severity = .fatal then [("fatal", "true")] else [])
      ++ [("message", m.text)]
  | tableBuilt name t =>
    [("module", name), ("total", toString t.size), ("numbered", toString (t.count .numbered)),
      ("named", toString (t.count .named)), ("cinecam", toString (t.count .cinecam)),
      ("wheels", toString (t.count .wheels)), ("wheels2", toString (t.count .wheels2)),
      ("meshwheels", toString (t.count .meshwheels)),
      ("meshwheels2", toString (t.count .meshwheels2)),
      ("flexbodywheels", toString (t.count .flexbodywheels)), ("message", "node table built")]
  | node name p e =>
    [("module", name), ("slot", toString p), ("origin", e.origin.shown),
      ("role", (e.role.map Role.text).getD "-"), ("user_id", shownId e.userId),
      ("sub_index", toString e.ray), ("message", "node")]
  | processed d s errors warnings =>
    [("document", d.name), ("modules", toString d.modules.length),
      ("resolved", toString s.totalResolved), ("resolved_to_self", toString s.resolvedToSelf),
      ("errors", toString errors), ("warnings", toString warnings),
      ("message", "document processed")]
  | passedThrough d =>
    [("document", d.name), ("message", "resolver disabled, references left as-is")]

end Event

/-- A module is logged as its table is built, then as its references are resolved. -/
def ModuleRun.events (r : ModuleRun) : List Event :=
  (r.building.map fun f => .noticed (f.message r.module.name))
    ++ [.tableBuilt r.module.name r.table]
    ++ (r.table.entries.toList.zipIdx.map fun (e, p) => .node r.module.name p e)
    ++ (r.settling.map fun f => .noticed (f.message r.module.name))

/-- The events of processing a document. -/
def Resolver.events (r : Resolver) (d : Document) : List Event :=
  if r.options.enabled then
    let done := (r.process d).1
    (r.runs d).flatMap ModuleRun.events
      ++ [.processed d done.stats done.diagnostics.errorCount done.diagnostics.warningCount]
  else [.passedThrough d]

end RigNodes
