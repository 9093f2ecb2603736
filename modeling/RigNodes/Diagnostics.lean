import RigNodes.Keyword

/-! Diagnostics. Work on a document never stops at a problem: each problem becomes a message,
tagged with the module and the section it was found in, and the caller looks at the counts. -/
namespace RigNodes

/-- From least to most severe. The resolver never raises `fatal`. -/
inductive Severity
  | info | warning | error | fatal
  deriving DecidableEq, Repr

namespace Severity

def text : Severity → String
  | info => "info"
  | warning => "warning"
  | error => "error"
  | fatal => "fatal"

def all : List Severity := [info, warning, error, fatal]

def ofText? (s : String) : Option Severity := all.find? fun x => x.text == s

end Severity

structure Message where
  severity : Severity
  keyword : Option Keyword
  moduleName : String
  text : String
  deriving DecidableEq, Repr

namespace Message

/-- Where a message belongs: module, keyword, both or neither. -/
def place (m : Message) : String :=
  match m.moduleName.isEmpty, m.keyword with
  | false, some k => m.moduleName ++ "/" ++ k.text ++ ": "
  | false, none => m.moduleName ++ ": "
  | true, some k => k.text ++ ": "
  | true, none => ""

def shown (m : Message) : String := m.severity.text ++ ": " ++ m.place ++ m.text

end Message

/-- Running counters of messages. Notices and fatal messages share one. -/
@[ext]
structure Counters where
  errors : Nat
  warnings : Nat
  others : Nat
  deriving DecidableEq, Repr

namespace Counters

def zero : Counters := ⟨0, 0, 0⟩

def raise (c : Counters) : Severity → Counters
  | .error => { c with errors := c.errors + 1 }
  | .warning => { c with warnings := c.warnings + 1 }
  | .info | .fatal => { c with others := c.others + 1 }

/-- The counters tell how many messages of each sort there are. -/
structure Agree (c : Counters) (ms : Array Message) : Prop where
  errors_eq : c.errors = ms.countP fun m => m.severity == .error
  warnings_eq : c.warnings = ms.countP fun m => m.severity == .warning
  others_eq : c.others = ms.countP fun m => m.severity == .info || m.severity == .fatal

theorem Agree.zero : zero.Agree #[] := ⟨rfl, rfl, rfl⟩

/-- A message raises the counter of its severity and no other. -/
theorem Agree.raise {c : Counters} {ms : Array Message} (h : c.Agree ms) (m : Message) :
    (c.raise m.severity).Agree (ms.push m) := by
  constructor <;> rw [Array.countP_push]
  case errors_eq => cases hm : m.severity <;> simp [Counters.raise, h.errors_eq]
  case warnings_eq => cases hm : m.severity <;> simp [Counters.raise, h.warnings_eq]
  case others_eq => cases hm : m.severity <;> simp [Counters.raise, h.others_eq]

end Counters

/-- An append-only log of messages. Its counters agree with it at any time. -/
structure Diagnostics where
  messages : Array Message
  counters : Counters
  agree : counters.Agree messages
  deriving DecidableEq, Repr

namespace Diagnostics

def empty : Diagnostics := ⟨#[], .zero, .zero⟩

def isEmpty (d : Diagnostics) : Bool := d.messages.isEmpty

def emit (d : Diagnostics) (m : Message) : Diagnostics where
  messages := d.messages.push m
  counters := d.counters.raise m.severity
  agree := d.agree.raise m

def emitAll (d : Diagnostics) (ms : List Message) : Diagnostics := ms.foldl emit d

def errorCount (d : Diagnostics) : Nat := d.counters.errors

def warningCount (d : Diagnostics) : Nat := d.counters.warnings

def otherCount (d : Diagnostics) : Nat := d.counters.others

/-- The messages of some severities, counted in the log. -/
def countOf (d : Diagnostics) (p : Severity → Bool) : Nat :=
  d.messages.countP fun m => p m.severity

theorem errorCount_eq (d : Diagnostics) : d.errorCount = d.countOf (· == .error) :=
  d.agree.errors_eq

theorem warningCount_eq (d : Diagnostics) : d.warningCount = d.countOf (· == .warning) :=
  d.agree.warnings_eq

theorem otherCount_eq (d : Diagnostics) :
    d.otherCount = d.countOf fun s => s == .info || s == .fatal :=
  d.agree.others_eq

/-- The severest message decides. -/
def highest? (d : Diagnostics) : Option Severity :=
  Severity.all.reverse.find? fun s => d.messages.any fun m => m.severity == s

/-- One line for each message. -/
def report (d : Diagnostics) : String :=
  String.join (d.messages.toList.map fun m => m.shown ++ "\n")

def summary (d : Diagnostics) : String :=
  toString d.errorCount ++ " error(s), " ++ toString d.warningCount ++ " warning(s), "
    ++ toString d.otherCount ++ " other"

end Diagnostics

end RigNodes
