import RigNodes.Document.Encode
import RigNodes.Json.Printer
import RigNodes.Table.Basic
import RigNodes.Text.Blank

/-! Dumps of finished node tables, as lines of text or as JSON. -/
namespace RigNodes

/-- One line for a node: its position, its kind, its id, and its part in a wheel, in columns. -/
def TableEntry.line (p : Nat) (e : TableEntry) : String :=
  let id := match e.userId with
    | some r => " " ++ r.shown
    | none => ""
  let role := match e.role with
    | some r => " " ++ Text.padRight 7 r.text ++ " ray " ++ toString e.ray
    | none => ""
  Text.trimEnd
    ("  " ++ Text.padRight 5 ("#" ++ toString p) ++ " " ++ Text.padRight 15 e.origin.shown ++ id ++ role)

/-- What a node has of its own; a role or an id that it lacks is left out. -/
def TableEntry.datum (e : TableEntry) : Datum :=
  .record <|
    [("origin", .text e.origin.tag)]
      ++ (e.role.map fun r => ("role", Datum.text r.text)).toList
      ++ (e.userId.map fun r => ("user_id", r.datum)).toList
      ++ [("sub_index", .integer e.ray)]

namespace ModuleTable

def heading (m : ModuleTable) : String := s!"module {m.name} ({m.table.size} nodes)"

def lines (m : ModuleTable) : List String :=
  m.heading :: m.table.entries.toList.zipIdx.map fun (e, p) => e.line p

def datum (m : ModuleTable) : Datum :=
  .record [("module", .text m.name), ("nodes", .list (m.table.entries.toList.map TableEntry.datum))]

/-- The dump of a list of tables as text. -/
def dumpText (ms : List ModuleTable) : String :=
  String.join ((ms.flatMap lines).map fun l => l ++ "\n")

/-- The dump of a list of tables as JSON. -/
def dumpJson (ms : List ModuleTable) : String := Json.text (.list (ms.map datum))

end ModuleTable

end RigNodes
