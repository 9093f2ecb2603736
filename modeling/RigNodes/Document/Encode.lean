import RigNodes.Datum
import RigNodes.Document.Shape

/-! Documents as data to be written, by their shape. -/
namespace RigNodes

def NodeRef.datum : NodeRef → Datum
  | .number n => .variant "number" (.integer n.toNat)
  | .name x => .variant "name" (.text x)
  | .slot s => .variant "slot" (.integer s.position)
  | .unresolved => .text "unresolved"

mutual

def Shape.encode : {α : Type} → Shape α → α → Datum
  | _, .word, n => .integer n.toNat
  | _, .integer, i => .integer i.toInt
  | _, .single, x => .single x
  | _, .flag, b => .flag b
  | _, .text, s => .text s
  | _, .reference, r => r.datum
  | _, .optional s, a? => (a?.map s.encode).getD .null
  | _, .list s, as => .list (as.map s.encode)
  | _, .array _ s, v => .list (v.toList.map s.encode)
  | _, .record _ fields _ parts _, a => .record (fields.encode (parts a))
  | _, .block entry, s =>
    .record [("keyword", .text s.keyword.text),
      ("entries", .list (s.entries.map (entry s.keyword).encode))]

/-- The fields in order, without those that are left out. -/
def Fields.encode : {α : Type} → Fields α → α → List (String × Datum)
  | _, .done, _ => []
  | _, .cons name s presence rest, (a, others) =>
    (if presence.isWritten a then [(name, s.encode a)] else []) ++ rest.encode others

end

def NodeRange.datum (r : NodeRange) : Datum := Shape.range.encode r

def Document.datum (d : Document) : Datum := Shape.document.encode d

end RigNodes
