import RigNodes.Number.Single

/-! Data to be written, whatever the format it is written in. -/
namespace RigNodes

/-- A tree of plain values. A variant is one of several alternatives, marked with its name. -/
inductive Datum
  | null
  | flag (b : Bool)
  | integer (i : Int)
  | single (x : Single)
  | text (s : String)
  | list (items : List Datum)
  | record (fields : List (String × Datum))
  | variant (name : String) (content : Datum)

end RigNodes
