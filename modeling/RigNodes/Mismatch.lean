import RigNodes.Number.Decimal
import RigNodes.Text.Quoted

/-! Data that does not fit the shape it is read with, and how this is said. -/
namespace RigNodes

/-- What stands where something else was expected. -/
inductive Found
  | null
  | flag (b : Bool)
  | integer (i : Int)
  | float (x : Double)
  | text (s : String)
  | list
  | map
  | bareVariant
  deriving DecidableEq, Repr

/-- Names and values are shown between backquotes. -/
def named (s : String) : String := "`" ++ s ++ "`"

def Found.shown : Found → String
  | null => "null"
  | flag b => "boolean " ++ named (if b then "true" else "false")
  | integer i => "integer " ++ named (toString i)
  | float x => "floating point " ++ named x.shown
  | text s => "string " ++ Text.quoted s
  | list => "sequence"
  | map => "map"
  | bareVariant => "unit variant"

inductive Mismatch
  | wrongType (found : Found) (expected : String)
  | wrongValue (found : Found) (expected : String)
  | wrongLength (length : Nat) (expected : String)
  | missingField (name : String)
  | duplicateField (name : String)
  | unknownVariant (name : String) (known : List String)
  deriving DecidableEq, Repr

namespace Mismatch

def message : Mismatch → String
  | wrongType f e => s!"invalid type: {f.shown}, expected {e}"
  | wrongValue f e => s!"invalid value: {f.shown}, expected {e}"
  | wrongLength n e => s!"invalid length {n}, expected {e}"
  | missingField x => s!"missing field {named x}"
  | duplicateField x => s!"duplicate field {named x}"
  | unknownVariant x known =>
    let list := String.intercalate ", " (known.map named)
    s!"unknown variant {named x}, expected one of {list}"

end Mismatch

end RigNodes
