import RigNodes.Mismatch

/-! JSON text as a tree that keeps its faults. A fault of the text stands in the tree where it was
met, so that a reader going through the tree in source order meets the same problem first as one
going through the text. -/
namespace RigNodes.Json

/-- Why a document is refused: the text is no JSON, it ends too early, or its data does not fit. -/
inductive Fault
  | malformed
  | cut
  | data (m : Mismatch)
  deriving DecidableEq, Repr

inductive Atom
  | null
  | flag (b : Bool)
  | integer (i : Int)
  | float (x : Double)
  deriving DecidableEq, Repr

mutual

/-- Text and atoms keep two outcomes, one for readers that want the value and one for those that
pass over it, who care neither about the range of numbers nor about half surrogate pairs. -/
inductive Tree
  /-- No value starts here. -/
  | absent (f : Fault)
  | text (decoded : Except Fault String) (passed : Except Fault Unit)
  | atom (decoded : Except Fault Atom) (passed : Except Fault Unit)
  | list (items : Items)
  | map (members : Members)

/-- What follows in a list: its end, a fault where an end or a comma should be, a fault after a
comma, or an item. -/
inductive Items
  | closed
  | broken (f : Fault)
  | afterComma (f : Fault)
  | cons (item : Tree) (rest : Items)

/-- What follows in a map, in the same way. Keys that are not text are kept for the sake of what
is said about them. -/
inductive Members
  | closed
  | broken (f : Fault)
  | afterComma (f : Fault)
  | cons (key value : Tree) (rest : Members)

end

def Atom.found : Atom → Found
  | null => .null
  | flag b => .flag b
  | integer i => .integer i
  | float x => .float x

namespace Tree

/-- What a reader finds who wants something else. It does not look inside lists and maps. -/
def found : Tree → Except Fault Found
  | absent f => .error f
  | text decoded _ => decoded.map .text
  | atom decoded _ => decoded.map Atom.found
  | list _ => .ok .list
  | map _ => .ok .map

/-- The fault of a tree of another type than wanted. -/
def wrongType {α : Type} (t : Tree) (expected : String) : Except Fault α := do
  let f ← t.found
  .error (.data (.wrongType f expected))

end Tree

mutual

/-- Passes over a value that nobody asked for. -/
def Tree.skip : Tree → Except Fault Unit
  | .absent f => .error f
  | .text _ passed => passed
  | .atom _ passed => passed
  | .list items => items.skip
  | .map members => members.skip

def Items.skip : Items → Except Fault Unit
  | .closed => .ok ()
  | .broken f | .afterComma f => .error f
  | .cons t rest => do
    t.skip
    rest.skip

/-- Only text can be a key. -/
def Members.skip : Members → Except Fault Unit
  | .closed => .ok ()
  | .broken f | .afterComma f => .error f
  | .cons key value rest => do
    match key with
    | .text _ passed => passed
    | .absent f => .error f
    | _ => .error .malformed
    value.skip
    rest.skip

end

end RigNodes.Json
