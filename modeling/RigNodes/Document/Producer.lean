import RigNodes.Document.Basic
import RigNodes.Table.Kind

/-! What an entry adds to the node table: a node of its own, a generated point, or the rings of a
wheel. Entries of the other sections add nothing. -/
namespace RigNodes

/-- What all kinds of wheels have in common. -/
structure WheelForm where
  rays : UInt32
  axis : Vector NodeRef 2
  rigidity : Option NodeRef
  deriving DecidableEq, Repr

/-- Entries of the five wheel sections, seen as wheels. -/
def wheelForm? : (k : Keyword) → Entry k → Option WheelForm
  | .wheels, e => some ⟨e.rays, e.axis, e.rigidity⟩
  | .wheels2, e => some ⟨e.rays, e.axis, e.rigidity⟩
  | .meshwheels, e | .meshwheels2, e => some ⟨e.rays, e.axis, e.rigidity⟩
  | .flexbodywheels, e => some ⟨e.rays, e.axis, e.rigidity⟩
  | _, _ => none

inductive Production
  | definition (id : NodeRef)
  | point (k : Kind)
  | wheel (k : Kind) (rays : UInt32) (rigid : Bool)
  deriving DecidableEq, Repr

/-- What an entry produces. A rigidity node is declared elsewhere and takes no slot here. -/
def production? (k : Keyword) (e : Entry k) : Option Production :=
  match k, e with
  | .nodes, e | .nodes2, e => some (.definition e.id)
  | k, e =>
    match Kind.generatedBy? k, wheelForm? k e with
    | some kind, some w => some (.wheel kind w.rays w.rigidity.isSome)
    | some kind, none => some (.point kind)
    | none, _ => none

namespace Production

/-- How many nodes a generated production takes in the table. -/
def width : Production → Nat
  | definition _ => 1
  | point _ => 1
  | wheel k rays _ => rays.toNat * (k.nodesPerRay?.getD 0)

/-- The kind of the generated nodes. A definition has no kind before its id is looked at. -/
def kind? : Production → Option Kind
  | definition _ => none
  | point k => some k
  | wheel k _ _ => some k

end Production

end RigNodes
