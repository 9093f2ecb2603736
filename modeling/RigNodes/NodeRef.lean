/-! References to nodes. An author writes numbers and names; a resolved document holds slots,
and a reference for which there is no node becomes `unresolved`. A slot is never a number of the
author's, even where the two values are the same. -/
namespace RigNodes

/-- A position in a node table, as a document records it. Documents hold 32-bit positions. -/
structure Slot where
  index : UInt32
  deriving DecidableEq, Repr

namespace Slot

/-- The slot of a table position. Exact for positions below 2^32. -/
def ofPosition (p : Nat) : Slot := ⟨p.toUInt32⟩

def position (s : Slot) : Nat := s.index.toNat

/-- Slots show with a leading `#`. -/
def shown (s : Slot) : String := "#" ++ toString s.position

end Slot

inductive NodeRef
  | number (n : UInt32)
  | name (x : String)
  | slot (s : Slot)
  | unresolved
  deriving DecidableEq, Repr

namespace NodeRef

def isCanonical : NodeRef → Bool
  | slot _ => true
  | _ => false

def isUnresolved : NodeRef → Bool
  | unresolved => true
  | _ => false

def slot? : NodeRef → Option Slot
  | slot s => some s
  | _ => none

/-- The form used in messages. A name gets quotes and is not escaped. -/
def shown : NodeRef → String
  | number n => toString n.toNat
  | name x => "\"" ++ x ++ "\""
  | slot s => s.shown
  | unresolved => "<unresolved>"

end NodeRef

/-- Two ends of a run of nodes. The range does not own what lies between its ends: after the
nodes are put into table order other nodes may stand there. -/
structure NodeRange where
  start : NodeRef
  stop : NodeRef
  deriving DecidableEq, Repr

namespace NodeRange

def single (r : NodeRef) : NodeRange := ⟨r, r⟩

def isCanonical (r : NodeRange) : Bool := r.start.isCanonical && r.stop.isCanonical

def shown (r : NodeRange) : String := r.start.shown ++ "-" ++ r.stop.shown

/-- Whether the ends stand in order, for ranges whose ends are both slots. -/
def ordered? (r : NodeRange) : Option Bool := do
  let s ← r.start.slot?
  let e ← r.stop.slot?
  return s.position ≤ e.position

end NodeRange

end RigNodes
