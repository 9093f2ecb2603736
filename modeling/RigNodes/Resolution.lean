import RigNodes.Document.Walk
import RigNodes.Table.Basic
import RigNodes.Notice

/-! Resolution of references against one node table. Numbers and names become slots; what cannot
be resolved becomes `unresolved` and leaves an error. Nothing here changes the table. -/
namespace RigNodes

/-- Running counts of a resolution. -/
structure Stats where
  totalResolved : Nat
  resolvedToSelf : Nat
  byLegacyPosition : Nat
  rigidWheels : Nat
  deriving DecidableEq, Repr

namespace Stats

def zero : Stats := ⟨0, 0, 0, 0⟩

def add (a b : Stats) : Stats where
  totalResolved := a.totalResolved + b.totalResolved
  resolvedToSelf := a.resolvedToSelf + b.resolvedToSelf
  byLegacyPosition := a.byLegacyPosition + b.byLegacyPosition
  rigidWheels := a.rigidWheels + b.rigidWheels

instance : Add Stats := ⟨add⟩

end Stats

/-- The table that references are looked up in, with what decides besides it: whether numbers may
stand for legacy positions, and the nodes generated by the entry at hand. -/
structure Scope where
  table : NodeTable
  legacy : Bool
  defining : Option Span

/-- The answer to one lookup, with what was noticed and counted. -/
structure Resolved (α : Type) where
  value : α
  notices : List Notice
  stats : Stats

namespace Scope

/-- Old documents could mean a generated node by its place in the document. A place whose node has
an id of its own is not meant. -/
def legacyPosition? (s : Scope) (n : UInt32) : Option (Nat × TableEntry) := do
  guard s.legacy
  let p ← s.table.legacySlot? n.toNat
  let e ← s.table.get? p
  guard e.userId.isNone
  return (p, e)

/-- The position of a defined or legacy node, noting a reference of an entry to its own nodes. -/
def found (s : Scope) (r : NodeRef) (p : Nat) (notices : List Notice) (legacy : Nat) :
    Resolved NodeRef :=
  let own := s.defining.any fun span => span.contains p
  { value := .slot (.ofPosition p)
    notices := notices ++ if own then [.selfReference r p] else []
    stats := ⟨1, if own then 1 else 0, legacy, 0⟩ }

def notFound (n : Notice) : Resolved NodeRef := ⟨.unresolved, [n], .zero⟩

/-- Slots are kept, even outside the table. Names and numbers are looked up in their index, numbers
then by legacy position. -/
def resolve (s : Scope) (r : NodeRef) : Resolved NodeRef :=
  match r with
  | .slot x =>
    ⟨r, if x.position < s.table.size then [] else [.slotOutsideTable x s.table.size], .zero⟩
  | .unresolved => ⟨.unresolved, [.invalidReference], .zero⟩
  | .name x =>
    match s.table.findName? x with
    | some p => s.found r p [] 0
    | none => notFound (.nameNotFound x)
  | .number n =>
    match s.table.findNumber? n with
    | some p => s.found r p [] 0
    | none =>
      match s.legacyPosition? n with
      | some (p, e) => s.found r p [.byLegacyPosition n e.origin p] 1
      | none => notFound (.numberNotDefined n)

/-- Whether nodes of different groups stand between two positions. Only positions inside the table
have a node. -/
def spansGroups (s : Scope) (start stop : Nat) : Bool :=
  let last := min stop (s.table.size - 1)
  match (s.table.entries.extract start (last + 1)).toList with
  | [] => false
  | e :: es => es.any fun x => !x.origin.sameGroup e.origin

/-- What is wrong with a range whose ends are resolved. A range is never repaired. -/
def rangeNotices (s : Scope) (written : NodeRange) (start stop : Slot) : List Notice :=
  if stop.position < start.position then [.rangeReversed written start stop]
  else if s.spansGroups start.position stop.position then [.rangeSpansGroups written start stop]
  else []

/-- Resolves both ends. A range that was written with slots is not looked at again. -/
def resolveRange (s : Scope) (r : NodeRange) : Resolved NodeRange :=
  let start := s.resolve r.start
  let stop := s.resolve r.stop
  let notices :=
    match start.value.slot?, stop.value.slot? with
    | some a, some b => if r.isCanonical then [] else s.rangeNotices r a b
    | _, _ => [.rangeUnresolved r]
  ⟨⟨start.value, stop.value⟩, start.notices ++ stop.notices ++ notices, start.stats + stop.stats⟩

end Scope

/-- What a walk over references has noticed and counted so far. -/
structure Tally where
  notices : Array Notice
  stats : Stats

namespace Tally

def zero : Tally := ⟨#[], .zero⟩

def add {α : Type} (t : Tally) (r : Resolved α) : Tally :=
  ⟨t.notices ++ r.notices.toArray, t.stats + r.stats⟩

end Tally

/-- Puts every reference it meets in place of its slot. -/
def Scope.visitor (s : Scope) : Visitor (StateM Tally) where
  ref r := modifyGet fun t => let o := s.resolve r; (o.value, t.add o)
  range r := modifyGet fun t => let o := s.resolveRange r; (o.value, t.add o)

end RigNodes
