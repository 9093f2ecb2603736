import RigNodes.Notice
import RigNodes.Table.Basic

/-! Registration: appending nodes to a table by the rules for ids and for order. A registration
never fails outright; it says what it noticed and what it appended. -/
namespace RigNodes

/-- What a registration leaves behind. -/
structure Registered (α : Type) where
  table : NodeTable
  notices : List Notice
  result : α

namespace NodeTable

/-- A kind that comes after a canonically later one breaks the sums behind `baseOffset`. -/
def sequenceNotices (t : NodeTable) (k : Kind) : List Notice :=
  match t.highestRank? with
  | some r => if k.rank < r then [.outOfSequence k] else []
  | none => []

/-- The first node with a number keeps it. -/
def registerNumber (t : NodeTable) (n : UInt32) : Registered (Option Nat) :=
  let early := t.sequenceNotices .numbered
  match t.pushNumber n with
  | .ok t' => ⟨t', early, some t.size⟩
  | .error p => ⟨t, early ++ [.duplicateNumber n p], none⟩

/-- The first node with a name keeps it. -/
def registerName (t : NodeTable) (x : String) : Registered (Option Nat) :=
  let early := t.sequenceNotices .named
  match t.pushName x with
  | .ok t' => ⟨t', early, some t.size⟩
  | .error p => ⟨t, early ++ [.duplicateName x p], none⟩

def registerGenerated (t : NodeTable) (k : Kind) (role : Option Role) : Registered Nat :=
  ⟨t.pushGenerated k role 0, t.sequenceNotices k, t.size⟩

/-- One ring of a wheel: for each ray the node on side A, then the one on side B. -/
def ring (a b : Role) (rays : Nat) : List (Role × Nat) :=
  (List.range rays).flatMap fun r => [(a, r), (b, r)]

/-- The nodes of a wheel in table order: the rim ring, if there is one, before the tyre ring. -/
def wheelNodes (perRay rays : Nat) : List (Role × Nat) :=
  (if perRay = 4 then ring .rimA .rimB rays else []) ++ ring .tyreA .tyreB rays

def registerWheel (t : NodeTable) (k : Kind) (rays : UInt32) : Registered (Option Span) :=
  match k.nodesPerRay? with
  | none => ⟨t, [.noWheelKind k], none⟩
  | some n =>
    let nodes := wheelNodes n rays.toNat
    let t' := nodes.foldl (fun t (role, ray) => t.pushGenerated k (some role) ray) t
    ⟨t', t.sequenceNotices k, some ⟨t.size, rays.toNat * n⟩⟩

/-- A definition of a document. An id that is a slot already keeps its node; whether that node had
a number or a name can no longer be told, so the kind is the one given. -/
def define (t : NodeTable) (slotKind : Kind) (id : NodeRef) : Registered (Option Nat) :=
  match id with
  | .number n => t.registerNumber n
  | .name x => t.registerName x
  | .slot s =>
    let moved := if Slot.ofPosition t.size = s then [] else [.definitionMoved s t.size]
    ⟨t.push ⟨slotKind, none, some id, 0⟩, moved, some t.size⟩
  | .unresolved => ⟨t, [.definitionWithoutId], none⟩

end NodeTable

end RigNodes
