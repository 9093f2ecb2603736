import RigNodes.NodeRef
import RigNodes.Table.Kind

/-! The node table: an append-only list of entries with two indexes, by number and by name.
Positions are never reused or moved once handed out. The table counts its entries by kind, so that
the first position of a group is a sum of counts; this holds as long as entries are appended in
canonical order. -/
namespace RigNodes

/-- One node of a table. `userId` is the id as the author wrote it, and generated nodes have none.
`ray` is the ray of a wheel node and zero otherwise. -/
structure TableEntry where
  origin : Kind
  role : Option Role
  userId : Option NodeRef
  ray : Nat
  deriving DecidableEq, Repr

/-- A run of positions. -/
structure Span where
  start : Nat
  length : Nat
  deriving DecidableEq, Repr

namespace Span

def contains (s : Span) (p : Nat) : Bool := s.start ≤ p && p < s.start + s.length

def isEmpty (s : Span) : Bool := s.length == 0

def positions (s : Span) : List Nat := List.range' s.start s.length

end Span

/-- A counter for each kind. -/
abbrev KindCounts := Vector Nat 8

namespace KindCounts

def zero : KindCounts := Vector.replicate 8 0

def get (c : KindCounts) (k : Kind) : Nat := Vector.get c k.index

def add (c : KindCounts) (k : Kind) (n : Nat) : KindCounts :=
  c.set k.index (c.get k + n)

/-- The counts of all kinds with a property, added up. -/
def total (c : KindCounts) (p : Kind → Bool) : Nat :=
  (Kind.all.filter p).foldr (fun k n => c.get k + n) 0

end KindCounts

structure NodeTable where
  entries : Array TableEntry
  /-- Registered numbers with their positions, latest first. -/
  numbers : List (UInt32 × Nat)
  /-- Registered names with their positions, latest first. -/
  names : List (String × Nat)
  counts : KindCounts
  /-- The table positions in the order of the document, if recorded. -/
  legacyOrder : Array Nat
  deriving DecidableEq

namespace NodeTable

def empty : NodeTable := ⟨#[], [], [], KindCounts.zero, #[]⟩

instance : Inhabited NodeTable := ⟨empty⟩

def size (t : NodeTable) : Nat := t.entries.size

def isEmpty (t : NodeTable) : Bool := t.size == 0

def get? (t : NodeTable) (p : Nat) : Option TableEntry := t.entries[p]?

def findNumber? (t : NodeTable) (n : UInt32) : Option Nat := t.numbers.lookup n

def findName? (t : NodeTable) (x : String) : Option Nat := t.names.lookup x

/-- Appends an entry as it is and leaves the indexes alone. -/
def push (t : NodeTable) (e : TableEntry) : NodeTable :=
  { t with entries := t.entries.push e, counts := t.counts.add e.origin 1 }

def pushGenerated (t : NodeTable) (k : Kind) (role : Option Role) (ray : Nat) : NodeTable :=
  t.push ⟨k, role, none, ray⟩

/-- Appends a node under a number. A number that is taken gives back its position instead. -/
def pushNumber (t : NodeTable) (n : UInt32) : Except Nat NodeTable :=
  match t.findNumber? n with
  | some p => .error p
  | none =>
    .ok { t.push ⟨.numbered, none, some (.number n), 0⟩ with numbers := (n, t.size) :: t.numbers }

/-- Appends a node under a name. A name that is taken gives back its position instead. -/
def pushName (t : NodeTable) (x : String) : Except Nat NodeTable :=
  match t.findName? x with
  | some p => .error p
  | none =>
    .ok { t.push ⟨.named, none, some (.name x), 0⟩ with names := (x, t.size) :: t.names }

def setLegacyOrder (t : NodeTable) (order : Array Nat) : NodeTable :=
  { t with legacyOrder := order }

/-- The position of the node that stood at place `i` of the document. -/
def legacySlot? (t : NodeTable) (i : Nat) : Option Nat := t.legacyOrder[i]?

/-- Entries of exactly this kind. -/
def count (t : NodeTable) (k : Kind) : Nat := t.counts.get k

/-- Entries in the group of a kind. -/
def groupCount (t : NodeTable) (k : Kind) : Nat := t.counts.total k.sameGroup

/-- The first position of a kind's group: the size of all groups before it. -/
def baseOffset (t : NodeTable) (k : Kind) : Nat := t.counts.total fun j => j.rank < k.rank

/-- The rank of the last group that has entries. -/
def highestRank? (t : NodeTable) : Option Nat :=
  ((Kind.all.filter fun k => 0 < t.count k).map Kind.rank).max?

end NodeTable

/-- The table of one processed module. -/
structure ModuleTable where
  name : String
  table : NodeTable
  deriving DecidableEq

end RigNodes
