import RigNodes.Keyword

/-! Kinds of nodes. The node table holds the kinds in groups, in a canonical order that does not
depend on the order of the document; numbered and named nodes share the first group. -/
namespace RigNodes

/-- Where a node of the table comes from. -/
inductive Kind
  | numbered | named | cinecam | wheels | wheels2 | meshwheels | meshwheels2 | flexbodywheels
  deriving DecidableEq, Repr

namespace Kind

def all : List Kind :=
  [numbered, named, cinecam, wheels, wheels2, meshwheels, meshwheels2, flexbodywheels]

/-- The place of a kind among all kinds, for counters. -/
def index : Kind → Fin 8
  | numbered => 0
  | named => 1
  | cinecam => 2
  | wheels => 3
  | wheels2 => 4
  | meshwheels => 5
  | meshwheels2 => 6
  | flexbodywheels => 7

/-- The place of the kind's group in the table. -/
def rank : Kind → Nat
  | numbered | named => 0
  | cinecam => 1
  | wheels => 2
  | wheels2 => 3
  | meshwheels => 4
  | meshwheels2 => 5
  | flexbodywheels => 6

def sameGroup (a b : Kind) : Bool := a.rank == b.rank

/-- Nodes that a wheel of this kind has for each ray: a tyre ring has two, and a rim ring adds two
more. Other kinds make no wheel nodes. -/
def nodesPerRay? : Kind → Option Nat
  | wheels | meshwheels | meshwheels2 => some 2
  | wheels2 | flexbodywheels => some 4
  | numbered | named | cinecam => none

/-- The keyword that messages about a kind carry. -/
def keyword : Kind → Keyword
  | numbered | named => .nodes
  | cinecam => .cinecam
  | wheels => .wheels
  | wheels2 => .wheels2
  | meshwheels => .meshwheels
  | meshwheels2 => .meshwheels2
  | flexbodywheels => .flexbodywheels

/-- The kind of the nodes that the sections of a keyword generate. Node sections generate none:
there the id of each node decides. -/
def generatedBy? : Keyword → Option Kind
  | .cinecam => some cinecam
  | .wheels => some wheels
  | .wheels2 => some wheels2
  | .meshwheels => some meshwheels
  | .meshwheels2 => some meshwheels2
  | .flexbodywheels => some flexbodywheels
  | _ => none

/-- The form used in messages and text dumps. -/
def shown : Kind → String
  | numbered => "nodes"
  | named => "nodes-named"
  | cinecam => "cinecam"
  | wheels => "wheels"
  | wheels2 => "wheels2"
  | meshwheels => "meshwheels"
  | meshwheels2 => "meshwheels2"
  | flexbodywheels => "flexbodywheels"

/-- The form used where a table is written as data. -/
def tag : Kind → String
  | numbered => "numberednodes"
  | named => "namednodes"
  | k => k.shown

def ofShown? (s : String) : Option Kind := all.find? fun k => k.shown == s

end Kind

/-- The part that a generated node plays in its wheel. -/
inductive Role
  | tyreA | tyreB | rimA | rimB
  deriving DecidableEq, Repr

namespace Role

def text : Role → String
  | tyreA => "tyre-a"
  | tyreB => "tyre-b"
  | rimA => "rim-a"
  | rimB => "rim-b"

def ofText? (s : String) : Option Role :=
  [tyreA, tyreB, rimA, rimB].find? fun r => r.text == s

end Role

end RigNodes
