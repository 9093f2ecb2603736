/-! Section keywords. A rig definition is written in sections, and each section opens with one
of these words. -/
namespace RigNodes

/-- The first eight keywords open sections that add nodes to the rig, the others open sections
that only refer to nodes. -/
inductive Keyword
  | nodes | nodes2 | cinecam | wheels | wheels2 | meshwheels | meshwheels2 | flexbodywheels
  | beams | shocks | hydros | commands | ropes | ties | fixes | hooks | slidenodes | railgroups
  | flexbodies | submesh | axles | cameras
  deriving DecidableEq, Repr

namespace Keyword

/-- The keyword as it stands in a document. -/
def text : Keyword → String
  | nodes => "nodes"
  | nodes2 => "nodes2"
  | cinecam => "cinecam"
  | wheels => "wheels"
  | wheels2 => "wheels2"
  | meshwheels => "meshwheels"
  | meshwheels2 => "meshwheels2"
  | flexbodywheels => "flexbodywheels"
  | beams => "beams"
  | shocks => "shocks"
  | hydros => "hydros"
  | commands => "commands"
  | ropes => "ropes"
  | ties => "ties"
  | fixes => "fixes"
  | hooks => "hooks"
  | slidenodes => "slidenodes"
  | railgroups => "railgroups"
  | flexbodies => "flexbodies"
  | submesh => "submesh"
  | axles => "axles"
  | cameras => "cameras"

/-- Every keyword once, producers first. Messages that list the keywords use this order. -/
def all : List Keyword :=
  [nodes, nodes2, cinecam, wheels, wheels2, meshwheels, meshwheels2, flexbodywheels,
    beams, shocks, hydros, commands, ropes, ties, fixes, hooks, slidenodes, railgroups,
    flexbodies, submesh, axles, cameras]

/-- Case matters: `Nodes` is no keyword. -/
def ofText? (s : String) : Option Keyword :=
  all.find? fun k => k.text == s

/-- The order in which the node table is built, whatever the order in the document. -/
def canonicalSequence : List Keyword :=
  [nodes, nodes2, cinecam, wheels, wheels2, meshwheels, meshwheels2, flexbodywheels]

def producesNodes (k : Keyword) : Bool :=
  canonicalSequence.contains k

/-- The place of a keyword in the build order, for producers only. -/
def step? (k : Keyword) : Option Nat :=
  canonicalSequence.idxOf? k

end Keyword

end RigNodes
