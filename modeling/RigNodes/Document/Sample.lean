import RigNodes.Document.Shape

/-! Documents built in place: entries with usual values, and a small truck whose sections are
written out of canonical order. -/
namespace RigNodes

open Shape (tenths whole zero origin)

namespace Node

def ofId (id : NodeRef) : Node := ⟨id, origin, ""⟩

end Node

namespace Section

/-- Nodes with numbers. -/
def numberedNodes (ns : List UInt32) : Section := ⟨.nodes, ns.map fun n => .ofId (.number n)⟩

/-- Nodes with names. -/
def namedNodes (xs : List String) : Section := ⟨.nodes2, xs.map fun x => .ofId (.name x)⟩

/-- One beam for each pair. -/
def ofBeams (pairs : List (NodeRef × NodeRef)) : Section :=
  ⟨.beams, pairs.map fun (a, b) => ⟨#v[a, b], ""⟩⟩

end Section

/-- A camera point one and a half above the origin, with the usual springs. -/
def Cinecam.ofNumbers (ns : Vector UInt32 8) : Cinecam where
  position := #v[zero, tenths 15, zero]
  nodes := ns.map .number
  spring := whole 8000
  damping := whole 800

/-- A wheel of usual size without a rigidity node. -/
def Wheel.usual (rays : UInt32) (axis : Vector NodeRef 2) (arm : NodeRef) : Wheel where
  radius := tenths 5
  width := tenths 3
  rays
  axis
  rigidity := none
  arm
  mass := whole 100

def RimmedWheel.usual (rays : UInt32) (axis : Vector NodeRef 2) (arm : NodeRef) : RimmedWheel where
  rimRadius := tenths 3
  tyreRadius := tenths 5
  width := tenths 3
  rays
  axis
  rigidity := none
  arm
  mass := whole 100

def MeshWheel.usual (rays : UInt32) (axis : Vector NodeRef 2) (arm : NodeRef) : MeshWheel where
  tyreRadius := tenths 5
  rimRadius := tenths 3
  width := tenths 3
  rays
  axis
  rigidity := none
  arm
  mass := whole 100
  meshName := ""
  materialName := ""

def FlexbodyWheel.usual (rays : UInt32) (axis : Vector NodeRef 2) (arm : NodeRef) :
    FlexbodyWheel where
  rimRadius := tenths 3
  tyreRadius := tenths 5
  width := tenths 3
  rays
  axis
  rigidity := none
  arm
  mass := whole 100
  rimMeshName := ""
  tyreMeshName := ""

namespace Document

def sampleWheel (axis : UInt32 × UInt32) (arm : UInt32) : Wheel :=
  .usual 4 #v[.number axis.1, .number axis.2] (.number arm)

/-- Ten numbered nodes, two named ones, a camera point and two wheels. Wheels and camera point
stand before nodes that precede them in the table, and the named nodes come last. -/
def sampleTruck : Document :=
  withRoot "sample-truck"
    [⟨.wheels, [sampleWheel (0, 1) 2, { sampleWheel (3, 4) 5 with rigidity := some (.number 6) }]⟩,
      .numberedNodes [0, 1, 2, 3, 4, 5, 6, 7, 8, 9],
      .ofBeams [(.number 0, .number 1), (.number 1, .number 2), (.number 2, .number 3),
        (.number 8, .number 9)],
      .ofBeams [(.name "hitch", .number 9)],
      ⟨.cinecam, [.ofNumbers #v[0, 1, 2, 3, 4, 5, 6, 7]]⟩,
      ⟨.hooks, [⟨.name "hitch", tenths 4, none⟩]⟩,
      ⟨.axles, [⟨#v[#v[.number 0, .number 1], #v[.number 3, .number 4]], ""⟩]⟩,
      ⟨.cameras, [⟨.number 0, .number 1, .number 2⟩]⟩,
      ⟨.flexbodies, [⟨.number 0, .number 1, .number 2, origin, "body.mesh",
        [⟨.number 0, .number 9⟩, .single (.name "spare")]⟩]⟩,
      ⟨.slidenodes, [⟨.name "spare", [⟨.number 4, .number 7⟩], none⟩]⟩,
      .namedNodes ["hitch", "spare"]]

end Document

end RigNodes
