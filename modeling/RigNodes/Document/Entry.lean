import RigNodes.Keyword
import RigNodes.NodeRef
import RigNodes.Number.Single

/-! Entries of the sections of a rig definition, one structure for each kind of line. -/
namespace RigNodes

/-- A node definition. The id alone decides how the node is found, so either node section may
hold numbers and names. -/
structure Node where
  id : NodeRef
  position : Vector Single 3
  options : String
  deriving DecidableEq, Repr

/-- A camera point, bound by springs to eight nodes. It adds one node. -/
structure Cinecam where
  position : Vector Single 3
  nodes : Vector NodeRef 8
  spring : Single
  damping : Single
  deriving DecidableEq, Repr

/-- A wheel with tyre nodes only. -/
structure Wheel where
  radius : Single
  width : Single
  rays : UInt32
  axis : Vector NodeRef 2
  rigidity : Option NodeRef
  arm : NodeRef
  mass : Single
  deriving DecidableEq, Repr

/-- A wheel with a rim ring and a tyre ring. -/
structure RimmedWheel where
  rimRadius : Single
  tyreRadius : Single
  width : Single
  rays : UInt32
  axis : Vector NodeRef 2
  rigidity : Option NodeRef
  arm : NodeRef
  mass : Single
  deriving DecidableEq, Repr

/-- A wheel whose tyre ring carries a mesh. -/
structure MeshWheel where
  tyreRadius : Single
  rimRadius : Single
  width : Single
  rays : UInt32
  axis : Vector NodeRef 2
  rigidity : Option NodeRef
  arm : NodeRef
  mass : Single
  meshName : String
  materialName : String
  deriving DecidableEq, Repr

/-- A wheel whose rim and tyre both carry flexible meshes. -/
structure FlexbodyWheel where
  rimRadius : Single
  tyreRadius : Single
  width : Single
  rays : UInt32
  axis : Vector NodeRef 2
  rigidity : Option NodeRef
  arm : NodeRef
  mass : Single
  rimMeshName : String
  tyreMeshName : String
  deriving DecidableEq, Repr

structure Beam where
  ends : Vector NodeRef 2
  options : String
  deriving DecidableEq, Repr

structure Shock where
  ends : Vector NodeRef 2
  spring : Single
  damping : Single
  shortBound : Single
  longBound : Single
  precompression : Single
  deriving DecidableEq, Repr

structure Hydro where
  ends : Vector NodeRef 2
  lengtheningFactor : Single
  options : String
  deriving DecidableEq, Repr

structure Command where
  ends : Vector NodeRef 2
  shortenRate : Single
  lengthenRate : Single
  maxContraction : Single
  maxExtension : Single
  contractKey : UInt32
  extendKey : UInt32
  deriving DecidableEq, Repr

structure Rope where
  root : NodeRef
  tip : NodeRef
  invisible : Bool
  deriving DecidableEq, Repr

structure Tie where
  root : NodeRef
  maxReachLength : Single
  autoShortenRate : Single
  group : Option Int32
  deriving DecidableEq, Repr

structure Hook where
  node : NodeRef
  range : Single
  group : Option Int32
  deriving DecidableEq, Repr

/-- A node that slides along rails, given as ranges or by the id of a rail group. -/
structure SlideNode where
  node : NodeRef
  rails : List NodeRange
  railGroup : Option UInt32
  deriving DecidableEq, Repr

structure RailGroup where
  id : UInt32
  rails : List NodeRange
  deriving DecidableEq, Repr

/-- A mesh that follows the listed nodes, placed relative to three of them. -/
structure Flexbody where
  reference : NodeRef
  xAxis : NodeRef
  yAxis : NodeRef
  offset : Vector Single 3
  meshName : String
  nodes : List NodeRange
  deriving DecidableEq, Repr

structure CabTriangle where
  corners : Vector NodeRef 3
  options : String
  deriving DecidableEq, Repr

structure Submesh where
  backmesh : Bool
  triangles : List CabTriangle
  deriving DecidableEq, Repr

/-- Two wheels coupled, each given by its pair of axis nodes. -/
structure Axle where
  wheels : Vector (Vector NodeRef 2) 2
  options : String
  deriving DecidableEq, Repr

structure Camera where
  center : NodeRef
  back : NodeRef
  left : NodeRef
  deriving DecidableEq, Repr

/-- The entries that a section with the given keyword holds. -/
@[reducible] def Entry : Keyword → Type
  | .nodes | .nodes2 => Node
  | .cinecam => Cinecam
  | .wheels => Wheel
  | .wheels2 => RimmedWheel
  | .meshwheels | .meshwheels2 => MeshWheel
  | .flexbodywheels => FlexbodyWheel
  | .beams => Beam
  | .shocks => Shock
  | .hydros => Hydro
  | .commands => Command
  | .ropes => Rope
  | .ties => Tie
  | .fixes => NodeRef
  | .hooks => Hook
  | .slidenodes => SlideNode
  | .railgroups => RailGroup
  | .flexbodies => Flexbody
  | .submesh => Submesh
  | .axles => Axle
  | .cameras => Camera

instance : (k : Keyword) → DecidableEq (Entry k)
  | .nodes | .nodes2 => inferInstanceAs (DecidableEq Node)
  | .cinecam => inferInstanceAs (DecidableEq Cinecam)
  | .wheels => inferInstanceAs (DecidableEq Wheel)
  | .wheels2 => inferInstanceAs (DecidableEq RimmedWheel)
  | .meshwheels | .meshwheels2 => inferInstanceAs (DecidableEq MeshWheel)
  | .flexbodywheels => inferInstanceAs (DecidableEq FlexbodyWheel)
  | .beams => inferInstanceAs (DecidableEq Beam)
  | .shocks => inferInstanceAs (DecidableEq Shock)
  | .hydros => inferInstanceAs (DecidableEq Hydro)
  | .commands => inferInstanceAs (DecidableEq Command)
  | .ropes => inferInstanceAs (DecidableEq Rope)
  | .ties => inferInstanceAs (DecidableEq Tie)
  | .fixes => inferInstanceAs (DecidableEq NodeRef)
  | .hooks => inferInstanceAs (DecidableEq Hook)
  | .slidenodes => inferInstanceAs (DecidableEq SlideNode)
  | .railgroups => inferInstanceAs (DecidableEq RailGroup)
  | .flexbodies => inferInstanceAs (DecidableEq Flexbody)
  | .submesh => inferInstanceAs (DecidableEq Submesh)
  | .axles => inferInstanceAs (DecidableEq Axle)
  | .cameras => inferInstanceAs (DecidableEq Camera)

end RigNodes
