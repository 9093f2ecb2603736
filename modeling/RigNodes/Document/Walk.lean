import RigNodes.Document.Basic

/-! The walk over references. It meets every reference of an entry, a section or a document once,
in a fixed order, and may replace it. The ids of node definitions are not references: the walk
leaves them alone. -/
namespace RigNodes

/-- What is done with a reference and with a range. -/
structure Visitor (m : Type → Type) where
  ref : NodeRef → m NodeRef
  range : NodeRange → m NodeRange

/-- Treats the two ends of a range as plain references. -/
def Visitor.ofRef {m : Type → Type} [Monad m] (f : NodeRef → m NodeRef) : Visitor m where
  ref := f
  range r := do
    let start ← f r.start
    let stop ← f r.stop
    return ⟨start, stop⟩

/-- Things that hold references. -/
class HasRefs (α : Type) where
  walk {m : Type → Type} [Monad m] : Visitor m → α → m α

export HasRefs (walk)

instance : HasRefs NodeRef := ⟨fun v r => v.ref r⟩

instance : HasRefs NodeRange := ⟨fun v r => v.range r⟩

instance {α : Type} [HasRefs α] : HasRefs (Option α) where
  walk v
    | some a => do return some (← walk v a)
    | none => pure none

instance {α : Type} [HasRefs α] : HasRefs (List α) := ⟨fun v as => as.mapM (walk v)⟩

instance {α : Type} {n : Nat} [HasRefs α] : HasRefs (Vector α n) := ⟨fun v as => as.mapM (walk v)⟩

/-- The id of a definition is not visited. -/
instance : HasRefs Node := ⟨fun _ n => pure n⟩

instance : HasRefs Cinecam := ⟨fun v e => do return { e with nodes := ← walk v e.nodes }⟩

instance : HasRefs Wheel where
  walk v e := do
    let axis ← walk v e.axis
    let rigidity ← walk v e.rigidity
    let arm ← walk v e.arm
    return { e with axis, rigidity, arm }

instance : HasRefs RimmedWheel where
  walk v e := do
    let axis ← walk v e.axis
    let rigidity ← walk v e.rigidity
    let arm ← walk v e.arm
    return { e with axis, rigidity, arm }

instance : HasRefs MeshWheel where
  walk v e := do
    let axis ← walk v e.axis
    let rigidity ← walk v e.rigidity
    let arm ← walk v e.arm
    return { e with axis, rigidity, arm }

instance : HasRefs FlexbodyWheel where
  walk v e := do
    let axis ← walk v e.axis
    let rigidity ← walk v e.rigidity
    let arm ← walk v e.arm
    return { e with axis, rigidity, arm }

instance : HasRefs Beam := ⟨fun v e => do return { e with ends := ← walk v e.ends }⟩

instance : HasRefs Shock := ⟨fun v e => do return { e with ends := ← walk v e.ends }⟩

instance : HasRefs Hydro := ⟨fun v e => do return { e with ends := ← walk v e.ends }⟩

instance : HasRefs Command := ⟨fun v e => do return { e with ends := ← walk v e.ends }⟩

instance : HasRefs Rope where
  walk v e := do
    let root ← walk v e.root
    let tip ← walk v e.tip
    return { e with root, tip }

instance : HasRefs Tie := ⟨fun v e => do return { e with root := ← walk v e.root }⟩

instance : HasRefs Hook := ⟨fun v e => do return { e with node := ← walk v e.node }⟩

instance : HasRefs SlideNode where
  walk v e := do
    let node ← walk v e.node
    let rails ← walk v e.rails
    return { e with node, rails }

instance : HasRefs RailGroup := ⟨fun v e => do return { e with rails := ← walk v e.rails }⟩

instance : HasRefs Flexbody where
  walk v e := do
    let reference ← walk v e.reference
    let xAxis ← walk v e.xAxis
    let yAxis ← walk v e.yAxis
    let nodes ← walk v e.nodes
    return { e with reference, xAxis, yAxis, nodes }

instance : HasRefs CabTriangle := ⟨fun v e => do return { e with corners := ← walk v e.corners }⟩

instance : HasRefs Submesh := ⟨fun v e => do return { e with triangles := ← walk v e.triangles }⟩

instance : HasRefs Axle := ⟨fun v e => do return { e with wheels := ← walk v e.wheels }⟩

instance : HasRefs Camera where
  walk v e := do
    let center ← walk v e.center
    let back ← walk v e.back
    let left ← walk v e.left
    return { e with center, back, left }

instance : (k : Keyword) → HasRefs (Entry k)
  | .nodes | .nodes2 => inferInstanceAs (HasRefs Node)
  | .cinecam => inferInstanceAs (HasRefs Cinecam)
  | .wheels => inferInstanceAs (HasRefs Wheel)
  | .wheels2 => inferInstanceAs (HasRefs RimmedWheel)
  | .meshwheels | .meshwheels2 => inferInstanceAs (HasRefs MeshWheel)
  | .flexbodywheels => inferInstanceAs (HasRefs FlexbodyWheel)
  | .beams => inferInstanceAs (HasRefs Beam)
  | .shocks => inferInstanceAs (HasRefs Shock)
  | .hydros => inferInstanceAs (HasRefs Hydro)
  | .commands => inferInstanceAs (HasRefs Command)
  | .ropes => inferInstanceAs (HasRefs Rope)
  | .ties => inferInstanceAs (HasRefs Tie)
  | .fixes => inferInstanceAs (HasRefs NodeRef)
  | .hooks => inferInstanceAs (HasRefs Hook)
  | .slidenodes => inferInstanceAs (HasRefs SlideNode)
  | .railgroups => inferInstanceAs (HasRefs RailGroup)
  | .flexbodies => inferInstanceAs (HasRefs Flexbody)
  | .submesh => inferInstanceAs (HasRefs Submesh)
  | .axles => inferInstanceAs (HasRefs Axle)
  | .cameras => inferInstanceAs (HasRefs Camera)

instance : HasRefs Section := ⟨fun v s => do return ⟨s.keyword, ← walk v s.entries⟩⟩

instance : HasRefs Module := ⟨fun v m => do return { m with sections := ← walk v m.sections }⟩

instance : HasRefs Document := ⟨fun v d => do return { d with modules := ← walk v d.modules }⟩

/-- One stop of the walk: a reference on its own, or a range as a whole. -/
inductive Mention
  | ref (r : NodeRef)
  | range (r : NodeRange)
  deriving DecidableEq, Repr

namespace Mention

/-- A range stands for its two ends. -/
def refs : Mention → List NodeRef
  | ref r => [r]
  | range r => [r.start, r.stop]

def shown : Mention → String
  | ref r => r.shown
  | range r => "[" ++ r.shown ++ "]"

end Mention

/-- Notes every stop and replaces nothing. -/
def Visitor.record : Visitor (StateM (Array Mention)) where
  ref r := do
    modify fun seen => seen.push (.ref r)
    return r
  range r := do
    modify fun seen => seen.push (.range r)
    return r

/-- The stops of the walk, in order. -/
def mentions {α : Type} [HasRefs α] (a : α) : List Mention :=
  ((walk Visitor.record a).run #[]).2.toList

/-- All references in walk order, a range as its two ends. -/
def collectRefs {α : Type} [HasRefs α] (a : α) : List NodeRef :=
  (mentions a).flatMap Mention.refs

/-- Replaces every reference by its image. -/
def mapRefs {α : Type} [HasRefs α] (f : NodeRef → NodeRef) (a : α) : α :=
  Id.run (walk (Visitor.ofRef fun r => pure (f r)) a)

end RigNodes
