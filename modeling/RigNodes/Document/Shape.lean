import RigNodes.Document.Basic

/-! The shape of documents in files: the names of all fields, their order, and what stands for a
field that is left out. Readers and writers of every format go by it. -/
namespace RigNodes

/-- When a field may be missing, and when it is not written. -/
inductive Presence (α : Type)
  | required
  /-- May be missing and is always written. -/
  | defaulted (value : α)
  /-- May be missing, and is not written when it has the value that stands for it. -/
  | omitted (value : α) (isDefault : α → Bool)
      (isDefault_iff : ∀ a, isDefault a = true ↔ a = value := by simp)

namespace Presence

variable {α : Type}

def default? : Presence α → Option α
  | required => none
  | defaulted a => some a
  | omitted a _ _ => some a

def isWritten : Presence α → α → Bool
  | omitted _ isDefault _, a => !isDefault a
  | _, _ => true

end Presence

mutual

/-- How values of a type stand in a document. -/
inductive Shape : Type → Type 1
  | word : Shape UInt32
  | integer : Shape Int32
  | single : Shape Single
  | flag : Shape Bool
  | text : Shape String
  | reference : Shape NodeRef
  | optional {α : Type} (s : Shape α) : Shape (Option α)
  | list {α : Type} (s : Shape α) : Shape (List α)
  | array {α : Type} (n : Nat) (s : Shape α) : Shape (Vector α n)
  | record {α β : Type} (name : String) (fields : Fields α) (build : α → β) (parts : β → α)
      (build_parts : ∀ b, build (parts b) = b := by intro _; rfl) : Shape β
  | block (entry : (k : Keyword) → Shape (Entry k)) : Shape Section

/-- The fields of a record, in order, as nested pairs. -/
inductive Fields : Type → Type 1
  | done : Fields Unit
  | cons {α β : Type} (name : String) (shape : Shape α) (presence : Presence α)
      (rest : Fields β) : Fields (α × β)

end

namespace Fields

variable {α β : Type}

/-- A field that has to be there. -/
def required (name : String) (s : Shape α) (rest : Fields β) : Fields (α × β) :=
  .cons name s .required rest

/-- A field with a value that stands for it. -/
def defaulted (name : String) (s : Shape α) (a : α) (rest : Fields β) : Fields (α × β) :=
  .cons name s (.defaulted a) rest

/-- A remark of the author, left out if empty. -/
def options (rest : Fields β) : Fields (String × β) :=
  .cons "options" .text (.omitted "" (fun s => s == "")) rest

/-- A value that is left out if there is none. -/
def absentable (name : String) (s : Shape α) (rest : Fields β) : Fields (Option α × β) :=
  .cons name (.optional s) (.omitted none Option.isNone) rest

def size {α : Type} : Fields α → Nat
  | .done => 0
  | .cons _ _ _ rest => rest.size + 1

/-- The values of a record while it is read: each is there or not yet. -/
def Found {α : Type} : Fields α → Type
  | .done => Unit
  | .cons (α := α) _ _ _ rest => Option α × rest.Found

def noneFound {α : Type} : (fs : Fields α) → fs.Found
  | .done => ()
  | .cons _ _ _ rest => (none, rest.noneFound)

/-- The values of a record that is read to its end. Says the first field that is missing and has
no value that stands for it. -/
def complete : {α : Type} → (fs : Fields α) → fs.Found → Except String α
  | _, .done, _ => .ok ()
  | _, .cons (α := α) name _ presence rest, found => do
    let (a?, others) : Option α × rest.Found := found
    match a?.or presence.default? with
    | some a => return (a, ← rest.complete others)
    | none => .error name

end Fields

/-- An array with one more item in front. -/
def Shape.cons {α : Type} {n : Nat} (a : α) (v : Vector α n) : Vector α (n + 1) :=
  ⟨#[a] ++ v.toArray, by simp [Nat.add_comm]⟩

namespace Shape

open Fields (required defaulted options absentable)

/-- Three coordinates. -/
def position : Shape (Vector Single 3) := .array 3 .single

def zero : Single := ⟨0⟩

def origin : Vector Single 3 := Vector.replicate 3 zero

/-- The value nearest to `n / 10`. -/
def tenths (n : Nat) : Single := .ofDecimal false ⟨n, -1⟩

def whole (n : Nat) : Single := .ofInt n

def range : Shape NodeRange :=
  .record "NodeRange" (required "start" .reference <| required "end" .reference .done)
    (fun (start, stop, _) => ⟨start, stop⟩) (fun r => (r.start, r.stop, ()))

def node : Shape Node :=
  .record "Node"
    (required "id" .reference <| defaulted "position" position origin <| options .done)
    (fun (id, position, options, _) => ⟨id, position, options⟩)
    (fun e => (e.id, e.position, e.options, ()))

def cinecam : Shape Cinecam :=
  .record "Cinecam"
    (defaulted "position" position origin <| required "nodes" (.array 8 .reference) <|
      defaulted "spring" .single (whole 8000) <| defaulted "damping" .single (whole 800) .done)
    (fun (position, nodes, spring, damping, _) => ⟨position, nodes, spring, damping⟩)
    (fun e => (e.position, e.nodes, e.spring, e.damping, ()))

def wheel : Shape Wheel :=
  .record "Wheel"
    (required "radius" .single <| required "width" .single <| required "num_rays" .word <|
      required "nodes" (.array 2 .reference) <| absentable "rigidity_node" .reference <|
      required "reference_arm_node" .reference <| defaulted "mass" .single zero .done)
    (fun (radius, width, rays, axis, rigidity, arm, mass, _) =>
      ⟨radius, width, rays, axis, rigidity, arm, mass⟩)
    (fun e => (e.radius, e.width, e.rays, e.axis, e.rigidity, e.arm, e.mass, ()))

def rimmedWheel : Shape RimmedWheel :=
  .record "Wheel2"
    (required "rim_radius" .single <| required "tyre_radius" .single <|
      required "width" .single <| required "num_rays" .word <|
      required "nodes" (.array 2 .reference) <| absentable "rigidity_node" .reference <|
      required "reference_arm_node" .reference <| defaulted "mass" .single zero .done)
    (fun (rimRadius, tyreRadius, width, rays, axis, rigidity, arm, mass, _) =>
      ⟨rimRadius, tyreRadius, width, rays, axis, rigidity, arm, mass⟩)
    (fun e => (e.rimRadius, e.tyreRadius, e.width, e.rays, e.axis, e.rigidity, e.arm, e.mass, ()))

def meshWheel : Shape MeshWheel :=
  .record "MeshWheel"
    (required "tyre_radius" .single <| required "rim_radius" .single <|
      required "width" .single <| required "num_rays" .word <|
      required "nodes" (.array 2 .reference) <| absentable "rigidity_node" .reference <|
      required "reference_arm_node" .reference <| defaulted "mass" .single zero <|
      defaulted "mesh_name" .text "" <| defaulted "material_name" .text "" .done)
    (fun (tyreRadius, rimRadius, width, rays, axis, rigidity, arm, mass, mesh, material, _) =>
      ⟨tyreRadius, rimRadius, width, rays, axis, rigidity, arm, mass, mesh, material⟩)
    (fun e => (e.tyreRadius, e.rimRadius, e.width, e.rays, e.axis, e.rigidity, e.arm, e.mass,
      e.meshName, e.materialName, ()))

def flexbodyWheel : Shape FlexbodyWheel :=
  .record "FlexBodyWheel"
    (required "rim_radius" .single <| required "tyre_radius" .single <|
      required "width" .single <| required "num_rays" .word <|
      required "nodes" (.array 2 .reference) <| absentable "rigidity_node" .reference <|
      required "reference_arm_node" .reference <| defaulted "mass" .single zero <|
      defaulted "rim_mesh_name" .text "" <| defaulted "tyre_mesh_name" .text "" .done)
    (fun (rimRadius, tyreRadius, width, rays, axis, rigidity, arm, mass, rimMesh, tyreMesh, _) =>
      ⟨rimRadius, tyreRadius, width, rays, axis, rigidity, arm, mass, rimMesh, tyreMesh⟩)
    (fun e => (e.rimRadius, e.tyreRadius, e.width, e.rays, e.axis, e.rigidity, e.arm, e.mass,
      e.rimMeshName, e.tyreMeshName, ()))

def beam : Shape Beam :=
  .record "Beam" (required "nodes" (.array 2 .reference) <| options .done)
    (fun (ends, options, _) => ⟨ends, options⟩) (fun e => (e.ends, e.options, ()))

def shock : Shape Shock :=
  .record "Shock"
    (required "nodes" (.array 2 .reference) <| required "spring" .single <|
      required "damping" .single <| required "short_bound" .single <|
      required "long_bound" .single <| defaulted "precompression" .single (whole 1) .done)
    (fun (ends, spring, damping, shortBound, longBound, precompression, _) =>
      ⟨ends, spring, damping, shortBound, longBound, precompression⟩)
    (fun e => (e.ends, e.spring, e.damping, e.shortBound, e.longBound, e.precompression, ()))

def hydro : Shape Hydro :=
  .record "Hydro"
    (required "nodes" (.array 2 .reference) <| required "lengthening_factor" .single <|
      options .done)
    (fun (ends, factor, options, _) => ⟨ends, factor, options⟩)
    (fun e => (e.ends, e.lengtheningFactor, e.options, ()))

def command : Shape Command :=
  .record "Command"
    (required "nodes" (.array 2 .reference) <| required "shorten_rate" .single <|
      required "lengthen_rate" .single <| required "max_contraction" .single <|
      required "max_extension" .single <| required "contract_key" .word <|
      required "extend_key" .word .done)
    (fun (ends, shorten, lengthen, contraction, extension, contractKey, extendKey, _) =>
      ⟨ends, shorten, lengthen, contraction, extension, contractKey, extendKey⟩)
    (fun e => (e.ends, e.shortenRate, e.lengthenRate, e.maxContraction, e.maxExtension,
      e.contractKey, e.extendKey, ()))

def rope : Shape Rope :=
  .record "Rope"
    (required "root_node" .reference <| required "end_node" .reference <|
      defaulted "invisible" .flag false .done)
    (fun (root, tip, invisible, _) => ⟨root, tip, invisible⟩)
    (fun e => (e.root, e.tip, e.invisible, ()))

def tie : Shape Tie :=
  .record "Tie"
    (required "root_node" .reference <| required "max_reach_length" .single <|
      defaulted "auto_shorten_rate" .single zero <|
      defaulted "group" (.optional .integer) none .done)
    (fun (root, reach, rate, group, _) => ⟨root, reach, rate, group⟩)
    (fun e => (e.root, e.maxReachLength, e.autoShortenRate, e.group, ()))

def hook : Shape Hook :=
  .record "Hook"
    (required "node" .reference <| defaulted "range" .single (tenths 4) <|
      defaulted "group" (.optional .integer) none .done)
    (fun (node, range, group, _) => ⟨node, range, group⟩)
    (fun e => (e.node, e.range, e.group, ()))

def slideNode : Shape SlideNode :=
  .record "SlideNode"
    (required "slide_node" .reference <| defaulted "rail_nodes" (.list range) [] <|
      absentable "railgroup_id" .word .done)
    (fun (node, rails, railGroup, _) => ⟨node, rails, railGroup⟩)
    (fun e => (e.node, e.rails, e.railGroup, ()))

def railGroup : Shape RailGroup :=
  .record "RailGroup" (required "id" .word <| required "node_list" (.list range) .done)
    (fun (id, rails, _) => ⟨id, rails⟩) (fun e => (e.id, e.rails, ()))

def flexbody : Shape Flexbody :=
  .record "Flexbody"
    (required "reference_node" .reference <| required "x_axis_node" .reference <|
      required "y_axis_node" .reference <| defaulted "offset" position origin <|
      required "mesh_name" .text <| defaulted "node_list" (.list range) [] .done)
    (fun (base, xAxis, yAxis, offset, meshName, nodes, _) =>
      ⟨base, xAxis, yAxis, offset, meshName, nodes⟩)
    (fun e => (e.reference, e.xAxis, e.yAxis, e.offset, e.meshName, e.nodes, ()))

def cabTriangle : Shape CabTriangle :=
  .record "CabTriangle" (required "nodes" (.array 3 .reference) <| options .done)
    (fun (corners, options, _) => ⟨corners, options⟩) (fun e => (e.corners, e.options, ()))

def submesh : Shape Submesh :=
  .record "Submesh"
    (defaulted "backmesh" .flag false <| defaulted "cab_triangles" (.list cabTriangle) [] .done)
    (fun (backmesh, triangles, _) => ⟨backmesh, triangles⟩)
    (fun e => (e.backmesh, e.triangles, ()))

def axle : Shape Axle :=
  .record "Axle" (required "wheels" (.array 2 (.array 2 .reference)) <| options .done)
    (fun (wheels, options, _) => ⟨wheels, options⟩) (fun e => (e.wheels, e.options, ()))

def camera : Shape Camera :=
  .record "Camera"
    (required "center_node" .reference <| required "back_node" .reference <|
      required "left_node" .reference .done)
    (fun (center, back, left, _) => ⟨center, back, left⟩)
    (fun e => (e.center, e.back, e.left, ()))

def entry : (k : Keyword) → Shape (Entry k)
  | .nodes | .nodes2 => node
  | .cinecam => cinecam
  | .wheels => wheel
  | .wheels2 => rimmedWheel
  | .meshwheels | .meshwheels2 => meshWheel
  | .flexbodywheels => flexbodyWheel
  | .beams => beam
  | .shocks => shock
  | .hydros => hydro
  | .commands => command
  | .ropes => rope
  | .ties => tie
  | .fixes => .reference
  | .hooks => hook
  | .slidenodes => slideNode
  | .railgroups => railGroup
  | .flexbodies => flexbody
  | .submesh => submesh
  | .axles => axle
  | .cameras => camera

def module : Shape Module :=
  .record "Module"
    (required "name" .text <| defaulted "sections" (.list (.block entry)) [] .done)
    (fun (name, sections, _) => ⟨name, sections⟩) (fun m => (m.name, m.sections, ()))

def document : Shape Document :=
  .record "Document"
    (defaulted "name" .text "" <| required "modules" (.list module) .done)
    (fun (name, modules, _) => ⟨name, modules⟩) (fun d => (d.name, d.modules, ()))

end Shape

end RigNodes
