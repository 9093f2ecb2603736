import Mathlib.Data.List.Basic
import RigNodes.Proofs.Walk.Laws

/-! The walk, field by field. What an entry refers to and what a replacement leaves of it are
written out here for each kind of entry, from its fields alone; the walk is shown to meet exactly
these references and to touch no other field. -/
namespace RigNodes

/-- The references and ranges that stand in the fields of an entry. -/
def fieldStops : (k : Keyword) → Entry k → List Mention
  | .nodes, _ | .nodes2, _ => []
  | .cinecam, e => e.nodes.toList.map .ref
  | .wheels, e => e.axis.toList.map .ref ++ e.rigidity.toList.map .ref ++ [.ref e.arm]
  | .wheels2, e => e.axis.toList.map .ref ++ e.rigidity.toList.map .ref ++ [.ref e.arm]
  | .meshwheels, e | .meshwheels2, e =>
      e.axis.toList.map .ref ++ e.rigidity.toList.map .ref ++ [.ref e.arm]
  | .flexbodywheels, e => e.axis.toList.map .ref ++ e.rigidity.toList.map .ref ++ [.ref e.arm]
  | .beams, e => e.ends.toList.map .ref
  | .shocks, e => e.ends.toList.map .ref
  | .hydros, e => e.ends.toList.map .ref
  | .commands, e => e.ends.toList.map .ref
  | .ropes, e => [.ref e.root, .ref e.tip]
  | .ties, e => [.ref e.root]
  | .fixes, e => [.ref e]
  | .hooks, e => [.ref e.node]
  | .slidenodes, e => .ref e.node :: e.rails.map .range
  | .railgroups, e => e.rails.map .range
  | .flexbodies, e =>
      [.ref e.reference, .ref e.xAxis, .ref e.yAxis] ++ e.nodes.map .range
  | .submesh, e => e.triangles.flatMap fun t => t.corners.toList.map .ref
  | .axles, e => e.wheels.toList.flatMap fun w => w.toList.map .ref
  | .cameras, e => [.ref e.center, .ref e.back, .ref e.left]

/-- Both ends of a range replaced. -/
def NodeRange.map (f : NodeRef → NodeRef) (r : NodeRange) : NodeRange := ⟨f r.start, f r.stop⟩

/-- An entry with the references in its fields replaced, and every other field as it is. -/
def mapFields (f : NodeRef → NodeRef) : (k : Keyword) → Entry k → Entry k
  | .nodes, e | .nodes2, e => e
  | .cinecam, e => { e with nodes := e.nodes.map f }
  | .wheels, e => { e with axis := e.axis.map f, rigidity := e.rigidity.map f, arm := f e.arm }
  | .wheels2, e => { e with axis := e.axis.map f, rigidity := e.rigidity.map f, arm := f e.arm }
  | .meshwheels, e | .meshwheels2, e =>
      { e with axis := e.axis.map f, rigidity := e.rigidity.map f, arm := f e.arm }
  | .flexbodywheels, e =>
      { e with axis := e.axis.map f, rigidity := e.rigidity.map f, arm := f e.arm }
  | .beams, e => { e with ends := e.ends.map f }
  | .shocks, e => { e with ends := e.ends.map f }
  | .hydros, e => { e with ends := e.ends.map f }
  | .commands, e => { e with ends := e.ends.map f }
  | .ropes, e => { e with root := f e.root, tip := f e.tip }
  | .ties, e => { e with root := f e.root }
  | .fixes, e => f e
  | .hooks, e => { e with node := f e.node }
  | .slidenodes, e => { e with node := f e.node, rails := e.rails.map (NodeRange.map f) }
  | .railgroups, e => { e with rails := e.rails.map (NodeRange.map f) }
  | .flexbodies, e =>
      { e with
        reference := f e.reference
        xAxis := f e.xAxis
        yAxis := f e.yAxis
        nodes := e.nodes.map (NodeRange.map f) }
  | .submesh, e =>
      { e with triangles := e.triangles.map fun t => { t with corners := t.corners.map f } }
  | .axles, e => { e with wheels := e.wheels.map fun w => w.map f }
  | .cameras, e => { e with center := f e.center, back := f e.back, left := f e.left }

section
variable {α β : Type} [HasRefs α] [HasRefs β]

/-- A value has the stops of the part that its walk goes through. -/
theorem mentions_of_walk {a : α} {b : β} (set : β → α)
    (h : ∀ {m : Type → Type} [Monad m] [LawfulMonad m] (v : Visitor m),
      walk v a = set <$> walk v b) : mentions a = mentions b := by
  unfold mentions
  rw [h, run_map]

theorem mentions_pair [LawfulRefs α] [LawfulRefs β] (a : α) (b : β) :
    mentions (a, b) = mentions a ++ mentions b := by
  have hrun : (walk Visitor.record (a, b)).run #[] =
      ((a, b), (mentions a).toArray ++ (mentions b).toArray) := by
    change (walk Visitor.record a >>= fun a => walk Visitor.record b >>= fun b =>
      (pure (a, b) : StateM (Array Mention) (α × β))).run #[] = _
    rw [run_bind, run_bind, run_walk_record, run_walk_record, run_pure]
    simp
  unfold mentions at hrun ⊢
  rw [hrun]
  simp

theorem mentions_option [LawfulRefs α] (o : Option α) :
    mentions o = o.toList.flatMap mentions := by
  cases o with
  | none => rfl
  | some a =>
      rw [Option.toList_some, List.flatMap_singleton]
      exact mentions_of_walk some fun v => by simp [walk]

theorem mentions_vector [LawfulRefs α] {n : Nat} (as : Vector α n) :
    mentions as = as.toList.flatMap mentions := by
  rw [← mentions_list]
  exact mentions_of_walk (fun l => vectorOr as l.toArray) fun v => walk_vector v as as

theorem mapRefs_option (f : NodeRef → NodeRef) (o : Option α) :
    mapRefs f o = o.map (mapRefs f) := by
  cases o <;> rfl

theorem mapRefs_vector (f : NodeRef → NodeRef) {n : Nat} (as : Vector α n) :
    mapRefs f as = as.map (mapRefs f) := by
  have hlist : mapRefs f as = vectorOr as (mapRefs f as.toList).toArray := by
    unfold mapRefs
    rw [walk_vector _ as as]
    rfl
  rw [hlist, mapRefs_list]
  apply Vector.toArray_inj.mp
  have hsize : (as.toList.map (mapRefs f)).toArray.size = n := by simp
  rw [vectorOr, dif_pos hsize, Vector.toArray_map]
  exact List.map_toArray.symm

end

section
variable {α : Type} [HasRefs α] (f : NodeRef → NodeRef)

theorem mentions_refs {n : Nat} (as : Vector NodeRef n) : mentions as = as.toList.map .ref := by
  rw [mentions_vector]
  exact List.map_eq_flatMap.symm

theorem mentions_optional (r : Option NodeRef) : mentions r = r.toList.map .ref := by
  rw [mentions_option]
  exact List.map_eq_flatMap.symm

theorem mentions_ranges (rs : List NodeRange) : mentions rs = rs.map .range := by
  rw [mentions_list]
  exact List.map_eq_flatMap.symm

theorem mentions_of_refs {a : α} {n : Nat} {as : Vector NodeRef n} (set : Vector NodeRef n → α)
    (h : ∀ {m : Type → Type} [Monad m] [LawfulMonad m] (v : Visitor m),
      walk v a = set <$> walk v as) : mentions a = as.toList.map .ref := by
  rw [mentions_of_walk set h]
  exact mentions_refs as

theorem mentions_of_wheel {a : α} {axis : Vector NodeRef 2} {rigidity : Option NodeRef}
    {arm : NodeRef} (set : Vector NodeRef 2 × Option NodeRef × NodeRef → α)
    (h : ∀ {m : Type → Type} [Monad m] [LawfulMonad m] (v : Visitor m),
      walk v a = set <$> walk v (axis, rigidity, arm)) :
    mentions a = axis.toList.map .ref ++ rigidity.toList.map .ref ++ [.ref arm] := by
  rw [mentions_of_walk set h, mentions_pair, mentions_pair, mentions_refs, mentions_optional,
    List.append_assoc]
  rfl

theorem mapRefs_refs {n : Nat} (as : Vector NodeRef n) : mapRefs f as = as.map f :=
  mapRefs_vector f as

theorem mapRefs_optional (r : Option NodeRef) : mapRefs f r = r.map f := mapRefs_option f r

theorem mapRefs_ranges (rs : List NodeRange) : mapRefs f rs = rs.map (NodeRange.map f) :=
  mapRefs_list f rs

end

/-- The walk meets the references that stand in the fields of an entry, in this order, and no
others. -/
theorem mentions_entry (k : Keyword) (e : Entry k) : mentions e = fieldStops k e := by
  cases k with
  | nodes | nodes2 | ropes | ties | fixes | hooks | cameras => rfl
  | cinecam => exact mentions_of_refs (fun x => { e with nodes := x }) fun v => by simp [walk]
  | wheels | wheels2 | meshwheels | meshwheels2 | flexbodywheels =>
      exact mentions_of_wheel (fun x => { e with axis := x.1, rigidity := x.2.1, arm := x.2.2 })
        fun v => by simp [walk]
  | beams | shocks | hydros | commands =>
      exact mentions_of_refs (fun x => { e with ends := x }) fun v => by simp [walk]
  | slidenodes =>
      rw [mentions_of_walk (b := (e.node, e.rails)) (fun x => { e with node := x.1, rails := x.2 })
        fun v => by simp [walk]]
      rw [mentions_pair, mentions_ranges]
      rfl
  | railgroups =>
      rw [mentions_of_walk (b := e.rails) (fun x => { e with rails := x }) fun v => by simp [walk]]
      exact mentions_ranges e.rails
  | flexbodies =>
      rw [mentions_of_walk (b := (e.reference, e.xAxis, e.yAxis, e.nodes))
        (fun x => { e with reference := x.1, xAxis := x.2.1, yAxis := x.2.2.1, nodes := x.2.2.2 })
        fun v => by simp [walk]]
      rw [mentions_pair, mentions_pair, mentions_pair, mentions_ranges]
      rfl
  | submesh =>
      rw [mentions_of_walk (b := e.triangles) (fun x => { e with triangles := x })
        fun v => by simp [walk]]
      rw [mentions_list]
      apply List.flatMap_congr
      intro t ht
      exact mentions_of_refs (fun x => { t with corners := x }) fun v => by simp [walk]
  | axles =>
      rw [mentions_of_walk (b := e.wheels) (fun x => { e with wheels := x })
        fun v => by simp [walk]]
      rw [mentions_vector]
      apply List.flatMap_congr
      intro w hw
      exact mentions_refs w

/-- A replacement puts other references into the fields of an entry and changes no other field. -/
theorem mapRefs_entry (f : NodeRef → NodeRef) (k : Keyword) (e : Entry k) :
    mapRefs f e = mapFields f k e := by
  cases k with
  | nodes | nodes2 | ropes | ties | fixes | hooks | cameras => rfl
  | cinecam | beams | shocks | hydros | commands =>
      simp only [mapFields, ← mapRefs_refs]
      rfl
  | wheels | wheels2 | meshwheels | meshwheels2 | flexbodywheels =>
      have haxis : e.axis.map f = mapRefs f e.axis := (mapRefs_refs f _).symm
      have hrigidity : e.rigidity.map f = mapRefs f e.rigidity := (mapRefs_optional f _).symm
      simp only [mapFields, haxis, hrigidity]
      rfl
  | slidenodes | railgroups | flexbodies =>
      simp only [mapFields, ← mapRefs_ranges]
      rfl
  | submesh =>
      have htriangles : (e.triangles.map fun t => { t with corners := t.corners.map f }) =
          mapRefs f e.triangles := by
        rw [mapRefs_list]
        apply List.map_congr_left
        intro t ht
        rw [← mapRefs_refs]
        rfl
      simp only [mapFields, htriangles]
      rfl
  | axles =>
      have hwheels : (e.wheels.map fun w => w.map f) = mapRefs f e.wheels := by
        rw [mapRefs_vector]
        apply congrArg (Vector.map · e.wheels)
        funext w
        exact (mapRefs_refs f w).symm
      simp only [mapFields, hwheels]
      rfl

end RigNodes
