import RigNodes.Proofs.StateRun
import RigNodes.Proofs.Walk.Lawful

/-! Laws of the walk: what collecting finds after a replacement, when two replacements agree, and
what a walk with a running state leaves behind. -/
namespace RigNodes

section
variable {α : Type} [HasRefs α] [LawfulRefs α]

theorem run_mapM_record (ns : List Mention) (seen : Array Mention) :
    (ns.mapM Visitor.record.stop).run seen = (ns, seen ++ ns.toArray) := by
  induction ns generalizing seen with
  | nil => simp [run_mapM_nil, -List.mapM_nil]
  | cons x ns ih =>
      have hx : (Visitor.record.stop x).run seen = (x, seen.push x) := by
        cases x <;> rfl
      rw [run_mapM_cons, hx, ih]
      simp

theorem exists_fill_mentions (a : α) :
    ∃ fill, Fills fill (mentions a) ∧ fill (mentions a) = a := by
  obtain ⟨fill, stops, hf, rfl⟩ := LawfulRefs.exists_fill a
  have hstops : mentions (fill stops) = stops := by
    simp only [mentions, hf.walk_fill stops rfl, run_map, run_mapM_record]
    simp
  exact ⟨fill, by rw [hstops]; exact hf, by rw [hstops]⟩

omit [LawfulRefs α] in
theorem Fills.mentions_fill {fill : List Mention → α} {stops ns : List Mention}
    (hf : Fills fill stops) (h : SameForm ns stops) : mentions (fill ns) = ns := by
  simp only [mentions, hf.walk_fill ns h, run_map, run_mapM_record]
  simp

omit [LawfulRefs α] in
theorem Fills.mapRefs_fill {fill : List Mention → α} {stops ns : List Mention}
    (hf : Fills fill stops) (h : SameForm ns stops) (f : NodeRef → NodeRef) :
    mapRefs f (fill ns) = fill (ns.map (Mention.map f)) := by
  have hstop : (fun x => (Visitor.stop (Visitor.ofRef fun r => (pure (f r) : Id NodeRef)) x).run) =
      Mention.map f := by
    funext x
    cases x <;> rfl
  simp [mapRefs, hf.walk_fill ns h, hstop]

theorem mentions_mapRefs (f : NodeRef → NodeRef) (a : α) :
    mentions (mapRefs f a) = (mentions a).map (Mention.map f) := by
  obtain ⟨fill, hf, ha⟩ := exists_fill_mentions a
  have hm := hf.mapRefs_fill rfl f
  rw [ha] at hm
  rw [hm, hf.mentions_fill (SameForm.map f _)]

theorem collectRefs_mapRefs (f : NodeRef → NodeRef) (a : α) :
    collectRefs (mapRefs f a) = (collectRefs a).map f := by
  simp only [collectRefs, mentions_mapRefs, List.flatMap_map, List.map_flatMap, Mention.refs_map]

theorem mapRefs_congr {f g : NodeRef → NodeRef} {a : α}
    (h : ∀ r ∈ collectRefs a, f r = g r) : mapRefs f a = mapRefs g a := by
  obtain ⟨fill, hf, ha⟩ := exists_fill_mentions a
  have hm : (mentions a).map (Mention.map f) = (mentions a).map (Mention.map g) := by
    refine List.map_congr_left fun x hx => ?_
    have hr : ∀ r ∈ x.refs, f r = g r := fun r hr => h r (List.mem_flatMap.mpr ⟨x, hx, hr⟩)
    cases x <;> simp_all [Mention.map, Mention.refs]
  have hfa := hf.mapRefs_fill rfl f
  have hga := hf.mapRefs_fill rfl g
  rw [ha] at hfa hga
  rw [hfa, hga, hm]

theorem mapRefs_id (a : α) : mapRefs id a = a := by
  obtain ⟨fill, hf, ha⟩ := exists_fill_mentions a
  have hid : Mention.map id = id := by
    funext x
    cases x <;> rfl
  have hm := hf.mapRefs_fill rfl id
  rwa [hid, List.map_id, ha] at hm

theorem mapRefs_mapRefs (f g : NodeRef → NodeRef) (a : α) :
    mapRefs g (mapRefs f a) = mapRefs (g ∘ f) a := by
  obtain ⟨fill, hf, ha⟩ := exists_fill_mentions a
  have hm := hf.mapRefs_fill rfl f
  have hc := hf.mapRefs_fill rfl (g ∘ f)
  rw [ha] at hm hc
  have hmap : Mention.map g ∘ Mention.map f = Mention.map (g ∘ f) := by
    funext x
    cases x <;> rfl
  rw [hm, hf.mapRefs_fill (SameForm.map f _), hc, List.map_map, hmap]

/-- A walk whose answers do not depend on the state replaces every reference, and its state has
gone through the stops in order. -/
theorem run_walk {σ : Type} {v : Visitor (StateM σ)} {f : NodeRef → NodeRef}
    {step : σ → Mention → σ} (hv : ∀ x s, (v.stop x).run s = (x.map f, step s x)) (a : α) (s : σ) :
    (walk v a).run s = (mapRefs f a, (mentions a).foldl step s) := by
  obtain ⟨fill, hf, ha⟩ := exists_fill_mentions a
  have hrun : ∀ (ns : List Mention) (s : σ),
      (ns.mapM v.stop).run s = (ns.map (Mention.map f), ns.foldl step s) := by
    intro ns
    induction ns with
    | nil => intro s; rfl
    | cons x ns ih =>
        intro s
        rw [run_mapM_cons, hv, ih]
        rfl
  have hw := hf.walk_fill _ rfl v
  have hm := hf.mapRefs_fill rfl f
  rw [ha] at hw hm
  rw [hw, hm, run_map, hrun]

end

section
variable {α : Type} [HasRefs α]

theorem mapRefs_list (f : NodeRef → NodeRef) (as : List α) :
    mapRefs f as = as.map (mapRefs f) := List.idRun_mapM

theorem mapRefs_section (f : NodeRef → NodeRef) (c : Section) :
    mapRefs f c = ⟨c.keyword, c.entries.map (mapRefs f)⟩ := by
  rw [← mapRefs_list]
  rfl

theorem mapRefs_module (f : NodeRef → NodeRef) (m : Module) :
    mapRefs f m = { m with sections := m.sections.map (mapRefs f) } := by
  rw [← mapRefs_list]
  rfl

theorem run_walk_record [LawfulRefs α] (a : α) (seen : Array Mention) :
    (walk Visitor.record a).run seen = (a, seen ++ (mentions a).toArray) := by
  obtain ⟨fill, hf, ha⟩ := exists_fill_mentions a
  have hw := hf.walk_fill _ rfl Visitor.record
  rw [ha] at hw
  rw [hw, run_map, run_mapM_record, ha]

theorem mentions_list [LawfulRefs α] (as : List α) : mentions as = as.flatMap mentions := by
  have hrun : ∀ seen : Array Mention, (as.mapM (walk Visitor.record)).run seen =
      (as, seen ++ (as.flatMap mentions).toArray) := by
    induction as with
    | nil => intro seen; simp [run_mapM_nil, -List.mapM_nil]
    | cons a as ih =>
        intro seen
        rw [run_mapM_cons, run_walk_record, ih]
        simp
  simp only [mentions, walk] at hrun ⊢
  simp [hrun]

end

theorem mentions_section (c : Section) : mentions c = c.entries.flatMap mentions :=
  mentions_list c.entries

theorem mentions_module (m : Module) : mentions m = m.sections.flatMap mentions :=
  mentions_list m.sections

@[simp] theorem mentions_node (n : Node) : mentions n = [] := rfl

@[simp] theorem mapRefs_node (f : NodeRef → NodeRef) (n : Node) : mapRefs f n = n := rfl

end RigNodes
