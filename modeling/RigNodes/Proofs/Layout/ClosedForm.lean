import RigNodes.Proofs.Layout.Build

/-! The positions of generated nodes in closed form: a base offset and what entries of the same
kind have taken before, in declared order. They are the positions that the build pass handed out,
although it went through the sections in another order. -/
namespace RigNodes

theorem Kind.keyword_of_generatedBy? {k : Keyword} {kind : Kind} (h : generatedBy? k = some kind) :
    kind.keyword = k := by
  cases k <;> cases h <;> rfl

theorem Kind.generatedBy?_inj {j k : Keyword} {kind : Kind} (hj : generatedBy? j = some kind)
    (hk : generatedBy? k = some kind) : j = k :=
  (keyword_of_generatedBy? hj).symm.trans (keyword_of_generatedBy? hk)

namespace Module
variable (m : Module)

/-- How much of each kind a list of sites takes. -/
def usedAfter (before : List Site) : KindCounts :=
  before.foldl (fun used s =>
    match s.production.kind? with
    | some k => used.add k s.production.width
    | none => used) .zero

theorem usedAfter_get (before : List Site) (k : Kind) :
    (usedAfter before).get k =
      ((before.filter fun s => s.production.kind? == some k).map
        fun s => s.production.width).sum := by
  induction before using List.reverseRecOn with
  | nil => exact KindCounts.get_zero k
  | append_singleton before s ih =>
      have hstep : usedAfter (before ++ [s]) =
          match s.production.kind? with
          | some j => (usedAfter before).add j s.production.width
          | none => usedAfter before := by
        simp [usedAfter]
      rw [hstep, List.filter_append, List.map_append, List.sum_append, ← ih]
      cases h : s.production.kind? with
      | none => simp [h]
      | some j =>
          rw [KindCounts.get_add]
          by_cases hjk : j = k <;> simp [h, hjk]

/-- The canonical order around a site: the earlier keywords, then those of its own keyword that are
declared before it. -/
theorem canonicalSites_split {s : Site} {before after : List Site}
    (h : m.sites = before ++ s :: after) :
    ∃ earlier later : List Keyword, Keyword.canonicalSequence = earlier ++ s.keyword :: later ∧
      m.canonicalSites =
        ((earlier.flatMap fun k => m.sites.filter fun t => t.keyword == k) ++
          before.filter fun t => t.keyword == s.keyword) ++ s ::
        ((after.filter fun t => t.keyword == s.keyword) ++
          later.flatMap fun k => m.sites.filter fun t => t.keyword == k) := by
  have hs : s ∈ m.sites := by simp [h]
  obtain ⟨earlier, later, hseq⟩ := List.append_of_mem (m.site_keyword_mem hs)
  refine ⟨earlier, later, hseq, ?_⟩
  have hown : (m.sites.filter fun t => t.keyword == s.keyword) =
      (before.filter fun t => t.keyword == s.keyword) ++
        s :: (after.filter fun t => t.keyword == s.keyword) := by
    rw [h, List.filter_append, List.filter_cons_of_pos (by simp)]
  rw [canonicalSites_eq, hseq, List.flatMap_append, List.flatMap_cons, hown]
  simp

/-- Only the groups of earlier keywords stand below the base offset of a generating keyword. -/
theorem rank_around {k : Keyword} {earlier later : List Keyword} (hk : Kind.generatedBy? k ≠ none)
    (h : Keyword.canonicalSequence = earlier ++ k :: later) :
    (∀ j ∈ earlier, j.rank < k.rank) ∧ ∀ j ∈ later, k.rank ≤ j.rank := by
  have hlt : Keyword.canonicalSequence.Pairwise fun j k =>
      Kind.generatedBy? k ≠ none → j.rank < k.rank := by decide
  have hle : Keyword.canonicalSequence.Pairwise fun j k => j.rank ≤ k.rank := by decide
  rw [h, List.pairwise_append] at hlt hle
  exact ⟨fun j hj => hlt.2.2 j hj k List.mem_cons_self hk,
    fun j hj => (List.pairwise_cons.mp hle.2.1).1 j hj⟩

theorem rows_length {s : Site} (h : m.accepts s) : (m.rows s).length = s.production.width := by
  rw [rows, if_pos h, Production.rows_length]

/-- Below the base offset of a kind stand the rows of the groups before it. -/
theorem baseOffset_split {front back : List Site} {k : Kind} (h : m.canonicalSites = front ++ back)
    (hfront : ∀ t ∈ front, t.rank < k.rank) (hback : ∀ t ∈ back, k.rank ≤ t.rank) :
    (NodeTable.ofRows m.tableRows).baseOffset k = (front.flatMap m.rows).length := by
  have hsites : ∀ t, t ∈ front ∨ t ∈ back → t ∈ m.sites := fun t ht =>
    m.mem_canonicalSites.mp (by rwa [h, List.mem_append])
  have hbelow : ∀ e ∈ front.flatMap m.rows, e.origin.rank < k.rank := by
    intro e he
    obtain ⟨t, ht, het⟩ := List.mem_flatMap.mp he
    rw [m.rows_rank (hsites t (.inl ht)) het]
    exact hfront t ht
  have habove : ∀ e ∈ back.flatMap m.rows, ¬ e.origin.rank < k.rank := by
    intro e he
    obtain ⟨t, ht, het⟩ := List.mem_flatMap.mp he
    rw [m.rows_rank (hsites t (.inr ht)) het]
    exact Nat.not_lt.mpr (hback t ht)
  rw [NodeTable.ofRows_baseOffset, tableRows, h, List.flatMap_append, NodeTable.tally,
    List.countP_append, List.countP_eq_length.mpr fun e he => by simpa using hbelow e he,
    List.countP_eq_zero.mpr fun e he => by simpa using habove e he, Nat.add_zero]

/-- The nodes of a generated kind are those of one keyword. -/
theorem usedAfter_keyword {before : List Site} {key : Keyword} {k : Kind}
    (hbefore : ∀ t ∈ before, t ∈ m.sites) (hkey : Kind.generatedBy? key = some k) :
    (usedAfter before).get k =
      ((before.filter fun t => t.keyword == key).map fun t => t.production.width).sum := by
  have hfilter : (before.filter fun t => t.production.kind? == some k) =
      before.filter fun t => t.keyword == key := by
    refine List.filter_congr fun t ht => ?_
    rw [Bool.eq_iff_iff, beq_iff_eq, beq_iff_eq, m.site_kind? (hbefore t ht)]
    exact ⟨fun e => Kind.generatedBy?_inj e hkey, fun e => e ▸ hkey⟩
  rw [usedAfter_get, hfilter]

/-- What is used of a generated kind are the rows of its keyword. -/
theorem usedAfter_generated {before : List Site} {key : Keyword} {k : Kind}
    (hbefore : ∀ t ∈ before, t ∈ m.sites) (hkey : Kind.generatedBy? key = some k) :
    (usedAfter before).get k =
      ((before.filter fun t => t.keyword == key).flatMap m.rows).length := by
  rw [m.usedAfter_keyword hbefore hkey, List.length_flatMap]
  refine congrArg List.sum (List.map_congr_left fun t ht => (m.rows_length ?_).symm)
  obtain ⟨ht, htk⟩ := List.mem_filter.mp ht
  have hkind : t.production.kind? = some k := by
    rw [m.site_kind? (hbefore t ht), eq_of_beq htk, hkey]
  refine accepts_of_id?_eq_none ?_
  unfold Site.id?
  cases hp : t.production <;> simp_all [Production.kind?]

/-- The groups before that of a generated site take up the positions below its base offset. -/
theorem start_generated {s : Site} {before after : List Site} {k : Kind}
    (h : m.sites = before ++ s :: after) (hk : s.production.kind? = some k) :
    m.start s = (NodeTable.ofRows m.tableRows).baseOffset k + (usedAfter before).get k := by
  have hbefore : ∀ t ∈ before, t ∈ m.sites := fun t ht => by simp [h, ht]
  have hkey : Kind.generatedBy? s.keyword = some k :=
    (m.site_kind? (by simp [h])).symm.trans hk
  have hrank : s.keyword.rank = k.rank := by simp [Keyword.rank, hkey]
  obtain ⟨earlier, later, hseq, hsites⟩ := m.canonicalSites_split h
  obtain ⟨hlow, hhigh⟩ := rank_around (by simp [hkey]) hseq
  have hbase := @baseOffset_split m _ _ k ((List.append_assoc ..).symm ▸ hsites) ?_ ?_
  · rw [m.start_eq hsites, List.flatMap_append, List.length_append, hbase,
      m.usedAfter_generated hbefore hkey]
  · intro t ht
    obtain ⟨j, hj, ht⟩ := List.mem_flatMap.mp ht
    obtain ⟨ht, htj⟩ := List.mem_filter.mp ht
    rw [m.site_rank ht, eq_of_beq htj, ← hrank]
    exact hlow j hj
  · intro t ht
    have hkeyword : t ∈ m.sites ∧ k.rank ≤ t.keyword.rank := by
      simp only [List.mem_append, List.mem_cons, List.mem_filter, List.mem_flatMap] at ht
      rcases ht with ⟨ht, htk⟩ | rfl | ⟨ht, htk⟩ | ⟨j, hj, ht, htj⟩
      · exact ⟨hbefore t ht, by rw [eq_of_beq htk, hrank]⟩
      · exact ⟨by simp [h], hrank.ge⟩
      · exact ⟨by simp [h, ht], by rw [eq_of_beq htk, hrank]⟩
      · exact ⟨ht, by rw [eq_of_beq htj, ← hrank]; exact hhigh j hj⟩
    rw [m.site_rank hkeyword.1]
    exact hkeyword.2

theorem usedAfter_concat (before : List Site) (s : Site) :
    usedAfter (before ++ [s]) =
      match s.production.kind? with
      | some k => (usedAfter before).add k s.production.width
      | none => usedAfter before := by
  simp [usedAfter]

theorem generatedSpan_run {s : Site} {before after : List Site}
    (h : m.sites = before ++ s :: after) (hs : s.id? = none) :
    (generatedSpan (.ofRows m.tableRows) s.production).run (usedAfter before) =
      (m.span? s, usedAfter (before ++ [s])) := by
  have hspan : m.span? s = some ⟨m.start s, s.production.width⟩ := by
    rw [span?, if_pos (accepts_of_id?_eq_none hs)]
  obtain ⟨k, hk⟩ : ∃ k, s.production.kind? = some k := by
    unfold Site.id? at hs
    cases hp : s.production <;> simp_all [Production.kind?]
  rw [hspan, usedAfter_concat, hk, m.start_generated h hk, generatedSpan, hk]
  rfl

theorem lookup_visits {β : Type} (g : Section × Nat → β) {c : Section × Nat} (hc : c ∈ m.visits) :
    (m.visits.map fun c => (c.2, g c)).lookup c.2 = some (g c) := by
  have hplace : ∀ c' ∈ m.visits, c'.2 = c.2 → c' = c := by
    have hmem : ∀ c ∈ m.visits, m.sections[c.2]? = some c.1 := by
      intro c hc
      obtain ⟨k, -, hk⟩ := List.mem_flatMap.mp hc
      exact List.mem_zipIdx_iff_getElem?.mp (List.mem_filter.mp hk).1
    intro c' hc' h
    have heq := hmem c hc
    rw [← h, hmem c' hc', Option.some.injEq] at heq
    exact Prod.ext heq h
  generalize m.visits = l at hc hplace
  induction l with
  | nil => cases hc
  | cons d l ih =>
      by_cases hd : d.2 = c.2
      · rw [hplace d List.mem_cons_self hd]
        simp
      · have hne : (c.2 == d.2) = false := beq_false_of_ne (Ne.symm hd)
        rw [List.map_cons, List.lookup_cons, hne]
        rcases List.mem_cons.mp hc with rfl | hc
        · exact absurd rfl hd
        · exact ih hc fun c' hc' => hplace c' (List.mem_cons_of_mem _ hc')

/-- Cursors stand still in node sections. -/
theorem usedAfter_definitions {before more : List Site} (h : ∀ s ∈ more, s.id?.isSome) :
    usedAfter (before ++ more) = usedAfter before := by
  induction more using List.reverseRecOn with
  | nil => rw [List.append_nil]
  | append_singleton more s ih =>
      obtain ⟨id, hid⟩ := Option.isSome_iff_exists.mp (h s (by simp))
      rw [← List.append_assoc, usedAfter_concat, Site.id?_eq_some.mp hid]
      exact ih fun t ht => h t (List.mem_append_left _ ht)

theorem sectionSpans_run {c : Section × Nat} {before after : List (Section × Nat)}
    (h : m.sections.zipIdx = before ++ c :: after) :
    (sectionSpans (.ofRows m.tableRows)
        (m.visits.map fun c => (c.2, (c.1.sites c.2).map m.span?)) c).run
        (usedAfter (before.flatMap fun c => c.1.sites c.2)) =
      ((c.1.sites c.2).map m.span?,
        usedAfter (before.flatMap (fun c => c.1.sites c.2) ++ c.1.sites c.2)) := by
  unfold sectionSpans
  by_cases hn : c.1.nodes?.isSome
  · have hc : c ∈ m.visits := by
      refine List.mem_flatMap.mpr ⟨c.1.keyword, ?_, List.mem_filter.mpr ⟨by simp [h], by simp⟩⟩
      rcases (c.1.nodes?_isSome).mp hn with hk | hk <;> simp [hk, Keyword.canonicalSequence]
    rw [if_pos hn, m.lookup_visits _ hc, run_pure, Option.getD_some,
      usedAfter_definitions fun s hs => (Section.sites_id?_isSome hs).mpr hn]
  · rw [if_neg hn, ← c.1.sites_production c.2, List.mapM_map]
    refine run_mapM_eq (g := usedAfter) _ fun b s a hb => ?_
    have hs : s.id? = none := by
      have hmem : s ∈ c.1.sites c.2 := by simp [hb]
      rw [← Option.not_isSome_iff_eq_none, Section.sites_id?_isSome hmem]
      exact hn
    refine @generatedSpan_run m s _ (a ++ after.flatMap fun c => c.1.sites c.2) ?_ hs
    simp [sites, h, hb]

theorem entrySpans_eq :
    m.entrySpans (.ofRows m.tableRows)
        (m.visits.map fun c => (c.2, (c.1.sites c.2).map m.span?)) =
      m.sections.zipIdx.map fun c => (c.1.sites c.2).map m.span? := by
  have hrun := run_mapM_eq (g := fun l : List (Section × Nat) =>
    usedAfter (l.flatMap fun c => c.1.sites c.2)) (p := []) m.sections.zipIdx
    (f := sectionSpans (.ofRows m.tableRows)
      (m.visits.map fun c => (c.2, (c.1.sites c.2).map m.span?)))
    (v := fun c => (c.1.sites c.2).map m.span?) fun before c after h => by
      rw [List.nil_append, m.sectionSpans_run h, List.flatMap_append, List.flatMap_singleton]
  exact congrArg Prod.fst hrun

end Module

/-- The build pass as a whole, without a table that runs. -/
theorem Layout.of_eq (m : Module) :
    Layout.of m =
      { table := (NodeTable.ofRows m.tableRows).setLegacyOrder
          (Module.legacyOrder (m.sections.zipIdx.map fun c => (c.1.sites c.2).map m.span?))
        spans := m.sections.zipIdx.map fun c => (c.1.sites c.2).map m.span?
        findings := m.canonicalSites.flatMap m.findings
        rigidWheels := m.canonicalSites.countP Site.rigid } := by
  have hrun := m.buildVisits_run
  have htable : (m.buildAfter m.canonicalSites).table = .ofRows m.tableRows := rfl
  simp only [Layout.of, hrun, htable, m.entrySpans_eq]
  simp [Module.buildAfter]

end RigNodes
