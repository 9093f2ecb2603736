import RigNodes.Proofs.Layout.Sites

/-! The build pass visits the sites in canonical order, and after each of them its state is known
from the sites before it: the rows so far, what was noticed so far, and the wheels so far. -/
namespace RigNodes

namespace Module
variable (m : Module)

/-- What is noticed at a site: a refused definition, or a slot that stands elsewhere now. -/
def notices (s : Site) : List Notice :=
  match s.id? with
  | some (.number n) =>
      if m.accepts s then []
      else ((m.first? (.number n)).map fun t => Notice.duplicateNumber n (m.start t)).toList
  | some (.name x) =>
      if m.accepts s then []
      else ((m.first? (.name x)).map fun t => Notice.duplicateName x (m.start t)).toList
  | some (.slot x) =>
      if Slot.ofPosition (m.start s) = x then [] else [.definitionMoved x (m.start s)]
  | some .unresolved => [.definitionWithoutId]
  | none => []

def findings (s : Site) : List Finding := (m.notices s).map fun n => ⟨some s.keyword, n⟩

variable {m} in
/-- A number or a name that is refused is an error, as there is a first definition of it. There is
nothing else to say about one. -/
theorem severity_notices {s : Site} {id : NodeRef} (hmem : s ∈ m.canonicalSites)
    (hs : s.id? = some id) (hid : id.isAuthored) :
    (m.notices s).map Notice.severity = if m.accepts s then [] else [.error] := by
  have hfirst : ∃ t, m.first? id = some t := by
    apply Option.isSome_iff_exists.mp
    rw [first?, List.find?_isSome]
    exact ⟨s, hmem, by simp [hs]⟩
  obtain ⟨t, ht⟩ := hfirst
  cases id with
  | number n =>
      simp only [notices, hs, ht]
      split <;> rfl
  | name x =>
      simp only [notices, hs, ht]
      split <;> rfl
  | _ => cases hid

/-- The state of the build pass after a list of sites. -/
def buildAfter (before : List Site) : Build where
  table := .ofRows (before.flatMap m.rows)
  findings := (before.flatMap m.findings).toArray
  rigidWheels := before.countP Site.rigid

variable {m} {before after : List Site} {s : Site}

/-- Up to any point of the build pass, the indexes know the first definition of each id. -/
theorem find?_ofRows {id : NodeRef} (hid : id.isAuthored) (h : m.canonicalSites = before ++ after) :
    (NodeTable.ofRows (before.flatMap m.rows)).find? id =
      (before.find? fun t => t.id? == some id).map m.start := by
  induction before using List.reverseRecOn generalizing after with
  | nil => cases id <;> rfl
  | append_singleton before s ih =>
      have h' : m.canonicalSites = before ++ s :: after := by simpa using h
      rw [List.flatMap_append, List.flatMap_singleton, NodeTable.ofRows_append, List.find?_append]
      by_cases hs : s.id? = some id
      · rw [List.find?_cons_of_pos (by simp [hs]), m.rows_definition hs]
        have hid' : (id.row (Build.slotKind s.keyword)).userId = some id := rfl
        cases hb : before.find? fun t => t.id? == some id with
        | none =>
            have hacc : m.accepts s = true := (m.accepts_iff h' hs hid).mpr hb
            simp [hacc, NodeTable.enter_find? _ _ hid, hid', m.start_eq h']
        | some t =>
            have hacc : ¬ m.accepts s = true := fun hacc => by
              simpa [hb] using (m.accepts_iff h' hs hid).mp hacc
            simp [hacc, ih h', hb]
      · rw [List.find?_cons_of_neg (by simp [hs]), List.find?_nil, Option.or_none]
        rw [NodeTable.enterAll_find? _ hid fun e he => m.rows_userId he ▸ hs, ih h']

theorem admits_ofRows {id : NodeRef} (h : m.canonicalSites = before ++ s :: after)
    (hs : s.id? = some id) :
    (NodeTable.ofRows (before.flatMap m.rows)).admits id = m.accepts s := by
  by_cases hid : id.isAuthored
  · rw [Bool.eq_iff_iff, m.accepts_iff h hs hid, NodeTable.admits, if_pos hid, find?_ofRows hid h]
    simp
  · simp [NodeTable.admits, accepts, hs, hid]

/-- At any site, rows of later groups have not been entered yet. -/
theorem sequenceNotices_ofRows (h : m.canonicalSites = before ++ s :: after) {k : Kind}
    (hk : s.rank = k.rank) : (NodeTable.ofRows (before.flatMap m.rows)).sequenceNotices k = [] := by
  rw [NodeTable.ofRows_sequenceNotices, if_neg]
  rintro ⟨e, he, hlt⟩
  obtain ⟨t, ht, het⟩ := List.mem_flatMap.mp he
  have hmem : t ∈ m.sites := m.mem_canonicalSites.mp (by simp [h, ht])
  have hle : t.rank ≤ s.rank := by
    have hp := m.pairwise_rank
    rw [h, List.pairwise_append] at hp
    exact hp.2.2 t ht s List.mem_cons_self
  have hrank := m.rows_rank hmem het
  omega

theorem defineNotices_ofRows {id : NodeRef} (h : m.canonicalSites = before ++ s :: after)
    (hs : s.id? = some id) :
    (NodeTable.ofRows (before.flatMap m.rows)).defineNotices id = m.notices s := by
  -- A duplicate names the first definition, which has been entered already.
  have hdup : id.isAuthored → ∀ f : Nat → Notice,
      (((NodeTable.ofRows (before.flatMap m.rows)).find? id).map f).toList =
        if m.accepts s then [] else ((m.first? id).map fun t => f (m.start t)).toList := by
    intro hid f
    rw [find?_ofRows hid h]
    cases hb : before.find? fun t => t.id? == some id with
    | none => simp [(m.accepts_iff h hs hid).mpr hb]
    | some t =>
        have hacc : ¬ m.accepts s = true := fun hacc => by
          simpa [hb] using (m.accepts_iff h hs hid).mp hacc
        have hfirst : m.first? id = some t := by
          rw [first?, h, List.find?_append, hb, Option.some_or]
        simp [hacc, hfirst]
  cases id with
  | number n =>
      simp only [notices, hs]
      exact hdup rfl (Notice.duplicateNumber n)
  | name x =>
      simp only [notices, hs]
      exact hdup rfl (Notice.duplicateName x)
  | slot x => simp [notices, hs, NodeTable.defineNotices, m.start_eq h]
  | unresolved => simp [notices, hs, NodeTable.defineNotices]

theorem buildAfter_concat (m : Module) (before : List Site) (s : Site) :
    m.buildAfter (before ++ [s]) =
      (m.buildAfter before).extend s.keyword (m.rows s) (m.notices s) s.rigid := by
  simp [buildAfter, Build.extend, findings, NodeTable.ofRows_append, List.countP_append]

@[simp] theorem buildAfter_table (m : Module) (before : List Site) :
    (m.buildAfter before).table = .ofRows (before.flatMap m.rows) := rfl

theorem accepts_of_id?_eq_none (hs : s.id? = none) : m.accepts s = true := by
  simp [accepts, hs]

theorem produce_run (h : m.canonicalSites = before ++ s :: after) :
    (Build.produce s.keyword s.production).run (m.buildAfter before) =
      (m.span? s, m.buildAfter (before ++ [s])) := by
  have hsize : (m.buildAfter before).table.size = m.start s := by
    rw [m.start_eq h, buildAfter_table, NodeTable.ofRows_size]
  have hfits := m.sites_fits (m.mem_canonicalSites.mp (by simp [h] : s ∈ m.canonicalSites))
  have hsequence : ∀ k : Kind, s.rank = k.rank →
      (m.buildAfter before).table.sequenceNotices k = [] := fun k hk => sequenceNotices_ofRows h hk
  rw [buildAfter_concat]
  cases hp : s.production with
  | definition id =>
      have hs : s.id? = some id := Site.id?_eq_some.mpr hp
      have hrank : s.rank = 0 := by simp [Site.rank, hp, Production.kind?]
      rw [Build.produce_definition _ _ _ (hsequence .numbered hrank) (hsequence .named hrank),
        hsize, buildAfter_table, admits_ofRows h hs, defineNotices_ofRows h hs]
      simp [span?, rows, hp, Production.width, Site.rigid]
  | point kind =>
      have hs : s.id? = none := by simp [Site.id?, hp]
      have hrank : s.rank = kind.rank := by simp [Site.rank, hp, Production.kind?]
      rw [Build.produce_point _ _ _ (hsequence kind hrank), hsize]
      simp [span?, rows, notices, accepts_of_id?_eq_none hs, hs, hp, Production.width, Site.rigid]
  | wheel kind rays rigid =>
      have hs : s.id? = none := by simp [Site.id?, hp]
      have hrank : s.rank = kind.rank := by simp [Site.rank, hp, Production.kind?]
      rw [hp] at hfits
      rw [Build.produce_wheel _ _ hfits.2 _ _ (hsequence kind hrank), hsize]
      simp [span?, rows, notices, accepts_of_id?_eq_none hs, hs, hp, Site.rigid]

theorem mapM_productions {α : Type} (f : Keyword → Production → StateM Build α) (c : Section)
    (i : Nat) :
    c.productions.mapM (f c.keyword) = (c.sites i).mapM fun s => f s.keyword s.production := by
  rw [← c.sites_production i, List.mapM_map]
  refine mapM_congr fun s hs => ?_
  rw [Function.comp_apply, (Section.mem_sites hs).2.1]

/-- A pass in the order of the build pass whose steps leave behind what the build pass leaves
behind. -/
theorem visits_run (m : Module) {α : Type} {f : Keyword → Production → StateM Build α}
    {v : Site → α}
    (step : ∀ {before after : List Site} {s : Site}, m.canonicalSites = before ++ s :: after →
      (f s.keyword s.production).run (m.buildAfter before) = (v s, m.buildAfter (before ++ [s]))) :
    (m.visits.mapM fun (c, i) => do
        return (i, ← c.productions.mapM (f c.keyword)) : StateM Build _).run Build.start =
      (m.visits.map fun c => (c.2, (c.1.sites c.2).map v), m.buildAfter m.canonicalSites) := by
  have hstart : Build.start = m.buildAfter [] := rfl
  have hsection : ∀ before (c : Section × Nat) after, m.visits = before ++ c :: after →
      (c.1.productions.mapM (f c.1.keyword)).run
          (m.buildAfter (before.flatMap fun c => c.1.sites c.2)) =
        ((c.1.sites c.2).map v,
          m.buildAfter (before.flatMap (fun c => c.1.sites c.2) ++ c.1.sites c.2)) := by
    intro before c after h
    rw [mapM_productions f c.1 c.2]
    refine run_mapM_eq (g := m.buildAfter) _ fun b s a hb => ?_
    refine @step _ (a ++ after.flatMap fun c => c.1.sites c.2) s ?_
    simp [canonicalSites, h, hb]
  rw [hstart]
  refine run_mapM_eq (g := fun l : List (Section × Nat) =>
    m.buildAfter (l.flatMap fun c => c.1.sites c.2)) (p := []) _ fun before c after h => ?_
  rw [run_bind, List.nil_append, hsection before c after h, run_pure]
  simp

/-- The build pass hands every site its positions, and its table has the rows of all sites. -/
theorem buildVisits_run (m : Module) :
    m.buildVisits.run Build.start =
      (m.visits.map fun c => (c.2, (c.1.sites c.2).map m.span?),
        m.buildAfter m.canonicalSites) :=
  m.visits_run produce_run

end Module

end RigNodes
