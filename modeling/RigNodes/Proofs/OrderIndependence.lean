import RigNodes.Proofs.CanonicalTable

/-! The order in which sections are written does not matter, as long as the producing sections of
one keyword keep theirs. The build pass visits the same sections under new places, every entry gets
the positions it had, and without legacy positions no reference can tell. -/
namespace RigNodes

/-- The same site with its section at another place. -/
def Site.moved (f : Nat → Nat) (s : Site) : Site := { s with part := f s.part }

@[simp] theorem Site.moved_id? (f : Nat → Nat) (s : Site) : (s.moved f).id? = s.id? := rfl

theorem Site.moved_injective {f : Nat → Nat} (hf : Function.Injective f) :
    Function.Injective (moved f) := by
  intro s t h
  rcases s with ⟨i, j, k, p⟩
  rcases t with ⟨i', j', k', p'⟩
  simp only [moved, mk.injEq] at h ⊢
  exact ⟨hf h.1, h.2⟩

theorem Section.sites_moved (c : Section) (f : Nat → Nat) (i : Nat) :
    c.sites (f i) = (c.sites i).map (Site.moved f) := by
  simp [sites, List.mapIdx_eq_zipIdx_map, Function.comp_def, Site.moved]

namespace Scope
variable (t : NodeTable) (order : Array Nat) (d : Option Span)

/-- Without legacy positions the order of the document is never asked for. -/
theorem resolve_setLegacyOrder :
    (⟨t.setLegacyOrder order, false, d⟩ : Scope).resolve = (⟨t, false, d⟩ : Scope).resolve := by
  funext r
  cases r <;> rfl

theorem answer_setLegacyOrder :
    (⟨t.setLegacyOrder order, false, d⟩ : Scope).answer = (⟨t, false, d⟩ : Scope).answer := by
  funext x
  cases x with
  | ref r => rw [answer, answer, resolve_setLegacyOrder]
  | range r =>
      simp only [answer, resolveRange, resolve_setLegacyOrder]
      rfl

theorem settleSection_setLegacyOrder (spans : List (Option Span)) (c : Section) :
    (⟨t.setLegacyOrder order, false, d⟩ : Scope).settleSection spans c =
      (⟨t, false, d⟩ : Scope).settleSection spans c := by
  have hvalue : (⟨t.setLegacyOrder order, false, d⟩ : Scope).value =
      (⟨t, false, d⟩ : Scope).value := by
    funext r
    rw [value, value, resolve_setLegacyOrder]
  have hanswers : (⟨t.setLegacyOrder order, false, d⟩ : Scope).answers spans c =
      (⟨t, false, d⟩ : Scope).answers spans c := by
    simp only [answers, answer_setLegacyOrder]
  rw [settleSection_eq, settleSection_eq, hvalue, hanswers]

end Scope

namespace Module
variable {m m' : Module} {σ : Fin m.sections.length ≃ Fin m'.sections.length}

/-- A module with its sections in another order. Sections of one keyword that add nodes keep the
order they have among themselves. -/
structure Reordered (m m' : Module) (σ : Fin m.sections.length ≃ Fin m'.sections.length) :
    Prop where
  name : m'.name = m.name
  sections (i : Fin m.sections.length) : m'.sections[σ i] = m.sections[i]
  ordered (i j : Fin m.sections.length) (hij : i < j)
    (hkey : m.sections[i].keyword = m.sections[j].keyword)
    (hproduces : m.sections[i].keyword.producesNodes = true) : σ i < σ j

/-- The new place of a section. -/
def newPlace (σ : Fin m.sections.length ≃ Fin m'.sections.length) (i : Nat) : Nat :=
  if h : i < m.sections.length then σ ⟨i, h⟩ else i

theorem length_eq (σ : Fin m.sections.length ≃ Fin m'.sections.length) :
    m.sections.length = m'.sections.length :=
  Fin.equiv_iff_eq.mp ⟨σ⟩

theorem newPlace_injective : Function.Injective (newPlace σ) := by
  intro i j h
  have hlength := length_eq σ
  by_cases hi : i < m.sections.length <;> by_cases hj : j < m.sections.length <;>
    simp only [newPlace, hi, hj, dif_pos, dif_neg, not_false_eq_true] at h
  · exact Fin.mk.inj (σ.injective (Fin.ext h))
  · omega
  · omega
  · exact h

namespace Reordered
variable (h : m.Reordered m' σ)
include h

theorem getElem?_sections (i : Nat) : m'.sections[newPlace σ i]? = m.sections[i]? := by
  unfold newPlace
  split
  next hi =>
    rw [List.getElem?_eq_getElem (σ ⟨i, hi⟩).isLt, List.getElem?_eq_getElem hi]
    exact congrArg some (h.sections ⟨i, hi⟩)
  next hi =>
    have hlength := length_eq σ
    rw [List.getElem?_eq_none (by omega), List.getElem?_eq_none (by omega)]

theorem zipIdx_perm :
    m'.sections.zipIdx.Perm (m.sections.zipIdx.map (Prod.map id (newPlace σ))) := by
  have hnodup : ∀ l : List Section, l.zipIdx.Nodup := fun l =>
    .of_map Prod.snd (by simp [List.nodup_range'])
  have hmap : Function.Injective (Prod.map (id : Section → Section) (newPlace σ)) :=
    Function.Injective.prodMap Function.injective_id newPlace_injective
  rw [List.perm_ext_iff_of_nodup (hnodup _) ((hnodup _).map hmap)]
  rintro ⟨c, i'⟩
  rw [List.mem_zipIdx_iff_getElem?, List.mem_map]
  constructor
  · intro hc
    obtain ⟨hi', -⟩ := List.getElem?_eq_some_iff.mp hc
    have hi : newPlace σ (σ.symm ⟨i', hi'⟩) = i' := by simp [newPlace]
    refine ⟨(c, σ.symm ⟨i', hi'⟩), List.mem_zipIdx_iff_getElem?.mpr ?_, by simp [hi]⟩
    rw [← h.getElem?_sections, hi, hc]
  · rintro ⟨⟨c', i⟩, hc, heq⟩
    cases heq
    rw [h.getElem?_sections]
    exact List.mem_zipIdx_iff_getElem?.mp hc

theorem filter_zipIdx {k : Keyword} (hk : k.producesNodes = true) :
    (m'.sections.zipIdx.filter fun c => c.1.keyword == k) =
      (m.sections.zipIdx.filter fun c => c.1.keyword == k).map (Prod.map id (newPlace σ)) := by
  have hsorted : ∀ l : List Section, l.zipIdx.Pairwise fun c d => c.2 < d.2 := by
    intro l
    rw [List.pairwise_iff_getElem]
    intro i j hi hj hij
    simpa using hij
  refine @List.Perm.eq_of_pairwise _ (fun c d : Section × Nat => c.2 < d.2) _ _
    (fun c d _ _ hcd hdc => absurd hcd (Nat.lt_asymm hdc)) ((hsorted _).filter _) ?_ ?_
  · rw [List.pairwise_map]
    refine ((hsorted _).filter _).imp_of_mem fun {c d} hc hd hcd => ?_
    obtain ⟨hc, hck⟩ := List.mem_filter.mp hc
    obtain ⟨hd, hdk⟩ := List.mem_filter.mp hd
    obtain ⟨hci, hc⟩ := List.getElem?_eq_some_iff.mp (List.mem_zipIdx_iff_getElem?.mp hc)
    obtain ⟨hdi, hd⟩ := List.getElem?_eq_some_iff.mp (List.mem_zipIdx_iff_getElem?.mp hd)
    have hkey : m.sections[c.2].keyword = k := by rw [hc, eq_of_beq hck]
    have hkey' : m.sections[d.2].keyword = k := by rw [hd, eq_of_beq hdk]
    have hlt := h.ordered ⟨c.2, hci⟩ ⟨d.2, hdi⟩ hcd (hkey.trans hkey'.symm) (hkey ▸ hk)
    rw [Prod.map_snd, Prod.map_snd, newPlace, dif_pos hci, newPlace, dif_pos hdi]
    exact hlt
  · have hfilter := h.zipIdx_perm.filter fun c => c.1.keyword == k
    rwa [List.filter_map] at hfilter

theorem visits_eq : m'.visits = m.visits.map (Prod.map id (newPlace σ)) := by
  rw [visits, visits, List.map_flatMap]
  refine List.flatMap_congr fun k hk => h.filter_zipIdx ?_
  simpa [Keyword.producesNodes] using hk

theorem canonicalSites_eq :
    m'.canonicalSites = m.canonicalSites.map (Site.moved (newPlace σ)) := by
  rw [canonicalSites, canonicalSites, h.visits_eq, List.flatMap_map, List.map_flatMap]
  exact List.flatMap_congr fun c _ => c.1.sites_moved (newPlace σ) c.2

theorem first?_eq (id : NodeRef) :
    m'.first? id = (m.first? id).map (Site.moved (newPlace σ)) := by
  rw [first?, h.canonicalSites_eq, List.find?_map]
  rfl

theorem accepts_moved (s : Site) : m'.accepts (s.moved (newPlace σ)) = m.accepts s := by
  have hfirst : ∀ id, (m'.first? id == some (s.moved (newPlace σ))) = (m.first? id == some s) := by
    intro id
    rw [h.first?_eq, Bool.eq_iff_iff, beq_iff_eq, beq_iff_eq, ← Option.map_some]
    exact (Option.map_injective (Site.moved_injective newPlace_injective)).eq_iff
  simp only [accepts, Site.moved_id?, hfirst]

theorem rows_moved (s : Site) : m'.rows (s.moved (newPlace σ)) = m.rows s := by
  rw [rows, rows, h.accepts_moved]
  rfl

theorem start_moved (s : Site) : m'.start (s.moved (newPlace σ)) = m.start s := by
  have hother : (fun t => t != s.moved (newPlace σ)) ∘ Site.moved (newPlace σ) =
      fun t => t != s := by
    funext t
    rw [Function.comp_apply, Bool.eq_iff_iff, bne_iff_ne, bne_iff_ne]
    exact (Site.moved_injective newPlace_injective).ne_iff
  rw [start, start, h.canonicalSites_eq, List.takeWhile_map, List.flatMap_map, hother]
  simp only [h.rows_moved]

theorem span?_moved (s : Site) : m'.span? (s.moved (newPlace σ)) = m.span? s := by
  rw [span?, span?, h.accepts_moved, h.start_moved]
  rfl

theorem findings_moved (s : Site) : m'.findings (s.moved (newPlace σ)) = m.findings s := by
  have hmap : ∀ (id : NodeRef) (f : Nat → Notice),
      (m'.first? id).map (fun t => f (m'.start t)) = (m.first? id).map fun t => f (m.start t) := by
    intro id f
    rw [h.first?_eq, Option.map_map]
    simp only [Function.comp_def, h.start_moved]
  have hnotices : m'.notices (s.moved (newPlace σ)) = m.notices s := by
    simp only [notices, Site.moved_id?, h.accepts_moved, h.start_moved, hmap]
  rw [findings, findings, hnotices]
  rfl

theorem tableRows_eq : m'.tableRows = m.tableRows := by
  rw [tableRows, tableRows, h.canonicalSites_eq, List.flatMap_map]
  simp only [h.rows_moved]

theorem spansAt_moved (c : Section × Nat) :
    m'.spansAt (Prod.map id (newPlace σ) c) = m.spansAt c := by
  rw [spansAt, spansAt, Prod.map_fst, Prod.map_snd, id, Section.sites_moved, List.map_map]
  exact List.map_congr_left fun s _ => h.span?_moved s

theorem settleSection_moved (c : Section × Nat) :
    (m'.scope false).settleSection (m'.spansAt (Prod.map id (newPlace σ) c)) c.1 =
      (m.scope false).settleSection (m.spansAt c) c.1 := by
  rw [h.spansAt_moved, scope, scope, table, table, h.tableRows_eq,
    Scope.settleSection_setLegacyOrder, Scope.settleSection_setLegacyOrder]

theorem settledSections_perm : (m'.settledSections false).Perm (m.settledSections false) := by
  have hmap := h.zipIdx_perm.map fun c => (m'.scope false).settleSection (m'.spansAt c) c.1
  rw [List.map_map] at hmap
  refine hmap.trans (.of_eq (List.map_congr_left fun c _ => ?_))
  exact h.settleSection_moved c

theorem getElem?_settledSections (i : Nat) :
    (m'.settledSections false)[newPlace σ i]? = (m.settledSections false)[i]? := by
  simp only [settledSections, List.getElem?_map, List.getElem?_zipIdx, h.getElem?_sections,
    Option.map_map]
  refine congrArg (fun f => m.sections[i]?.map f) (funext fun c => ?_)
  simpa using h.settleSection_moved (c, i)

theorem countedStats_eq : m'.countedStats false = m.countedStats false := by
  have hrigid : m'.canonicalSites.countP Site.rigid = m.canonicalSites.countP Site.rigid := by
    rw [h.canonicalSites_eq, List.countP_map]
    rfl
  rw [countedStats, countedStats, hrigid, (h.settledSections_perm.map _).sum_eq]

theorem messages_perm : (m'.resolve false).messages.Perm (m.resolve false).messages := by
  have hbuilding : m'.canonicalSites.flatMap m'.findings = m.canonicalSites.flatMap m.findings := by
    rw [h.canonicalSites_eq, List.flatMap_map]
    simp only [h.findings_moved]
  rw [resolve_eq, resolve_eq, ModuleRun.messages, ModuleRun.messages]
  simp only [hbuilding, h.countedStats_eq, h.name]
  exact (((h.settledSections_perm.flatMap_right _).append_right _).append_left _).map _

end Reordered

end Module

/-- The counters do not tell in which order the messages came. -/
theorem Diagnostics.counters_perm {a b : Diagnostics}
    (h : a.messages.toList.Perm b.messages.toList) : a.counters = b.counters := by
  have hcount : ∀ p, a.countOf p = b.countOf p := by
    intro p
    rw [countOf, countOf, ← Array.countP_toList, ← Array.countP_toList, h.countP_eq]
  ext
  · exact a.errorCount_eq.trans ((hcount _).trans b.errorCount_eq.symm)
  · exact a.warningCount_eq.trans ((hcount _).trans b.warningCount_eq.symm)
  · exact a.otherCount_eq.trans ((hcount _).trans b.otherCount_eq.symm)

namespace Resolver
variable {r : Resolver} {m m' : Module} {σ : Fin m.sections.length ≃ Fin m'.sections.length}

/-- Two runs from one state that come to the same, apart from the order of sections: `a` and `b` are
what they leave behind, for modules whose sections `σ` brings into each other's order. -/
structure SameOutcome (r : Resolver) (m m' : Module)
    (σ : Fin m.sections.length ≃ Fin m'.sections.length) (a b : Resolver × Document) : Prop where
  tables : ∃ t t' : NodeTable, a.1.finished = r.finished ++ [⟨m.name, t⟩] ∧
    b.1.finished = r.finished ++ [⟨m.name, t'⟩] ∧ t'.entries = t.entries ∧
    t'.numbers = t.numbers ∧ t'.names = t.names ∧ t'.counts = t.counts
  sections : ∃ p p' : Module, a.2.modules = [p] ∧ b.2.modules = [p'] ∧ p'.name = p.name ∧
    p.sections.length = m.sections.length ∧ p'.sections.length = m'.sections.length ∧
    ∀ i, p'.sections[(σ i).val]? = p.sections[i.val]?
  stats : b.1.stats = a.1.stats
  messages : ∃ added added' : List Message,
    a.1.diagnostics.messages.toList = r.diagnostics.messages.toList ++ added ∧
    b.1.diagnostics.messages.toList = r.diagnostics.messages.toList ++ added' ∧
    added'.Perm added
  errors : b.1.diagnostics.errorCount = a.1.diagnostics.errorCount
  warnings : b.1.diagnostics.warningCount = a.1.diagnostics.warningCount
  others : b.1.diagnostics.otherCount = a.1.diagnostics.otherCount

/-- Processing a module and the same module in another order comes to the same. -/
theorem process_reordered (h : r.options.enabled = true) (hlegacy : r.options.legacy = false)
    (hm : m.Reordered m' σ) (x : String) :
    SameOutcome r m m' σ (r.process ⟨x, [m]⟩) (r.process ⟨x, [m']⟩) := by
  have hmessages : (r.process ⟨x, [m']⟩).1.diagnostics.messages.toList.Perm
      (r.process ⟨x, [m]⟩).1.diagnostics.messages.toList := by
    rw [process_messages h, process_messages h, hlegacy]
    simpa using hm.messages_perm.append_left _
  have hcounters := Diagnostics.counters_perm hmessages
  refine ⟨?tables, ?sections, ?stats, ?messages, congrArg Counters.errors hcounters,
    congrArg Counters.warnings hcounters, congrArg Counters.others hcounters⟩
  case tables =>
    refine ⟨m.table, m'.table, by simp [process_finished h], ?_, ?_⟩
    · simp [process_finished h, hm.name]
    · simp [Module.table, NodeTable.setLegacyOrder, hm.tableRows_eq]
  case sections =>
    refine ⟨(m.resolve false).module, (m'.resolve false).module, ?_, ?_, ?_, ?_, ?_, fun i => ?_⟩
    · simp [process_document h, hlegacy]
    · simp [process_document h, hlegacy]
    · simp [Module.resolve_eq, hm.name]
    · simp [Module.resolve_eq, Module.settledSections]
    · simp [Module.resolve_eq, Module.settledSections]
    · have hplace := hm.getElem?_settledSections i
      rw [Module.newPlace, dif_pos i.isLt] at hplace
      rw [Module.resolve_eq, Module.resolve_eq]
      simp only [List.getElem?_map]
      rw [hplace]
  case stats =>
    rw [process_stats h, process_stats h, hlegacy]
    simp [Module.resolve_eq, hm.countedStats_eq]
  case messages =>
    refine ⟨(m.resolve false).messages, (m'.resolve false).messages, ?_, ?_, hm.messages_perm⟩
    · simp [process_messages h, hlegacy]
    · simp [process_messages h, hlegacy]

end Resolver

/-- The same sections with the wheel last, after the nodes it stands on. -/
def Module.doubledInOrder : Module where
  name := "doubled"
  sections := [3, 2, 0, 4, 1].filterMap fun i : Nat => Module.doubled.sections[i]?

def Module.doubledPlaces : Fin 5 ≃ Fin 5 where
  toFun := ![2, 4, 1, 0, 3]
  invFun := ![3, 2, 0, 4, 1]
  left_inv i := by decide +revert
  right_inv i := by decide +revert

theorem Resolver.process_reordered_doubled :
    (new ⟨true, false⟩).SameOutcome .doubled .doubledInOrder Module.doubledPlaces
      ((new ⟨true, false⟩).process ⟨"", [.doubled]⟩)
      ((new ⟨true, false⟩).process ⟨"", [.doubledInOrder]⟩) :=
  @process_reordered (new ⟨true, false⟩) .doubled .doubledInOrder Module.doubledPlaces rfl rfl
    ⟨rfl, by decide, by decide⟩ ""

end RigNodes
