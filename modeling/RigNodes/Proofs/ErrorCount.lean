import RigNodes.Proofs.Agreement
import RigNodes.Proofs.Coverage
import RigNodes.Proofs.RangeVerdict

/-! How many errors a run adds. They are counted off the document before and after: definitions
that are refused, references that come to nothing, and ranges that lack an end. A document without
them is resolved as far as it was written. -/
namespace RigNodes

/-- The ids that stand earlier in the list already. Slots may stand there as often as they like. -/
def repeated (ids : List NodeRef) : List (NodeRef × Nat) :=
  ids.zipIdx.filter fun d => d.1.isAuthored && (ids.take d.2).contains d.1

theorem repeated_concat (ids : List NodeRef) (id : NodeRef) :
    (repeated (ids ++ [id])).length =
      (repeated ids).length + if id.isAuthored && ids.contains id then 1 else 0 := by
  have hbefore : (ids.zipIdx.filter fun d =>
      d.1.isAuthored && ((ids ++ [id]).take d.2).contains d.1) = repeated ids := by
    apply List.filter_congr
    rintro ⟨x, j⟩ hx
    have hj : j ≤ ids.length := by
      have hlt := (List.mem_zipIdx hx).2.1
      omega
    rw [List.take_append_of_le_length hj]
  have hlast : (ids ++ [id]).take ids.length = ids := List.take_left
  unfold repeated
  rw [List.zipIdx_append, List.filter_append, List.length_append, hbefore]
  simp only [List.zipIdx_singleton, Nat.zero_add, List.filter_singleton, hlast]
  cases id.isAuthored && ids.contains id <;> rfl

theorem repeated_length_eq_zero (ids : List NodeRef) :
    (repeated ids).length = 0 ↔ (ids.filter NodeRef.isAuthored).Nodup := by
  induction ids using List.reverseRecOn with
  | nil => exact iff_of_true rfl List.nodup_nil
  | append_singleton ids id ih =>
      rw [repeated_concat, Nat.add_eq_zero_iff, ih, List.filter_append]
      by_cases hid : id.isAuthored = true
      · have hnew : (if id.isAuthored && ids.contains id then 1 else 0) = 0 ↔
            id ∉ ids.filter NodeRef.isAuthored := by
          simp [hid]
        have hsingle : [id].filter NodeRef.isAuthored = [id] := by simp [hid]
        rw [hnew, hsingle, ← List.concat_eq_append, List.nodup_concat, and_comm]
      · simp [hid]

namespace Module
variable (m : Module)

/-- The definitions whose number or name another definition has before them, in canonical order. -/
def duplicates : List (NodeRef × Nat) := repeated (m.definitions.map Prod.snd)

theorem definitions_ids : m.definitions.map Prod.snd = m.canonicalSites.filterMap Site.id? := by
  have hgenerating : m.generatingSites.filterMap Site.id? = [] :=
    List.filterMap_eq_nil_iff.mpr fun s hs => id?_eq_none_of_mem_generatingSites hs
  rw [canonicalSites_eq_append, List.filterMap_append, hgenerating, List.append_nil,
    definitions_eq, List.map_filterMap]
  apply List.filterMap_congr
  intro s hs
  rw [definition?, Option.map_map]
  exact Option.map_id'

theorem definitions_ids_perm : (m.definitions.map Prod.snd).Perm m.nodeIds := by
  rw [definitions_ids, nodeIds_eq]
  exact m.canonicalSites_perm.filterMap _

variable {m} in
/-- A definition is an error if it has no id, or an id that is taken. -/
theorem countP_site {before after : List Site} {s : Site} {id : NodeRef}
    (h : m.canonicalSites = before ++ s :: after) (hs : s.id? = some id) :
    (m.findings s).countP (fun f => f.notice.severity == .error) =
      (if id.isUnresolved then 1 else 0) +
        if id.isAuthored && (before.filterMap Site.id?).contains id then 1 else 0 := by
  have hnotices : (m.findings s).countP (fun f => f.notice.severity == .error) =
      ((m.notices s).map Notice.severity).countP (· == .error) := by
    rw [findings, List.countP_map, List.countP_map]
    rfl
  rw [hnotices]
  cases hid : id.isAuthored with
  | true =>
      have hmem : s ∈ m.canonicalSites := by simp [h]
      have hfree : m.accepts s = true ↔ id ∉ before.filterMap Site.id? := by
        rw [m.accepts_iff h hs hid, List.find?_eq_none]
        simp [List.mem_filterMap]
      have hwritten : id.isUnresolved = false := by cases id <;> first | rfl | cases hid
      rw [severity_notices hmem hs hid, hwritten]
      by_cases htaken : id ∈ before.filterMap Site.id?
      · have hacc : ¬ m.accepts s = true := fun hacc => hfree.mp hacc htaken
        rw [if_neg hacc, List.contains_iff_mem.mpr htaken]
        rfl
      · have hnot : (before.filterMap Site.id?).contains id = false :=
          Bool.eq_false_iff.mpr fun hc => htaken (List.contains_iff_mem.mp hc)
        rw [if_pos (hfree.mpr htaken), hnot]
        rfl
  | false =>
      cases id with
      | slot x =>
          simp only [notices, hs]
          split <;> rfl
      | unresolved =>
          simp only [notices, hs]
          rfl
      | _ => cases hid

/-- The errors of the build pass, up to any point of it. -/
theorem countP_findings {before after : List Site} (h : m.canonicalSites = before ++ after) :
    (before.flatMap m.findings).countP (fun f => f.notice.severity == .error) =
      (before.filterMap Site.id?).countP NodeRef.isUnresolved +
        (repeated (before.filterMap Site.id?)).length := by
  -- From the back, as an id is taken or not by what stands before it.
  induction before using List.reverseRecOn generalizing after with
  | nil => rfl
  | append_singleton before s ih =>
      have h' : m.canonicalSites = before ++ s :: after := by simpa using h
      rw [List.flatMap_append, List.flatMap_singleton, List.countP_append, ih h',
        List.filterMap_append]
      cases hs : s.id? with
      | none =>
          have hquiet : m.findings s = [] := by simp [findings, notices, hs]
          simp [hquiet, hs]
      | some id =>
          have hsingle : [s].filterMap Site.id? = [id] := by simp [hs]
          rw [countP_site h' hs, hsingle, List.countP_append, List.countP_singleton,
            repeated_concat]
          omega

end Module

/-- A reference that an author wrote and that comes to nothing. -/
def NodeRef.isLost (r x : NodeRef) : Bool := r.isAuthored && x.isUnresolved

namespace Scope
variable (s : Scope)

theorem countOf_found (r : NodeRef) (p : Nat) {notices : List Notice}
    (h : ∀ n ∈ notices, n.severity ≠ .error) (legacy : Nat) :
    (s.found r p notices legacy).countOf (· == .error) = 0 := by
  unfold found Resolved.countOf
  rw [List.countP_eq_zero]
  intro n hn
  rcases List.mem_append.mp hn with hn | hn
  · simpa using h n hn
  · split at hn
    · simp [List.mem_singleton.mp hn, Notice.severity]
    · cases hn

theorem countOf_resolve (r : NodeRef) :
    (s.resolve r).countOf (· == .error) = if r.isLost (s.value r) then 1 else 0 := by
  cases hfind : s.table.find? r with
  | some p =>
      have hauthored : r.isAuthored = true := by cases r <;> first | rfl | cases hfind
      have hvalue : s.value r = .slot (.ofPosition p) := by
        rw [value, s.resolve_of_find? hfind]
        rfl
      rw [s.resolve_of_find? hfind, s.countOf_found r p (by simp), hvalue]
      simp [NodeRef.isLost, NodeRef.isUnresolved]
  | none =>
      cases r with
      | slot x =>
          have hnotices : (s.resolve (.slot x)).notices =
              if x.position < s.table.size then [] else [.slotOutsideTable x s.table.size] := rfl
          unfold Resolved.countOf
          rw [hnotices]
          split <;> rfl
      | unresolved => rfl
      | name x =>
          have hx : s.table.findName? x = none := hfind
          simp only [value, resolve, hx]
          rfl
      | number n =>
          have hn : s.table.findNumber? n = none := hfind
          cases hl : s.legacyPosition? n with
          | none =>
              simp only [value, resolve, hn, hl]
              rfl
          | some x =>
              simp only [value, resolve, hn, hl]
              rw [s.countOf_found _ _ (by simp [Notice.severity])]
              rfl

/-- The errors of a stop: its references that are lost, and the range if it lacks an end. -/
theorem countOf_answer (x : Mention) :
    (s.answer x).countOf (· == .error) =
      x.refs.countP (fun r => r.isLost (s.value r)) +
        (x.map s.value).ranges.countP fun r => !r.isCanonical := by
  cases x with
  | ref r =>
      rw [Mention.refs, List.countP_singleton]
      exact s.countOf_resolve r
  | range r =>
      have hcounts := congrArg Counts.errors (s.resolveRange_counts r)
      have hsum : (s.answer (.range r)).countOf (· == .error) =
          (s.resolve r.start).countOf (· == .error) + (s.resolve r.stop).countOf (· == .error) +
            (s.verdict r (r.map s.value)).countOf (· == .error) := hcounts
      have hrefs : (Mention.range r).refs.countP (fun r => r.isLost (s.value r)) =
          (if r.start.isLost (s.value r.start) then 1 else 0) +
            if r.stop.isLost (s.value r.stop) then 1 else 0 := by
        simp only [Mention.refs, List.countP_cons, List.countP_nil]
        omega
      have hrange : ((Mention.range r).map s.value).ranges.countP (fun r => !r.isCanonical) =
          if (r.map s.value).isCanonical then 0 else 1 := by
        have hranges : ((Mention.range r).map s.value).ranges = [r.map s.value] := rfl
        rw [hranges, List.countP_singleton]
        cases (r.map s.value).isCanonical <;> rfl
      rw [hsum, countOf_resolve, countOf_resolve, countOf_verdict_error, hrefs, hrange]

end Scope

namespace Module
variable (m : Module) (legacy : Bool)

/-- The references of a module as they stand in its fields, a range as its two ends. -/
def fieldRefs : List NodeRef := m.fieldStops.flatMap Mention.refs

/-- The ranges of a module as they stand in its fields. -/
def fieldRanges : List NodeRange := m.fieldStops.flatMap Mention.ranges

/-- The errors of a module `m` that has become `m'`: definitions without an id, definitions whose id
is taken, references that are lost, and ranges that lack an end. -/
def errors (m' : Module) : Nat :=
  m.nodeIds.countP NodeRef.isUnresolved + m.duplicates.length +
    (m.fieldRefs.zip m'.fieldRefs).countP (fun p => p.1.isLost p.2) +
    m'.fieldRanges.countP fun r => !r.isCanonical

theorem fieldRefs_resolve :
    (m.resolve legacy).module.fieldRefs = m.fieldRefs.map (m.scope legacy).value := by
  unfold fieldRefs
  rw [← mentions_eq, ← mentions_eq]
  exact m.collectRefs_resolve legacy

theorem fieldRanges_resolve :
    (m.resolve legacy).module.fieldRanges =
      m.fieldRanges.map (NodeRange.map (m.scope legacy).value) := by
  unfold fieldRanges
  rw [← mentions_eq, ← mentions_eq]
  exact m.ranges_resolve legacy

theorem fieldRefs_stops : m.fieldRefs = m.stops.flatMap fun x => x.mention.refs := by
  rw [fieldRefs, ← mentions_eq, ← stops_mention, List.flatMap_map]

theorem fieldRanges_stops : m.fieldRanges = m.stops.flatMap fun x => x.mention.ranges := by
  rw [fieldRanges, ← mentions_eq, ← stops_mention, List.flatMap_map]

/-- The errors of the second pass, stop by stop. -/
theorem sum_countOf_answer :
    (m.stops.map fun x => (x.answer (m.scope legacy)).countOf (· == .error)).sum =
      m.fieldRefs.countP (fun r => r.isLost ((m.scope legacy).value r)) +
        (m.fieldRanges.map (NodeRange.map (m.scope legacy).value)).countP
          fun r => !r.isCanonical := by
  have hanswer : ∀ x : Stop, (x.answer (m.scope legacy)).countOf (· == .error) =
      x.mention.refs.countP (fun r => r.isLost ((m.scope legacy).value r)) +
        (x.mention.map (m.scope legacy).value).ranges.countP fun r => !r.isCanonical := by
    intro x
    have h := Scope.countOf_answer { m.scope legacy with defining := x.defining } x.mention
    rwa [Scope.value_defining] at h
  have hranges : m.fieldRanges.map (NodeRange.map (m.scope legacy).value) =
      m.stops.flatMap fun x => (x.mention.map (m.scope legacy).value).ranges := by
    rw [← fieldRanges_resolve, fieldRanges, ← mentions_eq, mentions_resolve, ← stops_mention,
      List.map_map, List.flatMap_map]
    rfl
  simp only [hanswer]
  rw [List.sum_map_add, fieldRefs_stops, hranges, List.countP_flatMap, List.countP_flatMap]
  rfl

theorem lost_eq :
    (m.fieldRefs.zip (m.resolve legacy).module.fieldRefs).countP (fun p => p.1.isLost p.2) =
      m.fieldRefs.countP fun r => r.isLost ((m.scope legacy).value r) := by
  rw [fieldRefs_resolve, ← List.map_prod_left_eq_zip, List.countP_map]
  rfl

theorem countP_error :
    (m.resolve legacy).messages.countP (fun x => x.severity == .error) =
      m.errors (m.resolve legacy).module := by
  have hbuild := m.countP_findings (List.append_nil _).symm
  rw [← definitions_ids, m.definitions_ids_perm.countP_eq] at hbuild
  have hcount := m.countP_messages legacy (p := (· == .error)) rfl
  rw [hcount, hbuild, sum_countOf_answer, errors, lost_eq, fieldRanges_resolve, ← Nat.add_assoc]
  rfl

/-- A number or a name that a module can make sense of: one of its definitions has it, or it is a
number that may stand for a place of the document, and a generated node is there. -/
def Resolvable (r : NodeRef) : Prop :=
  r ∈ m.nodeIds ∨
    legacy = true ∧ ∃ n s j, r = .number n ∧ m.declaredNodes[n.toNat]? = some (s, j) ∧ s.id? = none

theorem legacyPosition?_isSome_iff (n : UInt32) :
    ((m.scope legacy).legacyPosition? n).isSome ↔
      legacy = true ∧ ∃ s j, m.declaredNodes[n.toNat]? = some (s, j) ∧ s.id? = none := by
  have hplace := congrArg Option.isSome (legacyPosition?_eq (m := m) legacy n)
  rw [Option.isSome_map, Option.isSome_map] at hplace
  rw [hplace]
  cases hx : m.declaredNodes[n.toNat]? with
  | none => simp
  | some x =>
      obtain ⟨s, j⟩ := x
      simp [Option.isSome_filter]

theorem position?_isSome_iff {r : NodeRef} (hr : r.isAuthored) :
    ((m.scope legacy).position? r).isSome ↔ m.Resolvable legacy r := by
  have hfind : ((m.scope legacy).table.find? r).isSome ↔ r ∈ m.nodeIds := by
    have htable : (m.scope legacy).table.find? r = (m.first? r).map m.start := table_find? hr
    rw [htable, Option.isSome_map, mem_nodeIds]
  cases r with
  | number n =>
      have hfind' : ((m.scope legacy).table.findNumber? n).isSome ↔ .number n ∈ m.nodeIds := hfind
      rw [Scope.position?, Option.isSome_or, Bool.or_eq_true, hfind', Option.isSome_map,
        legacyPosition?_isSome_iff]
      simp [Resolvable]
  | name x =>
      refine hfind.trans ?_
      simp [Resolvable]
  | slot x => cases hr
  | unresolved => cases hr

theorem isLost_value_iff (r : NodeRef) :
    r.isLost ((m.scope legacy).value r) = false ↔ (r.isAuthored = true → m.Resolvable legacy r) := by
  cases hr : r.isAuthored with
  | false => simp [NodeRef.isLost, hr]
  | true =>
      rw [← m.position?_isSome_iff legacy hr, (m.scope legacy).value_authored hr]
      cases (m.scope legacy).position? r <;> simp [NodeRef.isLost, NodeRef.isUnresolved, hr]

/-- A module in which nothing is missing: every definition has an id of its own, every number and
every name can be resolved, and no range was written without an end. -/
structure Sound (m : Module) (legacy : Bool) : Prop where
  identified : .unresolved ∉ m.nodeIds
  distinct : (m.nodeIds.filter NodeRef.isAuthored).Nodup
  resolvable {r : NodeRef} (hr : r ∈ m.fieldRefs) (h : r.isAuthored = true) : m.Resolvable legacy r
  complete {r : NodeRange} (hr : r ∈ m.fieldRanges) : r.start ≠ .unresolved ∧ r.stop ≠ .unresolved

theorem mem_fieldRefs {r : NodeRange} (hr : r ∈ m.fieldRanges) :
    r.start ∈ m.fieldRefs ∧ r.stop ∈ m.fieldRefs := by
  obtain ⟨x, hx, hr⟩ := List.mem_flatMap.mp hr
  cases x with
  | ref r' => cases hr
  | range r' =>
      rw [List.mem_singleton.mp hr]
      exact ⟨List.mem_flatMap.mpr ⟨_, hx, List.mem_cons_self⟩,
        List.mem_flatMap.mpr ⟨_, hx, List.mem_cons_of_mem _ List.mem_cons_self⟩⟩

/-- Once no reference is lost, only what was written as unresolved is no slot. -/
theorem value_isCanonical_iff {r : NodeRef} (h : r.isAuthored = true → m.Resolvable legacy r) :
    ((m.scope legacy).value r).isCanonical = true ↔ r ≠ .unresolved := by
  have hform : ∀ x : NodeRef, x.isAuthored = false → x.isCanonical = !x.isUnresolved := by
    intro x hx
    cases x <;> first | rfl | cases hx
  cases hr : r.isAuthored with
  | true =>
      have hlost := (m.isLost_value_iff legacy r).mpr h
      rw [NodeRef.isLost, hr, Bool.true_and] at hlost
      have hne : r ≠ .unresolved := by
        rintro rfl
        cases hr
      rw [hform _ (Scope.value_isAuthored _ r), hlost]
      exact iff_of_true rfl hne
  | false =>
      rw [Scope.value_of_not_authored _ hr, hform r hr]
      cases r with
      | slot x => simp [NodeRef.isUnresolved]
      | unresolved => simp [NodeRef.isUnresolved]
      | _ => cases hr

theorem errors_eq_zero_iff : m.errors (m.resolve legacy).module = 0 ↔ m.Sound legacy := by
  have hids : m.nodeIds.countP NodeRef.isUnresolved = 0 ↔ .unresolved ∉ m.nodeIds := by
    rw [List.countP_eq_zero]
    constructor
    · intro h hmem
      exact h _ hmem rfl
    · intro h id hmem hid
      cases id <;> first | exact h hmem | cases hid
  have hduplicates : m.duplicates.length = 0 ↔ (m.nodeIds.filter NodeRef.isAuthored).Nodup := by
    rw [duplicates, repeated_length_eq_zero]
    exact (m.definitions_ids_perm.filter _).nodup_iff
  have hlost : (m.fieldRefs.zip (m.resolve legacy).module.fieldRefs).countP
      (fun p => p.1.isLost p.2) = 0 ↔
        ∀ r ∈ m.fieldRefs, r.isAuthored = true → m.Resolvable legacy r := by
    rw [m.lost_eq legacy, List.countP_eq_zero]
    simp only [Bool.not_eq_true, isLost_value_iff]
  unfold errors
  rw [Nat.add_eq_zero_iff, Nat.add_eq_zero_iff, Nat.add_eq_zero_iff, hids, hduplicates, hlost,
    fieldRanges_resolve, List.countP_map, List.countP_eq_zero]
  have hranges : (∀ r ∈ m.fieldRefs, r.isAuthored = true → m.Resolvable legacy r) →
      ∀ r ∈ m.fieldRanges, (r.map (m.scope legacy).value).isCanonical = true ↔
        r.start ≠ .unresolved ∧ r.stop ≠ .unresolved := by
    intro h r hr
    obtain ⟨hstart, hstop⟩ := m.mem_fieldRefs hr
    rw [← m.value_isCanonical_iff legacy (h _ hstart), ← m.value_isCanonical_iff legacy (h _ hstop)]
    exact Bool.and_eq_true_iff
  constructor
  · rintro ⟨⟨⟨hid, hdistinct⟩, hrefs⟩, hcomplete⟩
    refine ⟨hid, hdistinct, fun hr h => hrefs _ hr h, fun hr => ?_⟩
    apply (hranges hrefs _ hr).mp
    simpa using hcomplete _ hr
  · rintro ⟨hid, hdistinct, hrefs, hcomplete⟩
    refine ⟨⟨⟨hid, hdistinct⟩, fun r hr h => hrefs hr h⟩, fun r hr => ?_⟩
    simpa using (hranges (fun r hr h => hrefs hr h) r hr).mpr (hcomplete hr)

end Module

theorem Notice.severity_ne_fatal (n : Notice) : n.severity ≠ .fatal := by
  cases n <;> simp [severity]

/-- The errors of a document `d` that has become `d'`, module by module. -/
def Document.errors (d d' : Document) : Nat :=
  ((d.modules.zip d'.modules).map fun p => p.1.errors p.2).sum

namespace Resolver

/-- A run whose errors are accounted for. `aligned` says that input and output have the same modules
and references at the same places, so that none of them escapes the count. -/
structure Accounts (r : Resolver) (d : Document) (a : Resolver × Document) : Prop where
  aligned : List.Forall₂ (fun m m' => m'.fieldRefs.length = m.fieldRefs.length) d.modules
    a.2.modules
  added : ∃ added,
    a.1.diagnostics.messages.toList = r.diagnostics.messages.toList ++ added ∧
      added.countP (fun x => x.severity == .error) = d.errors a.2 ∧
      ∀ x ∈ added, x.severity ≠ .fatal
  growth : a.1.diagnostics.errorCount = r.diagnostics.errorCount + d.errors a.2
  clean : a.1.diagnostics.errorCount = r.diagnostics.errorCount ↔
    ∀ m ∈ d.modules, m.Sound r.options.legacy
  resolved (h : a.1.diagnostics.errorCount = r.diagnostics.errorCount) {i : Nat} {m m' : Module}
    (hm : d.modules[i]? = some m) (hm' : a.2.modules[i]? = some m') {j : Nat} {x : NodeRef}
    (hx : m.fieldRefs[j]? = some x) (hne : x ≠ .unresolved) :
    ∃ s, m'.fieldRefs[j]? = some (.slot s)

/-- Errors are what the documents before and after show, and none are added exactly if nothing was
missing. -/
theorem process_accounts {r : Resolver} (h : r.options.enabled = true) (d : Document) :
    r.Accounts d (r.process d) := by
  have hmodules : (r.process d).2.modules =
      d.modules.map fun m => (m.resolve r.options.legacy).module := by
    rw [process_document h]
  have herrors : d.errors (r.process d).2 =
      (d.modules.map fun m => m.errors (m.resolve r.options.legacy).module).sum := by
    rw [Document.errors, hmodules, ← List.map_prod_left_eq_zip, List.map_map]
    rfl
  have hgrowth : (r.process d).1.diagnostics.errorCount =
      r.diagnostics.errorCount + d.errors (r.process d).2 := by
    rw [Diagnostics.errorCount_eq, Diagnostics.errorCount_eq, process_countOf h, herrors]
    simp only [Module.countP_error]
  have hclean : (r.process d).1.diagnostics.errorCount = r.diagnostics.errorCount ↔
      ∀ m ∈ d.modules, m.Sound r.options.legacy := by
    rw [hgrowth, Nat.add_eq_left, herrors, List.sum_eq_zero_iff]
    simp [Module.errors_eq_zero_iff]
  refine ⟨?aligned, ?added, hgrowth, hclean, ?resolved⟩
  case aligned =>
    rw [hmodules, List.forall₂_map_right_iff, List.forall₂_same]
    intro m hm
    rw [Module.fieldRefs_resolve, List.length_map]
  case added =>
    refine ⟨_, process_messages h d, ?_, ?_⟩
    · rw [List.countP_flatMap, herrors]
      simp only [Function.comp_def, Module.countP_error]
    · intro x hx
      obtain ⟨m, -, hx⟩ := List.mem_flatMap.mp hx
      obtain ⟨f, -, rfl⟩ := List.mem_map.mp hx
      exact f.notice.severity_ne_fatal
  case resolved =>
    intro hsame i m m' hm hm' j x hx hne
    rw [hmodules, List.getElem?_map, hm] at hm'
    obtain rfl := Option.some.inj hm'
    have hsound := hclean.mp hsame m (List.mem_of_getElem? hm)
    have hslot := (m.value_isCanonical_iff r.options.legacy
      (hsound.resolvable (List.mem_of_getElem? hx))).mpr hne
    rw [Module.fieldRefs_resolve, List.getElem?_map, hx]
    cases hv : (m.scope r.options.legacy).value x with
    | slot s => exact ⟨s, congrArg some hv⟩
    | _ => rw [hv] at hslot; cases hslot

end Resolver

/-- One of everything that can be wrong: an id that is missing, a number and a name that are taken,
numbers and names without a definition, on their own and in a range, and a range without an end. -/
def Document.frayed : Document :=
  .withRoot "frayed"
    [⟨.nodes, [.ofId (.number 7), .ofId .unresolved, .ofId (.number 7), .ofId (.slot ⟨9⟩)]⟩,
      .namedNodes ["hub", "hub"],
      .ofBeams [(.number 7, .number 9), (.name "hub", .unresolved)],
      ⟨.railgroups, [⟨1, [⟨.number 7, .unresolved⟩, ⟨.number 5, .name "tip"⟩]⟩]⟩]

theorem Resolver.process_accounts_frayed :
    (new ⟨true, false⟩).Accounts .frayed ((new ⟨true, false⟩).process .frayed) ∧
      Document.frayed.errors ((new ⟨true, false⟩).process .frayed).2 = 8 := by
  have h := process_accounts (r := new ⟨true, false⟩) rfl .frayed
  have hstart : (new ⟨true, false⟩).diagnostics.errorCount = 0 := rfl
  have hcount : ((new ⟨true, false⟩).process .frayed).1.diagnostics.errorCount = 8 := by
    decide +kernel
  have hgrowth := h.growth
  rw [hcount, hstart, Nat.zero_add] at hgrowth
  exact ⟨h, hgrowth.symm⟩

/-- Nothing is missing in the small truck. -/
example : ((Resolver.new ⟨true, false⟩).process .sampleTruck).1.diagnostics.errorCount = 0 := by
  decide +kernel

end RigNodes
