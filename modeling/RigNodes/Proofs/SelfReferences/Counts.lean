import RigNodes.Proofs.Agreement
import RigNodes.Proofs.Histories
import RigNodes.Proofs.SelfReferences.Notices

/-! What resolvers count. In no state are more references counted as self-references than were led
by their place in the document, nor more of these than were resolved at all. A run adds to the
self-references exactly those of its modules. -/
namespace RigNodes

/-- Counts in the order of what they count: a self-reference has been led by its place, and a
reference that has been led by its place has been resolved. -/
structure Stats.Graded (a : Stats) (legacy : Bool) : Prop where
  self_le : a.resolvedToSelf ≤ a.byLegacyPosition
  legacy_le : a.byLegacyPosition ≤ a.totalResolved
  unused : legacy = false → a.byLegacyPosition = 0

namespace Stats.Graded
variable {a b : Stats} {legacy : Bool}

theorem zero (legacy : Bool) : Stats.zero.Graded legacy := ⟨Nat.le_refl 0, Nat.le_refl 0, fun _ => rfl⟩

theorem add (ha : a.Graded legacy) (hb : b.Graded legacy) : (a + b).Graded legacy where
  self_le := Nat.add_le_add ha.self_le hb.self_le
  legacy_le := Nat.add_le_add ha.legacy_le hb.legacy_le
  unused h := by
    change a.byLegacyPosition + b.byLegacyPosition = 0
    rw [ha.unused h, hb.unused h]

theorem sum {l : List Stats} (h : ∀ a ∈ l, a.Graded legacy) : l.sum.Graded legacy := by
  induction l with
  | nil => exact zero legacy
  | cons a l ih =>
      obtain ⟨ha, hl⟩ := List.forall_mem_cons.mp h
      rw [List.sum_cons]
      exact ha.add (ih hl)

theorem rigid (n : Nat) (legacy : Bool) : (⟨0, 0, 0, n⟩ : Stats).Graded legacy :=
  ⟨Nat.le_refl 0, Nat.le_refl 0, fun _ => rfl⟩

theorem self_eq_zero (h : a.Graded false) : a.resolvedToSelf = 0 :=
  Nat.le_zero.mp (h.unused rfl ▸ h.self_le)

end Stats.Graded

namespace Scope
variable {s : Scope}

/-- No number and no name is that of a node at hand. -/
def Apart (s : Scope) : Prop :=
  ∀ (r : NodeRef) (p : Nat), s.table.find? r = some p →
    (s.defining.any fun span => span.contains p) = false

theorem apart_of_none (h : s.defining = none) : s.Apart := by
  intro r p hp
  rw [h]
  rfl

theorem Apart.resolve (h : s.Apart) (r : NodeRef) : (s.resolve r).stats.Graded s.legacy := by
  have hfound : ∀ {p : Nat}, s.table.find? r = some p → (s.found r p [] 0).stats.Graded s.legacy := by
    intro p hp
    simp only [found, h r p hp]
    exact ⟨Nat.le_refl 0, Nat.zero_le 1, fun _ => rfl⟩
  cases r with
  | slot x => exact .zero _
  | unresolved => exact .zero _
  | name x =>
      cases hx : s.table.findName? x with
      | some p =>
          simp only [Scope.resolve, hx]
          exact hfound hx
      | none =>
          simp only [Scope.resolve, hx]
          exact .zero _
  | number n =>
      cases hn : s.table.findNumber? n with
      | some p =>
          simp only [Scope.resolve, hn]
          exact hfound hn
      | none =>
          cases hl : s.legacyPosition? n with
          | some x =>
              have hlegacy : s.legacy = true := by
                cases hs : s.legacy with
                | true => rfl
                | false => simp [legacyPosition?, hs] at hl
              simp only [Scope.resolve, hn, hl, found, hlegacy]
              refine ⟨?_, Nat.le_refl 1, fun hfalse => by cases hfalse⟩
              split <;> simp
          | none =>
              simp only [Scope.resolve, hn, hl]
              exact .zero _

theorem Apart.answer (h : s.Apart) (x : Mention) : (s.answer x).stats.Graded s.legacy := by
  cases x with
  | ref r => exact h.resolve r
  | range r => exact (h.resolve r.start).add (h.resolve r.stop)

end Scope

namespace Module
variable {m : Module}

theorem exists_row_of_grown? {c : Section × Nat} (hc : c ∈ m.sections.zipIdx)
    (hk : (Kind.generatedBy? c.1.keyword).isSome) {j p : Nat} {span : Span}
    (hspan : m.grown? c.2 j = some span) (hp : span.contains p = true) :
    ∃ e, m.table.get? p = some e ∧ e.userId = none := by
  rw [grown?_eq hc hk] at hspan
  obtain ⟨o, ho, rfl⟩ : ∃ o, ((c.1.sites c.2).map m.span?)[j]? = some o ∧ o = some span := by
    simpa [Option.join_eq_some_iff] using hspan
  rw [List.getElem?_map] at ho
  obtain ⟨s, hs, hspan⟩ := Option.map_eq_some_iff.mp ho
  have hs := List.mem_of_getElem? hs
  have hsite : s ∈ m.sites := List.mem_flatMap.mpr ⟨c, hc, hs⟩
  have hnode := Section.sites_id?_of_generating hk hs
  unfold span? at hspan
  split at hspan
  next hacc =>
    cases hspan
    simp only [Span.contains, Bool.and_eq_true, decide_eq_true_eq] at hp
    obtain ⟨q, rfl⟩ := Nat.exists_eq_add_of_le hp.1
    have hrow : q < (m.rows s).length := by
      rw [m.rows_length hacc]
      omega
    refine ⟨(m.rows s)[q], ?_, ?_⟩
    · rw [get?_table, tableRows_getElem? hsite hrow, List.getElem?_eq_getElem hrow]
    · rw [m.rows_userId (List.getElem_mem hrow), hnode]
  next => cases hspan

/-- No definition stands among the nodes that an entry has generated. -/
theorem apart_stop (legacy : Bool) {x : Stop} (hx : x ∈ m.stops) :
    ({ m.scope legacy with defining := x.defining } : Scope).Apart := by
  intro r p hp
  obtain ⟨c, hc, hx⟩ := List.mem_flatMap.mp hx
  obtain ⟨e, he, hx⟩ := List.mem_flatMap.mp hx
  obtain ⟨y, hy, rfl⟩ := List.mem_map.mp hx
  apply Bool.eq_false_iff.mpr
  intro hown
  obtain ⟨span, hspan, hcontains⟩ := (Option.any_eq_true _ _).mp hown
  rw [m.defining_eq hc (List.ne_nil_of_mem hy)] at hspan
  split at hspan
  next hk =>
    -- The index leads to an entry with an id, and what an entry generates has none.
    obtain ⟨e, hrow, hid⟩ := exists_row_of_grown? hc hk hspan hcontains
    have hfound := m.table_sound.found _ hp
    rw [hrow] at hfound
    cases hfound
    cases hid
  next => cases hspan

theorem resolve_graded (m : Module) (legacy : Bool) :
    (m.resolve legacy).stats.Graded legacy := by
  rw [resolve_stats]
  refine Stats.Graded.add ?_ (.rigid _ legacy)
  apply Stats.Graded.sum
  intro a ha
  obtain ⟨x, hx, rfl⟩ := List.mem_map.mp ha
  exact (apart_stop legacy hx).answer x.mention

theorem lt_size_of_position? (legacy : Bool) {r : NodeRef} {p : Nat}
    (h : (m.scope legacy).position? r = some p) : p < m.table.size := by
  have hfound : ∀ id : NodeRef, m.table.find? id = some p → p < m.table.size := fun id h =>
    NodeTable.lt_size_of_get? (m.table_sound.found id h)
  cases r with
  | number n =>
      rcases Option.or_eq_some_iff.mp h with h | ⟨-, h⟩
      · exact hfound (.number n) h
      · obtain ⟨x, hx, rfl⟩ := Option.map_eq_some_iff.mp h
        simp only [Scope.legacyPosition?, Option.bind_eq_bind, Option.bind_eq_some_iff] at hx
        obtain ⟨-, -, q, -, e, he, -, -, hx⟩ := hx
        cases hx
        exact NodeTable.lt_size_of_get? he
  | name x => exact hfound (.name x) h
  | slot x => cases h
  | unresolved => cases h

end Module

/-- The members of a list with their places, once each of them is changed in place. -/
theorem zipIdx_zipIdx_map {α β : Type} (l : List α) (f : α × Nat → β) :
    (l.zipIdx.map f).zipIdx = l.zipIdx.map fun a => (f a, a.2) := by
  apply List.ext_getElem
  · simp
  · intro i hi hi'
    simp

theorem Section.occurrences_settled (f : NodeRef → NodeRef) (spans : List (Option Span))
    (c : Section) (part : Nat) :
    (c.settled f spans).occurrences part =
      (c.occurrences part).map fun o => { o with ref := f o.ref } := by
  have hentries : (c.entries.mapIdx fun j e => settledEntry f spans[j]?.join c.keyword e).zipIdx =
      c.entries.zipIdx.map fun e => (settledEntry f spans[e.2]?.join c.keyword e.1, e.2) := by
    rw [List.mapIdx_eq_zipIdx_map, zipIdx_zipIdx_map]
  have hsettled : (c.settled f spans).occurrences part =
      (c.entries.mapIdx fun j e => settledEntry f spans[j]?.join c.keyword e).zipIdx.flatMap
        fun e => ((fieldStops c.keyword e.1).flatMap Mention.refs).map
          fun r => ⟨part, e.2, c.keyword, r⟩ := rfl
  rw [hsettled, hentries, occurrences, List.map_flatMap, List.flatMap_map]
  apply List.flatMap_congr
  intro e he
  have hstops : fieldStops c.keyword (settledEntry f spans[e.2]?.join c.keyword e.1) =
      (fieldStops c.keyword e.1).map (Mention.map f) := by
    rw [← mentions_entry, ← mentions_entry, mentions_settledEntry]
  have hrefs : (fieldStops c.keyword (settledEntry f spans[e.2]?.join c.keyword e.1)).flatMap
      Mention.refs = ((fieldStops c.keyword e.1).flatMap Mention.refs).map f := by
    rw [hstops, List.flatMap_map, List.map_flatMap]
    simp only [Mention.refs_map]
  simp only [hrefs, List.map_map]
  rfl

namespace Module
variable (m : Module) (legacy : Bool)

/-- A run puts other references in the same places. -/
theorem occurrences_resolve :
    (m.resolve legacy).module.occurrences =
      m.occurrences.map fun o => { o with ref := (m.scope legacy).value o.ref } := by
  rw [occurrences, resolve_sections, zipIdx_zipIdx_map, occurrences, List.map_flatMap,
    List.flatMap_map]
  apply List.flatMap_congr
  intro c hc
  exact c.1.occurrences_settled _ _ _

/-- A reference leads to a node of its own entry exactly if a slot comes of it that was appended
for the entry. -/
theorem ownPosition?_isSome_iff (hsize : m.table.size ≤ 2 ^ 32) {o : Occurrence}
    (ho : o ∈ m.occurrences) :
    (m.ownPosition? legacy o).isSome ↔
      (Kind.generatedBy? o.keyword).isSome ∧ o.ref.isAuthored ∧ ∃ span p,
        m.grown? o.part o.entry = some span ∧ span.contains p ∧
          (m.scope legacy).value o.ref = .slot (.ofPosition p) := by
  obtain ⟨c, hc, ho⟩ := List.mem_flatMap.mp ho
  obtain ⟨e, he, ho⟩ := List.mem_flatMap.mp ho
  obtain ⟨r, hr, rfl⟩ := List.mem_map.mp ho
  have hauthored : ∀ p, (m.scope legacy).position? r = some p → r.isAuthored := by
    intro p hp
    cases r with
    | number n => rfl
    | name x => rfl
    | slot x => cases hp
    | unresolved => cases hp
  constructor
  · intro h
    obtain ⟨p, hp⟩ := Option.isSome_iff_exists.mp h
    unfold ownPosition? at hp
    split at hp
    next hk =>
      obtain ⟨hp, hown⟩ := Option.filter_eq_some_iff.mp hp
      obtain ⟨span, hspan, hcontains⟩ := (Option.any_eq_true _ _).mp hown
      refine ⟨hk, hauthored p hp, span, p, hspan, hcontains, ?_⟩
      rw [Scope.value_authored _ (hauthored p hp), hp]
      rfl
    next => cases hp
  · rintro ⟨hk, hr, span, p, hspan, hcontains, hvalue⟩
    rw [Scope.value_authored _ hr] at hvalue
    cases hq : (m.scope legacy).position? r with
    | none =>
        rw [hq] at hvalue
        cases hvalue
    | some q =>
        rw [hq] at hvalue
        have hslot : Slot.ofPosition q = .ofPosition p := by
          simpa using hvalue
        -- Both are positions of entries, which slots of 32 bits tell apart.
        obtain ⟨row, hrow, -⟩ := exists_row_of_grown? hc hk hspan hcontains
        have hplt := NodeTable.lt_size_of_get? hrow
        have hqlt := lt_size_of_position? legacy hq
        have hsame := congrArg Slot.position hslot
        rw [position_ofPosition (by omega), position_ofPosition (by omega)] at hsame
        subst hsame
        have hown : (m.grown? c.2 e.2).any (fun span => span.contains q) = true := by
          rw [hspan]
          exact hcontains
        simp [ownPosition?, hk, hq, hown]

end Module

namespace Resolver
variable (r : Resolver)

/-- The position that a reference leads to in a run, if it is that of a node of its own entry. -/
def ownPosition? (m : Module) (o : Occurrence) : Option Nat :=
  if r.options.enabled then m.ownPosition? r.options.legacy o else none

/-- The self-references that a run finds in a module, each with the position of its node. -/
def selfReferences (m : Module) : List (Occurrence × Nat) :=
  m.occurrences.filterMap fun o => (r.ownPosition? m o).map fun p => (o, p)

/-- A reference before and after a run. It is a self-reference exactly if it stands in a cinecam or
a wheel, was a number or a name, and became one of the slots that were appended for its entry. -/
structure Becomes (m : Module) (o o' : Occurrence) : Prop where
  part : o'.part = o.part
  entry : o'.entry = o.entry
  keyword : o'.keyword = o.keyword
  own (hsize : m.canonicalRows.length ≤ 2 ^ 32) : (r.ownPosition? m o).isSome ↔
    (Kind.generatedBy? o.keyword).isSome ∧ o.ref.isAuthored ∧ ∃ span p,
      m.grown? o.part o.entry = some span ∧ span.contains p ∧ o'.ref = .slot (.ofPosition p)

/-- A run that counts self-references, has a message for each of them, and closes every module that
has any with their number. -/
structure CountsSelf (d : Document) (a : Resolver × Document) : Prop where
  references : List.Forall₂ (fun m m' => List.Forall₂ (r.Becomes m) m.occurrences m'.occurrences)
    d.modules a.2.modules
  counted : a.1.stats.resolvedToSelf = r.stats.resolvedToSelf +
    (d.modules.map fun m => (r.selfReferences m).length).sum
  noted : ∃ added,
    a.1.diagnostics.messages.toList = r.diagnostics.messages.toList ++ added ∧
      added.filter (fun x => x.severity == .info) = d.modules.flatMap fun m =>
        (Module.selfFindings (r.selfReferences m)).map (Finding.message m.name)

variable {r}

/-- A resolver that is switched off finds nothing and resolves nothing. -/
theorem countsSelf_of_disabled (h : r.options.enabled = false) (d : Document) :
    r.CountsSelf d (r.process d) := by
  have hprocess : r.process d = (r, d) := by simp [process, h]
  have hown : ∀ m o, r.ownPosition? m o = none := by
    intro m o
    simp [ownPosition?, h]
  have hnone : ∀ m, r.selfReferences m = [] := by
    intro m
    simp [selfReferences, hown]
  rw [hprocess]
  refine ⟨?references, ?counted, [], (List.append_nil _).symm, ?noted⟩
  case references =>
    apply List.forall₂_same.mpr
    intro m hm
    apply List.forall₂_same.mpr
    intro o ho
    refine ⟨rfl, rfl, rfl, fun _ => ?_⟩
    rw [hown]
    refine iff_of_false (by simp) ?_
    rintro ⟨-, hr, span, p, -, -, hslot⟩
    rw [hslot] at hr
    cases hr
  case counted => simp [hnone]
  case noted => simp [hnone, Module.selfFindings]

theorem countsSelf_of_enabled (h : r.options.enabled = true) (d : Document) :
    r.CountsSelf d (r.process d) := by
  have hown : ∀ m o, r.ownPosition? m o = m.ownPosition? r.options.legacy o := by
    intro m o
    rw [ownPosition?, if_pos h]
  have hfound : ∀ m, r.selfReferences m = m.selfReferences r.options.legacy := by
    intro m
    simp only [selfReferences, hown]
    rfl
  refine ⟨?references, ?counted, _, process_messages h d, ?noted⟩
  case references =>
    rw [process_document h, List.forall₂_map_right_iff]
    apply List.forall₂_same.mpr
    intro m hm
    rw [m.occurrences_resolve, List.forall₂_map_right_iff]
    apply List.forall₂_same.mpr
    intro o ho
    refine ⟨rfl, rfl, rfl, fun hsize => ?_⟩
    rw [← m.tableRows_eq, ← m.size_table] at hsize
    rw [hown]
    exact m.ownPosition?_isSome_iff r.options.legacy hsize ho
  case counted =>
    have hadd : ∀ a b : Stats, (a + b).resolvedToSelf = a.resolvedToSelf + b.resolvedToSelf :=
      fun _ _ => rfl
    rw [process_stats h, hadd, Module.sum_resolvedToSelf, List.map_map]
    simp only [Function.comp_def, Module.resolve_resolvedToSelf, hfound]
  case noted =>
    rw [List.filter_flatMap]
    simp only [Module.resolve_messages_info, hfound]

/-- No request upsets the order of the counts, and none touches the legacy option. -/
theorem answer_graded (r : Resolver) (q : Request) (h : r.stats.Graded r.options.legacy) :
    (r.answer q).1.stats.Graded (r.answer q).1.options.legacy := by
  cases q with
  | init enabled => exact .zero _
  | disable => exact h
  | beginModule name => exact h
  | registerNumber n =>
      simp only [answer, registerNumber]
      split <;> exact h
  | registerName x =>
      simp only [answer, registerName]
      split <;> exact h
  | registerGenerated k role =>
      simp only [answer, registerGenerated]
      split <;> exact h
  | registerWheel k rays rigid =>
      simp only [answer, registerWheel]
      split
      · split
        · exact h.add (.rigid _ _)
        · exact h
      · exact h
  | resolve x =>
      simp only [answer, resolve]
      split
      · exact h.add ((Scope.apart_of_none rfl).answer (.ref x))
      · exact h
  | resolveRange x =>
      simp only [answer, resolveRange]
      split
      · exact h.add ((Scope.apart_of_none rfl).answer (.range x))
      · exact h
  | resolveByPosition k i =>
      simp only [answer, resolveByPosition]
      split
      · split <;> exact h
      · exact h
  | process d =>
      cases henabled : r.options.enabled with
      | false =>
          have hprocess : r.answer (.process d) = (r, .document d) := by
            simp [answer, process, henabled, Prod.map]
          rw [hprocess]
          exact h
      | true =>
          have hstats : (r.answer (.process d)).1.stats = _ := process_stats henabled d
          have hoptions : (r.answer (.process d)).1.options = r.options :=
            r.answer_options (by simp) (by simp)
          rw [hstats, hoptions]
          refine h.add (Stats.Graded.sum ?_)
          intro a ha
          obtain ⟨m, -, rfl⟩ := List.mem_map.mp ha
          exact m.resolve_graded _

/-- Self-references are counted exactly, and in every state that can be reached they are among the
references that were led by their place in the document. -/
theorem self_references_counted :
    (∀ (r : Resolver) (d : Document), r.CountsSelf d (r.process d)) ∧
      ∀ r : Resolver, r.Reachable →
        r.stats.resolvedToSelf ≤ r.stats.byLegacyPosition ∧
          r.stats.byLegacyPosition ≤ r.stats.totalResolved ∧
          (r.options.legacy = false → r.stats.resolvedToSelf = 0) := by
  constructor
  · intro r d
    cases h : r.options.enabled with
    | true => exact countsSelf_of_enabled h d
    | false => exact countsSelf_of_disabled h d
  · rintro r ⟨o, qs, rfl⟩
    have h := replay_preserves (P := fun r => r.stats.Graded r.options.legacy) answer_graded
      (r := new o) (.zero _) qs
    refine ⟨h.self_le, h.legacy_le, fun hoff => ?_⟩
    rw [hoff] at h
    exact h.self_eq_zero

end Resolver

/-- Two wheels whose nodes are at 2 to 5. The first refers to its own ones three times, the second
once, and once to one of the first. -/
def Module.looped : Module where
  name := "looped"
  sections :=
    [.numberedNodes [0, 1],
      ⟨.wheels, [.usual 1 #v[.number 2, .number 3] (.number 2),
        .usual 1 #v[.number 0, .number 5] (.number 3)]⟩,
      .ofBeams [(.number 2, .number 0)]]

theorem Resolver.self_references_counted_looped :
    let d : Document := ⟨"", [.looped]⟩
    let on := (new ⟨true, true⟩).replay [.process d]
    let off := (new ⟨true, false⟩).replay [.process d]
    (new ⟨true, true⟩).CountsSelf d ((new ⟨true, true⟩).process d) ∧
      on.stats.resolvedToSelf ≤ on.stats.byLegacyPosition ∧
      on.stats.byLegacyPosition ≤ on.stats.totalResolved ∧ on.stats = ⟨8, 4, 6, 0⟩ ∧
      off.stats.resolvedToSelf = 0 ∧ off.stats.totalResolved = 2 := by
  intro d on off
  obtain ⟨hself, hlegacy, -⟩ := self_references_counted.2 on ⟨_, _, rfl⟩
  obtain ⟨-, -, hoff⟩ := self_references_counted.2 off ⟨_, _, rfl⟩
  have hstats : on.stats = ⟨8, 4, 6, 0⟩ := by decide +kernel
  have htotal : off.stats.totalResolved = 2 := by decide +kernel
  exact ⟨self_references_counted.1 _ d, hself, hlegacy, hstats, hoff rfl, htotal⟩

end RigNodes
