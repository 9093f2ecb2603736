import RigNodes.Proofs.CanonicalTable
import RigNodes.Proofs.Histories
import RigNodes.Proofs.RangeVerdict

/-! What is said about a range besides what is said about its ends. A range is never repaired: once
its ends are known, one rule decides which notice it gets, if any, and only entries of the table are
looked at, wherever the ends point to. -/
namespace RigNodes

/-- What is said about a range `x` with the ends of `y`. An end that is lost comes first; a range that
was written with slots is let be; a range that is reversed is not asked what it spans. -/
inductive NodeTable.Remark (t : NodeTable) (x : NodeRange) : NodeRange → List Notice → Prop
  | incomplete {y : NodeRange} (h : y.start.slot? = none ∨ y.stop.slot? = none) :
      Remark t x y [.rangeUnresolved x]
  | written {a b : Slot} (h : x.isCanonical = true) : Remark t x ⟨.slot a, .slot b⟩ []
  | reversed {a b : Slot} (h : x.isCanonical = false) (hab : b.position < a.position) :
      Remark t x ⟨.slot a, .slot b⟩ [.rangeReversed x a b]
  | spanning {a b : Slot} (h : x.isCanonical = false) (hab : a.position ≤ b.position)
      (hmixed : t.Mixed a b) : Remark t x ⟨.slot a, .slot b⟩ [.rangeSpansGroups x a b]
  | plain {a b : Slot} (h : x.isCanonical = false) (hab : a.position ≤ b.position)
      (hmixed : ¬ t.Mixed a b) : Remark t x ⟨.slot a, .slot b⟩ []

/-- The positions of a table from one slot to another, both included. -/
def NodeTable.between (t : NodeTable) (a b : Slot) : List Nat :=
  List.range' a.position (min (b.position + 1) t.size - a.position)

namespace Scope
variable (s : Scope) {x y : NodeRange}

theorem rangeNotices_reversed {a b : Slot} (hab : b.position < a.position) :
    s.rangeNotices x a b = [.rangeReversed x a b] := if_pos hab

theorem rangeNotices_ordered {a b : Slot} (hab : a.position ≤ b.position) :
    s.rangeNotices x a b = if s.table.Mixed a b then [.rangeSpansGroups x a b] else [] := by
  simp only [rangeNotices, if_neg (Nat.not_lt.mpr hab), spansGroups_iff]

theorem verdict_slots (x : NodeRange) (a b : Slot) :
    (s.verdict x ⟨.slot a, .slot b⟩).notices =
      if x.isCanonical then [] else s.rangeNotices x a b := rfl

theorem verdict_incomplete (x : NodeRange) (h : y.start.slot? = none ∨ y.stop.slot? = none) :
    (s.verdict x y).notices = [.rangeUnresolved x] := by
  obtain ⟨a, b⟩ := y
  rcases h with h | h
  · cases a with
    | slot a => cases h
    | _ => rfl
  · cases b with
    | slot b => cases h
    | _ => cases a <;> rfl

/-- The rules say what is said, and there is always one of them that applies. -/
theorem remark_iff (x y : NodeRange) (ns : List Notice) :
    s.table.Remark x y ns ↔ ns = (s.verdict x y).notices := by
  constructor
  · intro h
    cases h with
    | incomplete h => rw [s.verdict_incomplete x h]
    | written h => rw [verdict_slots, if_pos h]
    | reversed h hab =>
        rw [verdict_slots, h, s.rangeNotices_reversed hab]
        rfl
    | spanning h hab hmixed =>
        rw [verdict_slots, h, s.rangeNotices_ordered hab, if_pos hmixed]
        rfl
    | plain h hab hmixed =>
        rw [verdict_slots, h, s.rangeNotices_ordered hab, if_neg hmixed]
        rfl
  · rintro rfl
    by_cases hlost : y.start.slot? = none ∨ y.stop.slot? = none
    · rw [s.verdict_incomplete x hlost]
      exact .incomplete hlost
    · obtain ⟨a, b, rfl⟩ : ∃ a b, y = ⟨.slot a, .slot b⟩ := by
        obtain ⟨a, b⟩ := y
        cases a <;> cases b <;> simp_all [NodeRef.slot?]
      rw [verdict_slots]
      cases hx : x.isCanonical with
      | true => exact .written hx
      | false =>
          rcases Nat.lt_or_ge b.position a.position with hab | hab
          · rw [s.rangeNotices_reversed hab]
            exact .reversed hx hab
          · rw [s.rangeNotices_ordered hab]
            by_cases hmixed : s.table.Mixed a b
            · rw [if_pos hmixed]
              exact .spanning hx hab hmixed
            · rw [if_neg hmixed]
              exact .plain hx hab hmixed

end Scope

namespace NodeTable
variable {t : NodeTable}

theorem Remark.length_le {x y : NodeRange} {ns : List Notice} (h : t.Remark x y ns) :
    ns.length ≤ 1 := by
  cases h <;> simp

/-- A range that has lost an end is an error, and whatever else is said about one is a warning. -/
theorem Remark.severity {x y : NodeRange} {ns : List Notice} (h : t.Remark x y ns) :
    ns.map Notice.severity =
      if y.isCanonical then List.replicate ns.length .warning else [.error] := by
  cases h with
  | incomplete h =>
      have hlost : y.isCanonical = false := by
        obtain ⟨a, b⟩ := y
        cases a <;> cases b <;> simp_all [NodeRef.slot?, NodeRange.isCanonical,
          NodeRef.isCanonical]
      rw [hlost]
      rfl
  | _ => rfl

theorem mem_between {a b : Slot} {p : Nat} :
    p ∈ t.between a b ↔ a.position ≤ p ∧ p ≤ b.position ∧ p < t.size := by
  rw [between, List.mem_range'_1]
  omega

/-- Between two slots there is an entry at each position that is looked at. -/
theorem get?_between (t : NodeTable) (a b : Slot) :
    ∃ es : List TableEntry, (t.between a b).map t.get? = es.map some ∧
      ∀ e, e ∈ es ↔ t.Within a b e := by
  have hinside : ∀ p ∈ t.between a b, ∃ e, t.get? p = some e := by
    intro p hp
    exact ⟨_, Array.getElem?_eq_getElem (mem_between.mp hp).2.2⟩
  refine ⟨(t.between a b).filterMap t.get?, ?_, ?_⟩
  · generalize t.between a b = ps at hinside
    induction ps with
    | nil => rfl
    | cons p ps ih =>
        obtain ⟨e, he⟩ := hinside p List.mem_cons_self
        rw [List.map_cons, List.filterMap_cons_some he, List.map_cons, he,
          ih fun q hq => hinside q (List.mem_cons_of_mem p hq)]
  · intro e
    rw [List.mem_filterMap]
    constructor
    · rintro ⟨p, hp, he⟩
      obtain ⟨ha, hb, -⟩ := mem_between.mp hp
      exact ⟨p, ha, hb, he⟩
    · rintro ⟨p, ha, hb, he⟩
      exact ⟨p, mem_between.mpr ⟨ha, hb, (Array.getElem?_eq_some_iff.mp he).1⟩, he⟩

theorem Sorted.rank_le (h : t.Sorted) {p q : Nat} {e e' : TableEntry} (hpq : p ≤ q)
    (he : t.get? p = some e) (he' : t.get? q = some e') : e.origin.rank ≤ e'.origin.rank := by
  rcases Nat.eq_or_lt_of_le hpq with rfl | hlt
  · rw [he] at he'
    rw [Option.some.inj he']
  · obtain ⟨hp, rfl⟩ := Array.getElem?_eq_some_iff.mp he
    obtain ⟨hq, rfl⟩ := Array.getElem?_eq_some_iff.mp he'
    exact List.pairwise_iff_getElem.mp h p q hp hq hlt

/-- In a table that is in order, the first and the last entry of a range decide. -/
theorem Sorted.mixed_iff (h : t.Sorted) {a b : Slot} (hab : a.position ≤ b.position) :
    t.Mixed a b ↔ a.position < t.size ∧ ∃ e e', t.get? a.position = some e ∧
      t.get? (min b.position (t.size - 1)) = some e' ∧ e.origin.sameGroup e'.origin = false := by
  constructor
  · rintro ⟨x, y, ⟨p, hap, hpb, hx⟩, ⟨q, haq, hqb, hy⟩, hne⟩
    have hp : p < t.size := (Array.getElem?_eq_some_iff.mp hx).1
    have hq : q < t.size := (Array.getElem?_eq_some_iff.mp hy).1
    have hfirst : a.position < t.size := hap.trans_lt hp
    have hlast : min b.position (t.size - 1) < t.size := by omega
    obtain ⟨e, he⟩ : ∃ e, t.get? a.position = some e := ⟨_, Array.getElem?_eq_getElem hfirst⟩
    obtain ⟨e', he'⟩ : ∃ e, t.get? (min b.position (t.size - 1)) = some e :=
      ⟨_, Array.getElem?_eq_getElem hlast⟩
    refine ⟨hfirst, e, e', he, he', ?_⟩
    have hx₁ := h.rank_le hap he hx
    have hx₂ := h.rank_le (show p ≤ min b.position (t.size - 1) by omega) hx he'
    have hy₁ := h.rank_le haq he hy
    have hy₂ := h.rank_le (show q ≤ min b.position (t.size - 1) by omega) hy he'
    simp only [Kind.sameGroup, beq_eq_false_iff_ne] at hne ⊢
    omega
  · rintro ⟨hfirst, e, e', he, he', hne⟩
    exact ⟨e, e', ⟨_, le_rfl, hab, he⟩, ⟨_, by omega, by omega, he'⟩, hne⟩

end NodeTable

namespace Resolver
variable {r : Resolver}

/-- Both ends of a range, looked up one after the other. -/
def ends (r : Resolver) (x : NodeRange) : Resolver × NodeRange :=
  (((r.resolve x.start).1.resolve x.stop).1,
    ⟨(r.resolve x.start).2, ((r.resolve x.start).1.resolve x.stop).2⟩)

/-- The answer to a range: its ends are those of two lookups, which have said and counted what there
was to say and count about them, and at most one notice about the range follows. -/
structure AnswersRange (r : Resolver) (x : NodeRange) : Prop where
  answer : ∃ ns, (∀ ns', r.table.Remark x (r.ends x).2 ns' ↔ ns' = ns) ∧ ns.length ≤ 1 ∧
    (ns.map Notice.severity =
      if (r.ends x).2.isCanonical then List.replicate ns.length .warning else [.error]) ∧
    r.resolveRange x = ((r.ends x).1.emit (ns.map fun n => ⟨none, n⟩), (r.ends x).2)
  table : (r.ends x).1.table = r.table ∧ (r.resolveRange x).1.table = r.table
  inspected (a b : Slot) : (∀ p ∈ r.table.between a b, p < r.table.size) ∧
    ∃ es : List TableEntry, (r.table.between a b).map r.table.get? = es.map some ∧
      (r.scope.spansGroups a.position b.position = true ↔
        ∃ e ∈ es, ∃ e' ∈ es, e.origin.sameGroup e'.origin = false)
  sorted (h : r.table.Sorted) (hx : x.isCanonical = false) {a b : Slot}
    (hy : (r.ends x).2 = ⟨.slot a, .slot b⟩) (hab : a.position ≤ b.position) :
    r.table.Remark x (r.ends x).2 [.rangeSpansGroups x a b] ↔
      a.position < r.table.size ∧ ∃ e e', r.table.get? a.position = some e ∧
        r.table.get? (min b.position (r.table.size - 1)) = some e' ∧
        e.origin.sameGroup e'.origin = false

theorem ends_eq (h : r.options.enabled = true) (x : NodeRange) :
    r.ends x = ((r.absorb (r.scope.resolve x.start)).absorb (r.scope.resolve x.stop),
      x.map r.scope.value) := by
  have hsame : (r.absorb (r.scope.resolve x.start)).scope = r.scope := rfl
  have henabled : (r.absorb (r.scope.resolve x.start)).options.enabled = true := h
  rw [ends, resolve_absorb h, resolve_absorb henabled, hsame]
  rfl

theorem emit_append (r : Resolver) (fs gs : List Finding) :
    r.emit (fs ++ gs) = (r.emit fs).emit gs := by
  rw [emit, List.map_append, Diagnostics.emitAll_append]
  rfl

/-- A range is answered as its ends are, one after the other, and then as a whole. -/
theorem resolveRange_eq (h : r.options.enabled = true) (x : NodeRange) :
    r.resolveRange x =
      ((r.ends x).1.emit ((r.scope.verdict x (r.ends x).2).notices.map fun n => ⟨none, n⟩),
        (r.ends x).2) := by
  rw [resolveRange, if_pos h, ends_eq h]
  have hnotices : (r.scope.resolveRange x).notices =
      (r.scope.resolve x.start).notices ++ (r.scope.resolve x.stop).notices ++
        (r.scope.verdict x (x.map r.scope.value)).notices := rfl
  have hstats : (r.scope.resolveRange x).stats =
      (r.scope.resolve x.start).stats + (r.scope.resolve x.stop).stats := rfl
  have hstate : r.absorb (r.scope.resolveRange x) =
      ((r.absorb (r.scope.resolve x.start)).absorb (r.scope.resolve x.stop)).emit
        ((r.scope.verdict x (x.map r.scope.value)).notices.map fun n => ⟨none, n⟩) := by
    rw [absorb, hnotices, hstats, List.map_append, List.map_append, emit_append, emit_append,
      ← add_assoc]
    rfl
  exact Prod.ext hstate rfl

/-- A range is answered exactly. -/
theorem range_answered (h : r.options.enabled = true) (x : NodeRange) : r.AnswersRange x := by
  have hrules := r.scope.remark_iff x (r.ends x).2
  refine ⟨?answer, ?table, ?inspected, ?sorted⟩
  case answer =>
    have hremark := (hrules _).mpr rfl
    exact ⟨_, hrules, hremark.length_le, hremark.severity, resolveRange_eq h x⟩
  case table =>
    rw [resolveRange_eq h, ends_eq h]
    exact ⟨rfl, rfl⟩
  case inspected =>
    intro a b
    obtain ⟨es, hread, hes⟩ := r.table.get?_between a b
    refine ⟨fun p hp => (NodeTable.mem_between.mp hp).2.2, es, hread, ?_⟩
    rw [Scope.spansGroups_iff]
    simp only [hes]
    constructor
    · rintro ⟨e, e', he, he', hne⟩
      exact ⟨e, he, e', he', hne⟩
    · rintro ⟨e, he, e', he', hne⟩
      exact ⟨e, e', he, he', hne⟩
  case sorted =>
    intro hsorted hx a b hy hab
    rw [← hsorted.mixed_iff hab, hy]
    constructor
    · intro hremark
      cases hremark with
      | spanning _ _ hmixed => exact hmixed
    · exact .spanning hx hab

/-- After a document has been processed, a range from one of its numbers to the last slot there can
be. Of the five nodes in between, the first is a node and the last one is that of a wheel. -/
theorem range_answered_doubled :
    let r := (new ⟨true, false⟩).replay [.process ⟨"", [.doubled]⟩]
    let x : NodeRange := ⟨.number 7, .slot ⟨4294967295⟩⟩
    r.AnswersRange x ∧ r.options.enabled = true ∧ r.table.Sorted ∧
      (r.ends x).2 = ⟨.slot ⟨0⟩, .slot ⟨4294967295⟩⟩ ∧
      r.table.Remark x (r.ends x).2 [.rangeSpansGroups x ⟨0⟩ ⟨4294967295⟩] ∧
      (r.resolveRange x).1.diagnostics.messages.size = r.diagnostics.messages.size + 2 := by
  intro r x
  have henabled : r.options.enabled = true := by decide +kernel
  have hsorted : r.table.Sorted := by decide +kernel
  have h : r.AnswersRange x := range_answered henabled x
  have hends : (r.ends x).2 = ⟨.slot ⟨0⟩, .slot ⟨4294967295⟩⟩ := by decide +kernel
  have hgroups : r.table.get? 0 = some ⟨.numbered, none, some (.number 7), 0⟩ ∧
      r.table.get? 4 = some ⟨.wheels, some .tyreB, none, 0⟩ := by
    decide +kernel
  refine ⟨h, henabled, hsorted, hends, ?_, by decide +kernel⟩
  apply (h.sorted hsorted rfl hends (by decide)).mpr
  exact ⟨by decide +kernel, _, _, hgroups.1, hgroups.2, rfl⟩

end Resolver

end RigNodes
