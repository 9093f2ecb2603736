import RigNodes.Proofs.Stops
import RigNodes.Proofs.Walk.Fields

/-! The ranges of a module, and what is said about one as a whole. One that lost an end is an error;
one that was written with names or numbers and came to be reversed, or to span nodes of several
groups, is odd. -/
namespace RigNodes

/-- The range of a stop, if it is one. -/
def Mention.ranges : Mention → List NodeRange
  | .ref _ => []
  | .range r => [r]

namespace Module
variable (m : Module)

/-- The ranges of a module, in walk order. -/
def ranges : List NodeRange := (mentions m).flatMap Mention.ranges

theorem ranges_resolve (legacy : Bool) :
    (m.resolve legacy).module.ranges = m.ranges.map (NodeRange.map (m.scope legacy).value) := by
  unfold ranges
  rw [mentions_resolve, List.flatMap_map, List.map_flatMap]
  apply List.flatMap_congr
  intro x hx
  cases x <;> rfl

end Module

/-- An entry of a table stands between two slots, both included. -/
def NodeTable.Within (t : NodeTable) (a b : Slot) (e : TableEntry) : Prop :=
  ∃ p, a.position ≤ p ∧ p ≤ b.position ∧ t.get? p = some e

/-- Nodes of several groups stand between two slots. -/
def NodeTable.Mixed (t : NodeTable) (a b : Slot) : Prop :=
  ∃ x y, t.Within a b x ∧ t.Within a b y ∧ x.origin.sameGroup y.origin = false

/-- A complete range that is reversed or spans several groups. -/
def NodeTable.Suspect (t : NodeTable) (r : NodeRange) : Prop :=
  ∃ a ∈ r.start.slot?, ∃ b ∈ r.stop.slot?, b.position < a.position ∨ t.Mixed a b

namespace Scope

theorem mem_extract {s : Scope} {a b : Slot} {e : TableEntry} :
    e ∈ (s.table.entries.extract a.position
      (min b.position (s.table.size - 1) + 1)).toList ↔ s.table.Within a b e := by
  rw [Array.mem_toList_iff, Array.mem_extract_iff_getElem]
  unfold NodeTable.Within NodeTable.get? NodeTable.size
  constructor
  · rintro ⟨k, hk, rfl⟩
    refine ⟨a.position + k, by omega, by omega, ?_⟩
    exact Array.getElem?_eq_getElem _
  · rintro ⟨p, ha, hb, he⟩
    obtain ⟨hp, rfl⟩ := Array.getElem?_eq_some_iff.mp he
    refine ⟨p - a.position, by omega, ?_⟩
    congr 1
    omega

theorem mixed_iff (l : List TableEntry) :
    (match l with
      | [] => false
      | e :: es => es.any fun x => !x.origin.sameGroup e.origin) = true ↔
      ∃ x y, x ∈ l ∧ y ∈ l ∧ x.origin.sameGroup y.origin = false := by
  cases l with
  | nil => simp
  | cons e es =>
      constructor
      · intro h
        obtain ⟨x, hx, hne⟩ := List.any_eq_true.mp h
        exact ⟨x, e, List.mem_cons_of_mem e hx, List.mem_cons_self, by simpa using hne⟩
      · rintro ⟨x, y, hx, hy, hne⟩
        -- If nothing differs from the first entry, nothing differs at all.
        by_contra hall
        have hsame : ∀ z ∈ e :: es, z.origin.rank = e.origin.rank := by
          intro z hz
          rcases List.mem_cons.mp hz with rfl | hz
          · rfl
          · by_contra hz'
            exact hall (List.any_eq_true.mpr ⟨z, hz, by simpa [Kind.sameGroup] using hz'⟩)
        simp [Kind.sameGroup, hsame x hx, hsame y hy] at hne

theorem spansGroups_iff (s : Scope) (a b : Slot) :
    s.spansGroups a.position b.position = true ↔ s.table.Mixed a b := by
  unfold NodeTable.Mixed
  simp only [← mem_extract]
  exact mixed_iff _

end Scope

instance (t : NodeTable) (a b : Slot) : Decidable (t.Mixed a b) :=
  decidable_of_iff _ ((Scope.mk t false none).spansGroups_iff a b)

instance (t : NodeTable) : DecidablePred t.Suspect := fun r =>
  inferInstanceAs (Decidable (∃ a ∈ r.start.slot?, ∃ b ∈ r.stop.slot?,
    b.position < a.position ∨ t.Mixed a b))

theorem NodeTable.Suspect.isCanonical {t : NodeTable} {r : NodeRange} (h : t.Suspect r) :
    r.isCanonical = true := by
  obtain ⟨a, ha, b, hb, -⟩ := h
  obtain ⟨x, y⟩ := r
  cases x <;> cases ha
  cases y <;> cases hb
  rfl

namespace Scope

/-- What is said about a range as a whole, given what it became. -/
def verdict (s : Scope) (written r : NodeRange) : Resolved NodeRange where
  value := r
  notices :=
    match r.start.slot?, r.stop.slot? with
    | some a, some b => if written.isCanonical then [] else s.rangeNotices written a b
    | _, _ => [.rangeUnresolved written]
  stats := .zero

theorem resolveRange_counts (s : Scope) (r : NodeRange) :
    (s.answer (.range r)).counts =
      (s.resolve r.start).counts + (s.resolve r.stop).counts +
        (s.verdict r (r.map s.value)).counts := by
  have hnotices : (s.answer (.range r)).notices = (s.resolve r.start).notices ++
      (s.resolve r.stop).notices ++ (s.verdict r (r.map s.value)).notices := rfl
  unfold Resolved.counts Resolved.countOf
  rw [hnotices]
  simp only [List.countP_append]
  rfl

theorem countOf_verdict_error (s : Scope) (written r : NodeRange) :
    (s.verdict written r).countOf (· == .error) =
      if r.isCanonical then 0 else 1 := by
  have hrange : ∀ a b, (s.rangeNotices written a b).countP (fun n => n.severity == .error) = 0 := by
    intro a b
    unfold rangeNotices
    split
    · rfl
    · split <;> rfl
  obtain ⟨x, y⟩ := r
  cases x <;> cases y <;> first | rfl | skip
  next a b =>
    change List.countP _ (if written.isCanonical then [] else s.rangeNotices written a b) = 0
    split
    · rfl
    · exact hrange a b

theorem countOf_verdict_warning (s : Scope) {written r : NodeRange}
    (h : written.isCanonical = false) :
    (s.verdict written r).countOf (· == .warning) =
      if s.table.Suspect r then 1 else 0 := by
  have hrange : ∀ a b, (s.rangeNotices written a b).countP (fun n => n.severity == .warning) =
      if s.table.Suspect ⟨.slot a, .slot b⟩ then 1 else 0 := by
    intro a b
    have hsuspect : s.table.Suspect ⟨.slot a, .slot b⟩ ↔
        b.position < a.position ∨ s.spansGroups a.position b.position = true := by
      simp [NodeTable.Suspect, NodeRef.slot?, spansGroups_iff]
    simp only [hsuspect]
    unfold rangeNotices
    split
    next h => simp [h, Notice.severity]
    next h => split <;> simp_all [Notice.severity]
  obtain ⟨x, y⟩ := r
  cases x <;> cases y <;> first | rfl | skip
  next a b =>
    change List.countP _ (if written.isCanonical then [] else s.rangeNotices written a b) = _
    rw [h]
    exact hrange a b

end Scope

end RigNodes
