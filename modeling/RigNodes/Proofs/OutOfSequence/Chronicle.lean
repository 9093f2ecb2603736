import RigNodes.Proofs.OutOfSequence.Registrations

/-! The warnings of a history. Those that were given since the table was last given up tell whether
a registration was tried out of sequence, and what such registrations have entered tells whether the
table is in order. -/
namespace RigNodes

namespace Resolver
variable {r : Resolver} {q : Request}

/-- The requests since the table was last given up, each with the resolver that it was made to. -/
def sinceCleared : Resolver → List (Resolver × Request) → List Request → List (Resolver × Request)
  | _, met, [] => met
  | r, met, q :: rest =>
    (r.answer q).1.sinceCleared (if r.givesUp q then [] else met ++ [(r, q)]) rest

/-- What the messages after the first `n` and the order of the table tell about the requests that
were met since the table was given up. -/
structure Chronicle (r : Resolver) (n : Nat) (met : List (Resolver × Request)) : Prop where
  orderly : r.Orderly n
  warned : (∃ x ∈ r.messagesFrom n, x.isOutOfSequence = true) ↔ ∃ x ∈ met, x.1.Late x.2
  disordered : ¬ r.table.Sorted ↔ ∃ x ∈ met, x.1.Late x.2 ∧ x.1.Appends x.2

variable {n : Nat} {met : List (Resolver × Request)}

theorem size_process (r : Resolver) (d : Document) :
    r.diagnostics.messages.size ≤ (r.process d).1.diagnostics.messages.size := by
  cases henabled : r.options.enabled with
  | false => simp [Resolver.process, henabled]
  | true =>
      rw [← Array.length_toList, ← Array.length_toList, process_messages henabled,
        List.length_append]
      exact Nat.le_add_right _ _

/-- Where the table is given up, no warning is left over. -/
theorem quiet_givesUp (n : Nat) (h : r.givesUp q = true) :
    ∀ x ∈ (r.answer q).1.messagesFrom (r.clearedBy n q), x.isOutOfSequence = false := by
  intro x hx
  cases q with
  | init enabled => cases hx
  | disable | beginModule name =>
      have hnone : x ∈ r.messagesFrom r.diagnostics.messages.size := hx
      rw [messagesFrom_size] at hnone
      cases hnone
  | process d =>
      have hcleared : r.clearedBy n (.process d) = _ := if_pos h
      rw [hcleared] at hx
      exact r.quiet_process d (r.size_process _) x hx
  | _ => cases h

theorem grows_kept (h : r.givesUp q = false) : r.Grows (r.answer q).1 := by
  cases hclears : q.clears with
  | false => exact r.answer_grows hclears
  | true =>
      have hkind : ¬ (r.options.enabled = true ∧ ∃ k, q.kind? = some k) := by
        rintro ⟨-, k, hk⟩
        cases q with
        | init _ | beginModule _ | process _ | disable => cases hk
        | _ => cases hclears
      obtain ⟨added, fs, hstate, -⟩ := answer_kept h hkind
      exact ⟨.numbered, r.table, added, fs, hstate, r.table.appends_refl _ _⟩

theorem clearedBy_kept (n : Nat) (h : r.givesUp q = false) : r.clearedBy n q = n := by
  cases q with
  | process d => exact if_neg (ne_true_of_eq_false h)
  | init _ | beginModule _ | disable => cases h
  | _ => rfl

theorem Chronicle.answer (h : r.Chronicle n met) (q : Request) :
    (r.answer q).1.Chronicle (r.clearedBy n q) (if r.givesUp q then [] else met ++ [(r, q)]) := by
  have horderly := h.orderly.answer q
  have hreports := reports h.orderly.filled q
  cases hkept : r.givesUp q with
  | true =>
      have hquiet := quiet_givesUp n hkept
      refine ⟨horderly, ?warned, ?disordered⟩
      case warned => simpa using hquiet
      case disordered => simpa using horderly.sorted hquiet
  | false =>
      refine ⟨horderly, ?warned, ?disordered⟩
      case warned =>
        rw [clearedBy_kept n hkept, (grows_kept hkept).messagesFrom h.orderly.cleared]
        simp [or_and_right, exists_or, h.warned, hreports.warned_iff]
      case disordered =>
        rw [hreports.sorted hkept, not_and_or, not_not, h.disordered]
        simp [or_and_right, exists_or]

theorem Chronicle.replay (h : r.Chronicle n met) (qs : List Request) :
    (r.replay qs).Chronicle (r.lastCleared n qs) (r.sinceCleared met qs) := by
  induction qs generalizing r n met with
  | nil => exact h
  | cons q qs ih => exact ih (h.answer q)

theorem chronicle_new (o : Options) : (new o).Chronicle 0 [] := by
  refine ⟨.of_empty rfl (Nat.zero_le _), ?warned, ?disordered⟩
  case warned => simp [messagesFrom, new, Diagnostics.empty]
  case disordered =>
    have hsorted : (new o).table.Sorted := NodeTable.sorted_empty
    simpa using hsorted

/-- Whatever is asked of a resolver, registrations out of sequence are warned about, each of them and
no other request. The table is out of order once one of them has entered nodes. -/
theorem out_of_sequence_reported (o : Options) (qs : List Request) :
    (∀ q, ((new o).replay qs).Reports q) ∧
      ((new o).replay qs).Chronicle ((new o).lastCleared 0 qs) ((new o).sinceCleared [] qs) := by
  have h := (chronicle_new o).replay qs
  exact ⟨reports h.orderly.filled, h⟩

/-- A number that is taken is tried again after a cinecam. The registration is refused, and warned
about all the same; the table is in order, but there has been a warning. -/
theorem out_of_sequence_without_entry :
    let qs : List Request := [.registerNumber 1, .registerGenerated .cinecam none]
    let q : Request := .registerNumber 1
    let r := (new ⟨true, false⟩).replay qs
    let r' := (new ⟨true, false⟩).replay (qs ++ [q])
    ¬ (r.warnings q ≠ [] ↔ r.Appends q ∧ r.Late q) ∧
      ¬ ((∃ x ∈ r'.messagesFrom ((new ⟨true, false⟩).lastCleared 0 (qs ++ [q])),
        x.isOutOfSequence = true) ↔ ¬ r'.table.Sorted) := by
  intro qs q r r'
  have hwarned : r.warnings q ≠ [] := by decide +kernel
  have hrefused : ¬ r.table.size < (r.answer q).1.table.size := by decide +kernel
  have hsorted : r'.table.Sorted := by decide +kernel
  exact ⟨fun h => hrefused (h.mp hwarned).1, fun h => h.mp (by decide +kernel) hsorted⟩

end Resolver

end RigNodes
