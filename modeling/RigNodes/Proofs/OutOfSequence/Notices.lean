import RigNodes.Proofs.Addressing
import RigNodes.Proofs.Reprocessing
import RigNodes.Proofs.Stops

/-! The warning of a registration out of sequence, told from its text. No other notice has such a
text, and neither references nor documents are answered with one. -/
namespace RigNodes

def Notice.isLate : Notice → Bool
  | outOfSequence _ => true
  | _ => false

namespace Notice
variable {n : Notice}

theorem outOfSequence_head? (k : Kind) :
    (outOfSequence k).text.toList.head? = some (Char.ofNat 39) := by
  have hword : "'".toList.head? = some (Char.ofNat 39) := by decide
  unfold text
  exact head?_append _ (head?_append _ hword)

/-- No other warning begins like that of a late registration. -/
theorem warning_head? (hn : n.severity = .warning) (hlate : n.isLate = false) :
    ∃ c, n.text.toList.head? = some c ∧ c ≠ Char.ofNat 39 := by
  have hnumber : "node number ".toList.head? = some 'n' := by decide
  have hrange : "node range ".toList.head? = some 'n' := by decide
  cases n with
  | outOfSequence k => cases hlate
  | definitionMoved s p => exact ⟨'c', definitionMoved_head? s p, by decide⟩
  | slotOutsideTable s size => exact ⟨'s', slotOutsideTable_head? s size, by decide⟩
  | invalidReference => exact ⟨'a', by decide, by decide⟩
  | byLegacyPosition x k p =>
      refine ⟨'n', ?_, by decide⟩
      unfold text
      repeat apply head?_append
      exact hnumber
  | rangeReversed r s e | rangeSpansGroups r s e =>
      refine ⟨'n', ?_, by decide⟩
      unfold text
      repeat apply head?_append
      exact hrange
  | _ => cases hn

end Notice

theorem Finding.message_isOutOfSequence (f : Finding) (name : String) :
    (f.message name).isOutOfSequence = f.notice.isLate := by
  obtain ⟨keyword, n⟩ := f
  cases hlate : n.isLate with
  | true =>
      cases n with
      | outOfSequence k => exact isOutOfSequence_message name keyword k
      | _ => cases hlate
  | false =>
      by_contra h
      rw [Bool.not_eq_false, Message.isOutOfSequence, Bool.and_eq_true, List.any_eq_true] at h
      obtain ⟨hn, k, -, htext⟩ := h
      obtain ⟨c, hc, hne⟩ := Notice.warning_head? (eq_of_beq hn) hlate
      have hsame : n.text = (Notice.outOfSequence k).text := eq_of_beq htext
      rw [hsame, Notice.outOfSequence_head?] at hc
      exact hne (Option.some.inj hc).symm

theorem NodeTable.defineNotices_isLate (t : NodeTable) (id : NodeRef) :
    ∀ n ∈ t.defineNotices id, n.isLate = false := by
  intro n hn
  cases id with
  | number x | name x =>
      obtain ⟨p, -, rfl⟩ := Option.map_eq_some_iff.mp (Option.mem_toList.mp hn)
      rfl
  | slot s =>
      simp only [defineNotices] at hn
      split at hn
      · cases hn
      · rw [List.mem_singleton.mp hn]
        rfl
  | unresolved =>
      rw [List.mem_singleton.mp hn]
      rfl

namespace Scope

theorem resolve_isLate (s : Scope) (x : NodeRef) :
    ∀ n ∈ (s.resolve x).notices, n.isLate = false := by
  have hfound : ∀ p early legacy, (∀ n ∈ early, n.isLate = false) →
      ∀ n ∈ (s.found x p early legacy).notices, n.isLate = false := by
    intro p early legacy hearly n hn
    rcases List.mem_append.mp hn with hn | hn
    · exact hearly n hn
    · split at hn
      · rw [List.mem_singleton.mp hn]
        rfl
      · cases hn
  intro n hn
  cases x with
  | slot x =>
      simp only [resolve] at hn
      split at hn
      · cases hn
      · rw [List.mem_singleton.mp hn]
        rfl
  | unresolved =>
      rw [List.mem_singleton.mp hn]
      rfl
  | name x =>
      simp only [resolve] at hn
      split at hn
      · exact hfound _ [] _ (by simp) n hn
      · rw [List.mem_singleton.mp hn]
        rfl
  | number x =>
      simp only [resolve] at hn
      split at hn
      · exact hfound _ [] _ (by simp) n hn
      · split at hn
        · exact hfound _ [_] _ (by simp [Notice.isLate]) n hn
        · rw [List.mem_singleton.mp hn]
          rfl

theorem resolveRange_isLate (s : Scope) (x : NodeRange) :
    ∀ n ∈ (s.resolveRange x).notices, n.isLate = false := by
  intro n hn
  unfold resolveRange at hn
  simp only [List.mem_append] at hn
  rcases hn with (hn | hn) | hn
  · exact s.resolve_isLate x.start n hn
  · exact s.resolve_isLate x.stop n hn
  · split at hn
    · split at hn
      · cases hn
      · unfold rangeNotices at hn
        split at hn
        · rw [List.mem_singleton.mp hn]
          rfl
        · split at hn
          · rw [List.mem_singleton.mp hn]
            rfl
          · cases hn
    · rw [List.mem_singleton.mp hn]
      rfl

end Scope

/-- A document is never told that it is out of sequence, as the build pass is not. -/
theorem Module.messages_isOutOfSequence (m : Module) (legacy : Bool) :
    ∀ x ∈ (m.resolve legacy).messages, x.isOutOfSequence = false := by
  intro x hx
  obtain ⟨f, hf, rfl⟩ := List.mem_map.mp hx
  rw [f.message_isOutOfSequence]
  have hbuilding : (m.resolve legacy).building = m.canonicalSites.flatMap m.findings := by
    rw [resolve_eq]
  rw [hbuilding, resolve_settling] at hf
  rcases List.mem_append.mp hf with hf | hf
  · obtain ⟨s, hs, hf⟩ := List.mem_flatMap.mp hf
    obtain ⟨n, hn, rfl⟩ := List.mem_map.mp hf
    obtain ⟨before, after, hsites⟩ := List.append_of_mem hs
    cases hid : s.id? with
    | none => simp [notices, hid] at hn
    | some id =>
        rw [← defineNotices_ofRows hsites hid] at hn
        exact NodeTable.defineNotices_isLate _ id n hn
  · rcases List.mem_append.mp hf with hf | hf
    · obtain ⟨stop, -, hf⟩ := List.mem_flatMap.mp hf
      obtain ⟨n, hn, rfl⟩ := List.mem_map.mp hf
      obtain ⟨keyword, y, span⟩ := stop
      cases y with
      | ref y => exact Scope.resolve_isLate _ y n hn
      | range y => exact Scope.resolveRange_isLate _ y n hn
    · unfold ModuleRun.closing at hf
      split at hf
      · rw [List.mem_singleton.mp hf]
        rfl
      · cases hf

end RigNodes
