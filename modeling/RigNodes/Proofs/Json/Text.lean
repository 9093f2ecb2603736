import Mathlib
import RigNodes.Json.Printer
import RigNodes.Json.Text

/-! Text in JSON. Escapes are undone as they were made, so that every text is read back from its
quotes. -/
namespace RigNodes.Json.Text

theorem unit?_hexDigit {n : Nat} (h : n < 32) :
    unit? '0' '0' (hexDigit (n / 16)) (hexDigit (n % 16)) = some n := by
  revert n
  decide

/-- A character that needs no escape. -/
theorem read_plain (s : Scan) {c : Char} (rest : List Char) (hquote : c ≠ '"')
    (hbackslash : c ≠ '\\') (hspace : ¬ c < ' ') : read s (c :: rest) = read (s.char c) rest := by
  rw [read]
  · rw [if_neg hspace]
  · exact hquote
  · intro _ _ _ _ _ hc
    exact absurd hc hbackslash
  · intro _ hc
    exact absurd hc hbackslash
  · intro _ _ hc
    exact absurd hc hbackslash
  · intro hc
    exact absurd hc hbackslash

/-- A control character that has no letter of its own is escaped by its number. -/
theorem read_unit (text : List Char) {c : Char} (rest : List Char) (h : c < ' ') :
    read ⟨.ok text, none⟩ ('\\' :: 'u' :: '0' :: '0' :: hexDigit (c.toNat / 16) ::
      hexDigit (c.toNat % 16) :: rest) = read ⟨.ok (c :: text), none⟩ rest := by
  have hlt : c.toNat < 32 := h
  have hunit : Scan.unit ⟨.ok text, none⟩ c.toNat = ⟨.ok (c :: text), none⟩ := by
    have hhigh : Scan.isHigh c.toNat = false := by
      simp only [Scan.isHigh, Bool.and_eq_false_iff, decide_eq_false_iff_not]
      omega
    have hlow : Scan.isLow c.toNat = false := by
      simp only [Scan.isLow, Bool.and_eq_false_iff, decide_eq_false_iff_not]
      omega
    simp only [Scan.unit, hhigh, hlow, Char.ofNat_toNat]
    rfl
  rw [read, unit?_hexDigit hlt]
  exact congrArg (read · rest) hunit

theorem read_escape (text : List Char) (c : Char) (rest : List Char) :
    read ⟨.ok text, none⟩ (escape c ++ rest) = read ⟨.ok (c :: text), none⟩ rest := by
  unfold escape
  split_ifs with hquote hbackslash hb hf hn hr ht hcontrol
  · subst hquote
    rfl
  · subst hbackslash
    rfl
  · subst hb
    rfl
  · subst hf
    rfl
  · subst hn
    rfl
  · subst hr
    rfl
  · subst ht
    rfl
  · exact read_unit text rest hcontrol
  · exact read_plain _ rest hquote hbackslash hcontrol

theorem read_escapes (text cs rest : List Char) :
    read ⟨.ok text, none⟩ (cs.flatMap escape ++ rest) =
      read ⟨.ok (cs.reverse ++ text), none⟩ rest := by
  induction cs generalizing text with
  | nil => rfl
  | cons c cs ih =>
      rw [List.flatMap_cons, List.append_assoc, read_escape, ih, List.reverse_cons,
        List.append_assoc]
      rfl

/-- Text is read back from its quotes, of which the first has been read. -/
theorem read_quoted (s : String) (rest : List Char) :
    read .start (s.toList.flatMap escape ++ '"' :: rest) = (.text (.ok s) (.ok ()), rest) := by
  have hclose : Scan.close ⟨.ok (s.toList.reverse ++ []), none⟩ = .ok s := by
    simp [Scan.close, Except.map]
  have hread := read_escapes [] s.toList ('"' :: rest)
  rw [Scan.start, hread, read, hclose]

end RigNodes.Json.Text
