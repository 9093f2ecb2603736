import Mathlib
import RigNodes.Json.Numeral

/-! Numbers in JSON text. What is read of a number does not depend on what follows it, as long as
that cannot be part of a number, and a whole number of 64 bits is read back from its digits. -/
namespace RigNodes.Json

/-- Text that a number before it cannot go on with. -/
def Delimits (rest : List Char) : Prop :=
  ∀ c ∈ rest.head?, c.isDigit = false ∧ c ≠ '.' ∧ c ≠ 'e' ∧ c ≠ 'E'

theorem delimits_nil : Delimits [] := by
  intro c hc
  cases hc

theorem delimits_cons {c : Char} (rest : List Char)
    (h : c.isDigit = false ∧ c ≠ '.' ∧ c ≠ 'e' ∧ c ≠ 'E') : Delimits (c :: rest) := by
  intro d hd
  cases hd
  exact h

namespace Numeral
variable {rest : List Char}

theorem takeWhile_append (h : Delimits rest) (cs : List Char) :
    (cs ++ rest).takeWhile Char.isDigit = cs.takeWhile Char.isDigit := by
  induction cs with
  | nil =>
      cases rest with
      | nil => rfl
      | cons c rest =>
          have hc := (h c rfl).1
          simp [hc]
  | cons c cs ih =>
      rw [List.cons_append, List.takeWhile_cons, List.takeWhile_cons, ih]

theorem dropWhile_append (h : Delimits rest) (cs : List Char) :
    (cs ++ rest).dropWhile Char.isDigit = cs.dropWhile Char.isDigit ++ rest := by
  induction cs with
  | nil =>
      cases rest with
      | nil => rfl
      | cons c rest =>
          have hc := (h c rfl).1
          simp [hc]
  | cons c cs ih =>
      rw [List.cons_append, List.dropWhile_cons, List.dropWhile_cons, ih]
      split <;> rfl

variable {negative : Bool} {digits fraction left : List Char} {a : Except Fault Atom}

theorem broken_ne {cs : List Char} : broken cs ≠ (.atom a (.ok ()), left) := by
  intro h
  cases h

/-- The sign of an exponent, and what follows it. -/
def sign (cs : List Char) : Bool × List Char :=
  match cs with
  | '-' :: r => (true, r)
  | '+' :: r => (false, r)
  | r => (false, r)

/-- The exponent, once its sign is read. -/
def power (negative : Bool) (digits fraction : List Char) (minus : Bool) (cs : List Char) :
    Tree × List Char :=
  if (cs.takeWhile Char.isDigit).isEmpty then broken (cs.dropWhile Char.isDigit)
  else
    let p : Int := ofDigits (cs.takeWhile Char.isDigit)
    (.atom (fractional negative digits fraction (if minus then -p else p)) (.ok ()),
      cs.dropWhile Char.isDigit)

theorem exponent_eq (negative : Bool) (digits fraction cs : List Char) :
    exponent negative digits fraction cs =
      power negative digits fraction (sign cs).1 (sign cs).2 := rfl

theorem sign_append {cs : List Char} (hcs : cs ≠ []) :
    sign (cs ++ rest) = ((sign cs).1, (sign cs).2 ++ rest) := by
  cases cs with
  | nil => exact absurd rfl hcs
  | cons c cs =>
      rw [List.cons_append]
      unfold sign
      split
      · rename_i r heq
        cases heq
        rfl
      · rename_i r heq
        cases heq
        rfl
      · rename_i r hminus hplus
        split
        · rename_i r' heq
          cases heq
          exact absurd rfl (hminus _)
        · rename_i r' heq
          cases heq
          exact absurd rfl (hplus _)
        · rfl

theorem exponent_append (h : Delimits rest) {cs : List Char}
    (hread : exponent negative digits fraction cs = (.atom a (.ok ()), left)) :
    exponent negative digits fraction (cs ++ rest) = (.atom a (.ok ()), left ++ rest) := by
  have hcs : cs ≠ [] := by
    rintro rfl
    exact broken_ne hread
  rw [exponent_eq] at hread ⊢
  rw [sign_append hcs]
  unfold power at hread ⊢
  rw [takeWhile_append h, dropWhile_append h]
  split at hread
  · exact absurd hread broken_ne
  · rename_i hpower
    rw [if_neg hpower]
    cases hread
    rfl

/-- What may follow the last digit before an exponent. -/
def ending (negative : Bool) (digits fraction : List Char) (value : Except Fault Atom)
    (cs : List Char) : Tree × List Char :=
  match cs with
  | 'e' :: r | 'E' :: r => exponent negative digits fraction r
  | r => (.atom value (.ok ()), r)

theorem ending_of_ne {value : Except Fault Atom} {cs : List Char} (he : ∀ r, cs ≠ 'e' :: r)
    (hE : ∀ r, cs ≠ 'E' :: r) :
    ending negative digits fraction value cs = (.atom value (.ok ()), cs) := by
  unfold ending
  split
  · exact absurd rfl (he _)
  · exact absurd rfl (hE _)
  · rfl

/-- Text that begins otherwise than with a character still does once more text follows. -/
theorem append_ne {c : Char} {cs : List Char} (hcs : ∀ r, cs ≠ c :: r) (hc : c ∉ rest.head?) :
    ∀ r, cs ++ rest ≠ c :: r := by
  intro r heq
  cases cs with
  | nil =>
      rw [List.nil_append] at heq
      exact hc (by rw [heq]; rfl)
  | cons d cs =>
      cases heq
      exact hcs cs rfl

theorem ending_append (h : Delimits rest) {value : Except Fault Atom} {cs : List Char}
    (hread : ending negative digits fraction value cs = (.atom a (.ok ()), left)) :
    ending negative digits fraction value (cs ++ rest) = (.atom a (.ok ()), left ++ rest) := by
  unfold ending at hread
  split at hread
  · exact exponent_append h hread
  · exact exponent_append h hread
  · rename_i he hE
    cases hread
    apply ending_of_ne
    · exact append_ne he fun hmem => (h 'e' hmem).2.2.1 rfl
    · exact append_ne hE fun hmem => (h 'E' hmem).2.2.2 rfl

theorem tail_point (negative : Bool) (digits cs : List Char) :
    tail negative digits ('.' :: cs) =
      if (cs.takeWhile Char.isDigit).isEmpty then broken (cs.dropWhile Char.isDigit)
      else ending negative digits (cs.takeWhile Char.isDigit)
        (fractional negative digits (cs.takeWhile Char.isDigit) 0) (cs.dropWhile Char.isDigit) := by
  simp only [tail]
  split
  · rfl
  · generalize cs.dropWhile Char.isDigit = r
    split
    · rfl
    · rfl
    · rename_i he hE
      exact (ending_of_ne he hE).symm

theorem tail_of_ne {cs : List Char} (h : ∀ r, cs ≠ '.' :: r) :
    tail negative digits cs = ending negative digits [] (whole negative digits) cs := by
  unfold tail
  split
  · exact absurd rfl (h _)
  · rfl
  · rfl
  · rename_i he hE
    exact (ending_of_ne he hE).symm

theorem tail_append (h : Delimits rest) {cs : List Char}
    (hread : tail negative digits cs = (.atom a (.ok ()), left)) :
    tail negative digits (cs ++ rest) = (.atom a (.ok ()), left ++ rest) := by
  by_cases hpoint : ∃ r, cs = '.' :: r
  · obtain ⟨r, rfl⟩ := hpoint
    rw [tail_point] at hread
    rw [List.cons_append, tail_point, takeWhile_append h, dropWhile_append h]
    split at hread
    · exact absurd hread broken_ne
    · rename_i hfraction
      rw [if_neg hfraction]
      exact ending_append h hread
  · -- Without a point there is no fraction, and what follows cannot begin one.
    have hcs : ∀ r, cs ≠ '.' :: r := fun r hr => hpoint ⟨r, hr⟩
    rw [tail_of_ne hcs] at hread
    rw [tail_of_ne (append_ne hcs fun hmem => (h '.' hmem).2.1 rfl)]
    exact ending_append h hread

/-- A number without its sign. -/
def unsigned (negative : Bool) (cs : List Char) : Tree × List Char :=
  match cs with
  | '0' :: c :: r => if c.isDigit then broken (c :: r) else tail negative ['0'] (c :: r)
  | c :: r =>
    if c.isDigit then tail negative (c :: r.takeWhile Char.isDigit) (r.dropWhile Char.isDigit)
    else broken cs
  | [] => broken []

theorem read_minus (cs : List Char) : read ('-' :: cs) = unsigned true cs := rfl

theorem read_of_ne {cs : List Char} (h : ∀ r, cs ≠ '-' :: r) : read cs = unsigned false cs := by
  unfold read
  split
  next hminus =>
    split at hminus
    · exact absurd rfl (h _)
    · cases hminus
      rfl

/-- A zero before digits is no number; anything else goes on as its digits end. -/
theorem unsigned_cons (negative : Bool) (c : Char) (cs : List Char) :
    unsigned negative (c :: cs) =
      if c.isDigit then
        if c = '0' ∧ (cs.takeWhile Char.isDigit).isEmpty = false then broken cs
        else tail negative (c :: cs.takeWhile Char.isDigit) (cs.dropWhile Char.isDigit)
      else broken (c :: cs) := by
  by_cases hc : c = '0'
  · subst hc
    cases cs with
    | nil => rfl
    | cons d cs =>
        cases hd : d.isDigit <;> simp [unsigned, hd]
  · cases cs with
    | nil => simp [unsigned, hc]
    | cons d cs => simp [unsigned, hc]

theorem unsigned_append (h : Delimits rest) {cs : List Char}
    (hread : unsigned negative cs = (.atom a (.ok ()), left)) :
    unsigned negative (cs ++ rest) = (.atom a (.ok ()), left ++ rest) := by
  cases cs with
  | nil => exact absurd hread broken_ne
  | cons c cs =>
      rw [unsigned_cons] at hread
      rw [List.cons_append, unsigned_cons, takeWhile_append h, dropWhile_append h]
      split at hread
      · rename_i hc
        rw [if_pos hc]
        split at hread
        · exact absurd hread broken_ne
        · rename_i hzero
          rw [if_neg hzero]
          exact tail_append h hread
      · exact absurd hread broken_ne

/-- A number is read the same whatever follows it. -/
theorem read_append (h : Delimits rest) {cs : List Char}
    (hread : read cs = (.atom a (.ok ()), left)) :
    read (cs ++ rest) = (.atom a (.ok ()), left ++ rest) := by
  by_cases hminus : ∃ r, cs = '-' :: r
  · obtain ⟨r, rfl⟩ := hminus
    rw [read_minus] at hread
    rw [List.cons_append, read_minus]
    exact unsigned_append h hread
  · have hcs : ∀ r, cs ≠ '-' :: r := fun r hr => hminus ⟨r, hr⟩
    rw [read_of_ne hcs] at hread
    cases cs with
    | nil => exact absurd hread broken_ne
    | cons c cs =>
        rw [@read_of_ne (c :: cs ++ rest) fun r hr => by cases hr; exact hcs cs rfl]
        exact unsigned_append h hread

theorem read_head {cs : List Char} (hread : read cs = (.atom a (.ok ()), left)) :
    ∃ c r, cs = c :: r ∧ (c = '-' ∨ c.isDigit = true) := by
  cases cs with
  | nil => exact absurd hread broken_ne
  | cons c cs =>
      refine ⟨c, cs, rfl, ?_⟩
      by_cases hminus : c = '-'
      · exact .inl hminus
      · rw [read_of_ne (fun r hr => by cases hr; exact hminus rfl), unsigned_cons] at hread
        split at hread
        · rename_i hc
          exact .inr hc
        · exact absurd hread broken_ne

/-! Whole numbers. -/

theorem absorb_eq {cs : List Char} {n : Nat} (h : Nat.ofDigitChars 10 cs n ≤ greatestSignificand) :
    absorb n cs = (Nat.ofDigitChars 10 cs n, []) := by
  induction cs generalizing n with
  | nil => rfl
  | cons c cs ih =>
      have hvalue : n * 10 + digitValue c = 10 * n + (c.toNat - '0'.toNat) := by
        rw [digitValue, Nat.mul_comm]
      rw [Nat.ofDigitChars_cons] at h ⊢
      have hle : 10 * n + (c.toNat - '0'.toNat) ≤ greatestSignificand := by
        refine Nat.le_trans ?_ h
        rw [Nat.ofDigitChars_eq_ofDigitChars_zero]
        have hpos : 0 < 10 ^ cs.length := Nat.pow_pos (by decide)
        exact Nat.le_add_right_of_le (Nat.le_mul_of_pos_left _ hpos)
      simp only [absorb, hvalue, if_pos hle]
      exact ih h

theorem toDigits_head {n : Nat} (h : 0 < n) : (Nat.toDigits 10 n).head? ≠ some '0' := by
  induction n using Nat.strongRecOn with
  | ind n ih =>
      rw [Nat.toDigits_eq_if (by decide)]
      split
      · rename_i hlt
        interval_cases n <;> decide
      · have hdiv : 0 < n / 10 := by omega
        have hne : Nat.toDigits 10 (n / 10) ≠ [] := Nat.toDigits_ne_nil
        rw [List.head?_append_of_ne_nil _ hne]
        exact ih (n / 10) (by omega) hdiv

theorem unsigned_toDigits (negative : Bool) (n : Nat) :
    unsigned negative (Nat.toDigits 10 n) =
      (.atom (whole negative (Nat.toDigits 10 n)) (.ok ()), []) := by
  have hdigits : ∀ c ∈ Nat.toDigits 10 n, c.isDigit = true := fun c hc =>
    Nat.isDigit_of_mem_toDigits (by decide) (Nat.le_refl 10) hc
  have hfirst : 0 < n → (Nat.toDigits 10 n).head? ≠ some '0' := toDigits_head
  have hzero : n = 0 → Nat.toDigits 10 n = ['0'] := by
    rintro rfl
    exact Nat.toDigits_zero 10
  cases hcs : Nat.toDigits 10 n with
  | nil => exact absurd hcs Nat.toDigits_ne_nil
  | cons c cs =>
      rw [hcs] at hdigits hfirst hzero
      have htake : cs.takeWhile Char.isDigit = cs :=
        List.takeWhile_eq_self_iff.mpr fun d hd => hdigits d (List.mem_cons_of_mem c hd)
      have hdrop : cs.dropWhile Char.isDigit = [] :=
        List.dropWhile_eq_nil_iff.mpr fun d hd => hdigits d (List.mem_cons_of_mem c hd)
      have hplain : ¬ (c = '0' ∧ cs.isEmpty = false) := by
        rintro ⟨rfl, hlong⟩
        rcases Nat.eq_zero_or_pos n with hn | hn
        · cases hzero hn
          cases hlong
        · exact hfirst hn rfl
      rw [unsigned_cons, if_pos (hdigits c List.mem_cons_self), htake, hdrop, if_neg hplain]
      rfl

theorem absorb_toDigits {n : Nat} (hn : n < 2 ^ 64) : absorb 0 (Nat.toDigits 10 n) = (n, []) := by
  have hvalue : Nat.ofDigitChars 10 (Nat.toDigits 10 n) 0 = n := Nat.ofDigitChars_ten_toDigits
  have h := @absorb_eq (Nat.toDigits 10 n) 0 (by rw [hvalue]; exact Nat.le_pred_of_lt hn)
  rwa [hvalue] at h

theorem toList_toString_nat (n : Nat) : (toString (n : Int)).toList = Nat.toDigits 10 n := by
  have hrepr : toString (n : Int) = n.repr := rfl
  rw [hrepr, Nat.repr_eq_ofList_toDigits, String.toList_ofList]

theorem toList_toString_negSucc (n : Nat) :
    (toString (Int.negSucc n)).toList = '-' :: Nat.toDigits 10 (n + 1) := by
  have hrepr : toString (Int.negSucc n) = "-" ++ (n + 1).repr := rfl
  rw [hrepr, String.toList_append, Nat.repr_eq_ofList_toDigits, String.toList_ofList]
  simp

/-- The text of a whole number is read to its end. -/
theorem read_integer (i : Int) :
    ∃ a, read (toString i).toList = (.atom a (.ok ()), []) ∧
      (-2 ^ 63 ≤ i → i < 2 ^ 64 → a = .ok (.integer i)) := by
  cases i with
  | ofNat n =>
      have htext : (toString (Int.ofNat n)).toList = Nat.toDigits 10 n := toList_toString_nat n
      refine ⟨whole false (Nat.toDigits 10 n), ?_, ?_⟩
      · have hdigits : ∀ r, Nat.toDigits 10 n ≠ '-' :: r := by
          intro r hr
          have hminus := Nat.isDigit_of_mem_toDigits (b := 10) (n := n) (c := '-') (by decide)
            (Nat.le_refl 10) (by rw [hr]; exact List.mem_cons_self)
          cases hminus
        rw [htext, read_of_ne hdigits, unsigned_toDigits]
      · intro _ hlt
        have hn : (n : Int) < 2 ^ 64 := hlt
        rw [whole, absorb_toDigits (by omega)]
        rfl
  | negSucc n =>
      refine ⟨whole true (Nat.toDigits 10 (n + 1)), ?_, ?_⟩
      · rw [toList_toString_negSucc, read_minus, unsigned_toDigits]
      · intro hle _
        have hbound : n + 1 ≤ 2 ^ 63 := by omega
        have hboth : 0 < n + 1 ∧ n + 1 ≤ Nat.pow 2 63 := ⟨Nat.succ_pos n, hbound⟩
        rw [whole, absorb_toDigits (by omega)]
        exact if_pos hboth

end Numeral

end RigNodes.Json
