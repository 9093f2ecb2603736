import RigNodes.Proofs.Json.Numeral
import RigNodes.Yaml.Printer

/-! How YAML text ends. Its last line ends with a character that can be seen, and with one line end,
unless data ends with a text whose scalar does not. -/
namespace RigNodes

open Text (isBlank)

/-- Text that ends with a character that can be seen. -/
def EndsVisible (cs : List Char) : Prop := ∃ r c, cs = r ++ [c] ∧ isBlank c = false

namespace EndsVisible

theorem append {cs : List Char} (h : EndsVisible cs) (before : List Char) :
    EndsVisible (before ++ cs) := by
  obtain ⟨r, c, rfl, hc⟩ := h
  exact ⟨before ++ r, c, (List.append_assoc ..).symm, hc⟩

theorem cons {cs : List Char} (h : EndsVisible cs) (c : Char) : EndsVisible (c :: cs) := h.append [c]

theorem of_all {cs : List Char} (hne : cs ≠ []) (h : ∀ c ∈ cs, isBlank c = false) :
    EndsVisible cs := by
  obtain ⟨r, c, rfl⟩ := (List.eq_nil_or_concat' cs).resolve_left hne
  exact ⟨r, c, rfl, h c (by simp)⟩

theorem getLast? {cs : List Char} (h : ∀ c ∈ cs.getLast?, isBlank c = false) (hne : cs ≠ []) :
    EndsVisible cs := by
  obtain ⟨r, c, rfl⟩ := (List.eq_nil_or_concat' cs).resolve_left hne
  exact ⟨r, c, rfl, h c (by simp)⟩

theorem iff_getLast? {cs : List Char} :
    EndsVisible cs ↔ ∃ c, cs.getLast? = some c ∧ isBlank c = false := by
  constructor
  · rintro ⟨r, c, rfl, hc⟩
    exact ⟨c, List.getLast?_concat, hc⟩
  · rintro ⟨c, hlast, hc⟩
    obtain ⟨r, rfl⟩ := List.getLast?_eq_some_iff.mp hlast
    exact ⟨r, c, rfl, hc⟩

theorem concat_iff {r : List Char} {c : Char} : EndsVisible (r ++ [c]) ↔ isBlank c = false := by
  simp [iff_getLast?]

theorem not_nil : ¬ EndsVisible [] := by simp [iff_getLast?]

theorem append_iff {cs : List Char} (hne : cs ≠ []) (before : List Char) :
    EndsVisible (before ++ cs) ↔ EndsVisible cs := by
  obtain ⟨r, c, rfl⟩ := (List.eq_nil_or_concat' cs).resolve_left hne
  rw [← List.append_assoc, concat_iff, concat_iff]

theorem cons_iff {c : Char} (hc : isBlank c = true) (cs : List Char) :
    EndsVisible (c :: cs) ↔ EndsVisible cs := by
  cases cs with
  | nil => simp [iff_getLast?, hc]
  | cons d cs => exact append_iff (List.cons_ne_nil d cs) [c]

end EndsVisible

/-- Text of whole lines, of which the last one ends with a character that can be seen. -/
def EndsClean (cs : List Char) : Prop := ∃ r, cs = r ++ ['\n'] ∧ EndsVisible r

theorem EndsVisible.line {cs : List Char} (h : EndsVisible cs) : EndsClean (cs ++ ['\n']) :=
  ⟨cs, rfl, h⟩

namespace EndsClean

theorem concat_iff {r : List Char} {c : Char} :
    EndsClean (r ++ [c]) ↔ c = '\n' ∧ EndsVisible r := by
  constructor
  · rintro ⟨r', h, hr'⟩
    obtain ⟨rfl, hc⟩ := List.append_inj' h rfl
    exact ⟨(List.cons.inj hc).1, hr'⟩
  · rintro ⟨rfl, hr⟩
    exact hr.line

theorem not_nil : ¬ EndsClean [] := by
  rintro ⟨r, h, -⟩
  simp at h

/-- The last two characters decide, whatever stands before them. -/
theorem append_iff {cs : List Char} (h : 2 ≤ cs.length) (before : List Char) :
    EndsClean (before ++ cs) ↔ EndsClean cs := by
  obtain rfl | ⟨r, c, rfl⟩ := List.eq_nil_or_concat' cs
  · cases h
  · have hne : r ≠ [] := by
      rintro rfl
      simp at h
    rw [← List.append_assoc, concat_iff, concat_iff, EndsVisible.append_iff hne]

theorem cons_iff {c : Char} (hc : isBlank c = true) (cs : List Char) :
    EndsClean (c :: cs) ↔ EndsClean cs := by
  obtain rfl | ⟨r, d, rfl⟩ := List.eq_nil_or_concat' cs
  · refine iff_of_false (fun h => EndsVisible.not_nil ?_) not_nil
    exact (concat_iff (r := []).mp h).2
  · rw [← List.cons_append, concat_iff, concat_iff, EndsVisible.cons_iff hc]

end EndsClean

/-! Numbers. -/

theorem isBlank_digit {c : Char} (h : c.isDigit = true) : isBlank c = false := by
  simp only [Char.isDigit, Bool.and_eq_true, decide_eq_true_eq] at h
  have hlow : 48 ≤ c.toNat := h.1
  have hhigh : c.toNat ≤ 57 := h.2
  simp only [isBlank, Bool.or_eq_false_iff, Bool.and_eq_false_iff, decide_eq_false_iff_not, beq_eq_false_iff_ne]
  omega

theorem decimalDigits_visible (n : Nat) : ∀ c ∈ decimalDigits n, isBlank c = false := fun _ hc =>
  isBlank_digit (Nat.isDigit_of_mem_toDigits (by decide) (Nat.le_refl 10) hc)

theorem decimalDigits_endsVisible (n : Nat) : EndsVisible (decimalDigits n) :=
  .of_all Nat.toDigits_ne_nil (decimalDigits_visible n)

theorem toString_endsVisible (i : Int) : EndsVisible (toString i).toList := by
  cases i with
  | ofNat n =>
      have htext : (toString (Int.ofNat n)).toList = Nat.toDigits 10 n :=
        Json.Numeral.toList_toString_nat n
      rw [htext]
      exact decimalDigits_endsVisible n
  | negSucc n =>
      rw [Json.Numeral.toList_toString_negSucc]
      exact (decimalDigits_endsVisible (n + 1)).cons '-'

namespace Decimal

theorem positional_endsVisible {ds : List Char} (hne : ds ≠ [])
    (h : ∀ c ∈ ds, isBlank c = false) (point : Int) : EndsVisible (positional ds point) := by
  unfold positional
  split
  · exact ((EndsVisible.of_all hne h).append _).cons '.' |>.cons '0'
  · refine EndsVisible.append (EndsVisible.cons ?_ '.') _
    split
    · exact ⟨[], '0', rfl, rfl⟩
    · rename_i hpart
      exact .of_all (by simpa using hpart) fun c hc => h c (List.mem_of_mem_drop hc)

theorem text_endsVisible (l : DecimalLayout) (x : Decimal) : EndsVisible (x.text l) := by
  unfold text
  split
  · exact ⟨['0', '.'], '0', rfl, rfl⟩
  · dsimp only
    split
    · exact positional_endsVisible Nat.toDigits_ne_nil (decimalDigits_visible _) _
    · exact (((decimalDigits_endsVisible _).append _).cons 'e').append _

end Decimal

theorem Double.signed_endsVisible (negative : Bool) {cs : List Char} (h : EndsVisible cs) :
    EndsVisible (signed negative cs).toList := by
  rw [signed, String.toList_ofList]
  split
  · exact h.cons '-'
  · exact h

theorem Single.text?_endsVisible {x : Single} {plus : Bool} {s : String}
    (h : x.text? plus = some s) : EndsVisible s.toList := by
  unfold text? at h
  split at h
  · cases h
    exact Double.signed_endsVisible _ (Decimal.text_endsVisible _ _)
  · cases h

/-! Texts. -/

namespace Yaml

theorem singleText_endsVisible (x : Single) : EndsVisible (singleText x) := by
  unfold singleText
  split
  · rename_i s hs
    exact Single.text?_endsVisible hs
  · split
    · exact ⟨['.', 'n', 'a'], 'n', rfl, rfl⟩
    · split
      · exact ⟨['-', '.', 'i', 'n'], 'f', rfl, rfl⟩
      · exact ⟨['.', 'i', 'n'], 'f', rfl, rfl⟩

theorem isBlank_of_isBreak {c : Char} (h : isBreak c = true) : isBlank c = true := by
  simp only [isBreak, Bool.or_eq_true, beq_iff_eq] at h
  rcases h with (((rfl | rfl) | rfl) | rfl) | rfl <;> decide

theorem getLast?_indented (indent : Nat) (afterBreak : Bool) (cs : List Char) :
    (indented indent afterBreak cs).getLast? = cs.getLast? := by
  induction cs generalizing afterBreak with
  | nil => rfl
  | cons c cs ih =>
      rw [indented]
      split
      · rw [List.getLast?_cons, List.getLast?_cons, ih]
      · rw [List.getLast?_append, List.getLast?_cons, List.getLast?_cons, ih, Option.some_or]

/-- A block ends as its text does. -/
theorem indented_endsVisible_iff (indent : Nat) (afterBreak : Bool) (cs : List Char) :
    EndsVisible (indented indent afterBreak cs) ↔ EndsVisible cs := by
  rw [EndsVisible.iff_getLast?, EndsVisible.iff_getLast?, getLast?_indented]

theorem indented_break (indent : Nat) (afterBreak : Bool) (cs : List Char) :
    indented indent afterBreak (cs ++ ['\n']) = indented indent afterBreak cs ++ ['\n'] := by
  induction cs generalizing afterBreak with
  | nil => rfl
  | cons c cs ih =>
      rw [List.cons_append, indented, indented]
      split
      · rw [ih, List.cons_append]
      · rw [ih, List.append_assoc, List.cons_append]

theorem indented_endsClean_iff (indent : Nat) (afterBreak : Bool) (cs : List Char) :
    EndsClean (indented indent afterBreak cs) ↔ EndsClean cs := by
  have hlast : ∀ {cs}, EndsClean cs → cs.getLast? = some '\n' := by
    rintro _ ⟨r, rfl, -⟩
    exact List.getLast?_concat
  by_cases hbreak : cs.getLast? = some '\n'
  · obtain ⟨r, rfl⟩ := List.getLast?_eq_some_iff.mp hbreak
    rw [indented_break, EndsClean.concat_iff, EndsClean.concat_iff, indented_endsVisible_iff]
  · refine iff_of_false (fun h => hbreak ?_) (fun h => hbreak (hlast h))
    rw [← getLast?_indented indent afterBreak]
    exact hlast h

theorem endLine_endsClean_iff (cs : List Char) :
    EndsClean (endLine cs) ↔ EndsVisible cs ∨ EndsClean cs := by
  obtain rfl | ⟨r, c, rfl⟩ := List.eq_nil_or_concat' cs
  · have hline : endLine [] = [] ++ ['\n'] := rfl
    rw [hline, EndsClean.concat_iff]
    simp [EndsVisible.not_nil, EndsClean.not_nil]
  · cases hbreak : isBreak c with
    | true =>
        have hline : endLine (r ++ [c]) = r ++ [c] := by simp [endLine, hbreak]
        rw [hline, EndsVisible.concat_iff, isBlank_of_isBreak hbreak]
        simp
    | false =>
        have hline : endLine (r ++ [c]) = r ++ [c] ++ ['\n'] := by simp [endLine, hbreak]
        have hother : ¬ EndsClean (r ++ [c]) := by
          rw [EndsClean.concat_iff]
          rintro ⟨rfl, -⟩
          cases hbreak
        rw [hline, EndsClean.concat_iff, or_iff_left hother]
        simp

theorem Style.ofText_empty : Style.ofText "" = .single := by decide

/-- How a scalar ends. One in quotes ends with these, and any other one as its text does. -/
theorem scalarText_ends_iff (indent : Nat) (s : String) :
    EndsVisible (scalarText indent s) ∨ EndsClean (scalarText indent s) ↔
      Style.ofText s = .single ∨ Style.ofText s = .double ∨
        EndsVisible s.toList ∨ EndsClean s.toList := by
  unfold scalarText
  cases hstyle : Style.ofText s with
  | plain => simp
  | single => simp [EndsVisible.iff_getLast?, List.getLast?_cons, show isBlank '\'' = false by decide]
  | double => simp [EndsVisible.iff_getLast?, List.getLast?_cons, show isBlank '"' = false by decide]
  | literal =>
      have hne : s.toList ≠ [] := by
        intro hnil
        obtain rfl := String.toList_eq_nil_iff.mp hnil
        rw [Style.ofText_empty] at hstyle
        cases hstyle
      have hblock : indented indent true s.toList ≠ [] := by
        rw [← List.getLast?_isSome, getLast?_indented, List.getLast?_isSome]
        exact hne
      have hlength : 2 ≤ ('\n' :: indented indent true s.toList).length := by
        have hpos := List.length_pos_iff.mpr hblock
        rw [List.length_cons]
        omega
      have hvisible := EndsVisible.append_iff
        (List.cons_ne_nil '\n' (indented indent true s.toList)) (blockHead s.toList)
      have hclean := EndsClean.append_iff hlength (blockHead s.toList)
      simp only [hvisible, hclean, EndsVisible.cons_iff (show isBlank '\n' = true by decide),
        EndsClean.cons_iff (show isBlank '\n' = true by decide), indented_endsVisible_iff,
        indented_endsClean_iff]
      simp

/-- A text whose scalar ends with a character that can be seen, or with one and the line end of a
block. -/
def Firm (s : String) : Prop := EndsVisible (scalarText 0 s) ∨ EndsClean (scalarText 0 s)

theorem firm_iff (s : String) : Firm s ↔ Style.ofText s = .single ∨ Style.ofText s = .double ∨
    EndsVisible s.toList ∨ EndsClean s.toList :=
  scalarText_ends_iff 0 s

/-- How far a scalar is indented makes no difference. -/
theorem textLine_endsClean_iff (indent : Nat) (s : String) :
    EndsClean (endLine (' ' :: scalarText indent s)) ↔ Firm s := by
  have hspace : isBlank ' ' = true := by decide
  rw [endLine_endsClean_iff, EndsVisible.cons_iff hspace, EndsClean.cons_iff hspace,
    scalarText_ends_iff, firm_iff]

theorem two_le_length_textLine (cs : List Char) : 2 ≤ (endLine (' ' :: cs)).length := by
  unfold endLine
  split
  · cases cs with
    | nil => contradiction
    | cons c cs => simp
  · simp

end Yaml

mutual

/-- The text that data ends with, if it ends with one. -/
def Datum.lastText? : Datum → Option String
  | .text s => some s
  | .list ds => Datum.lastItemText? ds
  | .record fields => Datum.lastFieldText? fields
  | .variant _ d => d.lastText?
  | .null | .flag _ | .integer _ | .single _ => none

def Datum.lastItemText? : List Datum → Option String
  | [] => none
  | d :: ds => if ds.isEmpty then d.lastText? else Datum.lastItemText? ds

def Datum.lastFieldText? : List (String × Datum) → Option String
  | [] => none
  | (_, d) :: fields => if fields.isEmpty then d.lastText? else Datum.lastFieldText? fields

end

namespace Yaml

theorem word_endsClean {w : String} (r : List Char) (c : Char) (hw : w.toList = r ++ [c, '\n'])
    (hc : isBlank c = false) : EndsClean w.toList := by
  rw [hw]
  exact ⟨r ++ [c], by rw [List.append_assoc]; rfl, r, c, rfl, hc⟩

theorem two_le_length_line (cs : List Char) : 2 ≤ (' ' :: (cs ++ ['\n'])).length := by simp

theorem length_printItems_pos (indent : Nat) (pad : List Char) (d : Datum) (ds : List Datum) :
    0 < (printItems indent pad (d :: ds)).length := by
  simp [printItems]

theorem length_printFields_pos (indent : Nat) (pad : List Char) (field : String × Datum)
    (fields : List (String × Datum)) :
    0 < (printFields indent pad (field :: fields)).length := by
  simp [printFields]

theorem two_le_length_print (indent lists : Nat) (inline : Bool) (d : Datum) :
    2 ≤ (print indent lists inline d).length := by
  have hwords : 2 ≤ " null\n".toList.length ∧ 2 ≤ " true\n".toList.length ∧
      2 ≤ " false\n".toList.length ∧ 2 ≤ " []\n".toList.length ∧
      2 ≤ " \x7b\x7d\n".toList.length := by decide
  obtain ⟨hnull, htrue, hfalse, hlist, hrecord⟩ := hwords
  cases d with
  | text s => exact two_le_length_textLine _
  | flag b =>
      cases b with
      | true => exact htrue
      | false => exact hfalse
  | list ds =>
      cases ds with
      | nil => exact hlist
      | cons d ds =>
          have hitems := fun pad => length_printItems_pos lists pad d ds
          cases inline with
          | true => exact Nat.succ_le_succ (hitems [])
          | false => exact Nat.succ_le_succ (hitems (spaces lists))
  | record fields =>
      cases fields with
      | nil => exact hrecord
      | cons field fields =>
          have hfields := fun pad => length_printFields_pos (indent + 2) pad field fields
          cases inline with
          | true => exact Nat.succ_le_succ (hfields [])
          | false => exact Nat.succ_le_succ (hfields (spaces (indent + 2)))
  | null => exact hnull
  | integer i => exact two_le_length_line (toString i).toList
  | single x => exact two_le_length_line (singleText x)
  | variant name d => exact Nat.succ_le_succ (Nat.succ_le_succ (Nat.zero_le _))

theorem two_le_length_printItems (indent : Nat) (pad : List Char) {ds : List Datum} (hne : ds ≠ []) :
    2 ≤ (printItems indent pad ds).length := by
  obtain ⟨d, ds, rfl⟩ := List.exists_cons_of_ne_nil hne
  have hprint := two_le_length_print indent (indent + 2) true d
  simp only [printItems, List.length_append, List.length_cons]
  omega

theorem two_le_length_printFields (indent : Nat) (pad : List Char)
    {fields : List (String × Datum)} (hne : fields ≠ []) :
    2 ≤ (printFields indent pad fields).length := by
  obtain ⟨⟨key, d⟩, fields, rfl⟩ := List.exists_cons_of_ne_nil hne
  have hprint := two_le_length_print indent indent false d
  simp only [printFields, List.length_append, List.length_cons]
  omega

mutual

/-- Data ends its last line cleanly exactly if the text that it ends with does. -/
theorem print_endsClean_iff (indent lists : Nat) (inline : Bool) (d : Datum) :
    EndsClean (print indent lists inline d) ↔ ∀ s ∈ d.lastText?, Firm s := by
  have hspace : isBlank ' ' = true := by decide
  have hbreak : isBlank '\n' = true := by decide
  match d with
  | .null => exact iff_of_true (word_endsClean [' ', 'n', 'u', 'l'] 'l' rfl rfl) nofun
  | .flag true => exact iff_of_true (word_endsClean [' ', 't', 'r', 'u'] 'e' rfl rfl) nofun
  | .flag false => exact iff_of_true (word_endsClean [' ', 'f', 'a', 'l', 's'] 'e' rfl rfl) nofun
  | .integer i =>
      exact iff_of_true ((EndsClean.cons_iff hspace _).mpr (toString_endsVisible i).line) nofun
  | .single x =>
      exact iff_of_true ((EndsClean.cons_iff hspace _).mpr (singleText_endsVisible x).line) nofun
  | .text s =>
      have htext : (∀ x ∈ (Datum.text s).lastText?, Firm x) ↔ Firm s := by simp [Datum.lastText?]
      rw [htext]
      exact textLine_endsClean_iff (indent + 2) s
  | .list [] => exact iff_of_true (word_endsClean [' ', '['] ']' rfl rfl) nofun
  | .list (d :: ds) =>
      have hitems := fun pad => printItems_endsClean_iff lists pad (d :: ds) (List.cons_ne_nil _ _)
      cases inline with
      | true => exact (EndsClean.cons_iff hspace _).trans (hitems [])
      | false => exact (EndsClean.cons_iff hbreak _).trans (hitems (spaces lists))
  | .record [] => exact iff_of_true (word_endsClean [' ', '\x7b'] '\x7d' rfl rfl) nofun
  | .record (field :: fields) =>
      have hfields := fun pad =>
        printFields_endsClean_iff (indent + 2) pad (field :: fields) (List.cons_ne_nil _ _)
      cases inline with
      | true => exact (EndsClean.cons_iff hspace _).trans (hfields [])
      | false => exact (EndsClean.cons_iff hbreak _).trans (hfields (spaces (indent + 2)))
  | .variant name d =>
      have hbefore := EndsClean.append_iff (two_le_length_print indent lists false d)
        (' ' :: '!' :: name.toList)
      exact hbefore.trans (print_endsClean_iff indent lists false d)

theorem printItems_endsClean_iff (indent : Nat) (pad : List Char) (ds : List Datum)
    (hne : ds ≠ []) :
    EndsClean (printItems indent pad ds) ↔ ∀ s ∈ Datum.lastItemText? ds, Firm s := by
  match ds with
  | [d] =>
      have hbefore := EndsClean.append_iff (two_le_length_print indent (indent + 2) true d)
        (pad ++ ['-'])
      rw [List.append_assoc, List.singleton_append] at hbefore
      rw [printItems, printItems, List.append_nil]
      exact hbefore.trans (print_endsClean_iff indent (indent + 2) true d)
  | d :: next :: ds =>
      have hrest := printItems_endsClean_iff indent (spaces indent) (next :: ds)
        (List.cons_ne_nil _ _)
      have hbefore := EndsClean.append_iff (two_le_length_printItems indent (spaces indent)
        (List.cons_ne_nil next ds)) (pad ++ '-' :: print indent (indent + 2) true d)
      rw [List.append_assoc, List.cons_append] at hbefore
      rw [printItems]
      exact hbefore.trans hrest

theorem printFields_endsClean_iff (indent : Nat) (pad : List Char) (fields : List (String × Datum))
    (hne : fields ≠ []) :
    EndsClean (printFields indent pad fields) ↔ ∀ s ∈ Datum.lastFieldText? fields, Firm s := by
  match fields with
  | [(key, d)] =>
      have hbefore := EndsClean.append_iff (two_le_length_print indent indent false d)
        (pad ++ key.toList ++ [':'])
      rw [List.append_assoc, List.singleton_append] at hbefore
      rw [printFields, printFields, List.append_nil]
      exact hbefore.trans (print_endsClean_iff indent indent false d)
  | (key, d) :: next :: fields =>
      have hrest := printFields_endsClean_iff indent (spaces indent) (next :: fields)
        (List.cons_ne_nil _ _)
      have hbefore := EndsClean.append_iff (two_le_length_printFields indent (spaces indent)
        (List.cons_ne_nil next fields)) (pad ++ key.toList ++ ':' :: print indent indent false d)
      rw [List.append_assoc, List.cons_append] at hbefore
      rw [printFields]
      exact hbefore.trans hrest

end

end Yaml

end RigNodes
