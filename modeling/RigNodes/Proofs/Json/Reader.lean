import RigNodes.Json.Decode
import RigNodes.Json.Printer
import RigNodes.Json.Reader
import RigNodes.Proofs.Json.Numeral
import RigNodes.Proofs.Json.Text

/-! Printed data as the reader sees it. The text of data has a tree that is known from the data
alone, whatever the level at which the data is printed. -/
namespace RigNodes

/-- A value whose text is read as a number, to its end, and as the value again. -/
def Single.Rereads (x : Single) : Prop :=
  ∃ s a, x.text? true = some s ∧ Json.Numeral.read s.toList = (.atom a (.ok ()), []) ∧
    Json.readSingle (.atom a (.ok ())) = .ok x

namespace Json

def Tree.null : Tree := .atom (.ok .null) (.ok ())

def Tree.ofString (s : String) : Tree := .text (.ok s) (.ok ())

end Json

mutual

/-- The tree of printed data. -/
def Datum.tree : Datum → Json.Tree
  | .null => .null
  | .flag b => .atom (.ok (.flag b)) (.ok ())
  | .integer i => (Json.Numeral.read (toString i).toList).1
  | .single x =>
    match x.text? true with
    | some s => (Json.Numeral.read s.toList).1
    | none => .null
  | .text s => .ofString s
  | .list ds => .list (Datum.treeItems ds)
  | .record fields => .map (Datum.treeMembers fields)
  | .variant name d => .map (.cons (.ofString name) d.tree .closed)

def Datum.treeItems : List Datum → Json.Items
  | [] => .closed
  | d :: ds => .cons d.tree (Datum.treeItems ds)

def Datum.treeMembers : List (String × Datum) → Json.Members
  | [] => .closed
  | (name, d) :: fields => .cons (.ofString name) d.tree (Datum.treeMembers fields)

end

mutual

/-- The floating values of data. -/
def Datum.singles : Datum → List Single
  | .single x => [x]
  | .list ds => Datum.itemSingles ds
  | .record fields => Datum.fieldSingles fields
  | .variant _ d => d.singles
  | .null | .flag _ | .integer _ | .text _ => []

def Datum.itemSingles : List Datum → List Single
  | [] => []
  | d :: ds => d.singles ++ Datum.itemSingles ds

def Datum.fieldSingles : List (String × Datum) → List Single
  | [] => []
  | (_, d) :: fields => d.singles ++ Datum.fieldSingles fields

end

namespace Json

theorem skipSpace_space {c : Char} (h : isSpace c = true) (cs : List Char) :
    skipSpace (c :: cs) = skipSpace cs := by
  rw [skipSpace, List.dropWhile_cons_of_pos h, skipSpace]

theorem skipSpace_of_not {c : Char} (h : isSpace c = false) (cs : List Char) :
    skipSpace (c :: cs) = c :: cs := by
  rw [skipSpace, List.dropWhile_cons_of_neg (by simp [h])]

theorem skipSpace_newline (level : Nat) (cs : List Char) :
    skipSpace (newline level ++ cs) = skipSpace cs := by
  rw [newline, List.cons_append, skipSpace_space rfl]
  induction 2 * level with
  | zero => rfl
  | succ n ih => rw [List.replicate_succ, List.cons_append, skipSpace_space rfl, ih]

/-- Text of a value: neither white space nor the end of a list. -/
def Begins (cs : List Char) : Prop := ∃ c r, cs = c :: r ∧ isSpace c = false ∧ c ≠ ']'

theorem Begins.append {cs : List Char} (h : Begins cs) (rest : List Char) : Begins (cs ++ rest) := by
  obtain ⟨c, r, rfl, hspace, hc⟩ := h
  exact ⟨c, r ++ rest, rfl, hspace, hc⟩

theorem Begins.skipSpace {cs : List Char} (h : Begins cs) : skipSpace cs = cs := by
  obtain ⟨c, r, rfl, hspace, -⟩ := h
  exact skipSpace_of_not hspace r

/-! What the reader does where the next character is known. -/

variable {fuel : Nat} {c : Char} {cs r r' left left' : List Char} {t : Tree}

theorem value_list (h : skipSpace cs = '[' :: r) :
    value (fuel + 1) cs = (.list (items fuel true r).1, (items fuel true r).2) := by
  simp only [value, h]

theorem value_map (h : skipSpace cs = '{' :: r) :
    value (fuel + 1) cs = (.map (members fuel true r).1, (members fuel true r).2) := by
  simp only [value, h]

theorem value_scalar (h : skipSpace cs = c :: r) (hlist : c ≠ '[') (hmap : c ≠ '{') :
    value (fuel + 1) cs = scalar c r := by
  simp only [value, h]

theorem scalar_number (hc : c = '-' ∨ c.isDigit = true) :
    scalar c cs = Numeral.read (c :: cs) := by
  unfold scalar
  split
  · simp at hc
  · simp at hc
  · simp at hc
  · simp at hc
  · exact if_pos hc

theorem items_closed {first : Bool} (h : skipSpace cs = ']' :: r) :
    items (fuel + 1) first cs = (.closed, r) := by
  simp only [items, h]

theorem items_first {ts : Items} (hbegins : Begins r) (h : skipSpace cs = r)
    (hvalue : value fuel r = (t, left)) (hitems : items fuel false left = (ts, left')) :
    items (fuel + 1) true cs = (.cons t ts, left') := by
  obtain ⟨c, r, rfl, -, hc⟩ := hbegins
  simp only [items, h, if_true, hvalue, hitems]

theorem items_next {ts : Items} (h : skipSpace cs = ',' :: r) (hbegins : Begins r')
    (hnext : skipSpace r = r') (hvalue : value fuel r' = (t, left))
    (hitems : items fuel false left = (ts, left')) :
    items (fuel + 1) false cs = (.cons t ts, left') := by
  obtain ⟨c, r', rfl, -, hc⟩ := hbegins
  simp [items, h, hnext, hc, hvalue, hitems]

theorem members_closed {first : Bool} (h : skipSpace cs = '}' :: r) :
    members (fuel + 1) first cs = (.closed, r) := by
  simp only [members, h]

theorem members_first (h : skipSpace cs = c :: r) (hc : c ≠ '}') :
    members (fuel + 1) true cs = member fuel c r := by
  simp only [members, h, if_true]

theorem members_next (h : skipSpace cs = ',' :: r) (hnext : skipSpace r = c :: r') (hc : c ≠ '}') :
    members (fuel + 1) false cs = member fuel c r' := by
  simp [members, h, hnext]

/-- A member with a quoted key, of which the first quote has been read. -/
theorem member_pair {ts : Members} (name : String) (hvalue : value fuel (' ' :: r) = (t, left))
    (hmembers : members fuel false left = (ts, left')) :
    member (fuel + 1) '"' (name.toList.flatMap escape ++ '"' :: ':' :: ' ' :: r) =
      (.cons (.ofString name) t ts, left') := by
  have hkey : key '"' (name.toList.flatMap escape ++ '"' :: ':' :: ' ' :: r) =
      (.text (.ok name) (.ok ()), ':' :: ' ' :: r) := Text.read_quoted name _
  have hcolon : skipSpace (':' :: ' ' :: r) = ':' :: ' ' :: r := skipSpace_of_not rfl _
  simp only [member, hkey, Tree.isText, if_true, hcolon, hvalue, hmembers, Tree.ofString]

theorem value_space (cs : List Char) : value (fuel + 1) (' ' :: cs) = value (fuel + 1) cs := by
  simp only [value, skipSpace_space (c := ' ') rfl]

/-! The text between brackets. -/

/-- What follows the first of several items up to the end of the list. -/
def tailOf (right : Char) (level : Nat) : List (List Char) → List Char
  | [] => newline level ++ [right]
  | item :: rest => ',' :: (newline (level + 1) ++ (item ++ tailOf right level rest))

theorem bracketed_cons (left right : Char) (level : Nat) (item : List Char)
    (rest : List (List Char)) :
    bracketed left right level (item :: rest) =
      left :: (newline (level + 1) ++ (item ++ tailOf right level rest)) := by
  have hlines : ∀ (item : List Char) (rest : List (List Char)),
      List.intercalate [','] ((item :: rest).map fun i => newline (level + 1) ++ i) ++
          newline level ++ [right] =
        newline (level + 1) ++ (item ++ tailOf right level rest) := by
    intro item rest
    induction rest generalizing item with
    | nil => simp [tailOf]
    | cons next rest ih =>
        rw [tailOf, ← ih next]
        simp [List.intercalate_cons_cons]
  rw [bracketed, hlines]
  intro h
  cases h

theorem bracketed_begins {left : Char} (right : Char) (level : Nat) (texts : List (List Char))
    (hspace : isSpace left = false) (hleft : left ≠ ']') :
    Begins (bracketed left right level texts) := by
  cases texts with
  | nil => exact ⟨left, [right], rfl, hspace, hleft⟩
  | cons item rest => exact ⟨left, _, bracketed_cons left right level item rest, hspace, hleft⟩

theorem tailOf_delimits (right : Char) (level : Nat) (texts : List (List Char))
    (rest : List Char) : Delimits (tailOf right level texts ++ rest) := by
  cases texts with
  | nil => exact delimits_cons (c := '\n') _ (by decide)
  | cons item texts => exact delimits_cons (c := ',') _ (by decide)

theorem tailOf_length (right : Char) (level : Nat) (texts : List (List Char)) :
    0 < (tailOf right level texts).length := by
  cases texts with
  | nil => exact Nat.succ_pos _
  | cons item texts => exact Nat.succ_pos _

theorem skipSpace_tail {right : Char} (hspace : isSpace right = false) (level : Nat)
    (rest : List Char) : skipSpace (tailOf right level [] ++ rest) = right :: rest := by
  rw [tailOf, List.append_assoc, skipSpace_newline]
  exact skipSpace_of_not hspace rest

theorem skipSpace_newline_begins {cs : List Char} (level : Nat) (h : Begins cs) :
    skipSpace (newline level ++ cs) = cs := by
  rw [skipSpace_newline, h.skipSpace]

/-! Numbers within other text. -/

theorem number_begins {a : Except Fault Atom} (hread : Numeral.read cs = (.atom a (.ok ()), [])) :
    Begins cs := by
  obtain ⟨c, r, rfl, hc⟩ := Numeral.read_head hread
  refine ⟨c, r, rfl, ?_, ?_⟩
  · by_contra hspace
    simp only [isSpace, Bool.not_eq_false, Bool.or_eq_true, beq_iff_eq] at hspace
    rcases hspace with ((rfl | rfl) | rfl) | rfl <;> simp at hc
  · rintro rfl
    simp at hc

theorem value_number {a : Except Fault Atom} {rest : List Char}
    (hread : Numeral.read cs = (.atom a (.ok ()), [])) (hrest : Delimits rest) :
    value (fuel + 1) (cs ++ rest) = (.atom a (.ok ()), rest) := by
  have hskip := ((number_begins hread).append rest).skipSpace
  obtain ⟨c, r, rfl, hc⟩ := Numeral.read_head hread
  have hlist : c ≠ '[' := by
    rintro rfl
    simp at hc
  have hmap : c ≠ '{' := by
    rintro rfl
    simp at hc
  rw [value_scalar hskip hlist hmap, scalar_number hc]
  exact Numeral.read_append hrest hread

end Json

theorem Single.text?_eq_none {x : Single} (plus : Bool) (h : x.isFinite = false) :
    x.text? plus = none := by
  unfold isFinite at h
  unfold text?
  split
  · rename_i hmagnitude
    rw [hmagnitude] at h
    cases h
  · rfl

namespace Json

/-- Floating values as the reader sees them: a number or null. -/
theorem print_single {x : Single} (hread : x.isFinite → x.Rereads) (level : Nat) :
    (print level (.single x) = ['n', 'u', 'l', 'l'] ∧ (Datum.single x).tree = .null) ∨
      ∃ a, Numeral.read (print level (.single x)) = (.atom a (.ok ()), []) ∧
        (Datum.single x).tree = .atom a (.ok ()) := by
  cases hfinite : x.isFinite with
  | false =>
      refine .inl ⟨?_, ?_⟩
      · simp [print, Single.text?_eq_none true hfinite]
      · simp [Datum.tree, Single.text?_eq_none true hfinite]
  | true =>
      obtain ⟨s, a, htext, hs, -⟩ := hread hfinite
      refine .inr ⟨a, ?_, ?_⟩
      · simp only [print, htext, Option.getD_some, hs]
      · simp only [Datum.tree, htext, hs]

theorem print_begins (level : Nat) {d : Datum}
    (hread : ∀ x ∈ d.singles, x.isFinite → x.Rereads) : Begins (print level d) := by
  cases d with
  | null => exact ⟨'n', _, rfl, rfl, by decide⟩
  | flag b =>
      cases b with
      | true => exact ⟨'t', _, rfl, rfl, by decide⟩
      | false => exact ⟨'f', _, rfl, rfl, by decide⟩
  | integer i =>
      obtain ⟨a, ha, -⟩ := Numeral.read_integer i
      exact number_begins ha
  | single x =>
      rcases print_single (hread x (by simp [Datum.singles])) level with h | ⟨a, ha, -⟩
      · rw [h.1]
        exact ⟨'n', _, rfl, rfl, by decide⟩
      · exact number_begins ha
  | text s => exact ⟨'"', _, rfl, rfl, by decide⟩
  | list ds => exact bracketed_begins _ _ _ rfl (by decide)
  | record fields => exact bracketed_begins _ _ _ rfl (by decide)
  | variant name d => exact bracketed_begins _ _ _ rfl (by decide)

/-! The first item of several, and a later one. -/

section

variable {text : List Char} (level : Nat)

theorem value_listed {ts : Items} (hbegins : Begins text)
    (hvalue : value fuel (text ++ r) = (t, left)) (hitems : items fuel false left = (ts, left')) :
    value (fuel + 2) ('[' :: (newline level ++ (text ++ r))) = (.list (.cons t ts), left') := by
  have hskip := skipSpace_newline_begins level (hbegins.append r)
  rw [value_list (skipSpace_of_not rfl _), items_first (hbegins.append r) hskip hvalue hitems]

theorem items_comma {ts : Items} (hbegins : Begins text)
    (hvalue : value fuel (text ++ r) = (t, left)) (hitems : items fuel false left = (ts, left')) :
    items (fuel + 1) false (',' :: (newline level ++ (text ++ r))) = (.cons t ts, left') := by
  have hskip := skipSpace_newline_begins level (hbegins.append r)
  exact items_next (skipSpace_of_not rfl _) (hbegins.append r) hskip hvalue hitems

variable {ts : Members} (name : String) (hvalue : value (fuel + 1) (text ++ r) = (t, left))
  (hmembers : members (fuel + 1) false left = (ts, left'))

include hvalue hmembers

theorem member_print :
    ∃ cs, skipSpace (newline level ++ (pair name text ++ r)) = '"' :: cs ∧
      member (fuel + 2) '"' cs = (.cons (.ofString name) t ts, left') := by
  refine ⟨name.toList.flatMap escape ++ '"' :: ':' :: ' ' :: (text ++ r), ?_, ?_⟩
  · rw [skipSpace_newline, pair, quoted]
    simp [skipSpace_of_not (c := '"') rfl]
  · exact member_pair name (by rw [value_space, hvalue]) hmembers

theorem value_mapped :
    value (fuel + 4) ('{' :: (newline level ++ (pair name text ++ r))) =
      (.map (.cons (.ofString name) t ts), left') := by
  obtain ⟨cs, hskip, hmember⟩ := member_print level name hvalue hmembers
  rw [value_map (skipSpace_of_not rfl _), members_first hskip (by decide), hmember]

theorem members_comma :
    members (fuel + 3) false (',' :: (newline level ++ (pair name text ++ r))) =
      (.cons (.ofString name) t ts, left') := by
  obtain ⟨cs, hskip, hmember⟩ := member_print level name hvalue hmembers
  rw [members_next (skipSpace_of_not rfl _) hskip (by decide), hmember]

end

theorem pair_length (name : String) (text : List Char) :
    text.length + 4 ≤ (pair name text).length := by
  simp only [pair, quoted, List.length_append, List.length_cons, List.length_nil]
  omega

mutual

/-- Printed data is read as its tree, up to what follows it. -/
theorem value_print (d : Datum) (hread : ∀ x ∈ d.singles, x.isFinite → x.Rereads) (level : Nat)
    {rest : List Char} (hrest : Delimits rest) {fuel : Nat}
    (hfuel : 2 * (print level d).length ≤ fuel) :
    value fuel (print level d ++ rest) = (d.tree, rest) := by
  -- No character takes the reader more than two calls, so that the fuel lasts for every part.
  have hbegins := print_begins level hread
  have hpositive : 0 < (print level d).length := by
    obtain ⟨c, r, h, -⟩ := hbegins
    rw [h]
    exact Nat.succ_pos _
  obtain ⟨fuel, rfl⟩ : ∃ n, fuel = n + 2 := ⟨fuel - 2, by omega⟩
  have hskip := (hbegins.append rest).skipSpace
  match d with
  | .null => rw [value_scalar hskip (by decide) (by decide)]; rfl
  | .flag true => rw [value_scalar hskip (by decide) (by decide)]; rfl
  | .flag false => rw [value_scalar hskip (by decide) (by decide)]; rfl
  | .integer i =>
      obtain ⟨a, ha, -⟩ := Numeral.read_integer i
      rw [print, value_number ha hrest, Datum.tree, ha]
  | .single x =>
      rcases print_single (hread x (by simp [Datum.singles])) level with ⟨h, htree⟩ | ⟨a, ha, htree⟩
      · rw [h] at hskip ⊢
        rw [value_scalar hskip (by decide) (by decide), htree]
        rfl
      · rw [value_number ha hrest, htree]
  | .text s =>
      have htext : print level (.text s) ++ rest =
          '"' :: (s.toList.flatMap escape ++ '"' :: rest) := by simp [print, quoted]
      rw [htext, value_scalar (skipSpace_of_not rfl _) (by decide) (by decide)]
      exact Text.read_quoted s rest
  | .list [] =>
      have htext : print level (.list []) ++ rest = '[' :: ']' :: rest := rfl
      rw [htext, value_list (skipSpace_of_not rfl _), items_closed (skipSpace_of_not rfl rest),
        Datum.tree, Datum.treeItems]
  | .list (d :: ds) =>
      have htext : print level (.list (d :: ds)) = '[' :: (newline (level + 1) ++
          (print (level + 1) d ++ tailOf ']' level (printItems (level + 1) ds))) := by
        rw [print, printItems, bracketed_cons]
      rw [htext] at hfuel ⊢
      simp only [List.length_cons, List.length_append] at hfuel
      simp only [Datum.singles, Datum.itemSingles, List.forall_mem_append] at hread
      obtain ⟨hd, hds⟩ := hread
      simp only [List.cons_append, List.append_assoc]
      rw [value_listed (level + 1) (print_begins (level + 1) hd)
        (value_print d hd (level + 1) (tailOf_delimits _ _ _ _) (by omega))
        (items_print ds hds level rest (by omega)), Datum.tree, Datum.treeItems]
  | .record [] =>
      have htext : print level (.record []) ++ rest = '{' :: '}' :: rest := rfl
      rw [htext, value_map (skipSpace_of_not rfl _), members_closed (skipSpace_of_not rfl rest),
        Datum.tree, Datum.treeMembers]
  | .record ((name, d) :: fields) =>
      have htext : print level (.record ((name, d) :: fields)) = '{' :: (newline (level + 1) ++
          (pair name (print (level + 1) d) ++ tailOf '}' level (printFields (level + 1) fields))) := by
        rw [print, printFields, bracketed_cons]
      rw [htext] at hfuel ⊢
      have hpair := pair_length name (print (level + 1) d)
      simp only [List.length_cons, List.length_append] at hfuel
      obtain ⟨fuel, rfl⟩ : ∃ n, fuel = n + 2 := ⟨fuel - 2, by omega⟩
      simp only [Datum.singles, Datum.fieldSingles, List.forall_mem_append] at hread
      obtain ⟨hd, hfields⟩ := hread
      simp only [List.cons_append, List.append_assoc]
      rw [value_mapped (level + 1) name
        (value_print d hd (level + 1) (tailOf_delimits _ _ _ _) (by omega))
        (members_print fields hfields level rest (by omega)), Datum.tree, Datum.treeMembers]
  | .variant name d =>
      have htext : print level (.variant name d) = '{' :: (newline (level + 1) ++
          (pair name (print (level + 1) d) ++ tailOf '}' level [])) := by
        rw [print, bracketed_cons]
      rw [htext] at hfuel ⊢
      have hpair := pair_length name (print (level + 1) d)
      simp only [List.length_cons, List.length_append] at hfuel
      obtain ⟨fuel, rfl⟩ : ∃ n, fuel = n + 2 := ⟨fuel - 2, by omega⟩
      simp only [Datum.singles] at hread
      simp only [List.cons_append, List.append_assoc]
      rw [value_mapped (level + 1) name
        (value_print d hread (level + 1) (tailOf_delimits _ _ _ _) (by omega))
        (members_closed (skipSpace_tail rfl level rest)), Datum.tree]

theorem items_print (ds : List Datum)
    (hread : ∀ x ∈ Datum.itemSingles ds, x.isFinite → x.Rereads) (level : Nat)
    (rest : List Char) {fuel : Nat}
    (hfuel : 2 * (tailOf ']' level (printItems (level + 1) ds)).length ≤ fuel) :
    items fuel false (tailOf ']' level (printItems (level + 1) ds) ++ rest) =
      (Datum.treeItems ds, rest) := by
  match ds with
  | [] =>
      have hpositive := tailOf_length ']' level (printItems (level + 1) [])
      obtain ⟨fuel, rfl⟩ : ∃ n, fuel = n + 1 := ⟨fuel - 1, by omega⟩
      exact items_closed (skipSpace_tail rfl level rest)
  | d :: ds =>
      have htext : tailOf ']' level (printItems (level + 1) (d :: ds)) = ',' ::
          (newline (level + 1) ++
            (print (level + 1) d ++ tailOf ']' level (printItems (level + 1) ds))) := by
        rw [printItems, tailOf]
      rw [htext] at hfuel ⊢
      simp only [List.length_cons, List.length_append] at hfuel
      obtain ⟨fuel, rfl⟩ : ∃ n, fuel = n + 1 := ⟨fuel - 1, by omega⟩
      simp only [Datum.itemSingles, List.forall_mem_append] at hread
      obtain ⟨hd, hds⟩ := hread
      simp only [List.cons_append, List.append_assoc]
      rw [items_comma (level + 1) (print_begins (level + 1) hd)
        (value_print d hd (level + 1) (tailOf_delimits _ _ _ _) (by omega))
        (items_print ds hds level rest (by omega)), Datum.treeItems]

theorem members_print (fields : List (String × Datum))
    (hread : ∀ x ∈ Datum.fieldSingles fields, x.isFinite → x.Rereads) (level : Nat)
    (rest : List Char) {fuel : Nat}
    (hfuel : 2 * (tailOf '}' level (printFields (level + 1) fields)).length ≤ fuel) :
    members fuel false (tailOf '}' level (printFields (level + 1) fields) ++ rest) =
      (Datum.treeMembers fields, rest) := by
  match fields with
  | [] =>
      have hpositive := tailOf_length '}' level (printFields (level + 1) [])
      obtain ⟨fuel, rfl⟩ : ∃ n, fuel = n + 1 := ⟨fuel - 1, by omega⟩
      exact members_closed (skipSpace_tail rfl level rest)
  | (name, d) :: fields =>
      have htext : tailOf '}' level (printFields (level + 1) ((name, d) :: fields)) = ',' ::
          (newline (level + 1) ++ (pair name (print (level + 1) d) ++
            tailOf '}' level (printFields (level + 1) fields))) := by
        rw [printFields, tailOf]
      rw [htext] at hfuel ⊢
      have hpair := pair_length name (print (level + 1) d)
      simp only [List.length_cons, List.length_append] at hfuel
      obtain ⟨fuel, rfl⟩ : ∃ n, fuel = n + 3 := ⟨fuel - 3, by omega⟩
      simp only [Datum.fieldSingles, List.forall_mem_append] at hread
      obtain ⟨hd, hfields⟩ := hread
      simp only [List.cons_append, List.append_assoc]
      rw [members_comma (level + 1) name
        (value_print d hd (level + 1) (tailOf_delimits _ _ _ _) (by omega))
        (members_print fields hfields level rest (by omega)), Datum.treeMembers]

end

/-- The text of data is read as its tree, also where white space follows it. -/
theorem ofText_text {d : Datum} (hread : ∀ x ∈ d.singles, x.isFinite → x.Rereads)
    {rest : List Char} (hrest : Delimits rest) (hspace : skipSpace rest = []) :
    ofText (String.ofList (print 0 d ++ rest)) = (d.tree, true) := by
  have hfuel : 2 * (print 0 d).length ≤ 2 * (print 0 d ++ rest).length + 2 := by
    rw [List.length_append]
    omega
  have hvalue := value_print d hread 0 hrest hfuel
  rw [ofText, String.toList_ofList, hvalue]
  simp only [hspace, List.isEmpty_nil]

end Json

end RigNodes
