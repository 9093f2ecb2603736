import RigNodes.Proofs.Addressing
import RigNodes.Proofs.Printing
import RigNodes.Table.Dumpers

/-! The text dump of node tables loses nothing. Columns run over where positions are wide, parts
that a node lacks are left out, and white space is trimmed; yet a line says where it stands, its
node is read off it, and the heading says how many lines belong to a table. This rests on what
finished tables are like: a node of a wheel has no id, and any other node has no ray. -/
namespace RigNodes

/-- What stands before the first place of a character is determined, and so is what follows. -/
theorem append_cons_inj {α : Type} {c : α} {a b x y : List α} (ha : c ∉ a) (hb : c ∉ b)
    (h : a ++ c :: x = b ++ c :: y) : a = b ∧ x = y := by
  induction a generalizing b with
  | nil =>
      cases b with
      | nil => exact ⟨rfl, (List.cons.inj h).2⟩
      | cons d b =>
          obtain ⟨rfl, -⟩ := List.cons.inj h
          exact absurd List.mem_cons_self hb
  | cons d a ih =>
      cases b with
      | nil =>
          obtain ⟨rfl, -⟩ := List.cons.inj h
          exact absurd List.mem_cons_self ha
      | cons d' b =>
          obtain ⟨rfl, htail⟩ := List.cons.inj h
          obtain ⟨rfl, hxy⟩ := ih (fun hc => ha (List.mem_cons_of_mem _ hc))
            (fun hc => hb (List.mem_cons_of_mem _ hc)) htail
          exact ⟨rfl, hxy⟩

/-- A text is made of its lines in one way only. -/
theorem lines_inj {ls ls' : List (List Char)} (h : ∀ l ∈ ls, '\n' ∉ l) (h' : ∀ l ∈ ls', '\n' ∉ l)
    (heq : (ls.flatMap fun l => l ++ ['\n']) = ls'.flatMap fun l => l ++ ['\n']) : ls = ls' := by
  induction ls generalizing ls' with
  | nil =>
      cases ls' with
      | nil => rfl
      | cons l' ls' => simp at heq
  | cons l ls ih =>
      cases ls' with
      | nil => simp at heq
      | cons l' ls' =>
          obtain ⟨hl, hls⟩ := List.forall_mem_cons.mp h
          obtain ⟨hl', hls'⟩ := List.forall_mem_cons.mp h'
          simp only [List.flatMap_cons, List.append_assoc, List.singleton_append] at heq
          obtain ⟨rfl, hrest⟩ := append_cons_inj hl hl' heq
          rw [ih hls hls' hrest]

/-! Digits. -/

theorem toDigits_inj {n n' : Nat} (h : Nat.toDigits 10 n = Nat.toDigits 10 n') : n = n' := by
  have hvalue := congrArg (fun ds => Nat.ofDigitChars 10 ds 0) h
  simpa only [Nat.ofDigitChars_ten_toDigits] using hvalue

theorem isDigit_of_mem_toDigits {n : Nat} {c : Char} (hc : c ∈ Nat.toDigits 10 n) :
    c.isDigit = true :=
  Nat.isDigit_of_mem_toDigits (by decide) (Nat.le_refl 10) hc

theorem not_mem_toDigits {c : Char} (hc : c.isDigit = false) (n : Nat) : c ∉ Nat.toDigits 10 n := by
  intro h
  rw [isDigit_of_mem_toDigits h] at hc
  cases hc

/-- What a text begins with, unless it is a digit. -/
def mark (cs : List Char) : Option Char := cs.head?.filter fun c => !c.isDigit

theorem mark_toDigits (n : Nat) : mark (Nat.toDigits 10 n) = none := by
  rw [mark, Option.filter_eq_none_iff]
  intro c hc
  simp [isDigit_of_mem_toDigits (List.mem_of_head? hc)]

namespace NodeRef

/-- An id that does not break a line. -/
def isOneLine : NodeRef → Bool
  | name x => !x.toList.contains '\n'
  | _ => true

theorem shown_number (n : UInt32) : (number n).shown.toList = Nat.toDigits 10 n.toNat :=
  Nat.toList_repr

theorem shown_name (x : String) : (name x).shown.toList = '"' :: (x.toList ++ ['"']) := by
  simp [shown]

theorem shown_slot (s : Slot) : (slot s).shown.toList = '#' :: Nat.toDigits 10 s.position := by
  simp [shown, Slot.shown]

theorem mark_shown (r : NodeRef) :
    mark r.shown.toList = match r with
      | number _ => none
      | name _ => some '"'
      | slot _ => some '#'
      | unresolved => some '<' := by
  cases r with
  | number n => rw [shown_number, mark_toDigits]
  | name x =>
      rw [shown_name]
      rfl
  | slot s =>
      rw [shown_slot]
      rfl
  | unresolved => decide

/-- The first character tells the form of an id, and the rest its value. -/
theorem shown_injective : Function.Injective shown := by
  intro r r' h
  have hlist : r.shown.toList = r'.shown.toList := congrArg String.toList h
  have hmark := congrArg mark hlist
  rw [mark_shown, mark_shown] at hmark
  cases r with
  | number n =>
      cases r' with
      | number n' =>
          rw [shown_number, shown_number] at hlist
          rw [UInt32.toNat_inj.mp (toDigits_inj hlist)]
      | _ => cases hmark
  | name x =>
      cases r' with
      | name x' =>
          rw [shown_name, shown_name] at hlist
          have hx := List.append_cancel_right (List.cons.inj hlist).2
          rw [String.toList_inj.mp hx]
      | _ => cases hmark
  | slot s =>
      cases r' with
      | slot s' =>
          rw [shown_slot, shown_slot] at hlist
          have hs := toDigits_inj (List.cons.inj hlist).2
          exact congrArg (fun i => slot ⟨i⟩) (UInt32.toNat_inj.mp hs)
      | _ => cases hmark
  | unresolved =>
      cases r' with
      | unresolved => rfl
      | _ => cases hmark

theorem shown_endsVisible (r : NodeRef) : EndsVisible r.shown.toList := by
  cases r with
  | number n =>
      rw [shown_number]
      exact decimalDigits_endsVisible n.toNat
  | name x =>
      rw [shown_name]
      exact ⟨'"' :: x.toList, '"', rfl, by decide⟩
  | slot s =>
      rw [shown_slot]
      exact (decimalDigits_endsVisible s.position).cons '#'
  | unresolved => exact ⟨"<unresolved".toList, '>', by decide, by decide⟩

theorem newline_not_mem_shown {r : NodeRef} (h : r.isOneLine = true) : '\n' ∉ r.shown.toList := by
  cases r with
  | number n =>
      rw [shown_number]
      exact not_mem_toDigits (by decide) _
  | name x =>
      have hx : '\n' ∉ x.toList := by simpa [isOneLine] using h
      simp [shown_name, hx]
  | slot s =>
      rw [shown_slot]
      simp [not_mem_toDigits]
  | unresolved => decide

end NodeRef

/-! Columns. -/

/-- The column of the origin. -/
def Kind.column (k : Kind) : List Char := (Text.padRight 15 k.shown).toList

/-- The column of the part in a wheel. -/
def Role.column (r : Role) : List Char := (Text.padRight 7 r.text).toList

theorem Kind.column_length (k : Kind) : k.column.length = 15 := by
  cases k <;> decide

theorem Kind.shown_length (k : Kind) : k.shown.toList.length ≤ 15 := by
  cases k <;> decide

theorem Kind.shown_endsVisible (k : Kind) : EndsVisible k.shown.toList := by
  have hlast : k.shown.toList.getLast? ∈ [some 's', some 'd', some 'm', some '2'] := by
    cases k <;> decide
  apply EndsVisible.getLast?
  · intro c hc
    rw [Option.mem_def.mp hc] at hlast
    simp only [List.mem_cons, Option.some.injEq, List.not_mem_nil, or_false] at hlast
    rcases hlast with rfl | rfl | rfl | rfl <;> rfl
  · cases k <;> decide

theorem Kind.column_injective {k k' : Kind} (h : k.column = k'.column) : k = k' := by
  cases k <;> cases k' <;> first | rfl | exact absurd h (by decide)

/-- With the column of the origin filled up, the origin and what follows are told apart by place. -/
theorem Kind.column_append_inj {k k' : Kind} {x y : List Char}
    (h : k.column ++ ' ' :: x = k'.column ++ ' ' :: y) : k = k' ∧ x = y := by
  obtain ⟨hk, hrest⟩ := List.append_inj h (k.column_length.trans k'.column_length.symm)
  exact ⟨Kind.column_injective hk, (List.cons.inj hrest).2⟩

/-- An origin alone is too short to be a column with something behind it. -/
theorem Kind.shown_ne_column {k k' : Kind} {x : List Char} :
    k.shown.toList ≠ k'.column ++ ' ' :: x := by
  intro h
  have hlength := congrArg List.length h
  have hle := k.shown_length
  rw [List.length_append, k'.column_length, List.length_cons] at hlength
  omega

theorem Role.column_length (r : Role) : r.column.length = 7 := by
  cases r <;> decide

theorem Role.column_injective {r r' : Role} (h : r.column = r'.column) : r = r' := by
  cases r <;> cases r' <;> first | rfl | exact absurd h (by decide)

theorem Kind.newline_not_mem (k : Kind) : '\n' ∉ k.column ∧ '\n' ∉ k.shown.toList := by
  cases k <;> decide

theorem Role.newline_not_mem (r : Role) : '\n' ∉ r.column := by
  cases r <;> decide

/-- A part in a wheel begins with another character than any id. -/
theorem Role.column_ne_shown (role : Role) (x : List Char) (r : NodeRef) :
    role.column ++ x ≠ r.shown.toList := by
  intro h
  have hrole : mark (role.column ++ x) = some 't' ∨ mark (role.column ++ x) = some 'r' := by
    rw [mark, List.head?_append_of_ne_nil _ (by cases role <;> decide)]
    cases role <;> decide
  rw [h, r.mark_shown] at hrole
  cases r <;> simp at hrole

/-- A row as it can stand in a finished table: a node of a wheel has no id, and any other node has
no ray. -/
structure TableEntry.Regular (e : TableEntry) : Prop where
  anonymous (h : e.role.isSome) : e.userId = none
  rayless (h : e.role = none) : e.ray = 0

namespace TableEntry

/-- What stands before the node of a line. -/
def lead (p : Nat) : List Char :=
  "  ".toList ++ (Text.padRight 5 ("#" ++ toString p)).toList ++ [' ']

/-- What a line says about its node. The column of the origin is filled up only if more follows. -/
def said (e : TableEntry) : List Char :=
  match e.userId, e.role with
  | none, none => e.origin.shown.toList
  | some r, _ => e.origin.column ++ ' ' :: r.shown.toList
  | none, some role => e.origin.column ++
      ' ' :: (role.column ++ (" ray ".toList ++ Nat.toDigits 10 e.ray))

theorem said_endsVisible (e : TableEntry) : EndsVisible e.said := by
  obtain ⟨origin, role, userId, ray⟩ := e
  cases userId with
  | some r => exact (r.shown_endsVisible.cons ' ').append _
  | none =>
      cases role with
      | some role =>
          exact ((((decimalDigits_endsVisible ray).append _).append _).cons ' ').append _
      | none => exact origin.shown_endsVisible

/-- Only what fills up the last column is trimmed. -/
theorem line_eq {e : TableEntry} (h : e.Regular) (p : Nat) :
    (e.line p).toList = lead p ++ e.said := by
  have htrim : ∀ blanks : List Char, (∀ c ∈ blanks, Text.isBlank c = true) →
      Text.dropBlankEnd ((lead p ++ e.said) ++ blanks) = lead p ++ e.said := fun blanks hblanks =>
    (e.said_endsVisible.append (lead p)).dropBlankEnd_append blanks hblanks
  obtain ⟨origin, role, userId, ray⟩ := e
  cases role with
  | none =>
      cases userId with
      | none =>
          have hline : (line p ⟨origin, none, none, ray⟩).toList = Text.dropBlankEnd
              ((lead p ++ origin.shown.toList) ++
                List.replicate (15 - origin.shown.length) ' ') := by
            simp [line, lead, Text.trimEnd, Text.padRight]
          rw [hline]
          apply htrim
          intro c hc
          rw [List.eq_of_mem_replicate hc]
          rfl
      | some r =>
          have hline : (line p ⟨origin, none, some r, ray⟩).toList = Text.dropBlankEnd
              ((lead p ++ (origin.column ++ ' ' :: r.shown.toList)) ++ []) := by
            simp [line, lead, Text.trimEnd, Kind.column]
          rw [hline]
          exact htrim [] (by simp)
  | some role =>
      obtain rfl : userId = none := h.anonymous rfl
      have hline : (line p ⟨origin, some role, none, ray⟩).toList = Text.dropBlankEnd
          ((lead p ++ (origin.column ++
            ' ' :: (role.column ++ (" ray ".toList ++ Nat.toDigits 10 ray)))) ++ []) := by
        simp [line, lead, Text.trimEnd, Kind.column, Role.column]
      rw [hline]
      exact htrim [] (by simp)

/-- A node is read off what is said about it. -/
theorem said_injective {e e' : TableEntry} (h : e.Regular) (h' : e'.Regular)
    (heq : e.said = e'.said) : e = e' := by
  obtain ⟨origin, role, userId, ray⟩ := e
  obtain ⟨origin', role', userId', ray'⟩ := e'
  cases role with
  | none =>
      obtain rfl : ray = 0 := h.rayless rfl
      cases role' with
      | none =>
          obtain rfl : ray' = 0 := h'.rayless rfl
          cases userId with
          | none =>
              cases userId' with
              | none =>
                  have hshown : origin.shown = origin'.shown := String.toList_injective heq
                  obtain rfl : origin = origin' :=
                    Kind.column_injective (by rw [Kind.column, hshown, Kind.column])
                  rfl
              | some r' => exact absurd heq Kind.shown_ne_column
          | some r =>
              cases userId' with
              | none => exact absurd heq.symm Kind.shown_ne_column
              | some r' =>
                  obtain ⟨rfl, hr⟩ := Kind.column_append_inj heq
                  obtain rfl := NodeRef.shown_injective (String.toList_injective hr)
                  rfl
      | some role' =>
          obtain rfl : userId' = none := h'.anonymous rfl
          cases userId with
          | none => exact absurd heq Kind.shown_ne_column
          | some r => exact absurd (Kind.column_append_inj heq).2.symm (role'.column_ne_shown _ r)
  | some role =>
      obtain rfl : userId = none := h.anonymous rfl
      cases role' with
      | none =>
          cases userId' with
          | none => exact absurd heq.symm Kind.shown_ne_column
          | some r' => exact absurd (Kind.column_append_inj heq).2 (role.column_ne_shown _ r')
      | some role' =>
          obtain rfl : userId' = none := h'.anonymous rfl
          obtain ⟨rfl, hrest⟩ := Kind.column_append_inj heq
          obtain ⟨hrole, hray⟩ :=
            List.append_inj hrest (role.column_length.trans role'.column_length.symm)
          obtain rfl := Role.column_injective hrole
          obtain rfl := toDigits_inj (List.append_cancel_left hray)
          rfl

theorem line_injective {e e' : TableEntry} (h : e.Regular) (h' : e'.Regular) {p : Nat}
    (heq : e.line p = e'.line p) : e = e' := by
  have hlist := congrArg String.toList heq
  rw [line_eq h, line_eq h'] at hlist
  exact said_injective h h' (List.append_cancel_left hlist)

theorem newline_not_mem_lead (p : Nat) : '\n' ∉ lead p := by
  have hdigits := not_mem_toDigits (c := '\n') (by decide) p
  simp [lead, Text.padRight, hdigits]

/-- Without an id, nothing that is said about a node can break the line. -/
theorem newline_not_mem_said (e : TableEntry) (h : e.userId = none) : '\n' ∉ e.said := by
  obtain ⟨origin, role, userId, ray⟩ := e
  obtain rfl : userId = none := h
  have hdigits := not_mem_toDigits (c := '\n') (by decide) ray
  cases role with
  | some role => simp [said, origin.newline_not_mem, role.newline_not_mem, hdigits]
  | none => exact origin.newline_not_mem.2

theorem newline_not_mem_line {e : TableEntry} (h : e.Regular) (hid : e.userId.all NodeRef.isOneLine)
    (p : Nat) : '\n' ∉ (e.line p).toList := by
  have hsaid : '\n' ∉ e.said := by
    obtain ⟨origin, role, userId, ray⟩ := e
    cases userId with
    | some r => simp [said, origin.newline_not_mem, NodeRef.newline_not_mem_shown hid]
    | none => exact newline_not_mem_said _ rfl
  rw [line_eq h, List.mem_append]
  rintro (hc | hc)
  · exact newline_not_mem_lead p hc
  · exact hsaid hc

end TableEntry

namespace ModuleTable

theorem heading_toList (t : ModuleTable) :
    t.heading.toList = "module ".toList ++ (t.name.toList ++ (' ' :: '(' ::
      Nat.toDigits 10 t.table.size) ++ " nodes)".toList) := by
  have hheading : t.heading =
      "module " ++ t.name ++ " (" ++ toString t.table.size ++ " nodes)" := rfl
  rw [hheading]
  simp

/-- The name is read off the heading, and so is the number of lines that belong to the table. -/
theorem heading_injective {t t' : ModuleTable} (h : t.heading = t'.heading) :
    t.name = t'.name ∧ t.table.size = t'.table.size := by
  have hlist := congrArg String.toList h
  rw [heading_toList, heading_toList] at hlist
  have hnumbered := List.append_cancel_right (List.append_cancel_left hlist)
  -- The name may hold brackets itself, so that the last one counts.
  have hlast : ∀ n : Nat, '(' ∉ (Nat.toDigits 10 n).reverse := fun n hn =>
    not_mem_toDigits (by decide) n (List.mem_reverse.mp hn)
  have hreverse := congrArg List.reverse hnumbered
  simp only [List.reverse_append, List.reverse_cons, List.append_assoc,
    List.singleton_append] at hreverse
  obtain ⟨hsize, hname⟩ := append_cons_inj (hlast _) (hlast _) hreverse
  exact ⟨String.toList_injective (List.reverse_injective (List.cons.inj hname).2),
    toDigits_inj (List.reverse_injective hsize)⟩

/-- A table whose names do not break a line. -/
structure OneLine (t : ModuleTable) : Prop where
  name : '\n' ∉ t.name.toList
  ids : ∀ e ∈ t.table.entries.toList, e.userId.all NodeRef.isOneLine

/-- A table whose rows are regular. -/
def Regular (t : ModuleTable) : Prop := ∀ e ∈ t.table.entries.toList, e.Regular

theorem newline_not_mem_heading {t : ModuleTable} (h : t.OneLine) : '\n' ∉ t.heading.toList := by
  have hdigits := not_mem_toDigits (c := '\n') (by decide) t.table.size
  rw [heading_toList]
  simp [h.name, hdigits]

/-- No line of a dump is broken. -/
theorem newline_not_mem_lines {t : ModuleTable} (hregular : t.Regular) (h : t.OneLine) :
    ∀ l ∈ t.lines, '\n' ∉ l.toList := by
  intro l hl
  rcases List.mem_cons.mp hl with rfl | hl
  · exact newline_not_mem_heading h
  · obtain ⟨⟨e, p⟩, he, rfl⟩ := List.mem_map.mp hl
    have he := List.fst_mem_of_mem_zipIdx he
    exact TableEntry.newline_not_mem_line (hregular e he) (h.ids e he) p

/-- Lines from one place on tell the nodes that they were written for. -/
theorem entries_of_lines {es es' : List TableEntry} (h : ∀ e ∈ es, e.Regular)
    (h' : ∀ e ∈ es', e.Regular) (p : Nat)
    (heq : (es.zipIdx p).map (fun x => x.1.line x.2) = (es'.zipIdx p).map fun x => x.1.line x.2) :
    es = es' := by
  induction es generalizing es' p with
  | nil =>
      cases es' with
      | nil => rfl
      | cons e' es' => simp at heq
  | cons e es ih =>
      cases es' with
      | nil => simp at heq
      | cons e' es' =>
          obtain ⟨he, hes⟩ := List.forall_mem_cons.mp h
          obtain ⟨he', hes'⟩ := List.forall_mem_cons.mp h'
          simp only [List.zipIdx_cons, List.map_cons] at heq
          obtain ⟨hline, hlines⟩ := List.cons.inj heq
          rw [TableEntry.line_injective he he' hline, ih hes hes' (p + 1) hlines]

/-- Two tables with the same name and the same rows. What their indexes are is left open. -/
def Alike (t t' : ModuleTable) : Prop := t.name = t'.name ∧ t.table.entries = t'.table.entries

/-- A heading says how many of the lines behind it are its own, and the rest is that of the other
tables. -/
theorem alike_of_lines {ts ts' : List ModuleTable} (h : ∀ t ∈ ts, t.Regular)
    (h' : ∀ t ∈ ts', t.Regular) (heq : ts.flatMap lines = ts'.flatMap lines) :
    List.Forall₂ Alike ts ts' := by
  induction ts generalizing ts' with
  | nil =>
      cases ts' with
      | nil => exact .nil
      | cons t' ts' => simp [lines] at heq
  | cons t ts ih =>
      cases ts' with
      | nil => simp [lines] at heq
      | cons t' ts' =>
          obtain ⟨ht, hts⟩ := List.forall_mem_cons.mp h
          obtain ⟨ht', hts'⟩ := List.forall_mem_cons.mp h'
          simp only [List.flatMap_cons, lines, List.cons_append] at heq
          obtain ⟨hheading, hrest⟩ := List.cons.inj heq
          obtain ⟨hname, hsize⟩ := heading_injective hheading
          obtain ⟨hown, hothers⟩ := List.append_inj hrest (by simpa [NodeTable.size] using hsize)
          have hentries := entries_of_lines ht ht' 0 hown
          exact .cons ⟨hname, Array.toList_inj.mp hentries⟩ (ih hts hts' hothers)

theorem dumpText_toList (ts : List ModuleTable) :
    (dumpText ts).toList = ((ts.flatMap lines).map String.toList).flatMap fun l => l ++ ['\n'] := by
  rw [dumpText, String.toList_join, List.flatMap_map, List.flatMap_map]
  simp

/-- Tables with regular rows and without broken lines are read off their dump. -/
theorem alike_of_dumpText {ts ts' : List ModuleTable} (h : ∀ t ∈ ts, t.Regular ∧ t.OneLine)
    (h' : ∀ t ∈ ts', t.Regular ∧ t.OneLine) (heq : dumpText ts = dumpText ts') :
    List.Forall₂ Alike ts ts' := by
  have hwhole : ∀ {ts : List ModuleTable}, (∀ t ∈ ts, t.Regular ∧ t.OneLine) →
      ∀ l ∈ (ts.flatMap lines).map String.toList, '\n' ∉ l := by
    intro ts h l hl
    obtain ⟨l, hmem, rfl⟩ := List.mem_map.mp hl
    obtain ⟨t, ht, hmem⟩ := List.mem_flatMap.mp hmem
    exact newline_not_mem_lines (h t ht).1 (h t ht).2 l hmem
  have hlist := congrArg String.toList heq
  rw [dumpText_toList, dumpText_toList] at hlist
  have hlines := lines_inj (hwhole h) (hwhole h') hlist
  exact alike_of_lines (fun t ht => (h t ht).1) (fun t ht => (h' t ht).1)
    (List.map_injective_iff.mpr (fun _ _ => String.toList_injective) hlines)

end ModuleTable

/-! Finished tables. -/

theorem NodeRef.row_regular (id : NodeRef) (k : Kind) : (id.row k).Regular := by
  refine ⟨?_, ?_⟩
  · intro h
    cases id <;> cases h
  · intro _
    cases id <;> rfl

theorem Production.rows_regular (k : Keyword) (p : Production) : ∀ e ∈ p.rows k, e.Regular := by
  intro e he
  cases p with
  | definition id =>
      rw [List.mem_singleton.mp he]
      exact id.row_regular _
  | point kind =>
      rw [List.mem_singleton.mp he]
      exact ⟨fun _ => rfl, fun _ => rfl⟩
  | wheel kind rays rigid =>
      obtain ⟨i, -, rfl⟩ := List.mem_map.mp he
      refine ⟨fun _ => kind.wheelRow_userId _ i, fun h => ?_⟩
      unfold Kind.wheelRow at h
      split at h <;> cases h

theorem Module.tableRows_regular (m : Module) : ∀ e ∈ m.tableRows, e.Regular := by
  intro e he
  obtain ⟨s, -, he⟩ := List.mem_flatMap.mp he
  unfold rows at he
  split at he
  · exact Production.rows_regular _ _ e he
  · cases he

/-- A table that is that of a module, under the name of the module. -/
def ModuleTable.OfModule (t : ModuleTable) : Prop := ∃ m : Module, t = ⟨m.name, m.table⟩

namespace Resolver

theorem answer_ofModule (r : Resolver) (q : Request) (hr : ∀ t ∈ r.finished, t.OfModule) :
    ∀ t ∈ (r.answer q).1.finished, t.OfModule := by
  have hempty : ∀ t ∈ ([] : List ModuleTable), t.OfModule :=
    fun _ ht => absurd ht List.not_mem_nil
  cases hq : q.clears with
  | false =>
      obtain ⟨k, table, added, fs, hgrown, -⟩ := r.answer_grows hq
      rw [hgrown]
      exact hr
  | true =>
      cases q with
      | init enabled => exact hempty
      | disable => exact hempty
      | beginModule name => exact hr
      | process d =>
          cases henabled : r.options.enabled with
          | false =>
              have hstate : (r.answer (.process d)).1 = r := by
                simp [answer, process, henabled, Prod.map]
              rwa [hstate]
          | true =>
              intro t ht
              have hfinished : (r.answer (.process d)).1.finished = _ := process_finished henabled d
              rw [hfinished, List.mem_append, List.mem_map] at ht
              rcases ht with ht | ⟨m, -, rfl⟩
              · exact hr t ht
              · exact ⟨m, rfl⟩
      | _ => cases hq

/-- Whatever is asked of a resolver, a finished table is that of some module. -/
theorem Reachable.ofModule {r : Resolver} (h : r.Reachable) : ∀ t ∈ r.finished, t.OfModule := by
  obtain ⟨o, qs, rfl⟩ := h
  refine replay_preserves (P := fun r => ∀ t ∈ r.finished, t.OfModule) answer_ofModule ?_ qs
  intro t ht
  exact absurd ht List.not_mem_nil

end Resolver

/-- A table that some run has finished. -/
def ModuleTable.Produced (t : ModuleTable) : Prop := ∃ r : Resolver, r.Reachable ∧ t ∈ r.finished

theorem ModuleTable.Produced.regular {t : ModuleTable} (h : t.Produced) : t.Regular := by
  obtain ⟨r, hr, ht⟩ := h
  obtain ⟨m, rfl⟩ := hr.ofModule t ht
  intro e he
  rw [m.entries_table] at he
  exact m.tableRows_regular e he

/-- As long as no name breaks a line, tables that are dumped as the same text are the same, one by
one: they have the same name, and at each position the same node. -/
theorem Dumper.text_lossless {ts ts' : List ModuleTable} (h : ∀ t ∈ ts, t.Produced ∧ t.OneLine)
    (h' : ∀ t ∈ ts', t.Produced ∧ t.OneLine) (heq : text.render ts = text.render ts') :
    List.Forall₂ ModuleTable.Alike ts ts' :=
  ModuleTable.alike_of_dumpText (fun t ht => ⟨(h t ht).1.regular, (h t ht).2⟩)
    (fun t ht => ⟨(h' t ht).1.regular, (h' t ht).2⟩) (Except.ok.inj heq)

/-- A name like a heading, an id like a slot with a name, and a wheel that may come first or
last. -/
def Module.quoted (wheelFirst : Bool) : Module where
  name := "front (3 nodes)"
  sections :=
    let wheel : Section := ⟨.wheels, [Document.sampleWheel (7, 7) 7]⟩
    let nodes : List Section := [.namedNodes ["#0 \"hub\" "], .numberedNodes [7]]
    if wheelFirst then wheel :: nodes else nodes ++ [wheel]

theorem Dumper.text_lossless_quoted :
    let ts := ((Resolver.new ⟨true, false⟩).process ⟨"", [.quoted true]⟩).1.finished
    let ts' := ((Resolver.new ⟨true, false⟩).process ⟨"", [.quoted false]⟩).1.finished
    ts ≠ ts' ∧ text.render ts = text.render ts' ∧ List.Forall₂ ModuleTable.Alike ts ts' := by
  intro ts ts'
  have hdiffer : ts ≠ ts' := by decide +kernel
  have hrender : text.render ts = text.render ts' :=
    congrArg Except.ok (by decide +kernel : ModuleTable.dumpText ts = ModuleTable.dumpText ts')
  have hproduced : ∀ first, ∀ t ∈
      ((Resolver.new ⟨true, false⟩).process ⟨"", [.quoted first]⟩).1.finished, t.Produced :=
    fun first t ht => ⟨_, ⟨⟨true, false⟩, [.process ⟨"", [.quoted first]⟩], rfl⟩, ht⟩
  have hname : ∀ first, ∀ t ∈
      ((Resolver.new ⟨true, false⟩).process ⟨"", [.quoted first]⟩).1.finished,
        '\n' ∉ t.name.toList := by decide +kernel
  have hids : ∀ first, ∀ t ∈
      ((Resolver.new ⟨true, false⟩).process ⟨"", [.quoted first]⟩).1.finished,
        ∀ e ∈ t.table.entries.toList, e.userId.all NodeRef.isOneLine := by decide +kernel
  exact ⟨hdiffer, hrender, text_lossless
    (fun t ht => ⟨hproduced true t ht, hname true t ht, hids true t ht⟩)
    (fun t ht => ⟨hproduced false t ht, hname false t ht, hids false t ht⟩) hrender⟩

end RigNodes
