import Mathlib
import RigNodes.Table.Register

/-! Tables as lists of rows. A table that was filled row by row is known from its rows alone: the
indexes, the counts and the base offsets are all read off them. -/
namespace RigNodes

namespace KindCounts

@[simp] theorem get_zero (k : Kind) : zero.get k = 0 := by
  cases k <;> rfl

theorem get_add (v : KindCounts) (j k : Kind) (n : Nat) :
    (v.add j n).get k = if j = k then v.get k + n else v.get k := by
  have hget : ∀ i : Kind, v.get i = v[i.index] := fun _ => rfl
  have hadd : (v.add j n).get k = (v.set j.index (v.get j + n))[k.index] := rfl
  rw [hadd, hget k, Fin.getElem_fin, Fin.getElem_fin, Vector.getElem_set]
  have hinj : (j.index : Nat) = (k.index : Nat) ↔ j = k := by
    cases j <;> cases k <;> decide
  by_cases h : j = k
  · subst h; simp [hget]
  · simp [hinj, h]

theorem total_eq_sum (v : KindCounts) (p : Kind → Bool) :
    v.total p = ((Kind.all.filter p).map v.get).sum := by
  rw [total, List.sum_eq_foldr, List.foldr_map]

end KindCounts

/-- Numbers and names are what authors write, and what the indexes hold. -/
def NodeRef.isAuthored : NodeRef → Bool
  | number _ | name _ => true
  | slot _ | unresolved => false

namespace NodeTable

/-- The position that the indexes give for a number or a name. -/
def find? (t : NodeTable) : NodeRef → Option Nat
  | .number n => t.findNumber? n
  | .name x => t.findName? x
  | .slot _ | .unresolved => none

/-- Appends a row and files its id, if it is a number or a name. -/
def enter (t : NodeTable) (e : TableEntry) : NodeTable :=
  { t.push e with
    numbers := match e.userId with
      | some (.number n) => (n, t.size) :: t.numbers
      | _ => t.numbers
    names := match e.userId with
      | some (.name x) => (x, t.size) :: t.names
      | _ => t.names }

/-- The table that rows fill one after another. -/
def ofRows (rows : List TableEntry) : NodeTable := rows.foldl enter empty

@[simp] theorem ofRows_nil : ofRows [] = empty := rfl

theorem ofRows_append (rows more : List TableEntry) :
    ofRows (rows ++ more) = more.foldl enter (ofRows rows) := by
  simp [ofRows]

theorem ofRows_concat (rows : List TableEntry) (e : TableEntry) :
    ofRows (rows ++ [e]) = (ofRows rows).enter e := by
  simp [ofRows]

@[simp] theorem enter_entries (t : NodeTable) (e : TableEntry) :
    (t.enter e).entries = t.entries.push e := rfl

@[simp] theorem enter_legacyOrder (t : NodeTable) (e : TableEntry) :
    (t.enter e).legacyOrder = t.legacyOrder := rfl

theorem enter_count (t : NodeTable) (e : TableEntry) (k : Kind) :
    (t.enter e).count k = if e.origin = k then t.count k + 1 else t.count k :=
  KindCounts.get_add t.counts e.origin k 1

private theorem lookup_file {α : Type} [DecidableEq α] (a b : α) (p : Nat) (l : List (α × Nat)) :
    ((a, p) :: l).lookup b = if a = b then some p else l.lookup b := by
  by_cases h : b = a
  · simp [h]
  · simp [List.lookup_cons, beq_false_of_ne h, Ne.symm h]

theorem enter_find? (t : NodeTable) (e : TableEntry) {id : NodeRef} (hid : id.isAuthored) :
    (t.enter e).find? id = if e.userId = some id then some t.size else t.find? id := by
  rcases e with ⟨origin, role, userId, ray⟩
  cases id with
  | number n =>
      unfold enter find? findNumber?
      rcases userId with - | (m | x | s | -) <;> simp [lookup_file]
  | name x =>
      unfold enter find? findName?
      rcases userId with - | (n | y | s | -) <;> simp [lookup_file]
  | slot s => cases hid
  | unresolved => cases hid

theorem enterAll_find? (t : NodeTable) {rows : List TableEntry} {id : NodeRef}
    (hid : id.isAuthored) (h : ∀ e ∈ rows, e.userId ≠ some id) :
    (rows.foldl enter t).find? id = t.find? id := by
  induction rows generalizing t with
  | nil => rfl
  | cons e rows ih =>
      rw [List.foldl_cons, ih _ fun e' he' => h e' (List.mem_cons_of_mem _ he'),
        enter_find? _ _ hid, if_neg (h e List.mem_cons_self)]

theorem enterAll_entries (t : NodeTable) (rows : List TableEntry) :
    (rows.foldl enter t).entries = t.entries ++ rows.toArray := by
  induction rows generalizing t with
  | nil => simp
  | cons e rows ih => simp [ih]

@[simp] theorem ofRows_entries (rows : List TableEntry) : (ofRows rows).entries = rows.toArray := by
  simp [ofRows, enterAll_entries, empty]

@[simp] theorem ofRows_size (rows : List TableEntry) : (ofRows rows).size = rows.length := by
  simp [size]

theorem ofRows_getElem?_of_find? {rows : List TableEntry} {id : NodeRef} {p : Nat}
    (hid : id.isAuthored) (h : (ofRows rows).find? id = some p) :
    ∃ e, rows[p]? = some e ∧ e.userId = some id := by
  induction rows using List.reverseRecOn with
  | nil => cases id <;> cases h
  | append_singleton rows e ih =>
      rw [ofRows_concat, enter_find? _ _ hid, ofRows_size] at h
      by_cases he : e.userId = some id
      · rw [if_pos he, Option.some.injEq] at h
        exact ⟨e, by simp [← h], he⟩
      · rw [if_neg he] at h
        obtain ⟨e', hp, he'⟩ := ih h
        have hlt : p < rows.length := (List.getElem?_eq_some_iff.mp hp).1
        exact ⟨e', by rw [List.getElem?_append_left hlt, hp], he'⟩

theorem ofRows_find?_isSome {rows : List TableEntry} {id : NodeRef} (hid : id.isAuthored)
    {e : TableEntry} (he : e ∈ rows) (heid : e.userId = some id) :
    ((ofRows rows).find? id).isSome := by
  induction rows using List.reverseRecOn with
  | nil => cases he
  | append_singleton rows e' ih =>
      rw [ofRows_concat, enter_find? _ _ hid]
      by_cases he' : e'.userId = some id
      · simp [he']
      · rw [if_neg he']
        rcases List.mem_append.mp he with he | he
        · exact ih he
        · exact absurd (List.mem_singleton.mp he ▸ heid) he'

/-- If no two rows share an id, the indexes hold each number and name at its position. -/
theorem ofRows_find?_iff {rows : List TableEntry} {id : NodeRef} (hid : id.isAuthored)
    (hone : ∀ (i j : Nat) (e e' : TableEntry), rows[i]? = some e → rows[j]? = some e' →
      e.userId = some id → e'.userId = some id → i = j) (p : Nat) :
    (ofRows rows).find? id = some p ↔ ∃ e, rows[p]? = some e ∧ e.userId = some id := by
  constructor
  · exact ofRows_getElem?_of_find? hid
  · rintro ⟨e, hp, he⟩
    obtain ⟨q, hq⟩ := Option.isSome_iff_exists.mp
      (ofRows_find?_isSome hid (List.mem_of_getElem? hp) he)
    obtain ⟨e', hq', he'⟩ := ofRows_getElem?_of_find? hid hq
    rw [hq, hone p q e e' hp hq' he he']

@[simp] theorem ofRows_legacyOrder (rows : List TableEntry) : (ofRows rows).legacyOrder = #[] := by
  induction rows using List.reverseRecOn with
  | nil => rfl
  | append_singleton rows e ih => rw [ofRows_concat, enter_legacyOrder, ih]

/-- How many rows come from kinds with a property. -/
def tally (rows : List TableEntry) (p : Kind → Bool) : Nat := rows.countP fun e => p e.origin

theorem ofRows_count (rows : List TableEntry) (k : Kind) :
    (ofRows rows).count k = tally rows (· == k) := by
  induction rows using List.reverseRecOn with
  | nil => exact KindCounts.get_zero k
  | append_singleton rows e ih =>
      rw [ofRows_concat, enter_count, ih, tally, tally, List.countP_append]
      by_cases h : e.origin = k <;> simp [h]

private theorem sum_indicator (k : Kind) (ks : List Kind) :
    (ks.map fun j => if k = j then 1 else 0).sum = ks.count k := by
  induction ks with
  | nil => rfl
  | cons j ks ih =>
      rw [List.map_cons, List.sum_cons, ih, List.count_cons, Nat.add_comm]
      by_cases h : j = k
      · simp [h]
      · simp [h, Ne.symm h]

theorem sum_tally (rows : List TableEntry) (p : Kind → Bool) :
    ((Kind.all.filter p).map fun k => tally rows (· == k)).sum = tally rows p := by
  induction rows with
  | nil => simp [tally]
  | cons e rows ih =>
      have hone : (Kind.all.filter p).count e.origin = if p e.origin then 1 else 0 := by
        have hall : Kind.all.count e.origin = 1 := by cases e.origin <;> decide
        by_cases h : p e.origin
        · simp [h, hall]
        · have hnot : e.origin ∉ Kind.all.filter p := by simp [h]
          simp [h, List.count_eq_zero_of_not_mem hnot]
      have hcons : ∀ q : Kind → Bool,
          tally (e :: rows) q = tally rows q + if q e.origin then 1 else 0 := fun q => by
        simp [tally, List.countP_cons]
      simp only [hcons, List.sum_map_add, ih, beq_iff_eq, sum_indicator, hone]

theorem ofRows_baseOffset (rows : List TableEntry) (k : Kind) :
    (ofRows rows).baseOffset k = tally rows fun j => j.rank < k.rank := by
  rw [baseOffset, KindCounts.total_eq_sum, ← sum_tally]
  congr 1
  exact List.map_congr_left fun j _ => ofRows_count rows j

theorem ofRows_groupCount (rows : List TableEntry) (k : Kind) :
    (ofRows rows).groupCount k = tally rows k.sameGroup := by
  rw [groupCount, KindCounts.total_eq_sum, ← sum_tally]
  congr 1
  exact List.map_congr_left fun j _ => ofRows_count rows j

private theorem max?_congr {as bs : List Nat} (h : ∀ x, x ∈ as ↔ x ∈ bs) : as.max? = bs.max? := by
  cases ha : as.max? with
  | none =>
      have hnil := List.max?_eq_none_iff.mp ha
      subst hnil
      have hbs : bs = [] :=
        List.eq_nil_iff_forall_not_mem.mpr fun x hx => by simpa using (h x).mpr hx
      rw [hbs, List.max?_nil]
  | some a =>
      have ha' := List.max?_eq_some_iff.mp ha
      exact (List.max?_eq_some_iff.mpr
        ⟨(h a).mp ha'.1, fun b hb => ha'.2 b ((h b).mpr hb)⟩).symm

theorem highestRank?_of_count {t : NodeTable} {rows : List TableEntry}
    (h : ∀ k, t.count k = tally rows (· == k)) :
    t.highestRank? = (rows.map fun e => e.origin.rank).max? := by
  refine max?_congr fun x => ?_
  have hall : ∀ k : Kind, k ∈ Kind.all := fun k => by cases k <;> decide
  have hcount : ∀ k : Kind, 0 < t.count k ↔ ∃ e ∈ rows, e.origin = k := fun k => by
    simp [h, tally, List.countP_pos_iff]
  simp only [List.mem_map, List.mem_filter, decide_eq_true_eq, hcount, hall, true_and]
  constructor
  · rintro ⟨k, ⟨e, he, rfl⟩, rfl⟩
    exact ⟨e, he, rfl⟩
  · rintro ⟨e, he, rfl⟩
    exact ⟨e.origin, ⟨e, he, rfl⟩, rfl⟩

theorem ofRows_highestRank? (rows : List TableEntry) :
    (ofRows rows).highestRank? = (rows.map fun e => e.origin.rank).max? :=
  highestRank?_of_count (ofRows_count rows)

/-- In rows that are sorted by group, the rows of the groups before a rank are a prefix. -/
theorem lt_tally_iff {rows : List TableEntry}
    (h : rows.Pairwise fun e e' => e.origin.rank ≤ e'.origin.rank) (r p : Nat) :
    p < tally rows (fun k => k.rank < r) ↔ ∃ e, rows[p]? = some e ∧ e.origin.rank < r := by
  induction rows generalizing p with
  | nil => simp [tally]
  | cons e rows ih =>
      obtain ⟨hle, hrest⟩ := List.pairwise_cons.mp h
      by_cases he : e.origin.rank < r
      · have htally : tally (e :: rows) (fun k => k.rank < r) =
            tally rows (fun k => k.rank < r) + 1 := by
          simp [tally, he]
        cases p with
        | zero => simp [htally, he]
        | succ p => simpa [htally] using ih hrest p
      · have hlate : ∀ e' ∈ e :: rows, ¬ e'.origin.rank < r := by
          intro e' he'
          rcases List.mem_cons.mp he' with rfl | he'
          · exact he
          · have := hle e' he'
            omega
        have htally : tally (e :: rows) (fun k => k.rank < r) = 0 :=
          List.countP_eq_zero.mpr fun e' he' => by simpa using hlate e' he'
        rw [htally]
        exact iff_of_false (Nat.not_lt_zero p) fun ⟨e', hp, he'⟩ =>
          hlate e' (List.mem_of_getElem? hp) he'

/-- In rows that are sorted by group, a group stands from its base offset on. -/
theorem ofRows_group_iff {rows : List TableEntry}
    (h : rows.Pairwise fun e e' => e.origin.rank ≤ e'.origin.rank) (k : Kind) (p : Nat) :
    ((ofRows rows).baseOffset k ≤ p ∧
        p < (ofRows rows).baseOffset k + (ofRows rows).groupCount k) ↔
      ∃ e, rows[p]? = some e ∧ e.origin.sameGroup k := by
  have hend : tally rows (fun j => j.rank < k.rank) + tally rows k.sameGroup =
      tally rows fun j => j.rank < k.rank + 1 := by
    have hdisjoint : ∀ e : TableEntry,
        (if e.origin.rank < k.rank then 1 else 0) + (if k.rank = e.origin.rank then 1 else 0) =
          if e.origin.rank < k.rank + 1 then 1 else 0 := fun e => by
      split <;> split <;> split <;> omega
    induction rows with
    | nil => rfl
    | cons e rows ih =>
        have hrest := ih (List.pairwise_cons.mp h).2
        simp only [tally, List.countP_cons, Kind.sameGroup, decide_eq_true_eq, beq_iff_eq]
          at hrest ⊢
        have := hdisjoint e
        omega
  rw [ofRows_baseOffset, ofRows_groupCount, hend, ← Nat.not_lt, lt_tally_iff h, lt_tally_iff h]
  constructor
  · rintro ⟨hlow, e, hp, he⟩
    have hge : ¬ e.origin.rank < k.rank := fun hlt => hlow ⟨e, hp, hlt⟩
    exact ⟨e, hp, beq_iff_eq.mpr (by omega)⟩
  · rintro ⟨e, hp, he⟩
    have hrank : e.origin.rank = k.rank := beq_iff_eq.mp he
    refine ⟨fun ⟨e', hp', he'⟩ => ?_, e, hp, by omega⟩
    rw [hp, Option.some.injEq] at hp'
    subst hp'
    omega

/-- A scan for the first row of a rank comes to an end where the groups before it end. -/
theorem tally_eq_findIdx {rows : List TableEntry}
    (h : rows.Pairwise fun e e' => e.origin.rank ≤ e'.origin.rank) (r : Nat) :
    tally rows (fun k => k.rank < r) = rows.findIdx fun e => r ≤ e.origin.rank := by
  induction rows with
  | nil => rfl
  | cons e rows ih =>
      by_cases he : e.origin.rank < r
      · have htally : tally (e :: rows) (fun k => k.rank < r) =
            tally rows (fun k => k.rank < r) + 1 := by
          simp [tally, he]
        have hnot : ¬ r ≤ e.origin.rank := by omega
        rw [htally, ih (List.pairwise_cons.mp h).2, List.findIdx_cons, decide_eq_false hnot]
        rfl
      · have hzero : tally (e :: rows) (fun k => k.rank < r) = 0 := by
          apply Nat.eq_zero_of_not_pos
          intro hpos
          obtain ⟨e', hp, he'⟩ := (lt_tally_iff h r 0).mp hpos
          cases hp
          exact he he'
        rw [hzero, List.findIdx_cons, decide_eq_true (Nat.not_lt.mp he)]
        rfl

/-- Before the `i`-th row of a group stand exactly `i` rows of the group. -/
theorem countP_take_group {rows : List TableEntry}
    (h : rows.Pairwise fun e e' => e.origin.rank ≤ e'.origin.rank) (k : Kind) {i : Nat}
    (hi : i ≤ (ofRows rows).groupCount k) :
    (rows.take ((ofRows rows).baseOffset k + i)).countP (fun e => e.origin.sameGroup k) = i := by
  induction i with
  | zero =>
      rw [List.countP_eq_zero]
      intro e he hgroup
      obtain ⟨p, hp⟩ := List.mem_iff_getElem?.mp he
      rw [List.getElem?_take] at hp
      split at hp
      next hlt =>
        have hplace := (ofRows_group_iff h k p).mpr ⟨e, hp, hgroup⟩
        omega
      next => cases hp
  | succ i ih =>
      obtain ⟨e, he, hgroup⟩ :=
        (ofRows_group_iff h k ((ofRows rows).baseOffset k + i)).mp (by omega)
      rw [← Nat.add_assoc, List.take_add_one, he, List.countP_append, ih (by omega)]
      simp [hgroup]

/-- A kind is out of sequence after exactly the rows of later groups. -/
theorem ofRows_sequenceNotices (rows : List TableEntry) (k : Kind) :
    (ofRows rows).sequenceNotices k =
      if ∃ e ∈ rows, k.rank < e.origin.rank then [.outOfSequence k] else [] := by
  unfold sequenceNotices
  rw [ofRows_highestRank?]
  cases h : (rows.map fun e => e.origin.rank).max? with
  | none =>
      have hnil : rows = [] := by simpa using h
      simp [hnil]
  | some r =>
      obtain ⟨hmem, hmax⟩ := List.max?_eq_some_iff.mp h
      obtain ⟨e, he, rfl⟩ := List.mem_map.mp hmem
      have hiff : k.rank < e.origin.rank ↔ ∃ e ∈ rows, k.rank < e.origin.rank :=
        ⟨fun hlt => ⟨e, he, hlt⟩, fun ⟨e', he', hlt⟩ =>
          Nat.lt_of_lt_of_le hlt (hmax _ (List.mem_map_of_mem he'))⟩
      simp only [hiff]

end NodeTable

end RigNodes
