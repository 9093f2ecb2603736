import RigNodes.Proofs.CanonicalTable
import RigNodes.Proofs.Histories

/-! The parts of a table agree. Whatever is done to a table, its counts count its entries and its
indexes lead to the entries they were made for. The converse needs care of the caller, as a row may
be pushed past the indexes; a resolver never pushes a number or a name that way. -/
namespace RigNodes

namespace NodeTable

/-- What can be done to a table. -/
inductive Edit
  | number (n : UInt32)
  | name (x : String)
  | generated (k : Kind) (role : Option Role) (ray : Nat)
  | row (e : TableEntry)
  | order (positions : Array Nat)
  | clear

/-- An id that is taken leaves the table as it is. -/
def edit (t : NodeTable) : Edit → NodeTable
  | .number n =>
    match t.pushNumber n with
    | .ok t' => t'
    | .error _ => t
  | .name x =>
    match t.pushName x with
    | .ok t' => t'
    | .error _ => t
  | .generated k role ray => t.pushGenerated k role ray
  | .row e => t.push e
  | .order positions => t.setLegacyOrder positions
  | .clear => empty

def edits (t : NodeTable) (es : List Edit) : NodeTable := es.foldl edit t

/-- A row with a number or a name that is pushed as it is goes past the indexes. -/
def Edit.files : Edit → Bool
  | .row e => !e.userId.any NodeRef.isAuthored
  | _ => true

/-- The counts and the indexes say nothing that the entries do not say. -/
structure Sound (t : NodeTable) : Prop where
  counts (k : Kind) : t.count k = tally t.entries.toList (· == k)
  found (id : NodeRef) {p : Nat} : t.find? id = some p → t.get? p = some (id.row .numbered)

/-- The indexes lead to every number and name of the entries, and so each of them stands once. -/
structure Complete (t : NodeTable) : Prop where
  found {p : Nat} {e : TableEntry} {id : NodeRef} : t.get? p = some e → e.userId = some id →
    id.isAuthored → t.find? id = some p
  unique {p q : Nat} {e e' : TableEntry} {id : NodeRef} : t.get? p = some e → t.get? q = some e' →
    e.userId = some id → e'.userId = some id → id.isAuthored → p = q

/-- All parts of a table speak of the same entries. -/
structure Consistent (t : NodeTable) : Prop where
  count (k : Kind) : t.count k = t.entries.toList.countP fun e => e.origin == k
  size : (Kind.all.map t.count).sum = t.size
  highestRank : t.highestRank? = (t.entries.toList.map fun e => e.origin.rank).max?
  number {n : UInt32} {p : Nat} : t.findNumber? n = some p →
    p < t.size ∧ t.get? p = some ⟨.numbered, none, some (.number n), 0⟩
  name {x : String} {p : Nat} : t.findName? x = some p →
    p < t.size ∧ t.get? p = some ⟨.named, none, some (.name x), 0⟩
  number_injective {m n : UInt32} {p : Nat} : t.findNumber? m = some p →
    t.findNumber? n = some p → m = n
  name_injective {x y : String} {p : Nat} : t.findName? x = some p → t.findName? y = some p → x = y
  disjoint {n : UInt32} {x : String} {p q : Nat} : t.findNumber? n = some p →
    t.findName? x = some q → p ≠ q

theorem find?_eq_none {id : NodeRef} (t : NodeTable) (h : id.isAuthored = false) :
    t.find? id = none := by
  cases id with
  | number n => cases h
  | name x => cases h
  | slot s => rfl
  | unresolved => rfl

theorem get?_push (t : NodeTable) (e : TableEntry) (p : Nat) :
    (t.push e).get? p = if p = t.size then some e else t.get? p :=
  Array.getElem?_push

theorem tally_concat (rows : List TableEntry) (e : TableEntry) (k : Kind) :
    tally (rows ++ [e]) (· == k) =
      if e.origin = k then tally rows (· == k) + 1 else tally rows (· == k) := by
  rw [tally, tally, List.countP_append]
  by_cases h : e.origin = k <;> simp [h]

variable {t : NodeTable}

theorem lt_size_of_get? {p : Nat} {e : TableEntry} (h : t.get? p = some e) : p < t.size :=
  (Array.getElem?_eq_some_iff.mp h).1

theorem sound_empty : empty.Sound where
  counts k := by
    rw [count, empty, KindCounts.get_zero]
    rfl
  found id p h := by cases id <;> cases h

/-- A row that is pushed as it is makes no index wrong. -/
theorem Sound.push (h : t.Sound) (e : TableEntry) : (t.push e).Sound where
  counts k := by
    have hrows : (t.push e).entries.toList = t.entries.toList ++ [e] := Array.toList_push
    rw [hrows, tally_concat, ← h.counts]
    exact KindCounts.get_add t.counts e.origin k 1
  found id p hp := by
    have hp := h.found id hp
    rw [get?_push, if_neg (lt_size_of_get? hp).ne, hp]

theorem Sound.enter (h : t.Sound) (id : NodeRef) : (t.enter (id.row .numbered)).Sound where
  counts := (h.push (id.row .numbered)).counts
  found id' p hp := by
    cases hid' : id'.isAuthored with
    | false =>
        rw [find?_eq_none _ hid'] at hp
        cases hp
    | true =>
        rw [enter_find? t _ hid'] at hp
        split at hp
        · rename_i hsame
          cases hsame
          cases hp
          exact (t.get?_push _ _).trans (if_pos rfl)
        · have hp := h.found id' hp
          exact (t.get?_push _ _).trans ((if_neg (lt_size_of_get? hp).ne).trans hp)

theorem Complete.of_found (h : ∀ {p : Nat} {e : TableEntry} {id : NodeRef}, t.get? p = some e →
    e.userId = some id → id.isAuthored → t.find? id = some p) : t.Complete where
  found := h
  unique hp hq he he' hid := by
    have hsame := (h hp he hid).symm.trans (h hq he' hid)
    exact Option.some.inj hsame

theorem complete_empty : empty.Complete := .of_found fun h _ _ => by cases h

theorem Complete.push (h : t.Complete) {e : TableEntry}
    (he : ∀ id, e.userId = some id → id.isAuthored = false) : (t.push e).Complete := by
  apply Complete.of_found
  intro p e' id hp he' hid
  rw [get?_push] at hp
  split at hp
  · cases hp
    rw [he id he'] at hid
    cases hid
  · exact h.found hp he' hid

theorem Complete.enter (h : t.Complete) {id : NodeRef} (hfree : t.find? id = none) :
    (t.enter (id.row .numbered)).Complete := by
  apply Complete.of_found
  intro p e' id' hp he' hid'
  have hp : (t.push (id.row .numbered)).get? p = some e' := hp
  rw [get?_push] at hp
  rw [enter_find? t _ hid']
  split at hp
  · rename_i hsize
    cases hp
    rw [if_pos he', hsize]
  · have hp := h.found hp he' hid'
    have hne : (id.row .numbered).userId ≠ some id' := by
      intro hsame
      cases hsame
      rw [hfree] at hp
      cases hp
    rw [if_neg hne, hp]

/-- A number or a name that is free is entered, and one that is taken changes nothing. -/
theorem edit_id {id : NodeRef} (hid : id.isAuthored) {e : Edit}
    (he : t.edit e = (t.define .numbered id).table) :
    t.find? id = none ∧ t.edit e = t.enter (id.row .numbered) ∨ t.edit e = t := by
  rw [he, define_table, admits, if_pos hid]
  cases h : t.find? id with
  | none => exact .inl ⟨rfl, rfl⟩
  | some p => exact .inr rfl

theorem edit_number (t : NodeTable) (n : UInt32) :
    t.edit (.number n) = (t.define .numbered (.number n)).table := by
  simp only [edit, define, registerNumber]
  cases t.pushNumber n <;> rfl

theorem edit_name (t : NodeTable) (x : String) :
    t.edit (.name x) = (t.define .numbered (.name x)).table := by
  simp only [edit, define, registerName]
  cases t.pushName x <;> rfl

/-- One edit keeps the counts and the indexes right. -/
theorem Sound.edit (h : t.Sound) (e : Edit) : (t.edit e).Sound := by
  have hdefine : ∀ id : NodeRef, id.isAuthored → t.edit e = (t.define .numbered id).table →
      (t.edit e).Sound := by
    intro id hid he
    rcases edit_id hid he with ⟨-, hnew⟩ | hold
    · rw [hnew]
      exact h.enter id
    · rw [hold]
      exact h
  cases e with
  | number n => exact hdefine (.number n) rfl (t.edit_number n)
  | name x => exact hdefine (.name x) rfl (t.edit_name x)
  | generated k role ray => exact h.push _
  | row e => exact h.push e
  | order positions => exact ⟨h.counts, h.found⟩
  | clear => exact sound_empty

theorem Sound.edits (h : t.Sound) (es : List Edit) : (t.edits es).Sound := by
  induction es generalizing t with
  | nil => exact h
  | cons e es ih => exact ih (h.edit e)

/-- One edit that goes through the indexes leaves no id out of them. -/
theorem Complete.edit (h : t.Complete) {e : Edit} (he : e.files) : (t.edit e).Complete := by
  have hdefine : ∀ id : NodeRef, id.isAuthored → t.edit e = (t.define .numbered id).table →
      (t.edit e).Complete := by
    intro id hid he
    rcases edit_id hid he with ⟨hfree, hnew⟩ | hold
    · rw [hnew]
      exact h.enter hfree
    · rw [hold]
      exact h
  cases e with
  | number n => exact hdefine (.number n) rfl (t.edit_number n)
  | name x => exact hdefine (.name x) rfl (t.edit_name x)
  | generated k role ray => exact h.push (by simp)
  | row e =>
      have hany : e.userId.any NodeRef.isAuthored = false := by simpa [Edit.files] using he
      refine h.push fun id hid => ?_
      simpa [hid] using hany
  | order positions => exact ⟨h.found, h.unique⟩
  | clear => exact complete_empty

theorem Complete.edits (h : t.Complete) {es : List Edit} (hes : ∀ e ∈ es, e.files) :
    (t.edits es).Complete := by
  induction es generalizing t with
  | nil => exact h
  | cons e es ih =>
      obtain ⟨he, hes⟩ := List.forall_mem_cons.mp hes
      exact ih (h.edit he) hes

theorem Sound.consistent (h : t.Sound) : t.Consistent where
  count := h.counts
  size := by
    have hsum := sum_tally t.entries.toList fun _ => true
    rw [List.filter_true] at hsum
    rw [List.map_congr_left fun k _ => h.counts k, hsum, tally, List.countP_true]
    rfl
  highestRank := highestRank?_of_count h.counts
  number {n p} hp := by
    have hp := h.found (.number n) hp
    exact ⟨lt_size_of_get? hp, hp⟩
  name {x p} hp := by
    have hp := h.found (.name x) hp
    exact ⟨lt_size_of_get? hp, hp⟩
  number_injective {m n p} hm hn := by
    have hm := h.found (.number m) hm
    have hn := h.found (.number n) hn
    rw [hm] at hn
    cases hn
    rfl
  name_injective {x y p} hx hy := by
    have hx := h.found (.name x) hx
    have hy := h.found (.name y) hy
    rw [hx] at hy
    cases hy
    rfl
  disjoint {n x p q} hp hq := by
    rintro rfl
    have hp := h.found (.number n) hp
    have hq := h.found (.name x) hq
    rw [hp] at hq
    cases hq

theorem registerNumber_edits (t : NodeTable) (n : UInt32) :
    (t.registerNumber n).table = t.edits [.number n] := (t.edit_number n).symm

theorem registerName_edits (t : NodeTable) (x : String) :
    (t.registerName x).table = t.edits [.name x] := (t.edit_name x).symm

theorem registerWheel_edits (t : NodeTable) (k : Kind) (rays : UInt32) :
    ∃ es, (∀ e ∈ es, Edit.files e) ∧ (t.registerWheel k rays).table = t.edits es := by
  cases h : k.nodesPerRay? with
  | none =>
      refine ⟨[], by simp, ?_⟩
      simp only [registerWheel, h]
      rfl
  | some n =>
      refine ⟨(wheelNodes n rays.toNat).map fun p => .generated k (some p.1) p.2, ?_, ?_⟩
      · intro e he
        obtain ⟨p, -, rfl⟩ := List.mem_map.mp he
        rfl
      · simp only [registerWheel, h, edits, List.foldl_map]
        rfl

end NodeTable

namespace Module
variable (m : Module)

theorem table_sound : m.table.Sound where
  counts k := by
    rw [m.describes_table.counts, m.describes_table.rows]
    rfl
  found id p hp := by
    have hrow : ∀ k, (retained [] m.definitions)[p]? = some (k, id) → id.isAuthored →
        m.table.get? p = some (id.row .numbered) := by
      intro k hd hid
      have hlt : p < ((retained [] m.definitions).map definedRow).length := by
        simpa using (List.getElem?_eq_some_iff.mp hd).1
      have hauthored : definedRow (k, id) = id.row .numbered := by
        cases id with
        | number n => rfl
        | name x => rfl
        | slot s => cases hid
        | unresolved => cases hid
      rw [NodeTable.get?, ← Array.getElem?_toList, m.describes_table.rows, canonicalRows,
        List.getElem?_append_left hlt, List.getElem?_map, hd, Option.map_some, hauthored]
    cases id with
    | number n =>
        obtain ⟨k, hd⟩ := (m.describes_table.numbers n p).mp hp
        exact hrow k hd rfl
    | name x =>
        obtain ⟨k, hd⟩ := (m.describes_table.names x p).mp hp
        exact hrow k hd rfl
    | slot s => cases hp
    | unresolved => cases hp

theorem table_complete : m.table.Complete := by
  apply NodeTable.Complete.of_found
  intro p e id hp he hid
  rw [NodeTable.get?, ← Array.getElem?_toList, m.describes_table.rows] at hp
  have hd := (m.canonicalRows_userId p id).mp ⟨e, hp, he⟩
  cases id with
  | number n => exact (m.describes_table.numbers n p).mpr hd
  | name x => exact (m.describes_table.names x p).mpr hd
  | slot s => cases hid
  | unresolved => cases hid

end Module

namespace Resolver

/-- The tables that a resolver holds: the one at hand and the finished ones. -/
def tables (r : Resolver) : List NodeTable := r.table :: r.finished.map ModuleTable.table

/-- Where a table comes from that a resolver holds after a request. -/
theorem answer_tables {r : Resolver} {q : Request} {t : NodeTable}
    (ht : t ∈ (r.answer q).1.tables) :
    t ∈ r.tables ∨ (∃ es, (∀ e ∈ es, NodeTable.Edit.files e) ∧ t = r.table.edits es) ∨
      ∃ m : Module, t = m.table := by
  -- Most requests leave the finished tables alone.
  have hedits : ∀ {r' : Resolver} (es : List NodeTable.Edit), t ∈ r'.tables →
      r'.finished = r.finished → (∀ e ∈ es, NodeTable.Edit.files e) →
      r'.table = r.table.edits es →
      t ∈ r.tables ∨ (∃ es, (∀ e ∈ es, NodeTable.Edit.files e) ∧ t = r.table.edits es) ∨
        ∃ m : Module, t = m.table := by
    intro r' es ht hfinished hes htable
    rw [tables, hfinished, htable] at ht
    rcases List.mem_cons.mp ht with rfl | ht
    · exact .inr (.inl ⟨es, hes, rfl⟩)
    · exact .inl (List.mem_cons_of_mem _ ht)
  have hcleared : t = NodeTable.empty → ∃ es, (∀ e ∈ es, NodeTable.Edit.files e) ∧
      t = r.table.edits es := fun h => ⟨[.clear], by simp [NodeTable.Edit.files], h⟩
  cases q with
  | init enabled => exact .inr (.inl (hcleared (List.mem_singleton.mp ht)))
  | disable => exact .inr (.inl (hcleared (List.mem_singleton.mp ht)))
  | beginModule name => exact hedits [.clear] ht rfl (by simp [NodeTable.Edit.files]) rfl
  | registerNumber n =>
      simp only [answer, registerNumber] at ht
      split at ht
      · exact hedits [.number n] ht rfl (by simp [NodeTable.Edit.files])
          (r.table.registerNumber_edits n)
      · exact .inl ht
  | registerName x =>
      simp only [answer, registerName] at ht
      split at ht
      · exact hedits [.name x] ht rfl (by simp [NodeTable.Edit.files])
          (r.table.registerName_edits x)
      · exact .inl ht
  | registerGenerated k role =>
      simp only [answer, registerGenerated] at ht
      split at ht
      · exact hedits [.generated k role 0] ht rfl (by simp [NodeTable.Edit.files]) rfl
      · exact .inl ht
  | registerWheel k rays rigid =>
      obtain ⟨es, hes, htable⟩ := r.table.registerWheel_edits k rays
      simp only [answer, registerWheel] at ht
      split at ht
      · split at ht
        · exact hedits es ht rfl hes htable
        · exact hedits es ht rfl hes htable
      · exact .inl ht
  | resolve x =>
      simp only [answer, resolve] at ht
      split at ht
      · exact .inl ht
      · exact .inl ht
  | resolveRange x =>
      simp only [answer, resolveRange] at ht
      split at ht
      · exact .inl ht
      · exact .inl ht
  | resolveByPosition k i =>
      simp only [answer, resolveByPosition] at ht
      split at ht
      · split at ht
        · exact .inl ht
        · exact .inl ht
      · exact .inl ht
  | process d =>
      cases h : r.options.enabled with
      | false =>
          have hid : (r.answer (.process d)).1 = r := by simp [answer, process, h]
          rw [hid] at ht
          exact .inl ht
      | true =>
          have hrun : t ∈ (r.process d).1.tables := ht
          rw [tables, process_table h, process_finished h, List.mem_cons, List.map_append,
            List.mem_append] at hrun
          rcases hrun with hlast | hold | hnew
          · cases hm : d.modules.getLast? with
            | none =>
                rw [hm] at hlast
                exact .inl (List.mem_cons.mpr (.inl hlast))
            | some m =>
                rw [hm] at hlast
                exact .inr (.inr ⟨m, hlast⟩)
          · exact .inl (List.mem_cons_of_mem _ hold)
          · rw [List.map_map] at hnew
            obtain ⟨m, -, rfl⟩ := List.mem_map.mp hnew
            exact .inr (.inr ⟨m, rfl⟩)

theorem answer_sound_complete (r : Resolver) (q : Request)
    (h : ∀ t ∈ r.tables, t.Sound ∧ t.Complete) :
    ∀ t ∈ (r.answer q).1.tables, t.Sound ∧ t.Complete := by
  intro t ht
  rcases answer_tables ht with ht | ⟨es, hes, rfl⟩ | ⟨m, rfl⟩
  · exact h t ht
  · obtain ⟨hsound, hcomplete⟩ := h r.table List.mem_cons_self
    exact ⟨hsound.edits es, hcomplete.edits hes⟩
  · exact ⟨m.table_sound, m.table_complete⟩

/-- Whatever is done to a table, its parts agree. The tables that a resolver can come to hold are
also complete, so that no number and no name stands in two of their entries. -/
theorem tables_consistent :
    (∀ es : List NodeTable.Edit, (NodeTable.empty.edits es).Consistent) ∧
      ∀ r : Resolver, r.Reachable → ∀ t ∈ r.tables, t.Consistent ∧ t.Complete := by
  constructor
  · intro es
    exact (NodeTable.sound_empty.edits es).consistent
  · rintro r ⟨o, qs, rfl⟩ t ht
    have hnew : ∀ t ∈ (new o).tables, t.Sound ∧ t.Complete := by
      intro t ht
      rw [List.mem_singleton.mp ht]
      exact ⟨NodeTable.sound_empty, NodeTable.complete_empty⟩
    obtain ⟨hsound, hcomplete⟩ := replay_preserves answer_sound_complete hnew qs t ht
    exact ⟨hsound.consistent, hcomplete⟩

/-- A number that is taken, and one that goes past the indexes; then a module of a document that a
resolver processes after registering on its own. -/
theorem tables_consistent_doubled :
    let t := NodeTable.empty.edits [.number 7, .row ⟨.wheels, none, some (.number 4), 3⟩, .number 7]
    let r := (new ⟨true, false⟩).replay
      [.registerNumber 7, .registerNumber 7, .process ⟨"", [.doubled]⟩]
    (t.Consistent ∧ t.size = 2 ∧ t.findNumber? 4 = none) ∧
      r.table.Consistent ∧ r.table.Complete ∧ r.table.findName? "hub" = some 2 := by
  intro t r
  have hheld := tables_consistent.2 r ⟨_, _, rfl⟩ r.table List.mem_cons_self
  exact ⟨⟨tables_consistent.1 _, rfl, rfl⟩, hheld.1, hheld.2, by decide⟩

end Resolver

end RigNodes
