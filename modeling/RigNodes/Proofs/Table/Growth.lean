import RigNodes.Proofs.Table.Registration

/-! Tables in the making. Whatever is registered, a table stays what its entries say it is, and a
registration that comes too late for the canonical order tells so. -/
namespace RigNodes

namespace NodeTable

/-- A table with the indexes and counts of its entries, as if they were entered one by one. -/
def Filled (t : NodeTable) : Prop :=
  t = (ofRows t.entries.toList).setLegacyOrder t.legacyOrder

/-- A table whose entries stand in canonical order. -/
def Sorted (t : NodeTable) : Prop :=
  t.entries.toList.Pairwise fun e e' => e.origin.rank ≤ e'.origin.rank

instance (t : NodeTable) : Decidable t.Sorted :=
  inferInstanceAs (Decidable (List.Pairwise _ t.entries.toList))

theorem filled_ofRows (rows : List TableEntry) (order : Array Nat) :
    ((ofRows rows).setLegacyOrder order).Filled := by
  have hentries : ((ofRows rows).setLegacyOrder order).entries.toList = rows := by
    simp [setLegacyOrder]
  unfold Filled
  rw [hentries]
  rfl

theorem filled_empty : empty.Filled := filled_ofRows [] #[]

theorem sorted_empty : empty.Sorted := List.Pairwise.nil

theorem enterAll_setLegacyOrder (t : NodeTable) (order : Array Nat) (rows : List TableEntry) :
    rows.foldl enter (t.setLegacyOrder order) = (rows.foldl enter t).setLegacyOrder order := by
  induction rows generalizing t with
  | nil => rfl
  | cons e rows ih => exact ih (t.enter e)

/-- `t'` is `t` with rows of a kind. If there are any, it is not kept back that they are out of
sequence. -/
def Appends (t : NodeTable) (k : Kind) (t' : NodeTable) (noticed : List Notice) : Prop :=
  ∃ rows : List TableEntry, t' = rows.foldl enter t ∧
    ∀ e ∈ rows, e.origin = k ∧ t.sequenceNotices k ⊆ noticed

theorem appends_refl (t : NodeTable) (k : Kind) (noticed : List Notice) : t.Appends k t noticed :=
  ⟨[], rfl, fun _ he => absurd he List.not_mem_nil⟩

theorem registerNumber_appends (t : NodeTable) (n : UInt32) :
    t.Appends .numbered (t.registerNumber n).table (t.registerNumber n).notices := by
  cases h : t.findNumber? n with
  | none =>
      refine ⟨[⟨.numbered, none, some (.number n), 0⟩], ?_, ?_⟩
      · simp only [registerNumber, pushNumber, h]
        rfl
      · intro e he
        rw [List.mem_singleton.mp he]
        simp [registerNumber, pushNumber, h]
  | some p =>
      have htable : (t.registerNumber n).table = t := by simp [registerNumber, pushNumber, h]
      rw [htable]
      exact t.appends_refl .numbered _

theorem registerName_appends (t : NodeTable) (x : String) :
    t.Appends .named (t.registerName x).table (t.registerName x).notices := by
  cases h : t.findName? x with
  | none =>
      refine ⟨[⟨.named, none, some (.name x), 0⟩], ?_, ?_⟩
      · simp only [registerName, pushName, h]
        rfl
      · intro e he
        rw [List.mem_singleton.mp he]
        simp [registerName, pushName, h]
  | some p =>
      have htable : (t.registerName x).table = t := by simp [registerName, pushName, h]
      rw [htable]
      exact t.appends_refl .named _

theorem registerGenerated_appends (t : NodeTable) (k : Kind) (role : Option Role) :
    t.Appends k (t.registerGenerated k role).table (t.registerGenerated k role).notices := by
  refine ⟨[⟨k, role, none, 0⟩], t.pushGenerated_eq_enter k role 0, ?_⟩
  intro e he
  rw [List.mem_singleton.mp he]
  exact ⟨rfl, List.Subset.refl _⟩

theorem registerWheel_appends (t : NodeTable) (k : Kind) (rays : UInt32) :
    t.Appends k (t.registerWheel k rays).table (t.registerWheel k rays).notices := by
  cases h : k.nodesPerRay? with
  | none =>
      have htable : (t.registerWheel k rays).table = t := by simp [registerWheel, h]
      rw [htable]
      exact t.appends_refl k _
  | some n =>
      rw [t.registerWheel_eq h rays false]
      refine ⟨_, rfl, ?_⟩
      intro e he
      obtain ⟨i, -, rfl⟩ := List.mem_map.mp he
      exact ⟨k.wheelRow_origin _ i, List.Subset.refl _⟩

variable {t t' : NodeTable} {k : Kind} {noticed : List Notice}

theorem Appends.filled (ht : t.Appends k t' noticed) (h : t.Filled) : t'.Filled := by
  obtain ⟨rows, htable, -⟩ := ht
  rw [htable, h, enterAll_setLegacyOrder, ← ofRows_append]
  exact filled_ofRows _ _

/-- Rows that are entered in sequence leave the table in canonical order. -/
theorem Appends.sorted (ht : t.Appends k t' noticed) (hfilled : t.Filled) (h : t.Sorted)
    (hquiet : .outOfSequence k ∉ noticed) : t'.Sorted := by
  obtain ⟨rows, htable, hrows⟩ := ht
  have hsequence : t.sequenceNotices k = (ofRows t.entries.toList).sequenceNotices k :=
    congrArg (fun t => t.sequenceNotices k) hfilled
  unfold Sorted
  rw [htable, enterAll_entries, Array.toList_append, List.pairwise_append]
  refine ⟨h, ?_, ?_⟩
  · apply List.pairwise_of_forall_mem_list
    intro e he e' he'
    rw [(hrows e he).1, (hrows e' he').1]
  · intro e he e' he'
    obtain ⟨hkind, hnotices⟩ := hrows e' he'
    rw [hkind, ← Nat.not_lt]
    intro hlt
    apply hquiet
    apply hnotices
    rw [hsequence, ofRows_sequenceNotices, if_pos ⟨e, he, hlt⟩]
    exact List.mem_singleton_self _

end NodeTable

end RigNodes
