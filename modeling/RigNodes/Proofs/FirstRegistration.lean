import RigNodes.Proofs.Histories
import RigNodes.Proofs.Table.Consistency

/-! The first registration of an id stands. Whatever is registered and looked up afterwards, entries
stay where they are and the indexes lead where they led. An id that is taken is refused, and nothing
but a message tells that it was tried. -/
namespace RigNodes

/-- The number or the name that a request wants registered. -/
def Request.id? : Request → Option NodeRef
  | registerNumber n => some (.number n)
  | registerName x => some (.name x)
  | _ => none

/-- Whether a node of the table has an id. -/
def NodeTable.holds (t : NodeTable) (id : NodeRef) : Bool :=
  t.entries.any fun e => e.userId == some id

theorem Request.isAuthored_of_id? {q : Request} {id : NodeRef} (h : q.id? = some id) :
    id.isAuthored = true := by
  cases q <;> cases h <;> rfl

theorem Request.clears_of_id? {q : Request} {id : NodeRef} (h : q.id? = some id) :
    q.clears = false := by
  cases q <;> cases h <;> rfl

namespace NodeTable
variable {t t' : NodeTable}

/-- What is noticed about a number or a name, in sequence or not. -/
theorem define_notices_authored (t : NodeTable) (k : Kind) {id : NodeRef} (hid : id.isAuthored) :
    (t.define k id).notices = t.sequenceNotices (id.row k).origin ++ t.defineNotices id := by
  cases id with
  | number n =>
      cases h : t.findNumber? n <;>
        simp [define, registerNumber, pushNumber, defineNotices, NodeRef.row, h]
  | name x =>
      cases h : t.findName? x <;>
        simp [define, registerName, pushName, defineNotices, NodeRef.row, h]
  | slot s => cases hid
  | unresolved => cases hid

/-- An id that is taken is an error, which names the first node. -/
theorem defineNotices_of_find? {id : NodeRef} {p : Nat} (h : t.find? id = some p) :
    ∃ n, t.defineNotices id = [n] ∧ n.severity = .error := by
  cases id with
  | number n =>
      have hn : t.findNumber? n = some p := h
      exact ⟨.duplicateNumber n p, by simp [defineNotices, hn], rfl⟩
  | name x =>
      have hx : t.findName? x = some p := h
      exact ⟨.duplicateName x p, by simp [defineNotices, hx], rfl⟩
  | slot s => cases h
  | unresolved => cases h

theorem eq_outOfSequence {k : Kind} {n : Notice} (hn : n ∈ t.sequenceNotices k) :
    n = .outOfSequence k := by
  unfold sequenceNotices at hn
  split at hn
  · split at hn
    · exact List.mem_singleton.mp hn
    · cases hn
  · cases hn

/-- The nodes with an id are found through the indexes, and no others. -/
theorem holds_eq (hsound : t.Sound) (hcomplete : t.Complete) {id : NodeRef} (hid : id.isAuthored) :
    t.holds id = (t.find? id).isSome := by
  rw [Bool.eq_iff_iff, holds, Array.any_eq_true, Option.isSome_iff_exists]
  constructor
  · rintro ⟨p, hp, he⟩
    exact ⟨p, hcomplete.found (Array.getElem?_eq_getElem hp) (eq_of_beq he) hid⟩
  · rintro ⟨p, hp⟩
    obtain ⟨hlt, hrow⟩ := Array.getElem?_eq_some_iff.mp (hsound.found id hp)
    exact ⟨p, hlt, by rw [hrow]; exact beq_self_eq_true _⟩

/-- In a table that goes on from another one, an id stands where it stood. -/
theorem find?_of_prefix (hsound : t.Sound) (hcomplete : t'.Complete)
    (h : t.entries.toList <+: t'.entries.toList) {id : NodeRef} {p : Nat}
    (hp : t.find? id = some p) : t'.find? id = some p := by
  have hid : id.isAuthored := by
    cases hid : id.isAuthored with
    | true => rfl
    | false =>
        rw [find?_eq_none t hid] at hp
        cases hp
  have hrow := hsound.found id hp
  have hlt : p < t.entries.toList.length := by
    rw [Array.length_toList]
    exact lt_size_of_get? hrow
  obtain ⟨rows, hrows⟩ := h
  have hlater : t'.get? p = some (id.row .numbered) := by
    rw [← hrow, get?, get?, ← Array.getElem?_toList, ← Array.getElem?_toList, ← hrows,
      List.getElem?_append_left hlt]
  exact hcomplete.found hlater rfl hid

end NodeTable

namespace Scope
variable {s : Scope}

theorem value_of_find? {x : NodeRef} {p : Nat} (h : s.table.find? x = some p) :
    s.value x = .slot (.ofPosition p) :=
  congrArg Resolved.value (s.resolve_of_find? h)

/-- Without the legacy option a number or a name becomes a slot through the indexes alone. -/
theorem find?_of_value (hlegacy : s.legacy = false) {x : NodeRef} (hx : x.isAuthored) {a : Slot}
    (h : s.value x = .slot a) : ∃ p, s.table.find? x = some p ∧ a = .ofPosition p := by
  have hposition : s.position? x = s.table.find? x := by
    cases x with
    | number n =>
        have hnone : s.legacyPosition? n = none := by simp [legacyPosition?, hlegacy]
        simp [position?, NodeTable.find?, hnone]
    | _ => rfl
  rw [value_authored s hx, hposition] at h
  cases hp : s.table.find? x with
  | none =>
      rw [hp] at h
      cases h
  | some p =>
      rw [hp] at h
      exact ⟨p, rfl, (NodeRef.slot.inj h).symm⟩

end Scope

namespace Resolver
variable {r : Resolver}

theorem replay_append (r : Resolver) (qs qs' : List Request) :
    r.replay (qs ++ qs') = (r.replay qs).replay qs' := by
  induction qs generalizing r with
  | nil => rfl
  | cons q qs ih => exact ih _

theorem Reachable.replay (h : r.Reachable) (qs : List Request) : (r.replay qs).Reachable := by
  obtain ⟨o, before, rfl⟩ := h
  exact ⟨o, before ++ qs, replay_append _ _ _⟩

/-- In a state that can be reached, the table and its indexes speak of the same nodes. -/
theorem Reachable.table_agrees (h : r.Reachable) : r.table.Sound ∧ r.table.Complete := by
  obtain ⟨o, qs, rfl⟩ := h
  have hnew : ∀ t ∈ (new o).tables, t.Sound ∧ t.Complete := by
    intro t ht
    rw [List.mem_singleton.mp ht]
    exact ⟨NodeTable.sound_empty, NodeTable.complete_empty⟩
  exact replay_preserves (P := fun r => ∀ t ∈ r.tables, t.Sound ∧ t.Complete)
    answer_sound_complete hnew qs _ List.mem_cons_self

theorem Grows.entries_prefix {r' : Resolver} (h : r.Grows r') :
    r.table.entries.toList <+: r'.table.entries.toList := by
  obtain ⟨k, t, added, fs, rfl, rows, rfl, -⟩ := h
  change _ <+: (rows.foldl NodeTable.enter r.table).entries.toList
  rw [NodeTable.enterAll_entries, Array.toList_append]
  exact List.prefix_append _ _

theorem Grows.options {r' : Resolver} (h : r.Grows r') : r'.options = r.options := by
  obtain ⟨k, t, added, fs, rfl, -⟩ := h
  rfl

/-- As long as the table is not given up, entries are only added to it. -/
theorem replay_kept {qs : List Request} (hqs : ∀ q ∈ qs, q.clears = false) :
    r.table.entries.toList <+: (r.replay qs).table.entries.toList ∧
      (r.replay qs).options = r.options := by
  induction qs generalizing r with
  | nil => exact ⟨List.prefix_rfl, rfl⟩
  | cons q qs ih =>
      obtain ⟨hq, hqs⟩ := List.forall_mem_cons.mp hqs
      have hgrown := r.answer_grows hq
      obtain ⟨hentries, hoptions⟩ := @ih (r.answer q).1 hqs
      exact ⟨hgrown.entries_prefix.trans hentries, hoptions.trans hgrown.options⟩

theorem resolve_value (h : r.options.enabled = true) (x : NodeRef) :
    (r.resolve x).2 = r.scope.value x := by
  rw [resolve_absorb h]

/-- Numbers and names are registered in one way. -/
theorem answer_register (h : r.options.enabled = true) {q : Request} {id : NodeRef}
    (hq : q.id? = some id) :
    r.answer q =
      (r.take (id.row .numbered).origin (r.table.define .numbered id),
        .accepted (r.table.define .numbered id).result.isSome) := by
  cases q with
  | registerNumber n =>
      cases hq
      simp only [answer, registerNumber, if_pos h]
      rfl
  | registerName x =>
      cases hq
      simp only [answer, registerName, if_pos h]
      rfl
  | _ => cases hq

/-- What requests leave in place that do not give up the table: entries and indexes, and without the
legacy option every answer to a number or a name that was found. -/
structure Endures (r r' : Resolver) : Prop where
  entries : r.table.entries.toList <+: r'.table.entries.toList
  number {n : UInt32} {p : Nat} : r.table.findNumber? n = some p → r'.table.findNumber? n = some p
  name {x : String} {p : Nat} : r.table.findName? x = some p → r'.table.findName? x = some p
  resolved (hlegacy : r.options.legacy = false) {x : NodeRef} (hx : x.isAuthored) {a : Slot} :
    (r.resolve x).2 = .slot a → (r'.resolve x).2 = .slot a

/-- A registration of an id that the node at `first` has. Nothing is changed, there is one more error,
and the id goes on leading to that node. -/
structure Refuses (r : Resolver) (q : Request) (id : NodeRef) (first : Nat) : Prop where
  held : r.table.find? id = some first ∧ r.table.get? first = some (id.row .numbered)
  table : (r.answer q).1.table = r.table
  errors : (r.answer q).1.diagnostics.errorCount = r.diagnostics.errorCount + 1
  said : ∃ early notice, (r.answer q).1 = r.emit (early ++ [⟨some .nodes, notice⟩]) ∧
    (∀ f ∈ early, f.notice.severity = .warning) ∧ r.table.defineNotices id = [notice]
  later {qs : List Request} (hqs : ∀ q' ∈ qs, q'.clears = false) :
    (((r.answer q).1.replay qs).resolve id).2 = .slot (.ofPosition first)

/-- The answer to the registration of an id: it is accepted exactly if no node of the table has it,
and is then that of a new node at the end. -/
structure Decides (r : Resolver) (q : Request) (id : NodeRef) : Prop where
  reply : (r.answer q).2 = .accepted (!r.table.holds id)
  appended (h : r.table.holds id = false) :
    (r.answer q).1.table.entries = r.table.entries.push (id.row .numbered) ∧
      (r.answer q).1.table.find? id = some r.table.size
  refused (h : r.table.holds id = true) : ∃ first, r.Refuses q id first

theorem Reachable.endures (h : r.Reachable) (henabled : r.options.enabled = true)
    {qs : List Request} (hqs : ∀ q ∈ qs, q.clears = false) : r.Endures (r.replay qs) := by
  obtain ⟨hentries, hoptions⟩ := replay_kept (r := r) hqs
  have hfind : ∀ {id : NodeRef} {p : Nat}, r.table.find? id = some p →
      (r.replay qs).table.find? id = some p :=
    fun hp => NodeTable.find?_of_prefix h.table_agrees.1 (h.replay qs).table_agrees.2 hentries hp
  refine ⟨hentries, fun {n p} => @hfind (.number n) p, fun {x p} => @hfind (.name x) p, ?resolved⟩
  case resolved =>
    intro hlegacy x hx a ha
    rw [resolve_value henabled] at ha
    obtain ⟨p, hp, rfl⟩ := Scope.find?_of_value (s := r.scope) hlegacy hx ha
    rw [resolve_value (hoptions ▸ henabled)]
    exact Scope.value_of_find? (s := (r.replay qs).scope) (hfind hp)

/-- Messages are counted as they come. -/
theorem countOf_emit (r : Resolver) (fs : List Finding) (p : Severity → Bool) :
    (r.emit fs).diagnostics.countOf p =
      r.diagnostics.countOf p + fs.countP fun f => p f.notice.severity := by
  rw [Diagnostics.countOf, Diagnostics.countOf, ← Array.countP_toList, ← Array.countP_toList,
    messages_emit, List.countP_append, List.countP_map]
  rfl

theorem Reachable.refuses (h : r.Reachable) (henabled : r.options.enabled = true) {q : Request}
    {id : NodeRef} (hq : q.id? = some id) {first : Nat} (hfirst : r.table.find? id = some first) :
    r.Refuses q id first := by
  have hid := Request.isAuthored_of_id? hq
  obtain ⟨hsound, -⟩ := h.table_agrees
  obtain ⟨notice, hnotice, herror⟩ := NodeTable.defineNotices_of_find? hfirst
  have hkeyword : (id.row .numbered).origin.keyword = .nodes := by
    cases id <;> rfl
  have hsame : (r.table.define .numbered id).table = r.table := by
    rw [NodeTable.define_table, NodeTable.admits, if_pos hid, hfirst]
    rfl
  let early := (r.table.sequenceNotices (id.row .numbered).origin).map fun n =>
    (⟨some .nodes, n⟩ : Finding)
  have hearly : ∀ f ∈ early, f.notice.severity = .warning := by
    intro f hf
    obtain ⟨n, hn, rfl⟩ := List.mem_map.mp hf
    rw [NodeTable.eq_outOfSequence hn]
    rfl
  have hstate : (r.answer q).1 = r.emit (early ++ [⟨some .nodes, notice⟩]) := by
    rw [answer_register henabled hq, take, hsame, NodeTable.define_notices_authored _ _ hid,
      hnotice, hkeyword, List.map_append]
    rfl
  refine ⟨⟨hfirst, hsound.found id hfirst⟩, ?table, ?errors, ⟨early, notice, hstate, hearly,
    hnotice⟩, ?later⟩
  case table => rw [hstate, emit]
  case errors =>
    have hwarned : early.countP (fun f => f.notice.severity == .error) = 0 := by
      apply List.countP_eq_zero.mpr
      intro f hf
      rw [hearly f hf]
      decide
    rw [hstate, Diagnostics.errorCount_eq, Diagnostics.errorCount_eq, countOf_emit,
      List.countP_append, hwarned]
    simp [herror]
  case later =>
    intro qs hqs
    have hqs' : ∀ q' ∈ q :: qs, q'.clears = false :=
      List.forall_mem_cons.mpr ⟨Request.clears_of_id? hq, hqs⟩
    obtain ⟨hentries, hoptions⟩ := replay_kept (r := r) hqs'
    have hlater : (r.replay (q :: qs)).table.find? id = some first :=
      NodeTable.find?_of_prefix hsound (h.replay (q :: qs)).table_agrees.2 hentries hfirst
    have henabled' : (r.replay (q :: qs)).options.enabled = true := hoptions ▸ henabled
    exact (resolve_value henabled' id).trans (Scope.value_of_find? hlater)

theorem Reachable.decides (h : r.Reachable) (henabled : r.options.enabled = true) {q : Request}
    {id : NodeRef} (hq : q.id? = some id) : r.Decides q id := by
  have hid := Request.isAuthored_of_id? hq
  obtain ⟨hsound, hcomplete⟩ := h.table_agrees
  have hholds := NodeTable.holds_eq hsound hcomplete hid
  have hanswer := answer_register henabled hq
  have hadmits : r.table.admits id = !r.table.holds id := by
    rw [NodeTable.admits, if_pos hid, hholds, Option.not_isSome]
  have htable : (r.answer q).1.table =
      if r.table.holds id then r.table else r.table.enter (id.row .numbered) := by
    have hdefine : (r.answer q).1.table = (r.table.define .numbered id).table := by
      rw [hanswer]
      rfl
    rw [hdefine, NodeTable.define_table, hadmits]
    cases r.table.holds id <;> rfl
  refine ⟨?reply, ?appended, ?refused⟩
  case reply =>
    rw [hanswer, NodeTable.define_result, hadmits]
    cases r.table.holds id <;> rfl
  case appended =>
    intro hfree
    rw [htable, hfree]
    exact ⟨rfl, (NodeTable.enter_find? r.table _ hid).trans (if_pos rfl)⟩
  case refused =>
    intro htaken
    obtain ⟨first, hfirst⟩ := Option.isSome_iff_exists.mp (hholds ▸ htaken)
    exact ⟨first, h.refuses henabled hq hfirst⟩

/-- The first registration of an id stands, and what it was handed is never taken back. -/
theorem first_registration_stands (h : r.Reachable) (henabled : r.options.enabled = true) :
    (∀ (q : Request) (id : NodeRef), q.id? = some id → r.Decides q id) ∧
      ∀ qs : List Request, (∀ q ∈ qs, q.clears = false) → r.Endures (r.replay qs) :=
  ⟨fun _ _ hq => h.decides henabled hq, fun _ hqs => h.endures henabled hqs⟩

/-- After a document has been processed, one of its names is tried again, and a number is new. -/
theorem first_registration_stands_doubled :
    let r := (new ⟨true, false⟩).replay [.process ⟨"", [.doubled]⟩]
    let r' := r.replay [.registerNumber 9, .registerWheel .wheels2 1 true, .registerName "hub"]
    r.Decides (.registerName "hub") (.name "hub") ∧ r.table.holds (.name "hub") = true ∧
      r.Decides (.registerNumber 9) (.number 9) ∧ r.table.holds (.number 9) = false ∧
      r.Endures r' ∧ r.table.size = 5 ∧ r'.table.size = 10 ∧
      (r'.resolve (.name "hub")).2 = .slot ⟨2⟩ ∧ r'.diagnostics.errorCount = 5 := by
  intro r r'
  obtain ⟨hdecides, hendures⟩ := first_registration_stands (r := r) ⟨_, _, rfl⟩ (by decide +kernel)
  exact ⟨hdecides _ _ rfl, by decide +kernel, hdecides _ _ rfl, by decide +kernel,
    hendures _ (by decide), by decide +kernel, by decide +kernel, by decide +kernel,
    by decide +kernel⟩

end Resolver

end RigNodes
