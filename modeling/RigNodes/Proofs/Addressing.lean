import RigNodes.Proofs.Agreement
import RigNodes.Proofs.Histories

/-! Nodes by their place in a group. The place is added to a sum of counts, and no entry is looked
at; that it leads to the right node rests on the order of the table, and the order on there having
been no warning since the table was empty. -/
namespace RigNodes

/-- The warning of a registration that comes too late. -/
def Message.isOutOfSequence (x : Message) : Bool :=
  x.severity == .warning && Kind.all.any fun k => x.text == (Notice.outOfSequence k).text

theorem isOutOfSequence_message (name : String) (keyword : Option Keyword) (k : Kind) :
    (Finding.message name ⟨keyword, .outOfSequence k⟩).isOutOfSequence = true := by
  have hall : k ∈ Kind.all := by cases k <;> decide
  have hany : (Kind.all.any fun j =>
      (Notice.outOfSequence k).text == (Notice.outOfSequence j).text) = true :=
    List.any_eq_true.mpr ⟨k, hall, beq_self_eq_true _⟩
  exact hany

namespace Resolver

/-- How many messages there are when the table is cleared for the last time in a request; as many as
`before`, if it is not cleared. A document clears it for each of its modules. -/
def clearedBy (r : Resolver) (before : Nat) : Request → Nat
  | .init _ => 0
  | .disable | .beginModule _ => r.diagnostics.messages.size
  | .process d =>
    if r.options.enabled && !d.modules.isEmpty then
      (r.process { d with modules := d.modules.dropLast }).1.diagnostics.messages.size
    else before
  | _ => before

/-- How many messages there were when the table that requests leave behind was last cleared. -/
def lastCleared : Resolver → Nat → List Request → Nat
  | _, before, [] => before
  | r, before, q :: rest => (r.answer q).1.lastCleared (r.clearedBy before q) rest

/-- The messages after the first `n`. -/
def messagesFrom (r : Resolver) (n : Nat) : List Message := r.diagnostics.messages.toList.drop n

/-- A table that is what its entries say, and in canonical order unless there was a warning after the
first `n` messages. -/
structure Orderly (r : Resolver) (n : Nat) : Prop where
  filled : r.table.Filled
  cleared : n ≤ r.diagnostics.messages.size
  sorted (h : ∀ x ∈ r.messagesFrom n, x.isOutOfSequence = false) : r.table.Sorted

variable {r : Resolver} {n : Nat}

theorem messagesFrom_emit (hn : n ≤ r.diagnostics.messages.size) (fs : List Finding) :
    (r.emit fs).messagesFrom n = r.messagesFrom n ++ fs.map (Finding.message r.moduleName) := by
  have hn' : n ≤ r.diagnostics.messages.toList.length := by rwa [Array.length_toList]
  rw [messagesFrom, messages_emit, List.drop_append_of_le_length hn']
  rfl

theorem size_emit (r : Resolver) (fs : List Finding) :
    r.diagnostics.messages.size ≤ (r.emit fs).diagnostics.messages.size := by
  rw [← Array.length_toList, ← Array.length_toList, messages_emit, List.length_append]
  exact Nat.le_add_right _ _

theorem Orderly.of_empty (h : r.table = .empty) (hn : n ≤ r.diagnostics.messages.size) :
    r.Orderly n :=
  ⟨h ▸ NodeTable.filled_empty, hn, fun _ => h ▸ NodeTable.sorted_empty⟩

/-- Whatever makes a resolver grow, it says so if it is out of sequence. -/
theorem Orderly.grow {r' : Resolver} (h : r.Orderly n) (hgrown : r.Grows r') : r'.Orderly n := by
  obtain ⟨k, t, added, fs, rfl, hrows⟩ := hgrown
  refine ⟨hrows.filled h.filled, h.cleared.trans (size_emit _ fs), ?_⟩
  intro hquiet
  rw [messagesFrom_emit (r := { r with table := t, stats := r.stats + added }) h.cleared] at hquiet
  refine hrows.sorted h.filled (h.sorted fun x hx => hquiet x (List.mem_append_left _ hx)) ?_
  intro hlate
  obtain ⟨⟨keyword, notice⟩, hf, rfl⟩ := List.mem_map.mp hlate
  have hmessage := hquiet _ (List.mem_append_right _ (List.mem_map_of_mem hf))
  rw [isOutOfSequence_message] at hmessage
  cases hmessage

end Resolver

theorem Module.filled_table (m : Module) : m.table.Filled := NodeTable.filled_ofRows _ _

theorem Module.sorted_table (m : Module) : m.table.Sorted := by
  unfold NodeTable.Sorted
  rw [entries_table]
  exact m.pairwise_tableRows

namespace Resolver
variable {r : Resolver} {n : Nat}

/-- The build pass goes through the groups in order, so that a processed table is in order whatever
was said before. -/
theorem Orderly.process (h : r.Orderly n) (d : Document) :
    (r.process d).1.Orderly (r.clearedBy n (.process d)) := by
  cases henabled : r.options.enabled with
  | false =>
      have hstate : (r.process d).1 = r := by simp [Resolver.process, henabled]
      have hcleared : r.clearedBy n (.process d) = n := by simp [clearedBy, henabled]
      rw [hstate, hcleared]
      exact h
  | true =>
      obtain ⟨x, modules⟩ := d
      rcases List.eq_nil_or_concat' modules with rfl | ⟨ms, m, rfl⟩
      · have hstate : (r.process ⟨x, []⟩).1 = r := by simp [Resolver.process, henabled, runs]
        have hcleared : r.clearedBy n (.process ⟨x, []⟩) = n := by simp [clearedBy]
        rw [hstate, hcleared]
        exact h
      · -- The last module clears the table, when the others have said what they had to say.
        have htable : (r.process ⟨x, ms ++ [m]⟩).1.table = m.table := by
          simp [process_table henabled]
        have hcleared : r.clearedBy n (.process ⟨x, ms ++ [m]⟩) =
            (r.process ⟨x, ms⟩).1.diagnostics.messages.size := by
          simp [clearedBy, henabled]
        have hmessages : (r.process ⟨x, ms ++ [m]⟩).1.diagnostics.messages.toList =
            (r.process ⟨x, ms⟩).1.diagnostics.messages.toList ++
              (m.resolve r.options.legacy).messages := by
          simp [process_messages henabled]
        refine ⟨htable ▸ m.filled_table, ?_, fun _ => htable ▸ m.sorted_table⟩
        rw [hcleared, ← Array.length_toList, ← Array.length_toList, hmessages, List.length_append]
        exact Nat.le_add_right _ _

/-- Whatever is asked, the table stays in order as far as there is no warning. -/
theorem Orderly.answer (h : r.Orderly n) (q : Request) :
    (r.answer q).1.Orderly (r.clearedBy n q) := by
  cases hq : q.clears with
  | false =>
      have hkept : r.clearedBy n q = n := by cases q <;> first | rfl | cases hq
      rw [hkept]
      exact h.grow (r.answer_grows hq)
  | true =>
      cases q with
      | init enabled => exact .of_empty rfl (Nat.zero_le _)
      | disable => exact .of_empty rfl (Nat.le_refl _)
      | beginModule name => exact .of_empty rfl (Nat.le_refl _)
      | process d => exact h.process d
      | _ => cases hq

theorem Orderly.replay (h : r.Orderly n) (qs : List Request) :
    (r.replay qs).Orderly (r.lastCleared n qs) := by
  induction qs generalizing r n with
  | nil => exact h
  | cons q qs ih => exact ih (h.answer q)

/-- Nodes found by their place in a group: every place in the group leads to the node that has this
place there, every place beyond it is an error, and the group begins where a scan of the table finds
it. -/
structure Addresses (r : Resolver) : Prop where
  sorted : r.table.Sorted
  count (k : Kind) :
    r.table.groupCount k = r.table.entries.toList.countP fun e => e.origin.sameGroup k
  within {k : Kind} {i : UInt32} (hi : i.toNat < r.table.groupCount k) : ∃ p e,
    r.resolveByPosition k i = (r, .slot (.ofPosition p)) ∧ r.table.get? p = some e ∧
      e.origin.sameGroup k = true ∧
      (r.table.entries.toList.take p).countP (fun e => e.origin.sameGroup k) = i.toNat ∧
      (r.table.size ≤ 2 ^ 32 → (Slot.ofPosition p).position = p)
  beyond {k : Kind} {i : UInt32} (hi : r.table.groupCount k ≤ i.toNat) : ∃ x : Message,
    x.severity = .error ∧
      r.resolveByPosition k i = ({ r with diagnostics := r.diagnostics.emit x }, .unresolved)
  scan (k : Kind) :
    r.table.baseOffset k = r.table.entries.toList.findIdx fun e => k.rank ≤ e.origin.rank

theorem addresses_of_sorted (h : r.options.enabled = true) (hfilled : r.table.Filled)
    (hsorted : r.table.Sorted) : r.Addresses := by
  -- The table is on both sides of `hfilled`, so that one cannot rewrite with it.
  have hcount : ∀ k, r.table.groupCount k =
      (NodeTable.ofRows r.table.entries.toList).groupCount k := fun k =>
    congrArg (fun t => t.groupCount k) hfilled
  have hoffset : ∀ k, r.table.baseOffset k =
      (NodeTable.ofRows r.table.entries.toList).baseOffset k := fun k =>
    congrArg (fun t => t.baseOffset k) hfilled
  refine ⟨hsorted, ?count, ?within, ?beyond, ?scan⟩
  case count =>
    intro k
    rw [hcount, NodeTable.ofRows_groupCount]
    exact congrArg (List.countP · _) (funext fun e => BEq.comm)
  case within =>
    intro k i hi
    have hplace := (NodeTable.ofRows_group_iff hsorted k (r.table.baseOffset k + i.toNat)).mp
      ⟨by rw [hoffset]; omega, by rw [← hoffset, ← hcount]; omega⟩
    obtain ⟨e, he, hgroup⟩ := hplace
    refine ⟨r.table.baseOffset k + i.toNat, e, ?_, ?_, hgroup, ?_, ?_⟩
    · rw [resolveByPosition, if_pos h, if_pos hi]
    · exact (Array.getElem?_toList).symm.trans he
    · rw [hoffset]
      exact NodeTable.countP_take_group hsorted k (by rw [← hcount]; omega)
    · intro hsize
      have hlt : r.table.baseOffset k + i.toNat < r.table.entries.toList.length :=
        (List.getElem?_eq_some_iff.mp he).1
      rw [Array.length_toList] at hlt
      exact Module.position_ofPosition (hlt.trans_le hsize)
  case beyond =>
    intro k i hi
    refine ⟨Finding.message r.moduleName
      ⟨some k.keyword, .noNodeAtPosition k i (r.table.groupCount k)⟩, rfl, ?_⟩
    rw [resolveByPosition, if_pos h, if_neg (Nat.not_lt.mpr hi)]
    rfl
  case scan =>
    intro k
    rw [hoffset, NodeTable.ofRows_baseOffset]
    exact NodeTable.tally_eq_findIdx hsorted k.rank

/-- As long as nothing was registered out of sequence since the table was last cleared, nodes are
found by their place in a group. -/
theorem replay_addresses {o : Options} {qs : List Request}
    (h : ((new o).replay qs).options.enabled = true)
    (hquiet : ∀ x ∈ ((new o).replay qs).messagesFrom ((new o).lastCleared 0 qs),
      x.isOutOfSequence = false) : ((new o).replay qs).Addresses := by
  have horderly : (new o).Orderly 0 := .of_empty rfl (Nat.zero_le _)
  have hlast := horderly.replay qs
  exact addresses_of_sorted h hlast.filled (hlast.sorted hquiet)

/-- A table that is filled out of sequence, cleared for a module, and filled up in sequence. -/
def furnished : List Request :=
  [.registerWheel .wheels 1 false, .registerNumber 7, .process ⟨"", [.doubled]⟩,
    .resolve (.name "hub"), .registerWheel .flexbodywheels 1 false]

theorem replay_addresses_furnished :
    ((new ⟨true, false⟩).replay furnished).Addresses ∧
      ((new ⟨true, false⟩).replay furnished).diagnostics.messages.any Message.isOutOfSequence ∧
      (((new ⟨true, false⟩).replay furnished).resolveByPosition .named 2).2 = .slot ⟨2⟩ ∧
      (((new ⟨true, false⟩).replay furnished).resolveByPosition .flexbodywheels 3).2 =
        .slot ⟨8⟩ := by
  have h : ((new ⟨true, false⟩).replay furnished).Addresses :=
    replay_addresses (by decide +kernel) (by decide +kernel)
  exact ⟨h, by decide +kernel, by decide +kernel, by decide +kernel⟩

/-- Out of sequence, the first place of a group may hold a node of another one. -/
example :
    (((new ⟨true, false⟩).replay (furnished.take 2)).resolveByPosition .numbered 0).2 = .slot ⟨0⟩ ∧
      ((new ⟨true, false⟩).replay (furnished.take 2)).table.findNumber? 7 = some 2 := by
  decide +kernel

end Resolver

end RigNodes
