import RigNodes.Proofs.FirstRegistration
import RigNodes.Proofs.OutOfSequence.Notices

/-! What one request is told about the sequence. The place of a kind is checked before it is known
whether a node of it will be entered, so that a refused id and a wheel without rays are warned about
as well. The warning tells that a registration was tried out of sequence; the table is out of order
only if one of these has entered nodes. -/
namespace RigNodes

/-- The kind whose place is checked for a request. A kind that makes no wheels is refused before. -/
def Request.kind? : Request → Option Kind
  | registerNumber _ => some .numbered
  | registerName _ => some .named
  | registerGenerated k _ => some k
  | registerWheel k _ _ => if k.nodesPerRay?.isSome then some k else none
  | _ => none

namespace NodeTable
variable {t : NodeTable} {k : Kind}

theorem Filled.sequenceNotices (h : t.Filled) (k : Kind) :
    t.sequenceNotices k =
      if ∃ e ∈ t.entries.toList, k.rank < e.origin.rank then [.outOfSequence k] else [] := by
  have hrows : t.sequenceNotices k = (ofRows t.entries.toList).sequenceNotices k :=
    congrArg (fun t => t.sequenceNotices k) h
  rw [hrows, ofRows_sequenceNotices]

/-- Rows of one kind keep a table in order, if there are none or none of a later group was there. -/
theorem sorted_enterAll_iff (t : NodeTable) {rows : List TableEntry}
    (hrows : ∀ e ∈ rows, e.origin = k) :
    (rows.foldl enter t).Sorted ↔
      t.Sorted ∧ (rows = [] ∨ ¬ ∃ e ∈ t.entries.toList, k.rank < e.origin.rank) := by
  have hown : rows.Pairwise fun e e' => e.origin.rank ≤ e'.origin.rank := by
    apply List.pairwise_of_forall_mem_list
    intro e he e' he'
    rw [hrows e he, hrows e' he']
  unfold Sorted
  rw [enterAll_entries, Array.toList_append, List.pairwise_append]
  constructor
  · rintro ⟨hsorted, -, hacross⟩
    refine ⟨hsorted, or_iff_not_imp_left.mpr ?_⟩
    rintro hne ⟨e, he, hlt⟩
    obtain ⟨e', he'⟩ := List.exists_mem_of_ne_nil rows hne
    have hle := hacross e he e' he'
    rw [hrows e' he'] at hle
    omega
  · rintro ⟨hsorted, hkept⟩
    refine ⟨hsorted, hown, ?_⟩
    intro e he e' he'
    rcases hkept with rfl | hkept
    · cases he'
    · rw [hrows e' he']
      exact Nat.le_of_not_lt fun hlt => hkept ⟨e, he, hlt⟩

end NodeTable

namespace Resolver
variable {r : Resolver} {q : Request} {k : Kind}

/-- A registration of a kind after a node of a later group. -/
def Late (r : Resolver) (q : Request) : Prop :=
  r.options.enabled = true ∧ ∃ k, q.kind? = some k ∧
    ∃ e ∈ r.table.entries.toList, k.rank < e.origin.rank

def Appends (r : Resolver) (q : Request) : Prop := r.table.size < (r.answer q).1.table.size

/-- A registration that enters nothing: of an id that is taken, or of a wheel without rays. -/
def Barren (r : Resolver) (q : Request) : Prop :=
  (∃ id p, q.id? = some id ∧ r.table.find? id = some p) ∨ ∃ k rigid, q = .registerWheel k 0 rigid

/-- What a request is told about the sequence. -/
def warnings (r : Resolver) (q : Request) : List Message :=
  ((r.answer q).1.messagesFrom r.diagnostics.messages.size).filter Message.isOutOfSequence

/-- What a registration of a kind does: rows of this kind are entered, and its place is spoken of
before anything else. -/
structure Registers (r : Resolver) (q : Request) (k : Kind) (rows : List TableEntry) : Prop where
  state : ∃ added extra, (r.answer q).1 =
      { r with table := rows.foldl NodeTable.enter r.table, stats := r.stats + added }.emit
        ((r.table.sequenceNotices k ++ extra).map fun n => ⟨some k.keyword, n⟩) ∧
    ∀ n ∈ extra, n.isLate = false
  origin : ∀ e ∈ rows, e.origin = k
  barren : rows = [] ↔ r.Barren q

theorem registers_id (h : r.options.enabled = true) (id : NodeRef) (hq : q.id? = some id) :
    r.Registers q (id.row .numbered).origin
      (if r.table.admits id then [id.row .numbered] else []) := by
  have hid := Request.isAuthored_of_id? hq
  refine ⟨⟨0, r.table.defineNotices id, ?state, r.table.defineNotices_isLate id⟩, ?origin,
    ?barren⟩
  case state =>
    rw [answer_register h hq, take, NodeTable.define_table,
      NodeTable.define_notices_authored _ _ hid, add_zero]
    cases r.table.admits id <;> rfl
  case origin =>
    intro e he
    split at he
    · rw [List.mem_singleton.mp he]
    · cases he
  case barren =>
    have hwheel : ¬ ∃ k rigid, q = .registerWheel k 0 rigid := by
      rintro ⟨k, rigid, rfl⟩
      cases hq
    rw [Barren, or_iff_left hwheel, NodeTable.admits, if_pos hid]
    cases hfind : r.table.find? id with
    | none => simp [hq, hfind]
    | some p => simp [hq, hfind]

theorem registers_generated (h : r.options.enabled = true) (k : Kind) (role : Option Role) :
    r.Registers (.registerGenerated k role) k [⟨k, role, none, 0⟩] := by
  refine ⟨⟨0, [], ?state, by simp⟩, ?origin, ?barren⟩
  case state =>
    simp only [answer, registerGenerated, if_pos h]
    rw [List.append_nil, add_zero, take, NodeTable.registerGenerated]
    simp only [NodeTable.pushGenerated_eq_enter]
    rfl
  case origin =>
    intro e he
    rw [List.mem_singleton.mp he]
  case barren =>
    refine iff_of_false (by simp) ?_
    rintro (⟨id, p, hid, -⟩ | ⟨k, rigid, hq⟩)
    · cases hid
    · cases hq

theorem registers_wheel (h : r.options.enabled = true) {k : Kind} {n : Nat}
    (hk : k.nodesPerRay? = some n) (rays : UInt32) (rigid : Bool) :
    r.Registers (.registerWheel k rays rigid) k ((Production.wheel k rays rigid).rows .wheels) := by
  refine ⟨⟨⟨0, 0, 0, if rigid then 1 else 0⟩, [], ?state, by simp⟩, ?origin, ?barren⟩
  case state =>
    simp only [answer, registerWheel, if_pos h]
    rw [r.table.registerWheel_eq hk rays rigid, List.append_nil]
    rfl
  case origin =>
    intro e he
    obtain ⟨i, -, rfl⟩ := List.mem_map.mp he
    exact k.wheelRow_origin _ i
  case barren =>
    have hid : ¬ ∃ id p, (Request.registerWheel k rays rigid).id? = some id ∧
        r.table.find? id = some p := by
      rintro ⟨id, p, hid, -⟩
      cases hid
    have hpositive : n ≠ 0 := by
      rintro rfl
      cases k <;> cases hk
    have hrays : rays.toNat = 0 ↔ rays = 0 := UInt32.toNat_inj (b := 0)
    rw [Barren, or_iff_right hid, ← List.length_eq_zero_iff, Production.rows_length,
      Production.width, hk, Option.getD_some, Nat.mul_eq_zero, or_iff_left hpositive, hrays]
    constructor
    · rintro rfl
      exact ⟨k, rigid, rfl⟩
    · rintro ⟨k, rigid, hq⟩
      cases hq
      rfl

theorem registers (h : r.options.enabled = true) (hk : q.kind? = some k) :
    ∃ rows, r.Registers q k rows := by
  cases q with
  | registerNumber n =>
      cases hk
      exact ⟨_, registers_id h (.number n) rfl⟩
  | registerName x =>
      cases hk
      exact ⟨_, registers_id h (.name x) rfl⟩
  | registerGenerated j role =>
      cases hk
      exact ⟨_, registers_generated h k role⟩
  | registerWheel j rays rigid =>
      cases hn : j.nodesPerRay? with
      | none => simp [Request.kind?, hn] at hk
      | some n =>
          have hj : j = k := by simpa [Request.kind?, hn] using hk
          subst hj
          exact ⟨_, registers_wheel h hn rays rigid⟩
  | _ => cases hk

/-- `r'` is `r` with something counted and something said, but not about the sequence. -/
def Notes (r r' : Resolver) : Prop :=
  ∃ (added : Stats) (fs : List Finding), r' = { r with stats := r.stats + added }.emit fs ∧
    ∀ f ∈ fs, f.notice.isLate = false

theorem Notes.emit (r : Resolver) {fs : List Finding} (h : ∀ f ∈ fs, f.notice.isLate = false) :
    r.Notes (r.emit fs) :=
  ⟨0, fs, by rw [add_zero], h⟩

theorem Notes.refl (r : Resolver) : r.Notes r := by
  have hnone : ∀ f ∈ ([] : List Finding), f.notice.isLate = false := by simp
  exact .emit r hnone

theorem Notes.absorb {α : Type} (r : Resolver) {o : Resolved α}
    (h : ∀ n ∈ o.notices, n.isLate = false) : r.Notes (r.absorb o) := by
  refine ⟨o.stats, _, rfl, ?_⟩
  intro f hf
  obtain ⟨n, hn, rfl⟩ := List.mem_map.mp hf
  exact h n hn

/-- Any other request that keeps the table leaves it as it is, and says nothing about the sequence. -/
theorem answer_notes (hq : r.options.enabled = true → q.kind? = none) (hclears : q.clears = false) :
    r.Notes (r.answer q).1 := by
  cases henabled : r.options.enabled with
  | false =>
      have hstate : (r.answer q).1 = r := by
        cases q with
        | init _ | beginModule _ | process _ | disable => cases hclears
        | _ =>
            simp [answer, henabled, registerNumber, registerName, registerGenerated, registerWheel,
              resolve, resolveRange, resolveByPosition]
      rw [hstate]
      exact .refl r
  | true =>
      have hkind := hq henabled
      cases q with
      | resolve x =>
          simp only [answer, resolve, if_pos henabled]
          exact .absorb r (r.scope.resolve_isLate x)
      | resolveRange x =>
          simp only [answer, resolveRange, if_pos henabled]
          exact .absorb r (r.scope.resolveRange_isLate x)
      | resolveByPosition j i =>
          simp only [answer, resolveByPosition, if_pos henabled]
          split
          · exact .refl r
          · exact .emit r (by simp [Notice.isLate])
      | registerWheel j rays rigid =>
          have hn : j.nodesPerRay? = none := by simpa [Request.kind?] using hkind
          simp only [answer, registerWheel, if_pos henabled, NodeTable.registerWheel, hn]
          exact .emit r (by simp [Notice.isLate])
      | init _ | beginModule _ | process _ | disable => cases hclears
      | _ => cases hkind

theorem messagesFrom_size (r : Resolver) : r.messagesFrom r.diagnostics.messages.size = [] :=
  List.drop_eq_nil_of_le Array.length_toList.le

/-- The messages of a resolver that has grown are those from before and those that were added. -/
theorem Grows.messagesFrom {r' : Resolver} (h : r.Grows r') {n : Nat}
    (hn : n ≤ r.diagnostics.messages.size) :
    r'.messagesFrom n = r.messagesFrom n ++ r'.messagesFrom r.diagnostics.messages.size := by
  obtain ⟨k, t, added, fs, rfl, -⟩ := h
  rw [messagesFrom_emit (r := { r with table := t, stats := r.stats + added }) hn,
    messagesFrom_emit (r := { r with table := t, stats := r.stats + added }) le_rfl]
  exact congrArg (r.messagesFrom n ++ ·) (congrArg (· ++ _) r.messagesFrom_size).symm

theorem warnings_emit {t : NodeTable} {stats : Stats} {fs : List Finding}
    (h : (r.answer q).1 = { r with table := t, stats := stats }.emit fs) :
    r.warnings q = (fs.filter fun f => f.notice.isLate).map (Finding.message r.moduleName) := by
  have hadded : (r.answer q).1.messagesFrom r.diagnostics.messages.size =
      fs.map (Finding.message r.moduleName) := by
    rw [h, messagesFrom_emit (r := { r with table := t, stats := stats }) le_rfl]
    exact congrArg (· ++ _) r.messagesFrom_size
  rw [warnings, hadded, List.filter_map]
  exact congrArg (List.map _) (List.filter_congr fun f _ => f.message_isOutOfSequence _)

theorem Registers.warnings {rows : List TableEntry} (h : r.Registers q k rows) :
    r.warnings q = (r.table.sequenceNotices k).map fun n =>
      Finding.message r.moduleName ⟨some k.keyword, n⟩ := by
  obtain ⟨added, extra, hstate, hextra⟩ := h.state
  have hsequence : (r.table.sequenceNotices k).filter Notice.isLate =
      r.table.sequenceNotices k := by
    apply List.filter_eq_self.mpr
    intro n hn
    rw [NodeTable.eq_outOfSequence hn]
    rfl
  have hquiet : extra.filter Notice.isLate = [] := by
    apply List.filter_eq_nil_iff.mpr
    intro n hn
    simp [hextra n hn]
  have hlate : (r.table.sequenceNotices k ++ extra).filter Notice.isLate =
      r.table.sequenceNotices k := by
    rw [List.filter_append, hsequence, hquiet, List.append_nil]
  rw [warnings_emit hstate, List.filter_map, List.map_map]
  exact congrArg (List.map _) hlate

theorem Notes.warnings (h : r.Notes (r.answer q).1) : r.warnings q = [] := by
  obtain ⟨added, fs, hstate, hquiet⟩ := h
  have hnone : (fs.filter fun f => f.notice.isLate) = [] := by
    apply List.filter_eq_nil_iff.mpr
    intro f hf
    simp [hquiet f hf]
  rw [warnings_emit hstate, hnone, List.map_nil]

/-- Processing a document adds no such warning, from whatever point of it messages are taken. -/
theorem quiet_process (r : Resolver) (d : Document) {n : Nat}
    (hn : r.diagnostics.messages.size ≤ n) :
    ∀ x ∈ (r.process d).1.messagesFrom n, x.isOutOfSequence = false := by
  intro x hx
  rw [messagesFrom] at hx
  have hlength : r.diagnostics.messages.toList.length ≤ n := by rwa [Array.length_toList]
  cases henabled : r.options.enabled with
  | false =>
      have hstate : (r.process d).1 = r := by simp [Resolver.process, henabled]
      rw [hstate, List.drop_eq_nil_of_le hlength] at hx
      cases hx
  | true =>
      rw [process_messages henabled, List.drop_append, List.drop_eq_nil_of_le hlength,
        List.nil_append] at hx
      obtain ⟨m, -, hx⟩ := List.mem_flatMap.mp (List.mem_of_mem_drop hx)
      exact m.messages_isOutOfSequence _ x hx

theorem warnings_clears (hclears : q.clears = true) : r.warnings q = [] := by
  cases q with
  | init enabled =>
      rw [warnings, messagesFrom]
      exact congrArg (List.filter _) List.drop_nil
  | disable => exact congrArg (List.filter _) r.messagesFrom_size
  | beginModule name => exact congrArg (List.filter _) r.messagesFrom_size
  | process d =>
      apply List.filter_eq_nil_iff.mpr
      intro x hx
      exact ne_true_of_eq_false (r.quiet_process d le_rfl x hx)
  | _ => cases hclears

/-- Whether a request gives up the table at hand. A document only does if it has a module. -/
def givesUp (r : Resolver) : Request → Bool
  | .process d => r.options.enabled && !d.modules.isEmpty
  | q => q.clears

theorem answer_kept (hkept : r.givesUp q = false)
    (hq : ¬ (r.options.enabled = true ∧ ∃ k, q.kind? = some k)) : r.Notes (r.answer q).1 := by
  cases hclears : q.clears with
  | false =>
      refine answer_notes (fun henabled => ?_) hclears
      exact Option.eq_none_iff_forall_ne_some.mpr fun k hk => hq ⟨henabled, k, hk⟩
  | true =>
      cases q with
      | process d =>
          have hstate : (r.process d).1 = r := by
            obtain ⟨name, modules⟩ := d
            cases modules <;> simp_all [givesUp, Resolver.process, runs]
          exact hstate.symm ▸ Notes.refl r
      | _ => simp_all [givesUp, Request.clears]

/-- What a request is told about the sequence: a registration out of sequence is warned about, and
nothing else is. It then enters nodes, unless it could not enter any in sequence either. -/
structure Reports (r : Resolver) (q : Request) : Prop where
  late (h : r.Late q) : ∃ k, q.kind? = some k ∧
    r.warnings q = [Finding.message r.moduleName ⟨some k.keyword, .outOfSequence k⟩]
  timely (h : ¬ r.Late q) : r.warnings q = []
  appends (h : r.Late q) : r.Appends q ↔ ¬ r.Barren q
  sorted (h : r.givesUp q = false) : (r.answer q).1.table.Sorted ↔
    r.table.Sorted ∧ ¬ (r.Late q ∧ r.Appends q)

/-- A request is told about the sequence exactly if it is a registration out of it. -/
theorem Reports.warned_iff (h : r.Reports q) :
    (∃ x ∈ (r.answer q).1.messagesFrom r.diagnostics.messages.size, x.isOutOfSequence = true) ↔
      r.Late q := by
  constructor
  · rintro ⟨x, hx, hwarned⟩
    by_contra hq
    exact List.filter_eq_nil_iff.mp (h.timely hq) x hx hwarned
  · intro hq
    obtain ⟨k, -, hwarnings⟩ := h.late hq
    have hmem : Finding.message r.moduleName ⟨some k.keyword, .outOfSequence k⟩ ∈ r.warnings q := by
      rw [hwarnings]
      exact List.mem_singleton_self _
    exact ⟨_, List.mem_filter.mp hmem⟩

theorem Registers.appends {rows : List TableEntry} (h : r.Registers q k rows) :
    r.Appends q ↔ rows ≠ [] := by
  obtain ⟨added, extra, hstate, -⟩ := h.state
  have hsize : (r.answer q).1.table.size = r.table.size + rows.length := by
    rw [hstate]
    change (rows.foldl NodeTable.enter r.table).entries.size = _
    rw [NodeTable.enterAll_entries, Array.size_append, List.size_toArray]
    rfl
  rw [Appends, hsize, ← List.length_pos_iff]
  omega

theorem Registers.reports {rows : List TableEntry} (h : r.Registers q k rows)
    (henabled : r.options.enabled = true) (hk : q.kind? = some k) (hfilled : r.table.Filled) :
    r.Reports q := by
  have hlate : r.Late q ↔ ∃ e ∈ r.table.entries.toList, k.rank < e.origin.rank := by
    simp [Late, henabled, hk]
  refine ⟨?late, ?timely, ?appends, ?sorted⟩
  case late =>
    intro hq
    refine ⟨k, hk, ?_⟩
    rw [h.warnings, hfilled.sequenceNotices, if_pos (hlate.mp hq)]
    rfl
  case timely =>
    intro hq
    rw [h.warnings, hfilled.sequenceNotices, if_neg (hlate.not.mp hq), List.map_nil]
  case appends =>
    intro hq
    rw [h.appends, ne_eq, h.barren]
  case sorted =>
    intro hclears
    obtain ⟨added, extra, hstate, -⟩ := h.state
    have htable : (r.answer q).1.table = rows.foldl NodeTable.enter r.table := by
      rw [hstate]
      rfl
    rw [htable, NodeTable.sorted_enterAll_iff _ h.origin, h.appends, hlate, not_and_or, not_not,
      or_comm]

theorem reports (hfilled : r.table.Filled) (q : Request) : r.Reports q := by
  by_cases hq : r.options.enabled = true ∧ ∃ k, q.kind? = some k
  · obtain ⟨henabled, k, hk⟩ := hq
    obtain ⟨rows, hrows⟩ := registers henabled hk
    exact hrows.reports henabled hk hfilled
  · have hnever : ¬ r.Late q := fun ⟨henabled, k, hk, _⟩ => hq ⟨henabled, k, hk⟩
    refine ⟨fun h => absurd h hnever, fun _ => ?timely, fun h => absurd h hnever, ?sorted⟩
    case timely =>
      cases hclears : q.clears with
      | true => exact warnings_clears hclears
      | false =>
          have hkept : r.givesUp q = false := by cases q <;> first | exact hclears | cases hclears
          exact (answer_kept hkept hq).warnings
    case sorted =>
      intro hkept
      obtain ⟨added, fs, hstate, -⟩ := answer_kept hkept hq
      have htable : (r.answer q).1.table = r.table := by
        rw [hstate]
        rfl
      rw [htable, and_iff_left fun h => hnever h.1]

end Resolver

end RigNodes
