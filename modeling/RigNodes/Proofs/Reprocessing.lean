import RigNodes.Proofs.Processed

/-! Processing a document that has been processed. Nothing is replaced and nothing moves; what is
still wrong with the document is said again, once for each place. -/
namespace RigNodes

/-- A reference that leads to no node of a table with so many entries. -/
def NodeRef.isLoose (size : Nat) : NodeRef → Bool
  | .slot x => size ≤ x.position
  | r => r.isUnresolved

/-- A range that has lost an end. -/
def Mention.isBroken : Mention → Bool
  | .ref _ => false
  | .range r => r.start.isUnresolved || r.stop.isUnresolved

/-- What there is to say about a reference that is not a number and not a name. -/
def NodeRef.complaints (size : Nat) : NodeRef → List Notice
  | .slot x => if x.position < size then [] else [.slotOutsideTable x size]
  | _ => [.invalidReference]

def Mention.complaints (size : Nat) : Mention → List Notice
  | .ref r => r.complaints size
  | .range r =>
      r.start.complaints size ++ r.stop.complaints size ++
        if r.isCanonical then [] else [.rangeUnresolved r]

section
variable {r : NodeRef} {x : Mention} (size : Nat)

theorem NodeRef.countP_complaints (hr : r.isAuthored = false) :
    (r.complaints size).countP (fun n => n.severity == .error) = 0 ∧
      (r.complaints size).countP (fun n => n.severity == .warning) =
        if r.isLoose size then 1 else 0 := by
  cases r with
  | slot x =>
      by_cases h : x.position < size
      · have hle : ¬ size ≤ x.position := Nat.not_le.mpr h
        simp [complaints, isLoose, h, hle]
      · have hle : size ≤ x.position := Nat.le_of_not_lt h
        simp [complaints, isLoose, h, hle, Notice.severity]
  | unresolved => exact ⟨rfl, rfl⟩
  | _ => cases hr

variable (hx : ∀ r ∈ x.refs, r.isAuthored = false)
include hx

theorem Mention.countP_error :
    (x.complaints size).countP (fun n => n.severity == .error) =
      [x].countP Mention.isBroken := by
  cases x with
  | ref r => exact (r.countP_complaints size (hx r (by simp [refs]))).1
  | range r =>
      obtain ⟨a, b⟩ := r
      have ha : a.isAuthored = false := hx a (by simp [refs])
      have hb : b.isAuthored = false := hx b (by simp [refs])
      rw [complaints, List.countP_append, List.countP_append, (a.countP_complaints size ha).1,
        (b.countP_complaints size hb).1]
      cases a <;> cases ha <;> cases b <;> cases hb <;> rfl

theorem Mention.countP_warning :
    (x.complaints size).countP (fun n => n.severity == .warning) =
      x.refs.countP (NodeRef.isLoose size) := by
  cases x with
  | ref r =>
      rw [complaints, (r.countP_complaints size (hx r (by simp [refs]))).2, refs,
        List.countP_singleton]
  | range r =>
      have hrange : (if r.isCanonical then [] else [Notice.rangeUnresolved r]).countP
          (fun n => n.severity == .warning) = 0 := by
        split <;> rfl
      rw [complaints, List.countP_append, List.countP_append, hrange,
        (r.start.countP_complaints size (hx _ (by simp [refs]))).2,
        (r.stop.countP_complaints size (hx _ (by simp [refs]))).2, refs, List.countP_cons,
        List.countP_singleton]
      omega

end

namespace Notice

theorem head?_append {c : Char} {a : String} (b : String)
    (h : a.toList.head? = some c) : (a ++ b).toList.head? = some c := by
  rw [String.toList_append, List.head?_append, h]
  rfl

theorem definitionMoved_head? (s : Slot) (p : Nat) :
    (definitionMoved s p).text.toList.head? = some 'c' := by
  have hword : "canonical node id ".toList.head? = some 'c' := by decide
  unfold text
  exact head?_append _ (head?_append _ (head?_append _ hword))

/-- The wording for a definition that moved is told from the others by its first letter. -/
theorem text_ne_definitionMoved {n : Notice} {c : Char} (hn : n.text.toList.head? = some c)
    (hc : c ≠ 'c') (s : Slot) (p : Nat) : n.text ≠ (definitionMoved s p).text := by
  intro h
  rw [h, definitionMoved_head?] at hn
  exact hc (Option.some.inj hn).symm

theorem slotOutsideTable_head? (x : Slot) (n : Nat) :
    (slotOutsideTable x n).text.toList.head? = some 's' := by
  have hword : "slot ".toList.head? = some 's' := by decide
  unfold text
  exact head?_append _ (head?_append _ (head?_append _ (head?_append _ hword)))

theorem rangeUnresolved_head? (r : NodeRange) :
    (rangeUnresolved r).text.toList.head? = some 'n' := by
  have hword : "node range ".toList.head? = some 'n' := by decide
  unfold text
  exact head?_append _ (head?_append _ hword)

end Notice

/-- Counting over groups, as long as each group counts the same. -/
theorem countP_flatMap_congr {α β γ : Type} {l : List α} {f : α → List β} {g : α → List γ}
    {p : β → Bool} {q : γ → Bool} (h : ∀ a ∈ l, (f a).countP p = (g a).countP q) :
    (l.flatMap f).countP p = (l.flatMap g).countP q := by
  rw [List.countP_flatMap, List.countP_flatMap]
  exact congrArg List.sum (List.map_congr_left h)

namespace Scope

theorem resolve_settled (s : Scope) {r : NodeRef} (hr : r.isAuthored = false) :
    s.resolve r = ⟨r, r.complaints s.table.size, .zero⟩ := by
  cases r with
  | slot x => rfl
  | unresolved => rfl
  | _ => cases hr

theorem answer_settled (s : Scope) {x : Mention} (hx : ∀ r ∈ x.refs, r.isAuthored = false) :
    s.answer x = ⟨x, x.complaints s.table.size, .zero⟩ := by
  cases x with
  | ref r => rw [answer, s.resolve_settled (hx r (by simp [Mention.refs]))]; rfl
  | range r =>
      obtain ⟨a, b⟩ := r
      have ha : a.isAuthored = false := hx a (by simp [Mention.refs])
      have hb : b.isAuthored = false := hx b (by simp [Mention.refs])
      rw [answer, resolveRange, s.resolve_settled ha, s.resolve_settled hb]
      cases a <;> cases ha <;> cases b <;> cases hb <;> rfl

end Scope

namespace Module

/-- A module that is as a run would leave it: every definition has the slot of its position, and no
reference is a number or a name. -/
structure Settled (m : Module) : Prop where
  ids {s : Site} {id : NodeRef} (hs : s ∈ m.sites) (hid : s.id? = some id) :
    id = settledId (m.span? s)
  refs {r : NodeRef} (hr : r ∈ collectRefs m) : r.isAuthored = false

theorem settled_processed (m : Module) (legacy : Bool) : (m.processed legacy).Settled where
  ids := by
    intro s' id hs' hid
    rw [processed_sites] at hs'
    obtain ⟨s, hs, rfl⟩ := List.mem_map.mp hs'
    rw [settledSite_id?] at hid
    obtain ⟨_, -, rfl⟩ := Option.map_eq_some_iff.mp hid
    rw [span?_settledSite hs]
  refs := by
    intro r hr
    rw [processed, collectRefs_resolve] at hr
    obtain ⟨r, -, rfl⟩ := List.mem_map.mp hr
    exact Scope.value_isAuthored _ r

/-- What there is to say about a settled module: definitions without an id, in canonical order, and
then references, in declared order. -/
def complaints (m : Module) : List Finding :=
  ((m.canonicalSites.filter fun s => s.id? == some .unresolved).map fun s =>
      ⟨some s.keyword, .definitionWithoutId⟩) ++
    m.sections.flatMap fun c =>
      ((mentions c).flatMap (Mention.complaints m.table.size)).map fun n => ⟨some c.keyword, n⟩

theorem mem_complaints {m : Module} {f : Finding} (hf : f ∈ m.complaints) :
    f.notice = .definitionWithoutId ∨ f.notice = .invalidReference ∨
      (∃ x n, f.notice = .slotOutsideTable x n) ∨ ∃ r, f.notice = .rangeUnresolved r := by
  have href : ∀ {r : NodeRef} {n : Notice} {size : Nat}, n ∈ r.complaints size →
      n = .invalidReference ∨ ∃ x k, n = .slotOutsideTable x k := by
    intro r n size hn
    cases r with
    | slot x =>
        simp only [NodeRef.complaints] at hn
        split at hn
        · cases hn
        · exact .inr ⟨x, size, List.mem_singleton.mp hn⟩
    | _ => exact .inl (List.mem_singleton.mp hn)
  rcases List.mem_append.mp hf with hf | hf
  · obtain ⟨s, -, rfl⟩ := List.mem_map.mp hf
    exact .inl rfl
  · obtain ⟨c, -, hf⟩ := List.mem_flatMap.mp hf
    obtain ⟨n, hn, rfl⟩ := List.mem_map.mp hf
    obtain ⟨x, -, hn⟩ := List.mem_flatMap.mp hn
    cases x with
    | ref r => exact .inr ((href hn).imp_right .inl)
    | range r =>
        rcases List.mem_append.mp hn with hn | hn
        · rcases List.mem_append.mp hn with hn | hn
          · exact .inr ((href hn).imp_right .inl)
          · exact .inr ((href hn).imp_right .inl)
        · split at hn
          · cases hn
          · exact .inr (.inr (.inr ⟨r, List.mem_singleton.mp hn⟩))

namespace Settled
variable {m : Module} (h : m.Settled)
include h

theorem notices_eq {s : Site} (hs : s ∈ m.sites) :
    m.notices s = if s.id? == some .unresolved then [.definitionWithoutId] else [] := by
  cases hid : s.id? with
  | none => simp [notices, hid]
  | some id =>
      have hsettled := h.ids hs hid
      rw [settledId_span?] at hsettled
      by_cases hacc : m.accepts s = true
      · rw [if_pos hacc] at hsettled
        subst hsettled
        simp [notices, hid]
      · rw [if_neg hacc] at hsettled
        subst hsettled
        simp [notices, hid]

theorem findings_eq :
    m.canonicalSites.flatMap m.findings =
      (m.canonicalSites.filter fun s => s.id? == some .unresolved).map fun s =>
        ⟨some s.keyword, .definitionWithoutId⟩ := by
  rw [List.map_eq_flatMap, ← List.filterMap_eq_filter, List.filterMap_eq_flatMap_toList,
    List.flatMap_assoc]
  refine List.flatMap_congr fun s hs => ?_
  rw [findings, h.notices_eq (m.mem_canonicalSites.mp hs)]
  by_cases hid : s.id? = some .unresolved <;> simp [hid, Option.guard]

theorem refs_mention {c : Section} (hc : c ∈ m.sections) {x : Mention} (hx : x ∈ mentions c) :
    ∀ r ∈ x.refs, r.isAuthored = false := fun _ hr =>
  h.refs (collectRefs_module m ▸
    List.mem_flatMap.mpr ⟨c, hc, List.mem_flatMap.mpr ⟨x, hx, hr⟩⟩)

/-- No section is counted for anything, and its notices are the complaints about its references. -/
theorem settleSection_tally {c : Section} (hc : c ∈ m.sections) (legacy : Bool)
    (spans : List (Option Span)) :
    (((m.scope legacy).settleSection spans c).2.notices.toList =
        (mentions c).flatMap (Mention.complaints m.table.size)) ∧
      ((m.scope legacy).settleSection spans c).2.stats = 0 := by
  have hanswers : (m.scope legacy).answers spans c =
      (mentions c).map fun x => ⟨x, x.complaints m.table.size, .zero⟩ := by
    rw [Scope.answers, List.mapIdx_eq_zipIdx_map, ← List.flatMap_def, mentions_section,
      List.map_flatMap, ← flatMap_zipIdx c.entries]
    refine List.flatMap_congr fun p hp => List.map_congr_left fun x hx => ?_
    have hp' : p.1 ∈ c.entries := List.fst_mem_of_mem_zipIdx hp
    exact Scope.answer_settled _
      (h.refs_mention hc (mentions_section c ▸ List.mem_flatMap.mpr ⟨p.1, hp', hx⟩))
  rw [Scope.settleSection_eq, Tally.addAll_notices, Tally.addAll_stats, hanswers]
  refine ⟨?_, ?_⟩
  · rw [List.flatMap_map]
    rfl
  · have hzero : ∀ s ∈ ((mentions c).map fun x =>
        (⟨x, x.complaints m.table.size, .zero⟩ : Resolved Mention)).map Resolved.stats, s = 0 := by
      simp only [List.map_map, List.mem_map]
      rintro s ⟨x, -, rfl⟩
      rfl
    rw [List.sum_eq_zero hzero]
    rfl

theorem countedStats_eq (legacy : Bool) :
    m.countedStats legacy = ⟨0, 0, 0, m.canonicalSites.countP Site.rigid⟩ := by
  have hzero : ∀ s ∈ (m.settledSections legacy).map fun c => c.2.stats, s = 0 := by
    intro s hs
    obtain ⟨c, hc, rfl⟩ := List.mem_map.mp hs
    obtain ⟨p, hp, rfl⟩ := List.mem_map.mp hc
    exact (h.settleSection_tally (List.fst_mem_of_mem_zipIdx hp) legacy _).2
  rw [countedStats, List.sum_eq_zero hzero, zero_add]

theorem messages_eq (legacy : Bool) :
    (m.resolve legacy).messages = m.complaints.map (Finding.message m.name) := by
  have hsettling : ((m.settledSections legacy).flatMap fun c => c.2.findings c.1.keyword) =
      m.sections.flatMap fun c => ((mentions c).flatMap (Mention.complaints m.table.size)).map
        fun n => ⟨some c.keyword, n⟩ := by
    rw [settledSections, List.flatMap_map, ← flatMap_zipIdx m.sections]
    refine List.flatMap_congr fun p hp => ?_
    rw [Tally.findings, (h.settleSection_tally (List.fst_mem_of_mem_zipIdx hp) legacy _).1]
    rfl
  have hclosing : ModuleRun.closing (m.countedStats legacy).resolvedToSelf = [] := by
    rw [h.countedStats_eq]
    rfl
  rw [resolve_eq, ModuleRun.messages]
  simp only [hsettling, hclosing, h.findings_eq, List.append_nil, complaints]

theorem countP_error :
    m.complaints.countP (fun f => f.notice.severity == .error) =
      m.nodeIds.countP NodeRef.isUnresolved + (mentions m).countP Mention.isBroken := by
  have hids : m.canonicalSites.countP (fun s => s.id? == some .unresolved) =
      m.nodeIds.countP NodeRef.isUnresolved := by
    rw [m.canonicalSites_perm.countP_eq, nodeIds_eq, List.countP_filterMap]
    refine List.countP_congr fun s _ => ?_
    cases s.id? with
    | none => simp
    | some id => cases id <;> simp [NodeRef.isUnresolved]
  have hmentions : ∀ c ∈ m.sections, (((mentions c).flatMap (Mention.complaints m.table.size)).map
      fun n => (⟨some c.keyword, n⟩ : Finding)).countP (fun f => f.notice.severity == .error) =
        (mentions c).countP Mention.isBroken := by
    intro c hc
    have hsingle : (mentions c).flatMap (fun x => [x]) = mentions c := List.flatMap_singleton' _
    rw [List.countP_map]
    conv_rhs => rw [← hsingle]
    exact countP_flatMap_congr fun x hx => Mention.countP_error _ (h.refs_mention hc hx)
  have hall : ∀ l : List Site, (l.map fun s =>
      (⟨some s.keyword, .definitionWithoutId⟩ : Finding)).countP
        (fun f => f.notice.severity == .error) = l.length := fun l => by
    rw [List.countP_map]
    exact List.countP_eq_length.mpr fun _ _ => rfl
  rw [complaints, List.countP_append, hall, mentions_module, countP_flatMap_congr hmentions, ← hids,
    ← List.countP_eq_length_filter]

theorem countP_warning :
    m.complaints.countP (fun f => f.notice.severity == .warning) =
      (collectRefs m).countP (NodeRef.isLoose m.table.size) := by
  have hmentions : ∀ c ∈ m.sections, (((mentions c).flatMap (Mention.complaints m.table.size)).map
      fun n => (⟨some c.keyword, n⟩ : Finding)).countP (fun f => f.notice.severity == .warning) =
        (collectRefs c).countP (NodeRef.isLoose m.table.size) := by
    intro c hc
    rw [List.countP_map]
    exact countP_flatMap_congr fun x hx => Mention.countP_warning _ (h.refs_mention hc hx)
  have hids : ∀ l : List Site, (l.map fun s =>
      (⟨some s.keyword, .definitionWithoutId⟩ : Finding)).countP
        (fun f => f.notice.severity == .warning) = 0 := fun l => by
    rw [List.countP_map]
    exact List.countP_eq_zero.mpr fun s _ => by simp [Notice.severity]
  rw [complaints, List.countP_append, hids, Nat.zero_add, collectRefs_module,
    countP_flatMap_congr hmentions]

end Settled

end Module

/-- What is said about a settled module is no information, and not that a definition moved. -/
theorem Module.complaints_quiet {m : Module} {f : Finding} (hf : f ∈ m.complaints) :
    f.notice.severity ≠ .info ∧ ∀ s p, f.notice.text ≠ (Notice.definitionMoved s p).text := by
  rcases mem_complaints hf with hn | hn | ⟨x, n, hn⟩ | ⟨r, hn⟩ <;> rw [hn]
  · exact ⟨by decide, Notice.text_ne_definitionMoved (c := 'n') (by decide) (by decide)⟩
  · exact ⟨by decide, Notice.text_ne_definitionMoved (c := 'a') (by decide) (by decide)⟩
  · exact ⟨by simp [Notice.severity],
      Notice.text_ne_definitionMoved (Notice.slotOutsideTable_head? x n) (by decide)⟩
  · exact ⟨by simp [Notice.severity],
      Notice.text_ne_definitionMoved (Notice.rangeUnresolved_head? r) (by decide)⟩

/-- Two tables that differ in ids and kinds at most: at each slot they have a node of the same group
that plays the same part, and the document mentions their nodes in the same order. -/
structure NodeTable.SameShape (t t' : NodeTable) : Prop where
  size : t'.size = t.size
  rows (p : Nat) : (t'.get? p).map (fun e => (e.origin.rank, e.role, e.ray)) =
    (t.get? p).map fun e => (e.origin.rank, e.role, e.ray)
  legacyOrder : t'.legacyOrder = t.legacyOrder

namespace Module
variable (m : Module) (legacy : Bool)

theorem sameShape_processed : m.table.SameShape (m.processed legacy).table := by
  have hrank : ∀ (k : Keyword) (id : NodeRef), (id.row (Build.slotKind k)).origin.rank = 0 := by
    intro k id
    have hslot : (Build.slotKind k).rank = 0 := by
      unfold Build.slotKind
      split <;> rfl
    cases id with
    | number n => rfl
    | name y => rfl
    | slot y => exact hslot
    | unresolved => exact hslot
  have hrows := @processed_rows m legacy _ (fun e => (e.origin.rank, e.role, e.ray))
    fun d _ x => by
      rw [hrank, hrank]
      rfl
  refine ⟨?_, fun p => ?_, processed_legacyOrder⟩
  · simpa [size_table] using congrArg List.length hrows
  · rw [get?_table, get?_table, ← List.getElem?_map, ← List.getElem?_map, hrows]

/-- Origins are kept where sections hold what they are meant for: no names under `nodes`, and no
numbers under `nodes2`. -/
theorem origins_processed (hnames : ∀ x, (.nodes, .name x) ∉ m.definitions)
    (hnumbers : ∀ n, (.nodes2, .number n) ∉ m.definitions) :
    (m.processed legacy).table.entries.map TableEntry.origin =
      m.table.entries.map TableEntry.origin := by
  have hrows := @processed_rows m legacy _ TableEntry.origin fun d hd x => by
    obtain ⟨k, id⟩ := d
    have hk : k = .nodes ∨ k = .nodes2 := by
      obtain ⟨k', hk', hd⟩ := List.mem_flatMap.mp hd
      obtain ⟨c, -, hd⟩ := List.mem_flatMap.mp hd
      obtain ⟨n, -, hn⟩ := List.mem_map.mp hd
      cases hn
      exact List.mem_pair.mp hk'
    cases id with
    | number n =>
        rcases hk with rfl | rfl
        · rfl
        · exact absurd hd (hnumbers n)
    | name y =>
        rcases hk with rfl | rfl
        · exact absurd hd (hnames y)
        · rfl
    | slot y => rfl
    | unresolved => rfl
  simpa [table, NodeTable.setLegacyOrder] using congrArg List.toArray hrows

end Module

namespace Resolver

/-- A run of a fresh resolver that finds nothing to do in a document: it changes nothing, resolves
nothing and moves nothing, and says once for each place what is still wrong there. -/
structure Idle (d : Document) (a : Resolver × Document) : Prop where
  document : a.2 = d
  resolved : a.1.stats.totalResolved = 0
  noInfo : ∀ x ∈ a.1.diagnostics.messages.toList, x.severity ≠ .info
  notMoved : ∀ x ∈ a.1.diagnostics.messages.toList, ∀ s p,
    x.text ≠ (Notice.definitionMoved s p).text
  errors : a.1.diagnostics.errorCount = (d.modules.map fun m =>
    m.nodeIds.countP NodeRef.isUnresolved + (mentions m).countP Mention.isBroken).sum
  warnings : a.1.diagnostics.warningCount = ((d.modules.zip a.1.finished).map fun p =>
    (collectRefs p.1).countP (NodeRef.isLoose p.2.table.size)).sum

theorem process_idle {o : Options} (ho : o.enabled = true) {d : Document}
    (hd : ∀ m ∈ d.modules, m.Settled ∧ ∀ legacy, m.processed legacy = m) :
    Idle d ((new o).process d) := by
  have h : (new o).options.enabled = true := ho
  have hmessages : ((new o).process d).1.diagnostics.messages.toList =
      d.modules.flatMap fun m => m.complaints.map (Finding.message m.name) := by
    rw [process_messages h]
    exact List.flatMap_congr fun m hm => (hd m hm).1.messages_eq _
  have hcount : ∀ p : Severity → Bool, ((new o).process d).1.diagnostics.countOf p =
      (d.modules.map fun m => m.complaints.countP fun f => p f.notice.severity).sum := by
    intro p
    rw [Diagnostics.countOf, ← Array.countP_toList, hmessages, List.countP_flatMap]
    refine congrArg List.sum (List.map_congr_left fun m _ => ?_)
    rw [Function.comp_apply, List.countP_map]
    rfl
  have hquiet : ∀ x ∈ ((new o).process d).1.diagnostics.messages.toList,
      ∃ m ∈ d.modules, ∃ f ∈ m.complaints, f.message m.name = x := by
    intro x hx
    rw [hmessages] at hx
    obtain ⟨m, hm, hx⟩ := List.mem_flatMap.mp hx
    obtain ⟨f, hf, hx⟩ := List.mem_map.mp hx
    exact ⟨m, hm, f, hf, hx⟩
  refine ⟨?document, ?resolved, ?noInfo, ?notMoved, ?errors, ?warnings⟩
  case document =>
    have hmodules : d.modules.map (fun m => (m.resolve (new o).options.legacy).module) =
        d.modules := (List.map_congr_left fun m hm => (hd m hm).2 _).trans (List.map_id' _)
    rw [process_document h, hmodules]
  case resolved =>
    have hstart : (new o).stats.totalResolved = 0 := rfl
    have hsum : ∀ l : List Stats, l.sum.totalResolved = (l.map Stats.totalResolved).sum := by
      intro l
      induction l with
      | nil => rfl
      | cons a l ih =>
          rw [List.sum_cons, List.map_cons, List.sum_cons, ← ih]
          rfl
    have hzero : ∀ n ∈ (d.modules.map fun m =>
        (m.resolve (new o).options.legacy).stats).map Stats.totalResolved, n = 0 := by
      rw [List.map_map]
      intro n hn
      obtain ⟨m, hm, rfl⟩ := List.mem_map.mp hn
      simp [Module.resolve_eq, (hd m hm).1.countedStats_eq]
    rw [process_stats h]
    refine (congrArg₂ (· + ·) hstart (hsum _)).trans ?_
    rw [List.sum_eq_zero hzero, Nat.add_zero]
  case noInfo =>
    intro x hx
    obtain ⟨m, -, f, hf, rfl⟩ := hquiet x hx
    exact (Module.complaints_quiet hf).1
  case notMoved =>
    intro x hx
    obtain ⟨m, -, f, hf, rfl⟩ := hquiet x hx
    exact (Module.complaints_quiet hf).2
  case errors =>
    rw [Diagnostics.errorCount_eq]
    refine (hcount _).trans (congrArg List.sum (List.map_congr_left fun m hm => ?_))
    exact (hd m hm).1.countP_error
  case warnings =>
    have hzip : d.modules.zip ((new o).process d).1.finished =
        d.modules.map fun m => (m, ⟨m.name, m.table⟩) := by
      rw [process_finished h]
      exact List.map_prod_left_eq_zip.symm
    rw [hzip, List.map_map, Diagnostics.warningCount_eq]
    refine (hcount _).trans (congrArg List.sum (List.map_congr_left fun m hm => ?_))
    exact (hd m hm).1.countP_warning

/-- Processing is a fixed point: a second run, by a fresh resolver with any options, is idle, and
each of its tables has the shape of the first one. -/
theorem process_process {r : Resolver} (h : r.options.enabled = true) {o : Options}
    (ho : o.enabled = true) (d : Document) :
    Idle (r.process d).2 ((new o).process (r.process d).2) ∧
      ∀ i m, d.modules[i]? = some m → ∃ t t' : NodeTable,
        (r.process d).1.finished[r.finished.length + i]? = some ⟨m.name, t⟩ ∧
        ((new o).process (r.process d).2).1.finished[i]? = some ⟨m.name, t'⟩ ∧
        t.SameShape t' ∧
        ((∀ x, (.nodes, .name x) ∉ m.definitions) → (∀ n, (.nodes2, .number n) ∉ m.definitions) →
          t'.entries.map TableEntry.origin = t.entries.map TableEntry.origin) := by
  have hmodules : (r.process d).2.modules =
      d.modules.map fun m => m.processed r.options.legacy := by
    rw [process_document h]
    rfl
  refine ⟨process_idle ho fun m' hm' => ?_, fun i m hm => ?_⟩
  · rw [hmodules] at hm'
    obtain ⟨m, -, rfl⟩ := List.mem_map.mp hm'
    exact ⟨m.settled_processed _, m.processed_processed _⟩
  · have hm' : (r.process d).2.modules[i]? = some (m.processed r.options.legacy) := by
      rw [hmodules, List.getElem?_map, hm]
      rfl
    have hfinished := (process_module (r := new o) _ ho hm').2
    rw [m.processed_name] at hfinished
    have hplace : (new o).finished.length + i = i := Nat.zero_add i
    rw [hplace] at hfinished
    exact ⟨m.table, _, (process_module d h hm).2, hfinished, m.sameShape_processed _,
      m.origins_processed _⟩

theorem process_process_doubled :
    Idle ((new ⟨true, false⟩).process ⟨"", [.doubled]⟩).2
        ((new ⟨true, true⟩).process ((new ⟨true, false⟩).process ⟨"", [.doubled]⟩).2) ∧
      ((new ⟨true, true⟩).process
        ((new ⟨true, false⟩).process ⟨"", [.doubled]⟩).2).1.diagnostics.errorCount = 2 := by
  have h := (process_process (r := new ⟨true, false⟩) (o := ⟨true, true⟩) rfl rfl
    ⟨"", [.doubled]⟩).1
  exact ⟨h, h.errors.trans (by decide +kernel)⟩

end Resolver

end RigNodes
