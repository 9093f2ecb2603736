import RigNodes.Proofs.Coverage
import RigNodes.Proofs.Layout.Appended
import RigNodes.Proofs.Stops
import RigNodes.Proofs.Table.Consistency

/-! References of an entry to the nodes that it generates itself. They are told from the document
and from the growth of the table; the resolver counts exactly these, and has one notice for each of
them and one more for each module that has any. No definition stands among the nodes of a generating
entry, so that only a number that is led by its place in the document can come to be one of them. -/
namespace RigNodes

/-- A reference, with the place of the entry that it stands in. -/
structure Occurrence where
  part : Nat
  entry : Nat
  keyword : Keyword
  ref : NodeRef

def Section.occurrences (c : Section) (part : Nat) : List Occurrence :=
  c.entries.zipIdx.flatMap fun e =>
    ((fieldStops c.keyword e.1).flatMap Mention.refs).map fun r => ⟨part, e.2, c.keyword, r⟩

namespace Module

/-- The references of a module as they stand in the fields of its entries. -/
def occurrences (m : Module) : List Occurrence :=
  m.sections.zipIdx.flatMap fun c => c.1.occurrences c.2

/-- The position that a reference in a cinecam or a wheel leads to, if the table has grown by it
when this very entry was registered. -/
def ownPosition? (m : Module) (legacy : Bool) (o : Occurrence) : Option Nat :=
  if (Kind.generatedBy? o.keyword).isSome then
    ((m.scope legacy).position? o.ref).filter fun p =>
      (m.grown? o.part o.entry).any fun span => span.contains p
  else none

/-- The references of a module to nodes of their own entry, each with the position of its node. -/
def selfReferences (m : Module) (legacy : Bool) : List (Occurrence × Nat) :=
  m.occurrences.filterMap fun o => (m.ownPosition? legacy o).map fun p => (o, p)

/-- One finding for each of them, and one that says how many there are. -/
def selfFindings (found : List (Occurrence × Nat)) : List Finding :=
  (found.map fun x => ⟨some x.1.keyword, .selfReference x.1.ref x.2⟩) ++
    if found = [] then [] else [⟨none, .selfReferences found.length⟩]

end Module

/-- Notices that nothing is wrong about. -/
def Notice.isInfo (n : Notice) : Bool := n.severity == .info

namespace Scope
variable (s : Scope)

/-- What is noticed about a reference to one of the nodes at hand. -/
def selfNotices (r : NodeRef) : List Notice :=
  (((s.position? r).filter fun p => s.defining.any fun span => span.contains p).map
    (Notice.selfReference r)).toList

theorem found_self (r : NodeRef) (p : Nat) {notices : List Notice}
    (h : ∀ n ∈ notices, n.isInfo = false) (legacy : Nat) :
    (s.found r p notices legacy).notices.filter Notice.isInfo =
        (if s.defining.any fun span => span.contains p then [Notice.selfReference r p] else []) ∧
      (s.found r p notices legacy).stats.resolvedToSelf =
        if s.defining.any fun span => span.contains p then 1 else 0 := by
  have hnone : notices.filter Notice.isInfo = [] :=
    List.filter_eq_nil_iff.mpr fun n hn => Bool.eq_false_iff.mp (h n hn)
  constructor
  · simp only [found, List.filter_append, hnone, List.nil_append]
    split <;> rfl
  · rfl

theorem selfNotices_eq {r : NodeRef} {p : Nat} (h : s.position? r = some p) :
    s.selfNotices r =
      if s.defining.any fun span => span.contains p then [Notice.selfReference r p] else [] := by
  unfold selfNotices
  rw [h, Option.filter_some]
  split <;> rfl

theorem resolve_self (r : NodeRef) :
    (s.resolve r).notices.filter Notice.isInfo = s.selfNotices r ∧
      (s.resolve r).stats.resolvedToSelf = (s.selfNotices r).length := by
  have hfound : ∀ (p : Nat) (notices : List Notice) (legacy : Nat), s.position? r = some p →
      (∀ n ∈ notices, n.isInfo = false) → s.resolve r = s.found r p notices legacy →
      (s.resolve r).notices.filter Notice.isInfo = s.selfNotices r ∧
        (s.resolve r).stats.resolvedToSelf = (s.selfNotices r).length := by
    intro p notices legacy hp hquiet hresolve
    obtain ⟨hnotices, hself⟩ := s.found_self r p hquiet legacy
    rw [hresolve, hnotices, hself, s.selfNotices_eq hp]
    split
    · exact ⟨rfl, rfl⟩
    · exact ⟨rfl, rfl⟩
  cases r with
  | slot x =>
      have hnotices : (s.resolve (.slot x)).notices =
          if x.position < s.table.size then [] else [.slotOutsideTable x s.table.size] := rfl
      refine ⟨?_, rfl⟩
      rw [hnotices]
      split <;> rfl
  | unresolved => exact ⟨rfl, rfl⟩
  | name x =>
      cases hx : s.table.findName? x with
      | some p =>
          exact hfound p [] 0 hx (by simp) (by simp [resolve, hx])
      | none =>
          simp only [resolve, hx, selfNotices, position?]
          exact ⟨rfl, rfl⟩
  | number n =>
      cases hn : s.table.findNumber? n with
      | some p =>
          exact hfound p [] 0 (by simp [position?, hn]) (by simp)
            (by simp [resolve, hn])
      | none =>
          cases hl : s.legacyPosition? n with
          | some x =>
              exact hfound x.1 [.byLegacyPosition n x.2.origin x.1] 1
                (by simp [position?, hn, hl]) (by simp [Notice.isInfo, Notice.severity])
                (by simp [resolve, hn, hl])
          | none =>
              simp only [resolve, hn, hl, selfNotices, position?]
              exact ⟨rfl, rfl⟩

theorem rangeNotices_quiet (r : NodeRange) (a b : Slot) :
    (s.rangeNotices r a b).filter Notice.isInfo = [] := by
  unfold rangeNotices
  split
  · rfl
  · split <;> rfl

theorem answer_self (x : Mention) :
    (s.answer x).notices.filter Notice.isInfo = x.refs.flatMap s.selfNotices ∧
      (s.answer x).stats.resolvedToSelf = (x.refs.flatMap s.selfNotices).length := by
  cases x with
  | ref r =>
      rw [Mention.refs, List.flatMap_singleton]
      exact s.resolve_self r
  | range r =>
      have hrefs : (Mention.range r).refs.flatMap s.selfNotices =
          s.selfNotices r.start ++ s.selfNotices r.stop := by
        simp [Mention.refs]
      obtain ⟨hstart, hselfStart⟩ := s.resolve_self r.start
      obtain ⟨hstop, hselfStop⟩ := s.resolve_self r.stop
      rw [hrefs, List.length_append]
      constructor
      · simp only [answer, resolveRange, List.filter_append, hstart, hstop]
        apply List.append_right_eq_self.mpr
        split
        · split
          · rfl
          · exact s.rangeNotices_quiet r _ _
        · rfl
      · exact congrArg₂ (· + ·) hselfStart hselfStop

end Scope

theorem Stop.findings_self (s : Scope) (x : Stop) :
    (x.findings s).filter (fun f => f.notice.isInfo) =
        (x.mention.refs.flatMap ({ s with defining := x.defining } : Scope).selfNotices).map
          (fun n => ⟨some x.keyword, n⟩) ∧
      (x.answer s).stats.resolvedToSelf =
        ((x.findings s).filter fun f => f.notice.isInfo).length := by
  obtain ⟨hnotices, hself⟩ := ({ s with defining := x.defining } : Scope).answer_self x.mention
  have hfindings : (x.findings s).filter (fun f => f.notice.isInfo) =
      (x.mention.refs.flatMap ({ s with defining := x.defining } : Scope).selfNotices).map
        (fun n => ⟨some x.keyword, n⟩) := by
    rw [findings, List.filter_map, ← hnotices]
    rfl
  refine ⟨hfindings, ?_⟩
  rw [hfindings, List.length_map]
  exact hself

namespace Module
variable (m : Module) (legacy : Bool)

/-- The nodes at hand, where a reference can stand: those that the entry has appended, if it is one
that generates nodes. -/
theorem defining_eq {c : Section × Nat} (hc : c ∈ m.sections.zipIdx) {e : Entry c.1.keyword}
    (he : mentions e ≠ []) (j : Nat) :
    (m.spansAt c)[j]?.join =
      if (Kind.generatedBy? c.1.keyword).isSome then m.grown? c.2 j else none := by
  split
  next hk => exact (grown?_eq hc hk j).symm
  next hk =>
    have hproductions : c.1.productions = [] := by
      apply Section.productions_of_consumer
      generalize c.1.keyword = k at *
      cases k <;> first | rfl | exact absurd rfl hk | exact absurd rfl he
    simp [spansAt, Section.sites, hproductions]

theorem selfNotices_eq {c : Section × Nat} (hc : c ∈ m.sections.zipIdx) {e : Entry c.1.keyword}
    (he : mentions e ≠ []) (j : Nat) (r : NodeRef) :
    ({ m.scope legacy with defining := (m.spansAt c)[j]?.join } : Scope).selfNotices r =
      ((m.ownPosition? legacy ⟨c.2, j, c.1.keyword, r⟩).map (Notice.selfReference r)).toList := by
  have hposition : ({ m.scope legacy with defining := (m.spansAt c)[j]?.join } : Scope).position? r =
      (m.scope legacy).position? r := by
    cases r <;> rfl
  rw [Scope.selfNotices, hposition, m.defining_eq hc he, ownPosition?]
  split
  next => rfl
  next => simp

/-- What the second pass notes without complaint are the self-references. -/
theorem stops_self :
    (m.stops.flatMap (Stop.findings (m.scope legacy))).filter (fun f => f.notice.isInfo) =
      (m.selfReferences legacy).map fun x => ⟨some x.1.keyword, .selfReference x.1.ref x.2⟩ := by
  have hown : ((m.selfReferences legacy).map fun x =>
      (⟨some x.1.keyword, .selfReference x.1.ref x.2⟩ : Finding)) =
        m.occurrences.flatMap fun o => ((m.ownPosition? legacy o).map
          (Notice.selfReference o.ref)).toList.map fun n => ⟨some o.keyword, n⟩ := by
    rw [selfReferences, List.map_filterMap, List.filterMap_eq_flatMap_toList]
    apply List.flatMap_congr
    intro o ho
    cases m.ownPosition? legacy o <;> rfl
  rw [hown, List.filter_flatMap, stops, List.flatMap_assoc, occurrences, List.flatMap_assoc]
  apply List.flatMap_congr
  intro c hc
  rw [Section.stops, Section.occurrences, List.flatMap_assoc, List.flatMap_assoc]
  apply List.flatMap_congr
  intro e he
  rw [← mentions_entry, List.flatMap_map, List.flatMap_map, List.flatMap_assoc]
  apply List.flatMap_congr
  intro x hx
  rw [(Stop.findings_self _ _).1, List.map_flatMap]
  apply List.flatMap_congr
  intro r hr
  rw [m.selfNotices_eq legacy hc (List.ne_nil_of_mem hx)]

theorem sum_resolvedToSelf (l : List Stats) :
    l.sum.resolvedToSelf = (l.map Stats.resolvedToSelf).sum := by
  induction l with
  | nil => rfl
  | cons a l ih =>
      rw [List.map_cons, List.sum_cons, List.sum_cons, ← ih]
      rfl

theorem resolve_resolvedToSelf :
    (m.resolve legacy).stats.resolvedToSelf = (m.selfReferences legacy).length := by
  have hstops := congrArg List.length (m.stops_self legacy)
  rw [List.length_map, List.filter_flatMap, List.length_flatMap] at hstops
  rw [← hstops, resolve_stats]
  refine (Nat.add_zero _).trans ?_
  rw [sum_resolvedToSelf, List.map_map]
  apply congrArg List.sum
  apply List.map_congr_left
  intro x hx
  exact (x.findings_self (m.scope legacy)).2

theorem notices_quiet (s : Site) : ∀ n ∈ m.notices s, n.isInfo = false := by
  intro n hn
  unfold notices at hn
  split at hn
  · split at hn
    · cases hn
    · obtain ⟨t, -, rfl⟩ := Option.map_eq_some_iff.mp (Option.mem_toList.mp hn)
      rfl
  · split at hn
    · cases hn
    · obtain ⟨t, -, rfl⟩ := Option.map_eq_some_iff.mp (Option.mem_toList.mp hn)
      rfl
  · split at hn
    · cases hn
    · rw [List.mem_singleton.mp hn]
      rfl
  · rw [List.mem_singleton.mp hn]
    rfl
  · cases hn

/-- The messages of a run without complaint. -/
theorem resolve_messages_info :
    (m.resolve legacy).messages.filter (fun x => x.severity == .info) =
      (selfFindings (m.selfReferences legacy)).map (Finding.message m.name) := by
  have hname : (m.resolve legacy).module.name = m.name := by rw [resolve_eq]
  have hbuilding : (m.resolve legacy).building.filter (fun f => f.notice.isInfo) = [] := by
    rw [resolve_eq]
    apply List.filter_eq_nil_iff.mpr
    intro f hf
    obtain ⟨s, -, hf⟩ := List.mem_flatMap.mp hf
    obtain ⟨n, hn, rfl⟩ := List.mem_map.mp hf
    exact Bool.eq_false_iff.mp (m.notices_quiet s n hn)
  have hclosing : (ModuleRun.closing (m.selfReferences legacy).length).filter
      (fun f => f.notice.isInfo) =
        if m.selfReferences legacy = [] then []
        else [⟨none, .selfReferences (m.selfReferences legacy).length⟩] := by
    unfold ModuleRun.closing
    cases m.selfReferences legacy with
    | nil => rfl
    | cons x l => rfl
  have hinfo : (fun f : Finding => (f.message m.name).severity == .info) =
      fun f => f.notice.isInfo := rfl
  rw [ModuleRun.messages, hname, List.filter_map]
  apply congrArg (List.map (Finding.message m.name))
  change List.filter (fun f : Finding => f.notice.isInfo) _ = _
  rw [List.filter_append, hbuilding, List.nil_append, resolve_settling, List.filter_append,
    stops_self, resolve_resolvedToSelf, hclosing]
  rfl

end Module

end RigNodes
