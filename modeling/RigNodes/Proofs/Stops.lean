import RigNodes.Proofs.Process

/-! The second pass over a module as a list of stops. Each stop of the walk is answered once, in
walk order, with the positions of its own entry at hand; what the pass finds and counts is what
these answers find and count. -/
namespace RigNodes

/-- A stop of the walk, with the section it is written in and the positions of its entry. -/
structure Stop where
  keyword : Keyword
  mention : Mention
  defining : Option Span

/-- How many notices of some severities came with an answer. -/
def Resolved.countOf {α : Type} (o : Resolved α) (p : Severity → Bool) : Nat :=
  o.notices.countP fun n => p n.severity

/-- What a run, or a part of it, is counted for. -/
structure Counts where
  errors : Nat
  warnings : Nat
  stats : Stats

namespace Counts

instance : Zero Counts := ⟨⟨0, 0, 0⟩⟩

instance : Add Counts :=
  ⟨fun a b => ⟨a.errors + b.errors, a.warnings + b.warnings, a.stats + b.stats⟩⟩

theorem sum_map {α : Type} (l : List α) (f : α → Counts) :
    (l.map f).sum = ⟨(l.map fun a => (f a).errors).sum, (l.map fun a => (f a).warnings).sum,
      (l.map fun a => (f a).stats).sum⟩ := by
  induction l with
  | nil => rfl
  | cons a l ih =>
      simp only [List.map_cons, List.sum_cons, ih]
      rfl

end Counts

def Resolved.counts {α : Type} (o : Resolved α) : Counts :=
  ⟨o.countOf (· == .error), o.countOf (· == .warning), o.stats⟩

namespace Stop

def answer (s : Scope) (x : Stop) : Resolved Mention :=
  ({ s with defining := x.defining } : Scope).answer x.mention

def findings (s : Scope) (x : Stop) : List Finding :=
  (x.answer s).notices.map fun n => ⟨some x.keyword, n⟩

theorem answer_value (s : Scope) (x : Stop) : (x.answer s).value = x.mention.map s.value := by
  rw [← s.value_defining x.defining]
  unfold answer
  cases x.mention <;> rfl

theorem countP_findings (s : Scope) (x : Stop) (p : Severity → Bool) :
    (x.findings s).countP (fun f => p f.notice.severity) = (x.answer s).countOf p := by
  rw [findings, List.countP_map]
  rfl

end Stop

/-- The stops of a section whose entries have the given positions. -/
def Section.stops (spans : List (Option Span)) (c : Section) : List Stop :=
  c.entries.zipIdx.flatMap fun e => (mentions e.1).map fun x => ⟨c.keyword, x, spans[e.2]?.join⟩

def Module.stops (m : Module) : List Stop :=
  m.sections.zipIdx.flatMap fun c => c.1.stops (m.spansAt c)

theorem Section.stops_mention (spans : List (Option Span)) (c : Section) :
    (c.stops spans).map Stop.mention = mentions c := by
  rw [stops, List.map_flatMap, mentions_section, ← flatMap_zipIdx c.entries]
  apply List.flatMap_congr
  intro e he
  rw [List.map_map]
  exact List.map_id _

theorem Section.stops_keyword {spans : List (Option Span)} {c : Section} {x : Stop}
    (hx : x ∈ c.stops spans) : x.keyword = c.keyword := by
  obtain ⟨e, -, hx⟩ := List.mem_flatMap.mp hx
  obtain ⟨y, -, rfl⟩ := List.mem_map.mp hx
  rfl

theorem Scope.answers_eq (s : Scope) (spans : List (Option Span)) (c : Section) :
    s.answers spans c = (c.stops spans).map (Stop.answer s) := by
  rw [answers, Section.stops, List.mapIdx_eq_zipIdx_map, ← List.flatMap_def, List.map_flatMap]
  apply List.flatMap_congr
  intro e he
  rw [List.map_map]
  rfl

namespace Module
variable (m : Module) (legacy : Bool)

theorem stops_mention : m.stops.map Stop.mention = mentions m := by
  rw [stops, List.map_flatMap, mentions_module, ← flatMap_zipIdx m.sections]
  apply List.flatMap_congr
  intro c hc
  exact c.1.stops_mention _

theorem settleSection_findings (c : Section × Nat) :
    ((m.scope legacy).settleSection (m.spansAt c) c.1).2.findings c.1.keyword =
      (c.1.stops (m.spansAt c)).flatMap (Stop.findings (m.scope legacy)) := by
  rw [Tally.findings, Scope.settleSection_eq, Tally.addAll_notices, Scope.answers_eq,
    List.flatMap_map]
  simp only [Tally.zero, Array.toList_empty, List.nil_append, List.map_flatMap]
  apply List.flatMap_congr
  intro x hx
  rw [Stop.findings, Section.stops_keyword hx]

theorem settleSection_stats (c : Section × Nat) :
    ((m.scope legacy).settleSection (m.spansAt c) c.1).2.stats =
      ((c.1.stops (m.spansAt c)).map fun x => (x.answer (m.scope legacy)).stats).sum := by
  rw [Scope.settleSection_eq, Tally.addAll_stats, Scope.answers_eq, List.map_map]
  exact zero_add _

theorem resolve_settling :
    (m.resolve legacy).settling = m.stops.flatMap (Stop.findings (m.scope legacy)) ++
      ModuleRun.closing (m.resolve legacy).stats.resolvedToSelf := by
  have hsections : ((m.settledSections legacy).flatMap fun c => c.2.findings c.1.keyword) =
      m.stops.flatMap (Stop.findings (m.scope legacy)) := by
    rw [settledSections, List.flatMap_map, stops, List.flatMap_assoc]
    apply List.flatMap_congr
    intro c hc
    exact m.settleSection_findings legacy c
  rw [resolve_eq]
  exact congrArg (· ++ _) hsections

theorem resolve_stats :
    (m.resolve legacy).stats =
      (m.stops.map fun x => (x.answer (m.scope legacy)).stats).sum +
        ⟨0, 0, 0, m.canonicalSites.countP Site.rigid⟩ := by
  have hsections : ((m.settledSections legacy).map fun c => c.2.stats).sum =
      (m.stops.map fun x => (x.answer (m.scope legacy)).stats).sum := by
    rw [settledSections, List.map_map, stops, List.map_flatMap, List.flatMap_def, List.sum_flatten,
      List.map_map]
    apply congrArg List.sum
    apply List.map_congr_left
    intro c hc
    exact m.settleSection_stats legacy c
  rw [resolve_eq]
  exact congrArg (· + _) hsections

/-- Messages other than plain notices come from definitions and from stops. -/
theorem countP_messages {p : Severity → Bool} (hp : p .info = false) :
    (m.resolve legacy).messages.countP (fun x => p x.severity) =
      (m.canonicalSites.flatMap m.findings).countP (fun f => p f.notice.severity) +
        (m.stops.map fun x => (x.answer (m.scope legacy)).countOf p).sum := by
  have hclosing : ∀ n, (ModuleRun.closing n).countP (fun f => p f.notice.severity) = 0 := by
    intro n
    unfold ModuleRun.closing
    split
    · simp [Notice.severity, hp]
    · rfl
  have hbuilding : (m.resolve legacy).building = m.canonicalSites.flatMap m.findings := by
    rw [resolve_eq]
  have hstops : (m.stops.flatMap (Stop.findings (m.scope legacy))).countP
      (fun f => p f.notice.severity) =
        (m.stops.map fun x => (x.answer (m.scope legacy)).countOf p).sum := by
    rw [List.countP_flatMap]
    apply congrArg List.sum
    apply List.map_congr_left
    intro x hx
    exact x.countP_findings _ p
  rw [ModuleRun.messages, List.countP_map]
  change List.countP (fun f : Finding => p f.notice.severity) _ = _
  rw [hbuilding, resolve_settling, List.countP_append, List.countP_append, hstops, hclosing,
    Nat.add_zero]

end Module

theorem Resolver.process_countOf {r : Resolver} (h : r.options.enabled = true) (d : Document)
    (p : Severity → Bool) :
    (r.process d).1.diagnostics.countOf p = r.diagnostics.countOf p +
      (d.modules.map fun m =>
        (m.resolve r.options.legacy).messages.countP fun x => p x.severity).sum := by
  unfold Diagnostics.countOf
  rw [← Array.countP_toList, ← Array.countP_toList, process_messages h, List.countP_append,
    List.countP_flatMap]
  rfl

end RigNodes
