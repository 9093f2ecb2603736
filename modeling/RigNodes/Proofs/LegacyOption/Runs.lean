import RigNodes.Proofs.Agreement
import RigNodes.Proofs.Coverage
import RigNodes.Proofs.LegacyOption.References

/-! What the legacy option adds to a run. With and without it tables and ids are the same, and a
reference differs only where a number without a definition was led to a generated node. -/
namespace RigNodes

namespace Module

/-- The places at which two versions of a module have different references. -/
def changed (m m' : Module) : List (NodeRef × NodeRef) :=
  ((collectRefs m).zip (collectRefs m')).filter fun p => p.1 != p.2

/-- The ranges that lack an end in one version of a module and have both in another. -/
def completed (m m' : Module) : List NodeRange :=
  ((m.ranges.zip m'.ranges).filter fun p => !p.1.isCanonical && p.2.isCanonical).map Prod.snd

variable (m : Module)

theorem changed_resolve :
    ((m.resolve false).module.changed (m.resolve true).module).length =
      (m.stops.map fun x =>
        x.mention.refs.countP fun r => m.table.plain r != m.table.guided r).sum := by
  unfold changed
  rw [collectRefs_resolve, collectRefs_resolve, List.zip_map', ← List.countP_eq_length_filter,
    List.countP_map, collectRefs, ← stops_mention, List.flatMap_map, List.countP_flatMap]
  rfl

theorem completed_resolve (q : NodeRange → Bool) :
    ((m.resolve false).module.completed (m.resolve true).module).countP q =
      (m.stops.map fun x => x.mention.ranges.countP fun r =>
        m.table.completes r && q (r.map m.table.guided)).sum := by
  unfold completed
  rw [ranges_resolve, ranges_resolve, List.zip_map', List.countP_map, List.countP_filter,
    List.countP_map, ranges, ← stops_mention, List.flatMap_map, List.countP_flatMap]
  apply congrArg List.sum
  apply List.map_congr_left
  intro x hx
  apply List.countP_congr
  intro r hr
  rw [Function.comp_apply, Function.comp_apply, Bool.and_comm]
  exact Iff.rfl

end Module

def ModuleRun.counts (run : ModuleRun) : Counts :=
  ⟨run.messages.countP fun x => x.severity == .error,
    run.messages.countP fun x => x.severity == .warning, run.stats⟩

namespace Module
variable (m : Module)

/-- What the build pass of a module is counted for. -/
def buildCounts : Counts :=
  ⟨(m.canonicalSites.flatMap m.findings).countP fun f => f.notice.severity == .error,
    (m.canonicalSites.flatMap m.findings).countP fun f => f.notice.severity == .warning,
    ⟨0, 0, 0, m.canonicalSites.countP Site.rigid⟩⟩

theorem counts_resolve (legacy : Bool) :
    (m.resolve legacy).counts =
      m.buildCounts + (m.stops.map fun x => (x.answer (m.scope legacy)).counts).sum := by
  rw [Counts.sum_map, ModuleRun.counts, countP_messages m legacy (p := (· == .error)) rfl,
    countP_messages m legacy (p := (· == .warning)) rfl, resolve_stats, add_comm (List.sum _)]
  rfl

theorem trade_resolve :
    Counts.Trade (m.resolve false).counts (m.resolve true).counts
      ((m.resolve false).module.changed (m.resolve true).module).length
      ((m.resolve false).module.completed (m.resolve true).module).length
      (((m.resolve false).module.completed (m.resolve true).module).countP fun r =>
        m.table.Suspect r) := by
  have hstops := Counts.Trade.sum (l := m.stops) fun x _ =>
    Scope.trade_answer m.table x.defining x.mention
  have h := (Counts.Trade.refl (a := m.buildCounts) rfl).add hstops
  simp only [Nat.zero_add] at h
  have hcompleted := m.completed_resolve fun _ => true
  simp only [List.countP_true, Bool.and_true] at hcompleted
  rw [hcompleted, completed_resolve, changed_resolve, counts_resolve, counts_resolve]
  exact h

/-- Where the option leads no reference elsewhere, the module is the same with it. -/
theorem resolve_module_congr (h : ∀ r ∈ collectRefs m, m.table.guided r = m.table.plain r) :
    (m.resolve true).module = (m.resolve false).module := by
  have hsections : (m.resolve true).module.sections = (m.resolve false).module.sections := by
    rw [resolve_sections, resolve_sections]
    apply List.map_congr_left
    intro c hc
    -- Spans are those of the one table; only the answers to references could differ.
    apply Section.settled_congr
    intro r hr
    apply h
    rw [collectRefs_module]
    exact List.mem_flatMap.mpr ⟨c.1, List.fst_mem_of_mem_zipIdx hc, hr⟩
  have hmodule : ∀ l, (m.resolve l).module =
      { m with sections := (m.resolve l).module.sections } := by
    intro l
    rw [resolve_eq]
  rw [hmodule true, hmodule false, hsections]

/-- What becomes of one reference, without the option and with it. -/
inductive Extended (t : NodeTable) : NodeRef → NodeRef → NodeRef → Prop
  | same (r x : NodeRef) : Extended t r x x
  | led {n : UInt32} {p : Nat} {e : TableEntry} (hn : .number n ∉ m.nodeIds)
      (he : t.get? p = some e) (huser : e.userId = none) :
      Extended t (.number n) .unresolved (.slot (.ofPosition p))

/-- The option adds to a module: `off` was processed without it, `on` with it. -/
structure Extends (t : NodeTable) (off on : Module) : Prop where
  refs {j : Nat} {r : NodeRef} (hr : (collectRefs m)[j]? = some r) :
    ∃ x y, (collectRefs off)[j]? = some x ∧ (collectRefs on)[j]? = some y ∧ m.Extended t r x y
  length : (collectRefs off).length = (collectRefs m).length ∧
    (collectRefs on).length = (collectRefs m).length
  slots {j : Nat} {s : Slot} (hs : (collectRefs off)[j]? = some (.slot s)) :
    (collectRefs on)[j]? = some (.slot s)
  ids : on.nodeIds = off.nodeIds
  same (h : off.changed on = []) : on = off

theorem extended_value (r : NodeRef) :
    m.Extended m.table r (m.table.plain r) (m.table.guided r) := by
  rcases Scope.value_option m.table r with h | ⟨n, p, e, rfl, hn, he, hu, hplain, hguided⟩
  · rw [h]
    exact .same r _
  · rw [hplain, hguided]
    have hfirst : m.first? (.number n) = none := by
      have hfind := @table_find? m (.number n) rfl
      have hnumber : m.table.find? (.number n) = none := hn
      rw [hnumber] at hfind
      exact Option.map_eq_none_iff.mp hfind.symm
    exact .led (not_mem_nodeIds hfirst) he hu

theorem extends_resolve :
    m.Extends m.table (m.resolve false).module (m.resolve true).module := by
  have hoff : collectRefs (m.resolve false).module = (collectRefs m).map m.table.plain :=
    m.collectRefs_resolve false
  have hon : collectRefs (m.resolve true).module = (collectRefs m).map m.table.guided :=
    m.collectRefs_resolve true
  refine ⟨?refs, ?length, ?slots, ?ids, ?same⟩
  case refs =>
    intro j r hr
    refine ⟨m.table.plain r, m.table.guided r, ?_, ?_, m.extended_value r⟩
    · rw [hoff, List.getElem?_map, hr]
      rfl
    · rw [hon, List.getElem?_map, hr]
      rfl
  case length =>
    rw [hoff, hon, List.length_map, List.length_map]
    exact ⟨rfl, rfl⟩
  case slots =>
    intro j s hs
    rw [hoff, List.getElem?_map] at hs
    obtain ⟨r, hr, hplain⟩ := Option.map_eq_some_iff.mp hs
    have hcanonical : (m.table.plain r).isCanonical = true := by
      rw [hplain]
      rfl
    rw [hon, List.getElem?_map, hr, Option.map_some, Scope.guided_of_slot _ hcanonical, hplain]
  case ids =>
    rw [nodeIds_resolve, nodeIds_resolve]
  case same =>
    intro h
    apply resolve_module_congr
    intro r hr
    rw [changed, hoff, hon, List.zip_map'] at h
    have hmem : (m.table.plain r, m.table.guided r) ∈
        (collectRefs m).map fun r => (m.table.plain r, m.table.guided r) :=
      List.mem_map.mpr ⟨r, hr, rfl⟩
    have hne := List.filter_eq_nil_iff.mp h _ hmem
    exact (by simpa using hne : m.table.plain r = m.table.guided r).symm

end Module

namespace Document

/-- How many references differ between two versions of a document. -/
def changed (off on : Document) : Nat :=
  ((off.modules.zip on.modules).map fun p => (p.1.changed p.2).length).sum

/-- How many ranges are complete in the other version of a document only. -/
def completed (off on : Document) : Nat :=
  ((off.modules.zip on.modules).map fun p => (p.1.completed p.2).length).sum

/-- How many of them are odd, each by the table of its module. -/
def suspects (off on : Document) (tables : List ModuleTable) : Nat :=
  (((off.modules.zip on.modules).zip tables).map fun p =>
    (p.1.1.completed p.1.2).countP fun r => p.2.table.Suspect r).sum

end Document

namespace Resolver

def counts (r : Resolver) : Counts :=
  ⟨r.diagnostics.errorCount, r.diagnostics.warningCount, r.stats⟩

theorem counts_process (legacy : Bool) (d : Document) :
    ((new ⟨true, legacy⟩).process d).1.counts =
      (d.modules.map fun m => (m.resolve legacy).counts).sum := by
  have h : (new ⟨true, legacy⟩).options.enabled = true := rfl
  have hcount : ∀ p, ((new ⟨true, legacy⟩).process d).1.diagnostics.countOf p =
      (d.modules.map fun m => (m.resolve legacy).messages.countP fun x => p x.severity).sum := by
    intro p
    rw [process_countOf h]
    exact Nat.zero_add _
  rw [Counts.sum_map, counts, Diagnostics.errorCount_eq, Diagnostics.warningCount_eq, hcount, hcount,
    process_stats h]
  exact congrArg (Counts.mk _ _) (zero_add _)

/-- The option adds to a document: `off` is a run without it, `on` one with it. -/
structure Extends (d : Document) (off on : Resolver × Document) : Prop where
  tables : on.1.finished = off.1.finished
  frame : on.2.blank = off.2.blank
  modules {i : Nat} {m : Module} (hm : d.modules[i]? = some m) : ∃ m₀ m₁ t,
    off.2.modules[i]? = some m₀ ∧ on.2.modules[i]? = some m₁ ∧
      on.1.finished[i]? = some ⟨m.name, t⟩ ∧ m.Extends t m₀ m₁
  places : on.1.stats.byLegacyPosition = off.2.changed on.2
  errors : off.1.diagnostics.errorCount =
    on.1.diagnostics.errorCount + off.2.changed on.2 + off.2.completed on.2
  warnings : on.1.diagnostics.warningCount =
    off.1.diagnostics.warningCount + off.2.changed on.2 + off.2.suspects on.2 on.1.finished
  resolved : on.1.stats.totalResolved = off.1.stats.totalResolved + off.2.changed on.2

/-- The legacy option is a conservative extension. -/
theorem process_extends (d : Document) :
    Extends d ((new ⟨true, false⟩).process d) ((new ⟨true, true⟩).process d) := by
  have h₀ : (new ⟨true, false⟩).options.enabled = true := rfl
  have h₁ : (new ⟨true, true⟩).options.enabled = true := rfl
  have hfinished : ∀ l, ((new ⟨true, l⟩).process d).1.finished =
      d.modules.map fun m => ⟨m.name, m.table⟩ := by
    intro l
    rw [process_finished (r := new ⟨true, l⟩) rfl]
    rfl
  have hmodules : ∀ l, ((new ⟨true, l⟩).process d).2.modules =
      d.modules.map fun m => (m.resolve l).module := by
    intro l
    rw [process_document (r := new ⟨true, l⟩) rfl]
    rfl
  have htrade := Counts.Trade.sum (l := d.modules) fun m _ => m.trade_resolve
  rw [← counts_process, ← counts_process] at htrade
  have hzip : ((new ⟨true, false⟩).process d).2.modules.zip
      ((new ⟨true, true⟩).process d).2.modules =
        d.modules.map fun m => ((m.resolve false).module, (m.resolve true).module) := by
    rw [hmodules, hmodules, List.zip_map']
  have hchanged : ((new ⟨true, false⟩).process d).2.changed ((new ⟨true, true⟩).process d).2 =
      (d.modules.map fun m =>
        ((m.resolve false).module.changed (m.resolve true).module).length).sum := by
    rw [Document.changed, hzip, List.map_map]
    rfl
  have hcompleted : ((new ⟨true, false⟩).process d).2.completed
      ((new ⟨true, true⟩).process d).2 =
      (d.modules.map fun m =>
        ((m.resolve false).module.completed (m.resolve true).module).length).sum := by
    rw [Document.completed, hzip, List.map_map]
    rfl
  have hsuspects : ((new ⟨true, false⟩).process d).2.suspects ((new ⟨true, true⟩).process d).2
      ((new ⟨true, true⟩).process d).1.finished =
      (d.modules.map fun m =>
        ((m.resolve false).module.completed (m.resolve true).module).countP fun r =>
          m.table.Suspect r).sum := by
    rw [Document.suspects, hzip, hfinished, List.zip_map', List.map_map]
    rfl
  rw [← hchanged, ← hcompleted, ← hsuspects] at htrade
  refine ⟨?same, ?frame, ?modules, htrade.used, htrade.errors, htrade.warnings, htrade.resolved⟩
  case same =>
    rw [hfinished, hfinished]
  case frame =>
    rw [(process_covers h₁ d).frame, (process_covers h₀ d).frame]
  case modules =>
    intro i m hm
    obtain ⟨hoff, -⟩ := process_module d h₀ hm
    obtain ⟨hon, htable⟩ := process_module d h₁ hm
    refine ⟨_, _, m.table, hoff, hon, ?_, m.extends_resolve⟩
    rw [hfinished, List.getElem?_map, hm]
    rfl

/-- A number leads to the second wheel node, and a range, written backwards, to both. -/
example :
    let wheels : Section := ⟨.wheels, [.usual 1 #v[.slot ⟨0⟩, .slot ⟨1⟩] (.number 1)]⟩
    let rails : Section := ⟨.railgroups, [⟨0, [⟨.number 1, .number 0⟩]⟩]⟩
    let d : Document := .withRoot "" [wheels, rails]
    let off := (new ⟨true, false⟩).process d
    let on := (new ⟨true, true⟩).process d
    off.2.changed on.2 = 3 ∧ off.2.completed on.2 = 1 ∧ off.2.suspects on.2 on.1.finished = 1 := by
  decide +kernel

end Resolver

end RigNodes
