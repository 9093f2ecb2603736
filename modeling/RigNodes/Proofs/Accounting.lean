import RigNodes.Proofs.ErrorCount
import RigNodes.Proofs.Reprocessing
import RigNodes.Proofs.SelfReferences.Notices

/-! What a run is counted for besides errors. Every warning is one of five things that the documents
before and after show: a definition that was moved, a reference that leads to no node, one that was
written as unresolved, one that was led by its place in the document, and a range that is odd. The
statistics are counted off the same documents, and nothing is counted twice or left out. -/
namespace RigNodes

/-- A definition that was written with a slot and did not get this one. -/
def NodeRef.isMoved (id x : NodeRef) : Bool := id.isCanonical && id != x

/-- A number or a name that has come to be a slot. -/
def NodeRef.isFound (r x : NodeRef) : Bool := r.isAuthored && x.isCanonical

/-- A slot that is not in a table with so many entries. -/
def NodeRef.isOutside (size : Nat) (r : NodeRef) : Bool := r.slot?.any fun x => size ≤ x.position

/-- A range that was not written with slots, and is odd now that it has them. -/
def NodeTable.IsOdd (t : NodeTable) (x y : NodeRange) : Prop := x.isCanonical = false ∧ t.Suspect y

instance (t : NodeTable) (x y : NodeRange) : Decidable (t.IsOdd x y) :=
  inferInstanceAs (Decidable (_ ∧ _))

/-- An entry of a wheel section that has a rigidity node. -/
def Section.rigidWheels (c : Section) : Nat :=
  c.entries.countP fun e => (wheelForm? c.keyword e).any fun w => w.rigidity.isSome

namespace Module

/-- The definitions of a module `m` that were moved when it became `m'`. -/
def moved (m m' : Module) : Nat := (m.nodeIds.zip m'.nodeIds).countP fun p => p.1.isMoved p.2

/-- The numbers and names of a module `m` that came to be slots when it became `m'`. -/
def found (m m' : Module) : List (NodeRef × NodeRef) :=
  (m.fieldRefs.zip m'.fieldRefs).filter fun p => p.1.isFound p.2

/-- Those of them that no definition of the module has. -/
def led (m m' : Module) : Nat := (m.found m').countP fun p => !m.nodeIds.contains p.1

/-- The ranges that came to be odd. -/
def odd (m m' : Module) (t : NodeTable) : Nat :=
  (m.fieldRanges.zip m'.fieldRanges).countP fun p => t.IsOdd p.1 p.2

/-- All that is tolerated in a module `m` that has become `m'`, with the table `t`. -/
def warnings (m m' : Module) (t : NodeTable) : Nat :=
  m.moved m' + m.fieldRefs.countP (NodeRef.isOutside t.size) +
    m.fieldRefs.countP NodeRef.isUnresolved + m.led m' + m.odd m' t

def rigidWheels (m : Module) : Nat := (m.sections.map Section.rigidWheels).sum

end Module

namespace Scope
variable (s : Scope)

/-- A number or a name that is found without a definition. -/
def leads (r : NodeRef) : Bool := r.isFound (s.value r) && (s.table.find? r).isNone

/-- What an answer is counted for, given how many of its references lead nowhere, were found, and
were found without a definition, and how many ranges are odd. -/
structure Counted {α : Type} (o : Resolved α) (loose found led odd : Nat) : Prop where
  warnings : o.countOf (· == .warning) = loose + led + odd
  resolved : o.stats.totalResolved = found
  led : o.stats.byLegacyPosition = led
  rigid : o.stats.rigidWheels = 0

theorem countOf_found_warning (r : NodeRef) (p : Nat) (notices : List Notice) (legacy : Nat) :
    (s.found r p notices legacy).countOf (· == .warning) =
      notices.countP fun n => n.severity == .warning := by
  unfold found Resolved.countOf
  rw [List.countP_append]
  split <;> rfl

theorem counted_resolve (r : NodeRef) :
    Counted (s.resolve r) ([r].countP (NodeRef.isLoose s.table.size))
      ([r].countP fun r => r.isFound (s.value r)) ([r].countP s.leads) 0 := by
  simp only [List.countP_singleton]
  cases hfind : s.table.find? r with
  | some p =>
      have hauthored : r.isAuthored = true := by cases r <;> first | rfl | cases hfind
      have hloose : r.isLoose s.table.size = false := by cases r <;> first | rfl | cases hfind
      have hfound : r.isFound (s.value r) = true := by
        rw [NodeRef.isFound, value, s.resolve_of_find? hfind, hauthored]
        rfl
      have hleads : s.leads r = false := by
        rw [leads, hfind]
        exact Bool.and_false _
      rw [hloose, hfound, hleads, s.resolve_of_find? hfind]
      exact ⟨s.countOf_found_warning r p [] 0, rfl, rfl, rfl⟩
  | none =>
      have hleads : s.leads r = r.isFound (s.value r) := by
        rw [leads, hfind]
        exact Bool.and_true _
      rw [hleads]
      cases r with
      | slot x =>
          have hnotices : (s.resolve (.slot x)).countOf (· == .warning) =
              if (NodeRef.slot x).isLoose s.table.size then 1 else 0 :=
            (NodeRef.countP_complaints s.table.size (r := .slot x) rfl).2
          exact ⟨hnotices, rfl, rfl, rfl⟩
      | unresolved => exact ⟨rfl, rfl, rfl, rfl⟩
      | name x =>
          have hx : s.table.findName? x = none := hfind
          simp only [value, resolve, hx]
          exact ⟨rfl, rfl, rfl, rfl⟩
      | number n =>
          have hn : s.table.findNumber? n = none := hfind
          cases hl : s.legacyPosition? n with
          | none =>
              simp only [value, resolve, hn, hl]
              exact ⟨rfl, rfl, rfl, rfl⟩
          | some x =>
              simp only [value, resolve, hn, hl]
              exact ⟨s.countOf_found_warning _ _ _ _, rfl, rfl, rfl⟩

theorem countOf_verdict (x : NodeRange) :
    (s.verdict x (x.map s.value)).countOf (· == .warning) =
      [x].countP fun x => s.table.IsOdd x (x.map s.value) := by
  rw [List.countP_singleton]
  cases hx : x.isCanonical with
  | false =>
      rw [s.countOf_verdict_warning hx]
      simp [NodeTable.IsOdd, hx]
  | true =>
      obtain ⟨a, b⟩ := x
      have hnone : (s.verdict ⟨a, b⟩ (NodeRange.map s.value ⟨a, b⟩)).notices = [] := by
        cases a <;> cases b <;> first | rfl | cases hx
      rw [Resolved.countOf, hnone]
      simp [NodeTable.IsOdd, hx]

theorem counted_answer (x : Mention) :
    Counted (s.answer x) (x.refs.countP (NodeRef.isLoose s.table.size))
      (x.refs.countP fun r => r.isFound (s.value r)) (x.refs.countP s.leads)
      (x.ranges.countP fun x => s.table.IsOdd x (x.map s.value)) := by
  cases x with
  | ref r =>
      obtain ⟨hwarnings, hresolved, hled, hrigid⟩ := s.counted_resolve r
      exact ⟨hwarnings, hresolved, hled, hrigid⟩
  | range r =>
      have hcounts := s.resolveRange_counts r
      have hrefs : ∀ q : NodeRef → Bool,
          (Mention.range r).refs.countP q = [r.start].countP q + [r.stop].countP q :=
        fun q => @List.countP_append _ q [r.start] [r.stop]
      have hranges : (Mention.range r).ranges = [r] := rfl
      obtain ⟨hstart, hresolved, hled, hrigid⟩ := s.counted_resolve r.start
      obtain ⟨hstop, hresolved', hled', hrigid'⟩ := s.counted_resolve r.stop
      simp only [hrefs, hranges, ← s.countOf_verdict]
      constructor
      case warnings =>
        have hsum : (s.answer (.range r)).countOf (· == .warning) = (s.resolve r.start).countOf
            (· == .warning) + (s.resolve r.stop).countOf (· == .warning) +
              (s.verdict r (r.map s.value)).countOf (· == .warning) :=
          congrArg Counts.warnings hcounts
        omega
      case resolved => exact congrArg₂ (· + ·) hresolved hresolved'
      case led => exact congrArg₂ (· + ·) hled hled'
      case rigid => exact congrArg₂ (· + ·) hrigid hrigid'

end Scope

/-- Each statistic adds up on its own. -/
theorem Stats.sum_eq (l : List Stats) :
    l.sum = ⟨(l.map totalResolved).sum, (l.map resolvedToSelf).sum, (l.map byLegacyPosition).sum,
      (l.map rigidWheels).sum⟩ := by
  induction l with
  | nil => rfl
  | cons a l ih =>
      rw [List.sum_cons, ih]
      rfl

theorem countP_isLoose (size : Nat) (l : List NodeRef) :
    l.countP (NodeRef.isLoose size) =
      l.countP (NodeRef.isOutside size) + l.countP NodeRef.isUnresolved := by
  induction l with
  | nil => rfl
  | cons r l ih =>
      have hone : (if r.isLoose size then 1 else 0) =
          (if r.isOutside size then 1 else 0) + if r.isUnresolved then 1 else 0 := by
        cases r with
        | slot x => simp [NodeRef.isLoose, NodeRef.isOutside, NodeRef.isUnresolved, NodeRef.slot?]
        | _ => rfl
      simp only [List.countP_cons, ih, hone]
      omega

/-- A list beside what its members become. -/
theorem zip_filterMap_map {α β γ : Type} (f : α → Option β) (g : α → γ) (l : List α) :
    (l.filterMap f).zip (l.filterMap fun a => (f a).map fun _ => g a) =
      l.filterMap fun a => (f a).map fun b => (b, g a) := by
  induction l with
  | nil => rfl
  | cons a l ih => cases h : f a <;> simp [h, ih]

namespace Module
variable (m : Module) (legacy : Bool)

/-- A definition is a warning if it was moved. -/
theorem countP_findings_warning (s : Site) :
    (m.findings s).countP (fun f => f.notice.severity == .warning) =
      if s.id?.any fun id => id.isMoved (settledId (m.span? s)) then 1 else 0 := by
  rw [findings, List.countP_map]
  change (m.notices s).countP (fun n => n.severity == .warning) = _
  have hduplicate : ∀ (o : Option Site) (f : Site → Notice), (∀ t, (f t).severity = .error) →
      (if m.accepts s then [] else (o.map f).toList).countP
        (fun n => n.severity == .warning) = 0 := by
    intro o f hf
    split
    · rfl
    · cases o <;> simp [hf]
  cases hid : s.id? with
  | none => simp [notices, hid]
  | some id =>
      cases id with
      | number n =>
          simp only [notices, hid]
          exact hduplicate _ _ fun _ => rfl
      | name x =>
          simp only [notices, hid]
          exact hduplicate _ _ fun _ => rfl
      | unresolved =>
          simp only [notices, hid]
          rfl
      | slot x =>
          have hspan : settledId (m.span? s) = .slot (.ofPosition (m.start s)) := by
            rw [settledId_span?, if_pos (by simp [accepts, hid, NodeRef.isAuthored,
              NodeRef.isCanonical])]
          by_cases h : Slot.ofPosition (m.start s) = x
          · simp [notices, hid, hspan, h, NodeRef.isMoved]
          · simp [notices, hid, hspan, h, NodeRef.isMoved, NodeRef.isCanonical, Notice.severity,
              Ne.symm h]

theorem nodeIds_sites :
    (m.resolve legacy).module.nodeIds =
      m.sites.filterMap fun s => s.id?.map fun _ => settledId (m.span? s) := by
  have hsites : (m.resolve legacy).module.sites = m.sites.map m.settledSite :=
    m.processed_sites legacy
  rw [nodeIds_eq, hsites, List.filterMap_map]
  exact List.filterMap_congr fun s _ => settledSite_id?

theorem nodeIds_length : (m.resolve legacy).module.nodeIds.length = m.nodeIds.length := by
  rw [nodeIds_sites, nodeIds_eq, List.length_filterMap_eq_countP,
    List.length_filterMap_eq_countP]
  simp only [Option.isSome_map]

theorem moved_resolve :
    m.moved (m.resolve legacy).module =
      m.sites.countP fun s => s.id?.any fun id => id.isMoved (settledId (m.span? s)) := by
  rw [moved, nodeIds_sites, nodeIds_eq, zip_filterMap_map, List.countP_filterMap]
  apply List.countP_congr
  intro s hs
  cases s.id? <;> simp

theorem countP_building :
    (m.canonicalSites.flatMap m.findings).countP (fun f => f.notice.severity == .warning) =
      m.moved (m.resolve legacy).module := by
  rw [moved_resolve, ← m.canonicalSites_perm.countP_eq, List.countP_flatMap]
  induction m.canonicalSites with
  | nil => rfl
  | cons s l ih =>
      rw [List.map_cons, List.sum_cons, ih, List.countP_cons, Function.comp_apply,
        countP_findings_warning, Nat.add_comm]

theorem found_resolve :
    (m.found (m.resolve legacy).module).length =
      m.fieldRefs.countP fun r => r.isFound ((m.scope legacy).value r) := by
  rw [found, fieldRefs_resolve, ← List.countP_eq_length_filter, ← List.map_prod_left_eq_zip,
    List.countP_map]
  rfl

theorem led_resolve :
    m.led (m.resolve legacy).module = m.fieldRefs.countP (m.scope legacy).leads := by
  rw [led, found, fieldRefs_resolve, List.countP_filter, ← List.map_prod_left_eq_zip,
    List.countP_map]
  apply List.countP_congr
  intro r hr
  change (!m.nodeIds.contains r && r.isFound ((m.scope legacy).value r)) = true ↔ _
  rw [Scope.leads, Bool.and_comm]
  cases hfound : r.isFound ((m.scope legacy).value r) with
  | false => rfl
  | true =>
      have hauthored : r.isAuthored = true := (Bool.and_eq_true_iff.mp hfound).1
      have hfind : (m.scope legacy).table.find? r = (m.first? r).map m.start :=
        table_find? hauthored
      have hmem : m.nodeIds.contains r = (m.first? r).isSome := by
        rw [Bool.eq_iff_iff, List.contains_iff_mem, mem_nodeIds]
      rw [hfind, hmem]
      cases m.first? r <;> rfl

theorem odd_resolve :
    m.odd (m.resolve legacy).module m.table =
      m.fieldRanges.countP fun x => m.table.IsOdd x (x.map (m.scope legacy).value) := by
  rw [odd, fieldRanges_resolve, ← List.map_prod_left_eq_zip, List.countP_map]
  rfl

theorem countP_rigid : m.canonicalSites.countP Site.rigid = m.rigidWheels := by
  have hproduction : ∀ (k : Keyword) (e : Entry k), ((production? k e).map fun p =>
      (Site.mk 0 0 k p).rigid).getD false = (wheelForm? k e).any fun w => w.rigidity.isSome := by
    intro k e
    cases k <;> rfl
  have hsection : ∀ c : Section × Nat, (c.1.sites c.2).countP Site.rigid = c.1.rigidWheels := by
    intro c
    have hrigid : (c.1.sites c.2).countP Site.rigid =
        ((c.1.sites c.2).map Site.production).countP fun p =>
          (Site.mk 0 0 c.1.keyword p).rigid := by
      rw [List.countP_map]
      rfl
    rw [hrigid, Section.sites_production, Section.productions, List.countP_filterMap,
      Section.rigidWheels]
    exact List.countP_congr fun e _ => by rw [hproduction]
  have hzip : m.sections.zipIdx.map Prod.fst = m.sections := by simp
  rw [m.canonicalSites_perm.countP_eq, sites, List.countP_flatMap, rigidWheels]
  conv_rhs => rw [← hzip, List.map_map]
  exact congrArg List.sum (List.map_congr_left fun c _ => hsection c)

/-- What the second pass is counted for, all stops together. -/
theorem counted_stops :
    (m.stops.map fun x => (x.answer (m.scope legacy)).countOf (· == .warning)).sum =
        m.fieldRefs.countP (NodeRef.isLoose m.table.size) +
          m.fieldRefs.countP (m.scope legacy).leads + m.fieldRanges.countP
            (fun x => m.table.IsOdd x (x.map (m.scope legacy).value)) ∧
      (m.stops.map fun x : Stop => (x.answer (m.scope legacy)).stats).sum.totalResolved =
        m.fieldRefs.countP (fun r => r.isFound ((m.scope legacy).value r)) ∧
      (m.stops.map fun x : Stop => (x.answer (m.scope legacy)).stats).sum.byLegacyPosition =
        m.fieldRefs.countP (m.scope legacy).leads := by
  have hanswer : ∀ x : Stop, Scope.Counted (x.answer (m.scope legacy))
      (x.mention.refs.countP (NodeRef.isLoose m.table.size))
      (x.mention.refs.countP fun r => r.isFound ((m.scope legacy).value r))
      (x.mention.refs.countP (m.scope legacy).leads)
      (x.mention.ranges.countP fun x => m.table.IsOdd x (x.map (m.scope legacy).value)) := by
    intro x
    have h := Scope.counted_answer { m.scope legacy with defining := x.defining } x.mention
    have hleads : ({ m.scope legacy with defining := x.defining } : Scope).leads =
        (m.scope legacy).leads := by
      unfold Scope.leads
      rw [Scope.value_defining]
    rwa [Scope.value_defining, hleads] at h
  have hsum : ∀ f g h : Stop → Nat, (m.stops.map f).sum + (m.stops.map g).sum +
      (m.stops.map h).sum = (m.stops.map fun x => f x + g x + h x).sum := by
    intro f g h
    rw [← List.sum_map_add, ← List.sum_map_add]
  rw [fieldRefs_stops, fieldRanges_stops, Stats.sum_eq]
  simp only [List.countP_flatMap, hsum, List.map_map]
  refine ⟨?_, ?_, ?_⟩
  · exact congrArg List.sum (List.map_congr_left fun x _ => (hanswer x).warnings)
  · exact congrArg List.sum (List.map_congr_left fun x _ => (hanswer x).resolved)
  · exact congrArg List.sum (List.map_congr_left fun x _ => (hanswer x).led)

theorem countP_warning :
    (m.resolve legacy).messages.countP (fun x => x.severity == .warning) =
      m.warnings (m.resolve legacy).module m.table := by
  have hcount := m.countP_messages legacy (p := (· == .warning)) rfl
  rw [hcount, m.countP_building legacy, (m.counted_stops legacy).1, warnings, led_resolve,
    odd_resolve, countP_isLoose]
  omega

/-- The self-references, and one more for all of them. -/
theorem countP_info :
    (m.resolve legacy).messages.countP (fun x => x.severity == .info || x.severity == .fatal) =
      (m.resolve legacy).stats.resolvedToSelf +
        [m].countP fun m => !(m.selfReferences legacy).isEmpty := by
  have hfatal : ∀ x ∈ (m.resolve legacy).messages,
      (x.severity == .info || x.severity == .fatal) = (x.severity == .info) := by
    intro x hx
    obtain ⟨f, -, rfl⟩ := List.mem_map.mp hx
    have hne : ((f.message (m.resolve legacy).module.name).severity == .fatal) = false :=
      beq_false_of_ne f.notice.severity_ne_fatal
    rw [hne, Bool.or_false]
  rw [List.countP_congr fun x hx => by rw [hfatal x hx], List.countP_eq_length_filter,
    resolve_messages_info, List.length_map, selfFindings, List.length_append, List.length_map,
    resolve_resolvedToSelf]
  cases h : m.selfReferences legacy <;> simp [h]

theorem resolve_counted :
    (m.resolve legacy).stats.totalResolved = (m.found (m.resolve legacy).module).length ∧
      (m.resolve legacy).stats.byLegacyPosition = m.led (m.resolve legacy).module ∧
      (m.resolve legacy).stats.rigidWheels = m.rigidWheels := by
  obtain ⟨-, hresolved, hled⟩ := m.counted_stops legacy
  have hrigid : (m.stops.map fun x : Stop => (x.answer (m.scope legacy)).stats).sum.rigidWheels =
      0 := by
    rw [Stats.sum_eq]
    apply List.sum_eq_zero
    intro n hn
    obtain ⟨a, ha, rfl⟩ := List.mem_map.mp hn
    obtain ⟨x, -, rfl⟩ := List.mem_map.mp ha
    exact (Scope.counted_answer _ x.mention).rigid
  rw [resolve_stats, found_resolve, led_resolve, ← countP_rigid]
  exact ⟨hresolved, hled, (congrArg (· + _) hrigid).trans (Nat.zero_add _)⟩

end Module

namespace Resolver

/-- A run from the start whose warnings, remarks and statistics are accounted for. `aligned` says
that nothing of the document before or after escapes the count for want of a counterpart. -/
structure Tallies (legacy : Bool) (d : Document) (a : Resolver × Document) : Prop where
  aligned : List.Forall₂ (fun m m' => m'.nodeIds.length = m.nodeIds.length ∧
    m'.fieldRefs.length = m.fieldRefs.length ∧ m'.fieldRanges.length = m.fieldRanges.length)
      d.modules a.2.modules
  tables : a.1.finished.map ModuleTable.name = d.modules.map Module.name
  warnings : a.1.diagnostics.warningCount = (((d.modules.zip a.2.modules).zip a.1.finished).map
    fun p => p.1.1.warnings p.1.2 p.2.table).sum
  others : a.1.diagnostics.otherCount =
    a.1.stats.resolvedToSelf + d.modules.countP fun m => !(m.selfReferences legacy).isEmpty
  resolved : a.1.stats.totalResolved =
    ((d.modules.zip a.2.modules).map fun p => (p.1.found p.2).length).sum
  led : a.1.stats.byLegacyPosition = ((d.modules.zip a.2.modules).map fun p => p.1.led p.2).sum
  rigid : a.1.stats.rigidWheels = (d.modules.map Module.rigidWheels).sum

/-- Warnings, remarks and statistics are what the documents before and after show. -/
theorem process_tallies (legacy : Bool) (d : Document) :
    Tallies legacy d ((new ⟨true, legacy⟩).process d) := by
  have h : (new ⟨true, legacy⟩).options.enabled = true := rfl
  have hmodules : ((new ⟨true, legacy⟩).process d).2.modules =
      d.modules.map fun m => (m.resolve legacy).module := by
    rw [process_document h]
    rfl
  have hfinished : ((new ⟨true, legacy⟩).process d).1.finished =
      d.modules.map fun m => ⟨m.name, m.table⟩ := by
    rw [process_finished h]
    rfl
  have hstats : ((new ⟨true, legacy⟩).process d).1.stats =
      (d.modules.map fun m => (m.resolve legacy).stats).sum := by
    rw [process_stats h]
    exact zero_add _
  have hcount : ∀ p : Severity → Bool,
      ((new ⟨true, legacy⟩).process d).1.diagnostics.countOf p = (d.modules.map fun m =>
        (m.resolve legacy).messages.countP fun x => p x.severity).sum := by
    intro p
    rw [process_countOf h]
    exact Nat.zero_add _
  have hzip : d.modules.zip (d.modules.map fun m => (m.resolve legacy).module) =
      d.modules.map fun m => (m, (m.resolve legacy).module) :=
    List.map_prod_left_eq_zip.symm
  rw [Stats.sum_eq] at hstats
  simp only [List.map_map] at hstats
  refine ⟨?aligned, ?tables, ?warnings, ?others, ?resolved, ?led, ?rigid⟩
  case aligned =>
    rw [hmodules, List.forall₂_map_right_iff, List.forall₂_same]
    intro m hm
    rw [Module.fieldRefs_resolve, Module.fieldRanges_resolve, m.nodeIds_length]
    simp
  case tables =>
    rw [hfinished, List.map_map]
    rfl
  case warnings =>
    rw [hmodules, hfinished, hzip, List.zip_map', List.map_map, Diagnostics.warningCount_eq, hcount]
    exact congrArg List.sum (List.map_congr_left fun m _ => m.countP_warning legacy)
  case others =>
    have hsingle : d.modules.countP (fun m => !(m.selfReferences legacy).isEmpty) =
        (d.modules.map fun m => [m].countP fun m => !(m.selfReferences legacy).isEmpty).sum := by
      conv_lhs => rw [← List.flatMap_singleton' d.modules, List.countP_flatMap]
      rfl
    have hself := congrArg Stats.resolvedToSelf hstats
    rw [hself, hsingle, ← List.sum_map_add, Diagnostics.otherCount_eq, hcount]
    exact congrArg List.sum (List.map_congr_left fun m _ => m.countP_info legacy)
  case resolved =>
    rw [hmodules, hzip, List.map_map]
    exact (congrArg Stats.totalResolved hstats).trans
      (congrArg List.sum (List.map_congr_left fun m _ => (m.resolve_counted legacy).1))
  case led =>
    rw [hmodules, hzip, List.map_map]
    exact (congrArg Stats.byLegacyPosition hstats).trans
      (congrArg List.sum (List.map_congr_left fun m _ => (m.resolve_counted legacy).2.1))
  case rigid =>
    exact (congrArg Stats.rigidWheels hstats).trans
      (congrArg List.sum (List.map_congr_left fun m _ => (m.resolve_counted legacy).2.2))

end Resolver

/-- A definition that is moved, a slot outside the table, a reference without an id, a number that
leads to a wheel node, and a range that is reversed. -/
example :
    let m : Module :=
      { name := ""
        sections :=
          [⟨.nodes, [.ofId (.slot ⟨9⟩), .ofId (.number 7)]⟩,
            ⟨.wheels, [.usual 1 #v[.number 7, .number 3] (.number 7)]⟩,
            .ofBeams [(.slot ⟨50⟩, .unresolved)],
            ⟨.railgroups, [⟨0, [⟨.number 7, .slot ⟨0⟩⟩]⟩]⟩] }
    let m' := (m.resolve true).module
    m.moved m' = 1 ∧ m.led m' = 1 ∧ m.odd m' m.table = 1 ∧ m.warnings m' m.table = 5 := by
  decide +kernel

end RigNodes
