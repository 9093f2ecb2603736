import RigNodes.Document.Sample
import RigNodes.Proofs.Stops
import RigNodes.Proofs.Walk.Fields

/-! Processing reaches every reference of a document and nothing else. References are counted off
the fields of the entries here, not by the walk that rewrites them; what is left of a document
without its references and ids is the same before and after. -/
namespace RigNodes

/-- An entry with all its references taken out, and with its id if it defines a node. -/
def blankEntry (k : Keyword) (e : Entry k) : Entry k :=
  match k, e with
  | .nodes, e | .nodes2, e => ({ e with id := .unresolved } : Node)
  | k, e => mapFields (fun _ => .unresolved) k e

def Section.blank (c : Section) : Section := ⟨c.keyword, c.entries.map (blankEntry c.keyword)⟩

def Module.blank (m : Module) : Module := { m with sections := m.sections.map Section.blank }

/-- What a document holds besides references and node ids. -/
def Document.blank (d : Document) : Document := { d with modules := d.modules.map Module.blank }

/-- The references and ranges of a module as they stand in its fields, in declared order. -/
def Module.fieldStops (m : Module) : List Mention :=
  m.sections.flatMap fun c => c.entries.flatMap (RigNodes.fieldStops c.keyword)

theorem Module.mentions_eq (m : Module) : mentions m = m.fieldStops := by
  rw [mentions_module]
  apply List.flatMap_congr
  intro c hc
  rw [mentions_section]
  apply List.flatMap_congr
  intro e he
  exact mentions_entry c.keyword e

theorem blankEntry_settledEntry (f : NodeRef → NodeRef) (span : Option Span) (k : Keyword)
    (e : Entry k) : blankEntry k (settledEntry f span k e) = blankEntry k e := by
  have hwalk : ∀ e : Entry k, mapFields (fun _ => .unresolved) k (mapRefs f e) =
      mapFields (fun _ => .unresolved) k e := by
    intro e
    rw [← mapRefs_entry, mapRefs_mapRefs, ← mapRefs_entry]
    rfl
  cases k with
  | nodes | nodes2 => rfl
  | _ => exact hwalk e

theorem Section.blank_settled (f : NodeRef → NodeRef) (spans : List (Option Span)) (c : Section) :
    (c.settled f spans).blank = c.blank := by
  have hentries : (c.entries.mapIdx fun j e => settledEntry f spans[j]?.join c.keyword e).map
      (blankEntry c.keyword) = c.entries.map (blankEntry c.keyword) := by
    apply List.ext_getElem
    · simp
    · intro j hj hj'
      simp [blankEntry_settledEntry]
  exact congrArg (Section.mk c.keyword) hentries

theorem Module.blank_resolve (m : Module) (legacy : Bool) :
    (m.resolve legacy).module.blank = m.blank := by
  have hsections : (m.resolve legacy).module.sections.map Section.blank =
      m.sections.map Section.blank := by
    have hzip : m.sections.zipIdx.map Prod.fst = m.sections := by simp
    rw [resolve_sections, List.map_map]
    conv_rhs => rw [← hzip, List.map_map]
    apply List.map_congr_left
    intro c hc
    exact c.1.blank_settled _ _
  have hname : (m.resolve legacy).module.name = m.name := by rw [resolve_eq]
  unfold blank
  rw [hsections, hname]

/-- The positions of the entries of producing sections are complete. -/
theorem Module.spans_length (m : Module) {i : Nat} {c : Section} (hc : m.sections[i]? = some c)
    (hk : c.keyword.producesNodes = true) :
    ∃ spans, (Layout.of m).spans[i]? = some spans ∧ spans.length = c.entries.length := by
  refine ⟨m.spansAt (c, i), ?_, ?_⟩
  · rw [spans_getElem?, hc, Option.map_some]
  · rw [spansAt, List.length_map, Section.sites, List.length_mapIdx]
    exact Section.productions_length hk

theorem settledId_isAuthored (span : Option Span) : (settledId span).isAuthored = false := by
  cases span <;> rfl

theorem Section.nodes?_settled_map (f : NodeRef → NodeRef) (spans : List (Option Span))
    (c : Section) : (c.settled f spans).nodes? =
      c.nodes?.map (List.mapIdx fun j n => { n with id := settledId spans[j]?.join }) := by
  obtain ⟨k, es⟩ := c
  cases k <;> rfl

/-- The ids of a processed module are the positions that its definitions were handed. -/
theorem Module.nodeIds_resolve (m : Module) (legacy : Bool) :
    (m.resolve legacy).module.nodeIds = m.sections.zipIdx.flatMap fun c =>
      (c.1.nodes?.getD []).mapIdx fun j _ => settledId (m.spansAt c)[j]?.join := by
  rw [nodeIds, resolve_sections, List.flatMap_map]
  apply List.flatMap_congr
  intro c hc
  rw [Section.nodes?_settled_map]
  cases c.1.nodes? with
  | none => rfl
  | some ns => simp [List.mapIdx_eq_zipIdx_map]

/-- A run over a module that gives each of its references one answer, in walk order, and leaves
everything else as it was. -/
structure Module.Covers (m : Module) (legacy : Bool) (run : ModuleRun) : Prop where
  walked : mentions m = m.fieldStops ∧ mentions run.module = run.module.fieldStops
  refs : List.Forall₂ (fun x y => y = ((Scope.mk run.table legacy none).resolve x).value)
    (collectRefs m) (collectRefs run.module)
  answers : m.stops.map Stop.mention = m.fieldStops ∧
    run.module.fieldStops =
      m.stops.map (fun x => (x.answer (Scope.mk run.table legacy none)).value) ∧
    run.settling = m.stops.flatMap (Stop.findings (Scope.mk run.table legacy none)) ++
      ModuleRun.closing run.stats.resolvedToSelf ∧
    run.stats = (m.stops.map fun x => (x.answer (Scope.mk run.table legacy none)).stats).sum +
      ⟨0, 0, 0, (Layout.of m).rigidWheels⟩
  positions {i : Nat} {c : Section} (hc : m.sections[i]? = some c)
    (hk : c.keyword.producesNodes = true) :
    ∃ spans, (Layout.of m).spans[i]? = some spans ∧ spans.length = c.entries.length
  settled {x : Mention} {y : NodeRef} (hx : x ∈ run.module.fieldStops) (hy : y ∈ x.refs) :
    y.isAuthored = false
  ids {y : NodeRef} (hy : y ∈ run.module.nodeIds) : y.isAuthored = false
  frame : run.module.blank = m.blank

theorem Module.covers_resolve (m : Module) (legacy : Bool) :
    m.Covers legacy (m.resolve legacy) := by
  have htable : Scope.mk (m.resolve legacy).table legacy none = m.scope legacy := by
    rw [resolve_eq]
    rfl
  refine ⟨⟨m.mentions_eq, Module.mentions_eq _⟩, ?refs, ?answers, m.spans_length, ?settled, ?ids,
    m.blank_resolve legacy⟩
  case refs =>
    rw [collectRefs_resolve, List.forall₂_map_right_iff, List.forall₂_same, htable]
    intro x hx
    rfl
  case answers =>
    refine ⟨?_, ?_, ?_, ?_⟩
    · rw [stops_mention, mentions_eq]
    · rw [← mentions_eq, mentions_resolve, ← stops_mention, List.map_map, htable]
      apply List.map_congr_left
      intro x hx
      exact (x.answer_value _).symm
    · rw [htable]
      exact m.resolve_settling legacy
    · rw [htable, Layout.of_eq]
      exact m.resolve_stats legacy
  case settled =>
    intro x y hx hy
    rw [← mentions_eq, mentions_resolve] at hx
    obtain ⟨x, -, rfl⟩ := List.mem_map.mp hx
    rw [Mention.refs_map] at hy
    obtain ⟨y, -, rfl⟩ := List.mem_map.mp hy
    exact Scope.value_isAuthored _ y
  case ids =>
    intro y hy
    rw [nodeIds_resolve] at hy
    obtain ⟨c, -, hy⟩ := List.mem_flatMap.mp hy
    obtain ⟨j, -, rfl⟩ := List.mem_mapIdx.mp hy
    exact settledId_isAuthored _

namespace Resolver

/-- A run over a document that covers each of its modules, says what these runs say and adds
nothing to it. -/
structure Covers (r : Resolver) (d : Document) (a : Resolver × Document) : Prop where
  modules {i : Nat} {m : Module} (hm : d.modules[i]? = some m) : ∃ run,
    (r.runs d)[i]? = some run ∧ a.2.modules[i]? = some run.module ∧
      a.1.finished[r.finished.length + i]? = some ⟨m.name, run.table⟩ ∧
      m.Covers r.options.legacy run
  messages : a.1.diagnostics.messages.toList =
    r.diagnostics.messages.toList ++ (r.runs d).flatMap ModuleRun.messages
  stats : a.1.stats = r.stats + ((r.runs d).map ModuleRun.stats).sum
  frame : a.2.blank = d.blank

/-- Processing covers a document: no reference is left out, none is met twice, and nothing else is
touched. -/
theorem process_covers {r : Resolver} (h : r.options.enabled = true) (d : Document) :
    r.Covers d (r.process d) := by
  refine ⟨?modules, ?messages, ?stats, ?frame⟩
  case modules =>
    intro i m hm
    obtain ⟨hmodule, htable⟩ := process_module d h hm
    refine ⟨m.resolve r.options.legacy, ?_, hmodule, ?_, m.covers_resolve _⟩
    · rw [runs, List.getElem?_map, hm]
      rfl
    · rw [htable, Module.resolve_eq]
  case messages =>
    rw [process_messages h, runs, List.flatMap_map]
  case stats =>
    rw [process_stats h, runs, List.map_map]
    rfl
  case frame =>
    have hmodules : (d.modules.map fun m => (m.resolve r.options.legacy).module).map Module.blank =
        d.modules.map Module.blank := by
      rw [List.map_map]
      apply List.map_congr_left
      intro m hm
      exact m.blank_resolve _
    rw [process_document h]
    exact congrArg (Document.mk d.name) hmodules

theorem process_covers_truck :
    (new ⟨true, false⟩).Covers .sampleTruck ((new ⟨true, false⟩).process .sampleTruck) ∧
      ((new ⟨true, false⟩).process .sampleTruck).2.blank = Document.sampleTruck.blank ∧
      ((new ⟨true, false⟩).process .sampleTruck).2 ≠ .sampleTruck := by
  have h := process_covers (r := new ⟨true, false⟩) rfl .sampleTruck
  exact ⟨h, h.frame, by decide +kernel⟩

end Resolver

end RigNodes
