import RigNodes.ModuleRun
import RigNodes.Proofs.Layout.ClosedForm
import RigNodes.Proofs.Walk.Laws

/-! The second pass over a module in explicit form. Every definition takes its position as its id,
every reference takes its own answer, and what is noticed and counted is that of the answers. -/
namespace RigNodes

namespace Stats

@[ext] theorem ext {a b : Stats} (h₁ : a.totalResolved = b.totalResolved)
    (h₂ : a.resolvedToSelf = b.resolvedToSelf) (h₃ : a.byLegacyPosition = b.byLegacyPosition)
    (h₄ : a.rigidWheels = b.rigidWheels) : a = b := by
  cases a
  cases b
  simp_all

instance : Zero Stats := ⟨zero⟩

/-- Counts add up in any order. -/
instance : AddCommMonoid Stats where
  add_assoc a b c := by ext <;> exact Nat.add_assoc ..
  zero_add a := by ext <;> exact Nat.zero_add _
  add_zero a := rfl
  add_comm a b := by ext <;> exact Nat.add_comm ..
  nsmul := nsmulRec

theorem foldl_add {α : Type} (f : α → Stats) (l : List α) (a : Stats) :
    l.foldl (fun a c => a + f c) a = (l.map f).sum + a := by
  induction l generalizing a with
  | nil => exact (zero_add a).symm
  | cons c l ih =>
      rw [List.foldl_cons, ih, List.map_cons, List.sum_cons, add_comm a, add_assoc, add_left_comm]

end Stats

namespace Tally

theorem addAll_notices (t : Tally) (l : List (Resolved Mention)) :
    (l.foldl add t).notices.toList = t.notices.toList ++ l.flatMap Resolved.notices := by
  induction l generalizing t with
  | nil => simp
  | cons r l ih => simp [ih, add]

theorem addAll_stats (t : Tally) (l : List (Resolved Mention)) :
    (l.foldl add t).stats = t.stats + (l.map Resolved.stats).sum := by
  induction l generalizing t with
  | nil => simp
  | cons r l ih => simp [ih, add, add_assoc]

end Tally

namespace Scope

/-- What a reference becomes. -/
def value (s : Scope) (r : NodeRef) : NodeRef := (s.resolve r).value

@[simp] theorem value_slot (s : Scope) (x : Slot) : s.value (.slot x) = .slot x := rfl

@[simp] theorem value_unresolved (s : Scope) : s.value .unresolved = .unresolved := rfl

/-- The position that a number or a name stands for. -/
def position? (s : Scope) : NodeRef → Option Nat
  | .number n => (s.table.findNumber? n).or ((s.legacyPosition? n).map Prod.fst)
  | .name x => s.table.findName? x
  | .slot _ | .unresolved => none

theorem value_authored (s : Scope) {r : NodeRef} (hr : r.isAuthored) :
    s.value r = ((s.position? r).map fun p => .slot (.ofPosition p)).getD .unresolved := by
  cases r with
  | number n =>
      cases hn : s.table.findNumber? n with
      | some p => simp [value, resolve, position?, hn, found]
      | none =>
          cases hl : s.legacyPosition? n with
          | some p => simp [value, resolve, position?, hn, hl, found]
          | none => simp [value, resolve, position?, hn, hl, notFound]
  | name x =>
      cases hx : s.table.findName? x with
      | some p => simp [value, resolve, position?, hx, found]
      | none => simp [value, resolve, position?, hx, notFound]
  | slot x => cases hr
  | unresolved => cases hr

theorem value_of_not_authored (s : Scope) {r : NodeRef} (hr : r.isAuthored = false) :
    s.value r = r := by
  cases r with
  | slot x => rfl
  | unresolved => rfl
  | _ => cases hr

theorem value_isAuthored (s : Scope) (r : NodeRef) : (s.value r).isAuthored = false := by
  cases hr : r.isAuthored with
  | true =>
      rw [s.value_authored hr]
      cases s.position? r <;> rfl
  | false => rwa [s.value_of_not_authored hr]

/-- A definition settles a reference, whether the option is there or not. -/
theorem resolve_of_find? (s : Scope) {r : NodeRef} {p : Nat} (h : s.table.find? r = some p) :
    s.resolve r = s.found r p [] 0 := by
  cases r with
  | number n =>
      have hn : s.table.findNumber? n = some p := h
      simp only [resolve, hn]
  | name x =>
      have hx : s.table.findName? x = some p := h
      simp only [resolve, hx]
  | slot x => cases h
  | unresolved => cases h

/-- The nodes that an entry generates itself decide about notices only. -/
theorem value_defining (s : Scope) (d : Option Span) :
    ({ s with defining := d } : Scope).value = s.value := by
  funext r
  cases hr : r.isAuthored with
  | true =>
      have hposition : ({ s with defining := d } : Scope).position? r = s.position? r := by
        cases r <;> rfl
      rw [value_authored _ hr, value_authored _ hr, hposition]
  | false => rw [value_of_not_authored _ hr, value_of_not_authored _ hr]

/-- The answer to a stop of the walk. -/
def answer (s : Scope) : Mention → Resolved Mention
  | .ref r => ⟨.ref (s.resolve r).value, (s.resolve r).notices, (s.resolve r).stats⟩
  | .range r =>
      ⟨.range (s.resolveRange r).value, (s.resolveRange r).notices, (s.resolveRange r).stats⟩

theorem visitor_stop (s : Scope) (x : Mention) (t : Tally) :
    (s.visitor.stop x).run t = (x.map s.value, t.add (s.answer x)) := by
  cases x <;> rfl

theorem walk_visitor {α : Type} [HasRefs α] [LawfulRefs α] (s : Scope) (a : α) (t : Tally) :
    (walk s.visitor a).run t =
      (mapRefs s.value a, ((mentions a).map s.answer).foldl Tally.add t) := by
  rw [run_walk (fun x t => s.visitor_stop x t) a t, List.foldl_map]

end Scope

theorem collectRefs_section (c : Section) : collectRefs c = c.entries.flatMap collectRefs := by
  simp only [collectRefs, mentions_section, List.flatMap_assoc]
  rfl

theorem collectRefs_module (m : Module) : collectRefs m = m.sections.flatMap collectRefs := by
  simp only [collectRefs, mentions_module, List.flatMap_assoc]
  rfl

/-- The id of a definition with these positions. -/
def settledId : Option Span → NodeRef
  | some p => .slot (.ofPosition p.start)
  | none => .unresolved

/-- An entry with its positions, once references are replaced. -/
def settledEntry (f : NodeRef → NodeRef) (span : Option Span) (k : Keyword) (e : Entry k) :
    Entry k :=
  match k, e with
  | .nodes, e | .nodes2, e => ({ e with id := settledId span } : Node)
  | _, e => mapRefs f e

/-- A section with the positions of its entries, once references are replaced. -/
def Section.settled (f : NodeRef → NodeRef) (spans : List (Option Span)) (c : Section) : Section :=
  ⟨c.keyword, c.entries.mapIdx fun j e => settledEntry f spans[j]?.join c.keyword e⟩

theorem settledEntry_congr {f g : NodeRef → NodeRef} (span : Option Span) {k : Keyword}
    {e : Entry k} (h : ∀ r ∈ collectRefs e, f r = g r) :
    settledEntry f span k e = settledEntry g span k e := by
  cases k with
  | nodes => rfl
  | nodes2 => rfl
  | _ => exact mapRefs_congr h

theorem Section.settled_congr {f g : NodeRef → NodeRef} (spans : List (Option Span)) {c : Section}
    (h : ∀ r ∈ collectRefs c, f r = g r) : c.settled f spans = c.settled g spans := by
  have hentries : (c.entries.mapIdx fun j e => settledEntry f spans[j]?.join c.keyword e) =
      c.entries.mapIdx fun j e => settledEntry g spans[j]?.join c.keyword e := by
    rw [List.mapIdx_eq_zipIdx_map, List.mapIdx_eq_zipIdx_map]
    apply List.map_congr_left
    intro e he
    apply settledEntry_congr
    intro r hr
    apply h
    rw [collectRefs_section]
    exact List.mem_flatMap.mpr ⟨e.1, List.fst_mem_of_mem_zipIdx he, hr⟩
  exact congrArg (Section.mk c.keyword) hentries

/-- A node section stays one, and its definitions get their positions. -/
theorem Section.nodes?_settled {c : Section} {ns : List Node} (h : c.nodes? = some ns)
    (f : NodeRef → NodeRef) (spans : List (Option Span)) :
    (c.settled f spans).nodes? =
      some (ns.mapIdx fun j n => { n with id := settledId spans[j]?.join }) := by
  obtain ⟨k, es⟩ := c
  cases k <;> cases h <;> rfl

namespace Scope

/-- The answers to all stops of a section, each entry with its own positions at hand. -/
def answers (s : Scope) (spans : List (Option Span)) (c : Section) : List (Resolved Mention) :=
  (c.entries.mapIdx fun j e =>
    (mentions e).map ({ s with defining := spans[j]?.join } : Scope).answer).flatten

theorem settleEntry_run (s : Scope) (span : Option Span) (k : Keyword) (e : Entry k) (t : Tally) :
    (s.settleEntry span k e).run t =
      (settledEntry s.value span k e,
        ((mentions e).map ({ s with defining := span } : Scope).answer).foldl Tally.add t) := by
  have hwalk := ({ s with defining := span } : Scope).walk_visitor e t
  rw [value_defining] at hwalk
  cases k with
  | nodes => cases span <;> rfl
  | nodes2 => cases span <;> rfl
  | _ => exact hwalk

theorem settleEntries_run (s : Scope) (k : Keyword) (spans : List (Option Span))
    (es : List (Entry k)) (t : Tally) :
    (s.settleEntries k spans es).run t =
      (es.mapIdx fun j e => settledEntry s.value spans[j]?.join k e,
        (es.mapIdx fun j e =>
          (mentions e).map ({ s with defining := spans[j]?.join } : Scope).answer).flatten.foldl
          Tally.add t) := by
  induction es generalizing spans t with
  | nil => rfl
  | cons e es ih =>
      have hhead : spans.head?.join = spans[0]?.join := by rw [List.head?_eq_getElem?]
      have htail : ∀ j : Nat, spans.tail[j]? = spans[j + 1]? := fun j => List.getElem?_tail
      rw [settleEntries, run_bind, run_bind, run_pure, settleEntry_run, ih]
      simp only [List.mapIdx_cons, List.flatten_cons, List.foldl_append, hhead, htail]

theorem settleSection_eq (s : Scope) (spans : List (Option Span)) (c : Section) :
    s.settleSection spans c =
      (c.settled s.value spans, (s.answers spans c).foldl Tally.add .zero) := by
  rw [settleSection, settleEntries_run]
  rfl

end Scope

namespace Module
variable (m : Module)

/-- The positions of the entries of a section of a module. -/
def spansAt (c : Section × Nat) : List (Option Span) := (c.1.sites c.2).map m.span?

/-- The finished table of a module. -/
def table : NodeTable :=
  (NodeTable.ofRows m.tableRows).setLegacyOrder (legacyOrder (m.sections.zipIdx.map m.spansAt))

theorem spans_getElem? (i : Nat) :
    (Layout.of m).spans[i]? = m.sections[i]?.map fun c => m.spansAt (c, i) := by
  rw [Layout.of_eq, List.getElem?_map, List.getElem?_zipIdx, Option.map_map, Nat.zero_add]
  rfl

theorem get?_table (p : Nat) : m.table.get? p = m.tableRows[p]? := by
  simp [NodeTable.get?, table, NodeTable.setLegacyOrder]

theorem entries_table : m.table.entries.toList = m.tableRows := by
  simp [table, NodeTable.setLegacyOrder]

theorem size_table : m.table.size = m.tableRows.length := by
  simp [NodeTable.size, table, NodeTable.setLegacyOrder]

/-- The scope that the references of a module stand in, apart from what their own entry defines. -/
def scope (legacy : Bool) : Scope := ⟨m.table, legacy, none⟩

/-- The sections of a module with their positions, each settled on its own. -/
def settledSections (legacy : Bool) : List (Section × Tally) :=
  m.sections.zipIdx.map fun c => (m.scope legacy).settleSection (m.spansAt c) c.1

/-- What a module is counted for, its wheels included. -/
def countedStats (legacy : Bool) : Stats :=
  ((m.settledSections legacy).map fun c => c.2.stats).sum +
    ⟨0, 0, 0, m.canonicalSites.countP Site.rigid⟩

theorem zip_zipIdx_map {α β : Type} (l : List α) (g : α × Nat → β) :
    l.zip (l.zipIdx.map g) = l.zipIdx.map fun c => (c.1, g c) := by
  apply List.ext_getElem <;> simp

/-- The run over a module, with positions and table known beforehand. -/
theorem resolve_eq (legacy : Bool) :
    m.resolve legacy =
      { module := { m with sections := (m.settledSections legacy).map Prod.fst }
        table := m.table
        building := m.canonicalSites.flatMap m.findings
        settling := (m.settledSections legacy).flatMap (fun c => c.2.findings c.1.keyword) ++
          ModuleRun.closing (m.countedStats legacy).resolvedToSelf
        stats := m.countedStats legacy } := by
  have hsettled : ((m.sections.zip (Layout.of m).spans).map fun c =>
      (⟨(Layout.of m).table, legacy, none⟩ : Scope).settleSection c.2 c.1) =
        m.settledSections legacy := by
    rw [Layout.of_eq]
    simp only [zip_zipIdx_map, List.map_map]
    rfl
  unfold Module.resolve
  simp only [hsettled, Stats.foldl_add]
  rw [Layout.of_eq]
  rfl

theorem resolve_sections (legacy : Bool) :
    (m.resolve legacy).module.sections =
      m.sections.zipIdx.map fun c => c.1.settled (m.scope legacy).value (m.spansAt c) := by
  rw [resolve_eq, settledSections]
  simp [Scope.settleSection_eq]

end Module

theorem mentions_settledEntry (f : NodeRef → NodeRef) (span : Option Span) (k : Keyword)
    (e : Entry k) : mentions (settledEntry f span k e) = (mentions e).map (Mention.map f) := by
  cases k with
  | nodes => rfl
  | nodes2 => rfl
  | _ => exact mentions_mapRefs f e

theorem Section.mentions_settled (f : NodeRef → NodeRef) (spans : List (Option Span))
    (c : Section) : mentions (c.settled f spans) = (mentions c).map (Mention.map f) := by
  rw [mentions_section, mentions_section, settled, List.mapIdx_eq_zipIdx_map,
    List.flatMap_map, List.map_flatMap]
  simp only [mentions_settledEntry]
  exact flatMap_zipIdx c.entries fun e => (mentions e).map (Mention.map f)

/-- The stops of a processed module are those of the module, each in place of its own. -/
theorem Module.mentions_resolve (m : Module) (legacy : Bool) :
    mentions (m.resolve legacy).module =
      (mentions m).map (Mention.map (m.scope legacy).value) := by
  rw [mentions_module, resolve_sections, mentions_module, List.flatMap_map, List.map_flatMap]
  simp only [Section.mentions_settled]
  exact flatMap_zipIdx m.sections fun c => (mentions c).map (Mention.map (m.scope legacy).value)

theorem Module.collectRefs_resolve (m : Module) (legacy : Bool) :
    collectRefs (m.resolve legacy).module = (collectRefs m).map (m.scope legacy).value := by
  simp only [collectRefs, mentions_resolve, List.flatMap_map, List.map_flatMap, Mention.refs_map]

end RigNodes
