import RigNodes.Proofs.CanonicalTable

/-! A processed module, seen by a second run. Its entries produce what they produced before, with
slots for ids; the build pass hands every entry the positions it had, and there is nothing left to
replace. -/
namespace RigNodes

/-- What an entry produces after it was given its positions. -/
def Production.settled (span : Option Span) : Production → Production
  | .definition _ => .definition (settledId span)
  | p => p

@[simp] theorem Production.settled_width (span : Option Span) (p : Production) :
    (p.settled span).width = p.width := by
  cases p <;> rfl

/-- Replacing references leaves the rays and the rigidity of a wheel alone. -/
theorem production?_settledEntry (f : NodeRef → NodeRef) (span : Option Span) (k : Keyword)
    (e : Entry k) :
    production? k (settledEntry f span k e) = (production? k e).map (Production.settled span) := by
  have hrigid : ∀ r : Option NodeRef, (mapRefs f r).isSome = r.isSome := by
    intro r
    cases r <;> rfl
  cases k <;> first | rfl | exact congrArg (fun b => some (Production.wheel _ _ b)) (hrigid _)

theorem Production.settled_of_generated {k : Keyword} {p : Production} (h : p.Fits k)
    (hk : ¬ (k = .nodes ∨ k = .nodes2)) (span : Option Span) : p.settled span = p := by
  cases p with
  | definition id => exact absurd h hk
  | point kind => rfl
  | wheel kind rays rigid => rfl

theorem Section.productions_settled {c : Section} (hc : c.nodes? = none) (f : NodeRef → NodeRef)
    (spans : List (Option Span)) : (c.settled f spans).productions = c.productions := by
  have hk : ¬ (c.keyword = .nodes ∨ c.keyword = .nodes2) := by
    rw [← c.nodes?_isSome, hc]
    simp
  have hentry : ∀ span (e : Entry c.keyword),
      production? c.keyword (settledEntry f span c.keyword e) = production? c.keyword e := by
    intro span e
    rw [production?_settledEntry]
    cases he : production? c.keyword e with
    | none => rfl
    | some p => rw [Option.map_some, p.settled_of_generated (production_fits he) hk]
  have hzip : c.entries.zipIdx.map Prod.fst = c.entries := by simp
  have hproductions : (c.settled f spans).productions =
      (c.entries.mapIdx fun j e => settledEntry f spans[j]?.join c.keyword e).filterMap
        (production? c.keyword) := rfl
  rw [hproductions, List.mapIdx_eq_zipIdx_map, List.filterMap_map]
  conv_rhs => rw [productions, ← hzip, List.filterMap_map]
  exact List.filterMap_congr fun x _ => hentry _ x.1

namespace Module
variable (m : Module)

/-- A site of a module as it is after the run. -/
def settledSite (s : Site) : Site := { s with production := s.production.settled (m.span? s) }

theorem sites_settled (f : NodeRef → NodeRef) (c : Section × Nat) :
    (c.1.settled f (m.spansAt c)).sites c.2 = (c.1.sites c.2).map m.settledSite := by
  obtain ⟨c, i⟩ := c
  cases hc : c.nodes? with
  | some ns =>
      rw [Section.sites_of_nodes (Section.nodes?_settled hc f _), spansAt, c.sites_of_nodes hc]
      apply List.ext_getElem
      · simp
      · intro j hj hj'
        have hlt : j < ns.length := by simpa using hj
        simp [hlt, settledSite, Production.settled, Section.settled]
  | none =>
      have hkeep : ∀ s ∈ c.sites i, m.settledSite s = s := by
        intro s hs
        have hk : ¬ (s.keyword = .nodes ∨ s.keyword = .nodes2) := by
          rw [(Section.mem_sites hs).2.1, ← c.nodes?_isSome, hc]
          simp
        rw [settledSite, s.production.settled_of_generated (Section.sites_fits hs) hk]
      rw [Section.sites, Section.productions_settled hc, List.map_congr_left hkeep, List.map_id']
      rfl

/-- A module as it is after the run. -/
def processed (legacy : Bool) : Module := (m.resolve legacy).module

theorem processed_name (legacy : Bool) : (m.processed legacy).name = m.name := by
  rw [processed, resolve_eq]

theorem processed_zipIdx (legacy : Bool) :
    (m.processed legacy).sections.zipIdx =
      m.sections.zipIdx.map fun c => (c.1.settled (m.scope legacy).value (m.spansAt c), c.2) := by
  rw [processed, resolve_sections]
  apply List.ext_getElem <;> simp

theorem processed_sites (legacy : Bool) :
    (m.processed legacy).sites = m.sites.map m.settledSite := by
  rw [sites, sites, processed_zipIdx, List.flatMap_map, List.map_flatMap]
  exact List.flatMap_congr fun c _ => m.sites_settled _ c

theorem processed_canonicalSites (legacy : Bool) :
    (m.processed legacy).canonicalSites = m.canonicalSites.map m.settledSite :=
  canonicalSites_map (m.processed_sites legacy) fun _ => rfl

variable {m} {s : Site} {legacy : Bool}

theorem settledSite_id? : (m.settledSite s).id? = s.id?.map fun _ => settledId (m.span? s) := by
  rcases s with ⟨i, j, k, (id | kind | ⟨kind, rays, rigid⟩)⟩ <;> rfl

theorem settledId_span? :
    settledId (m.span? s) =
      if m.accepts s then .slot (.ofPosition (m.start s)) else .unresolved := by
  unfold span?
  split <;> rfl

/-- Who was accepted is accepted again, whatever stands before. -/
theorem accepts_settledSite (m' : Module) : m'.accepts (m.settledSite s) = m.accepts s := by
  cases hid : s.id? with
  | none => simp [accepts, settledSite_id?, hid]
  | some id =>
      have hsettled : (m.settledSite s).id? =
          some (if m.accepts s then .slot (.ofPosition (m.start s)) else .unresolved) := by
        rw [settledSite_id?, hid, Option.map_some, settledId_span?]
      rw [accepts, hsettled]
      cases m.accepts s <;> rfl

theorem rows_settledSite (m' : Module) :
    m'.rows (m.settledSite s) =
      if m.accepts s then (s.production.settled (m.span? s)).rows s.keyword else [] := by
  rw [rows, accepts_settledSite]
  rfl

theorem start_settledSite (hs : s ∈ m.sites) :
    (m.processed legacy).start (m.settledSite s) = m.start s := by
  refine start_map (m.processed_canonicalSites legacy) (fun t => ?_) hs
  rw [rows_settledSite, rows]
  split <;> simp

theorem span?_settledSite (hs : s ∈ m.sites) :
    (m.processed legacy).span? (m.settledSite s) = m.span? s := by
  rw [span?, span?, accepts_settledSite, start_settledSite hs, settledSite,
    Production.settled_width]

theorem spansAt_settled {c : Section × Nat} (hc : c ∈ m.sections.zipIdx) (f : NodeRef → NodeRef) :
    (m.processed legacy).spansAt (c.1.settled f (m.spansAt c), c.2) = m.spansAt c := by
  rw [spansAt, sites_settled, List.map_map]
  exact List.map_congr_left fun s hs => span?_settledSite (List.mem_flatMap.mpr ⟨c, hc, hs⟩)

/-- What rows are like, apart from ids, is what it was, as long as a slot for an id makes no
difference to a definition. -/
theorem processed_rows {β : Type} (g : TableEntry → β)
    (hg : ∀ d ∈ m.definitions, ∀ x,
      g ((NodeRef.slot x).row (Build.slotKind d.1)) = g (d.2.row (Build.slotKind d.1))) :
    (m.processed legacy).tableRows.map g = m.tableRows.map g := by
  rw [tableRows, tableRows, processed_canonicalSites, List.flatMap_map, List.map_flatMap,
    List.map_flatMap]
  refine List.flatMap_congr fun s hs => ?_
  rw [rows_settledSite, rows]
  by_cases hacc : m.accepts s = true
  · rw [if_pos hacc, if_pos hacc, span?, if_pos hacc]
    cases hp : s.production with
    | definition id =>
        have hid : s.id? = some id := Site.id?_eq_some.mpr hp
        have hd : (s.keyword, id) ∈ m.definitions := by
          rw [definitions_eq, List.mem_filterMap]
          refine ⟨s, mem_definingSites.mpr ⟨m.mem_canonicalSites.mp hs, by simp [hid]⟩, ?_⟩
          rw [definition?, hid, Option.map_some]
        exact congrArg (fun b => [b]) (hg _ hd _)
    | point kind => rfl
    | wheel kind rays rigid => rfl
  · rw [if_neg hacc, if_neg hacc]

theorem processed_legacyOrder :
    (m.processed legacy).table.legacyOrder = m.table.legacyOrder := by
  have hspans : (m.processed legacy).sections.zipIdx.map (m.processed legacy).spansAt =
      m.sections.zipIdx.map m.spansAt := by
    rw [processed_zipIdx, List.map_map]
    exact List.map_congr_left fun c hc => spansAt_settled hc _
  rw [table, table, hspans]
  rfl

end Module

theorem settledEntry_settledEntry {f f' : NodeRef → NodeRef} (hf : ∀ r, f' (f r) = f r)
    (span : Option Span) (k : Keyword) (e : Entry k) :
    settledEntry f' span k (settledEntry f span k e) = settledEntry f span k e := by
  have hcomp : f' ∘ f = f := funext hf
  cases k with
  | nodes => rfl
  | nodes2 => rfl
  | _ =>
      refine (mapRefs_mapRefs f f' e).trans ?_
      rw [hcomp]
      rfl

theorem Section.settled_settled {f f' : NodeRef → NodeRef} (hf : ∀ r, f' (f r) = f r)
    (spans : List (Option Span)) (c : Section) :
    (c.settled f spans).settled f' spans = c.settled f spans := by
  have hentries : (c.entries.mapIdx fun j e => settledEntry f spans[j]?.join c.keyword e).mapIdx
      (fun j e => settledEntry f' spans[j]?.join c.keyword e) =
        c.entries.mapIdx fun j e => settledEntry f spans[j]?.join c.keyword e := by
    apply List.ext_getElem <;> simp [settledEntry_settledEntry hf]
  rw [settled, settled]
  exact congrArg (Section.mk c.keyword) hentries

/-- A second run changes nothing. -/
theorem Module.processed_processed (m : Module) (legacy legacy' : Bool) :
    (m.processed legacy).processed legacy' = m.processed legacy := by
  have hsections : ((m.processed legacy).resolve legacy').module.sections =
      (m.processed legacy).sections := by
    rw [resolve_sections, processed_zipIdx, List.map_map, processed, resolve_sections]
    refine List.map_congr_left fun c hc => ?_
    rw [Function.comp_apply, ← processed, spansAt_settled hc]
    refine Section.settled_settled (fun r => ?_) _ _
    exact Scope.value_of_not_authored _ (Scope.value_isAuthored _ r)
  have hmodule : (m.processed legacy).processed legacy' =
      { m.processed legacy with
        sections := ((m.processed legacy).resolve legacy').module.sections } := by
    rw [processed, resolve_eq]
  rw [hmodule, hsections]

end RigNodes
