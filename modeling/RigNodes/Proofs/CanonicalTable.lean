import RigNodes.Document.Sample
import RigNodes.Proofs.Process

/-! The table of a module from its text alone: the definitions that keep their ids, then the nodes
of the cinecams, then the rings of the wheels. The table that a run finishes has these rows and no
others, and its indexes, counts and base offsets are read off them. -/
namespace RigNodes

namespace Module
variable (m : Module)

/-- The definitions of a module in canonical order, each with the keyword it stands under. -/
def definitions : List (Keyword × NodeRef) :=
  [Keyword.nodes, .nodes2].flatMap fun k => (m.sectionsOf k).flatMap fun c =>
    (c.nodes?.getD []).map fun n => (k, n.id)

end Module

/-- The definitions that keep their ids: an unresolved id is dropped, and so is a number or a name
that stands earlier in the list. -/
def retained (seen : List NodeRef) : List (Keyword × NodeRef) → List (Keyword × NodeRef)
  | [] => []
  | (k, id) :: rest =>
      if id = .unresolved ∨ id.isAuthored ∧ id ∈ seen then retained (id :: seen) rest
      else (k, id) :: retained (id :: seen) rest

/-- The row of a definition. The id tells a number from a name, and for a slot the section does. -/
def definedRow (d : Keyword × NodeRef) : TableEntry where
  origin := match d.2 with
    | .number _ => .numbered
    | .name _ => .named
    | _ => if d.1 = .nodes2 then .named else .numbered
  role := none
  userId := some d.2
  ray := 0

/-- The rows of a generating entry: one for a cinecam, and the rings of a wheel. -/
def generatedRows (k : Keyword) (e : Entry k) : List TableEntry :=
  match Kind.generatedBy? k, wheelForm? k e with
  | some kind, some w =>
      (List.range (w.rays.toNat * kind.nodesPerRay?.getD 0)).map (kind.wheelRow w.rays.toNat)
  | some kind, none => [⟨kind, none, none, 0⟩]
  | none, _ => []

/-- The rows of a module in canonical order. -/
def Module.canonicalRows (m : Module) : List TableEntry :=
  (retained [] m.definitions).map definedRow ++
    [Keyword.cinecam, .wheels, .wheels2, .meshwheels, .meshwheels2, .flexbodywheels].flatMap
      fun k => (m.sectionsOf k).flatMap fun c => c.entries.flatMap (generatedRows c.keyword)

theorem Section.productions_of_nodes {c : Section} {es : List Node} (h : c.nodes? = some es) :
    c.productions = es.map fun n => .definition n.id := by
  obtain ⟨k, es'⟩ := c
  cases k with
  | nodes =>
      cases h
      exact congrFun (List.filterMap_eq_map' (f := fun n : Node => Production.definition n.id)) es
  | nodes2 =>
      cases h
      exact congrFun (List.filterMap_eq_map' (f := fun n : Node => Production.definition n.id)) es
  | _ => cases h

theorem Section.sites_of_nodes {c : Section} {ns : List Node} (h : c.nodes? = some ns) (i : Nat) :
    c.sites i = ns.mapIdx fun j n => ⟨i, j, c.keyword, .definition n.id⟩ := by
  apply List.ext_getElem <;> simp [sites, c.productions_of_nodes h]

theorem Section.filterMap_sites (c : Section) (i : Nat) :
    (c.sites i).filterMap Site.id? = (c.nodes?.getD []).map Node.id := by
  cases hc : c.nodes? with
  | none =>
      refine List.filterMap_eq_nil_iff.mpr fun s hs => ?_
      rw [← Option.not_isSome_iff_eq_none, sites_id?_isSome hs, hc]
      simp
  | some ns =>
      have hzip : ns.zipIdx.map Prod.fst = ns := by simp
      rw [c.sites_of_nodes hc, List.mapIdx_eq_zipIdx_map, List.filterMap_map, Option.getD_some]
      conv_rhs => rw [← hzip, List.map_map]
      exact congrFun List.filterMap_eq_map _

theorem Module.nodeIds_eq (m : Module) : m.nodeIds = m.sites.filterMap Site.id? := by
  rw [nodeIds, sites, List.filterMap_flatMap, ← flatMap_zipIdx m.sections]
  exact List.flatMap_congr fun c _ => (c.1.filterMap_sites c.2).symm

namespace Module
variable (m : Module)

/-- What is read off the sites of one keyword is read off its sections. -/
theorem flatMap_filter_sites {β : Type} (k : Keyword) (g : Keyword → Production → List β) :
    ((m.sites.filter fun s => s.keyword == k).flatMap fun s => g s.keyword s.production) =
      (m.sectionsOf k).flatMap fun c => c.productions.flatMap (g c.keyword) := by
  have hsection : ∀ c : Section × Nat,
      ((c.1.sites c.2).flatMap fun s => g s.keyword s.production) =
        c.1.productions.flatMap (g c.1.keyword) := by
    intro c
    rw [← c.1.sites_production c.2, List.flatMap_map]
    exact List.flatMap_congr fun s hs => by rw [(Section.mem_sites hs).2.1]
  have hfst : (m.sections.zipIdx.filter fun c => c.1.keyword == k).map Prod.fst =
      m.sectionsOf k := by
    have hzip : m.sections.zipIdx.map Prod.fst = m.sections := by simp
    conv_rhs => rw [sectionsOf, ← hzip, List.filter_map]
    rfl
  rw [filter_sites, List.flatMap_assoc, ← hfst, List.flatMap_map]
  exact List.flatMap_congr fun c _ => hsection c

/-- The sites that define nodes, in canonical order. -/
def definingSites : List Site :=
  [Keyword.nodes, .nodes2].flatMap fun k => m.sites.filter fun s => s.keyword == k

/-- The sites that generate nodes, in canonical order. -/
def generatingSites : List Site :=
  [Keyword.cinecam, .wheels, .wheels2, .meshwheels, .meshwheels2, .flexbodywheels].flatMap
    fun k => m.sites.filter fun s => s.keyword == k

theorem canonicalSites_eq_append : m.canonicalSites = m.definingSites ++ m.generatingSites := by
  rw [canonicalSites_eq, definingSites, generatingSites, ← List.flatMap_append]
  rfl

variable {m} in
theorem id?_isSome_of_mem_definingSites {s : Site} (hs : s ∈ m.definingSites) : s.id?.isSome := by
  obtain ⟨k, hk, hs⟩ := List.mem_flatMap.mp hs
  obtain ⟨hs, hsk⟩ := List.mem_filter.mp hs
  rw [Site.id?_isSome_of_fits (m.sites_fits hs), eq_of_beq hsk]
  simpa using hk

variable {m} in
theorem id?_eq_none_of_mem_generatingSites {s : Site} (hs : s ∈ m.generatingSites) :
    s.id? = none := by
  obtain ⟨k, hk, hs⟩ := List.mem_flatMap.mp hs
  obtain ⟨hs, hsk⟩ := List.mem_filter.mp hs
  rw [← Option.not_isSome_iff_eq_none, Site.id?_isSome_of_fits (m.sites_fits hs), eq_of_beq hsk]
  rintro (rfl | rfl) <;> simp at hk

variable {m} in
theorem mem_definingSites {s : Site} : s ∈ m.definingSites ↔ s ∈ m.sites ∧ s.id?.isSome := by
  rw [← mem_canonicalSites, canonicalSites_eq_append, List.mem_append]
  constructor
  · exact fun h => ⟨.inl h, id?_isSome_of_mem_definingSites h⟩
  · rintro ⟨h | h, hid⟩
    · exact h
    · rw [id?_eq_none_of_mem_generatingSites h] at hid
      cases hid

/-- The keyword and the id of a definition. -/
def definition? (s : Site) : Option (Keyword × NodeRef) := s.id?.map fun id => (s.keyword, id)

theorem definitions_eq : m.definitions = m.definingSites.filterMap definition? := by
  have hsection : ∀ k ∈ [Keyword.nodes, .nodes2], ∀ c ∈ m.sectionsOf k,
      ((c.nodes?.getD []).map fun n => (k, n.id)) =
        c.productions.flatMap fun p => (definition? ⟨0, 0, c.keyword, p⟩).toList := by
    intro k hk c hc
    obtain rfl : c.keyword = k := eq_of_beq (List.mem_filter.mp hc).2
    obtain ⟨es, hes⟩ := Option.isSome_iff_exists.mp (c.nodes?_isSome.mpr (List.mem_pair.mp hk))
    rw [hes, c.productions_of_nodes hes, List.flatMap_map, Option.getD_some, List.map_eq_flatMap]
    rfl
  rw [definitions, definingSites, List.filterMap_flatMap]
  refine List.flatMap_congr fun k hk => ?_
  rw [List.flatMap_congr (hsection k hk), List.filterMap_eq_flatMap_toList]
  exact (m.flatMap_filter_sites k fun k p => (definition? ⟨0, 0, k, p⟩).toList).symm

/-- Going through the definitions with the ids seen so far keeps what the module accepts. -/
theorem retained_eq {before more after : List Site} {seen : List NodeRef}
    (h : m.canonicalSites = before ++ more ++ after)
    (hseen : ∀ id, id ∈ seen ↔ ∃ t ∈ before, t.id? = some id) :
    retained seen (more.filterMap definition?) = (more.filter m.accepts).filterMap definition? := by
  induction more generalizing before seen with
  | nil => rfl
  | cons s more ih =>
      have hrest : m.canonicalSites = before ++ [s] ++ more ++ after := by simpa using h
      cases hs : s.id? with
      | none =>
          have hdef : definition? s = none := by simp [definition?, hs]
          have hseen' : ∀ id, id ∈ seen ↔ ∃ t ∈ before ++ [s], t.id? = some id := by
            simpa [or_and_right, exists_or, hs] using hseen
          rw [List.filterMap_cons_none hdef, List.filter_cons_of_pos (accepts_of_id?_eq_none hs),
            List.filterMap_cons_none hdef, ih hrest hseen']
      | some id =>
          have hdef : definition? s = some (s.keyword, id) := by simp [definition?, hs]
          have hseen' : ∀ id', id' ∈ id :: seen ↔ ∃ t ∈ before ++ [s], t.id? = some id' := by
            intro id'
            simp [or_and_right, exists_or, hs, hseen, eq_comm, or_comm]
          have haccepts :
              m.accepts s = true ↔ ¬ (id = .unresolved ∨ id.isAuthored ∧ id ∈ seen) := by
            by_cases hid : id.isAuthored
            · have hne : id ≠ .unresolved := fun e => by simp [e, NodeRef.isAuthored] at hid
              rw [m.accepts_iff (by simpa using h) hs hid]
              simp [hid, hne, hseen]
            · cases id <;> simp_all [accepts, NodeRef.isAuthored, NodeRef.isCanonical]
          rw [List.filterMap_cons_some hdef, retained]
          by_cases hacc : m.accepts s = true
          · rw [if_neg (haccepts.mp hacc), List.filter_cons_of_pos hacc,
              List.filterMap_cons_some hdef, ih hrest hseen']
          · rw [if_pos (not_not.mp fun hn => hacc (haccepts.mpr hn)), List.filter_cons_of_neg hacc,
              ih hrest hseen']

theorem definedRows_eq :
    m.definingSites.flatMap m.rows = (retained [] m.definitions).map definedRow := by
  have hsites : m.canonicalSites = [] ++ m.definingSites ++ m.generatingSites :=
    m.canonicalSites_eq_append
  have hrow : ∀ s ∈ m.definingSites, m.rows s =
      (if m.accepts s then (definition? s).map definedRow else none).toList := by
    intro s hs
    obtain ⟨id, hid⟩ := Option.isSome_iff_exists.mp (id?_isSome_of_mem_definingSites hs)
    have hdefined : definedRow (s.keyword, id) = id.row (Build.slotKind s.keyword) := by
      cases id <;> rfl
    rw [m.rows_definition hid, ← hdefined, definition?, hid]
    by_cases hacc : m.accepts s = true <;> simp [hacc]
  rw [definitions_eq, m.retained_eq hsites (by simp), List.flatMap_congr hrow,
    List.filterMap_filter, List.map_filterMap, List.filterMap_eq_flatMap_toList]
  refine List.flatMap_congr fun s _ => ?_
  by_cases hacc : m.accepts s = true <;> simp [hacc]

theorem generatedRows_eq :
    m.generatingSites.flatMap m.rows =
      [Keyword.cinecam, .wheels, .wheels2, .meshwheels, .meshwheels2, .flexbodywheels].flatMap
        fun k => (m.sectionsOf k).flatMap fun c => c.entries.flatMap (generatedRows c.keyword) := by
  have hrow : ∀ s ∈ m.generatingSites, m.rows s = s.production.rows s.keyword := fun s hs => by
    rw [rows, if_pos (accepts_of_id?_eq_none (id?_eq_none_of_mem_generatingSites hs))]
  have hentry : ∀ k ∈ [Keyword.cinecam, .wheels, .wheels2, .meshwheels, .meshwheels2,
      .flexbodywheels], ∀ e : Entry k,
      (production? k e).toList.flatMap (Production.rows k) = generatedRows k e := by
    intro k hk e
    cases k <;> first | exact List.append_nil _ | simp at hk
  rw [List.flatMap_congr hrow, generatingSites, List.flatMap_assoc]
  refine List.flatMap_congr fun k hk => ?_
  rw [m.flatMap_filter_sites k fun k p => p.rows k]
  refine List.flatMap_congr fun c hc => ?_
  obtain rfl : c.keyword = k := eq_of_beq (List.mem_filter.mp hc).2
  rw [Section.productions, List.filterMap_eq_flatMap_toList, List.flatMap_assoc]
  exact List.flatMap_congr fun e _ => hentry c.keyword hk e

theorem tableRows_eq : m.tableRows = m.canonicalRows := by
  rw [tableRows, canonicalSites_eq_append, List.flatMap_append, definedRows_eq, generatedRows_eq,
    canonicalRows]

theorem pairwise_tableRows :
    m.tableRows.Pairwise fun e e' => e.origin.rank ≤ e'.origin.rank := by
  have hmem : ∀ {s}, s ∈ m.canonicalSites → s ∈ m.sites := m.mem_canonicalSites.mp
  refine List.pairwise_flatMap.mpr ⟨fun s hs => ?_, ?_⟩
  · refine List.pairwise_of_forall_mem_list fun e he e' he' => ?_
    rw [m.rows_rank (hmem hs) he, m.rows_rank (hmem hs) he']
  · refine m.pairwise_rank.imp_of_mem fun hs ht hle e he e' he' => ?_
    rwa [m.rows_rank (hmem hs) he, m.rows_rank (hmem ht) he']

end Module

theorem pairwise_retained (seen : List NodeRef) (l : List (Keyword × NodeRef)) :
    (∀ d ∈ retained seen l, d.2.isAuthored → d.2 ∉ seen) ∧
      (retained seen l).Pairwise fun d d' => d'.2.isAuthored → d'.2 ≠ d.2 := by
  induction l generalizing seen with
  | nil => simp [retained]
  | cons d l ih =>
      obtain ⟨hseen, hrest⟩ := ih (d.2 :: seen)
      have hlater : ∀ d' ∈ retained (d.2 :: seen) l, d'.2.isAuthored → d'.2 ∉ seen :=
        fun d' hd' hid => fun h => hseen d' hd' hid (List.mem_cons_of_mem _ h)
      rw [retained]
      split
      · exact ⟨hlater, hrest⟩
      · refine ⟨List.forall_mem_cons.mpr ⟨?_, hlater⟩, List.pairwise_cons.mpr ⟨?_, hrest⟩⟩
        · intro hid
          simp_all
        · intro d' hd' hid heq
          exact hseen d' hd' hid (heq ▸ List.mem_cons_self)

namespace Module
variable (m : Module)

theorem canonicalRows_userId (p : Nat) (id : NodeRef) :
    (∃ e, m.canonicalRows[p]? = some e ∧ e.userId = some id) ↔
      ∃ k, (retained [] m.definitions)[p]? = some (k, id) := by
  have hgenerated : ∀ e ∈ m.generatingSites.flatMap m.rows, e.userId = none := by
    intro e he
    obtain ⟨s, hs, he⟩ := List.mem_flatMap.mp he
    rw [m.rows_userId he, id?_eq_none_of_mem_generatingSites hs]
  rw [canonicalRows, ← generatedRows_eq]
  constructor
  · rintro ⟨e, hp, he⟩
    rw [List.getElem?_append] at hp
    split at hp
    · rw [List.getElem?_map] at hp
      obtain ⟨⟨k, id'⟩, hd, rfl⟩ := Option.map_eq_some_iff.mp hp
      cases he
      exact ⟨k, hd⟩
    · exact absurd (hgenerated e (List.mem_of_getElem? hp)) (by simp [he])
  · rintro ⟨k, hd⟩
    have hlt : p < ((retained [] m.definitions).map definedRow).length := by
      simpa using (List.getElem?_eq_some_iff.mp hd).1
    refine ⟨definedRow (k, id), ?_, rfl⟩
    rw [List.getElem?_append_left hlt, List.getElem?_map, hd]
    rfl

/-- What the text of a module says about its table. -/
structure Describes (t : NodeTable) : Prop where
  rows : t.entries.toList = m.canonicalRows
  numbers (n : UInt32) (p : Nat) :
    t.findNumber? n = some p ↔ ∃ k, (retained [] m.definitions)[p]? = some (k, .number n)
  names (x : String) (p : Nat) :
    t.findName? x = some p ↔ ∃ k, (retained [] m.definitions)[p]? = some (k, .name x)
  counts (k : Kind) : t.count k = m.canonicalRows.countP fun e => e.origin == k
  sorted : m.canonicalRows.Pairwise fun e e' => e.origin.rank ≤ e'.origin.rank
  groups (k : Kind) (p : Nat) :
    (t.baseOffset k ≤ p ∧ p < t.baseOffset k + t.groupCount k) ↔
      ∃ e, t.get? p = some e ∧ e.origin.sameGroup k

theorem find?_canonicalRows {id : NodeRef} (hid : id.isAuthored) (p : Nat) :
    (NodeTable.ofRows m.canonicalRows).find? id = some p ↔
      ∃ k, (retained [] m.definitions)[p]? = some (k, id) := by
  rw [NodeTable.ofRows_find?_iff hid, canonicalRows_userId]
  intro i j e e' hi hj he he'
  obtain ⟨k, hi⟩ := (m.canonicalRows_userId i id).mp ⟨e, hi, he⟩
  obtain ⟨k', hj⟩ := (m.canonicalRows_userId j id).mp ⟨e', hj, he'⟩
  obtain ⟨hil, hi⟩ := List.getElem?_eq_some_iff.mp hi
  obtain ⟨hjl, hj⟩ := List.getElem?_eq_some_iff.mp hj
  have hpair := List.pairwise_iff_getElem.mp (pairwise_retained [] m.definitions).2
  rcases Nat.lt_trichotomy i j with h | h | h
  · exact absurd (by rw [hi, hj]) (hpair i j hil hjl h (by rw [hj]; exact hid))
  · exact h
  · exact absurd (by rw [hi, hj]) (hpair j i hjl hil h (by rw [hi]; exact hid))

theorem describes_table : m.Describes m.table where
  rows := by simp [table, NodeTable.setLegacyOrder, tableRows_eq]
  numbers n p := by
    rw [← @find?_canonicalRows m (.number n) rfl, ← tableRows_eq]
    rfl
  names x p := by
    rw [← @find?_canonicalRows m (.name x) rfl, ← tableRows_eq]
    rfl
  counts k := by
    rw [← tableRows_eq]
    exact NodeTable.ofRows_count m.tableRows k
  sorted := m.tableRows_eq ▸ m.pairwise_tableRows
  groups k p := by
    rw [get?_table]
    exact NodeTable.ofRows_group_iff m.pairwise_tableRows k p

end Module

/-- The table that a run finishes for a module is the one that its text describes, whatever the
resolver has seen before. -/
theorem Resolver.process_describes {r : Resolver} (h : r.options.enabled = true) {d : Document}
    {i : Nat} {m : Module} (hm : d.modules[i]? = some m) :
    ∃ t, (r.process d).1.finished[r.finished.length + i]? = some ⟨m.name, t⟩ ∧ m.Describes t :=
  ⟨m.table, (process_module d h hm).2, m.describes_table⟩

/-- Names before numbers, an id of either form twice, and a wheel that stands before its nodes. -/
def Module.doubled : Module where
  name := "doubled"
  sections :=
    [.namedNodes ["hub", "hub"], ⟨.wheels, [.usual 1 #v[.number 7, .name "hub"] (.number 1)]⟩,
      .numberedNodes [7, 4], .ofBeams [(.number 7, .number 9)], .numberedNodes [7]]

theorem Resolver.process_describes_doubled :
    ∃ t, ((new ⟨true, false⟩).process ⟨"", [.doubled]⟩).1.finished[0]? = some ⟨"doubled", t⟩ ∧
      Module.doubled.Describes t ∧
      t.entries.toList =
        [⟨.numbered, none, some (.number 7), 0⟩, ⟨.numbered, none, some (.number 4), 0⟩,
          ⟨.named, none, some (.name "hub"), 0⟩, ⟨.wheels, some .tyreA, none, 0⟩,
          ⟨.wheels, some .tyreB, none, 0⟩] := by
  obtain ⟨t, ht, h⟩ :=
    process_describes (r := new ⟨true, false⟩) (d := ⟨"", [.doubled]⟩) (i := 0) rfl rfl
  exact ⟨t, ht, h, h.rows.trans (by decide)⟩

end RigNodes
