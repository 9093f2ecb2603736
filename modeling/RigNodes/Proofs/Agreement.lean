import RigNodes.Proofs.CanonicalTable

/-! Definitions and references agree. A definition gets the slot that the build pass handed to it,
and a reference the slot that an index or the order of the document gives; both name the same node
of the table. -/
namespace RigNodes

namespace Module
variable (m : Module)

/-- The id of a definition, by the place of its section and its own place in there. -/
def idAt? (i j : Nat) : Option NodeRef :=
  (m.sections[i]?.bind Section.nodes?).bind fun ns => ns[j]?.map Node.id

/-- The nodes of a site, each with its number among them. A refused definition has none. -/
def nodesOf (s : Site) : List (Site × Nat) :=
  if m.accepts s then (List.range s.production.width).map (s, ·) else []

/-- The nodes of a module in declared order. -/
def declaredNodes : List (Site × Nat) := m.sites.flatMap m.nodesOf

/-- The nodes of a module in canonical order. -/
def canonicalNodes : List (Site × Nat) := m.canonicalSites.flatMap m.nodesOf

/-- The slot of a node: its place in canonical order. -/
def slotOf (x : Site × Nat) : Slot := .ofPosition (m.canonicalNodes.idxOf x)

theorem mem_nodesOf {s t : Site} {j : Nat} :
    (t, j) ∈ m.nodesOf s ↔ t = s ∧ m.accepts s = true ∧ j < s.production.width := by
  unfold nodesOf
  by_cases h : m.accepts s = true
  · rw [if_pos h]
    simp [h, and_comm, @eq_comm _ s t]
  · rw [if_neg h]
    simp [h]

theorem nodesOf_length (s : Site) : (m.nodesOf s).length = (m.rows s).length := by
  unfold nodesOf rows
  split <;> simp

variable {m} {s : Site}

/-- The nodes of a site stand side by side, from its start on. -/
theorem idxOf_canonicalNodes (hs : s ∈ m.sites) (h : m.accepts s = true) {j : Nat}
    (hj : j < s.production.width) : m.canonicalNodes.idxOf (s, j) = m.start s + j := by
  obtain ⟨before, after, hsites⟩ := List.append_of_mem (m.mem_canonicalSites.mpr hs)
  have hbefore : (s, j) ∉ before.flatMap m.nodesOf := by
    intro hmem
    obtain ⟨t, ht, hmem⟩ := List.mem_flatMap.mp hmem
    have hnodup := m.nodup_canonicalSites
    rw [hsites] at hnodup
    exact (List.nodup_append.mp hnodup).2.2 t ht s List.mem_cons_self
      ((m.mem_nodesOf.mp hmem).1.symm)
  have hlength : (before.flatMap m.nodesOf).length = m.start s := by
    simp only [m.start_eq hsites, List.length_flatMap, nodesOf_length]
  have hown : (m.nodesOf s).idxOf (s, j) = j := by
    have hnodup : (m.nodesOf s).Nodup := by
      rw [nodesOf, if_pos h]
      exact List.nodup_range.map fun a b hab => (Prod.mk.inj hab).2
    have hlt : j < (m.nodesOf s).length := by simpa [nodesOf, h] using hj
    have hget : (m.nodesOf s)[j] = (s, j) := by simp [nodesOf, h]
    rw [← hget, hnodup.idxOf_getElem]
  rw [canonicalNodes, hsites, List.flatMap_append, List.flatMap_cons,
    List.idxOf_append_of_notMem hbefore, hlength,
    List.idxOf_append_of_mem (m.mem_nodesOf.mpr ⟨rfl, h, hj⟩), hown]

theorem tableRows_getElem? (hs : s ∈ m.sites) {j : Nat} (hj : j < (m.rows s).length) :
    m.tableRows[m.start s + j]? = (m.rows s)[j]? := by
  obtain ⟨before, after, hsites⟩ := List.append_of_mem (m.mem_canonicalSites.mpr hs)
  rw [tableRows, hsites, List.flatMap_append, List.flatMap_cons, m.start_eq hsites,
    List.getElem?_append_right (Nat.le_add_right _ _), Nat.add_sub_cancel_left,
    List.getElem?_append_left hj]

theorem mem_declaredNodes {j : Nat} :
    (s, j) ∈ m.declaredNodes ↔ s ∈ m.sites ∧ m.accepts s = true ∧ j < s.production.width := by
  constructor
  · intro h
    obtain ⟨t, ht, h⟩ := List.mem_flatMap.mp h
    obtain ⟨rfl, hacc, hj⟩ := m.mem_nodesOf.mp h
    exact ⟨ht, hacc, hj⟩
  · rintro ⟨hs, hacc, hj⟩
    exact List.mem_flatMap.mpr ⟨s, hs, m.mem_nodesOf.mpr ⟨rfl, hacc, hj⟩⟩

variable (m) in
/-- The legacy order of the table goes through the nodes as they are declared. -/
theorem legacyOrder_eq :
    m.table.legacyOrder = (m.declaredNodes.map fun x => m.start x.1 + x.2).toArray := by
  have hsite : ∀ s, (((m.span? s).map Span.positions).getD []) =
      (m.nodesOf s).map fun x => m.start x.1 + x.2 := by
    intro s
    unfold span? nodesOf
    split <;> simp [Span.positions, List.range'_eq_map_range, Function.comp_def]
  have hspans : (m.sections.zipIdx.map m.spansAt).flatten = m.sites.map m.span? := by
    rw [← List.flatMap_def, sites, List.map_flatMap]
    rfl
  rw [declaredNodes, List.map_flatMap, ← funext hsite, table, NodeTable.setLegacyOrder, legacyOrder,
    hspans, List.flatMap_map]

theorem table_find? {id : NodeRef} (hid : id.isAuthored) :
    m.table.find? id = (m.first? id).map m.start := by
  have h := @find?_ofRows m m.canonicalSites [] id hid (List.append_nil _).symm
  cases id <;> exact h

theorem first?_eq (id : NodeRef) :
    m.first? id = m.definingSites.find? fun s => s.id? == some id := by
  have hgenerating : (m.generatingSites.find? fun s => s.id? == some id) = none := by
    refine List.find?_eq_none.mpr fun s hs => ?_
    simp [id?_eq_none_of_mem_generatingSites hs]
  rw [first?, canonicalSites_eq_append, List.find?_append, hgenerating, Option.or_none]

theorem of_first? {id : NodeRef} (hid : id.isAuthored) (h : m.first? id = some s) :
    s ∈ m.sites ∧ s.id? = some id ∧ m.accepts s = true := by
  have hs : s.id? = some id := by simpa using List.find?_some h
  refine ⟨m.mem_canonicalSites.mp (List.mem_of_find?_eq_some h), hs, ?_⟩
  simp [accepts, hs, hid, h]

theorem table_get?_start (hs : s ∈ m.sites) {id : NodeRef} (hid : s.id? = some id)
    (h : m.accepts s = true) : ∃ e, m.table.get? (m.start s) = some e ∧ e.userId = some id := by
  have hrows : m.rows s = [id.row (Build.slotKind s.keyword)] := by
    rw [m.rows_definition hid, if_pos h]
  have hget := @tableRows_getElem? m s hs 0 (by simp [hrows])
  refine ⟨id.row (Build.slotKind s.keyword), ?_, rfl⟩
  simpa [get?_table, hrows] using hget

/-- A legacy position is that of a declared node, as long as this one is generated. -/
theorem legacyPosition?_eq (legacy : Bool) (n : UInt32) :
    ((m.scope legacy).legacyPosition? n).map Prod.fst =
      (m.declaredNodes[n.toNat]?.filter fun x => legacy && x.1.id?.isNone).map
        fun x => m.start x.1 + x.2 := by
  have hslot : m.table.legacySlot? n.toNat =
      m.declaredNodes[n.toNat]?.map fun x => m.start x.1 + x.2 := by
    simp [NodeTable.legacySlot?, legacyOrder_eq]
  cases legacy with
  | false => simp [Scope.legacyPosition?, scope]
  | true =>
      cases hx : m.declaredNodes[n.toNat]? with
      | none => simp [Scope.legacyPosition?, scope, hslot, hx]
      | some x =>
          obtain ⟨s, j⟩ := x
          obtain ⟨hs, hacc, hj⟩ := mem_declaredNodes.mp (List.mem_of_getElem? hx)
          have hlt : j < (m.rows s).length := by rwa [m.rows_length hacc]
          have hget : m.table.get? (m.start s + j) = some (m.rows s)[j] := by
            rw [get?_table, tableRows_getElem? hs hlt, List.getElem?_eq_getElem hlt]
          have huser : (m.rows s)[j].userId = s.id? := m.rows_userId (List.getElem_mem hlt)
          cases hid : s.id? <;>
            simp [Scope.legacyPosition?, scope, hslot, hx, hget, huser, hid, Option.filter]

end Module

theorem Section.getElem?_sites {c : Section} {i : Nat} {s : Site} (h : s ∈ c.sites i) :
    (c.sites i)[s.entry]? = some s := by
  obtain ⟨j, hj, rfl⟩ := List.mem_mapIdx.mp h
  simp [sites, hj]

namespace Module
variable {m : Module} {s : Site}

theorem idAt?_iff {i j : Nat} {id : NodeRef} :
    m.idAt? i j = some id ↔ ∃ k, ⟨i, j, k, .definition id⟩ ∈ m.sites := by
  constructor
  · intro h
    obtain ⟨ns, hns, hid⟩ := Option.bind_eq_some_iff.mp h
    obtain ⟨c, hc, hns⟩ := Option.bind_eq_some_iff.mp hns
    obtain ⟨n, hn, rfl⟩ := Option.map_eq_some_iff.mp hid
    refine ⟨c.keyword, List.mem_flatMap.mpr ⟨(c, i), List.mem_zipIdx_iff_getElem?.mpr hc, ?_⟩⟩
    have hlt : j < ns.length := (List.getElem?_eq_some_iff.mp hn).1
    refine List.mem_mapIdx.mpr ⟨j, by simpa [c.productions_of_nodes hns] using hlt, ?_⟩
    simp [c.productions_of_nodes hns, (List.getElem?_eq_some_iff.mp hn).2]
  · rintro ⟨k, hs⟩
    obtain ⟨c, hc, hs⟩ := m.mem_sites hs
    obtain ⟨-, hk, hp⟩ := Section.mem_sites hs
    have hfits := Section.sites_fits hs
    obtain ⟨ns, hns⟩ := Option.isSome_iff_exists.mp (c.nodes?_isSome.mpr (hk ▸ hfits))
    rw [c.productions_of_nodes hns, List.getElem?_map] at hp
    obtain ⟨n, hn, hid⟩ := Option.map_eq_some_iff.mp hp
    cases hid
    simp [idAt?, hc, hns, hn]

theorem mem_nodeIds {id : NodeRef} : id ∈ m.nodeIds ↔ (m.first? id).isSome := by
  rw [nodeIds_eq, first?, List.find?_isSome, List.mem_filterMap]
  simp only [mem_canonicalSites, beq_iff_eq]

/-- A definition of the processed module has the slot of its position, if it has one. -/
theorem idAt?_resolve (hs : s ∈ m.sites) (hid : s.id?.isSome) (legacy : Bool) :
    (m.resolve legacy).module.idAt? s.part s.entry = some (settledId (m.span? s)) := by
  obtain ⟨c, hc, hs'⟩ := m.mem_sites hs
  have hkey : c.keyword = .nodes ∨ c.keyword = .nodes2 :=
    (Section.mem_sites hs').2.1 ▸ (Site.id?_isSome_of_fits (m.sites_fits hs)).mp hid
  obtain ⟨ns, hns⟩ := Option.isSome_iff_exists.mp (c.nodes?_isSome.mpr hkey)
  have hlt : s.entry < ns.length := by
    have hp := (Section.mem_sites hs').2.2
    rw [c.productions_of_nodes hns] at hp
    simpa using (List.getElem?_eq_some_iff.mp hp).1
  have hspan : (m.spansAt (c, s.part))[s.entry]? = some (m.span? s) := by
    rw [spansAt, List.getElem?_map, Section.getElem?_sites hs']
    rfl
  rw [idAt?, resolve_sections, List.getElem?_map, List.getElem?_zipIdx, hc]
  simp [Section.nodes?_settled hns, hlt, hspan]

variable (m) in
/-- What a reference of a module becomes, measured against the processed module and its table. A
number or a name with a definition follows the first one, into the document and into the table. A
number without one may stand for a declared node, if that one is generated. -/
inductive Becomes (m' : Module) (t : NodeTable) (legacy : Bool) : NodeRef → NodeRef → Prop
  | slot (x : Slot) : Becomes m' t legacy (.slot x) (.slot x)
  | unresolved : Becomes m' t legacy .unresolved .unresolved
  | defined {r : NodeRef} {s : Site} {x : Slot} {e : TableEntry} (hr : r.isAuthored)
      (hfirst : (m.definingSites.find? fun s => s.id? == some r) = some s)
      (hid : m'.idAt? s.part s.entry = some (.slot x)) (he : t.get? x.position = some e)
      (huser : e.userId = some r) : Becomes m' t legacy r (.slot x)
  | legacyNode {n : UInt32} {s : Site} {j : Nat} (hn : .number n ∉ m.nodeIds) (hl : legacy = true)
      (hx : m.declaredNodes[n.toNat]? = some (s, j)) (hs : s.id? = none) :
      Becomes m' t legacy (.number n) (.slot (m.slotOf (s, j)))
  | lostNumber {n : UInt32} (hn : .number n ∉ m.nodeIds)
      (hx : ∀ x, m.declaredNodes[n.toNat]? = some x → legacy = true → x.1.id?.isSome) :
      Becomes m' t legacy (.number n) .unresolved
  | lostName {y : String} (hy : .name y ∉ m.nodeIds) : Becomes m' t legacy (.name y) .unresolved

theorem position_ofPosition {p : Nat} (h : p < 2 ^ 32) : (Slot.ofPosition p).position = p := by
  simp only [Slot.position, Slot.ofPosition, Nat.toUInt32, UInt32.toNat_ofNat']
  exact Nat.mod_eq_of_lt h

theorem start_lt (hs : s ∈ m.sites) {id : NodeRef} (hid : s.id? = some id)
    (h : m.accepts s = true) : m.start s < m.table.size := by
  obtain ⟨e, he, -⟩ := table_get?_start hs hid h
  exact (Array.getElem?_eq_some_iff.mp he).1

theorem becomes_defined (hsize : m.table.size < 2 ^ 32) (legacy : Bool) {r : NodeRef}
    (hr : r.isAuthored) (hfirst : m.first? r = some s) :
    m.Becomes (m.resolve legacy).module m.table legacy r (.slot (.ofPosition (m.start s))) := by
  obtain ⟨hs, hid, hacc⟩ := of_first? hr hfirst
  obtain ⟨e, he, huser⟩ := table_get?_start hs hid hacc
  have hplace := idAt?_resolve hs (by simp [hid]) legacy
  rw [span?, if_pos hacc] at hplace
  have hlt := start_lt hs hid hacc
  have hget : m.table.get? (Slot.ofPosition (m.start s)).position = some e := by
    rw [position_ofPosition (by omega), he]
  exact .defined hr (first?_eq r ▸ hfirst) hplace hget huser

theorem not_mem_nodeIds {r : NodeRef} (h : m.first? r = none) : r ∉ m.nodeIds := fun hmem => by
  simp [mem_nodeIds, h] at hmem

/-- A number without a definition follows the order of the document, or is lost. -/
theorem becomes_legacy (legacy : Bool) {n : UInt32} (hfirst : m.first? (.number n) = none) :
    m.Becomes (m.resolve legacy).module m.table legacy (.number n)
      (((m.declaredNodes[n.toNat]?.filter fun x => legacy && x.1.id?.isNone).map
        fun x => .slot (.ofPosition (m.start x.1 + x.2))).getD .unresolved) := by
  have hn := not_mem_nodeIds hfirst
  cases hx : m.declaredNodes[n.toNat]? with
  | none => exact .lostNumber hn (by simp [hx])
  | some x =>
      obtain ⟨s, j⟩ := x
      by_cases h : legacy = true ∧ s.id? = none
      · obtain ⟨rfl, hid⟩ := h
        obtain ⟨hs, hacc, hj⟩ := mem_declaredNodes.mp (List.mem_of_getElem? hx)
        have hslot : m.slotOf (s, j) = .ofPosition (m.start s + j) := by
          rw [slotOf, idxOf_canonicalNodes hs hacc hj]
        simp only [Option.filter, hid, Option.isNone_none, Bool.and_self, if_true,
          Option.map_some, Option.getD_some]
        rw [← hslot]
        exact .legacyNode hn rfl hx hid
      · have hfilter : (legacy && s.id?.isNone) = false := by
          refine Bool.and_eq_false_imp.mpr fun hl => ?_
          exact Option.isNone_eq_false_iff.mpr (Option.isSome_iff_ne_none.mpr fun e => h ⟨hl, e⟩)
        simp only [Option.filter, hfilter]
        refine .lostNumber hn fun x hx' hl => ?_
        rw [hx, Option.some.injEq] at hx'
        subst hx'
        exact Option.isSome_iff_ne_none.mpr fun e => h ⟨hl, e⟩

theorem becomes_value (hsize : m.table.size < 2 ^ 32) (legacy : Bool) (r : NodeRef) :
    m.Becomes (m.resolve legacy).module m.table legacy r ((m.scope legacy).value r) := by
  cases r with
  | slot x => exact .slot x
  | unresolved => exact .unresolved
  | name x =>
      have hfind : (m.scope legacy).table.findName? x = (m.first? (.name x)).map m.start :=
        @table_find? m (.name x) rfl
      have hvalue := (m.scope legacy).value_authored (r := .name x) rfl
      rw [Scope.position?, hfind] at hvalue
      rw [hvalue]
      cases hfirst : m.first? (.name x) with
      | none => exact .lostName (not_mem_nodeIds hfirst)
      | some s => exact becomes_defined hsize legacy rfl hfirst
  | number n =>
      have hfind : (m.scope legacy).table.findNumber? n = (m.first? (.number n)).map m.start :=
        @table_find? m (.number n) rfl
      have hvalue := (m.scope legacy).value_authored (r := .number n) rfl
      rw [Scope.position?, hfind, legacyPosition?_eq] at hvalue
      rw [hvalue]
      cases hfirst : m.first? (.number n) with
      | none =>
          rw [Option.map_none, Option.none_or, Option.map_map]
          exact becomes_legacy legacy hfirst
      | some s => exact becomes_defined hsize legacy rfl hfirst

variable (m) in
/-- A processed module and its table agree with the module: every reference becomes what it should,
and every accepted definition gets the slot at which the table has its id. -/
structure Agrees (m' : Module) (t : NodeTable) (legacy : Bool) : Prop where
  references : List.Forall₂ (m.Becomes m' t legacy) (collectRefs m) (collectRefs m')
  definitions {i j : Nat} {id : NodeRef} (h : m.idAt? i j = some id) :
    ∃ s ∈ m.definingSites, s.part = i ∧ s.entry = j ∧ s.id? = some id ∧
      if m.accepts s then
        m'.idAt? i j = some (.slot (m.slotOf (s, 0))) ∧
          ∃ e, t.get? (m.slotOf (s, 0)).position = some e ∧ e.userId = some id
      else m'.idAt? i j = some .unresolved

variable (m) in
theorem agrees_resolve (hsize : m.table.size < 2 ^ 32) (legacy : Bool) :
    m.Agrees (m.resolve legacy).module m.table legacy where
  references := by
    rw [collectRefs_resolve, List.forall₂_map_right_iff, List.forall₂_same]
    exact fun r _ => becomes_value hsize legacy r
  definitions := by
    intro i j id h
    obtain ⟨k, hs⟩ := idAt?_iff.mp h
    have hplace := idAt?_resolve hs rfl legacy
    refine ⟨_, mem_definingSites.mpr ⟨hs, rfl⟩, rfl, rfl, rfl, ?_⟩
    split
    next hacc =>
      have hslot : m.slotOf (⟨i, j, k, .definition id⟩, 0) =
          .ofPosition (m.start ⟨i, j, k, .definition id⟩) := by
        rw [slotOf, idxOf_canonicalNodes hs hacc Nat.one_pos, Nat.add_zero]
      obtain ⟨e, he, huser⟩ := table_get?_start hs rfl hacc
      rw [span?, if_pos hacc] at hplace
      have hlt := start_lt hs rfl hacc
      exact ⟨by rw [hplace, hslot, settledId], e, by rw [hslot, position_ofPosition (by omega), he],
        huser⟩
    next hacc =>
      rwa [span?, if_neg hacc] at hplace

end Module

/-- In a processed document, definitions, references and tables agree on every node. -/
theorem Resolver.process_agrees {r : Resolver} (h : r.options.enabled = true) {d : Document}
    {i : Nat} {m : Module} (hm : d.modules[i]? = some m) (hsize : m.canonicalRows.length < 2 ^ 32) :
    ∃ m' t, (r.process d).2.modules[i]? = some m' ∧
      (r.process d).1.finished[r.finished.length + i]? = some ⟨m.name, t⟩ ∧
      m.Agrees m' t r.options.legacy := by
  obtain ⟨hmodule, htable⟩ := process_module d h hm
  have hrows : m.table.size = m.canonicalRows.length := by
    rw [Module.size_table, Module.tableRows_eq]
  exact ⟨_, _, hmodule, htable, m.agrees_resolve (hrows ▸ hsize) _⟩

theorem Resolver.process_agrees_doubled :
    ∃ m' t, ((new ⟨true, true⟩).process ⟨"", [.doubled]⟩).2.modules[0]? = some m' ∧
      ((new ⟨true, true⟩).process ⟨"", [.doubled]⟩).1.finished[0]? = some ⟨"doubled", t⟩ ∧
      Module.doubled.Agrees m' t true ∧
      collectRefs m' = [.slot ⟨0⟩, .slot ⟨2⟩, .slot ⟨3⟩, .slot ⟨0⟩, .unresolved] := by
  obtain ⟨m', t, hm', ht, h⟩ := process_agrees (r := new ⟨true, true⟩) (d := ⟨"", [.doubled]⟩)
    (i := 0) rfl rfl (by decide)
  have hrefs : ((new ⟨true, true⟩).process ⟨"", [.doubled]⟩).2.modules[0]?.map collectRefs =
      some [.slot ⟨0⟩, .slot ⟨2⟩, .slot ⟨3⟩, .slot ⟨0⟩, .unresolved] := by
    decide +kernel
  rw [hm'] at hrefs
  exact ⟨m', t, hm', ht, h, Option.some.inj hrefs⟩

end RigNodes
