import RigNodes.Proofs.Agreement

/-! The legacy order of a table against an importer that allocates nodes as it reads a module. The
importer knows nothing of slots: it puts the nodes of each entry at the end of one array. Place `p`
of the legacy order is the slot that the build pass gave to the node that is at `p` in there. -/
namespace RigNodes

/-- A node as an importer makes it: the place of its section, its entry in there, and the part it
plays if it belongs to a wheel. -/
structure ImportedNode where
  part : Nat
  entry : Nat
  role : Option Role
  ray : Nat
  deriving DecidableEq, Repr

/-- The nodes that an entry makes, in order. -/
def Production.made : Production → List (Option Role × Nat)
  | .definition _ => [(none, 0)]
  | .point _ => [(none, 0)]
  | .wheel kind rays _ =>
      match kind.nodesPerRay? with
      | some perRay => (NodeTable.wheelNodes perRay rays.toNat).map fun n => (some n.1, n.2)
      | none => []

namespace Module

/-- One step of an importer. A refused definition makes no node. -/
def allocate (m : Module) (nodes : Array ImportedNode) (s : Site) : Array ImportedNode :=
  if m.accepts s then
    s.production.made.foldl (fun nodes n => nodes.push ⟨s.part, s.entry, n.1, n.2⟩) nodes
  else nodes

/-- The array of an importer that goes through the sections as they are declared. -/
def imported (m : Module) : Array ImportedNode :=
  m.sections.zipIdx.foldl (fun nodes c => (c.1.sites c.2).foldl m.allocate nodes) #[]

end Module

theorem Production.rows_made {p : Production} {k : Keyword} (h : p.Fits k) :
    (p.rows k).map (fun e => (e.role, e.ray)) = p.made := by
  cases p with
  | definition id => rfl
  | point kind => rfl
  | wheel kind rays rigid =>
      obtain ⟨n, hn⟩ := Option.isSome_iff_exists.mp h.2
      simp only [rows, made, hn, Option.getD_some]
      rw [← NodeTable.wheelNodes_eq hn, List.map_map]
      rfl

theorem Production.made_length {p : Production} {k : Keyword} (h : p.Fits k) :
    p.made.length = p.width := by
  rw [← rows_made h, List.length_map, rows_length]

namespace NodeTable

theorem nodup_ring {a b : Role} (hab : a ≠ b) (rays : Nat) : (ring a b rays).Nodup := by
  rw [ring_eq]
  apply List.nodup_range.map
  intro i j hij
  have hray : i / 2 = j / 2 := congrArg Prod.snd hij
  have hside : (if i % 2 = 0 then a else b) = if j % 2 = 0 then a else b := congrArg Prod.fst hij
  have hparity : i % 2 = 0 ↔ j % 2 = 0 := by
    by_cases hi : i % 2 = 0 <;> by_cases hj : j % 2 = 0 <;> simp_all
  omega

theorem mem_ring {a b : Role} {rays : Nat} {n : Role × Nat} (hn : n ∈ ring a b rays) :
    n.1 = a ∨ n.1 = b := by
  obtain ⟨ray, -, hn⟩ := List.mem_flatMap.mp hn
  rcases List.mem_pair.mp hn with rfl | rfl
  · exact .inl rfl
  · exact .inr rfl

theorem nodup_wheelNodes (perRay rays : Nat) : (wheelNodes perRay rays).Nodup := by
  have htyre := nodup_ring (show Role.tyreA ≠ .tyreB by decide) rays
  unfold wheelNodes
  split
  · apply (nodup_ring (show Role.rimA ≠ .rimB by decide) rays).append htyre
    intro n hrim htyre
    rcases mem_ring hrim with h | h <;> rcases mem_ring htyre with h' | h' <;> rw [h] at h' <;>
      cases h'
  · exact htyre

end NodeTable

theorem Production.nodup_made (p : Production) : p.made.Nodup := by
  cases p with
  | definition id => exact List.nodup_singleton _
  | point kind => exact List.nodup_singleton _
  | wheel kind rays rigid =>
      simp only [made]
      cases kind.nodesPerRay? with
      | none => exact List.nodup_nil
      | some perRay =>
          apply (NodeTable.nodup_wheelNodes perRay rays.toNat).map
          intro n n' h
          obtain ⟨hrole, hray⟩ := Prod.mk.inj h
          exact Prod.ext (Option.some.inj hrole) hray

/-- Grouping by a key changes nothing, if the keys come in the order of the groups already. -/
theorem flatMap_filter_of_pairwise {α κ : Type} [DecidableEq κ] (key : α → κ) {ks : List κ}
    (hks : ks.Nodup) {l : List α} (hl : ∀ a ∈ l, key a ∈ ks)
    (hsorted : l.Pairwise fun a b => ks.idxOf (key a) ≤ ks.idxOf (key b)) :
    (ks.flatMap fun k => l.filter fun a => key a == k) = l := by
  induction l with
  | nil => simp
  | cons a l ih =>
      obtain ⟨hfirst, hsorted⟩ := List.pairwise_cons.mp hsorted
      have ih := ih (fun b hb => hl b (List.mem_cons_of_mem a hb)) hsorted
      obtain ⟨before, after, rfl⟩ := List.append_of_mem (hl a List.mem_cons_self)
      obtain ⟨-, hkey, hdisjoint⟩ := List.nodup_append.mp hks
      have hindex : (before ++ key a :: after).idxOf (key a) = before.length := by
        rw [List.idxOf_append_of_notMem fun h => hdisjoint _ h _ List.mem_cons_self rfl,
          List.idxOf_cons_self, Nat.add_zero]
      -- No group before that of the first member has a member.
      have hbefore : ∀ k ∈ before, ∀ b ∈ a :: l, ¬ (key b == k) = true := by
        intro k hk b hb heq
        have hle : (before ++ key a :: after).idxOf (key a) ≤
            (before ++ key a :: after).idxOf (key b) := by
          rcases List.mem_cons.mp hb with rfl | hb
          · exact Nat.le_refl _
          · exact hfirst b hb
        rw [hindex, eq_of_beq heq, List.idxOf_append_of_mem hk] at hle
        exact absurd (List.idxOf_lt_length_of_mem hk) (Nat.not_lt.mpr hle)
      have hempty : ∀ l' : List α, (∀ b ∈ l', b ∈ a :: l) →
          (before.flatMap fun k => l'.filter fun b => key b == k) = [] := by
        intro l' hl'
        apply List.flatMap_eq_nil_iff.mpr
        intro k hk
        apply List.filter_eq_nil_iff.mpr
        intro b hb
        exact hbefore k hk b (hl' b hb)
      have hafter : (after.flatMap fun k => (a :: l).filter fun b => key b == k) =
          after.flatMap fun k => l.filter fun b => key b == k := by
        apply List.flatMap_congr
        intro k hk
        apply List.filter_cons_of_neg
        intro heq
        exact (List.nodup_cons.mp hkey).1 (eq_of_beq heq ▸ hk)
      rw [List.flatMap_append, List.flatMap_cons, hempty l fun b hb => List.mem_cons_of_mem a hb,
        List.nil_append] at ih
      have hown : ((a :: l).filter fun b => key b == key a) =
          a :: l.filter fun b => key b == key a :=
        List.filter_cons_of_pos (beq_self_eq_true (key a))
      rw [List.flatMap_append, List.flatMap_cons, hempty (a :: l) fun b hb => hb, hafter, hown,
        List.nil_append, List.cons_append, ih]

theorem Keyword.step?_of_mem {k : Keyword} (hk : k ∈ canonicalSequence) :
    k.step? = some (canonicalSequence.idxOf k) := by
  revert hk
  cases k <;> decide

namespace Module
variable {m : Module}

/-- The slot of a node, by its number in its entry. -/
def placeOf (m : Module) (x : Site × Nat) : Nat := m.start x.1 + x.2

variable (m) in
/-- In canonical order the nodes fill the table from the start on, without a gap. -/
theorem canonicalNodes_places : m.canonicalNodes.map m.placeOf = List.range m.table.size := by
  -- By induction from the end, as an entry starts where the rows before it end.
  have hbefore : ∀ before after : List Site, m.canonicalSites = before ++ after →
      (before.flatMap m.nodesOf).map m.placeOf =
        List.range (before.flatMap m.rows).length := by
    intro before
    induction before using List.reverseRecOn with
    | nil =>
        intro after h
        rfl
    | append_singleton before s ih =>
        intro after h
        rw [List.append_assoc] at h
        have hown : (m.nodesOf s).map m.placeOf =
            (List.range (m.rows s).length).map ((before.flatMap m.rows).length + ·) := by
          unfold nodesOf
          split
          next hacc =>
            rw [List.map_map, m.rows_length hacc, ← m.start_eq h]
            rfl
          next hacc =>
            rw [rows, if_neg hacc]
            rfl
        rw [List.flatMap_append, List.map_append, ih _ h, List.flatMap_singleton, hown,
          List.flatMap_append, List.length_append, List.flatMap_singleton, List.range_add]
  rw [size_table]
  exact hbefore m.canonicalSites [] (List.append_nil _).symm

variable (m) in
theorem declaredNodes_perm : m.declaredNodes.Perm m.canonicalNodes :=
  m.canonicalSites_perm.symm.flatMap_right m.nodesOf

variable (m) in
theorem legacyOrder_perm : m.table.legacyOrder.toList.Perm (List.range m.table.size) := by
  rw [legacyOrder_eq, ← canonicalNodes_places]
  exact m.declaredNodes_perm.map m.placeOf

variable (m) in
theorem declaredNodes_length : m.declaredNodes.length = m.table.size := by
  rw [m.declaredNodes_perm.length_eq, ← List.length_map m.placeOf, canonicalNodes_places,
    List.length_range]

/-- Producing sections are written in canonical order. -/
def InSequence (m : Module) : Prop :=
  (m.sections.filterMap fun c => c.keyword.step?).Pairwise (· ≤ ·)

theorem sites_pairwise (h : m.InSequence) :
    m.sites.Pairwise fun s t => Keyword.canonicalSequence.idxOf s.keyword ≤
      Keyword.canonicalSequence.idxOf t.keyword := by
  have hstep : ∀ {c : Section × Nat} {s : Site}, c ∈ m.sections.zipIdx → s ∈ c.1.sites c.2 →
      c.1.keyword.step? = some (Keyword.canonicalSequence.idxOf s.keyword) := by
    intro c s hc hs
    rw [← (Section.mem_sites hs).2.1]
    exact Keyword.step?_of_mem (m.site_keyword_mem (List.mem_flatMap.mpr ⟨c, hc, hs⟩))
  have hsections : m.sections.zipIdx.Pairwise fun c c' =>
      ∀ i, c.1.keyword.step? = some i → ∀ j, c'.1.keyword.step? = some j → i ≤ j := by
    have hzip : m.sections.zipIdx.map Prod.fst = m.sections := by simp
    have h := List.pairwise_filterMap.mp h
    rw [← hzip, List.pairwise_map] at h
    exact h
  apply List.pairwise_flatMap.mpr
  constructor
  · intro c hc
    apply List.pairwise_of_forall_mem_list
    intro s hs t ht
    rw [(Section.mem_sites hs).2.1, (Section.mem_sites ht).2.1]
  · apply hsections.imp_of_mem
    intro c c' hc hc' hle s hs t ht
    exact hle _ (hstep hc hs) _ (hstep hc' ht)

theorem legacyOrder_identity (h : m.InSequence) :
    m.table.legacyOrder.toList = List.range m.table.size := by
  have hsites : m.canonicalSites = m.sites := by
    rw [canonicalSites_eq]
    apply flatMap_filter_of_pairwise Site.keyword
    · decide
    · intro s hs
      exact m.site_keyword_mem hs
    · exact sites_pairwise h
  have hnodes : m.declaredNodes = m.canonicalNodes := by
    rw [declaredNodes, canonicalNodes, hsites]
  rw [legacyOrder_eq, hnodes]
  exact m.canonicalNodes_places

/-- What an importer makes of a node, by its number in its entry. -/
def imports (x : Site × Nat) : ImportedNode :=
  let n := x.1.production.made.getD x.2 (none, 0)
  ⟨x.1.part, x.1.entry, n.1, n.2⟩

theorem allocate_eq (m : Module) (nodes : Array ImportedNode) {s : Site}
    (h : s.production.Fits s.keyword) :
    m.allocate nodes s = nodes ++ ((m.nodesOf s).map imports).toArray := by
  unfold allocate nodesOf
  split
  next hacc =>
    rw [List.foldl_push_eq_append]
    have hmade : (s.production.made.map fun n =>
        (⟨s.part, s.entry, n.1, n.2⟩ : ImportedNode)) =
          ((List.range s.production.width).map (s, ·)).map imports := by
      apply List.ext_getElem
      · simp [Production.made_length h]
      · intro j hj hj'
        have hlt : j < s.production.made.length := by simpa using hj
        simp [imports, hlt]
    rw [hmade]
  next hacc => simp

theorem imported_eq (m : Module) : m.imported = (m.declaredNodes.map imports).toArray := by
  have hsites : ∀ (l : List Site) (nodes : Array ImportedNode), (∀ s ∈ l, s ∈ m.sites) →
      l.foldl m.allocate nodes = nodes ++ ((l.flatMap m.nodesOf).map imports).toArray := by
    intro l
    induction l with
    | nil =>
        intro nodes hl
        simp
    | cons s l ih =>
        intro nodes hl
        have hs : s ∈ m.sites := hl s List.mem_cons_self
        rw [List.foldl_cons, m.allocate_eq nodes (m.sites_fits hs),
          ih _ fun t ht => hl t (List.mem_cons_of_mem s ht)]
        simp
  have hflat : m.imported = m.sites.foldl m.allocate #[] := by
    rw [imported, sites, List.foldl_flatMap]
  rw [hflat, hsites m.sites #[] fun s hs => hs, declaredNodes]
  simp

/-- An entry is known by its place. -/
theorem site_ext {s t : Site} (hs : s ∈ m.sites) (ht : t ∈ m.sites) (hpart : t.part = s.part)
    (hentry : t.entry = s.entry) : t = s := by
  obtain ⟨c, hc, hs⟩ := m.mem_sites hs
  obtain ⟨c', hc', ht⟩ := m.mem_sites ht
  rw [hpart, hc] at hc'
  cases hc'
  have hplace := Section.getElem?_sites hs
  rw [← hentry, ← hpart, Section.getElem?_sites ht] at hplace
  exact Option.some.inj hplace

theorem nodup_imported (m : Module) : m.imported.toList.Nodup := by
  have hnodes : m.declaredNodes.Nodup := by
    apply m.declaredNodes_perm.nodup_iff.mpr
    apply List.Nodup.of_map m.placeOf
    rw [canonicalNodes_places]
    exact List.nodup_range
  rw [imported_eq]
  apply hnodes.map_on
  -- Two entries differ in place, two nodes of one entry in role or ray.
  rintro ⟨s, j⟩ hx ⟨t, k⟩ hy heq
  obtain ⟨hs, -, hj⟩ := mem_declaredNodes.mp hx
  obtain ⟨ht, -, hk⟩ := mem_declaredNodes.mp hy
  have hst : s = t :=
    site_ext ht hs (congrArg ImportedNode.part heq) (congrArg ImportedNode.entry heq)
  subst hst
  have hlength := Production.made_length (m.sites_fits hs)
  have hj' : j < s.production.made.length := by rwa [hlength]
  have hk' : k < s.production.made.length := by rwa [hlength]
  have hmade : s.production.made[j] = s.production.made[k] := by
    have hrole := congrArg ImportedNode.role heq
    have hray := congrArg ImportedNode.ray heq
    simp only [imports, List.getD_eq_getElem _ _ hj', List.getD_eq_getElem _ _ hk'] at hrole hray
    exact Prod.ext hrole hray
  rw [(s.production.nodup_made.getElem_inj_iff).mp hmade]

/-- The legacy order of a table, measured against the array of an importer. What stands at a place
of the array is the node whose slot stands there in the order: a slot that the build pass handed to
its entry, with a row for its part of the wheel, or for the id that the slot was written for. -/
structure Ordered (m m' : Module) (t : NodeTable) : Prop where
  size : m.imported.size = t.size
  distinct : m.imported.toList.Nodup
  perm : t.legacyOrder.toList.Perm (List.range t.size)
  places {p : Nat} (hp : p < t.size) : ∃ x q e, m.imported[p]? = some x ∧
    t.legacySlot? p = some q ∧ t.get? q = some e ∧ e.role = x.role ∧ e.ray = x.ray ∧
    (∃ spans span, (m.buildVisits.run Build.start).1.lookup x.part = some spans ∧
      spans[x.entry]? = some (some span) ∧ span.contains q) ∧
    ∀ id, m.idAt? x.part x.entry = some id →
      e.userId = some id ∧ m'.idAt? x.part x.entry = some (.slot (.ofPosition q))
  identity (h : m.InSequence) : t.legacyOrder.toList = List.range t.size

/-- The build pass hands a site its positions under the place of its section. -/
theorem handed_site {s : Site} (hs : s ∈ m.sites) :
    ∃ spans, (m.buildVisits.run Build.start).1.lookup s.part = some spans ∧
      spans[s.entry]? = some (m.span? s) := by
  obtain ⟨c, hc, hs'⟩ := m.mem_sites hs
  have hvisit : (c, s.part) ∈ m.visits := by
    apply List.mem_flatMap.mpr
    refine ⟨c.keyword, ?_, List.mem_filter.mpr ⟨List.mem_zipIdx_iff_getElem?.mpr hc, by simp⟩⟩
    rw [← (Section.mem_sites hs').2.1]
    exact m.site_keyword_mem hs
  refine ⟨(c.sites s.part).map m.span?, ?_, ?_⟩
  · rw [buildVisits_run]
    exact m.lookup_visits _ hvisit
  · rw [List.getElem?_map, Section.getElem?_sites hs']
    rfl

theorem ordered_resolve (m : Module) (legacy : Bool) :
    m.Ordered (m.resolve legacy).module m.table := by
  refine ⟨?size, m.nodup_imported, m.legacyOrder_perm, ?places, legacyOrder_identity⟩
  case size =>
    rw [imported_eq, ← declaredNodes_length]
    simp
  case places =>
    intro p hp
    have hlt : p < m.declaredNodes.length := by rwa [declaredNodes_length]
    obtain ⟨⟨s, j⟩, hx⟩ : ∃ x, m.declaredNodes[p]? = some x := ⟨_, List.getElem?_eq_getElem hlt⟩
    obtain ⟨hs, hacc, hj⟩ := mem_declaredNodes.mp (List.mem_of_getElem? hx)
    have hrow : j < (m.rows s).length := by rwa [m.rows_length hacc]
    have hmade : (m.rows s)[j]?.map (fun e => (e.role, e.ray)) = s.production.made[j]? := by
      rw [rows, if_pos hacc, ← List.getElem?_map, Production.rows_made (m.sites_fits hs)]
    obtain ⟨spans, hspans, hspan⟩ := handed_site hs
    refine ⟨imports (s, j), m.start s + j, (m.rows s)[j], ?_, ?_, ?_, ?_, ?_, ?_, ?_⟩
    · simp [imported_eq, hx]
    · simp [NodeTable.legacySlot?, legacyOrder_eq, hx]
    · rw [get?_table, tableRows_getElem? hs hrow, List.getElem?_eq_getElem hrow]
    · rw [List.getElem?_eq_getElem hrow, Option.map_some] at hmade
      simp [imports, List.getD_eq_getElem?_getD, ← hmade]
    · rw [List.getElem?_eq_getElem hrow, Option.map_some] at hmade
      simp [imports, List.getD_eq_getElem?_getD, ← hmade]
    · refine ⟨spans, _, hspans, hspan.trans (congrArg some (if_pos hacc)), ?_⟩
      simp [Span.contains, hj]
    · intro id hid
      obtain ⟨k, ht⟩ := idAt?_iff.mp hid
      have hdefinition : s.id? = some id := by
        rw [← site_ext hs ht rfl rfl]
        rfl
      have hzero : j = 0 := by
        rw [Site.id?_eq_some.mp hdefinition] at hj
        exact Nat.lt_one_iff.mp hj
      have hwritten := idAt?_resolve hs (Option.isSome_of_mem hdefinition) legacy
      rw [span?, if_pos hacc] at hwritten
      rw [m.rows_userId (List.getElem_mem hrow), hzero]
      exact ⟨hdefinition, hwritten⟩

end Module

/-- The recorded legacy order is that of an importer that allocates nodes as it reads. -/
theorem Resolver.process_ordered {r : Resolver} (h : r.options.enabled = true) {d : Document}
    {i : Nat} {m : Module} (hm : d.modules[i]? = some m) :
    ∃ m' t, (r.process d).2.modules[i]? = some m' ∧
      (r.process d).1.finished[r.finished.length + i]? = some ⟨m.name, t⟩ ∧ m.Ordered m' t := by
  obtain ⟨hmodule, htable⟩ := process_module d h hm
  exact ⟨_, _, hmodule, htable, m.ordered_resolve r.options.legacy⟩

theorem Resolver.process_ordered_doubled :
    ∃ m' t, ((new ⟨true, false⟩).process ⟨"", [.doubled]⟩).2.modules[0]? = some m' ∧
      ((new ⟨true, false⟩).process ⟨"", [.doubled]⟩).1.finished[0]? = some ⟨"doubled", t⟩ ∧
      Module.doubled.Ordered m' t ∧ t.legacyOrder = #[2, 3, 4, 0, 1] := by
  obtain ⟨m', t, hm', ht, h⟩ :=
    process_ordered (r := new ⟨true, false⟩) (d := ⟨"", [.doubled]⟩) (i := 0) rfl rfl
  have horder : ((new ⟨true, false⟩).process ⟨"", [.doubled]⟩).1.finished[0]?.map
      (fun x => x.table.legacyOrder) = some #[2, 3, 4, 0, 1] := by
    decide +kernel
  have hplace : ((new ⟨true, false⟩).process ⟨"", [.doubled]⟩).1.finished[0]? =
      some ⟨"doubled", t⟩ := ht
  rw [hplace] at horder
  exact ⟨m', t, hm', hplace, h, Option.some.inj horder⟩

end RigNodes
