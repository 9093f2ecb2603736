import RigNodes.Proofs.LegacyOrder
import RigNodes.Proofs.Layout.Appended

/-! The positions of a layout fill the table. They are computed from section to section as these are
declared, while the build pass enters nodes keyword by keyword; yet no position is left out, none is
given twice, and each entry has those that it was the one to append. -/
namespace RigNodes

def Layout.span? (l : Layout) (i j : Nat) : Option Span := (l.spans[i]?.bind (·[j]?)).join

/-- A module without its sections from `i` on. -/
def Module.upTo (m : Module) (i : Nat) : Module := { m with sections := m.sections.take i }

/-- What is taken of a kind before an entry: by the sections of its keyword that are declared before
its own, and by the entries before it in there. -/
def Module.cursor (m : Module) (i : Nat) (c : Section) (j : Nat) : Nat :=
  ((((m.upTo i).sectionsOf c.keyword).flatMap Section.productions ++
    c.productions.take j).map Production.width).sum

theorem Section.getElem?_productions {c : Section} (hc : c.keyword.producesNodes = true) (j : Nat) :
    c.productions[j]? = c.entries[j]?.bind (production? c.keyword) := by
  unfold productions
  induction c.entries generalizing j with
  | nil => rfl
  | cons e es ih =>
      obtain ⟨p, hp⟩ := Option.isSome_iff_exists.mp (production?_isSome hc e)
      rw [List.filterMap_cons_some hp]
      cases j with
      | zero => exact hp.symm
      | succ j => exact ih j

theorem Section.site_mem {c : Section} {j : Nat} {p : Production} (hp : c.productions[j]? = some p)
    (i : Nat) : ⟨i, j, c.keyword, p⟩ ∈ c.sites i := by
  obtain ⟨hj, rfl⟩ := List.getElem?_eq_some_iff.mp hp
  exact List.mem_mapIdx.mpr ⟨j, hj, rfl⟩

theorem Keyword.producesNodes_of_generatedBy? {k : Keyword} {kind : Kind}
    (h : Kind.generatedBy? k = some kind) : k.producesNodes = true := by
  cases k <;> first | rfl | cases h

namespace Module
variable {m : Module} {s : Site} {i j : Nat} {c : Section}

theorem spansAt_getElem? (m : Module) (c : Section × Nat) (j : Nat) :
    (m.spansAt c)[j]? = c.1.productions[j]?.map fun p => m.span? ⟨c.2, j, c.1.keyword, p⟩ := by
  rw [spansAt, List.getElem?_map, Section.sites, List.getElem?_mapIdx, Option.map_map]
  rfl

theorem site_mem (hc : m.sections[i]? = some c) {p : Production} (hp : c.productions[j]? = some p) :
    ⟨i, j, c.keyword, p⟩ ∈ m.sites :=
  List.mem_flatMap.mpr ⟨(c, i), List.mem_zipIdx_iff_getElem?.mpr hc, Section.site_mem hp i⟩

/-- The positions of a layout are those of the sites. -/
theorem layout_span? {span : Span} : (Layout.of m).span? i j = some span ↔
    ∃ s ∈ m.sites, s.part = i ∧ s.entry = j ∧ m.span? s = some span := by
  rw [Layout.span?, spans_getElem?]
  constructor
  · intro h
    obtain ⟨spans, hspans, hspan⟩ := Option.bind_eq_some_iff.mp (Option.join_eq_some_iff.mp h)
    obtain ⟨c, hc, rfl⟩ := Option.map_eq_some_iff.mp hspans
    rw [spansAt_getElem?] at hspan
    obtain ⟨p, hp, hspan⟩ := Option.map_eq_some_iff.mp hspan
    exact ⟨_, site_mem hc hp, rfl, rfl, hspan⟩
  · rintro ⟨s, hs, rfl, rfl, hspan⟩
    obtain ⟨c, hc, hs⟩ := m.mem_sites hs
    have hplace : (m.spansAt (c, s.part))[s.entry]? = some (some span) := by
      rw [spansAt, List.getElem?_map, Section.getElem?_sites hs, Option.map_some, hspan]
    rw [hc, Option.map_some, Option.bind_some, hplace]
    rfl

theorem span?_eq_some {span : Span} :
    m.span? s = some span ↔ m.accepts s = true ∧ span = ⟨m.start s, s.production.width⟩ := by
  unfold span?
  split
  next h => simp [h, eq_comm]
  next h => simp [h]

/-- A position of a span is that of a node of the site. -/
theorem contains_iff {span : Span} (h : m.span? s = some span) {p : Nat} :
    span.contains p = true ↔ ∃ x ∈ m.nodesOf s, m.placeOf x = p := by
  obtain ⟨hacc, rfl⟩ := span?_eq_some.mp h
  simp only [Span.contains, Bool.and_eq_true, decide_eq_true_eq]
  constructor
  · rintro ⟨hle, hlt⟩
    refine ⟨(s, p - m.start s), m.mem_nodesOf.mpr ⟨rfl, hacc, by omega⟩, ?_⟩
    exact Nat.add_sub_cancel' hle
  · rintro ⟨⟨t, a⟩, hx, rfl⟩
    obtain ⟨rfl, -, ha⟩ := m.mem_nodesOf.mp hx
    simp only [placeOf]
    omega

/-- Two nodes at one position are of one site. -/
theorem site_of_placeOf {t : Site} {x y : Site × Nat} (hs : s ∈ m.sites) (ht : t ∈ m.sites)
    (hx : x ∈ m.nodesOf s) (hy : y ∈ m.nodesOf t) (h : m.placeOf x = m.placeOf y) : s = t := by
  have hnodup : (m.canonicalNodes.map m.placeOf).Nodup := by
    rw [canonicalNodes_places]
    exact List.nodup_range
  have hmem : ∀ {r : Site} {z : Site × Nat}, r ∈ m.sites → z ∈ m.nodesOf r →
      z ∈ m.canonicalNodes := by
    intro r z hr hz
    exact List.mem_flatMap.mpr ⟨r, m.mem_canonicalSites.mpr hr, hz⟩
  have hxy : x = y := List.inj_on_of_nodup_map hnodup (hmem hs hx) (hmem ht hy) h
  obtain ⟨r, a⟩ := x
  subst hxy
  exact (m.mem_nodesOf.mp hx).1.symm.trans (m.mem_nodesOf.mp hy).1

theorem start_add_le (hs : s ∈ m.sites) : m.start s + (m.rows s).length ≤ m.table.size := by
  obtain ⟨before, after, h⟩ := List.append_of_mem (m.mem_canonicalSites.mpr hs)
  rw [m.start_eq h, size_table, tableRows, h, List.flatMap_append, List.flatMap_cons,
    List.length_append, List.length_append]
  omega

theorem sites_split (hc : m.sections[i]? = some c) {p : Production}
    (hp : c.productions[j]? = some p) :
    ∃ after, m.sites = ((m.upTo i).sites ++ (c.sites i).take j) ++ ⟨i, j, c.keyword, p⟩ :: after := by
  obtain ⟨hi, hi'⟩ := List.getElem?_eq_some_iff.mp hc
  have hsections : m.sections = m.sections.take i ++ c :: m.sections.drop (i + 1) := by
    rw [← hi', List.getElem_cons_drop, List.take_append_drop]
  have hlength : (m.sections.take i).length = i := by
    rw [List.length_take]
    omega
  obtain ⟨hj, rfl⟩ := List.getElem?_eq_some_iff.mp hp
  have hlt : j < (c.sites i).length := by rwa [Section.sites, List.length_mapIdx]
  have hsite : (c.sites i)[j] = ⟨i, j, c.keyword, c.productions[j]⟩ := by simp [Section.sites]
  have hown : c.sites i =
      (c.sites i).take j ++ ⟨i, j, c.keyword, c.productions[j]⟩ :: (c.sites i).drop (j + 1) := by
    rw [← hsite, List.getElem_cons_drop, List.take_append_drop]
  have hzip : m.sections.zipIdx = (m.sections.take i).zipIdx ++
      (c, i) :: (m.sections.drop (i + 1)).zipIdx (i + 1) := by
    conv_lhs => rw [hsections, List.zipIdx_append, List.zipIdx_cons, hlength, Nat.zero_add]
  refine ⟨(c.sites i).drop (j + 1) ++ ((m.sections.drop (i + 1)).zipIdx (i + 1)).flatMap fun d =>
    d.1.sites d.2, ?_⟩
  rw [sites, hzip, List.flatMap_append, List.flatMap_cons]
  conv_lhs => rw [hown]
  simp [sites, upTo]

/-- The cursor of an entry stands where the build pass has put its nodes. -/
theorem start_cursor (hc : m.sections[i]? = some c) {k : Kind}
    (hk : Kind.generatedBy? c.keyword = some k) {p : Production} (hp : c.productions[j]? = some p) :
    m.start ⟨i, j, c.keyword, p⟩ = m.table.baseOffset k + m.cursor i c j := by
  obtain ⟨after, h⟩ := sites_split hc hp
  have hkind : p.kind? = some k := (m.site_kind? (site_mem hc hp)).trans hk
  have hbefore : ∀ t ∈ (m.upTo i).sites ++ (c.sites i).take j, t ∈ m.sites := by
    intro t ht
    rw [h]
    exact List.mem_append_left _ ht
  have hearlier : (((m.upTo i).sites.filter fun t => t.keyword == c.keyword).map
      fun t => t.production.width).sum =
        ((((m.upTo i).sectionsOf c.keyword).flatMap Section.productions).map
          Production.width).sum := by
    rw [List.map_flatMap]
    simp only [List.map_eq_flatMap]
    exact congrArg List.sum ((m.upTo i).flatMap_filter_sites c.keyword fun _ p => [p.width])
  have hown : ((c.sites i).take j).filter (fun t => t.keyword == c.keyword) =
      (c.sites i).take j := by
    apply List.filter_eq_self.mpr
    intro t ht
    rw [(Section.mem_sites (List.mem_of_mem_take ht)).2.1]
    exact beq_self_eq_true _
  have htaken : ((c.sites i).take j).map Site.production = c.productions.take j := by
    rw [List.map_take, Section.sites_production]
  rw [m.start_generated h hkind, m.usedAfter_keyword hbefore hk, List.filter_append, hown, cursor,
    List.map_append, List.sum_append, hearlier, List.map_append, List.sum_append, ← htaken,
    List.map_map]
  rfl

/-- A layout that puts each entry where the build pass put it: in closed form, without a gap and
without a position that two entries share. -/
structure Placed (m : Module) (l : Layout) : Prop where
  sections : l.spans.length = m.sections.length
  entries {i : Nat} {c : Section} (hc : m.sections[i]? = some c) : ∃ spans, l.spans[i]? = some spans ∧
    spans.length = if c.keyword.producesNodes then c.entries.length else 0
  generated {i j : Nat} {c : Section} {k : Kind} {e : Entry c.keyword}
    (hc : m.sections[i]? = some c) (hk : Kind.generatedBy? c.keyword = some k)
    (he : c.entries[j]? = some e) : ∃ p handed, production? c.keyword e = some p ∧
      l.span? i j = some ⟨l.table.baseOffset k + m.cursor i c j, p.width⟩ ∧
      m.grown? i j = l.span? i j ∧
      (m.buildVisits.run Build.start).1.lookup i = some handed ∧ handed[j]? = some (l.span? i j)
  within {i j : Nat} {span : Span} (h : l.span? i j = some span) :
    span.start + span.length ≤ l.table.size
  disjoint {i j i' j' : Nat} {span span' : Span} (h : l.span? i j = some span)
    (h' : l.span? i' j' = some span') {p : Nat} (hp : span.contains p) (hp' : span'.contains p) :
    i = i' ∧ j = j'
  cover {p : Nat} : p < l.table.size ↔ ∃ i j span, l.span? i j = some span ∧ span.contains p
  slots (hsize : l.table.size < 2 ^ 32) {p : Nat} (hp : p < l.table.size) :
    (Slot.ofPosition p).position = p

theorem layout_table (m : Module) : (Layout.of m).table = m.table := by
  rw [Layout.of_eq]
  rfl

theorem layout_generated {k : Kind} {e : Entry c.keyword} (hc : m.sections[i]? = some c)
    (hk : Kind.generatedBy? c.keyword = some k) (he : c.entries[j]? = some e) :
    ∃ p handed, production? c.keyword e = some p ∧
      (Layout.of m).span? i j = some ⟨m.table.baseOffset k + m.cursor i c j, p.width⟩ ∧
      m.grown? i j = (Layout.of m).span? i j ∧
      (m.buildVisits.run Build.start).1.lookup i = some handed ∧
      handed[j]? = some ((Layout.of m).span? i j) := by
  have hproduces := Keyword.producesNodes_of_generatedBy? hk
  obtain ⟨p, hp⟩ := Option.isSome_iff_exists.mp (production?_isSome hproduces e)
  have hplace : c.productions[j]? = some p := by
    rw [Section.getElem?_productions hproduces, he, Option.bind_some, hp]
  have hs := site_mem hc hplace
  have hgenerating : (Kind.generatedBy? c.keyword).isSome := Option.isSome_iff_exists.mpr ⟨k, hk⟩
  have hspan : m.span? ⟨i, j, c.keyword, p⟩ =
      some ⟨m.table.baseOffset k + m.cursor i c j, p.width⟩ := by
    apply span?_eq_some.mpr
    rw [start_cursor hc hk hplace]
    have hid := Section.sites_id?_of_generating hgenerating (Section.site_mem hplace i)
    exact ⟨accepts_of_id?_eq_none hid, rfl⟩
  have hlayout : (Layout.of m).span? i j =
      some ⟨m.table.baseOffset k + m.cursor i c j, p.width⟩ :=
    layout_span?.mpr ⟨_, hs, rfl, rfl, hspan⟩
  obtain ⟨handed, hlookup, hhanded⟩ := handed_site hs
  refine ⟨p, handed, hp, hlayout, ?grown, hlookup, ?handed⟩
  case grown =>
    have hgrown : m.grown? i j = (m.spansAt (c, i))[j]?.join :=
      grown?_eq (c := (c, i)) (List.mem_zipIdx_iff_getElem?.mpr hc) hgenerating j
    rw [hlayout, hgrown, spansAt_getElem?, hplace, Option.map_some, hspan]
    rfl
  case handed => rw [hlayout, ← hspan, hhanded]

/-- The layout of a module is where its nodes really are. -/
theorem layout_placed (m : Module) : m.Placed (Layout.of m) := by
  constructor
  case sections =>
    rw [Layout.of_eq, List.length_map, List.length_zipIdx]
  case entries =>
    intro i c hc
    refine ⟨m.spansAt (c, i), by rw [spans_getElem?, hc, Option.map_some], ?_⟩
    rw [spansAt, List.length_map, Section.sites, List.length_mapIdx]
    split
    next h => exact Section.productions_length h
    next h => rw [Section.productions_of_consumer (by simpa using h), List.length_nil]
  case generated =>
    intro i j c k e hc hk he
    rw [layout_table]
    exact layout_generated hc hk he
  case within =>
    intro i j span h
    obtain ⟨s, hs, -, -, hspan⟩ := layout_span?.mp h
    obtain ⟨hacc, rfl⟩ := span?_eq_some.mp hspan
    rw [layout_table, ← m.rows_length hacc]
    exact start_add_le hs
  case disjoint =>
    intro i j i' j' span span' h h' p hp hp'
    obtain ⟨s, hs, rfl, rfl, hspan⟩ := layout_span?.mp h
    obtain ⟨t, ht, rfl, rfl, hspan'⟩ := layout_span?.mp h'
    obtain ⟨x, hx, hxp⟩ := (contains_iff hspan).mp hp
    obtain ⟨y, hy, hyp⟩ := (contains_iff hspan').mp hp'
    obtain rfl := site_of_placeOf hs ht hx hy (hxp.trans hyp.symm)
    exact ⟨rfl, rfl⟩
  case cover =>
    intro p
    rw [layout_table, ← List.mem_range, ← canonicalNodes_places]
    constructor
    · intro h
      obtain ⟨x, hx, hxp⟩ := List.mem_map.mp h
      obtain ⟨s, hs, hx⟩ := List.mem_flatMap.mp hx
      have hspan : m.span? s = some ⟨m.start s, s.production.width⟩ :=
        span?_eq_some.mpr ⟨(m.mem_nodesOf.mp hx).2.1, rfl⟩
      exact ⟨s.part, s.entry, _, layout_span?.mpr ⟨s, m.mem_canonicalSites.mp hs, rfl, rfl, hspan⟩,
        (contains_iff hspan).mpr ⟨x, hx, hxp⟩⟩
    · rintro ⟨i, j, span, h, hp⟩
      obtain ⟨s, hs, -, -, hspan⟩ := layout_span?.mp h
      obtain ⟨x, hx, hxp⟩ := (contains_iff hspan).mp hp
      exact List.mem_map.mpr ⟨x, List.mem_flatMap.mpr ⟨s, m.mem_canonicalSites.mpr hs, hx⟩, hxp⟩
  case slots =>
    intro hsize p hp
    exact position_ofPosition (hp.trans hsize)

/-- The wheel is declared before most of the nodes, which stand before it. -/
example : (Layout.of .doubled).spans =
    [[some ⟨2, 1⟩, none], [some ⟨3, 2⟩], [some ⟨0, 1⟩, some ⟨1, 1⟩], [], [none]] := by
  decide +kernel

end Module

end RigNodes
