import RigNodes.Layout
import RigNodes.Proofs.Table.Registration

/-! The entries of a module that produce nodes, in two orders: as they are written, and as the
build pass visits them. Which of them are accepted, and where their nodes stand, is said here
without a table; the build pass is measured against it. -/
namespace RigNodes

/-- An entry that produces nodes, with the place of its section and its own place in there. -/
structure Site where
  part : Nat
  entry : Nat
  keyword : Keyword
  production : Production
  deriving DecidableEq, Repr

namespace Site

/-- The id that an entry defines, for definitions only. -/
def id? (s : Site) : Option NodeRef :=
  match s.production with
  | .definition id => some id
  | _ => none

/-- The group of the table that the nodes of an entry go to. -/
def rank (s : Site) : Nat := (s.production.kind?.map Kind.rank).getD 0

def rigid (s : Site) : Bool :=
  match s.production with
  | .wheel _ _ rigid => rigid
  | _ => false

end Site

/-- The sites of a section that stands at place `i`. -/
def Section.sites (c : Section) (i : Nat) : List Site :=
  c.productions.mapIdx fun j p => ⟨i, j, c.keyword, p⟩

namespace Site

theorem id?_eq_some {s : Site} {id : NodeRef} :
    s.id? = some id ↔ s.production = .definition id := by
  rcases s with ⟨i, j, k, (x | kind | ⟨kind, rays, rigid⟩)⟩ <;> simp [id?]

end Site

namespace Module
variable (m : Module)

/-- All sites in declared order. -/
def sites : List Site := m.sections.zipIdx.flatMap fun c => c.1.sites c.2

/-- All sites in the order of the build pass. -/
def canonicalSites : List Site := m.visits.flatMap fun c => c.1.sites c.2

/-- The canonical-first definition with an id. -/
def first? (id : NodeRef) : Option Site := m.canonicalSites.find? fun s => s.id? == some id

/-- A number or a name belongs to its canonical-first definition. A slot is always accepted, and an
unresolved id never. -/
def accepts (s : Site) : Bool :=
  match s.id? with
  | some id => if id.isAuthored then m.first? id == some s else id.isCanonical
  | none => true

/-- The rows that a site adds to the table. -/
def rows (s : Site) : List TableEntry :=
  if m.accepts s then s.production.rows s.keyword else []

/-- The position of the first node of a site: the nodes of all sites before it in canonical
order. -/
def start (s : Site) : Nat :=
  ((m.canonicalSites.takeWhile (· != s)).flatMap m.rows).length

/-- The positions of a site. A refused definition has none. -/
def span? (s : Site) : Option Span :=
  if m.accepts s then some ⟨m.start s, s.production.width⟩ else none

/-- The table of a module as a list of rows. -/
def tableRows : List TableEntry := m.canonicalSites.flatMap m.rows

end Module

/-- The group of the table that a keyword adds to. -/
def Keyword.rank (k : Keyword) : Nat := ((Kind.generatedBy? k).map Kind.rank).getD 0

/-- What may stand under a keyword. -/
def Production.Fits (k : Keyword) : Production → Prop
  | .definition _ => k = .nodes ∨ k = .nodes2
  | .point kind => k = .cinecam ∧ kind = .cinecam
  | .wheel kind _ _ => Kind.generatedBy? k = some kind ∧ kind.nodesPerRay?.isSome

theorem production_fits {k : Keyword} {e : Entry k} {p : Production}
    (h : production? k e = some p) : p.Fits k := by
  cases k <;> cases h <;> simp [Production.Fits, Kind.generatedBy?, Kind.nodesPerRay?]

theorem production?_isSome {k : Keyword} (hk : k.producesNodes = true) (e : Entry k) :
    (production? k e).isSome := by
  cases k <;> first | rfl | cases hk

theorem Section.productions_length {c : Section} (hc : c.keyword.producesNodes = true) :
    c.productions.length = c.entries.length := by
  rw [productions, List.length_filterMap_eq_countP]
  apply List.countP_eq_length.mpr
  intro e he
  exact production?_isSome hc e

theorem Section.productions_of_consumer {c : Section} (hc : c.keyword.producesNodes = false) :
    c.productions = [] := by
  apply List.filterMap_eq_nil_iff.mpr
  intro e he
  obtain ⟨k, es⟩ := c
  cases k <;> first | rfl | cases hc

theorem Site.id?_isSome_of_fits {s : Site} (h : s.production.Fits s.keyword) :
    s.id?.isSome ↔ s.keyword = .nodes ∨ s.keyword = .nodes2 := by
  rcases s with ⟨i, j, k, (id | kind | ⟨kind, rays, rigid⟩)⟩
  · exact iff_of_true rfl h
  · obtain ⟨rfl, -⟩ := h
    simp [Site.id?]
  · have hk : Kind.generatedBy? k = some kind := h.1
    cases k <;> simp_all [Site.id?, Kind.generatedBy?]

namespace Section

theorem nodes?_isSome (c : Section) :
    c.nodes?.isSome ↔ c.keyword = .nodes ∨ c.keyword = .nodes2 := by
  rcases c with ⟨k, es⟩
  cases k <;> simp [nodes?]

@[simp] theorem sites_production (c : Section) (i : Nat) :
    (c.sites i).map Site.production = c.productions := by
  simp [sites, List.mapIdx_eq_zipIdx_map, Function.comp_def]

theorem mem_sites {c : Section} {i : Nat} {s : Site} (h : s ∈ c.sites i) :
    s.part = i ∧ s.keyword = c.keyword ∧ c.productions[s.entry]? = some s.production := by
  obtain ⟨j, hj, rfl⟩ := List.mem_mapIdx.mp h
  exact ⟨rfl, rfl, List.getElem?_eq_getElem hj⟩

theorem sites_fits {c : Section} {i : Nat} {s : Site} (h : s ∈ c.sites i) :
    s.production.Fits s.keyword := by
  obtain ⟨-, hk, hp⟩ := mem_sites h
  obtain ⟨e, -, he⟩ := List.mem_filterMap.mp (List.mem_of_getElem? hp)
  rw [hk]
  exact production_fits he

theorem sites_id?_isSome {c : Section} {i : Nat} {s : Site} (h : s ∈ c.sites i) :
    s.id?.isSome ↔ c.nodes?.isSome := by
  rw [Site.id?_isSome_of_fits (sites_fits h), (mem_sites h).2.1, nodes?_isSome]

/-- No site of a section that generates nodes defines one. -/
theorem sites_id?_of_generating {c : Section} (hc : (Kind.generatedBy? c.keyword).isSome) {i : Nat}
    {s : Site} (h : s ∈ c.sites i) : s.id? = none := by
  rw [← Option.not_isSome_iff_eq_none, sites_id?_isSome h, nodes?_isSome]
  rintro (hk | hk) <;> rw [hk] at hc <;> cases hc

theorem nodup_sites (c : Section) (i : Nat) : (c.sites i).Nodup := by
  refine List.Nodup.of_map Site.entry ?_
  have hmap : (c.sites i).map Site.entry = List.range c.productions.length := by
    apply List.ext_getElem <;> simp [sites]
  rw [hmap]
  exact List.nodup_range

end Section

theorem flatMap_zipIdx {α β : Type} (l : List α) (h : α → List β) :
    (l.zipIdx.flatMap fun c => h c.1) = l.flatMap h := by
  have hfst : l.zipIdx.map Prod.fst = l := by simp
  conv_rhs => rw [← hfst, List.flatMap_map]

/-- Grouping by a key only reorders, if no member has a key of none of the groups. -/
theorem flatMap_filter_perm {α κ : Type} [DecidableEq κ] (key : α → κ) {ks : List κ}
    (hks : ks.Nodup) {l : List α} (hl : ∀ a ∈ l, key a ∈ ks) :
    (ks.flatMap fun k => l.filter fun a => key a == k).Perm l := by
  induction ks generalizing l with
  | nil => simp [List.eq_nil_iff_forall_not_mem.mpr fun a ha => List.not_mem_nil (hl a ha)]
  | cons k ks ih =>
      obtain ⟨hk, hks⟩ := List.nodup_cons.mp hks
      have hrest : (ks.flatMap fun j => l.filter fun a => key a == j) =
          ks.flatMap fun j => (l.filter fun a => !(key a == k)).filter fun a => key a == j := by
        refine List.flatMap_congr fun j hj => ?_
        rw [List.filter_filter]
        refine List.filter_congr fun a _ => ?_
        by_cases h : key a = j
        · have hne : j ≠ k := fun e => hk (e ▸ hj)
          simp [h, hne]
        · simp [h]
      rw [List.flatMap_cons, hrest]
      refine (List.Perm.append_left _ (ih hks fun a ha => ?_)).trans (List.filter_append_perm _ l)
      obtain ⟨ha, hne⟩ := List.mem_filter.mp ha
      rcases List.mem_cons.mp (hl a ha) with h | h
      · simp [h] at hne
      · exact h

namespace Module
variable (m : Module)

theorem filter_sites (k : Keyword) :
    (m.sites.filter fun s => s.keyword == k) =
      (m.sections.zipIdx.filter fun c => c.1.keyword == k).flatMap fun c => c.1.sites c.2 := by
  rw [sites]
  induction m.sections.zipIdx with
  | nil => rfl
  | cons c l ih =>
      have hkey : ∀ s ∈ c.1.sites c.2, (s.keyword == k) = (c.1.keyword == k) := fun s hs => by
        rw [(Section.mem_sites hs).2.1]
      rw [List.flatMap_cons, List.filter_append, List.filter_congr hkey, ih]
      by_cases h : c.1.keyword = k <;> simp [h]

theorem canonicalSites_eq :
    m.canonicalSites = Keyword.canonicalSequence.flatMap fun k =>
      m.sites.filter fun s => s.keyword == k := by
  simp only [canonicalSites, visits, List.flatMap_assoc, filter_sites]

theorem mem_sites {s : Site} (h : s ∈ m.sites) :
    ∃ c, m.sections[s.part]? = some c ∧ s ∈ c.sites s.part := by
  obtain ⟨⟨c, i⟩, hc, hs⟩ := List.mem_flatMap.mp h
  have hi := (Section.mem_sites hs).1
  subst hi
  exact ⟨c, (List.mem_zipIdx_iff_getElem?.mp hc), hs⟩

theorem sites_fits {s : Site} (h : s ∈ m.sites) : s.production.Fits s.keyword := by
  obtain ⟨c, -, hs⟩ := m.mem_sites h
  exact Section.sites_fits hs

theorem nodup_sites : m.sites.Nodup := by
  refine List.nodup_flatMap.mpr ⟨fun c _ => c.1.nodup_sites c.2, ?_⟩
  rw [List.pairwise_iff_getElem]
  intro i j hi hj hij s hs ht
  have h := (Section.mem_sites hs).1.symm.trans (Section.mem_sites ht).1
  simp at h
  omega

theorem site_keyword_mem {s : Site} (hs : s ∈ m.sites) :
    s.keyword ∈ Keyword.canonicalSequence := by
  have hfits := m.sites_fits hs
  rcases s with ⟨i, j, k, (id | kind | ⟨kind, rays, rigid⟩)⟩
  · rcases hfits with rfl | rfl <;> simp [Keyword.canonicalSequence]
  · obtain ⟨rfl, -⟩ := hfits
    simp [Keyword.canonicalSequence]
  · revert hfits
    cases k <;> simp [Production.Fits, Kind.generatedBy?, Keyword.canonicalSequence]

theorem canonicalSites_perm : m.canonicalSites.Perm m.sites := by
  rw [canonicalSites_eq]
  exact flatMap_filter_perm Site.keyword (by decide) fun s hs => m.site_keyword_mem hs

theorem nodup_canonicalSites : m.canonicalSites.Nodup :=
  m.canonicalSites_perm.nodup_iff.mpr m.nodup_sites

theorem mem_canonicalSites {s : Site} : s ∈ m.canonicalSites ↔ s ∈ m.sites :=
  m.canonicalSites_perm.mem_iff

/-- The sites before one in canonical order do not depend on how that order was split. -/
theorem before_eq {s : Site} {before after : List Site}
    (h : m.canonicalSites = before ++ s :: after) :
    m.canonicalSites.takeWhile (· != s) = before := by
  have hnot : s ∉ before := by
    have hnd := m.nodup_canonicalSites
    rw [h] at hnd
    exact fun hs => (List.nodup_append.mp hnd).2.2 s hs s List.mem_cons_self rfl
  have hpos : ∀ a ∈ before, (a != s) = true := fun a ha => by
    simpa using fun e : a = s => hnot (e ▸ ha)
  rw [h, List.takeWhile_append_of_pos hpos]
  simp

theorem start_eq {s : Site} {before after : List Site}
    (h : m.canonicalSites = before ++ s :: after) :
    m.start s = (before.flatMap m.rows).length := by
  rw [start, m.before_eq h]

/-- Sites that are changed one by one, under the same keywords, keep their order. -/
theorem canonicalSites_map {m m' : Module} {f : Site → Site}
    (hsites : m'.sites = m.sites.map f) (hkeyword : ∀ s, (f s).keyword = s.keyword) :
    m'.canonicalSites = m.canonicalSites.map f := by
  rw [canonicalSites_eq, canonicalSites_eq, hsites, List.map_flatMap]
  refine List.flatMap_congr fun k _ => ?_
  rw [List.filter_map]
  refine congrArg (List.map f) (List.filter_congr fun s _ => ?_)
  rw [Function.comp_apply, hkeyword]

/-- If each of them has as many nodes as before, all nodes stand where they stood. -/
theorem start_map {m m' : Module} {f : Site → Site}
    (hsites : m'.canonicalSites = m.canonicalSites.map f)
    (hrows : ∀ s, (m'.rows (f s)).length = (m.rows s).length) {s : Site} (hs : s ∈ m.sites) :
    m'.start (f s) = m.start s := by
  obtain ⟨before, after, h⟩ := List.append_of_mem (m.mem_canonicalSites.mpr hs)
  have h' : m'.canonicalSites = before.map f ++ f s :: after.map f := by
    rw [hsites, h, List.map_append, List.map_cons]
  rw [start_eq _ h', start_eq _ h, List.flatMap_map, List.length_flatMap, List.length_flatMap]
  exact congrArg List.sum (List.map_congr_left fun t _ => hrows t)

/-- A number or a name is accepted as long as no site before it defines the same. -/
theorem accepts_iff {s : Site} {before after : List Site} {id : NodeRef}
    (h : m.canonicalSites = before ++ s :: after) (hs : s.id? = some id) (hid : id.isAuthored) :
    m.accepts s = true ↔ before.find? (fun t => t.id? == some id) = none := by
  have hfirst : m.first? id = (before.find? fun t => t.id? == some id).or (some s) := by
    rw [first?, h, List.find?_append, List.find?_cons_of_pos (by simp [hs])]
  simp only [accepts, hs, hid, if_true, hfirst, beq_iff_eq]
  cases hb : before.find? fun t => t.id? == some id with
  | none => simp
  | some t =>
      have ht : t ≠ s := by
        have hnd := m.nodup_canonicalSites
        rw [h] at hnd
        intro e
        exact (List.nodup_append.mp hnd).2.2 s (e ▸ List.mem_of_find?_eq_some hb) s
          List.mem_cons_self rfl
      simp [ht]

theorem site_kind? {s : Site} (hs : s ∈ m.sites) :
    s.production.kind? = Kind.generatedBy? s.keyword := by
  have hfits := m.sites_fits hs
  rcases s with ⟨i, j, k, (id | kind | ⟨kind, rays, rigid⟩)⟩
  · rcases hfits with rfl | rfl <;> rfl
  · obtain ⟨rfl, rfl⟩ := hfits
    rfl
  · exact hfits.1.symm

theorem site_rank {s : Site} (hs : s ∈ m.sites) : s.rank = s.keyword.rank := by
  rw [Site.rank, m.site_kind? hs, Keyword.rank]

/-- The build pass never goes back to an earlier group. -/
theorem pairwise_rank : m.canonicalSites.Pairwise fun s t => s.rank ≤ t.rank := by
  rw [canonicalSites_eq]
  refine List.pairwise_flatMap.mpr ⟨fun k _ => ?_, ?_⟩
  · refine List.pairwise_of_forall_mem_list fun s hs t ht => ?_
    obtain ⟨hs, hsk⟩ := List.mem_filter.mp hs
    obtain ⟨ht, htk⟩ := List.mem_filter.mp ht
    rw [m.site_rank hs, m.site_rank ht, eq_of_beq hsk, eq_of_beq htk]
  · have hsorted : Keyword.canonicalSequence.Pairwise fun j k => j.rank ≤ k.rank := by decide
    refine hsorted.imp ?_
    intro j k hjk s hs t ht
    obtain ⟨hs, hsk⟩ := List.mem_filter.mp hs
    obtain ⟨ht, htk⟩ := List.mem_filter.mp ht
    rwa [m.site_rank hs, m.site_rank ht, eq_of_beq hsk, eq_of_beq htk]

/-- The rows of a site carry its id, and generated rows carry none. -/
theorem rows_userId {s : Site} {e : TableEntry} (he : e ∈ m.rows s) : e.userId = s.id? := by
  unfold rows at he
  split at he
  · rcases s with ⟨i, j, k, (id | kind | ⟨kind, rays, rigid⟩)⟩
    · have heq : e = id.row (Build.slotKind k) := by simpa [Production.rows] using he
      rw [heq]
      rfl
    · have heq : e = ⟨kind, none, none, 0⟩ := by simpa [Production.rows] using he
      rw [heq]
      rfl
    · obtain ⟨n, -, rfl⟩ := List.mem_map.mp he
      exact kind.wheelRow_userId _ n
  · simp at he

theorem rows_definition {s : Site} {id : NodeRef} (hs : s.id? = some id) :
    m.rows s = if m.accepts s then [id.row (Build.slotKind s.keyword)] else [] := by
  rw [rows, Site.id?_eq_some.mp hs]
  rfl

theorem rows_rank {s : Site} {e : TableEntry} (hs : s ∈ m.sites) (he : e ∈ m.rows s) :
    e.origin.rank = s.rank := by
  have hfits := m.sites_fits hs
  unfold rows at he
  split at he
  · rcases s with ⟨i, j, k, (id | kind | ⟨kind, rays, rigid⟩)⟩
    · have heq : e = id.row (Build.slotKind k) := by simpa [Production.rows] using he
      subst heq
      cases id <;> rcases hfits with rfl | rfl <;> rfl
    · have heq : e = ⟨kind, none, none, 0⟩ := by simpa [Production.rows] using he
      subst heq
      rfl
    · obtain ⟨n, -, rfl⟩ := List.mem_map.mp he
      exact congrArg Kind.rank (kind.wheelRow_origin _ n)
  · simp at he

end Module

end RigNodes
