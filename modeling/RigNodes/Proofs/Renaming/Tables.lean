import RigNodes.Proofs.Agreement
import RigNodes.Proofs.Walk.Fields

/-! The ids that authors choose. Numbers and names may be changed for others, one for one, and
numbers for names. A table then has the same nodes at the same positions, under their new ids. -/
namespace RigNodes

/-- What an author may call a node. -/
abbrev UserId := UInt32 ⊕ String

namespace NodeRef

def ofId : UserId → NodeRef
  | .inl n => .number n
  | .inr x => .name x

/-- Another id for a number or a name. Slots are nobody's choice. -/
def rename (ρ : UserId → UserId) : NodeRef → NodeRef
  | .number n => .ofId (ρ (.inl n))
  | .name x => .ofId (ρ (.inr x))
  | r => r

variable {ρ : UserId → UserId}

theorem ofId_injective : Function.Injective ofId := by
  rintro (n | x) (n' | x') h <;> cases h <;> rfl

@[simp] theorem ofId_isAuthored (i : UserId) : (ofId i).isAuthored = true := by
  cases i <;> rfl

@[simp] theorem rename_isAuthored (r : NodeRef) : (r.rename ρ).isAuthored = r.isAuthored := by
  cases r <;> first | exact ofId_isAuthored _ | rfl

theorem rename_of_not_authored {r : NodeRef} (hr : r.isAuthored = false) : r.rename ρ = r := by
  cases r <;> first | rfl | cases hr

theorem exists_id {r : NodeRef} (hr : r.isAuthored = true) :
    ∃ i, r = ofId i ∧ r.rename ρ = ofId (ρ i) := by
  cases r with
  | number n => exact ⟨.inl n, rfl, rfl⟩
  | name x => exact ⟨.inr x, rfl, rfl⟩
  | _ => cases hr

@[simp] theorem rename_isCanonical (r : NodeRef) : (r.rename ρ).isCanonical = r.isCanonical := by
  have hform : ∀ x : NodeRef, x.isAuthored = true → x.isCanonical = false := by
    intro x hx
    cases x <;> first | rfl | cases hx
  cases hr : r.isAuthored with
  | true => rw [hform r hr, hform _ (by rwa [rename_isAuthored])]
  | false => rw [rename_of_not_authored hr]

theorem rename_injective (hρ : Function.Injective ρ) : Function.Injective (rename ρ) := by
  intro r r' h
  have hsame := congrArg isAuthored h
  rw [rename_isAuthored, rename_isAuthored] at hsame
  cases hr : r.isAuthored with
  | true =>
      obtain ⟨i, rfl, hi⟩ := @exists_id ρ r hr
      obtain ⟨i', rfl, hi'⟩ := @exists_id ρ r' (hsame ▸ hr)
      rw [hi, hi'] at h
      rw [hρ (ofId_injective h)]
  | false =>
      rwa [rename_of_not_authored hr, rename_of_not_authored (hsame ▸ hr)] at h

end NodeRef

/-- An entry with other ids, in its definition or in its references. -/
def renameEntry (ρ : UserId → UserId) (k : Keyword) (e : Entry k) : Entry k :=
  match k, e with
  | .nodes, e | .nodes2, e => ({ e with id := e.id.rename ρ } : Node)
  | k, e => mapFields (NodeRef.rename ρ) k e

def Section.rename (ρ : UserId → UserId) (c : Section) : Section :=
  ⟨c.keyword, c.entries.map (renameEntry ρ c.keyword)⟩

def Module.rename (ρ : UserId → UserId) (m : Module) : Module :=
  { m with sections := m.sections.map (Section.rename ρ) }

/-- A document with other ids throughout. -/
def Document.rename (ρ : UserId → UserId) (d : Document) : Document :=
  { d with modules := d.modules.map (Module.rename ρ) }

def Production.rename (ρ : UserId → UserId) : Production → Production
  | .definition id => .definition (id.rename ρ)
  | p => p

def Site.renamed (ρ : UserId → UserId) (s : Site) : Site :=
  { s with production := s.production.rename ρ }

/-- A row with its id changed. The kind of a node with an id follows the form of the id. -/
def TableEntry.rename (ρ : UserId → UserId) (e : TableEntry) : TableEntry :=
  match e.userId with
  | some id => { (id.rename ρ).row e.origin with role := e.role, ray := e.ray }
  | none => e

section
variable (ρ : UserId → UserId)

@[simp] theorem Production.rename_width (p : Production) : (p.rename ρ).width = p.width := by
  cases p <;> rfl

theorem NodeRef.rename_row (k : Kind) (id : NodeRef) :
    (id.row k).rename ρ = (id.rename ρ).row k := by
  cases hid : id.isAuthored with
  | true =>
      obtain ⟨i, -, hi⟩ := @exists_id ρ id hid
      unfold TableEntry.rename
      simp only [row, hi]
      cases ρ i <;> rfl
  | false => cases id <;> first | rfl | cases hid

theorem TableEntry.rename_of_generated {e : TableEntry} (h : e.userId = none) :
    e.rename ρ = e := by
  rw [rename, h]

theorem Production.rename_rows (k : Keyword) (p : Production) :
    (p.rename ρ).rows k = (p.rows k).map (TableEntry.rename ρ) := by
  cases p with
  | definition id => exact congrArg (fun e => [e]) (id.rename_row ρ _).symm
  | point kind => rfl
  | wheel kind rays rigid =>
      have hgenerated : ∀ i, (kind.wheelRow rays.toNat i).rename ρ = kind.wheelRow rays.toNat i :=
        fun i => TableEntry.rename_of_generated ρ (kind.wheelRow_userId _ i)
      simp only [rename, rows, List.map_map, Function.comp_def, hgenerated]

theorem production?_renameEntry (k : Keyword) (e : Entry k) :
    production? k (renameEntry ρ k e) = (production? k e).map (Production.rename ρ) := by
  have hrigid : ∀ r : Option NodeRef, (r.map (NodeRef.rename ρ)).isSome = r.isSome := by
    intro r
    cases r <;> rfl
  cases k <;> first | rfl | exact congrArg (fun b => some (Production.wheel _ _ b)) (hrigid _)

theorem Section.productions_rename (c : Section) :
    (c.rename ρ).productions = c.productions.map (Production.rename ρ) := by
  have hproductions : (c.rename ρ).productions =
      (c.entries.map (renameEntry ρ c.keyword)).filterMap (production? c.keyword) := rfl
  rw [hproductions, productions, List.filterMap_map, List.map_filterMap]
  exact List.filterMap_congr fun e _ => production?_renameEntry ρ c.keyword e

theorem Section.sites_rename (c : Section) (i : Nat) :
    (c.rename ρ).sites i = (c.sites i).map (Site.renamed ρ) := by
  unfold sites
  rw [productions_rename]
  simp [List.mapIdx_eq_zipIdx_map, List.zipIdx_map, Function.comp_def, Site.renamed, rename]

theorem Module.zipIdx_rename (m : Module) :
    (m.rename ρ).sections.zipIdx = m.sections.zipIdx.map (Prod.map (Section.rename ρ) id) :=
  List.zipIdx_map

theorem Module.sites_rename (m : Module) : (m.rename ρ).sites = m.sites.map (Site.renamed ρ) := by
  rw [sites, sites, zipIdx_rename, List.flatMap_map, List.map_flatMap]
  exact List.flatMap_congr fun c _ => c.1.sites_rename ρ c.2

theorem Module.canonicalSites_rename (m : Module) :
    (m.rename ρ).canonicalSites = m.canonicalSites.map (Site.renamed ρ) :=
  canonicalSites_map (m.sites_rename ρ) fun _ => rfl

theorem Site.renamed_id? (s : Site) : (s.renamed ρ).id? = s.id?.map (NodeRef.rename ρ) := by
  rcases s with ⟨i, j, k, (id | kind | ⟨kind, rays, rigid⟩)⟩ <;> rfl

end

section
variable {ρ : UserId → UserId} (hρ : Function.Injective ρ)
include hρ

theorem Production.rename_injective : Function.Injective (Production.rename ρ) := by
  intro p p' h
  cases p <;> cases p' <;> first | exact h | cases h | skip
  exact congrArg definition (NodeRef.rename_injective hρ (definition.inj h))

theorem Site.renamed_injective : Function.Injective (Site.renamed ρ) := by
  rintro ⟨i, j, k, p⟩ ⟨i', j', k', p'⟩ h
  obtain ⟨rfl, rfl, rfl, hp⟩ := mk.inj h
  obtain rfl := Production.rename_injective hρ hp
  rfl

end

namespace Module
variable {ρ : UserId → UserId} (hρ : Function.Injective ρ) (m : Module)
include hρ

theorem first?_rename (id : NodeRef) :
    (m.rename ρ).first? (id.rename ρ) = (m.first? id).map (Site.renamed ρ) := by
  have hsame : ∀ s : Site, ((s.renamed ρ).id? == some (id.rename ρ)) = (s.id? == some id) := by
    intro s
    rw [Site.renamed_id?, Bool.eq_iff_iff, beq_iff_eq, beq_iff_eq, ← Option.map_some]
    exact (Option.map_injective (NodeRef.rename_injective hρ)).eq_iff
  rw [first?, canonicalSites_rename, List.find?_map]
  simp only [Function.comp_def, hsame]
  rfl

theorem accepts_renamed (s : Site) : (m.rename ρ).accepts (s.renamed ρ) = m.accepts s := by
  unfold accepts
  rw [Site.renamed_id?]
  cases s.id? with
  | none => rfl
  | some id =>
      have hfirst : ((m.rename ρ).first? (id.rename ρ) == some (s.renamed ρ)) =
          (m.first? id == some s) := by
        rw [m.first?_rename hρ, Bool.eq_iff_iff, beq_iff_eq, beq_iff_eq, ← Option.map_some]
        exact (Option.map_injective (Site.renamed_injective hρ)).eq_iff
      simp [hfirst]

theorem rows_renamed (s : Site) :
    (m.rename ρ).rows (s.renamed ρ) = (m.rows s).map (TableEntry.rename ρ) := by
  rw [rows, rows, m.accepts_renamed hρ]
  split
  · exact s.production.rename_rows ρ s.keyword
  · rfl

variable {m} in
theorem start_renamed {s : Site} (hs : s ∈ m.sites) :
    (m.rename ρ).start (s.renamed ρ) = m.start s := by
  apply start_map (m.canonicalSites_rename ρ) _ hs
  intro t
  rw [m.rows_renamed hρ, List.length_map]

variable {m} in
theorem span?_renamed {s : Site} (hs : s ∈ m.sites) :
    (m.rename ρ).span? (s.renamed ρ) = m.span? s := by
  rw [span?, span?, m.accepts_renamed hρ, start_renamed hρ hs]
  simp only [Site.renamed, Production.rename_width]

variable {m} in
theorem spansAt_rename {c : Section × Nat} (hc : c ∈ m.sections.zipIdx) :
    (m.rename ρ).spansAt (c.1.rename ρ, c.2) = m.spansAt c := by
  rw [spansAt, Section.sites_rename, List.map_map]
  apply List.map_congr_left
  intro s hs
  exact span?_renamed hρ (List.mem_flatMap.mpr ⟨c, hc, hs⟩)

theorem tableRows_rename :
    (m.rename ρ).tableRows = m.tableRows.map (TableEntry.rename ρ) := by
  rw [tableRows, tableRows, canonicalSites_rename, List.flatMap_map, List.map_flatMap]
  apply List.flatMap_congr
  intro s hs
  exact m.rows_renamed hρ s

theorem legacyOrder_rename : (m.rename ρ).table.legacyOrder = m.table.legacyOrder := by
  have hspans : (m.rename ρ).sections.zipIdx.map (m.rename ρ).spansAt =
      m.sections.zipIdx.map m.spansAt := by
    rw [zipIdx_rename, List.map_map]
    apply List.map_congr_left
    intro c hc
    exact spansAt_rename hρ hc
  rw [table, table, hspans]
  rfl

/-- Other ids do not bring a row into another group. -/
theorem rank_rename {e : TableEntry} (he : e ∈ m.tableRows) :
    (e.rename ρ).origin.rank = e.origin.rank := by
  -- The kind may change with the id, so that the ranks are compared by way of the section.
  obtain ⟨s, hs, he⟩ := List.mem_flatMap.mp he
  have hs : s ∈ m.sites := m.mem_canonicalSites.mp hs
  have hs' : s.renamed ρ ∈ (m.rename ρ).sites := by
    rw [sites_rename]
    exact List.mem_map_of_mem hs
  have he' : e.rename ρ ∈ (m.rename ρ).rows (s.renamed ρ) := by
    rw [m.rows_renamed hρ]
    exact List.mem_map_of_mem he
  rw [m.rows_rank hs he, rows_rank _ hs' he', site_rank _ hs, site_rank _ hs']
  rfl

theorem find?_rename (id : NodeRef) :
    (m.rename ρ).table.find? (id.rename ρ) = m.table.find? id := by
  cases hid : id.isAuthored with
  | true =>
      rw [table_find? (by rwa [NodeRef.rename_isAuthored]), table_find? hid, m.first?_rename hρ,
        Option.map_map]
      cases hs : m.first? id with
      | none => rfl
      | some s => exact congrArg some (start_renamed hρ (of_first? hid hs).1)
  | false =>
      rw [NodeRef.rename_of_not_authored hid]
      cases id <;> first | rfl | cases hid

end Module

/-- A row under another id. Only in the group of the nodes with ids does the kind follow the id. -/
structure TableEntry.Renames (ρ : UserId → UserId) (e e' : TableEntry) : Prop where
  userId : e'.userId = e.userId.map (NodeRef.rename ρ)
  origin : e'.origin = e.origin ∨ e.origin.rank = 0 ∧ e'.origin.rank = 0
  role : e'.role = e.role
  ray : e'.ray = e.ray

/-- A table under other ids: the same nodes at the same positions, each found by its new id. -/
structure NodeTable.Renames (ρ : UserId → UserId) (t t' : NodeTable) : Prop where
  entries : List.Forall₂ (TableEntry.Renames ρ) t.entries.toList t'.entries.toList
  index (r : NodeRef) (p : Nat) :
    t'.find? r = some p ↔ ∃ id : NodeRef, id.rename ρ = r ∧ t.find? id = some p
  counts (k : Kind) (hk : k.rank ≠ 0) : t'.count k = t.count k
  groups (k : Kind) : t'.groupCount k = t.groupCount k
  legacyOrder : t'.legacyOrder = t.legacyOrder

theorem TableEntry.rename_origin (ρ : UserId → UserId) (e : TableEntry) :
    (e.rename ρ).origin = e.origin ∨ (e.rename ρ).origin.rank = 0 := by
  obtain ⟨origin, role, userId, ray⟩ := e
  cases userId with
  | none => exact .inl rfl
  | some id =>
      cases hid : id.isAuthored with
      | true =>
          obtain ⟨i, -, hi⟩ := @NodeRef.exists_id ρ id hid
          right
          simp only [rename, hi]
          cases ρ i <;> rfl
      | false =>
          left
          cases id <;> first | rfl | cases hid

namespace Module
variable {ρ : UserId → UserId} (hρ : Function.Injective ρ) (m : Module)
include hρ

theorem row_renames {e : TableEntry} (he : e ∈ m.tableRows) : e.Renames ρ (e.rename ρ) := by
  have hrank := m.rank_rename hρ he
  have horigin : (e.rename ρ).origin = e.origin ∨
      e.origin.rank = 0 ∧ (e.rename ρ).origin.rank = 0 := by
    rcases e.rename_origin ρ with h | h
    · exact .inl h
    · exact .inr ⟨hrank.symm.trans h, h⟩
  obtain ⟨origin, role, userId, ray⟩ := e
  cases userId <;> exact ⟨rfl, horigin, rfl, rfl⟩

theorem tally_rename {p : Kind → Bool} (hp : ∀ e ∈ m.tableRows, p (e.rename ρ).origin = p e.origin) :
    NodeTable.tally (m.rename ρ).tableRows p = NodeTable.tally m.tableRows p := by
  rw [m.tableRows_rename hρ, NodeTable.tally, NodeTable.tally, List.countP_map]
  apply List.countP_congr
  intro e he
  rw [Function.comp_apply, hp e he]

theorem table_renames : m.table.Renames ρ (m.rename ρ).table := by
  refine ⟨?entries, ?index, ?counts, ?groups, m.legacyOrder_rename hρ⟩
  case entries =>
    rw [entries_table, entries_table, m.tableRows_rename hρ, List.forall₂_map_right_iff,
      List.forall₂_same]
    intro e he
    exact m.row_renames hρ he
  case index =>
    intro r p
    constructor
    · intro h
      have hr : r.isAuthored = true := by cases r <;> first | rfl | cases h
      rw [table_find? hr] at h
      obtain ⟨s, hs, -⟩ := Option.map_eq_some_iff.mp h
      obtain ⟨hmem, hid, -⟩ := of_first? hr hs
      rw [sites_rename] at hmem
      obtain ⟨s, -, rfl⟩ := List.mem_map.mp hmem
      rw [Site.renamed_id?] at hid
      obtain ⟨id, -, rfl⟩ := Option.map_eq_some_iff.mp hid
      refine ⟨id, rfl, ?_⟩
      rw [← m.find?_rename hρ, table_find? hr, h]
    · rintro ⟨id, rfl, h⟩
      rwa [m.find?_rename hρ]
  case counts =>
    intro k hk
    have hcount : ∀ m : Module, m.table.count k = NodeTable.tally m.tableRows (· == k) := fun m =>
      NodeTable.ofRows_count m.tableRows k
    rw [hcount, hcount]
    apply m.tally_rename hρ
    intro e he
    rcases (m.row_renames hρ he).origin with h | ⟨h, h'⟩
    · rw [h]
    · have hne : ∀ j : Kind, j.rank = 0 → (j == k) = false := by
        rintro j hj
        rw [beq_eq_false_iff_ne]
        rintro rfl
        exact hk hj
      rw [hne _ h, hne _ h']
  case groups =>
    intro k
    have hcount : ∀ m : Module, m.table.groupCount k = NodeTable.tally m.tableRows k.sameGroup :=
      fun m => NodeTable.ofRows_groupCount m.tableRows k
    rw [hcount, hcount]
    apply m.tally_rename hρ
    intro e he
    rw [Kind.sameGroup, m.rank_rename hρ he]
    rfl

end Module

end RigNodes
