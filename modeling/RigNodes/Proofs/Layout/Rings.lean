import RigNodes.Proofs.Layout.Placement

/-! Wheels node by node. Where a wheel has its node of a ray and a side is said by a formula; the
rings that are appended for it follow the formula, and so do the wheels of a processed module, with
the wheels of the same kind that are declared before them added up. -/
namespace RigNodes

namespace Role

/-- The place of a side in a pair of nodes. -/
def side : Role → Nat
  | tyreA | rimA => 0
  | tyreB | rimB => 1

def isTyre : Role → Bool
  | tyreA | tyreB => true
  | rimA | rimB => false

end Role

namespace Kind
variable {k : Kind} {n rays ray i : Nat} {role : Role}

/-- The parts that the nodes of a wheel play. Without a rim ring they are all of the tyre. -/
def hasRole (k : Kind) (role : Role) : Bool :=
  if role.isTyre then k.nodesPerRay?.isSome else k.nodesPerRay? == some 4

/-- Where a node stands in its wheel: behind the rim ring if it is of the tyre and there is one,
and then behind the pairs of the rays before its own. -/
def place (k : Kind) (rays : Nat) (role : Role) (ray : Nat) : Nat :=
  (if role.isTyre ∧ k.nodesPerRay? = some 4 then 2 * rays else 0) + 2 * ray + role.side

theorem nodesPerRay?_eq (h : k.nodesPerRay? = some n) : n = 2 ∨ n = 4 := by
  cases k <;> simp_all [nodesPerRay?]

theorem place_tyre (h : k.nodesPerRay? = some n) (hrole : role.isTyre) :
    k.place rays role ray = (n - 2) * rays + (2 * ray + role.side) := by
  rcases nodesPerRay?_eq h with rfl | rfl <;> simp [place, hrole, h, Nat.add_assoc]

theorem place_rim (hrole : role.isTyre = false) : k.place rays role ray = 2 * ray + role.side := by
  simp [place, hrole]

theorem hasRole_tyre (h : k.nodesPerRay? = some n) (hrole : role.isTyre) : k.hasRole role := by
  simp [hasRole, hrole, h]

theorem hasRole_rim (hrole : role.isTyre = false) : k.hasRole role ↔ k.nodesPerRay? = some 4 := by
  simp [hasRole, hrole]

theorem side_le (role : Role) : role.side ≤ 1 := by
  cases role <;> decide

theorem place_lt (h : k.nodesPerRay? = some n) (role : Role) (hray : ray < rays) :
    k.place rays role ray < rays * n := by
  have hside := side_le role
  cases hring : role.isTyre with
  | true =>
      rw [place_tyre h hring]
      rcases nodesPerRay?_eq h with rfl | rfl <;> omega
  | false =>
      rw [place_rim hring]
      rcases nodesPerRay?_eq h with rfl | rfl <;> omega

/-- The node at the place that the formula gives plays the part on the ray that it was asked for. -/
theorem wheelRow_place (hrole : k.hasRole role) (hray : ray < rays) :
    k.wheelRow rays (k.place rays role ray) = ⟨k, some role, none, ray⟩ := by
  have hA : (2 * ray) % 2 = 0 ∧ (2 * ray) / 2 = ray := by omega
  have hB : (2 * ray + 1) % 2 = 1 ∧ (2 * ray + 1) / 2 = ray := by omega
  cases hring : role.isTyre with
  | false =>
      have hrim : k.nodesPerRay? = some 4 := (hasRole_rim hring).mp hrole
      have hbefore : 2 * ray < 2 * rays ∧ 2 * ray + 1 < 2 * rays := by omega
      rw [place_rim hring]
      cases role with
      | rimA => simp [wheelRow, Role.side, hrim, hA, hbefore]
      | rimB => simp [wheelRow, Role.side, hrim, hB, hbefore]
      | _ => cases hring
  | true =>
      obtain ⟨n, hn⟩ : ∃ n, k.nodesPerRay? = some n := by
        simpa [hasRole, hring, Option.isSome_iff_exists] using hrole
      rw [place_tyre hn hring]
      rcases nodesPerRay?_eq hn with rfl | rfl
      · cases role with
        | tyreA => simp [wheelRow, Role.side, hn, hA]
        | tyreB => simp [wheelRow, Role.side, hn, hB]
        | _ => cases hring
      · cases role with
        | tyreA => simp [wheelRow, Role.side, hn, hA]
        | tyreB => simp [wheelRow, Role.side, hn, hB]
        | _ => cases hring

/-- A ring has nothing but its two sides, ray by ray. -/
theorem exists_side {a b : Role} (ha : a.side = 0) (hb : b.side = 1) (hi : i < 2 * rays) :
    ∃ role ray, (role = a ∨ role = b) ∧ ray < rays ∧ i = 2 * ray + role.side := by
  rcases Nat.mod_two_eq_zero_or_one i with hi' | hi'
  · exact ⟨a, i / 2, .inl rfl, by omega, by omega⟩
  · exact ⟨b, i / 2, .inr rfl, by omega, by omega⟩

/-- Every node of a wheel is at the place of a ray and a part. -/
theorem exists_place (h : k.nodesPerRay? = some n) (hi : i < rays * n) :
    ∃ role ray, k.hasRole role ∧ ray < rays ∧ i = k.place rays role ray := by
  by_cases hrim : n = 4 ∧ i < 2 * rays
  · obtain ⟨rfl, hlow⟩ := hrim
    obtain ⟨role, ray, hrole, hray, rfl⟩ := exists_side (a := .rimA) (b := .rimB) rfl rfl hlow
    have hring : role.isTyre = false := by rcases hrole with rfl | rfl <;> rfl
    exact ⟨role, ray, (hasRole_rim hring).mpr h, hray, (place_rim hring).symm⟩
  · have hbehind : (n - 2) * rays ≤ i ∧ i - (n - 2) * rays < 2 * rays := by
      rcases nodesPerRay?_eq h with rfl | rfl <;> omega
    obtain ⟨role, ray, hrole, hray, hplace⟩ :=
      exists_side (a := .tyreA) (b := .tyreB) rfl rfl hbehind.2
    have hring : role.isTyre = true := by rcases hrole with rfl | rfl <;> rfl
    refine ⟨role, ray, hasRole_tyre h hring, hray, ?_⟩
    rw [place_tyre h hring]
    omega

end Kind

/-- A table that has a wheel from a position on: for each part and each ray one node, at the place
that the formula gives. -/
structure NodeTable.HoldsWheel (t : NodeTable) (start : Nat) (k : Kind) (n rays : Nat) : Prop where
  node {role : Role} {ray : Nat} (hrole : k.hasRole role) (hray : ray < rays) :
    t.get? (start + k.place rays role ray) = some ⟨k, some role, none, ray⟩
  once {role : Role} {ray : Nat} (hrole : k.hasRole role) (hray : ray < rays) :
    ∃! p, (⟨start, rays * n⟩ : Span).contains p ∧
      ∃ e, t.get? p = some e ∧ e.role = some role ∧ e.ray = ray
  only {p : Nat} (hp : (⟨start, rays * n⟩ : Span).contains p) :
    ∃ role ray, k.hasRole role ∧ ray < rays ∧ t.get? p = some ⟨k, some role, none, ray⟩

theorem NodeTable.HoldsWheel.of_rows {t : NodeTable} {start : Nat} {k : Kind} {n rays : Nat}
    (hn : k.nodesPerRay? = some n)
    (h : ∀ i < rays * n, t.get? (start + i) = some (k.wheelRow rays i)) :
    t.HoldsWheel start k n rays := by
  have hnode : ∀ {role : Role} {ray : Nat}, k.hasRole role → ray < rays →
      t.get? (start + k.place rays role ray) = some ⟨k, some role, none, ray⟩ := by
    intro role ray hrole hray
    rw [h _ (Kind.place_lt hn role hray), Kind.wheelRow_place hrole hray]
  have hplace : ∀ {p : Nat}, (⟨start, rays * n⟩ : Span).contains p →
      ∃ role ray, k.hasRole role ∧ ray < rays ∧ p = start + k.place rays role ray := by
    intro p hp
    simp only [Span.contains, Bool.and_eq_true, decide_eq_true_eq] at hp
    obtain ⟨role, ray, hrole, hray, hi⟩ :=
      Kind.exists_place hn (show p - start < rays * n by omega)
    exact ⟨role, ray, hrole, hray, by omega⟩
  refine ⟨hnode, ?once, ?only⟩
  case once =>
    intro role ray hrole hray
    have hlt := Kind.place_lt hn role hray
    refine ⟨start + k.place rays role ray, ⟨?_, _, hnode hrole hray, rfl, rfl⟩, ?_⟩
    · simp only [Span.contains, Bool.and_eq_true, decide_eq_true_eq]
      omega
    · rintro p ⟨hp, e, he, hrole', hray'⟩
      obtain ⟨role', ray', hrole'', hray'', rfl⟩ := hplace hp
      rw [hnode hrole'' hray'', Option.some.injEq] at he
      subst he
      cases hrole'
      cases hray'
      rfl
  case only =>
    intro p hp
    obtain ⟨role, ray, hrole, hray, rfl⟩ := hplace hp
    exact ⟨role, ray, hrole, hray, hnode hrole hray⟩

/-- Rows without ids leave the indexes alone. -/
theorem NodeTable.enterAll_generated (t : NodeTable) {rows : List TableEntry}
    (h : ∀ e ∈ rows, e.userId = none) :
    (rows.foldl enter t).numbers = t.numbers ∧ (rows.foldl enter t).names = t.names ∧
      (rows.foldl enter t).legacyOrder = t.legacyOrder := by
  induction rows generalizing t with
  | nil => exact ⟨rfl, rfl, rfl⟩
  | cons e rows ih =>
      obtain ⟨he, hrows⟩ := List.forall_mem_cons.mp h
      have hfirst : t.push e = t.enter e := t.push_eq_enter (by simp [he]) (by simp [he])
      rw [List.foldl_cons, ← hfirst]
      exact ih (t.push e) hrows

namespace Resolver

/-- A wheel that was registered: its nodes are appended, and nothing else about the table
changes. -/
structure Wheeled (r : Resolver) (k : Kind) (n : Nat) (rays : UInt32) (rigid : Bool)
    (a : Resolver × Option WheelNodes) : Prop where
  answer : a.2 = some ⟨⟨r.table.size, rays.toNat * n⟩, rigid⟩
  size : a.1.table.size = r.table.size + rays.toNat * n
  kept {p : Nat} (hp : p < r.table.size) : a.1.table.get? p = r.table.get? p
  numbers : a.1.table.numbers = r.table.numbers
  names : a.1.table.names = r.table.names
  legacyOrder : a.1.table.legacyOrder = r.table.legacyOrder
  appended : a.1.table.HoldsWheel r.table.size k n rays.toNat
  slots (hsize : a.1.table.size ≤ 2 ^ 32) {p : Nat} (hp : p < a.1.table.size) :
    (Slot.ofPosition p).position = p

theorem registerWheel_wheeled {r : Resolver} (h : r.options.enabled = true) {k : Kind} {n : Nat}
    (hn : k.nodesPerRay? = some n) (rays : UInt32) (rigid : Bool) :
    r.Wheeled k n rays rigid (r.registerWheel k rays rigid) := by
  have hrows : (Production.wheel k rays rigid).rows .wheels =
      (List.range (rays.toNat * n)).map (k.wheelRow rays.toNat) := by
    simp only [Production.rows, hn, Option.getD_some]
  have hanswer : (r.registerWheel k rays rigid).2 =
      some ⟨⟨r.table.size, rays.toNat * n⟩, rigid⟩ := by
    simp only [registerWheel, if_pos h, r.table.registerWheel_eq hn rays rigid]
  have htable : (r.registerWheel k rays rigid).1.table =
      ((List.range (rays.toNat * n)).map (k.wheelRow rays.toNat)).foldl NodeTable.enter
        r.table := by
    simp only [registerWheel, if_pos h, r.table.registerWheel_eq hn rays rigid, hrows]
    rfl
  have hgenerated : ∀ e ∈ (List.range (rays.toNat * n)).map (k.wheelRow rays.toNat),
      e.userId = none := by
    intro e he
    obtain ⟨i, -, rfl⟩ := List.mem_map.mp he
    exact k.wheelRow_userId _ i
  have hentries := NodeTable.enterAll_entries r.table
    ((List.range (rays.toNat * n)).map (k.wheelRow rays.toNat))
  rw [← htable] at hentries
  have hrow : ∀ i < rays.toNat * n, (r.registerWheel k rays rigid).1.table.get?
      (r.table.size + i) = some (k.wheelRow rays.toNat i) := by
    intro i hi
    rw [NodeTable.get?, hentries, NodeTable.size, Array.getElem?_append_right (Nat.le_add_right ..)]
    simp [hi]
  obtain ⟨hnumbers, hnames, horder⟩ := r.table.enterAll_generated hgenerated
  rw [← htable] at hnumbers hnames horder
  refine ⟨hanswer, ?size, ?kept, hnumbers, hnames, horder, .of_rows hn hrow, ?slots⟩
  case size =>
    rw [NodeTable.size, hentries, Array.size_append]
    simp [NodeTable.size]
  case kept =>
    intro p hp
    rw [NodeTable.get?, hentries, Array.getElem?_append_left hp]
    rfl
  case slots =>
    intro hsize p hp
    exact Module.position_ofPosition (hp.trans_le hsize)

end Resolver

/-- A wheel as it is declared: the place of its section, its own place in there, and its rays. -/
structure DeclaredWheel where
  part : Nat
  entry : Nat
  rays : Nat
  deriving DecidableEq, Repr

def Section.wheels (c : Section) (part : Nat) : List DeclaredWheel :=
  c.entries.zipIdx.filterMap fun e =>
    (wheelForm? c.keyword e.1).map fun w => ⟨part, e.2, w.rays.toNat⟩

/-- The wheels of a kind, in declared order. -/
def Module.wheelsOf (m : Module) (k : Kind) : List DeclaredWheel :=
  (m.sections.zipIdx.filter fun c => c.1.keyword == k.keyword).flatMap fun c => c.1.wheels c.2

/-- The wheel of a site that is known to be one. -/
def Site.wheel (s : Site) : DeclaredWheel where
  part := s.part
  entry := s.entry
  rays := match s.production with
    | .wheel _ rays _ => rays.toNat
    | _ => 0

/-- All entries of a wheel section are wheels. -/
theorem exists_wheelForm {key : Keyword} {k : Kind} (hkey : Kind.generatedBy? key = some k)
    (hk : k.nodesPerRay?.isSome) :
    ∃ form : Entry key → WheelForm, (∀ e, wheelForm? key e = some (form e)) ∧
      ∀ e, production? key e = some (.wheel k (form e).rays (form e).rigidity.isSome) := by
  cases key <;> cases hkey <;>
    first
    | exact ⟨fun e => ⟨e.rays, e.axis, e.rigidity⟩, fun _ => rfl, fun _ => rfl⟩
    | cases hk

theorem Section.wheels_eq {c : Section} {k : Kind} (hkey : Kind.generatedBy? c.keyword = some k)
    (hk : k.nodesPerRay?.isSome) (part : Nat) : c.wheels part = (c.sites part).map Site.wheel := by
  obtain ⟨form, hform, hproduction⟩ := exists_wheelForm hkey hk
  have hproductions : c.productions =
      c.entries.map fun e => .wheel k (form e).rays (form e).rigidity.isSome := by
    rw [productions, funext hproduction, List.filterMap_eq_map']
  have hwheels : c.wheels part =
      c.entries.zipIdx.map fun e => ⟨part, e.2, (form e.1).rays.toNat⟩ := by
    simp only [wheels, hform, Option.map_some]
    exact congrFun List.filterMap_eq_map' _
  rw [hwheels, sites, hproductions]
  apply List.ext_getElem
  · simp
  · intro j hj hj'
    simp [Site.wheel]

namespace Module
variable {m : Module} {k : Kind}

theorem wheelsOf_eq (hk : k.nodesPerRay?.isSome) :
    m.wheelsOf k = (m.sites.filter fun s => s.production.kind? == some k).map Site.wheel := by
  have hkey : Kind.generatedBy? k.keyword = some k := by cases k <;> first | rfl | cases hk
  have hkind : ∀ s ∈ m.sites, (s.production.kind? == some k) = (s.keyword == k.keyword) := by
    intro s hs
    rw [Bool.eq_iff_iff, beq_iff_eq, beq_iff_eq, m.site_kind? hs]
    exact ⟨fun h => Kind.generatedBy?_inj h hkey, fun h => h ▸ hkey⟩
  rw [List.filter_congr hkind, filter_sites, List.map_flatMap, wheelsOf]
  apply List.flatMap_congr
  intro c hc
  have hc := eq_of_beq (List.mem_filter.mp hc).2
  exact Section.wheels_eq (hc ▸ hkey) hk c.2

/-- The entries of a generating section have appended the positions that are theirs. -/
theorem grown?_site {s : Site} (hs : s ∈ m.sites) (hid : s.id? = none) :
    m.grown? s.part s.entry = m.span? s := by
  obtain ⟨c, hc, hs'⟩ := m.mem_sites hs
  have hkind : (Kind.generatedBy? c.keyword).isSome := by
    rw [← (Section.mem_sites hs').2.1, ← m.site_kind? hs]
    unfold Site.id? at hid
    cases hp : s.production <;> simp_all [Production.kind?]
  have hgrown := m.grown?_eq (c := (c, s.part)) (List.mem_zipIdx_iff_getElem?.mpr hc) hkind s.entry
  rw [hgrown, List.getElem?_map, Section.getElem?_sites hs']
  rfl

/-- The sites of a wheel kind are wheels. -/
theorem wheel_production {s : Site} (hs : s ∈ m.sites) (hk : k.nodesPerRay?.isSome)
    (hkind : s.production.kind? = some k) : ∃ rays rigid, s.production = .wheel k rays rigid := by
  have hfits := m.sites_fits hs
  cases hp : s.production with
  | definition id =>
      rw [hp] at hkind
      cases hkind
  | point kind =>
      rw [hp] at hfits hkind
      cases hkind
      rw [hfits.2] at hk
      cases hk
  | wheel kind rays rigid =>
      rw [hp] at hkind
      cases hkind
      exact ⟨rays, rigid, rfl⟩

theorem width_wheel {s : Site} {n : Nat} (hs : s ∈ m.sites) (hn : k.nodesPerRay? = some n)
    (hkind : s.production.kind? = some k) : s.production.width = s.wheel.rays * n := by
  obtain ⟨rays, rigid, hp⟩ := wheel_production hs (by rw [hn]; rfl) hkind
  simp [Site.wheel, hp, Production.width, hn]

/-- Where a wheel starts: the wheels of its kind that are declared before it take up what is
between it and the start of the kind. -/
theorem start_wheel {n j : Nat} (hn : k.nodesPerRay? = some n) {w : DeclaredWheel}
    (hw : (m.wheelsOf k)[j]? = some w) : ∃ s ∈ m.sites, s.wheel = w ∧ s.production.kind? = some k ∧
      m.start s = m.table.baseOffset k + (((m.wheelsOf k).take j).map fun w => w.rays * n).sum := by
  have hk : k.nodesPerRay?.isSome := by rw [hn]; rfl
  rw [wheelsOf_eq hk, List.getElem?_map, Option.map_eq_some_iff] at hw
  obtain ⟨s, hs, rfl⟩ := hw
  obtain ⟨hj, hget⟩ := List.getElem?_eq_some_iff.mp hs
  have hsplit := List.take_append_drop j (m.sites.filter fun s => s.production.kind? == some k)
  rw [← List.getElem_cons_drop hj, hget] at hsplit
  obtain ⟨front, back, hsites, hfront, hback⟩ := List.filter_eq_append_iff.mp hsplit.symm
  obtain ⟨gap, after, rfl, hgap, hkind, -⟩ := List.filter_eq_cons_iff.mp hback
  have hbefore : (front ++ gap).filter (fun s => s.production.kind? == some k) =
      (m.sites.filter fun s => s.production.kind? == some k).take j := by
    rw [List.filter_append, hfront, List.filter_eq_nil_iff.mpr hgap, List.append_nil]
  have hsites : m.sites = (front ++ gap) ++ s :: after := by
    rw [hsites, List.append_assoc]
  have hmem : s ∈ m.sites := by simp [hsites]
  refine ⟨s, hmem, rfl, eq_of_beq hkind, ?_⟩
  rw [m.start_generated hsites (eq_of_beq hkind), usedAfter_get, hbefore, wheelsOf_eq hk,
    ← List.map_take, List.map_map]
  refine congrArg (m.table.baseOffset k + List.sum ·) (List.map_congr_left fun t ht => ?_)
  obtain ⟨ht, htk⟩ := List.mem_filter.mp (List.mem_of_mem_take ht)
  exact width_wheel ht hn (eq_of_beq htk)

end Module

/-- The place of a node in the group of its kind: the wheels that are declared before the `j`-th
one, and its place in this one. -/
def Module.wheelOffset (m : Module) (k : Kind) (n j rays : Nat) (role : Role) (ray : Nat) : Nat :=
  (((m.wheelsOf k).take j).map fun w => w.rays * n).sum + k.place rays role ray

/-- The wheels of a module in its table: the node of a part on a ray is found by its offset in the
group of the kind, which is computed from the declared wheels alone. -/
structure Module.RingsIn (m : Module) (t : NodeTable) : Prop where
  node {k : Kind} {n j : Nat} {w : DeclaredWheel} {role : Role} {ray : Nat}
    (hn : k.nodesPerRay? = some n) (hw : (m.wheelsOf k)[j]? = some w) (hrole : k.hasRole role)
    (hray : ray < w.rays) :
    m.wheelOffset k n j w.rays role ray < t.groupCount k ∧
      t.get? (t.baseOffset k + m.wheelOffset k n j w.rays role ray) =
        some ⟨k, some role, none, ray⟩
  span {k : Kind} {n j : Nat} {w : DeclaredWheel} (hn : k.nodesPerRay? = some n)
    (hw : (m.wheelsOf k)[j]? = some w) : ∃ span, m.grown? w.part w.entry = some span ∧
      span.length = w.rays * n ∧ ∀ role ray, t.baseOffset k + m.wheelOffset k n j w.rays role ray =
        span.start + k.place w.rays role ray
  answer {r : Resolver} (henabled : r.options.enabled = true) (htable : r.table = t)
    {k : Kind} {n j : Nat} {w : DeclaredWheel} {role : Role} {ray : Nat} {i : UInt32}
    (hn : k.nodesPerRay? = some n) (hw : (m.wheelsOf k)[j]? = some w) (hrole : k.hasRole role)
    (hray : ray < w.rays) (hi : i.toNat = m.wheelOffset k n j w.rays role ray) :
    r.resolveByPosition k i = (r, .slot (.ofPosition (t.baseOffset k + i.toNat)))
  slots (hsize : t.size ≤ 2 ^ 32) {p : Nat} (hp : p < t.size) : (Slot.ofPosition p).position = p

namespace Module
variable {m : Module}

/-- A node of a declared wheel, and where its wheel starts. -/
theorem get?_wheel {k : Kind} {n j : Nat} {w : DeclaredWheel} {role : Role} {ray : Nat}
    (hn : k.nodesPerRay? = some n) (hw : (m.wheelsOf k)[j]? = some w) (hrole : k.hasRole role)
    (hray : ray < w.rays) :
    m.table.get? (m.table.baseOffset k + m.wheelOffset k n j w.rays role ray) =
      some ⟨k, some role, none, ray⟩ := by
  obtain ⟨s, hs, rfl, hkind, hstart⟩ := start_wheel hn hw
  obtain ⟨rays, rigid, hp⟩ := wheel_production hs (by rw [hn]; rfl) hkind
  have hrays : s.wheel.rays = rays.toNat := by simp [Site.wheel, hp]
  rw [hrays] at hray ⊢
  have hlt : k.place rays.toNat role ray < rays.toNat * n := Kind.place_lt hn role hray
  have hrows : m.rows s = (List.range (rays.toNat * n)).map (k.wheelRow rays.toNat) := by
    rw [rows, if_pos (accepts_of_id?_eq_none (by simp [Site.id?, hp])), hp]
    simp only [Production.rows, hn, Option.getD_some]
  rw [wheelOffset, ← Nat.add_assoc, ← hstart, get?_table,
    tableRows_getElem? hs (by simpa [hrows] using hlt), hrows]
  simp [hlt, Kind.wheelRow_place hrole hray]

theorem ringsIn_table (m : Module) : m.RingsIn m.table := by
  have hgroup : ∀ {k : Kind} {n j : Nat} {w : DeclaredWheel} {role : Role} {ray : Nat},
      k.nodesPerRay? = some n → (m.wheelsOf k)[j]? = some w → k.hasRole role → ray < w.rays →
        m.wheelOffset k n j w.rays role ray < m.table.groupCount k := by
    intro k n j w role ray hn hw hrole hray
    have hget := get?_wheel hn hw hrole hray
    have hplace := (m.describes_table.groups k _).mpr ⟨_, hget, beq_self_eq_true _⟩
    omega
  refine ⟨?node, ?span, ?answer, ?slots⟩
  case node =>
    intro k n j w role ray hn hw hrole hray
    exact ⟨hgroup hn hw hrole hray, get?_wheel hn hw hrole hray⟩
  case span =>
    intro k n j w hn hw
    obtain ⟨s, hs, rfl, hkind, hstart⟩ := start_wheel hn hw
    obtain ⟨rays, rigid, hp⟩ := wheel_production hs (by rw [hn]; rfl) hkind
    have hid : s.id? = none := by simp [Site.id?, hp]
    refine ⟨⟨m.start s, s.production.width⟩, ?_, width_wheel hs hn hkind, ?_⟩
    · exact (grown?_site hs hid).trans (if_pos (accepts_of_id?_eq_none hid))
    · intro role ray
      rw [wheelOffset, ← Nat.add_assoc, ← hstart]
  case answer =>
    intro r henabled htable k n j w role ray i hn hw hrole hray hi
    have hlt : i.toNat < m.table.groupCount k := hi ▸ hgroup hn hw hrole hray
    rw [Resolver.resolveByPosition, if_pos henabled, htable, if_pos hlt]
  case slots =>
    intro hsize p hp
    exact position_ofPosition (hp.trans_le hsize)

end Module

namespace Resolver

/-- Wheels have their rings where the formula puts them, whether they are registered one by one or
with a document. -/
theorem wheel_rings {r : Resolver} (h : r.options.enabled = true) :
    (∀ {k n} (_ : k.nodesPerRay? = some n) (rays : UInt32) (rigid : Bool),
        r.Wheeled k n rays rigid (r.registerWheel k rays rigid)) ∧
      ∀ (d : Document) {i : Nat} {m : Module}, d.modules[i]? = some m →
        ∃ t, (r.process d).1.finished[r.finished.length + i]? = some ⟨m.name, t⟩ ∧
          (r.process { d with modules := d.modules.take (i + 1) }).1.table = t ∧ m.RingsIn t := by
  refine ⟨fun hn rays rigid => registerWheel_wheeled h hn rays rigid, ?_⟩
  intro d i m hm
  obtain ⟨hi, hget⟩ := List.getElem?_eq_some_iff.mp hm
  refine ⟨m.table, (process_module d h hm).2, ?_, m.ringsIn_table⟩
  rw [process_table h]
  simp [List.take_add_one, hm]

end Resolver

/-- Wheels of one kind in two sections, a wheel of a later kind before them, and a node that is
declared last. -/
def Module.paired : Module where
  name := "paired"
  sections :=
    [⟨.flexbodywheels, [.usual 1 #v[.number 7, .number 7] (.number 7)]⟩,
      ⟨.wheels2, [.usual 1 #v[.number 7, .number 7] (.number 7)]⟩,
      ⟨.wheels2, [.usual 2 #v[.number 7, .number 7] (.number 7)]⟩, .numberedNodes [7]]

theorem Resolver.wheel_rings_paired :
    (new ⟨true, false⟩).Wheeled .wheels2 4 2 true
        ((new ⟨true, false⟩).registerWheel .wheels2 2 true) ∧
      (∃ t, ((new ⟨true, false⟩).process ⟨"", [.paired]⟩).1.finished[0]? = some ⟨"paired", t⟩ ∧
        ((new ⟨true, false⟩).process ⟨"", [.paired]⟩).1.table = t ∧ Module.paired.RingsIn t) ∧
      Module.paired.wheelsOf .wheels2 = [⟨1, 0, 1⟩, ⟨2, 0, 2⟩] ∧
      Module.paired.wheelOffset .wheels2 4 1 2 .tyreB 1 = 11 ∧
      (((new ⟨true, false⟩).process ⟨"", [.paired]⟩).1.resolveByPosition .wheels2 11).2 =
        .slot ⟨12⟩ := by
  obtain ⟨hregister, hprocess⟩ := wheel_rings (r := new ⟨true, false⟩) rfl
  exact ⟨hregister rfl 2 true, hprocess ⟨"", [.paired]⟩ (i := 0) rfl, by decide +kernel,
    by decide +kernel, by decide +kernel⟩

end RigNodes
