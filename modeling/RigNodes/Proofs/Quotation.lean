import RigNodes.Proofs.ErrorCount
import RigNodes.Proofs.Ranges
import RigNodes.Proofs.SelfReferences.Counts

/-! The names that messages quote. They are told from the document: a name that two definitions
have, one that is referred to and that no definition has, and the names at the ends of a range about
which there is something to say. No other message has a name in it. -/
namespace RigNodes

def NodeRef.names : NodeRef → List String
  | name x => [x]
  | _ => []

def NodeRange.names (r : NodeRange) : List String := r.start.names ++ r.stop.names

/-- The names in the text of a notice, as often as they stand there. -/
def Notice.quoted : Notice → List String
  | duplicateName x _ | nameNotFound x => [x]
  | selfReference r _ => r.names
  | rangeUnresolved r | rangeReversed r _ _ | rangeSpansGroups r _ _ => r.names
  | _ => []

/-- What comes of a range gives cause for a remark: an end is lost, or the range is odd. -/
def NodeTable.Questions (t : NodeTable) (y : NodeRange) : Prop :=
  y.isCanonical = false ∨ t.Suspect y

/-- The names that are quoted in messages about a module. -/
inductive Module.Quotes (m : Module) (legacy : Bool) (x : String) : Prop
  | repeated (h : 2 ≤ m.nodeIds.count (.name x))
  | missing (href : .name x ∈ m.fieldRefs) (hid : .name x ∉ m.nodeIds)
  | questioned {r : NodeRange} (hr : r ∈ m.fieldRanges) (hx : x ∈ r.names)
      (h : m.table.Questions (r.map (m.scope legacy).value))

theorem NodeRef.mem_names {r : NodeRef} {x : String} : x ∈ r.names ↔ r = .name x := by
  cases r <;> simp [names, eq_comm]

theorem NodeRange.isCanonical_of_names {r : NodeRange} {x : String} (h : x ∈ r.names) :
    r.isCanonical = false := by
  obtain ⟨a, b⟩ := r
  rcases List.mem_append.mp h with h | h
  · obtain rfl : a = .name x := NodeRef.mem_names.mp h
    rfl
  · obtain rfl : b = .name x := NodeRef.mem_names.mp h
    cases a <;> rfl

namespace Scope
variable {s : Scope} {x : String}

/-- A name without a definition is quoted. Any other reference is answered without one. -/
theorem mem_quoted_resolve (h : s.Apart) (r : NodeRef) :
    x ∈ (s.resolve r).notices.flatMap Notice.quoted ↔
      r = .name x ∧ s.table.findName? x = none := by
  cases hfind : s.table.find? r with
  | some p =>
      have hquiet : (s.resolve r).notices = [] := by
        rw [s.resolve_of_find? hfind, found, h r p hfind]
        rfl
      rw [hquiet]
      refine iff_of_false List.not_mem_nil ?_
      rintro ⟨rfl, hnone⟩
      exact absurd (hnone.symm.trans hfind) (by simp)
  | none =>
      cases r with
      | slot y =>
          have hnotices : (s.resolve (.slot y)).notices =
              if y.position < s.table.size then [] else [.slotOutsideTable y s.table.size] := rfl
          rw [hnotices]
          split <;> simp [Notice.quoted]
      | unresolved => simp [resolve, Notice.quoted]
      | name y =>
          have hy : s.table.findName? y = none := hfind
          have hnotices : (s.resolve (.name y)).notices = [.nameNotFound y] := by
            simp only [resolve, hy]
            rfl
          have hquoted : x ∈ [Notice.nameNotFound y].flatMap Notice.quoted ↔ x = y := by
            simp [Notice.quoted]
          rw [hnotices, hquoted, NodeRef.name.injEq]
          constructor
          · rintro rfl
            exact ⟨rfl, hy⟩
          · exact fun hx => hx.1.symm
      | number n =>
          have hn : s.table.findNumber? n = none := hfind
          refine iff_of_false ?_ (by simp)
          cases hl : s.legacyPosition? n with
          | none =>
              simp only [resolve, hn, hl]
              simp [notFound, Notice.quoted]
          | some y =>
              simp only [resolve, hn, hl, found]
              split <;> simp [Notice.quoted, NodeRef.names]

/-- A remark about a range quotes its ends as they were written. -/
theorem mem_quoted_verdict (r y : NodeRange) :
    x ∈ (s.verdict r y).notices.flatMap Notice.quoted ↔ x ∈ r.names ∧ s.table.Questions y := by
  have hremark := (s.remark_iff r y _).mpr rfl
  generalize (s.verdict r y).notices = ns at hremark
  have hslots : ∀ a b : Slot, s.table.Questions ⟨.slot a, .slot b⟩ ↔
      b.position < a.position ∨ s.table.Mixed a b := by
    intro a b
    simp [NodeTable.Questions, NodeTable.Suspect, NodeRef.slot?, NodeRange.isCanonical,
      NodeRef.isCanonical]
  cases hremark with
  | incomplete h =>
      have hlost : y.isCanonical = false := by
        obtain ⟨a, b⟩ := y
        cases a <;> cases b <;> simp_all [NodeRef.slot?, NodeRange.isCanonical,
          NodeRef.isCanonical]
      simp [Notice.quoted, NodeTable.Questions, hlost]
  | written h =>
      refine iff_of_false List.not_mem_nil ?_
      rintro ⟨hx, -⟩
      rw [NodeRange.isCanonical_of_names hx] at h
      cases h
  | reversed h hab => simp [Notice.quoted, hslots, hab]
  | spanning h hab hmixed => simp [Notice.quoted, hslots, hmixed]
  | plain h hab hmixed => simp [hslots, hmixed, hab]

theorem mem_quoted_answer (h : s.Apart) (y : Mention) :
    x ∈ (s.answer y).notices.flatMap Notice.quoted ↔
      (.name x ∈ y.refs ∧ s.table.findName? x = none) ∨
        ∃ r ∈ y.ranges, x ∈ r.names ∧ s.table.Questions (r.map s.value) := by
  cases y with
  | ref r =>
      have hnotices : (s.answer (.ref r)).notices = (s.resolve r).notices := rfl
      rw [hnotices, mem_quoted_resolve h]
      simp [Mention.refs, Mention.ranges, eq_comm]
  | range r =>
      have hnotices : (s.answer (.range r)).notices = (s.resolve r.start).notices ++
          (s.resolve r.stop).notices ++ (s.verdict r (r.map s.value)).notices := rfl
      rw [hnotices, List.flatMap_append, List.flatMap_append, List.mem_append, List.mem_append,
        mem_quoted_resolve h, mem_quoted_resolve h, mem_quoted_verdict, ← or_and_right]
      simp [Mention.refs, Mention.ranges, eq_comm]

end Scope

namespace Module
variable {m : Module} {x : String}

theorem mem_quoted_notices {s : Site} (hs : s ∈ m.canonicalSites) :
    x ∈ (m.notices s).flatMap Notice.quoted ↔ s.id? = some (.name x) ∧ ¬ m.accepts s = true := by
  cases hid : s.id? with
  | none => simp [notices, hid]
  | some id =>
      cases id with
      | number n =>
          refine iff_of_false ?_ (by simp)
          simp only [notices, hid]
          split
          · simp
          · cases m.first? (.number n) <;> simp [Notice.quoted]
      | name y =>
          obtain ⟨t, ht⟩ : ∃ t, m.first? (.name y) = some t := by
            apply Option.isSome_iff_exists.mp
            rw [first?, List.find?_isSome]
            exact ⟨s, hs, by simp [hid]⟩
          have hnotices : m.notices s =
              if m.accepts s then [] else [.duplicateName y (m.start t)] := by
            simp only [notices, hid, ht]
            rfl
          rw [hnotices]
          by_cases hacc : m.accepts s = true
          · rw [if_pos hacc]
            exact iff_of_false List.not_mem_nil fun h => h.2 hacc
          · simp [Notice.quoted, hacc, eq_comm]
      | slot y =>
          refine iff_of_false ?_ (by simp)
          simp only [notices, hid]
          split <;> simp [Notice.quoted]
      | unresolved => simp [notices, hid, Notice.quoted]

/-- A name has a refused definition exactly if it has two of them. -/
theorem exists_refused_iff {id : NodeRef} (hid : id.isAuthored) :
    (∃ s ∈ m.canonicalSites, s.id? = some id ∧ ¬ m.accepts s = true) ↔
      2 ≤ m.nodeIds.count id := by
  have hids : m.nodeIds.count id = (m.canonicalSites.filterMap Site.id?).count id := by
    rw [nodeIds_eq]
    exact ((m.canonicalSites_perm.filterMap _).count_eq id).symm
  have hrefused : ∀ {before after : List Site} {s : Site}, m.canonicalSites = before ++ s :: after →
      s.id? = some id → (¬ m.accepts s = true ↔ id ∈ before.filterMap Site.id?) := by
    intro before after s h hs
    rw [m.accepts_iff h hs hid, List.find?_eq_none]
    simp [List.mem_filterMap]
  have hcount : ∀ {before after : List Site} {s : Site}, m.canonicalSites = before ++ s :: after →
      s.id? = some id → m.nodeIds.count id = (before.filterMap Site.id?).count id + 1 +
        (after.filterMap Site.id?).count id := by
    intro before after s h hs
    rw [hids, h, List.filterMap_append, List.filterMap_cons_some hs, List.count_append,
      List.count_cons_self]
    omega
  constructor
  · rintro ⟨s, hmem, hs, hacc⟩
    obtain ⟨before, after, h⟩ := List.append_of_mem hmem
    have hpos := List.count_pos_iff.mpr ((hrefused h hs).mp hacc)
    rw [hcount h hs]
    omega
  · intro htwo
    have hmem : id ∈ m.canonicalSites.filterMap Site.id? := by
      apply List.count_pos_iff.mp
      omega
    obtain ⟨t, ht, hidt⟩ := List.mem_filterMap.mp hmem
    obtain ⟨before, after, h⟩ := List.append_of_mem ht
    rw [hcount h hidt] at htwo
    -- The other definition stands before this one, which is refused then, or after it.
    by_cases hbefore : id ∈ before.filterMap Site.id?
    · exact ⟨t, ht, hidt, (hrefused h hidt).mpr hbefore⟩
    · have hafter : id ∈ after.filterMap Site.id? := by
        apply List.count_pos_iff.mp
        rw [List.count_eq_zero.mpr hbefore] at htwo
        omega
      obtain ⟨s, hs, hids⟩ := List.mem_filterMap.mp hafter
      obtain ⟨between, rest, rfl⟩ := List.append_of_mem hs
      have h' : m.canonicalSites = (before ++ t :: between) ++ s :: rest := by simp [h]
      refine ⟨s, by simp [h], hids, (hrefused h' hids).mpr ?_⟩
      exact List.mem_filterMap.mpr ⟨t, by simp, hidt⟩

theorem mem_quoted_building :
    (∃ f ∈ m.canonicalSites.flatMap m.findings, x ∈ f.notice.quoted) ↔
      2 ≤ m.nodeIds.count (.name x) := by
  rw [← exists_refused_iff rfl]
  constructor
  · rintro ⟨f, hf, hx⟩
    obtain ⟨s, hs, hf⟩ := List.mem_flatMap.mp hf
    obtain ⟨n, hn, rfl⟩ := List.mem_map.mp hf
    exact ⟨s, hs, (mem_quoted_notices hs).mp (List.mem_flatMap.mpr ⟨n, hn, hx⟩)⟩
  · rintro ⟨s, hs, h⟩
    obtain ⟨n, hn, hx⟩ := List.mem_flatMap.mp ((mem_quoted_notices hs).mpr h)
    exact ⟨_, List.mem_flatMap.mpr ⟨s, hs, List.mem_map.mpr ⟨n, hn, rfl⟩⟩, hx⟩

theorem findName?_eq_none : m.table.findName? x = none ↔ .name x ∉ m.nodeIds := by
  have htable : m.table.find? (.name x) = (m.first? (.name x)).map m.start := table_find? rfl
  have hname : m.table.findName? x = m.table.find? (.name x) := rfl
  rw [hname, htable, mem_nodeIds, Option.map_eq_none_iff, Option.not_isSome_iff_eq_none]

theorem mem_quoted_stops (legacy : Bool) :
    (∃ f ∈ m.stops.flatMap (Stop.findings (m.scope legacy)), x ∈ f.notice.quoted) ↔
      (.name x ∈ m.fieldRefs ∧ .name x ∉ m.nodeIds) ∨
        ∃ r ∈ m.fieldRanges, x ∈ r.names ∧ m.table.Questions (r.map (m.scope legacy).value) := by
  have hstop : ∀ y ∈ m.stops, ((∃ f ∈ y.findings (m.scope legacy), x ∈ f.notice.quoted) ↔
      (.name x ∈ y.mention.refs ∧ .name x ∉ m.nodeIds) ∨ ∃ r ∈ y.mention.ranges,
        x ∈ r.names ∧ m.table.Questions (r.map (m.scope legacy).value)) := by
    intro y hy
    have hanswer := Scope.mem_quoted_answer (x := x) (apart_stop legacy hy) y.mention
    rw [Scope.value_defining] at hanswer
    rw [← findName?_eq_none]
    refine Iff.trans ?_ hanswer
    rw [List.mem_flatMap]
    constructor
    · rintro ⟨f, hf, hx⟩
      obtain ⟨n, hn, rfl⟩ := List.mem_map.mp hf
      exact ⟨n, hn, hx⟩
    · rintro ⟨n, hn, hx⟩
      exact ⟨_, List.mem_map.mpr ⟨n, hn, rfl⟩, hx⟩
  rw [fieldRefs_stops, fieldRanges_stops]
  constructor
  · rintro ⟨f, hf, hx⟩
    obtain ⟨y, hy, hf⟩ := List.mem_flatMap.mp hf
    rcases (hstop y hy).mp ⟨f, hf, hx⟩ with ⟨href, hid⟩ | ⟨r, hr, h⟩
    · exact .inl ⟨List.mem_flatMap.mpr ⟨y, hy, href⟩, hid⟩
    · exact .inr ⟨r, List.mem_flatMap.mpr ⟨y, hy, hr⟩, h⟩
  · rintro (⟨href, hid⟩ | ⟨r, hr, h⟩)
    · obtain ⟨y, hy, href⟩ := List.mem_flatMap.mp href
      obtain ⟨f, hf, hx⟩ := (hstop y hy).mpr (.inl ⟨href, hid⟩)
      exact ⟨f, List.mem_flatMap.mpr ⟨y, hy, hf⟩, hx⟩
    · obtain ⟨y, hy, hr⟩ := List.mem_flatMap.mp hr
      obtain ⟨f, hf, hx⟩ := (hstop y hy).mpr (.inr ⟨r, hr, h⟩)
      exact ⟨f, List.mem_flatMap.mpr ⟨y, hy, hf⟩, hx⟩

/-- What is said about a module in a run. -/
def said (m : Module) (legacy : Bool) : List Finding :=
  (m.resolve legacy).building ++ (m.resolve legacy).settling

theorem quotes_iff (legacy : Bool) :
    m.Quotes legacy x ↔ ∃ f ∈ m.said legacy, x ∈ f.notice.quoted := by
  have hclosing : ¬ ∃ f ∈ ModuleRun.closing (m.resolve legacy).stats.resolvedToSelf,
      x ∈ f.notice.quoted := by
    unfold ModuleRun.closing
    split <;> simp [Notice.quoted]
  have hbuilding : (m.resolve legacy).building = m.canonicalSites.flatMap m.findings := by
    rw [resolve_eq]
  have hsaid : (∃ f ∈ m.said legacy, x ∈ f.notice.quoted) ↔
      2 ≤ m.nodeIds.count (.name x) ∨ (.name x ∈ m.fieldRefs ∧ .name x ∉ m.nodeIds) ∨
        ∃ r ∈ m.fieldRanges, x ∈ r.names ∧ m.table.Questions (r.map (m.scope legacy).value) := by
    rw [← mem_quoted_building, ← mem_quoted_stops, said, resolve_settling, hbuilding]
    simp only [List.mem_append, or_and_right, exists_or, hclosing, or_false]
  rw [hsaid]
  constructor
  · rintro (h | ⟨href, hid⟩ | ⟨hr, hx, h⟩)
    · exact .inl h
    · exact .inr (.inl ⟨href, hid⟩)
    · exact .inr (.inr ⟨_, hr, hx, h⟩)
  · rintro (h | ⟨href, hid⟩ | ⟨r, hr, hx, h⟩)
    · exact .repeated h
    · exact .missing href hid
    · exact .questioned hr hx h

end Module

end RigNodes
