import RigNodes.Proofs.RangeVerdict

/-! What the legacy option does to a reference and to a range. It leads a number without a
definition to a generated node, or changes nothing. Each such place trades an error for a warning,
and each range that is completed by one saves another error. -/
namespace RigNodes

namespace Counts

/-- Counts without the option against counts with it. `places` references were led by position,
`completed` ranges came to have both ends, and `suspects` of these are odd. -/
structure Trade (off on : Counts) (places completed suspects : Nat) : Prop where
  errors : off.errors = on.errors + places + completed
  warnings : on.warnings = off.warnings + places + suspects
  resolved : on.stats.totalResolved = off.stats.totalResolved + places
  unused : off.stats.byLegacyPosition = 0
  used : on.stats.byLegacyPosition = places

namespace Trade

theorem refl {a : Counts} (h : a.stats.byLegacyPosition = 0) : Trade a a 0 0 0 :=
  ⟨rfl, rfl, rfl, h, h⟩

theorem add {a a' b b' : Counts} {i i' j j' k k' : Nat} (h : Trade a b i j k)
    (h' : Trade a' b' i' j' k') : Trade (a + a') (b + b') (i + i') (j + j') (k + k') := by
  have hadd : ∀ x y : Counts, (x + y).errors = x.errors + y.errors ∧
      (x + y).warnings = x.warnings + y.warnings ∧
      (x + y).stats.totalResolved = x.stats.totalResolved + y.stats.totalResolved ∧
      (x + y).stats.byLegacyPosition = x.stats.byLegacyPosition + y.stats.byLegacyPosition :=
    fun x y => ⟨rfl, rfl, rfl, rfl⟩
  obtain ⟨ha₁, ha₂, ha₃, ha₄⟩ := hadd a a'
  obtain ⟨hb₁, hb₂, hb₃, hb₄⟩ := hadd b b'
  obtain ⟨h₁, h₂, h₃, h₄, h₅⟩ := h
  obtain ⟨h₁', h₂', h₃', h₄', h₅'⟩ := h'
  constructor <;> omega

theorem sum {α : Type} {l : List α} {off on : α → Counts} {places completed suspects : α → Nat}
    (h : ∀ a ∈ l, Trade (off a) (on a) (places a) (completed a) (suspects a)) :
    Trade (l.map off).sum (l.map on).sum (l.map places).sum (l.map completed).sum
      (l.map suspects).sum := by
  induction l with
  | nil => exact refl rfl
  | cons a l ih =>
      simp only [List.map_cons, List.sum_cons]
      apply add
      · exact h a List.mem_cons_self
      · exact ih fun b hb => h b (List.mem_cons_of_mem a hb)

end Trade

end Counts

namespace NodeTable
variable (t : NodeTable)

/-- What a reference becomes without the option. -/
def plain : NodeRef → NodeRef := (Scope.mk t false none).value

/-- What a reference becomes with the option. -/
def guided : NodeRef → NodeRef := (Scope.mk t true none).value

/-- A range that has both ends with the option only. -/
def completes (r : NodeRange) : Bool := !(r.map t.plain).isCanonical && (r.map t.guided).isCanonical

end NodeTable

namespace Scope

theorem of_legacyPosition? {s : Scope} {n : UInt32} {p : Nat} {e : TableEntry}
    (h : s.legacyPosition? n = some (p, e)) :
    s.legacy = true ∧ s.table.get? p = some e ∧ e.userId = none := by
  unfold legacyPosition? at h
  obtain ⟨_, hlegacy, h⟩ := Option.bind_eq_some_iff.mp h
  obtain ⟨q, -, h⟩ := Option.bind_eq_some_iff.mp h
  obtain ⟨e', he, h⟩ := Option.bind_eq_some_iff.mp h
  obtain ⟨_, huser, h⟩ := Option.bind_eq_some_iff.mp h
  cases h
  exact ⟨by simpa [guard] using hlegacy, he, by simpa [guard] using huser⟩

variable (t : NodeTable) (own : Option Span)

/-- The option changes nothing about a reference, or it leads a number without a definition to a
node without an id. -/
theorem resolve_option (r : NodeRef) :
    ((Scope.mk t true own).resolve r = (Scope.mk t false own).resolve r ∧
        ((Scope.mk t false own).resolve r).stats.byLegacyPosition = 0) ∨
      ∃ n p e, r = .number n ∧ t.findNumber? n = none ∧ t.get? p = some e ∧ e.userId = none ∧
        (Scope.mk t false own).resolve r = notFound (.numberNotDefined n) ∧
        (Scope.mk t true own).resolve r =
          (Scope.mk t true own).found r p [.byLegacyPosition n e.origin p] 1 := by
  cases hfind : t.find? r with
  | some p =>
      left
      rw [resolve_of_find? ⟨t, true, own⟩ hfind, resolve_of_find? ⟨t, false, own⟩ hfind]
      exact ⟨rfl, rfl⟩
  | none =>
      cases r with
      | slot x => exact .inl ⟨rfl, rfl⟩
      | unresolved => exact .inl ⟨rfl, rfl⟩
      | name x =>
          have hx : t.findName? x = none := hfind
          have hlost : ∀ l, (Scope.mk t l own).resolve (.name x) = notFound (.nameNotFound x) := by
            intro l
            simp only [resolve, hx]
          rw [hlost, hlost]
          exact .inl ⟨rfl, rfl⟩
      | number n =>
          have hn : t.findNumber? n = none := hfind
          have hoff : (Scope.mk t false own).resolve (.number n) =
              notFound (.numberNotDefined n) := by
            simp only [resolve, hn]
            rfl
          rw [hoff]
          cases hl : (Scope.mk t true own).legacyPosition? n with
          | none =>
              have hon : (Scope.mk t true own).resolve (.number n) =
                  notFound (.numberNotDefined n) := by
                simp only [resolve, hn, hl]
              exact .inl ⟨hon, rfl⟩
          | some x =>
              obtain ⟨p, e⟩ := x
              obtain ⟨-, he, huser⟩ := of_legacyPosition? hl
              right
              refine ⟨n, p, e, rfl, hn, he, huser, rfl, ?_⟩
              simp only [resolve, hn, hl]

theorem value_option (r : NodeRef) :
    t.guided r = t.plain r ∨
      ∃ n p e, r = .number n ∧ t.findNumber? n = none ∧ t.get? p = some e ∧ e.userId = none ∧
        t.plain r = .unresolved ∧ t.guided r = .slot (.ofPosition p) := by
  rcases resolve_option t none r with ⟨h, -⟩ | ⟨n, p, e, hr, hn, he, hu, hoff, hon⟩
  · exact .inl (congrArg Resolved.value h)
  · exact .inr ⟨n, p, e, hr, hn, he, hu, congrArg Resolved.value hoff, congrArg Resolved.value hon⟩

theorem trade_resolve (r : NodeRef) :
    Counts.Trade ((Scope.mk t false own).resolve r).counts ((Scope.mk t true own).resolve r).counts
      ([r].countP fun r => t.plain r != t.guided r) 0 0 := by
  have hplain : t.plain r = ((Scope.mk t false own).resolve r).value :=
    (congrFun ((Scope.mk t false none).value_defining own) r).symm
  have hguided : t.guided r = ((Scope.mk t true own).resolve r).value :=
    (congrFun ((Scope.mk t true none).value_defining own) r).symm
  rw [List.countP_singleton, hplain, hguided]
  rcases resolve_option t own r with ⟨h, hzero⟩ | ⟨n, p, e, -, -, -, -, hoff, hon⟩
  · rw [h, bne_self_eq_false]
    exact .refl hzero
  · -- An error is traded for a warning; a notice about the own entry is neither.
    have hcount : ∀ q : Severity → Bool, q .info = false →
        ((Scope.mk t true own).found r p [.byLegacyPosition n e.origin p] 1).countOf q =
          if q .warning then 1 else 0 := by
      intro q hq
      have hown : ∀ own : Bool, (if own then [Notice.selfReference r p] else []).countP
          (fun n => q n.severity) = 0 := by
        intro own
        cases own with
        | true => simp [Notice.severity, hq]
        | false => rfl
      unfold found Resolved.countOf
      rw [List.countP_append, List.countP_singleton, hown]
      rfl
    rw [hoff, hon]
    have herror := hcount (· == .error) rfl
    have hwarning := hcount (· == .warning) rfl
    constructor <;>
      simp_all [Resolved.counts, notFound, found, Resolved.countOf, Notice.severity, Stats.zero]

theorem plain_isCanonical {r : NodeRef} (h : r.isCanonical = true) : t.plain r = r := by
  cases r with
  | slot x => rfl
  | _ => cases h

theorem guided_of_slot {r : NodeRef} (h : (t.plain r).isCanonical = true) :
    t.guided r = t.plain r := by
  rcases value_option t r with hr | ⟨n, p, e, -, -, -, -, hplain, -⟩
  · exact hr
  · rw [hplain] at h
    cases h

theorem trade_verdict (r : NodeRange) :
    Counts.Trade ((Scope.mk t false own).verdict r (r.map t.plain)).counts
      ((Scope.mk t true own).verdict r (r.map t.guided)).counts 0 ([r].countP t.completes)
      ([r].countP fun r => t.completes r && decide (t.Suspect (r.map t.guided))) := by
  by_cases hplain : (r.map t.plain).isCanonical = true
  · -- Both ends were slots without the option, so they are the same slots with it.
    have hends : (t.plain r.start).isCanonical = true ∧ (t.plain r.stop).isCanonical = true :=
      Bool.and_eq_true_iff.mp hplain
    have hguided : r.map t.guided = r.map t.plain := by
      unfold NodeRange.map
      rw [guided_of_slot t hends.1, guided_of_slot t hends.2]
    have hcompletes : t.completes r = false := by
      unfold NodeTable.completes
      rw [hplain]
      rfl
    rw [hguided, List.countP_singleton, List.countP_singleton, hcompletes]
    exact .refl rfl
  · have hwritten : r.isCanonical = false := by
      apply Bool.eq_false_iff.mpr
      intro hr
      have hends : r.start.isCanonical = true ∧ r.stop.isCanonical = true :=
        Bool.and_eq_true_iff.mp hr
      apply hplain
      unfold NodeRange.map
      rw [plain_isCanonical t hends.1, plain_isCanonical t hends.2]
      exact hr
    have hcompletes : t.completes r = (r.map t.guided).isCanonical := by
      unfold NodeTable.completes
      rw [Bool.eq_false_iff.mpr hplain]
      rfl
    have hnever : ¬ t.Suspect (r.map t.plain) := by
      intro h
      exact hplain h.isCanonical
    rw [List.countP_singleton, List.countP_singleton, hcompletes]
    refine ⟨?_, ?_, rfl, rfl, rfl⟩
    · simp only [Resolved.counts, countOf_verdict_error, hplain]
      by_cases hguided : (r.map t.guided).isCanonical = true
      · simp [hguided]
      · simp [hguided]
    · simp only [Resolved.counts, countOf_verdict_warning _ hwritten, hnever]
      by_cases hsuspect : t.Suspect (r.map t.guided)
      · simp [hsuspect, hsuspect.isCanonical]
      · simp [hsuspect]

end Scope

theorem Scope.trade_answer (t : NodeTable) (own : Option Span) (x : Mention) :
    Counts.Trade ((Scope.mk t false own).answer x).counts ((Scope.mk t true own).answer x).counts
      (x.refs.countP fun r => t.plain r != t.guided r) (x.ranges.countP t.completes)
      (x.ranges.countP fun r => t.completes r && decide (t.Suspect (r.map t.guided))) := by
  cases x with
  | ref r => exact trade_resolve t own r
  | range r =>
      have hvalue : ∀ l, (Scope.mk t l own).value = (Scope.mk t l none).value := by
        intro l
        exact (Scope.mk t l none).value_defining own
      have hcounts : ∀ l, ((Scope.mk t l own).answer (.range r)).counts =
          ((Scope.mk t l own).resolve r.start).counts + ((Scope.mk t l own).resolve r.stop).counts +
            ((Scope.mk t l own).verdict r (r.map (Scope.mk t l none).value)).counts := by
        intro l
        rw [← (Scope.mk t l none).value_defining own]
        exact resolveRange_counts _ r
      have hrefs : ∀ q : NodeRef → Bool,
          (Mention.range r).refs.countP q = [r.start].countP q + [r.stop].countP q := by
        intro q
        exact @List.countP_append _ q [r.start] [r.stop]
      rw [hcounts, hcounts, hrefs]
      have h := ((trade_resolve t own r.start).add (trade_resolve t own r.stop)).add
        (trade_verdict t own r)
      simp only [Nat.zero_add, Nat.add_zero] at h
      exact h

end RigNodes
