import RigNodes.Proofs.Process
import RigNodes.Proofs.Table.Growth
import RigNodes.Resolver.History

/-! What a request does to a resolver. Either the table is given up for another one, or the resolver
grows: rows are entered, something is counted, and what was noticed is added to the messages. -/
namespace RigNodes

/-- Requests that give up the table at hand. -/
def Request.clears : Request → Bool
  | .init _ | .disable | .beginModule _ | .process _ => true
  | _ => false

namespace Resolver
variable {r r' : Resolver}

/-- `r'` is `r` after some work on the table at hand. Nothing else about it is different. -/
def Grows (r r' : Resolver) : Prop :=
  ∃ (k : Kind) (t : NodeTable) (added : Stats) (fs : List Finding),
    r' = { r with table := t, stats := r.stats + added }.emit fs ∧
      r.table.Appends k t (fs.map Finding.notice)

/-- Messages alone. -/
theorem Grows.emit (r : Resolver) (fs : List Finding) : r.Grows (r.emit fs) := by
  refine ⟨.numbered, r.table, 0, fs, ?_, r.table.appends_refl _ _⟩
  rw [add_zero]

theorem Grows.refl (r : Resolver) : r.Grows r := Grows.emit r []

theorem Grows.absorb {α : Type} (r : Resolver) (o : Resolved α) : r.Grows (r.absorb o) :=
  ⟨.numbered, r.table, o.stats, _, rfl, r.table.appends_refl _ _⟩

theorem Grows.take {α : Type} {k : Kind} {g : Registered α}
    (hg : r.table.Appends k g.table g.notices) : r.Grows (r.take k g) := by
  refine ⟨k, g.table, 0, g.notices.map fun n => ⟨some k.keyword, n⟩, ?_, ?_⟩
  · rw [add_zero]
    rfl
  · rw [List.map_map]
    exact (List.map_id g.notices).symm ▸ hg

theorem Grows.count (h : r.Grows r') (added : Stats) :
    r.Grows { r' with stats := r'.stats + added } := by
  obtain ⟨k, t, before, fs, rfl, hrows⟩ := h
  refine ⟨k, t, before + added, fs, ?_, hrows⟩
  rw [← add_assoc]
  rfl

theorem messages_emit (r : Resolver) (fs : List Finding) :
    (r.emit fs).diagnostics.messages.toList =
      r.diagnostics.messages.toList ++ fs.map (Finding.message r.moduleName) :=
  r.diagnostics.emitAll_messages _

theorem resolve_absorb (h : r.options.enabled = true) (x : NodeRef) :
    r.resolve x = (r.absorb (r.scope.resolve x), r.scope.value x) := by
  rw [resolve, if_pos h]
  rfl

/-- A request that keeps the table can only make the resolver grow. -/
theorem answer_grows (r : Resolver) {q : Request} (hq : q.clears = false) :
    r.Grows (r.answer q).1 := by
  cases q with
  | registerNumber n =>
      simp only [answer, registerNumber]
      split
      · exact .take (r.table.registerNumber_appends n)
      · exact .refl r
  | registerName x =>
      simp only [answer, registerName]
      split
      · exact .take (r.table.registerName_appends x)
      · exact .refl r
  | registerGenerated k role =>
      simp only [answer, registerGenerated]
      split
      · exact .take (r.table.registerGenerated_appends k role)
      · exact .refl r
  | registerWheel k rays rigid =>
      have htaken : r.Grows (r.take k (r.table.registerWheel k rays)) :=
        .take (r.table.registerWheel_appends k rays)
      simp only [answer, registerWheel]
      split
      · split
        · exact htaken.count _
        · exact htaken
      · exact .refl r
  | resolve x =>
      simp only [answer, resolve]
      split
      · exact .absorb r _
      · exact .refl r
  | resolveRange x =>
      simp only [answer, resolveRange]
      split
      · exact .absorb r _
      · exact .refl r
  | resolveByPosition k i =>
      simp only [answer, resolveByPosition]
      split
      · split
        · exact .refl r
        · exact .emit r _
      · exact .refl r
  | _ => cases hq

/-- What every request preserves, requests preserve. -/
theorem replay_preserves {P : Resolver → Prop} (step : ∀ r q, P r → P (r.answer q).1) (h : P r)
    (qs : List Request) : P (r.replay qs) := by
  induction qs generalizing r with
  | nil => exact h
  | cons q qs ih => exact ih (step r q h)

/-- Only two requests touch the options. -/
theorem answer_options (r : Resolver) {q : Request} (hinit : ∀ enabled, q ≠ .init enabled)
    (hdisable : q ≠ .disable) : (r.answer q).1.options = r.options := by
  cases hq : q.clears with
  | false =>
      obtain ⟨k, t, added, fs, hgrown, -⟩ := r.answer_grows hq
      rw [hgrown]
      rfl
  | true =>
      cases q with
      | init enabled => exact absurd rfl (hinit enabled)
      | disable => exact absurd rfl hdisable
      | beginModule name => rfl
      | process d =>
          simp only [answer, process]
          split
          · exact r.finishAll_options _
          · rfl
      | _ => cases hq

end Resolver

end RigNodes
