import RigNodes.Proofs.Session.Rewriting

/-! Histories of a session. Between requests nothing is at hand, so that a session goes through the
states of the resolver and gives its replies. -/
namespace RigNodes

namespace Session

section
variable (r : Resolver)

theorem guarded_idle {α : Type} {f g : Session → StateM Session α} {a b : Resolver × α}
    (hf : (f (idle r)).run (idle r) = (a.2, idle a.1))
    (hg : (g (idle r)).run (idle r) = (b.2, idle b.1)) :
    (do
      let s ← get
      if s.options.enabled then f s else g s : StateM Session α).run (idle r) =
        ((if r.options.enabled then a else b).2, idle (if r.options.enabled then a else b).1) := by
  rw [run_guarded, hf, hg]
  change (if r.options.enabled then _ else _) = _
  split <;> rfl

theorem take_idle {α : Type} (k : Kind) (g : Registered α) :
    (take (some k) g).run (idle r) = (g.result, idle (r.take k g)) := by
  unfold Resolver.take Resolver.emit
  rw [List.map_map]
  rfl

theorem absorb_idle {α : Type} (o : Resolved α) :
    (absorb o).run (idle r) = (o.value, idle (r.absorb o)) := by
  unfold Resolver.absorb Resolver.emit
  rw [List.map_map]
  rfl

theorem registerNumber_idle (n : UInt32) :
    (registerNumber n).run (idle r) = ((r.registerNumber n).2, idle (r.registerNumber n).1) := by
  apply guarded_idle r _ rfl
  have hadd : (addNumber n).run (idle r) = _ := take_idle r .numbered (r.table.registerNumber n)
  rw [run_bind, hadd]
  rfl

theorem registerName_idle (x : String) :
    (registerName x).run (idle r) = ((r.registerName x).2, idle (r.registerName x).1) := by
  apply guarded_idle r _ rfl
  have hadd : (addName x).run (idle r) = _ := take_idle r .named (r.table.registerName x)
  rw [run_bind, hadd]
  rfl

theorem registerGenerated_idle (k : Kind) (role : Option Role) :
    (registerGenerated k role).run (idle r) =
      ((r.registerGenerated k role).2, idle (r.registerGenerated k role).1) := by
  apply guarded_idle r _ rfl
  have htake : (take (some k) ((idle r).table.registerGenerated k role)).run (idle r) = _ :=
    take_idle r k (r.table.registerGenerated k role)
  rw [run_bind, htake]
  rfl

theorem registerWheel_idle (k : Kind) (rays : UInt32) (rigid : Bool) :
    (registerWheel k rays rigid).run (idle r) =
      ((r.registerWheel k rays rigid).2, idle (r.registerWheel k rays rigid).1) := by
  apply guarded_idle r _ rfl
  have htake : (take (some k) ((idle r).table.registerWheel k rays)).run (idle r) = _ :=
    take_idle r k (r.table.registerWheel k rays)
  rw [run_bind, htake]
  cases hresult : (r.table.registerWheel k rays).result with
  | some span =>
      simp only [hresult]
      rfl
  | none =>
      simp only [hresult]
      rfl

theorem resolve_idle (x : NodeRef) :
    (resolve x).run (idle r) = ((r.resolve x).2, idle (r.resolve x).1) := by
  apply guarded_idle r _ rfl
  exact absorb_idle r (r.scope.resolve x)

theorem resolveRange_idle (x : NodeRange) :
    (resolveRange x).run (idle r) = ((r.resolveRange x).2, idle (r.resolveRange x).1) := by
  apply guarded_idle r _ rfl
  exact absorb_idle r (r.scope.resolveRange x)

theorem resolveByPosition_idle (k : Kind) (i : UInt32) :
    (resolveByPosition k i).run (idle r) =
      ((r.resolveByPosition k i).2, idle (r.resolveByPosition k i).1) := by
  apply guarded_idle r _ rfl
  by_cases hi : i.toNat < r.table.groupCount k
  · have hidle : i.toNat < (idle r).table.groupCount k := hi
    simp only [if_pos hi, if_pos hidle]
    rfl
  · have hidle : ¬ i.toNat < (idle r).table.groupCount k := hi
    simp only [if_neg hi, if_neg hidle]
    rfl

theorem process_idle (d : Document) :
    (process d).run (idle r) = ((r.process d).2, idle (r.process d).1) := by
  cases h : r.options.enabled with
  | true =>
      have hrun : (process d).run (idle r) =
          (d.modules.mapM processModule >>= fun modules => pure { d with modules }).run (idle r) :=
        run_enabled h _ _
      obtain ⟨hvalue, hstate, hidle⟩ := @processModules_run (idle r) h d.modules
      rw [hrun, run_bind, run_pure, hvalue, hidle rfl, hstate, Resolver.process, if_pos h]
      rfl
  | false =>
      have hrun : (process d).run (idle r) = (d, idle r) := by
        apply (run_guarded (idle r) _ _).trans
        exact if_neg (Bool.eq_false_iff.mp h)
      rw [hrun, Resolver.process, h]
      rfl

/-- Between requests nothing is at hand, and a session answers as the resolver does. -/
theorem answer_idle (q : Request) :
    (answer q).run (idle r) = ((r.answer q).2, idle (r.answer q).1) := by
  unfold answer
  cases q with
  | init enabled => rfl
  | disable => rfl
  | beginModule name => rfl
  | registerNumber n =>
      rw [run_bind, registerNumber_idle]
      rfl
  | registerName x =>
      rw [run_bind, registerName_idle]
      rfl
  | registerGenerated k role =>
      rw [run_bind, registerGenerated_idle]
      rfl
  | registerWheel k rays rigid =>
      rw [run_bind, registerWheel_idle]
      rfl
  | resolve x =>
      rw [run_bind, resolve_idle]
      rfl
  | resolveRange x =>
      rw [run_bind, resolveRange_idle]
      rfl
  | resolveByPosition k i =>
      rw [run_bind, resolveByPosition_idle]
      rfl
  | process d =>
      rw [run_bind, process_idle]
      rfl

/-- A session goes through the states of the resolver. -/
theorem replay_idle (qs : List Request) : ((replay qs).run (idle r)).2 = idle (r.replay qs) := by
  induction qs generalizing r with
  | nil => rfl
  | cons q qs ih =>
      unfold replay at ih ⊢
      rw [run_mapM_cons, answer_idle, ih]
      rfl

theorem replay_replies (qs : List Request) : ((replay qs).run (idle r)).1 = r.replies qs := by
  induction qs generalizing r with
  | nil => rfl
  | cons q qs ih =>
      unfold replay at ih ⊢
      rw [run_mapM_cons, answer_idle, ih]
      rfl

end

end Session

end RigNodes
