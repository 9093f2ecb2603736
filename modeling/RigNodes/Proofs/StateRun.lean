import Mathlib.Control.Basic

/-! Runs of a walk with a running state. The passes over a module thread a table, a counter or a
tally through a list; these equations open such a pass one member at a time. -/
namespace RigNodes

variable {σ α β : Type}

theorem run_bind (x : StateM σ α) (f : α → StateM σ β) (s : σ) :
    (x >>= f).run s = (f (x.run s).1).run (x.run s).2 := rfl

theorem run_map (f : α → β) (x : StateM σ α) (s : σ) :
    (f <$> x).run s = (f (x.run s).1, (x.run s).2) := rfl

theorem run_pure (a : α) (s : σ) : (pure a : StateM σ α).run s = (a, s) := rfl

theorem run_get (s : σ) : (get : StateM σ σ).run s = (s, s) := rfl

theorem run_mapM_nil (f : α → StateM σ β) (s : σ) : ([].mapM f).run s = ([], s) := rfl

theorem run_mapM_cons (f : α → StateM σ β) (a : α) (as : List α) (s : σ) :
    ((a :: as).mapM f).run s =
      (((f a).run s).1 :: ((as.mapM f).run ((f a).run s).2).1,
        ((as.mapM f).run ((f a).run s).2).2) := by
  rw [List.mapM_cons]
  rfl

/-- A pass whose steps are known in closed form, as long as the state is the one that the members
before leave behind. -/
theorem run_mapM_eq {f : α → StateM σ β} {v : α → β} {g : List α → σ} {p : List α} (l : List α)
    (step : ∀ before a after, l = before ++ a :: after →
      (f a).run (g (p ++ before)) = (v a, g (p ++ before ++ [a]))) :
    (l.mapM f).run (g p) = (l.map v, g (p ++ l)) := by
  induction l generalizing p with
  | nil => rw [run_mapM_nil, List.append_nil, List.map_nil]
  | cons a l ih =>
      have hfirst := step [] a l rfl
      simp only [List.append_nil] at hfirst
      have hrest := ih (p := p ++ [a]) fun before b after h => by
        simpa using step (a :: before) b after (by rw [h]; rfl)
      rw [run_mapM_cons, hfirst, hrest]
      simp

theorem mapM_congr {m : Type → Type} [Monad m] [LawfulMonad m] {f g : α → m β} {l : List α}
    (h : ∀ a ∈ l, f a = g a) : l.mapM f = l.mapM g := by
  induction l with
  | nil => rfl
  | cons a l ih =>
      rw [List.mapM_cons, List.mapM_cons, h a List.mem_cons_self,
        ih fun b hb => h b (List.mem_cons_of_mem _ hb)]

end RigNodes
