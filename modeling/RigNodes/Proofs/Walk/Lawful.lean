import Mathlib.Control.Basic
import RigNodes.Document.Walk

/-! The walk over references as a container of its stops. A value is a form together with the list
of its stops; the walk visits exactly these, in order, and puts the results back into the form.
Every law of the walk follows from this one. -/
namespace RigNodes

namespace Mention

def isRange : Mention → Bool
  | ref _ => false
  | range _ => true

/-- A stop with its references replaced. -/
def map (f : NodeRef → NodeRef) : Mention → Mention
  | ref r => ref (f r)
  | range r => range ⟨f r.start, f r.stop⟩

@[simp] theorem isRange_map (f : NodeRef → NodeRef) (x : Mention) :
    (x.map f).isRange = x.isRange := by
  cases x <;> rfl

theorem refs_map (f : NodeRef → NodeRef) (x : Mention) : (x.map f).refs = x.refs.map f := by
  cases x <;> rfl

end Mention

/-- What a visitor does at one stop. -/
def Visitor.stop {m : Type → Type} [Monad m] (v : Visitor m) : Mention → m Mention
  | .ref r => .ref <$> v.ref r
  | .range r => .range <$> v.range r

/-- Two lists of stops fit into the same form. -/
def SameForm (xs ys : List Mention) : Prop := xs.map Mention.isRange = ys.map Mention.isRange

theorem SameForm.map (f : NodeRef → NodeRef) (xs : List Mention) :
    SameForm (xs.map (Mention.map f)) xs := by
  simp [SameForm, Function.comp_def]

theorem SameForm.length {xs ys : List Mention} (h : SameForm xs ys) : xs.length = ys.length := by
  simpa [SameForm] using congrArg List.length h

theorem SameForm.take {xs ys zs : List Mention} (h : SameForm xs (ys ++ zs)) :
    SameForm (xs.take ys.length) ys := by
  have h' := congrArg (List.take ys.length) h
  simpa [SameForm] using h'

theorem SameForm.drop {xs ys zs : List Mention} (h : SameForm xs (ys ++ zs)) :
    SameForm (xs.drop ys.length) zs := by
  have h' := congrArg (List.drop ys.length) h
  simpa [SameForm] using h'

/-- `fill` puts stops of the form of `stops` in place, and the walk over what it makes meets
these stops and no others. -/
structure Fills {α : Type} [HasRefs α] (fill : List Mention → α) (stops : List Mention) :
    Prop where
  walk_fill : ∀ ns, SameForm ns stops → ∀ {m : Type → Type} [Monad m] [LawfulMonad m]
    (v : Visitor m), walk v (fill ns) = fill <$> ns.mapM v.stop

/-- Every value is a form filled with stops. -/
class LawfulRefs (α : Type) [HasRefs α] : Prop where
  exists_fill : ∀ a : α, ∃ fill stops, Fills fill stops ∧ fill stops = a

instance : LawfulRefs NodeRef where
  exists_fill r := by
    refine ⟨fun | [.ref x] => x | _ => r, [.ref r], ⟨?_⟩, rfl⟩
    intro ns h m _ _ v
    match ns, h with
    | [.ref x], _ => simp [walk, Visitor.stop]

instance : LawfulRefs NodeRange where
  exists_fill r := by
    refine ⟨fun | [.range x] => x | _ => r, [.range r], ⟨?_⟩, rfl⟩
    intro ns h m _ _ v
    match ns, h with
    | [.range x], _ => simp [walk, Visitor.stop]

/-- A pair is walked from left to right. -/
instance {α β : Type} [HasRefs α] [HasRefs β] : HasRefs (α × β) where
  walk v p := do
    let a ← walk v p.1
    let b ← walk v p.2
    return (a, b)

/-- A list has as many results as members, whatever the effects in between. -/
theorem mapM_bind_congr {m : Type → Type} [Monad m] [LawfulMonad m] {α β γ : Type}
    (f : α → m β) (l : List α) {g h : List β → m γ}
    (same : ∀ bs, bs.length = l.length → g bs = h bs) : l.mapM f >>= g = l.mapM f >>= h := by
  induction l generalizing g h with
  | nil => simp [same []]
  | cons a l ih =>
      simp only [List.mapM_cons, bind_assoc, pure_bind]
      congr 1
      funext b
      exact ih fun bs hbs => same _ (by simp [hbs])

theorem Fills.pair {α β : Type} [HasRefs α] [HasRefs β] {f : List Mention → α}
    {g : List Mention → β} {xs ys : List Mention} (hf : Fills f xs) (hg : Fills g ys) :
    Fills (fun ns => (f (ns.take xs.length), g (ns.drop xs.length))) (xs ++ ys) := by
  refine ⟨?_⟩
  intro ns h m _ _ v
  have hx := hf.walk_fill _ h.take v
  have hy := hg.walk_fill _ h.drop v
  have hlen : (ns.take xs.length).length = xs.length := h.take.length
  have hsplit : ns.mapM v.stop = do
      let as ← (ns.take xs.length).mapM v.stop
      let bs ← (ns.drop xs.length).mapM v.stop
      return as ++ bs := by
    rw [← List.mapM_append, List.take_append_drop]
  calc walk v (f (ns.take xs.length), g (ns.drop xs.length))
      = (ns.take xs.length).mapM v.stop >>= fun as =>
          (ns.drop xs.length).mapM v.stop >>= fun bs => pure (f as, g bs) := by
        simp only [walk] at hx hy ⊢
        simp [hx, hy]
    _ = (ns.take xs.length).mapM v.stop >>= fun as =>
          (ns.drop xs.length).mapM v.stop >>= fun bs =>
            pure (f ((as ++ bs).take xs.length), g ((as ++ bs).drop xs.length)) := by
        refine mapM_bind_congr _ _ fun as has => ?_
        have has' : as.length = xs.length := has.trans hlen
        simp [← has']
    _ = (fun ns => (f (ns.take xs.length), g (ns.drop xs.length))) <$> ns.mapM v.stop := by
        rw [hsplit]
        simp

instance {α β : Type} [HasRefs α] [HasRefs β] [LawfulRefs α] [LawfulRefs β] :
    LawfulRefs (α × β) where
  exists_fill p := by
    obtain ⟨f, xs, hf, hp⟩ := LawfulRefs.exists_fill p.1
    obtain ⟨g, ys, hg, hq⟩ := LawfulRefs.exists_fill p.2
    exact ⟨_, _, hf.pair hg, by simp [hp, hq]⟩

/-- A type whose references all stand in one part of it is as lawful as that part. -/
theorem LawfulRefs.ofLens {α β : Type} [HasRefs α] [HasRefs β] [LawfulRefs β]
    (get : α → β) (set : α → β → α) (get_set : ∀ a b, get (set a b) = b)
    (set_get : ∀ a, set a (get a) = a) (set_set : ∀ a b c, set (set a b) c = set a c)
    (walk_eq : ∀ {m : Type → Type} [Monad m] [LawfulMonad m] (v : Visitor m) (a : α),
      walk v a = set a <$> walk v (get a)) : LawfulRefs α where
  exists_fill a := by
    obtain ⟨f, xs, hf, ha⟩ := LawfulRefs.exists_fill (get a)
    refine ⟨fun ns => set a (f ns), xs, ⟨?_⟩, (congrArg (set a) ha).trans (set_get a)⟩
    intro ns h m _ _ v
    have hset : set (set a (f ns)) = set a := funext fun c => set_set a (f ns) c
    rw [walk_eq, get_set, hset, hf.walk_fill ns h v, Functor.map_map]

instance {α : Type} [HasRefs α] [LawfulRefs α] : LawfulRefs (Option α) where
  exists_fill
    | none => by
        refine ⟨fun _ => none, [], ⟨?_⟩, rfl⟩
        intro ns h m _ _ v
        have hns : ns = [] := List.eq_nil_of_length_eq_zero h.length
        simp [walk, hns]
    | some a => by
        obtain ⟨f, xs, hf, ha⟩ := LawfulRefs.exists_fill a
        refine ⟨fun ns => some (f ns), xs, ⟨?_⟩, congrArg some ha⟩
        intro ns h m _ _ v
        have hw := hf.walk_fill ns h v
        simp only [walk] at hw ⊢
        simp [hw]

theorem exists_fill_list {α : Type} [HasRefs α] [LawfulRefs α] (as : List α) :
    ∃ fill stops, Fills fill stops ∧ fill stops = as ∧ ∀ ns, (fill ns).length = as.length := by
  induction as with
  | nil =>
      refine ⟨fun _ => [], [], ⟨?_⟩, rfl, fun _ => rfl⟩
      intro ns h m _ _ v
      have hns : ns = [] := List.eq_nil_of_length_eq_zero h.length
      simp [walk, hns]
  | cons a as ih =>
      obtain ⟨f, xs, hf, ha⟩ := LawfulRefs.exists_fill a
      obtain ⟨g, ys, hg, has, hlen⟩ := ih
      refine ⟨fun ns => f (ns.take xs.length) :: g (ns.drop xs.length), xs ++ ys, ⟨?_⟩, ?_, ?_⟩
      · intro ns h m _ _ v
        have hw := (hf.pair hg).walk_fill ns h v
        have hc : ∀ (b : α) (bs : List α), walk v (b :: bs) =
            (fun p : α × List α => p.1 :: p.2) <$> walk v (b, bs) := by
          intro b bs
          simp [walk]
        rw [hc, hw, Functor.map_map]
      · simp [ha, has]
      · intro ns
        simp [hlen]

instance {α : Type} [HasRefs α] [LawfulRefs α] : LawfulRefs (List α) where
  exists_fill as := by
    obtain ⟨f, xs, hf, ha, _⟩ := exists_fill_list as
    exact ⟨f, xs, hf, ha⟩

/-- A vector of a given length from an array that should have it. -/
def vectorOr {α : Type} {n : Nat} (or : Vector α n) (as : Array α) : Vector α n :=
  if h : as.size = n then ⟨as, h⟩ else or

theorem walk_vector {α : Type} [HasRefs α] {n : Nat} {m : Type → Type} [Monad m] [LawfulMonad m]
    (v : Visitor m) (or as : Vector α n) :
    walk v as = (fun l => vectorOr or l.toArray) <$> walk v as.toList := by
  have hback : walk v as = vectorOr or <$> Vector.toArray <$> as.mapM (walk v) := by
    have hid : (fun x : Vector α n => vectorOr or x.toArray) = id := by
      funext x
      simp [vectorOr]
    rw [Functor.map_map, hid, id_map]
    rfl
  rw [hback, Vector.toArray_mapM, Array.mapM_eq_mapM_toList, Functor.map_map]
  rfl

instance {α : Type} {n : Nat} [HasRefs α] [LawfulRefs α] : LawfulRefs (Vector α n) where
  exists_fill as := by
    obtain ⟨f, xs, hf, has, hlen⟩ := exists_fill_list as.toList
    refine ⟨fun ns => vectorOr as (f ns).toArray, xs, ⟨?_⟩, ?_⟩
    · intro ns h m _ _ v
      have hn : (f ns).toArray.size = n := by simp [hlen]
      have hlist : (vectorOr as (f ns).toArray).toList = f ns := by simp [vectorOr, hn]
      rw [walk_vector v as, hlist, hf.walk_fill ns h v, Functor.map_map]
    · simp [has, vectorOr, Vector.toList]

/-- The id of a definition is no stop. -/
instance : LawfulRefs Node where
  exists_fill n := by
    refine ⟨fun _ => n, [], ⟨?_⟩, rfl⟩
    intro ns h m _ _ v
    have hns : ns = [] := List.eq_nil_of_length_eq_zero h.length
    simp [walk, hns]

instance : LawfulRefs Cinecam :=
  .ofLens Cinecam.nodes (fun e x => { e with nodes := x }) (fun _ _ => rfl) (fun _ => rfl)
    (fun _ _ _ => rfl) (by intros; simp [walk])

instance : LawfulRefs Wheel :=
  .ofLens (fun e => (e.axis, e.rigidity, e.arm))
    (fun e x => { e with axis := x.1, rigidity := x.2.1, arm := x.2.2 }) (fun _ _ => rfl)
    (fun _ => rfl) (fun _ _ _ => rfl) (by intros; simp [walk])

instance : LawfulRefs RimmedWheel :=
  .ofLens (fun e => (e.axis, e.rigidity, e.arm))
    (fun e x => { e with axis := x.1, rigidity := x.2.1, arm := x.2.2 }) (fun _ _ => rfl)
    (fun _ => rfl) (fun _ _ _ => rfl) (by intros; simp [walk])

instance : LawfulRefs MeshWheel :=
  .ofLens (fun e => (e.axis, e.rigidity, e.arm))
    (fun e x => { e with axis := x.1, rigidity := x.2.1, arm := x.2.2 }) (fun _ _ => rfl)
    (fun _ => rfl) (fun _ _ _ => rfl) (by intros; simp [walk])

instance : LawfulRefs FlexbodyWheel :=
  .ofLens (fun e => (e.axis, e.rigidity, e.arm))
    (fun e x => { e with axis := x.1, rigidity := x.2.1, arm := x.2.2 }) (fun _ _ => rfl)
    (fun _ => rfl) (fun _ _ _ => rfl) (by intros; simp [walk])

instance : LawfulRefs Beam :=
  .ofLens Beam.ends (fun e x => { e with ends := x }) (fun _ _ => rfl) (fun _ => rfl)
    (fun _ _ _ => rfl) (by intros; simp [walk])

instance : LawfulRefs Shock :=
  .ofLens Shock.ends (fun e x => { e with ends := x }) (fun _ _ => rfl) (fun _ => rfl)
    (fun _ _ _ => rfl) (by intros; simp [walk])

instance : LawfulRefs Hydro :=
  .ofLens Hydro.ends (fun e x => { e with ends := x }) (fun _ _ => rfl) (fun _ => rfl)
    (fun _ _ _ => rfl) (by intros; simp [walk])

instance : LawfulRefs Command :=
  .ofLens Command.ends (fun e x => { e with ends := x }) (fun _ _ => rfl) (fun _ => rfl)
    (fun _ _ _ => rfl) (by intros; simp [walk])

instance : LawfulRefs Rope :=
  .ofLens (fun e => (e.root, e.tip))
    (fun e x => { e with root := x.1, tip := x.2 })
    (fun _ _ => rfl) (fun _ => rfl) (fun _ _ _ => rfl) (by intros; simp [walk])

instance : LawfulRefs Tie :=
  .ofLens Tie.root (fun e x => { e with root := x }) (fun _ _ => rfl) (fun _ => rfl)
    (fun _ _ _ => rfl) (by intros; simp [walk])

instance : LawfulRefs Hook :=
  .ofLens Hook.node (fun e x => { e with node := x }) (fun _ _ => rfl) (fun _ => rfl)
    (fun _ _ _ => rfl) (by intros; simp [walk])

instance : LawfulRefs SlideNode :=
  .ofLens (fun e => (e.node, e.rails))
    (fun e x => { e with node := x.1, rails := x.2 })
    (fun _ _ => rfl) (fun _ => rfl) (fun _ _ _ => rfl) (by intros; simp [walk])

instance : LawfulRefs RailGroup :=
  .ofLens RailGroup.rails (fun e x => { e with rails := x }) (fun _ _ => rfl) (fun _ => rfl)
    (fun _ _ _ => rfl) (by intros; simp [walk])

instance : LawfulRefs Flexbody :=
  .ofLens (fun e => (e.reference, e.xAxis, e.yAxis, e.nodes))
    (fun e x => { e with reference := x.1, xAxis := x.2.1, yAxis := x.2.2.1, nodes := x.2.2.2 })
    (fun _ _ => rfl) (fun _ => rfl) (fun _ _ _ => rfl) (by intros; simp [walk])

instance : LawfulRefs CabTriangle :=
  .ofLens CabTriangle.corners (fun e x => { e with corners := x }) (fun _ _ => rfl) (fun _ => rfl)
    (fun _ _ _ => rfl) (by intros; simp [walk])

instance : LawfulRefs Submesh :=
  .ofLens Submesh.triangles (fun e x => { e with triangles := x }) (fun _ _ => rfl) (fun _ => rfl)
    (fun _ _ _ => rfl) (by intros; simp [walk])

instance : LawfulRefs Axle :=
  .ofLens Axle.wheels (fun e x => { e with wheels := x }) (fun _ _ => rfl) (fun _ => rfl)
    (fun _ _ _ => rfl) (by intros; simp [walk])

instance : LawfulRefs Camera :=
  .ofLens (fun e => (e.center, e.back, e.left))
    (fun e x => { e with center := x.1, back := x.2.1, left := x.2.2 })
    (fun _ _ => rfl) (fun _ => rfl) (fun _ _ _ => rfl) (by intros; simp [walk])

instance : (k : Keyword) → LawfulRefs (Entry k)
  | .nodes | .nodes2 => inferInstanceAs (LawfulRefs Node)
  | .cinecam => inferInstanceAs (LawfulRefs Cinecam)
  | .wheels => inferInstanceAs (LawfulRefs Wheel)
  | .wheels2 => inferInstanceAs (LawfulRefs RimmedWheel)
  | .meshwheels | .meshwheels2 => inferInstanceAs (LawfulRefs MeshWheel)
  | .flexbodywheels => inferInstanceAs (LawfulRefs FlexbodyWheel)
  | .beams => inferInstanceAs (LawfulRefs Beam)
  | .shocks => inferInstanceAs (LawfulRefs Shock)
  | .hydros => inferInstanceAs (LawfulRefs Hydro)
  | .commands => inferInstanceAs (LawfulRefs Command)
  | .ropes => inferInstanceAs (LawfulRefs Rope)
  | .ties => inferInstanceAs (LawfulRefs Tie)
  | .fixes => inferInstanceAs (LawfulRefs NodeRef)
  | .hooks => inferInstanceAs (LawfulRefs Hook)
  | .slidenodes => inferInstanceAs (LawfulRefs SlideNode)
  | .railgroups => inferInstanceAs (LawfulRefs RailGroup)
  | .flexbodies => inferInstanceAs (LawfulRefs Flexbody)
  | .submesh => inferInstanceAs (LawfulRefs Submesh)
  | .axles => inferInstanceAs (LawfulRefs Axle)
  | .cameras => inferInstanceAs (LawfulRefs Camera)

instance : LawfulRefs Section where
  exists_fill c := by
    obtain ⟨f, xs, hf, hc⟩ := LawfulRefs.exists_fill c.entries
    refine ⟨fun ns => ⟨c.keyword, f ns⟩, xs, ⟨?_⟩, congrArg (Section.mk c.keyword) hc⟩
    intro ns h m _ _ v
    have hw := hf.walk_fill ns h v
    simp only [walk] at hw ⊢
    simp [hw]

instance : LawfulRefs Module :=
  .ofLens Module.sections (fun e x => { e with sections := x }) (fun _ _ => rfl) (fun _ => rfl)
    (fun _ _ _ => rfl) (by intros; simp [walk])

instance : LawfulRefs Document :=
  .ofLens Document.modules (fun e x => { e with modules := x }) (fun _ _ => rfl) (fun _ => rfl)
    (fun _ _ _ => rfl) (by intros; simp [walk])

end RigNodes
