import RigNodes.Proofs.Process
import RigNodes.Resolver.Session

/-! A session in the build pass. It fills its table step by step as the pass over the module alone
does, and whatever it has to say on the way it says at once. -/
namespace RigNodes

section
variable {σ τ α β : Type} {R : σ → τ → Prop}

/-- A pass over one state answers as a pass over another, and keeps the states related. -/
def Simulates (R : σ → τ → Prop) (f : StateM σ β) (g : StateM τ β) : Prop :=
  ∀ s t, R s t → (g.run t).1 = (f.run s).1 ∧ R (f.run s).2 (g.run t).2

namespace Simulates

theorem map {f : StateM σ α} {g : StateM τ α} (h : Simulates R f g) (v : α → β) :
    Simulates R (v <$> f) (v <$> g) := by
  intro s t hst
  obtain ⟨hvalue, hstate⟩ := h s t hst
  exact ⟨congrArg v hvalue, hstate⟩

theorem bind {f : StateM σ α} {g : StateM τ α} (h : Simulates R f g) {f' : α → StateM σ β}
    {g' : α → StateM τ β} (h' : ∀ a, Simulates R (f' a) (g' a)) :
    Simulates R (f >>= f') (g >>= g') := by
  intro s t hst
  obtain ⟨hvalue, hstate⟩ := h s t hst
  rw [run_bind, run_bind, hvalue]
  exact h' _ _ _ hstate

theorem pure (b : β) : Simulates R (Pure.pure b) (Pure.pure b) := by
  intro s t hst
  exact ⟨rfl, hst⟩

theorem mapM {f : α → StateM σ β} {g : α → StateM τ β} {l : List α}
    (h : ∀ a ∈ l, Simulates R (f a) (g a)) : Simulates R (l.mapM f) (l.mapM g) := by
  induction l with
  | nil => exact pure []
  | cons a l ih =>
      rw [List.mapM_cons, List.mapM_cons]
      apply bind (h a List.mem_cons_self)
      intro b
      apply bind (ih fun a' ha' => h a' (List.mem_cons_of_mem a ha'))
      intro bs
      exact pure (b :: bs)

/-- A walk follows another, if it does so at every stop. -/
theorem walk [HasRefs α] [LawfulRefs α] {v : Visitor (StateM σ)} {w : Visitor (StateM τ)}
    (h : ∀ x, Simulates R (v.stop x) (w.stop x)) (a : α) :
    Simulates R (RigNodes.walk v a) (RigNodes.walk w a) := by
  obtain ⟨fill, hf, ha⟩ := exists_fill_mentions a
  have hv := hf.walk_fill _ rfl v
  have hw := hf.walk_fill _ rfl w
  rw [ha] at hv hw
  rw [hv, hw]
  exact (mapM fun x _ => h x).map fill

end Simulates

end

namespace Session

/-- A session after a part of the build pass. -/
def during (s : Session) (keyword : Option Keyword) (b : Build) : Session :=
  { s with
    table := b.table
    diagnostics := s.diagnostics.emitAll (b.findings.toList.map (Finding.message s.moduleName))
    stats := s.stats + ⟨0, 0, 0, b.rigidWheels⟩
    keyword }

variable {s : Session}

theorem take_run {α : Type} (s : Session) (kind : Option Kind) (k : Keyword) (b : Build)
    (g : Registered α) :
    (take kind g).run (s.during (some k) b) = (g.result, s.during (some k) (b.take k g)) := by
  have hdiagnostics : (s.diagnostics.emitAll
      (b.findings.toList.map (Finding.message s.moduleName))).emitAll
        (g.notices.map fun n => Finding.message s.moduleName ⟨some k, n⟩) =
      s.diagnostics.emitAll ((b.take k g).findings.toList.map (Finding.message s.moduleName)) := by
    rw [← Diagnostics.emitAll_append, Build.take]
    simp [Function.comp_def]
  have hrun : (take kind g).run (s.during (some k) b) =
      (g.result, { s.during (some k) (b.take k g) with
        diagnostics := (s.diagnostics.emitAll
          (b.findings.toList.map (Finding.message s.moduleName))).emitAll
            (g.notices.map fun n => Finding.message s.moduleName ⟨some k, n⟩) }) := rfl
  rw [hrun, hdiagnostics]
  rfl

/-- An operation looks first at whether the resolver is enabled. -/
theorem run_guarded {α : Type} (s : Session) (f g : Session → StateM Session α) :
    (do
      let s ← get
      if s.options.enabled then f s else g s : StateM Session α).run s =
        if s.options.enabled then (f s).run s else (g s).run s := by
  rw [run_bind]
  change (if s.options.enabled then f s else g s : StateM Session α).run s = _
  split <;> rfl

theorem run_enabled {α : Type} (h : s.options.enabled = true) (f g : Session → StateM Session α) :
    (do
      let s ← get
      if s.options.enabled then f s else g s : StateM Session α).run s = (f s).run s :=
  (run_guarded s f g).trans (if_pos h)

theorem addDefinition_run (s : Session) (k : Keyword) (b : Build) (x : NodeRef) :
    (addDefinition x).run (s.during (some k) b) =
      ((b.table.define (Build.slotKind k) x).result,
        s.during (some k) (b.take k (b.table.define (Build.slotKind k) x))) := by
  cases x with
  | number n => exact take_run s (some .numbered) k b (b.table.registerNumber n)
  | name x => exact take_run s (some .named) k b (b.table.registerName x)
  | slot x => exact take_run s none k b (b.table.define (Build.slotKind k) (.slot x))
  | unresolved => exact take_run s none k b (b.table.define (Build.slotKind k) .unresolved)

theorem produce_run (h : s.options.enabled = true) {k : Keyword} (b : Build) {p : Production}
    (hp : p.Fits k) :
    (produce p).run (s.during (some k) b) =
      (((Build.produce k p).run b).1, s.during (some k) ((Build.produce k p).run b).2) := by
  have hduring : (s.during (some k) b).options.enabled = true := h
  cases p with
  | definition x =>
      unfold produce
      rw [run_bind, addDefinition_run]
      rfl
  | point kind =>
      have hrun : (registerGenerated kind none).run (s.during (some k) b) =
          (some <$> take (some kind) (b.table.registerGenerated kind none)).run
            (s.during (some k) b) := run_enabled hduring _ _
      unfold produce
      rw [run_bind, hrun, run_map, take_run]
      rfl
  | wheel kind rays rigid =>
      obtain ⟨n, hn⟩ := Option.isSome_iff_exists.mp hp.2
      have hrun : (registerWheel kind rays rigid).run (s.during (some k) b) =
          (take (some kind) (b.table.registerWheel kind rays) >>= countWheel rigid).run
            (s.during (some k) b) := run_enabled hduring _ _
      have hresult : (b.table.registerWheel kind rays).result =
          some ⟨b.table.size, rays.toNat * n⟩ := by
        rw [NodeTable.registerWheel_eq _ hn rays rigid]
      have hbuild : (Build.produce k (.wheel kind rays rigid)).run b =
          ((b.table.registerWheel kind rays).result,
            { b.take k (b.table.registerWheel kind rays) with
              rigidWheels := b.rigidWheels + if rigid then 1 else 0 }) := rfl
      unfold produce
      rw [run_bind, hrun, run_bind, take_run, hbuild, hresult]
      exact congrArg (fun stats => (some (⟨b.table.size, rays.toNat * n⟩ : Span),
        { s.during (some k) (b.take k (b.table.registerWheel kind rays)) with stats }))
          (add_assoc s.stats ⟨0, 0, 0, b.rigidWheels⟩ ⟨0, 0, 0, if rigid then 1 else 0⟩)

/-- A session in the build pass, whatever section it was in last. -/
def Building (s : Session) (b : Build) (t : Session) : Prop := ∃ keyword, t = s.during keyword b

theorem buildSection_simulates (h : s.options.enabled = true) (c : Section × Nat) :
    Simulates s.Building
      (do return (c.2, ← c.1.productions.mapM (Build.produce c.1.keyword))) (buildSection c) := by
  rintro b t ⟨keyword, rfl⟩
  have hproductions := Simulates.mapM (R := fun b t => t = s.during (some c.1.keyword) b)
    (l := c.1.productions) (f := Build.produce c.1.keyword) (g := produce) fun p hp => by
      rintro b t rfl
      obtain ⟨e, -, he⟩ := List.mem_filterMap.mp hp
      rw [produce_run h b (production_fits he)]
      exact ⟨rfl, rfl⟩
  obtain ⟨hvalue, hstate⟩ := hproductions b (s.during (some c.1.keyword) b) rfl
  exact ⟨congrArg (Prod.mk c.2) hvalue, some c.1.keyword, hstate⟩

theorem build_run (h : s.options.enabled = true) (m : Module) :
    (build m).run (s.during none Build.start) =
      (m.sections.zipIdx.map m.spansAt,
        { s.during none (m.buildAfter m.canonicalSites) with table := m.table }) := by
  have hvisits : Simulates s.Building m.buildVisits (m.visits.mapM buildSection) :=
    Simulates.mapM fun c _ => buildSection_simulates h c
  obtain ⟨hvalue, keyword, hstate⟩ := hvisits Build.start _ ⟨none, rfl⟩
  rw [m.buildVisits_run] at hvalue hstate
  -- What was handed out and what is recorded meet in the closed form of the positions.
  have hrun : (build m).run (s.during none Build.start) =
      (m.entrySpans (.ofRows m.tableRows)
          (m.visits.map fun c => (c.2, (c.1.sites c.2).map m.span?)),
        { s.during none (m.buildAfter m.canonicalSites) with
          table := (NodeTable.ofRows m.tableRows).setLegacyOrder (Module.legacyOrder
            (m.entrySpans (.ofRows m.tableRows)
              (m.visits.map fun c => (c.2, (c.1.sites c.2).map m.span?)))) }) := by
    unfold build
    rw [run_bind, hvalue, hstate]
    rfl
  rw [hrun, m.entrySpans_eq]
  rfl

end Session

end RigNodes
