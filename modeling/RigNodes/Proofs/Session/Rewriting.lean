import RigNodes.Proofs.Session.Building

/-! A session in the second pass, and both passes together. Whatever the session had at hand before,
it leaves behind what the run over the module alone leaves behind, and keeps nothing at hand. -/
namespace RigNodes

namespace Session
variable {s : Session}

/-- A session after a part of a section, with the nodes of some entry at hand. -/
def within (s : Session) (k : Keyword) (own : Option Span) (t : Tally) : Session :=
  { s with
    diagnostics := s.diagnostics.emitAll ((t.findings k).map (Finding.message s.moduleName))
    stats := s.stats + t.stats
    keyword := some k
    defining := own }

theorem absorb_run {α : Type} (s : Session) (k : Keyword) (own : Option Span) (t : Tally)
    (o : Resolved α) :
    (absorb o).run (s.within k own t) = (o.value, s.within k own (t.add o)) := by
  have hdiagnostics : (s.diagnostics.emitAll
      ((t.findings k).map (Finding.message s.moduleName))).emitAll
        (o.notices.map fun n => Finding.message s.moduleName ⟨some k, n⟩) =
      s.diagnostics.emitAll (((t.add o).findings k).map (Finding.message s.moduleName)) := by
    rw [← Diagnostics.emitAll_append, Tally.add, Tally.findings, Tally.findings]
    simp [Function.comp_def]
  have hrun : (absorb o).run (s.within k own t) = (o.value,
      { s.within k own t with
        diagnostics := (s.diagnostics.emitAll
          ((t.findings k).map (Finding.message s.moduleName))).emitAll
            (o.notices.map fun n => Finding.message s.moduleName ⟨some k, n⟩)
        stats := s.stats + t.stats + o.stats }) := rfl
  rw [hrun, hdiagnostics, add_assoc]
  rfl

/-- The scope of the references of a module. -/
def openScope (s : Session) : Scope := ⟨s.table, s.options.legacy, none⟩

theorem visitor_simulates (h : s.options.enabled = true) (k : Keyword) (own : Option Span)
    (x : Mention) :
    Simulates (fun t s' => s' = s.within k own t)
      (({ s.openScope with defining := own } : Scope).visitor.stop x) (visitor.stop x) := by
  have habsorb : ∀ {α : Type} (o : Resolved α) (f : Session → StateM Session α)
      (t : Tally), (do
        let s ← get
        if s.options.enabled then absorb o else f s : StateM Session α).run (s.within k own t) =
          (o.value, s.within k own (t.add o)) := by
    intro α o f t
    have hwithin : (s.within k own t).options.enabled = true := h
    rw [run_enabled hwithin]
    exact absorb_run s k own t o
  cases x with
  | ref r =>
      apply Simulates.map
      rintro t s' rfl
      have hrun : (resolve r).run (s.within k own t) = _ :=
        habsorb (({ s.openScope with defining := own } : Scope).resolve r) (fun _ => pure r) t
      exact ⟨congrArg Prod.fst hrun, congrArg Prod.snd hrun⟩
  | range r =>
      apply Simulates.map
      rintro t s' rfl
      have hrun : (resolveRange r).run (s.within k own t) = _ :=
        habsorb (({ s.openScope with defining := own } : Scope).resolveRange r) (fun _ => pure r) t
      exact ⟨congrArg Prod.fst hrun, congrArg Prod.snd hrun⟩

/-- A session in a section, whatever entry it was at last. -/
def InSection (s : Session) (k : Keyword) (t : Tally) (s' : Session) : Prop :=
  ∃ own, s' = s.within k own t

theorem rewriteEntry_simulates (h : s.options.enabled = true) (span : Option Span) (k : Keyword)
    (e : Entry k) :
    Simulates (s.InSection k) (s.openScope.settleEntry span k e) (rewriteEntry span k e) := by
  have hwalk : Simulates (s.InSection k)
      (walk ({ s.openScope with defining := span } : Scope).visitor e)
      (do
        modify fun s => { s with defining := span }
        walk visitor e) := by
    rintro t s' ⟨own, rfl⟩
    obtain ⟨hvalue, hstate⟩ :=
      Simulates.walk (visitor_simulates h k span) e t (s.within k span t) rfl
    exact ⟨hvalue, span, hstate⟩
  cases k with
  | nodes => exact .pure _
  | nodes2 => exact .pure _
  | _ => exact hwalk

theorem rewriteEntries_simulates (h : s.options.enabled = true) (k : Keyword)
    {spans : List (Option Span)} {es : List (Entry k)} (hlength : spans.length = es.length) :
    Simulates (s.InSection k) (s.openScope.settleEntries k spans es)
      (rewriteEntries k spans es) := by
  induction es generalizing spans with
  | nil =>
      rw [List.length_eq_zero_iff.mp hlength]
      exact .pure []
  | cons e es ih =>
      cases spans with
      | nil => cases hlength
      | cons span spans =>
          apply Simulates.bind (rewriteEntry_simulates h span k e)
          intro e'
          apply Simulates.bind (ih (Nat.succ.inj hlength))
          intro es'
          exact .pure (e' :: es')

/-- Entries that make no nodes are walked with nothing at hand. -/
theorem settleEntries_consumer (g : Scope) {k : Keyword} (hk : k.producesNodes = false)
    (es : List (Entry k)) :
    g.settleEntries k [] es = walk ({ g with defining := none } : Scope).visitor es := by
  have hentry : ∀ e : Entry k,
      g.settleEntry none k e = walk ({ g with defining := none } : Scope).visitor e := by
    intro e
    cases k with
    | nodes => cases hk
    | nodes2 => cases hk
    | _ => rfl
  induction es with
  | nil => rfl
  | cons e es ih =>
      have hcons : walk ({ g with defining := none } : Scope).visitor (e :: es) = do
          let e' ← walk ({ g with defining := none } : Scope).visitor e
          let es' ← walk ({ g with defining := none } : Scope).visitor es
          return e' :: es' := List.mapM_cons
      rw [hcons, ← ih, ← hentry]
      rfl

theorem within_zero (s : Session) (k : Keyword) (own : Option Span) :
    s.within k own .zero = { s with keyword := some k, defining := own } := by
  have hwithin : s.within k own .zero =
      { s with diagnostics := s.diagnostics.emitAll [], keyword := some k, defining := own } := rfl
  rw [hwithin, Diagnostics.emitAll_nil]

/-- A section is rewritten as it is settled on its own. -/
theorem rewriteSection_run (h : s.options.enabled = true) (hown : s.defining = none)
    {c : Section} {spans : List (Option Span)}
    (hproducer : c.keyword.producesNodes = true → spans.length = c.entries.length)
    (hconsumer : c.keyword.producesNodes = false → spans = []) :
    (rewriteSection (c, spans)).run s =
      ((s.openScope.settleSection spans c).1,
        s.within c.keyword none (s.openScope.settleSection spans c).2) := by
  have hstart : { s with keyword := some c.keyword } = s.within c.keyword none .zero := by
    rw [within_zero, ← hown]
  have hrun : (rewriteSection (c, spans)).run s =
      if c.keyword.producesNodes then
        (⟨c.keyword, ((rewriteEntries c.keyword spans c.entries).run
            (s.within c.keyword none .zero)).1⟩,
          { ((rewriteEntries c.keyword spans c.entries).run
            (s.within c.keyword none .zero)).2 with defining := none })
      else
        (⟨c.keyword, ((walk visitor c.entries).run (s.within c.keyword none .zero)).1⟩,
          ((walk visitor c.entries).run (s.within c.keyword none .zero)).2) := by
    rw [← hstart]
    unfold rewriteSection
    rw [run_bind]
    cases c.keyword.producesNodes <;> rfl
  rw [hrun]
  cases hk : c.keyword.producesNodes with
  | true =>
      obtain ⟨hvalue, own, hstate⟩ := rewriteEntries_simulates h c.keyword (hproducer hk) .zero
        (s.within c.keyword none .zero) ⟨none, rfl⟩
      rw [if_pos rfl, hvalue, hstate]
      rfl
  | false =>
      obtain ⟨hvalue, hstate⟩ := Simulates.walk (visitor_simulates h c.keyword none) c.entries .zero
        (s.within c.keyword none .zero) rfl
      rw [if_neg Bool.false_ne_true, hvalue, hstate, hconsumer hk]
      unfold Scope.settleSection
      rw [settleEntries_consumer _ hk]
      rfl

/-- A session after some sections, each of them settled on its own. -/
def after (s : Session) (keyword : Option Keyword) (l : List (Section × Tally)) : Session :=
  { s with
    diagnostics := s.diagnostics.emitAll
      ((l.flatMap fun c => c.2.findings c.1.keyword).map (Finding.message s.moduleName))
    stats := s.stats + (l.map fun c => c.2.stats).sum
    keyword
    defining := none }

theorem after_nil (hown : s.defining = none) : s.after s.keyword [] = s := by
  have hafter : s.after s.keyword [] =
      { s with diagnostics := s.diagnostics.emitAll [], defining := none } := rfl
  rw [hafter, Diagnostics.emitAll_nil, ← hown]

theorem after_cons (s : Session) (keyword : Option Keyword) (c : Section × Tally)
    (l : List (Section × Tally)) :
    (s.within c.1.keyword none c.2).after keyword l = s.after keyword (c :: l) := by
  have hdiagnostics : (s.diagnostics.emitAll
      ((c.2.findings c.1.keyword).map (Finding.message s.moduleName))).emitAll
        ((l.flatMap fun c => c.2.findings c.1.keyword).map (Finding.message s.moduleName)) =
      s.diagnostics.emitAll
        (((c :: l).flatMap fun c => c.2.findings c.1.keyword).map
          (Finding.message s.moduleName)) := by
    rw [← Diagnostics.emitAll_append, ← List.map_append, List.flatMap_cons]
  unfold after
  rw [← hdiagnostics, List.map_cons, List.sum_cons, ← add_assoc]
  rfl

/-- Sections one after the other: each is settled on its own, and the rest adds up. -/
theorem rewriteSections_run (h : s.options.enabled = true) (hown : s.defining = none)
    {l : List (Section × List (Option Span))}
    (hproducer : ∀ c ∈ l, c.1.keyword.producesNodes = true → c.2.length = c.1.entries.length)
    (hconsumer : ∀ c ∈ l, c.1.keyword.producesNodes = false → c.2 = []) :
    ∃ keyword, (l.mapM rewriteSection).run s =
      ((l.map fun c => s.openScope.settleSection c.2 c.1).map Prod.fst,
        s.after keyword (l.map fun c => s.openScope.settleSection c.2 c.1)) := by
  induction l generalizing s with
  | nil => exact ⟨s.keyword, Prod.ext rfl (after_nil hown).symm⟩
  | cons c l ih =>
      have hfirst := rewriteSection_run h hown (hproducer c List.mem_cons_self)
        (hconsumer c List.mem_cons_self)
      obtain ⟨keyword, hrest⟩ :=
        @ih (s.within c.1.keyword none (s.openScope.settleSection c.2 c.1).2) h rfl
          (fun c' hc' => hproducer c' (List.mem_cons_of_mem c hc'))
          (fun c' hc' => hconsumer c' (List.mem_cons_of_mem c hc'))
      refine ⟨keyword, ?_⟩
      rw [run_mapM_cons, hfirst, hrest]
      exact congrArg (Prod.mk _) (s.after_cons keyword (s.openScope.settleSection c.2 c.1) _)

theorem rewrite_run (h : s.options.enabled = true) (hown : s.defining = none) {m : Module}
    (htable : s.table = m.table) :
    (rewrite m (m.sections.zipIdx.map m.spansAt)).run s =
      ({ m with sections := (m.settledSections s.options.legacy).map Prod.fst },
        s.after none (m.settledSections s.options.legacy)) := by
  have hscope : s.openScope = m.scope s.options.legacy := by
    rw [openScope, htable]
    rfl
  have hlength : ∀ c : Section × Nat, (m.spansAt c).length = c.1.productions.length := by
    intro c
    simp [Module.spansAt, Section.sites]
  obtain ⟨keyword, hrun⟩ := rewriteSections_run h hown
    (l := m.sections.zipIdx.map fun c => (c.1, m.spansAt c))
    (fun c hc hk => by
      obtain ⟨c, -, rfl⟩ := List.mem_map.mp hc
      rw [hlength]
      exact Section.productions_length hk)
    (fun c hc hk => by
      obtain ⟨c, -, rfl⟩ := List.mem_map.mp hc
      apply List.length_eq_zero_iff.mp
      rw [hlength, Section.productions_of_consumer hk]
      rfl)
  have hsettled : ((m.sections.zipIdx.map fun c => (c.1, m.spansAt c)).map fun c =>
      (m.scope s.options.legacy).settleSection c.2 c.1) = m.settledSections s.options.legacy := by
    rw [List.map_map]
    rfl
  rw [hscope, hsettled] at hrun
  unfold rewrite
  rw [run_bind, Module.zip_zipIdx_map, hrun]
  rfl

theorem noteSelfReferences_run (hkeyword : s.keyword = none) {before own : Nat}
    (hown : s.stats.resolvedToSelf = before + own) :
    (noteSelfReferences before).run s =
      ((), { s with
        diagnostics := s.diagnostics.emitAll
          ((ModuleRun.closing own).map (Finding.message s.moduleName)) }) := by
  have hrun : (noteSelfReferences before).run s =
      (if 0 < s.stats.resolvedToSelf - before then
        emit none [.selfReferences (s.stats.resolvedToSelf - before)]
      else pure () : StateM Session Unit).run s := rfl
  rw [hrun, hown, Nat.add_sub_cancel_left]
  unfold ModuleRun.closing
  split
  next hpos =>
    have hemit : (emit none [.selfReferences own]).run s =
        ((), { s with
          diagnostics := s.diagnostics.emitAll
            [Finding.message s.moduleName ⟨s.keyword.or none, .selfReferences own⟩] }) := rfl
    rw [hemit, hkeyword]
    rfl
  next hzero =>
    rw [List.map_nil, Diagnostics.emitAll_nil]
    rfl

/-- A session without anything at hand. -/
def idle (r : Resolver) : Session := ⟨r, none, none⟩

theorem during_start (s : Session) (keyword : Option Keyword) :
    s.during keyword Build.start = { s with table := .empty, keyword } := by
  have hduring : s.during keyword Build.start =
      { s with table := .empty, diagnostics := s.diagnostics.emitAll [], keyword } := rfl
  rw [hduring, Diagnostics.emitAll_nil]

theorem settle_run (h : s.options.enabled = true) (hown : s.defining = none) {m : Module}
    (htable : s.table = m.table) :
    (settle m (m.sections.zipIdx.map m.spansAt)).run s =
      ((m.resolve s.options.legacy).module,
        idle { s.toResolver with
          finished := s.finished ++ [⟨s.moduleName, m.table⟩]
          diagnostics := s.diagnostics.emitAll
            ((m.resolve s.options.legacy).settling.map (Finding.message s.moduleName))
          stats := s.stats +
            ((m.settledSections s.options.legacy).map fun c => c.2.stats).sum }) := by
  -- What the count of self-references has gained is what the sections were counted for.
  have hnote := @noteSelfReferences_run (s.after none (m.settledSections s.options.legacy)) rfl
    s.stats.resolvedToSelf (m.countedStats s.options.legacy).resolvedToSelf rfl
  have hdiagnostics : (s.after none (m.settledSections s.options.legacy)).diagnostics.emitAll
      ((ModuleRun.closing (m.countedStats s.options.legacy).resolvedToSelf).map
        (Finding.message s.moduleName)) =
      s.diagnostics.emitAll
        ((m.resolve s.options.legacy).settling.map (Finding.message s.moduleName)) := by
    rw [m.resolve_eq, List.map_append, Diagnostics.emitAll_append]
    rfl
  have hmodule : (m.resolve s.options.legacy).module =
      { m with sections := (m.settledSections s.options.legacy).map Prod.fst } := by
    rw [m.resolve_eq]
  unfold settle
  rw [run_bind, run_get, run_bind, rewrite_run h hown htable, run_bind, hnote, hmodule,
    ← hdiagnostics, ← htable]
  rfl

/-- Whatever is at hand and in the table, a module is processed as it is on its own. -/
theorem processModule_run (h : s.options.enabled = true) (m : Module) :
    (processModule m).run s =
      ((m.resolve s.options.legacy).module,
        idle (s.toResolver.finish (m.resolve s.options.legacy))) := by
  let opened : Session :=
    { s with table := .empty, moduleName := m.name, keyword := none, defining := none }
  let built : Session :=
    { opened.during none (m.buildAfter m.canonicalSites) with table := m.table }
  have hbuild : (build m).run opened = (m.sections.zipIdx.map m.spansAt, built) := by
    have hstart : opened.during none Build.start = opened := opened.during_start none
    have hrun := @build_run opened h m
    rwa [hstart] at hrun
  have hsettle := @settle_run built h rfl m rfl
  have hbegin : (beginModule m.name).run s = ((), opened) := rfl
  have hmessages : (s.diagnostics.emitAll
      ((m.canonicalSites.flatMap m.findings).map (Finding.message m.name))).emitAll
        ((m.resolve s.options.legacy).settling.map (Finding.message m.name)) =
      s.diagnostics.emitAll (m.resolve s.options.legacy).messages := by
    rw [← Diagnostics.emitAll_append, ModuleRun.messages, List.map_append, m.resolve_eq]
  have hstats : s.stats + ⟨0, 0, 0, m.canonicalSites.countP Site.rigid⟩ +
      ((m.settledSections s.options.legacy).map fun c => c.2.stats).sum =
        s.stats + (m.resolve s.options.legacy).stats := by
    rw [m.resolve_eq, add_assoc, add_comm (⟨0, 0, 0, _⟩ : Stats)]
    rfl
  have hfinish : s.toResolver.finish (m.resolve s.options.legacy) =
      { s.toResolver with
        table := m.table
        moduleName := m.name
        finished := s.finished ++ [⟨m.name, m.table⟩]
        diagnostics := s.diagnostics.emitAll (m.resolve s.options.legacy).messages
        stats := s.stats + (m.resolve s.options.legacy).stats } := by
    rw [m.resolve_eq]
    rfl
  unfold processModule
  rw [run_bind, hbegin, run_bind, hbuild, hsettle, hfinish, ← hmessages, ← hstats]
  rfl

/-- Modules one after the other, from whatever is at hand. -/
theorem processModules_run (h : s.options.enabled = true) (ms : List Module) :
    ((ms.mapM processModule).run s).1 =
        (ms.map (Module.resolve s.options.legacy)).map ModuleRun.module ∧
      ((ms.mapM processModule).run s).2.toResolver =
        (ms.map (Module.resolve s.options.legacy)).foldl Resolver.finish s.toResolver ∧
      (s = idle s.toResolver → ((ms.mapM processModule).run s).2 =
        idle ((ms.mapM processModule).run s).2.toResolver) := by
  induction ms generalizing s with
  | nil => exact ⟨rfl, rfl, fun hidle => hidle⟩
  | cons m ms ih =>
      obtain ⟨hvalue, hstate, hidle⟩ :=
        @ih (idle (s.toResolver.finish (m.resolve s.options.legacy))) h
      rw [run_mapM_cons, processModule_run h m]
      refine ⟨?_, ?_, ?_⟩
      · rw [hvalue]
        rfl
      · rw [hstate]
        rfl
      · intro _
        exact hidle rfl

/-- Whatever is at hand, a document is processed as the resolver processes it. -/
theorem process_run (h : s.options.enabled = true) (d : Document) :
    ((process d).run s).1 = (s.toResolver.process d).2 ∧
      ((process d).run s).2.toResolver = (s.toResolver.process d).1 := by
  have hrun : (process d).run s =
      (d.modules.mapM processModule >>= fun modules => pure { d with modules }).run s :=
    run_enabled h _ _
  obtain ⟨hvalue, hstate, -⟩ := processModules_run h d.modules
  rw [hrun, run_bind, run_pure, hvalue, hstate, Resolver.process, if_pos h]
  exact ⟨rfl, rfl⟩

end Session

end RigNodes
