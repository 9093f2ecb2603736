import RigNodes.Proofs.CanonicalTable
import RigNodes.Proofs.Session.Requests

/-! Modules are scopes of their own. Whatever a resolver has done before, each module of a document
comes out as from a fresh resolver that is given this module alone, and what is said, counted and
kept adds up. -/
namespace RigNodes

namespace Resolver

/-- A fresh resolver that is given one module. -/
def alone (o : Options) (m : Module) : Resolver × Document := (new o).process ⟨"", [m]⟩

/-- A run over a document that is made up of runs over its modules alone, also when it is done step
by step and whatever is at hand at first. -/
structure Modular (r : Resolver) (d : Document) (a : Resolver × Document) : Prop where
  single (m : Module) : ∃ m' t, (alone r.options m).2.modules = [m'] ∧ m'.name = m.name ∧
    (alone r.options m).1.finished = [⟨m.name, t⟩]
  document : a.2 = { d with modules := d.modules.flatMap fun m => (alone r.options m).2.modules }
  tables : a.1.finished = r.finished ++ d.modules.flatMap fun m => (alone r.options m).1.finished
  messages : a.1.diagnostics.messages.toList = r.diagnostics.messages.toList ++
    d.modules.flatMap fun m => (alone r.options m).1.diagnostics.messages.toList
  stats : a.1.stats = r.stats + (d.modules.map fun m => (alone r.options m).1.stats).sum
  options : a.1.options = r.options
  stepwise (s : Session) (hs : s.toResolver = r) : ((Session.process d).run s).1 = a.2 ∧
    ((Session.process d).run s).2.toResolver = a.1

theorem alone_eq {o : Options} (h : o.enabled = true) (m : Module) :
    (alone o m).2.modules = [(m.resolve o.legacy).module] ∧
      (alone o m).1.finished = [⟨m.name, m.table⟩] ∧
      (alone o m).1.diagnostics.messages.toList = (m.resolve o.legacy).messages ∧
      (alone o m).1.stats = (m.resolve o.legacy).stats := by
  have hnew : (new o).options.enabled = true := h
  unfold alone
  rw [process_document hnew, process_finished hnew, process_messages hnew, process_stats hnew]
  refine ⟨rfl, rfl, ?_, ?_⟩
  · exact List.flatMap_singleton _ _
  · rw [List.map_singleton, List.sum_singleton]
    exact zero_add _

/-- Modules are independent of each other and of what the resolver has done before. -/
theorem process_modular {r : Resolver} (h : r.options.enabled = true) (d : Document) :
    r.Modular d (r.process d) := by
  refine ⟨?single, ?document, ?tables, ?messages, ?stats, ?options, ?stepwise⟩
  case single =>
    intro m
    obtain ⟨hmodules, hfinished, -, -⟩ := alone_eq h m
    refine ⟨_, m.table, hmodules, ?_, hfinished⟩
    rw [Module.resolve_eq]
  case document =>
    rw [process_document h, List.map_eq_flatMap]
    apply congrArg (Document.mk d.name)
    apply List.flatMap_congr
    intro m hm
    exact (alone_eq h m).1.symm
  case tables =>
    rw [process_finished h, List.map_eq_flatMap]
    apply congrArg (r.finished ++ ·)
    apply List.flatMap_congr
    intro m hm
    exact (alone_eq h m).2.1.symm
  case messages =>
    rw [process_messages h]
    apply congrArg (r.diagnostics.messages.toList ++ ·)
    apply List.flatMap_congr
    intro m hm
    exact (alone_eq h m).2.2.1.symm
  case stats =>
    rw [process_stats h]
    apply congrArg (r.stats + ·)
    apply congrArg List.sum
    apply List.map_congr_left
    intro m hm
    exact (alone_eq h m).2.2.2.symm
  case options =>
    rw [process, if_pos h]
    exact r.finishAll_options _
  case stepwise =>
    rintro s rfl
    exact Session.process_run h d

/-- A resolver that was busy before. -/
def busy : Resolver := (new ⟨true, true⟩).replay
  [.registerNumber 7, .process ⟨"", [.doubled]⟩, .beginModule "front", .registerName "hub",
    .resolve (.name "hub"), .resolve (.number 9)]

theorem process_modular_busy :
    busy.Modular ⟨"", [.doubled, .doubled]⟩ (busy.process ⟨"", [.doubled, .doubled]⟩) ∧
      busy.diagnostics.errorCount = 4 ∧
      (busy.process ⟨"", [.doubled, .doubled]⟩).1.diagnostics.errorCount = 10 := by
  exact ⟨process_modular (by decide +kernel) _, by decide +kernel, by decide +kernel⟩

end Resolver

end RigNodes
