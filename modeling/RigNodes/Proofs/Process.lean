import RigNodes.Resolver
import RigNodes.Proofs.Settle

/-! What processing a document leaves behind. The modules are processed one by one, none of them
sees another, and the resolver only gains: tables, messages and counts are added at the end. -/
namespace RigNodes

namespace Diagnostics

theorem emitAll_messages (d : Diagnostics) (ms : List Message) :
    (d.emitAll ms).messages.toList = d.messages.toList ++ ms := by
  induction ms generalizing d with
  | nil => simp [emitAll]
  | cons m ms ih =>
      have hstep : d.emitAll (m :: ms) = (d.emit m).emitAll ms := rfl
      rw [hstep, ih, emit, Array.toList_push, List.append_assoc, List.singleton_append]

theorem emitAll_append (d : Diagnostics) (ms ms' : List Message) :
    d.emitAll (ms ++ ms') = (d.emitAll ms).emitAll ms' :=
  List.foldl_append

theorem emitAll_nil (d : Diagnostics) : d.emitAll [] = d := rfl

end Diagnostics

namespace Resolver

theorem finishAll_finished (r : Resolver) (runs : List ModuleRun) :
    (runs.foldl finish r).finished = r.finished ++ runs.map ModuleRun.moduleTable := by
  induction runs generalizing r with
  | nil => simp
  | cons run runs ih => simp [ih, finish]

theorem finishAll_messages (r : Resolver) (runs : List ModuleRun) :
    (runs.foldl finish r).diagnostics.messages.toList =
      r.diagnostics.messages.toList ++ runs.flatMap ModuleRun.messages := by
  induction runs generalizing r with
  | nil => simp
  | cons run runs ih => simp [ih, finish, Diagnostics.emitAll_messages]

theorem finishAll_stats (r : Resolver) (runs : List ModuleRun) :
    (runs.foldl finish r).stats = r.stats + (runs.map ModuleRun.stats).sum := by
  induction runs generalizing r with
  | nil => simp
  | cons run runs ih => simp [ih, finish, add_assoc]

theorem finishAll_table (r : Resolver) (runs : List ModuleRun) :
    (runs.foldl finish r).table = (runs.getLast?.map ModuleRun.table).getD r.table := by
  cases runs using List.reverseRecOn with
  | nil => rfl
  | append_singleton runs run => simp [finish]

theorem finishAll_options (r : Resolver) (runs : List ModuleRun) :
    (runs.foldl finish r).options = r.options := by
  induction runs generalizing r with
  | nil => rfl
  | cons run runs ih => exact ih (r.finish run)

variable {r : Resolver} (h : r.options.enabled = true) (d : Document)
include h

theorem process_document :
    (r.process d).2 =
      { d with modules := d.modules.map fun m => (m.resolve r.options.legacy).module } := by
  simp [process, h, runs, Function.comp_def]

theorem process_finished :
    (r.process d).1.finished = r.finished ++ d.modules.map fun m => ⟨m.name, m.table⟩ := by
  have hrun : ∀ m : Module, (m.resolve r.options.legacy).moduleTable = ⟨m.name, m.table⟩ := by
    intro m
    rw [ModuleRun.moduleTable, Module.resolve_eq]
  simp [process, h, finishAll_finished, runs, Function.comp_def, hrun]

theorem process_messages :
    (r.process d).1.diagnostics.messages.toList = r.diagnostics.messages.toList ++
      d.modules.flatMap fun m => (m.resolve r.options.legacy).messages := by
  simp [process, h, finishAll_messages, runs, List.flatMap_map]

theorem process_stats :
    (r.process d).1.stats =
      r.stats + (d.modules.map fun m => (m.resolve r.options.legacy).stats).sum := by
  simp [process, h, finishAll_stats, runs, Function.comp_def]

/-- The table at hand is that of the last module. -/
theorem process_table :
    (r.process d).1.table = (d.modules.getLast?.map Module.table).getD r.table := by
  have hrun : ∀ m : Module, (m.resolve r.options.legacy).table = m.table := by
    intro m
    rw [Module.resolve_eq]
  simp [process, h, finishAll_table, runs, List.getLast?_map, Function.comp_def, hrun]

omit h in
/-- The module at a place of the document, after the run and in the finished tables. -/
theorem process_module (h : r.options.enabled = true) {i : Nat} {m : Module}
    (hm : d.modules[i]? = some m) :
    (r.process d).2.modules[i]? = some (m.resolve r.options.legacy).module ∧
      (r.process d).1.finished[r.finished.length + i]? = some ⟨m.name, m.table⟩ := by
  rw [process_document h, process_finished h]
  simp [List.getElem?_append_right, hm]

end Resolver

end RigNodes
