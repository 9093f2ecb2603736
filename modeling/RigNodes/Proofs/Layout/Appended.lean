import RigNodes.Proofs.Layout.ClosedForm

/-! What each entry appends to the table, measured at the table itself: how long it is before the
entry is registered, and how long afterwards. -/
namespace RigNodes

/-- Registers one production and gives the positions by which the table has grown. -/
def Build.grow (k : Keyword) (p : Production) : StateM Build Span := do
  let before ← get
  let _ ← produce k p
  let after ← get
  return ⟨before.table.size, after.table.size - before.table.size⟩

namespace Module

/-- The growth of the table over the build pass: entry by entry, for each place visited. -/
def growth (m : Module) : List (Nat × List Span) :=
  ((m.visits.mapM fun (c, i) => do
    return (i, ← c.productions.mapM (Build.grow c.keyword)) : StateM Build _).run Build.start).1

/-- The positions that the build pass appends for an entry of a section. -/
def grown? (m : Module) (part entry : Nat) : Option Span :=
  (m.growth.lookup part).bind fun spans => spans[entry]?

variable {m : Module} {before after : List Site} {s : Site}

theorem grow_run (h : m.canonicalSites = before ++ s :: after) :
    (Build.grow s.keyword s.production).run (m.buildAfter before) =
      (⟨m.start s, (m.rows s).length⟩, m.buildAfter (before ++ [s])) := by
  have hproduce := produce_run h
  have hbefore : (m.buildAfter before).table.size = m.start s := by
    rw [m.start_eq h, buildAfter_table, NodeTable.ofRows_size]
  have hafter : (m.buildAfter (before ++ [s])).table.size = m.start s + (m.rows s).length := by
    rw [buildAfter_table, NodeTable.ofRows_size, List.flatMap_append, List.length_append,
      List.flatMap_singleton, m.start_eq h]
  unfold Build.grow
  rw [run_bind, run_get, run_bind, hproduce, run_bind, run_get, run_pure, hbefore, hafter,
    Nat.add_sub_cancel_left]

theorem growth_eq (m : Module) :
    m.growth = m.visits.map fun c =>
      (c.2, (c.1.sites c.2).map fun s => ⟨m.start s, (m.rows s).length⟩) :=
  congrArg Prod.fst (m.visits_run grow_run)

/-- The entries of a generating section append the positions that they are handed. -/
theorem grown?_eq {c : Section × Nat} (hc : c ∈ m.sections.zipIdx)
    (hk : (Kind.generatedBy? c.1.keyword).isSome) (j : Nat) :
    m.grown? c.2 j = ((c.1.sites c.2).map m.span?)[j]?.join := by
  have hvisit : c ∈ m.visits := by
    apply List.mem_flatMap.mpr
    refine ⟨c.1.keyword, ?_, List.mem_filter.mpr ⟨hc, beq_self_eq_true _⟩⟩
    cases hkey : c.1.keyword <;>
      first
      | decide
      | (rw [hkey] at hk; cases hk)
  rw [grown?, growth_eq, m.lookup_visits _ hvisit, Option.bind_some, List.getElem?_map,
    List.getElem?_map]
  cases hs : (c.1.sites c.2)[j]? with
  | none => rfl
  | some s =>
      have hs := List.mem_of_getElem? hs
      have hacc : m.accepts s = true :=
        accepts_of_id?_eq_none (Section.sites_id?_of_generating hk hs)
      rw [Option.map_some, Option.map_some, m.rows_length hacc, span?, if_pos hacc]
      rfl

end Module

end RigNodes
