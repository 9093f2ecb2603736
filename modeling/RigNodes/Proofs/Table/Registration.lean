import RigNodes.Layout
import RigNodes.Proofs.Table.Rows
import RigNodes.Proofs.StateRun

/-! What registrations append. Each of them enters a list of rows that is known beforehand, or
refuses and leaves the table as it was. -/
namespace RigNodes

/-- The row of an accepted definition. A slot says nothing about its kind, so that one is given. -/
def NodeRef.row (slotKind : Kind) (id : NodeRef) : TableEntry where
  origin := match id with
    | .number _ => .numbered
    | .name _ => .named
    | _ => slotKind
  role := none
  userId := some id
  ray := 0

/-- The `i`-th node of a wheel with so many rays. A rim ring comes before the tyre ring, and in a
ring each ray has its A side before its B side. -/
def Kind.wheelRow (k : Kind) (rays i : Nat) : TableEntry :=
  if k.nodesPerRay? = some 4 ∧ i < 2 * rays then
    ⟨k, some (if i % 2 = 0 then .rimA else .rimB), none, i / 2⟩
  else
    let j := if k.nodesPerRay? = some 4 then i - 2 * rays else i
    ⟨k, some (if j % 2 = 0 then .tyreA else .tyreB), none, j / 2⟩

@[simp] theorem Kind.wheelRow_origin (k : Kind) (rays i : Nat) : (k.wheelRow rays i).origin = k := by
  unfold wheelRow
  split <;> rfl

@[simp] theorem Kind.wheelRow_userId (k : Kind) (rays i : Nat) :
    (k.wheelRow rays i).userId = none := by
  unfold wheelRow
  split <;> rfl

/-- The rows of a production, as long as it is accepted. -/
def Production.rows (k : Keyword) : Production → List TableEntry
  | .definition id => [id.row (Build.slotKind k)]
  | .point kind => [⟨kind, none, none, 0⟩]
  | .wheel kind rays _ =>
      (List.range (rays.toNat * kind.nodesPerRay?.getD 0)).map (kind.wheelRow rays.toNat)

@[simp] theorem Production.rows_length (k : Keyword) (p : Production) :
    (p.rows k).length = p.width := by
  cases p <;> simp [rows, width]

namespace NodeTable

/-- Whether a definition with this id would be taken in. -/
def admits (t : NodeTable) (id : NodeRef) : Bool :=
  if id.isAuthored then (t.find? id).isNone else id.isCanonical

theorem push_eq_enter (t : NodeTable) {e : TableEntry} (hn : ∀ n, e.userId ≠ some (.number n))
    (hx : ∀ x, e.userId ≠ some (.name x)) : t.push e = t.enter e := by
  rcases e with ⟨origin, role, userId, ray⟩
  rcases userId with - | (n | x | s | -)
  · rfl
  · exact absurd rfl (hn n)
  · exact absurd rfl (hx x)
  · rfl
  · rfl

theorem pushGenerated_eq_enter (t : NodeTable) (k : Kind) (role : Option Role) (ray : Nat) :
    t.pushGenerated k role ray = t.enter ⟨k, role, none, ray⟩ :=
  t.push_eq_enter (by simp) (by simp)

theorem define_table (t : NodeTable) (k : Kind) (id : NodeRef) :
    (t.define k id).table = if t.admits id then t.enter (id.row k) else t := by
  cases id with
  | number n =>
      cases h : t.findNumber? n with
      | none =>
          simp only [define, registerNumber, pushNumber, admits, find?, NodeRef.isAuthored, h,
            Option.isNone_none, if_true]
          rfl
      | some p => simp [define, registerNumber, pushNumber, admits, find?, NodeRef.isAuthored, h]
  | name x =>
      cases h : t.findName? x with
      | none =>
          simp only [define, registerName, pushName, admits, find?, NodeRef.isAuthored, h,
            Option.isNone_none, if_true]
          rfl
      | some p => simp [define, registerName, pushName, admits, find?, NodeRef.isAuthored, h]
  | slot s => rfl
  | unresolved => rfl

theorem define_result (t : NodeTable) (k : Kind) (id : NodeRef) :
    (t.define k id).result = if t.admits id then some t.size else none := by
  cases id with
  | number n =>
      cases h : t.findNumber? n <;>
        simp [define, registerNumber, pushNumber, admits, find?, NodeRef.isAuthored, h]
  | name x =>
      cases h : t.findName? x <;>
        simp [define, registerName, pushName, admits, find?, NodeRef.isAuthored, h]
  | slot s => rfl
  | unresolved => rfl

/-- What a definition gives rise to, besides being out of sequence. -/
def defineNotices (t : NodeTable) : NodeRef → List Notice
  | .number n => ((t.findNumber? n).map (Notice.duplicateNumber n)).toList
  | .name x => ((t.findName? x).map (Notice.duplicateName x)).toList
  | .slot s => if Slot.ofPosition t.size = s then [] else [.definitionMoved s t.size]
  | .unresolved => [.definitionWithoutId]

theorem define_notices (t : NodeTable) (k : Kind) (id : NodeRef)
    (hn : t.sequenceNotices .numbered = []) (hx : t.sequenceNotices .named = []) :
    (t.define k id).notices = t.defineNotices id := by
  cases id with
  | number n =>
      cases h : t.findNumber? n <;> simp [define, registerNumber, pushNumber, defineNotices, h, hn]
  | name x =>
      cases h : t.findName? x <;> simp [define, registerName, pushName, defineNotices, h, hx]
  | slot s => rfl
  | unresolved => rfl

theorem ring_eq (a b : Role) (rays : Nat) :
    ring a b rays = (List.range (2 * rays)).map fun i => (if i % 2 = 0 then a else b, i / 2) := by
  induction rays with
  | zero => rfl
  | succ rays ih =>
      have hstep : 2 * (rays + 1) = 2 * rays + 1 + 1 := by omega
      have hodd : (2 * rays + 1) / 2 = rays := by omega
      rw [ring] at ih ⊢
      rw [List.range_succ, List.flatMap_append, ih, hstep, List.range_succ, List.range_succ]
      simp [hodd]

theorem wheelNodes_eq {k : Kind} {n : Nat} (h : k.nodesPerRay? = some n) (rays : Nat) :
    (wheelNodes n rays).map (fun p => (⟨k, some p.1, none, p.2⟩ : TableEntry)) =
      (List.range (rays * n)).map (k.wheelRow rays) := by
  have htwo : n = 2 ∨ n = 4 := by cases k <;> simp_all [Kind.nodesPerRay?]
  rcases htwo with rfl | rfl
  · simp [wheelNodes, ring_eq, Kind.wheelRow, h, Nat.mul_comm, Function.comp_def]
  · have hsplit : List.range (rays * 4) =
        List.range (2 * rays) ++ (List.range (2 * rays)).map (2 * rays + ·) := by
      rw [← List.range_add]
      congr 1
      omega
    have hrim : ∀ i ∈ List.range (2 * rays), k.wheelRow rays i =
        ⟨k, some (if i % 2 = 0 then .rimA else .rimB), none, i / 2⟩ := fun i hi => by
      simp [Kind.wheelRow, h, List.mem_range.mp hi]
    have htyre : ∀ i, k.wheelRow rays (2 * rays + i) =
        ⟨k, some (if i % 2 = 0 then .tyreA else .tyreB), none, i / 2⟩ := fun i => by
      simp [Kind.wheelRow, h]
    rw [hsplit, List.map_append, List.map_congr_left hrim]
    simp [wheelNodes, ring_eq, Function.comp_def, htyre]

theorem registerWheel_eq (t : NodeTable) {k : Kind} {n : Nat} (h : k.nodesPerRay? = some n)
    (rays : UInt32) (rigid : Bool) :
    t.registerWheel k rays =
      ⟨((Production.wheel k rays rigid).rows .wheels).foldl enter t, t.sequenceNotices k,
        some ⟨t.size, rays.toNat * n⟩⟩ := by
  have hfold : ∀ (nodes : List (Role × Nat)) (t : NodeTable),
      nodes.foldl (fun t p => t.pushGenerated k (some p.1) p.2) t =
        (nodes.map fun p => (⟨k, some p.1, none, p.2⟩ : TableEntry)).foldl enter t := by
    intro nodes t
    simp only [pushGenerated_eq_enter, List.foldl_map]
  simp only [registerWheel, h, Production.rows, Option.getD_some]
  rw [hfold, wheelNodes_eq h]

end NodeTable

namespace Build

/-- Rows entered for a section, with what was noticed. -/
def extend (b : Build) (k : Keyword) (rows : List TableEntry) (notices : List Notice)
    (rigid : Bool) : Build where
  table := rows.foldl NodeTable.enter b.table
  findings := b.findings ++ (notices.map fun n => (⟨some k, n⟩ : Finding)).toArray
  rigidWheels := b.rigidWheels + if rigid then 1 else 0

theorem produce_definition (b : Build) (k : Keyword) (id : NodeRef)
    (hn : b.table.sequenceNotices .numbered = []) (hx : b.table.sequenceNotices .named = []) :
    (produce k (.definition id)).run b =
      (if b.table.admits id then some ⟨b.table.size, 1⟩ else none,
        b.extend k (if b.table.admits id then (Production.definition id).rows k else [])
          (b.table.defineNotices id) false) := by
  have hrun : (produce k (.definition id)).run b =
      ((b.table.define (slotKind k) id).result.map fun p => ⟨p, 1⟩,
        b.take k (b.table.define (slotKind k) id)) := rfl
  rw [hrun, take, NodeTable.define_table, NodeTable.define_result,
    NodeTable.define_notices _ _ _ hn hx]
  by_cases h : b.table.admits id <;> simp [h, extend, Production.rows]

theorem produce_point (b : Build) (k : Keyword) (kind : Kind)
    (h : b.table.sequenceNotices kind = []) :
    (produce k (.point kind)).run b =
      (some ⟨b.table.size, 1⟩, b.extend k ((Production.point kind).rows k) [] false) := by
  have hrun : (produce k (.point kind)).run b =
      (some ⟨b.table.size, 1⟩, b.take k (b.table.registerGenerated kind none)) := rfl
  rw [hrun, take]
  simp [NodeTable.registerGenerated, h, extend, Production.rows, NodeTable.pushGenerated_eq_enter]

theorem produce_wheel (b : Build) (k : Keyword) {kind : Kind} (hw : kind.nodesPerRay?.isSome)
    (rays : UInt32) (rigid : Bool) (h : b.table.sequenceNotices kind = []) :
    (produce k (.wheel kind rays rigid)).run b =
      (some ⟨b.table.size, (Production.wheel kind rays rigid).width⟩,
        b.extend k ((Production.wheel kind rays rigid).rows k) [] rigid) := by
  obtain ⟨n, hn⟩ := Option.isSome_iff_exists.mp hw
  have hrun : (produce k (.wheel kind rays rigid)).run b =
      ((b.table.registerWheel kind rays).result,
        { b.take k (b.table.registerWheel kind rays) with
          rigidWheels := b.rigidWheels + if rigid then 1 else 0 }) := rfl
  rw [hrun, take, NodeTable.registerWheel_eq _ hn rays rigid]
  simp [h, extend, Production.rows, Production.width, hn]

end Build

end RigNodes
