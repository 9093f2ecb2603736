import RigNodes.Document.Shape
import RigNodes.Proofs.Walk.Fields

/-! The walk as a traversal of documents. References are counted off the shape that readers and
writers go by: the walk meets all of them in the order in which they are written, and leaves out
the ids of definitions only. What a replacement leaves of a document and the list of its references
are the document again. -/
namespace RigNodes

/-- Collects the references that it meets. -/
def Visitor.collect : Visitor (StateM (Array NodeRef)) :=
  .ofRef fun r => do
    modify fun seen => seen.push r
    return r

/-- Puts the references of a list in place of those that it meets, as long as there are any. -/
def Visitor.supply : Visitor (StateM (List NodeRef)) :=
  .ofRef fun r => modifyGet fun
    | [] => (r, [])
    | x :: rest => (x, rest)

section
variable {α : Type} [HasRefs α] [LawfulRefs α]

theorem run_collect (a : α) (seen : Array NodeRef) :
    (walk Visitor.collect a).run seen = (a, seen ++ (collectRefs a).toArray) := by
  have hstop : ∀ (x : Mention) (seen : Array NodeRef),
      (Visitor.collect.stop x).run seen = (x.map id, seen ++ x.refs.toArray) := by
    intro x seen
    cases x with
    | ref r => exact congrArg (Prod.mk _) Array.push_eq_append
    | range r =>
        have hpush : seen ++ #[r.start, r.stop] = (seen.push r.start).push r.stop := rfl
        exact congrArg (Prod.mk _) hpush.symm
  have hfold : ∀ (xs : List Mention) (seen : Array NodeRef),
      xs.foldl (fun seen x => seen ++ x.refs.toArray) seen =
        seen ++ (xs.flatMap Mention.refs).toArray := by
    intro xs
    induction xs with
    | nil => simp
    | cons x xs ih => simp [ih]
  rw [run_walk hstop, mapRefs_id, hfold]
  rfl

theorem run_supply (f : NodeRef → NodeRef) (xs : List Mention) (rest : List NodeRef) :
    ((xs.map (Mention.map f)).mapM Visitor.supply.stop).run (xs.flatMap Mention.refs ++ rest) =
      (xs, rest) := by
  induction xs with
  | nil => rfl
  | cons x xs ih =>
      have hx : ∀ rest, (Visitor.supply.stop (x.map f)).run (x.refs ++ rest) = (x, rest) := by
        intro rest
        cases x <;> rfl
      rw [List.map_cons, run_mapM_cons, List.flatMap_cons, List.append_assoc, hx, ih]

/-- Whatever the references were replaced by, supplying those that were there before brings a value
back, and uses up all of them. -/
theorem walk_supply (f : NodeRef → NodeRef) (a : α) :
    (walk Visitor.supply (mapRefs f a)).run (collectRefs a) = (a, []) := by
  obtain ⟨fill, hf, ha⟩ := exists_fill_mentions a
  have hleft := hf.mapRefs_fill rfl f
  rw [ha] at hleft
  have hrun := run_supply f (mentions a) []
  rw [List.append_nil] at hrun
  rw [hleft, hf.walk_fill _ (SameForm.map f _), run_map, collectRefs, hrun, ha]

theorem eq_of_mapRefs {f : NodeRef → NodeRef} {a b : α} (hleft : mapRefs f a = mapRefs f b)
    (hrefs : collectRefs a = collectRefs b) : a = b := by
  have hsupplied := walk_supply f a
  rw [hleft, hrefs, walk_supply f b] at hsupplied
  exact (congrArg Prod.fst hsupplied).symm

theorem collectRefs_list (as : List α) : collectRefs as = as.flatMap collectRefs := by
  rw [collectRefs, mentions_list, List.flatMap_assoc]
  rfl

end

/-! References by shape. -/

mutual

/-- All references that stand in a value, in the order in which they are written. -/
def Shape.refs : {α : Type} → Shape α → α → List NodeRef
  | _, .reference, r => [r]
  | _, .optional s, a? => a?.toList.flatMap s.refs
  | _, .list s, as => as.flatMap s.refs
  | _, .array _ s, v => v.toList.flatMap s.refs
  | _, .record _ fields _ parts _, a => fields.refs (parts a)
  | _, .block entry, s => s.entries.flatMap (entry s.keyword).refs
  | _, .word, _ | _, .integer, _ | _, .single, _ | _, .flag, _ | _, .text, _ => []

def Fields.refs : {α : Type} → Fields α → α → List NodeRef
  | _, .done, _ => []
  | _, .cons _ s _ rest, (a, others) => s.refs a ++ rest.refs others

end

section
variable {α β : Type} (name : String) (s : Shape α) (rest : Fields β) (a : α) (others : β)

@[simp] theorem Fields.refs_required :
    (Fields.required name s rest).refs (a, others) = s.refs a ++ rest.refs others := rfl

@[simp] theorem Fields.refs_defaulted (value : α) :
    (Fields.defaulted name s value rest).refs (a, others) = s.refs a ++ rest.refs others := rfl

@[simp] theorem Fields.refs_options (text : String) :
    (Fields.options rest).refs (text, others) = rest.refs others := rfl

@[simp] theorem Fields.refs_absentable (a? : Option α) :
    (Fields.absentable name s rest).refs (a?, others) =
      a?.toList.flatMap s.refs ++ rest.refs others := rfl

@[simp] theorem Fields.refs_done : Fields.done.refs () = [] := rfl

@[simp] theorem Shape.refs_optional :
    (Shape.optional s).refs = fun a? => a?.toList.flatMap s.refs := rfl

@[simp] theorem Shape.refs_list : (Shape.list s).refs = fun as => as.flatMap s.refs := rfl

@[simp] theorem Shape.refs_array (n : Nat) :
    (Shape.array n s).refs = fun v => v.toList.flatMap s.refs := rfl

@[simp] theorem Shape.refs_record {name : String} {fields : Fields α} {build : α → β}
    {parts : β → α} {h : ∀ b, build (parts b) = b} :
    (Shape.record name fields build parts h).refs = fun b => fields.refs (parts b) := rfl

end

@[simp] theorem Shape.refs_reference : Shape.reference.refs = fun r => [r] := rfl

@[simp] theorem Shape.refs_single : Shape.single.refs = fun _ => [] := rfl

@[simp] theorem Shape.refs_word : Shape.word.refs = fun _ => [] := rfl

@[simp] theorem Shape.refs_integer : Shape.integer.refs = fun _ => [] := rfl

@[simp] theorem Shape.refs_flag : Shape.flag.refs = fun _ => [] := rfl

@[simp] theorem Shape.refs_text : Shape.text.refs = fun _ => [] := rfl

@[simp] theorem Shape.refs_range : range.refs = fun r => [r.start, r.stop] := rfl

/-- An entry that defines no node is walked as it is written. -/
theorem collectRefs_entry {k : Keyword} (hk : k ≠ .nodes ∧ k ≠ .nodes2) (e : Entry k) :
    collectRefs e = (Shape.entry k).refs e := by
  rw [collectRefs, mentions_entry]
  cases k with
  | nodes => exact absurd rfl hk.1
  | nodes2 => exact absurd rfl hk.2
  | cinecam =>
      simp [fieldStops, Mention.refs, Shape.entry, Shape.cinecam, Shape.position, List.flatMap_map]
  | wheels => simp [fieldStops, Mention.refs, Shape.entry, Shape.wheel, List.flatMap_map]
  | wheels2 => simp [fieldStops, Mention.refs, Shape.entry, Shape.rimmedWheel, List.flatMap_map]
  | meshwheels | meshwheels2 =>
      simp [fieldStops, Mention.refs, Shape.entry, Shape.meshWheel, List.flatMap_map]
  | flexbodywheels =>
      simp [fieldStops, Mention.refs, Shape.entry, Shape.flexbodyWheel, List.flatMap_map]
  | beams => simp [fieldStops, Mention.refs, Shape.entry, Shape.beam, List.flatMap_map]
  | shocks => simp [fieldStops, Mention.refs, Shape.entry, Shape.shock, List.flatMap_map]
  | hydros => simp [fieldStops, Mention.refs, Shape.entry, Shape.hydro, List.flatMap_map]
  | commands => simp [fieldStops, Mention.refs, Shape.entry, Shape.command, List.flatMap_map]
  | ropes => simp [fieldStops, Mention.refs, Shape.entry, Shape.rope]
  | ties => simp [fieldStops, Mention.refs, Shape.entry, Shape.tie]
  | fixes => simp [fieldStops, Mention.refs, Shape.entry]
  | hooks => simp [fieldStops, Mention.refs, Shape.entry, Shape.hook]
  | slidenodes => simp [fieldStops, Mention.refs, Shape.entry, Shape.slideNode, List.flatMap_map]
  | railgroups => simp [fieldStops, Mention.refs, Shape.entry, Shape.railGroup, List.flatMap_map]
  | flexbodies =>
      simp [fieldStops, Mention.refs, Shape.entry, Shape.flexbody, Shape.position,
        List.flatMap_map]
  | submesh =>
      simp [fieldStops, Mention.refs, Shape.entry, Shape.submesh, Shape.cabTriangle,
        List.flatMap_map, List.flatMap_assoc]
  | axles =>
      simp [fieldStops, Mention.refs, Shape.entry, Shape.axle, List.flatMap_map,
        List.flatMap_assoc]
  | cameras => simp [fieldStops, Mention.refs, Shape.entry, Shape.camera]

namespace Section

/-- All references that stand in a section, ids of definitions among them. -/
def references : Section → List NodeRef := (Shape.block Shape.entry).refs

/-- The references of a section that define no node. -/
def uses (c : Section) : List NodeRef := if c.nodes?.isSome then [] else c.references

/-- In a node section there is nothing but ids. -/
theorem references_of_nodes {c : Section} {ns : List Node} (h : c.nodes? = some ns) :
    c.references = ns.map Node.id := by
  have hnode : Shape.node.refs = fun n => [n.id] := by
    funext n
    simp [Shape.node, Shape.position]
  have hentries : c.references = ns.flatMap Shape.node.refs := by
    obtain ⟨k, es⟩ := c
    cases k with
    | nodes | nodes2 =>
        cases h
        rfl
    | _ => cases h
  rw [hentries, hnode, List.map_eq_flatMap]

theorem collectRefs_uses (c : Section) : collectRefs c = c.uses := by
  obtain ⟨k, es⟩ := c
  have hlist : collectRefs (⟨k, es⟩ : Section) = es.flatMap collectRefs := collectRefs_list es
  rw [hlist]
  by_cases hk : k ≠ .nodes ∧ k ≠ .nodes2
  · have hnone : (⟨k, es⟩ : Section).nodes?.isSome = false := by
      cases k <;> first | rfl | simp at hk
    rw [uses, hnone]
    exact List.flatMap_congr fun e _ => collectRefs_entry hk e
  · obtain rfl | rfl : k = .nodes ∨ k = .nodes2 := by
      by_contra hne
      exact hk (not_or.mp hne)
    all_goals exact List.flatMap_eq_nil_iff.mpr fun e _ => rfl

theorem nodes?_mapRefs (f : NodeRef → NodeRef) (c : Section) : (mapRefs f c).nodes? = c.nodes? := by
  obtain ⟨k, es⟩ := c
  rw [mapRefs_section]
  cases k with
  | nodes | nodes2 => exact congrArg some (List.map_id es)
  | _ => rfl

end Section

/-- The walk over values of a shape. All that is written there stands in sections; the walk meets
it once and in order, ids of definitions aside, and a replacement is a replacement in place. -/
structure Traverses {α : Type} [HasRefs α] (shape : Shape α) (sections : α → List Section) :
    Prop where
  reaches (a : α) : shape.refs a = (sections a).flatMap Section.references ∧
    ∀ c ∈ sections a, ∀ ns, c.nodes? = some ns → c.references = ns.map Node.id
  collects (a : α) : (walk Visitor.collect a).run #[] = (a, (collectRefs a).toArray) ∧
    collectRefs a = (sections a).flatMap Section.uses
  replaces (f : NodeRef → NodeRef) (a : α) : collectRefs (mapRefs f a) = (collectRefs a).map f
  defines (f : NodeRef → NodeRef) (a : α) :
    (sections (mapRefs f a)).map Section.nodes? = (sections a).map Section.nodes?
  composes (f g : NodeRef → NodeRef) (a : α) : mapRefs g (mapRefs f a) = mapRefs (g ∘ f) a
  keeps (a : α) : mapRefs id a = a
  overwrites (x : NodeRef) (a : α) : ∀ c ∈ sections (mapRefs (fun _ => x) a), c.nodes? = none →
    ∀ r ∈ c.references, r = x
  determines (x : NodeRef) {a b : α} (hleft : mapRefs (fun _ => x) a = mapRefs (fun _ => x) b)
    (hrefs : collectRefs a = collectRefs b) : a = b

/-- What is a traversal of the sections is one of the whole. -/
theorem Traverses.ofSections {α : Type} [HasRefs α] [LawfulRefs α] {shape : Shape α}
    {sections : α → List Section}
    (hshape : ∀ a, shape.refs a = (sections a).flatMap Section.references)
    (hcollect : ∀ a, collectRefs a = (sections a).flatMap collectRefs)
    (hreplace : ∀ f a, sections (mapRefs f a) = (sections a).map (mapRefs f)) :
    Traverses shape sections := by
  have huses : ∀ a, collectRefs a = (sections a).flatMap Section.uses := by
    intro a
    rw [hcollect]
    exact List.flatMap_congr fun c _ => c.collectRefs_uses
  refine ⟨?reaches, ?collects, collectRefs_mapRefs, ?defines, mapRefs_mapRefs, mapRefs_id,
    ?overwrites, fun x {a b} => eq_of_mapRefs⟩
  case reaches => exact fun a => ⟨hshape a, fun c _ ns hc => Section.references_of_nodes hc⟩
  case collects =>
    intro a
    refine ⟨?_, huses a⟩
    rw [run_collect, Array.empty_append]
  case defines =>
    intro f a
    rw [hreplace, List.map_map]
    exact List.map_congr_left fun c _ => c.nodes?_mapRefs f
  case overwrites =>
    intro x a c hc hnone r hr
    have hcollected : r ∈ collectRefs (mapRefs (fun _ => x) a) := by
      rw [huses]
      refine List.mem_flatMap.mpr ⟨c, hc, ?_⟩
      rwa [Section.uses, hnone]
    rw [collectRefs_mapRefs] at hcollected
    obtain ⟨_, -, rfl⟩ := List.mem_map.mp hcollected
    rfl

theorem Section.traverses : Traverses (.block Shape.entry) fun c => [c] :=
  .ofSections (fun c => (List.flatMap_singleton Section.references c).symm)
    (fun c => (List.flatMap_singleton collectRefs c).symm) fun _ _ => rfl

theorem Module.traverses : Traverses Shape.module Module.sections := by
  refine .ofSections ?_ (fun m => collectRefs_list m.sections) ?_
  · intro m
    simp [Shape.module, Section.references]
  · intro f m
    rw [mapRefs_module]

theorem Document.traverses :
    Traverses Shape.document fun d => d.modules.flatMap Module.sections := by
  refine .ofSections ?_ ?_ ?_
  · intro d
    have hmodules : Shape.document.refs d = d.modules.flatMap Shape.module.refs := by
      simp [Shape.document]
    rw [hmodules, List.flatMap_assoc]
    exact List.flatMap_congr fun m _ => (Module.traverses.reaches m).1
  · intro d
    have hmodules : collectRefs d = d.modules.flatMap collectRefs := collectRefs_list d.modules
    rw [hmodules, List.flatMap_assoc]
    exact List.flatMap_congr fun m _ => collectRefs_list m.sections
  · intro f d
    have hmodules : (mapRefs f d).modules = d.modules.map (mapRefs f) := mapRefs_list f d.modules
    rw [hmodules, List.flatMap_map, List.map_flatMap]
    apply List.flatMap_congr
    intro m hm
    rw [mapRefs_module]

/-- Documents, modules and sections are traversed alike. -/
theorem walk_traverses :
    Traverses Shape.document (fun d => d.modules.flatMap Module.sections) ∧
      Traverses Shape.module Module.sections ∧ Traverses (.block Shape.entry) fun c => [c] :=
  ⟨Document.traverses, Module.traverses, Section.traverses⟩

end RigNodes
