import RigNodes.Document.File
import RigNodes.Proofs.Json.Decode

/-! Documents handed on as JSON text. -/
namespace RigNodes

/-- The floating values of an entry, in the order of its fields. -/
def Entry.singles : (k : Keyword) → Entry k → List Single
  | .nodes, e => e.position.toList
  | .nodes2, e => e.position.toList
  | .cinecam, e => e.position.toList ++ [e.spring, e.damping]
  | .wheels, e => [e.radius, e.width, e.mass]
  | .wheels2, e => [e.rimRadius, e.tyreRadius, e.width, e.mass]
  | .meshwheels, e => [e.tyreRadius, e.rimRadius, e.width, e.mass]
  | .meshwheels2, e => [e.tyreRadius, e.rimRadius, e.width, e.mass]
  | .flexbodywheels, e => [e.rimRadius, e.tyreRadius, e.width, e.mass]
  | .shocks, e => [e.spring, e.damping, e.shortBound, e.longBound, e.precompression]
  | .hydros, e => [e.lengtheningFactor]
  | .commands, e => [e.shortenRate, e.lengthenRate, e.maxContraction, e.maxExtension]
  | .ties, e => [e.maxReachLength, e.autoShortenRate]
  | .hooks, e => [e.range]
  | .flexbodies, e => e.offset.toList
  | .beams, _ | .ropes, _ | .fixes, _ | .slidenodes, _ | .railgroups, _ | .submesh, _ | .axles, _
  | .cameras, _ => []

def Section.singles (s : Section) : List Single := s.entries.flatMap (Entry.singles s.keyword)

def Module.singles (m : Module) : List Single := m.sections.flatMap Section.singles

def Document.singles (d : Document) : List Single := d.modules.flatMap Module.singles

/-- The floating values in what is written by a shape. -/
def Shape.singles {α : Type} (s : Shape α) (a : α) : List Single := (s.encode a).singles

def Fields.singles {α : Type} (fs : Fields α) (a : α) : List Single :=
  Datum.fieldSingles (fs.encode a)

section

variable {α β : Type} (name : String) (s : Shape α) (rest : Fields β) (a : α) (others : β)

theorem Fields.singles_cons (presence : Presence α) :
    (Fields.cons name s presence rest).singles (a, others) =
      (if presence.isWritten a then s.singles a else []) ++ rest.singles others := by
  cases h : presence.isWritten a with
  | false => simp [singles, Fields.encode, h]
  | true => simp [singles, Shape.singles, Fields.encode, h, Datum.fieldSingles]

@[simp] theorem Fields.singles_required :
    (Fields.required name s rest).singles (a, others) = s.singles a ++ rest.singles others :=
  singles_cons name s rest a others .required

@[simp] theorem Fields.singles_defaulted (value : α) :
    (Fields.defaulted name s value rest).singles (a, others) =
      s.singles a ++ rest.singles others :=
  singles_cons name s rest a others (.defaulted value)

@[simp] theorem Fields.singles_options (text : String) :
    (Fields.options rest).singles (text, others) = rest.singles others := by
  rw [options, singles_cons]
  split <;> rfl

@[simp] theorem Fields.singles_absentable (a? : Option α) :
    (Fields.absentable name s rest).singles (a?, others) =
      a?.toList.flatMap s.singles ++ rest.singles others := by
  rw [absentable, singles_cons]
  cases a? <;> simp [Presence.isWritten, Shape.singles, Shape.encode]

@[simp] theorem Fields.singles_done : Fields.done.singles () = [] := rfl

@[simp] theorem Shape.singles_list (as : List α) :
    (Shape.list s).singles as = as.flatMap s.singles := by
  rw [singles, Shape.encode, Datum.singles, Json.itemSingles_eq, List.flatMap_map]
  rfl

@[simp] theorem Shape.singles_array {n : Nat} (v : Vector α n) :
    (Shape.array n s).singles v = v.toList.flatMap s.singles := by
  rw [singles, Shape.encode, Datum.singles, Json.itemSingles_eq, List.flatMap_map]
  rfl

end

@[simp] theorem Shape.singles_reference : Shape.reference.singles = fun _ => [] :=
  funext Json.singles_datum

@[simp] theorem Shape.singles_single : Shape.single.singles = fun x => [x] := rfl

@[simp] theorem Shape.singles_word : Shape.word.singles = fun _ => [] := rfl

@[simp] theorem Shape.singles_flag : Shape.flag.singles = fun _ => [] := rfl

@[simp] theorem Shape.singles_text : Shape.text.singles = fun _ => [] := rfl

@[simp] theorem Shape.singles_optional_integer :
    (Shape.optional Shape.integer).singles = fun _ => [] := by
  funext a?
  cases a? <;> rfl

@[simp] theorem Shape.singles_record {α β : Type} (name : String) (fields : Fields α)
    (build : α → β) (parts : β → α) (h : ∀ b, build (parts b) = b) :
    (Shape.record name fields build parts h).singles = fun b => fields.singles (parts b) := rfl

@[simp] theorem Shape.singles_range : range.singles = fun _ => [] := by
  simp [range]

theorem flatMap_none {α : Type} (as : List α) : as.flatMap (fun _ => ([] : List Single)) = [] := by
  rw [List.flatMap_eq_nil_iff]
  exact fun _ _ => rfl

theorem Shape.singles_entry (k : Keyword) (e : Entry k) :
    (Shape.entry k).singles e = Entry.singles k e := by
  cases k with
  | nodes => simp [entry, node, position, Entry.singles]
  | nodes2 => simp [entry, node, position, Entry.singles]
  | cinecam => simp [entry, cinecam, position, Entry.singles]
  | wheels => simp [entry, wheel, Entry.singles, flatMap_none]
  | wheels2 => simp [entry, rimmedWheel, Entry.singles, flatMap_none]
  | meshwheels => simp [entry, meshWheel, Entry.singles, flatMap_none]
  | meshwheels2 => simp [entry, meshWheel, Entry.singles, flatMap_none]
  | flexbodywheels => simp [entry, flexbodyWheel, Entry.singles, flatMap_none]
  | beams => simp [entry, beam, Entry.singles]
  | shocks => simp [entry, shock, Entry.singles]
  | hydros => simp [entry, hydro, Entry.singles]
  | commands => simp [entry, command, Entry.singles]
  | ropes => simp [entry, rope, Entry.singles]
  | ties => simp [entry, tie, Entry.singles]
  | fixes => simp [entry, Entry.singles]
  | hooks => simp [entry, hook, Entry.singles]
  | slidenodes => simp [entry, slideNode, Entry.singles]
  | railgroups => simp [entry, railGroup, Entry.singles]
  | flexbodies => simp [entry, flexbody, position, Entry.singles]
  | submesh => simp [entry, submesh, cabTriangle, Entry.singles]
  | axles => simp [entry, axle, Entry.singles]
  | cameras => simp [entry, camera, Entry.singles]

theorem Section.singles_block (s : Section) : (Shape.block Shape.entry).singles s = s.singles := by
  have hencode : (Shape.block Shape.entry).singles s =
      (Shape.list (Shape.entry s.keyword)).singles s.entries ++ [] := rfl
  rw [hencode, List.append_nil, Shape.singles_list]
  exact List.flatMap_congr fun e _ => Shape.singles_entry s.keyword e

theorem Document.singles_datum (d : Document) : d.datum.singles = d.singles := by
  have hmodule : Shape.module.singles = Module.singles := by
    funext m
    simp [Shape.module, Module.singles, funext Section.singles_block]
  have hdocument : d.datum.singles = Shape.document.singles d := rfl
  simp [hdocument, Shape.document, hmodule, Document.singles]

/-! Every part of a document can be told from what is written for it. -/

section

variable {α β : Type} (name : String) (s : Shape α) (rest : Fields β)

@[simp] theorem Fields.sound_required :
    (required name s rest).Sound ↔ name ∉ rest.names ∧ s.Sound ∧ rest.Sound := Iff.rfl

@[simp] theorem Fields.sound_defaulted (a : α) :
    (defaulted name s a rest).Sound ↔ name ∉ rest.names ∧ s.Sound ∧ rest.Sound := Iff.rfl

@[simp] theorem Fields.sound_options :
    (options rest).Sound ↔ "options" ∉ rest.names ∧ rest.Sound :=
  and_congr_right fun _ => iff_of_eq (true_and _)

@[simp] theorem Fields.sound_absentable :
    (absentable name s rest).Sound ↔
      name ∉ rest.names ∧ (Shape.optional s).Sound ∧ rest.Sound := Iff.rfl

@[simp] theorem Fields.sound_done : Fields.done.Sound := trivial

@[simp] theorem Fields.names_required : (required name s rest).names = name :: rest.names := rfl

@[simp] theorem Fields.names_defaulted (a : α) :
    (defaulted name s a rest).names = name :: rest.names := rfl

@[simp] theorem Fields.names_options : (options rest).names = "options" :: rest.names := rfl

@[simp] theorem Fields.names_absentable : (absentable name s rest).names = name :: rest.names := rfl

@[simp] theorem Fields.names_done : Fields.done.names = [] := rfl

end

theorem Shape.sound_entry (k : Keyword) : (Shape.entry k).Sound := by
  cases k <;> simp [entry, Sound, Solid, position, range, node, cinecam, wheel, rimmedWheel,
    meshWheel, flexbodyWheel, beam, shock, hydro, command, rope, tie, hook, slideNode, railGroup,
    flexbody, cabTriangle, submesh, axle, camera]

theorem Shape.sound_document : Shape.document.Sound := by
  simp [document, module, Sound, sound_entry]

/-- The text of a document is read as the document, also where white space follows it. -/
theorem Json.document_print {d : Document} (hread : ∀ x ∈ d.singles, x.isFinite → x.Rereads)
    {rest : List Char} (hrest : Delimits rest) (hspace : skipSpace rest = []) :
    Json.document (String.ofList (print 0 d.datum ++ rest)) = checked d.singles d := by
  rw [← d.singles_datum] at hread ⊢
  rw [Json.document, ofText_text hread hrest hspace]
  change (decode .streamed Shape.document d.datum.tree >>= fun d => pure d) = _
  rw [bind_pure]
  exact decode_encode Shape.document Shape.sound_document d hread

theorem Document.ofText_toText_json {d : Document}
    (hread : ∀ x ∈ d.singles, x.isFinite → x.Rereads) :
    Document.ofText .json (d.toText .json) =
      (Json.checked d.singles d).mapError LoadError.json := by
  have h := Json.document_print hread Json.delimits_nil rfl
  rw [List.append_nil] at h
  rw [toText, Json.text, ofText, h]

/-- A document is read back from its JSON text just if all its floating values are finite. An
infinite one is written as null, and null is no floating value to the reader. -/
theorem Document.json_hand_off (d : Document)
    (hread : ∀ x ∈ d.singles, x.isFinite → x.Rereads) :
    (Document.ofText .json (d.toText .json) = .ok d ↔ ∀ x ∈ d.singles, x.isFinite) ∧
      ((∃ x ∈ d.singles, x.isFinite = false) →
        Document.ofText .json (d.toText .json) =
          .error (.json (.data (.wrongType .null "f32")))) := by
  rw [ofText_toText_json hread, Json.checked]
  cases hall : d.singles.all Single.isFinite with
  | true =>
      have hfinite := List.all_eq_true.mp hall
      refine ⟨iff_of_true rfl hfinite, ?_⟩
      rintro ⟨x, hx, hx'⟩
      rw [hfinite x hx] at hx'
      cases hx'
  | false =>
      have hinfinite : ¬ ∀ x ∈ d.singles, x.isFinite := by
        rw [← List.all_eq_true, hall]
        exact Bool.false_ne_true
      refine ⟨iff_of_false ?_ hinfinite, fun _ => rfl⟩
      intro h
      cases h

/-- One hydro between a named node and the first slot. -/
def Document.stretched (factor : Single) : Document :=
  .withRoot "t" [⟨.hydros, [⟨#v[.name "a", .slot ⟨0⟩], factor, ""⟩]⟩]

theorem Document.json_hand_off_stretched :
    (∀ x ∈ (Document.stretched (Shape.tenths 4)).singles, x.isFinite → x.Rereads) ∧
      Document.ofText .json ((Document.stretched (Shape.tenths 4)).toText .json) =
        .ok (Document.stretched (Shape.tenths 4)) ∧
      Document.ofText .json ((Document.stretched ⟨0x7f800000⟩).toText .json) =
        .error (.json (.data (.wrongType .null "f32"))) := by
  have hfour : ∀ x ∈ (Document.stretched (Shape.tenths 4)).singles, x.isFinite ∧ x.Rereads := by
    intro x hx
    obtain rfl := List.mem_singleton.mp hx
    exact ⟨by decide +kernel, "0.4", _, by decide +kernel, rfl, by decide +kernel⟩
  have hinfinite : ∀ x ∈ (Document.stretched ⟨0x7f800000⟩).singles, x.isFinite = false := by
    intro x hx
    obtain rfl := List.mem_singleton.mp hx
    decide
  refine ⟨fun x hx _ => (hfour x hx).2, ?_, ?_⟩
  · exact (json_hand_off _ fun x hx _ => (hfour x hx).2).1.mpr fun x hx => (hfour x hx).1
  · refine (json_hand_off _ fun x hx hfinite => ?_).2 ⟨_, List.mem_singleton.mpr rfl, by decide⟩
    rw [hinfinite x hx] at hfinite
    cases hfinite

end RigNodes
