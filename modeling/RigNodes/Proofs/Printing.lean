import RigNodes.CommandLine
import RigNodes.Proofs.Json.Documents
import RigNodes.Proofs.Process
import RigNodes.Proofs.Walk.Fields
import RigNodes.Proofs.Yaml.Ends

/-! Printed documents. The text of a document is printed without the white space at its end and with
a line end. In JSON this is harmless. In YAML it is exactly if the scalar of a text that the document
ends with has no white space at its end but one line end. -/
namespace RigNodes

/-! White space at the end of a text. -/

theorem EndsVisible.dropBlankEnd_append {cs : List Char} (h : EndsVisible cs) (blanks : List Char)
    (hblanks : ∀ c ∈ blanks, Text.isBlank c = true) :
    Text.dropBlankEnd (cs ++ blanks) = cs := by
  obtain ⟨r, c, rfl, hc⟩ := h
  have hreverse : ∀ c ∈ blanks.reverse, Text.isBlank c = true := by
    simpa using hblanks
  rw [Text.dropBlankEnd, List.reverse_append, List.dropWhile_append_of_pos hreverse,
    List.reverse_append, List.reverse_singleton, List.singleton_append,
    List.dropWhile_cons_of_neg (by simp [hc]), List.reverse_cons, List.reverse_reverse]

theorem dropBlankEnd_endsVisible {cs : List Char} (h : Text.dropBlankEnd cs ≠ []) :
    EndsVisible (Text.dropBlankEnd cs) := by
  have hhead := List.head?_dropWhile_not Text.isBlank cs.reverse
  rw [EndsVisible.iff_getLast?, Text.dropBlankEnd, List.getLast?_reverse]
  cases hc : (cs.reverse.dropWhile Text.isBlank).head? with
  | none =>
      rw [List.head?_eq_none_iff] at hc
      exact absurd (congrArg List.reverse hc) h
  | some c =>
      rw [hc] at hhead
      exact ⟨c, rfl, hhead⟩

namespace CommandLine

theorem printed_visible {cs : List Char} (h : EndsVisible cs) :
    printed (String.ofList cs) = String.ofList (cs ++ ['\n']) := by
  have hdrop := h.dropBlankEnd_append [] (by simp)
  rw [List.append_nil] at hdrop
  rw [printed, Text.trimEnd, String.toList_ofList, hdrop, String.ofList_append]

theorem printed_clean {cs : List Char} (h : EndsClean cs) :
    printed (String.ofList cs) = String.ofList cs := by
  obtain ⟨r, rfl, hr⟩ := h
  have hblank : ∀ c ∈ ['\n'], Text.isBlank c = true := fun c hc => by
    rw [List.mem_singleton.mp hc]
    rfl
  rw [printed, Text.trimEnd, String.toList_ofList, hr.dropBlankEnd_append ['\n'] hblank,
    String.ofList_append]

/-- Other text is changed. Of a single line end nothing is left but the one that is added. -/
theorem printed_eq_iff {cs : List Char} (hlength : 2 ≤ cs.length) :
    printed (String.ofList cs) = String.ofList cs ↔ EndsClean cs := by
  refine ⟨fun h => ?_, printed_clean⟩
  have hline : Text.dropBlankEnd cs ++ ['\n'] = cs := by
    rw [printed, Text.trimEnd, String.toList_ofList] at h
    simpa using congrArg String.toList h
  have hne : Text.dropBlankEnd cs ≠ [] := by
    intro hnil
    rw [← hline, hnil] at hlength
    simp at hlength
  rw [← hline]
  exact (dropBlankEnd_endsVisible hne).line

end CommandLine

theorem Json.bracketed_endsVisible (left : Char) {right : Char} (level : Nat)
    (texts : List (List Char)) (h : Text.isBlank right = false) :
    EndsVisible (bracketed left right level texts) := by
  cases texts with
  | nil => exact ⟨[left], right, rfl, h⟩
  | cons text texts => exact EndsVisible.cons ⟨_, right, rfl, h⟩ left

namespace Document

/-- A document ends with a text only if its last field is one. -/
def EndsFirm (d : Document) : Prop := ∀ s ∈ d.datum.lastText?, Yaml.Firm s

theorem print_endsVisible (d : Document) : EndsVisible (Json.print 0 d.datum) :=
  Json.bracketed_endsVisible '{' 0 _ rfl

theorem ofText_printed_json {d : Document} (hread : ∀ x ∈ d.singles, x.isFinite ∧ x.Rereads) :
    Document.ofText .json (CommandLine.printed (d.toText .json)) = .ok d := by
  have hprinted := CommandLine.printed_visible d.print_endsVisible
  have hdocument := Json.document_print (fun x hx _ => (hread x hx).2)
    (Json.delimits_cons (c := '\n') [] (by decide)) rfl
  have hfinite : d.singles.all Single.isFinite = true :=
    List.all_eq_true.mpr fun x hx => (hread x hx).1
  rw [toText, Json.text, ofText, hprinted, hdocument, Json.checked, hfinite]
  rfl

/-- Printing leaves the YAML text of a document as it is exactly if the scalar at its end is firm. -/
theorem printed_yaml_iff (d : Document) :
    CommandLine.printed (d.toText .yaml) = d.toText .yaml ↔ d.EndsFirm := by
  have hne : [("name", Datum.text d.name),
      ("modules", .list (d.modules.map Shape.module.encode))] ≠ [] := List.cons_ne_nil _ _
  exact (CommandLine.printed_eq_iff (Yaml.two_le_length_printFields 0 [] hne)).trans
    (Yaml.printFields_endsClean_iff 0 [] _ hne)

end Document

/-! Processing replaces references and leaves every other field as it is. -/

theorem Entry.singles_settled (f : NodeRef → NodeRef) (span : Option Span) (k : Keyword)
    (e : Entry k) : Entry.singles k (settledEntry f span k e) = Entry.singles k e := by
  have hmap : Entry.singles k (mapRefs f e) = Entry.singles k e := by
    rw [mapRefs_entry]
    cases k <;> rfl
  cases k with
  | nodes | nodes2 => rfl
  | _ => exact hmap

theorem Section.singles_settled (f : NodeRef → NodeRef) (spans : List (Option Span)) (c : Section) :
    (c.settled f spans).singles = c.singles := by
  rw [singles, settled, List.mapIdx_eq_zipIdx_map, List.flatMap_map]
  simp only [Entry.singles_settled]
  exact flatMap_zipIdx c.entries (Entry.singles c.keyword)

theorem Module.singles_resolve (m : Module) (legacy : Bool) :
    (m.resolve legacy).module.singles = m.singles := by
  rw [singles, resolve_sections, List.flatMap_map]
  simp only [Section.singles_settled]
  exact flatMap_zipIdx m.sections Section.singles

theorem Resolver.process_singles (r : Resolver) (d : Document) :
    (r.process d).2.singles = d.singles := by
  cases h : r.options.enabled with
  | false => simp [process, h]
  | true =>
      rw [process_document h, Document.singles, List.flatMap_map]
      exact List.flatMap_congr fun m _ => m.singles_resolve r.options.legacy

end RigNodes
