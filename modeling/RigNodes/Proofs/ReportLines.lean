import RigNodes.Proofs.Quotation
import RigNodes.Proofs.TextDump

/-! The lines of reports and dumps. Messages and nodes are written one to a line, but names stand
in them as they are, and no name is kept from having line feeds. So line feeds are counted: a line
has those of the names in it and no other. Whether a report or a dump falls into its lines then
hangs on the names that stand in it, and a name can be made so that one message reads like two. -/
namespace RigNodes

namespace Text

/-- How many line feeds a text has. -/
def breaks (t : String) : Nat := t.toList.count '\n'

/-- A text that falls into lines: one after the other, each with a line feed behind it and none in
it. -/
structure Lines (t : String) (ls : List String) : Prop where
  joined : t = String.join (ls.map fun l => l ++ "\n")
  whole : ∀ l ∈ ls, breaks l = 0

@[simp] theorem breaks_append (a b : String) : breaks (a ++ b) = breaks a + breaks b := by
  simp [breaks]

theorem breaks_plain {t : String} (h : '\n' ∉ t.toList) : breaks t = 0 :=
  List.count_eq_zero.mpr h

@[simp] theorem breaks_repr (n : Nat) : breaks n.repr = 0 := by
  apply breaks_plain
  rw [Nat.toList_repr]
  exact not_mem_toDigits (by decide) n

theorem breaks_join (ls : List String) :
    breaks (String.join (ls.map fun l => l ++ "\n")) = (ls.map fun l => breaks l + 1).sum := by
  have hend : breaks "\n" = 1 := by decide
  induction ls with
  | nil => rfl
  | cons l ls ih =>
      rw [List.map_cons, String.join_cons, breaks_append, breaks_append, hend, ih, List.map_cons,
        List.sum_cons]

/-- There is one line for each line feed. -/
theorem Lines.length_eq {t : String} {ls : List String} (h : Lines t ls) :
    ls.length = breaks t := by
  have hone : (ls.map fun l => breaks l + 1) = ls.map fun _ => 1 :=
    List.map_congr_left fun l hl => by rw [h.whole l hl]
  rw [h.joined, breaks_join, hone]
  simp

theorem lines_join_iff {ls : List String} :
    Lines (String.join (ls.map fun l => l ++ "\n")) ls ↔ ∀ l ∈ ls, breaks l = 0 :=
  ⟨Lines.whole, fun h => ⟨rfl, h⟩⟩

theorem sum_breaks_eq_zero {xs : List String} :
    (xs.map breaks).sum = 0 ↔ ∀ x ∈ xs, breaks x = 0 := by
  simp [List.sum_eq_zero_iff]

end Text

open Text (breaks breaks_append breaks_plain breaks_repr Lines)

/-! Texts of messages. -/

theorem Severity.breaks_text (s : Severity) : breaks s.text = 0 := by
  cases s <;> decide

theorem Keyword.breaks_text (k : Keyword) : breaks k.text = 0 := by
  cases k <;> decide

theorem Kind.breaks_shown (k : Kind) : breaks k.shown = 0 := by
  cases k <;> decide

theorem Slot.breaks_shown (s : Slot) : breaks s.shown = 0 := by
  simp [Slot.shown, breaks_plain]

theorem NodeRef.breaks_shown (r : NodeRef) : breaks r.shown = (r.names.map breaks).sum := by
  cases r with
  | number n => exact breaks_repr n.toNat
  | name x =>
      have hquote : breaks "\"" = 0 := by decide
      simp [shown, names, hquote]
  | slot s => exact s.breaks_shown
  | unresolved => decide

theorem NodeRange.breaks_shown (r : NodeRange) : breaks r.shown = (r.names.map breaks).sum := by
  have hdash : breaks "-" = 0 := by decide
  simp [shown, names, hdash, NodeRef.breaks_shown]

theorem Notice.breaks_position (p : Nat) : breaks (position p) = 0 := by
  simp [position, breaks_plain]

/-- A text has the line feeds of the names that it quotes and no others. -/
theorem Notice.breaks_text (n : Notice) : breaks n.text = (n.quoted.map breaks).sum := by
  have hstring : ∀ t : String, breaks (toString t) = breaks t := fun _ => rfl
  cases n <;> unfold text <;>
    simp (disch := decide) [hstring, quoted, breaks_plain, breaks_position, Kind.breaks_shown,
      Slot.breaks_shown, NodeRef.breaks_shown, NodeRange.breaks_shown]

theorem Message.breaks_place (m : Message) : breaks m.place = breaks m.moduleName := by
  have hcolon : breaks ": " = 0 := by decide
  have hslash : breaks "/" = 0 := by decide
  have hnone : m.moduleName.isEmpty = true → breaks m.moduleName = 0 := by
    intro h
    rw [String.isEmpty_iff.mp h]
    rfl
  unfold place
  split
  case h_1 => simp [hcolon, hslash, Keyword.breaks_text]
  case h_2 => simp [hcolon]
  case h_3 hempty _ => simp [hcolon, Keyword.breaks_text, hnone hempty]
  case h_4 hempty _ => exact (hnone hempty).symm

theorem Message.breaks_shown (m : Message) :
    breaks m.shown = breaks m.moduleName + breaks m.text := by
  have hcolon : breaks ": " = 0 := by decide
  simp [shown, Severity.breaks_text, hcolon, breaks_place]

theorem Finding.breaks_message (name : String) (f : Finding) :
    breaks (f.message name).shown = breaks name + (f.notice.quoted.map breaks).sum := by
  rw [Message.breaks_shown, ← Notice.breaks_text]
  rfl

theorem Diagnostics.report_eq (d : Diagnostics) :
    d.report = String.join ((d.messages.toList.map Message.shown).map fun l => l ++ "\n") := by
  rw [report, List.map_map]
  rfl

/-! Lines of a dump. -/

/-- The name in the line of a node, if its id is one. -/
def TableEntry.names (e : TableEntry) : List String := e.userId.toList.flatMap NodeRef.names

theorem TableEntry.breaks_line {e : TableEntry} (h : e.Regular) (p : Nat) :
    breaks (e.line p) = (e.names.map breaks).sum := by
  have hsaid : e.said.count '\n' = (e.names.map breaks).sum := by
    cases hid : e.userId with
    | none =>
        have hnames : e.names = [] := by simp [names, hid]
        rw [hnames, List.count_eq_zero.mpr (newline_not_mem_said e hid)]
        rfl
    | some r =>
        have hnames : e.names = r.names := by simp [names, hid]
        have hcolumn : e.origin.column.count '\n' = 0 :=
          List.count_eq_zero.mpr e.origin.newline_not_mem.1
        have hline : e.said = e.origin.column ++ ' ' :: r.shown.toList := by simp [said, hid]
        rw [hnames, ← r.breaks_shown, hline, List.count_append, hcolumn, Nat.zero_add,
          List.count_cons_of_ne (by decide)]
        rfl
  rw [breaks, line_eq h, List.count_append, List.count_eq_zero.mpr (newline_not_mem_lead p),
    Nat.zero_add, hsaid]

theorem ModuleTable.breaks_heading (t : ModuleTable) : breaks t.heading = breaks t.name := by
  have hheading : t.heading =
      "module " ++ t.name ++ " (" ++ toString t.table.size ++ " nodes)" := rfl
  rw [hheading]
  simp (disch := decide) [breaks_plain]

/-- The line feeds in the lines of a table, line by line. -/
theorem ModuleTable.breaks_lines {t : ModuleTable} (h : t.Regular) : t.lines.map breaks =
    breaks t.name :: t.table.entries.toList.map fun e => (e.names.map breaks).sum := by
  have hrows : (t.table.entries.toList.zipIdx.map fun x => x.1.line x.2).map breaks =
      (t.table.entries.toList.zipIdx.map Prod.fst).map fun e => (e.names.map breaks).sum := by
    rw [List.map_map, List.map_map]
    apply List.map_congr_left
    intro x hx
    rw [Function.comp_apply, Function.comp_apply]
    exact TableEntry.breaks_line (h x.1 (List.fst_mem_of_mem_zipIdx hx)) x.2
  rw [List.zipIdx_map_fst] at hrows
  have hlines : t.lines =
      t.heading :: t.table.entries.toList.zipIdx.map fun x => x.1.line x.2 := rfl
  rw [hlines, List.map_cons, hrows, t.breaks_heading]

/-! What a module contributes. -/
namespace Module
variable (m : Module)

/-- Each message about a module is a line of its own. The name of the module does not matter if
there is no message. -/
structure SaidInLines (legacy : Bool) : Prop where
  name (h : m.said legacy ≠ []) : breaks m.name = 0
  quoted {x : String} (h : m.Quotes legacy x) : breaks x = 0

/-- The heading and each node of a module are lines of their own. -/
structure DumpedInLines : Prop where
  name : breaks m.name = 0
  ids {x : String} (h : .name x ∈ m.nodeIds) : breaks x = 0

/-- No name in a module has a line feed. -/
structure PlainlyNamed : Prop extends m.DumpedInLines where
  refs {x : String} (h : .name x ∈ m.fieldRefs) : breaks x = 0

/-- The line feeds that messages about a module bring into a report. -/
def reportBreaks (legacy : Bool) : Nat :=
  ((m.said legacy).map fun f => breaks m.name + (f.notice.quoted.map breaks).sum + 1).sum

/-- The line feeds that the table of a module brings into a dump. -/
def dumpBreaks : Nat :=
  breaks m.name + 1 + (m.tableRows.map fun e => (e.names.map breaks).sum + 1).sum

variable {m}

theorem saidInLines_iff {legacy : Bool} :
    m.SaidInLines legacy ↔ ∀ f ∈ m.said legacy, breaks (f.message m.name).shown = 0 := by
  have hmessage : ∀ f : Finding, breaks (f.message m.name).shown = 0 ↔
      breaks m.name = 0 ∧ ∀ x ∈ f.notice.quoted, breaks x = 0 := by
    intro f
    rw [f.breaks_message, Nat.add_eq_zero_iff, Text.sum_breaks_eq_zero]
  simp only [hmessage]
  constructor
  · intro h f hf
    refine ⟨h.name (List.ne_nil_of_mem hf), fun x hx => ?_⟩
    exact h.quoted ((quotes_iff legacy).mpr ⟨f, hf, hx⟩)
  · intro h
    refine ⟨fun hsaid => ?_, fun hx => ?_⟩
    · obtain ⟨f, hf⟩ := List.exists_mem_of_ne_nil _ hsaid
      exact (h f hf).1
    · obtain ⟨f, hf, hx⟩ := (quotes_iff legacy).mp hx
      exact (h f hf).2 _ hx

/-- The names in a table are the names that are defined. -/
theorem mem_names_tableRows {x : String} :
    (∃ e ∈ m.tableRows, x ∈ e.names) ↔ .name x ∈ m.nodeIds := by
  have hnames : ∀ e : TableEntry, x ∈ e.names ↔ e.userId = some (.name x) := by
    intro e
    cases hid : e.userId <;> simp [TableEntry.names, hid, NodeRef.mem_names]
  have hfind : (NodeTable.ofRows m.tableRows).find? (.name x) = m.table.findName? x := rfl
  simp only [hnames]
  constructor
  · rintro ⟨e, he, hid⟩
    by_contra hx
    have hsome := NodeTable.ofRows_find?_isSome rfl he hid
    rw [hfind, findName?_eq_none.mpr hx] at hsome
    cases hsome
  · intro hx
    obtain ⟨p, hp⟩ : ∃ p, m.table.findName? x = some p := by
      rw [← Option.ne_none_iff_exists', Ne, findName?_eq_none]
      exact not_not_intro hx
    obtain ⟨e, he, hid⟩ := NodeTable.ofRows_getElem?_of_find? rfl (hfind.trans hp)
    exact ⟨e, List.mem_of_getElem? he, hid⟩

theorem breaks_lines (m : Module) : (⟨m.name, m.table⟩ : ModuleTable).lines.map breaks =
    breaks m.name :: m.tableRows.map fun e => (e.names.map breaks).sum := by
  rw [← m.entries_table]
  exact ModuleTable.breaks_lines fun e he => m.tableRows_regular e (m.entries_table ▸ he)

theorem dumpedInLines_iff :
    m.DumpedInLines ↔ ∀ l ∈ (⟨m.name, m.table⟩ : ModuleTable).lines, breaks l = 0 := by
  have hlines : (∀ l ∈ (⟨m.name, m.table⟩ : ModuleTable).lines, breaks l = 0) ↔
      breaks m.name = 0 ∧ ∀ e ∈ m.tableRows, ∀ x ∈ e.names, breaks x = 0 := by
    rw [← List.forall_mem_map (f := breaks) (P := fun n => n = 0), breaks_lines,
      List.forall_mem_cons, List.forall_mem_map]
    simp only [Text.sum_breaks_eq_zero]
  rw [hlines]
  constructor
  · exact fun h => ⟨h.name, fun e he x hx => h.ids (mem_names_tableRows.mp ⟨e, he, hx⟩)⟩
  · rintro ⟨hname, hids⟩
    refine ⟨hname, fun hx => ?_⟩
    obtain ⟨e, he, hx⟩ := mem_names_tableRows.mpr hx
    exact hids e he _ hx

/-- A name that is quoted is written somewhere. -/
theorem Quotes.written {legacy : Bool} {x : String} (h : m.Quotes legacy x) :
    .name x ∈ m.nodeIds ∨ .name x ∈ m.fieldRefs := by
  cases h with
  | repeated h =>
      left
      apply List.count_pos_iff.mp
      omega
  | missing href hid => exact .inr href
  | @questioned r hr hx h =>
      right
      obtain ⟨hstart, hstop⟩ := m.mem_fieldRefs hr
      rcases List.mem_append.mp hx with hx | hx
      · rwa [← NodeRef.mem_names.mp hx]
      · rwa [← NodeRef.mem_names.mp hx]

theorem PlainlyNamed.saidInLines (h : m.PlainlyNamed) (legacy : Bool) : m.SaidInLines legacy :=
  ⟨fun _ => h.name, fun hx => hx.written.elim h.ids h.refs⟩

end Module

/-! What a run leaves. -/

/-- The modules that a run reaches. A resolver that is switched off looks at none. -/
def Options.reached (o : Options) (d : Document) : List Module :=
  if o.enabled then d.modules else []

namespace Resolver

/-- The report has one line for each message, in the order of the messages. -/
def ReportsInLines (r : Resolver) : Prop :=
  Lines r.diagnostics.report (r.diagnostics.messages.toList.map Message.shown)

/-- The dump has for each table a heading and one line for each node, in the order of the nodes. -/
def DumpsInLines (r : Resolver) : Prop :=
  ∃ dump, Dumper.text.render r.finished = .ok dump ∧
    Lines dump (r.finished.flatMap ModuleTable.lines)

/-- The state after documents, one after the other. -/
def processAll (r : Resolver) (ds : List Document) : Resolver := r.replay (ds.map .process)

theorem process_appends (r : Resolver) (d : Document) :
    (r.process d).1.options = r.options ∧
      (r.process d).1.diagnostics.messages.toList = r.diagnostics.messages.toList ++
        (r.options.reached d).flatMap (fun m => (m.resolve r.options.legacy).messages) ∧
      (r.process d).1.finished =
        r.finished ++ (r.options.reached d).map fun m => ⟨m.name, m.table⟩ := by
  have hoptions : (r.process d).1.options = r.options :=
    r.answer_options (q := .process d) nofun nofun
  refine ⟨hoptions, ?_⟩
  cases henabled : r.options.enabled with
  | true =>
      have hreached : r.options.reached d = d.modules := if_pos henabled
      rw [process_messages henabled, process_finished henabled, hreached]
      exact ⟨rfl, rfl⟩
  | false =>
      have hstate : (r.process d).1 = r := by simp [process, henabled]
      simp [hstate, Options.reached, henabled]

/-- Documents leave behind what their modules do, in the order of the modules. -/
theorem processAll_appends (r : Resolver) (ds : List Document) :
    (r.processAll ds).diagnostics.messages.toList = r.diagnostics.messages.toList ++
        (ds.flatMap r.options.reached).flatMap (fun m => (m.resolve r.options.legacy).messages) ∧
      (r.processAll ds).finished =
        r.finished ++ (ds.flatMap r.options.reached).map fun m => ⟨m.name, m.table⟩ := by
  induction ds generalizing r with
  | nil => simp [processAll, replay]
  | cons d ds ih =>
      have hstep : r.processAll (d :: ds) = (r.process d).1.processAll ds := rfl
      obtain ⟨hoptions, hmessages, hfinished⟩ := r.process_appends d
      -- The options stay, so that the modules reached later are those that `r` would reach.
      rw [hstep, (ih _).1, (ih _).2, hoptions, hmessages, hfinished]
      simp

section Fresh
variable (o : Options) (ds : List Document)

theorem shown_processAll :
    ((new o).processAll ds).diagnostics.messages.toList.map Message.shown =
      (ds.flatMap o.reached).flatMap fun m =>
        (m.said o.legacy).map fun f => (f.message m.name).shown := by
  have hshown : ∀ m : Module, (m.resolve o.legacy).messages.map Message.shown =
      (m.said o.legacy).map fun f => (f.message m.name).shown := fun m =>
    List.map_map
  have hmessages : ((new o).processAll ds).diagnostics.messages.toList =
      (ds.flatMap o.reached).flatMap fun m => (m.resolve o.legacy).messages :=
    ((new o).processAll_appends ds).1
  rw [hmessages, List.map_flatMap]
  simp only [hshown]

theorem finished_processAll :
    ((new o).processAll ds).finished = (ds.flatMap o.reached).map fun m => ⟨m.name, m.table⟩ :=
  ((new o).processAll_appends ds).2

theorem reportsInLines_iff : ((new o).processAll ds).ReportsInLines ↔
    ∀ m ∈ ds.flatMap o.reached, m.SaidInLines o.legacy := by
  rw [ReportsInLines, Diagnostics.report_eq, Text.lines_join_iff, shown_processAll]
  simp only [Module.saidInLines_iff, List.forall_mem_flatMap, List.forall_mem_map]

theorem dumpsInLines_iff : ((new o).processAll ds).DumpsInLines ↔
    ∀ m ∈ ds.flatMap o.reached, m.DumpedInLines := by
  have hdump : ((new o).processAll ds).DumpsInLines ↔
      ∀ l ∈ ((new o).processAll ds).finished.flatMap ModuleTable.lines, breaks l = 0 := by
    rw [← Text.lines_join_iff]
    constructor
    · rintro ⟨dump, hdump, h⟩
      obtain rfl := Except.ok.inj hdump
      exact h
    · exact fun h => ⟨_, rfl, h⟩
  rw [hdump, finished_processAll]
  simp only [Module.dumpedInLines_iff, List.forall_mem_flatMap, List.forall_mem_map]

/-- Names without line feeds are enough, for a report and for a dump. -/
theorem processAll_plainlyNamed (h : ∀ d ∈ ds, ∀ m ∈ d.modules, m.PlainlyNamed) :
    ((new o).processAll ds).ReportsInLines ∧ ((new o).processAll ds).DumpsInLines := by
  have hplain : ∀ m ∈ ds.flatMap o.reached, m.PlainlyNamed := by
    intro m hm
    obtain ⟨d, hd, hm⟩ := List.mem_flatMap.mp hm
    unfold Options.reached at hm
    split at hm
    · exact h d hd m hm
    · cases hm
  exact ⟨(reportsInLines_iff o ds).mpr fun m hm => (hplain m hm).saidInLines o.legacy,
    (dumpsInLines_iff o ds).mpr fun m hm => (hplain m hm).toDumpedInLines⟩

theorem breaks_report : breaks ((new o).processAll ds).diagnostics.report =
    ((ds.flatMap o.reached).map fun m => m.reportBreaks o.legacy).sum := by
  have hmodule : ∀ m : Module, (((m.said o.legacy).map fun f => (f.message m.name).shown).map
      fun l => breaks l + 1).sum = m.reportBreaks o.legacy := by
    intro m
    simp only [Module.reportBreaks, List.map_map, Function.comp_def, Finding.breaks_message]
  rw [Diagnostics.report_eq, Text.breaks_join, shown_processAll, List.map_flatMap,
    List.flatMap_def, List.sum_flatten, List.map_map]
  simp only [Function.comp_def, hmodule]

theorem breaks_dump : breaks (ModuleTable.dumpText ((new o).processAll ds).finished) =
    ((ds.flatMap o.reached).map Module.dumpBreaks).sum := by
  have hmodule : ∀ m : Module, ((⟨m.name, m.table⟩ : ModuleTable).lines.map
      fun l => breaks l + 1).sum = m.dumpBreaks := by
    intro m
    have hcount : (⟨m.name, m.table⟩ : ModuleTable).lines.map (fun l => breaks l + 1) =
        ((⟨m.name, m.table⟩ : ModuleTable).lines.map breaks).map (· + 1) := by
      rw [List.map_map]
      rfl
    rw [hcount, m.breaks_lines, List.map_cons, List.sum_cons, List.map_map]
    rfl
  rw [ModuleTable.dumpText, Text.breaks_join, finished_processAll, List.map_flatMap,
    List.flatMap_def, List.sum_flatten, List.map_map, List.map_map]
  simp only [Function.comp_def, hmodule]

end Fresh

/-- Reports fall into lines exactly if no module with a message has a line feed in its name and no
quoted name has one, and dumps exactly if no name of a module or of a node has one. Each line feed
of a name stands in the text besides those that end the lines. -/
theorem processAll_lines (o : Options) (ds : List Document) :
    (((new o).processAll ds).ReportsInLines ↔
        ∀ m ∈ ds.flatMap o.reached, m.SaidInLines o.legacy) ∧
      (((new o).processAll ds).DumpsInLines ↔ ∀ m ∈ ds.flatMap o.reached, m.DumpedInLines) ∧
      breaks ((new o).processAll ds).diagnostics.report =
        ((ds.flatMap o.reached).map fun m => m.reportBreaks o.legacy).sum ∧
      breaks (ModuleTable.dumpText ((new o).processAll ds).finished) =
        ((ds.flatMap o.reached).map Module.dumpBreaks).sum :=
  ⟨reportsInLines_iff o ds, dumpsInLines_iff o ds, breaks_report o ds, breaks_dump o ds⟩

end Resolver

/-- A node with a name, and references to other names. -/
def Document.naming (x : String) (xs : List String) : Document :=
  .withRoot "" [.namedNodes [x], ⟨.fixes, xs.map .name⟩]

/-- A name can be made so that the message about it reads like the messages about two, or so that
its node reads like two in the dump. Read as lines, these texts have more of them than there are
messages, and more than a heading and a node. -/
theorem Resolver.processAll_forged :
    let run := fun x xs => (new ⟨true, false⟩).processAll [.naming x xs]
    let one := run "x\"\n  #1    nodes-named     \"y"
      ["a\"\nerror: _Root_/fixes: named node not found: \"b"]
    let two := run "x" ["a", "b"]
    one.diagnostics.messages.size = 1 ∧ two.diagnostics.messages.size = 2 ∧
      one.diagnostics.report = two.diagnostics.report ∧
      (∀ ls, Lines one.diagnostics.report ls → one.diagnostics.messages.size < ls.length) ∧
      (one.finished.flatMap ModuleTable.lines).length = 2 ∧
      ∀ ls, Lines (ModuleTable.dumpText one.finished) ls → 2 < ls.length := by
  intro run one two
  have hbreaks : breaks one.diagnostics.report = 2 := by decide +kernel
  have hdump : breaks (ModuleTable.dumpText one.finished) = 3 := by decide +kernel
  have hsize : one.diagnostics.messages.size = 1 := by decide +kernel
  refine ⟨hsize, by decide +kernel, by decide +kernel, ?_, by decide +kernel, ?_⟩
  · intro ls h
    rw [h.length_eq, hbreaks, hsize]
    decide
  · intro ls h
    rw [h.length_eq, hdump]
    decide

end RigNodes
