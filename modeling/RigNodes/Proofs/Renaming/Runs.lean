import RigNodes.Proofs.Coverage
import RigNodes.Proofs.Processed
import RigNodes.Proofs.RangeVerdict
import RigNodes.Proofs.Renaming.Tables

/-! The ids that authors choose do not matter. Under other ids every definition gets the slot that it
had, every reference leads where it led, and what is said about them differs in wording only. -/
namespace RigNodes

section
variable (ρ : UserId → UserId)

theorem mentions_renameEntry (k : Keyword) (e : Entry k) :
    mentions (renameEntry ρ k e) = (mentions e).map (Mention.map (NodeRef.rename ρ)) := by
  have hwalk : mentions (mapFields (NodeRef.rename ρ) k e) =
      (mentions e).map (Mention.map (NodeRef.rename ρ)) := by
    rw [← mapRefs_entry, mentions_mapRefs]
  cases k with
  | nodes => rfl
  | nodes2 => rfl
  | _ => exact hwalk

/-- Once references are replaced, the new ids are gone with the old ones. -/
theorem settledEntry_renameEntry {f g : NodeRef → NodeRef} (h : ∀ r, g (r.rename ρ) = f r)
    (span : Option Span) (k : Keyword) (e : Entry k) :
    settledEntry g span k (renameEntry ρ k e) = settledEntry f span k e := by
  have hwalk : mapRefs g (mapFields (NodeRef.rename ρ) k e) = mapRefs f e := by
    rw [← mapRefs_entry, mapRefs_mapRefs]
    exact congrArg (fun f => mapRefs f e) (funext h)
  cases k with
  | nodes => rfl
  | nodes2 => rfl
  | _ => exact hwalk

theorem Section.settled_rename {f g : NodeRef → NodeRef} (h : ∀ r, g (r.rename ρ) = f r)
    (spans : List (Option Span)) (c : Section) :
    (c.rename ρ).settled g spans = c.settled f spans := by
  have hentries : ((c.entries.map (renameEntry ρ c.keyword)).mapIdx fun j e =>
      settledEntry g spans[j]?.join c.keyword e) =
        c.entries.mapIdx fun j e => settledEntry f spans[j]?.join c.keyword e := by
    apply List.ext_getElem <;> simp [settledEntry_renameEntry ρ h]
  exact congrArg (Section.mk c.keyword) hentries

end

/-- What an answer comes to, apart from its wording. -/
def Resolved.outline {α : Type} (o : Resolved α) : α × List Severity × Stats :=
  (o.value, o.notices.map Notice.severity, o.stats)

/-- Whether groups are mixed is a matter of ranks. -/
theorem NodeTable.Mixed.of_ranks {t t' : NodeTable}
    (h : ∀ p, (t'.get? p).map (fun e => e.origin.rank) = (t.get? p).map fun e => e.origin.rank)
    {a b : Slot} (hmixed : t.Mixed a b) : t'.Mixed a b := by
  have hwithin : ∀ e, t.Within a b e → ∃ e', t'.Within a b e' ∧
      e'.origin.rank = e.origin.rank := by
    rintro e ⟨p, ha, hb, he⟩
    have hrank := h p
    rw [he, Option.map_some] at hrank
    obtain ⟨e', he', hsame⟩ := Option.map_eq_some_iff.mp hrank
    exact ⟨e', ⟨p, ha, hb, he'⟩, hsame⟩
  obtain ⟨x, y, hx, hy, hgroups⟩ := hmixed
  obtain ⟨x', hx', hxrank⟩ := hwithin x hx
  obtain ⟨y', hy', hyrank⟩ := hwithin y hy
  refine ⟨x', y', hx', hy', ?_⟩
  rwa [Kind.sameGroup, hxrank, hyrank]

namespace Scope

/-- Two scopes with the same nodes under different ids. -/
structure Renames (ρ : UserId → UserId) (s s' : Scope) : Prop where
  found (r : NodeRef) : s'.table.find? (r.rename ρ) = s.table.find? r
  size : s'.table.size = s.table.size
  ranks (p : Nat) : (s'.table.get? p).map (fun e => e.origin.rank) =
    (s.table.get? p).map fun e => e.origin.rank
  defining : s'.defining = s.defining
  legacy : s.legacy = false ∧ s'.legacy = false

/-- A number or a name without a node is an error. -/
theorem outline_of_lost (s : Scope) (hl : s.legacy = false) {r : NodeRef} (hr : r.isAuthored)
    (hfind : s.table.find? r = none) : (s.resolve r).outline = (.unresolved, [.error], .zero) := by
  cases r with
  | number n =>
      have hn : s.table.findNumber? n = none := hfind
      have hplace : s.legacyPosition? n = none := by simp [legacyPosition?, hl]
      simp only [resolve, hn, hplace]
      rfl
  | name x =>
      have hx : s.table.findName? x = none := hfind
      simp only [resolve, hx]
      rfl
  | _ => cases hr

/-- A range comes to what its ends come to, and to what is said about it as a whole. -/
theorem outline_range (s : Scope) (r : NodeRange) :
    (s.answer (.range r)).outline =
      (.range ⟨(s.resolve r.start).outline.1, (s.resolve r.stop).outline.1⟩,
        (s.resolve r.start).outline.2.1 ++ (s.resolve r.stop).outline.2.1 ++
          (s.verdict r ⟨(s.resolve r.start).outline.1, (s.resolve r.stop).outline.1⟩).outline.2.1,
        (s.resolve r.start).outline.2.2 + (s.resolve r.stop).outline.2.2) := by
  have hnotices : (s.answer (.range r)).notices = (s.resolve r.start).notices ++
      (s.resolve r.stop).notices ++ (s.verdict r (r.map s.value)).notices := rfl
  unfold Resolved.outline
  rw [hnotices, List.map_append, List.map_append]
  rfl

namespace Renames
variable {ρ : UserId → UserId} {s s' : Scope} (h : s.Renames ρ s')
include h

theorem resolve (r : NodeRef) : (s'.resolve (r.rename ρ)).outline = (s.resolve r).outline := by
  cases hfind : s.table.find? r with
  | some p =>
      rw [s.resolve_of_find? hfind, s'.resolve_of_find? ((h.found r).trans hfind)]
      unfold Scope.found Resolved.outline
      rw [h.defining]
      cases s.defining.any fun span => span.contains p <;> rfl
  | none =>
      cases hr : r.isAuthored with
      | true =>
          rw [s.outline_of_lost h.legacy.1 hr hfind]
          apply s'.outline_of_lost h.legacy.2
          · rwa [NodeRef.rename_isAuthored]
          · exact (h.found r).trans hfind
      | false =>
          rw [NodeRef.rename_of_not_authored hr]
          cases r with
          | slot x =>
              unfold Scope.resolve
              rw [h.size]
          | unresolved => rfl
          | _ => cases hr

theorem value (r : NodeRef) : s'.value (r.rename ρ) = s.value r := congrArg Prod.fst (h.resolve r)

theorem spansGroups (a b : Slot) :
    s'.spansGroups a.position b.position = s.spansGroups a.position b.position := by
  rw [Bool.eq_iff_iff, spansGroups_iff, spansGroups_iff]
  exact ⟨.of_ranks fun p => (h.ranks p).symm, .of_ranks h.ranks⟩

theorem verdict (written r : NodeRange) :
    (s'.verdict (written.map (NodeRef.rename ρ)) r).outline = (s.verdict written r).outline := by
  have hcanonical : (written.map (NodeRef.rename ρ)).isCanonical = written.isCanonical := by
    simp [NodeRange.map, NodeRange.isCanonical]
  obtain ⟨x, y⟩ := r
  -- The table is looked at between two slots only.
  cases x <;> cases y <;> first | rfl | skip
  next a b =>
    have hrange : (s'.rangeNotices (written.map (NodeRef.rename ρ)) a b).map Notice.severity =
        (s.rangeNotices written a b).map Notice.severity := by
      unfold rangeNotices
      rw [h.spansGroups]
      split
      · rfl
      · split <;> rfl
    have hnotices : ∀ (s : Scope) (w : NodeRange), (s.verdict w ⟨.slot a, .slot b⟩).notices =
        if w.isCanonical then [] else s.rangeNotices w a b := fun _ _ => rfl
    refine Prod.ext rfl (Prod.ext ?_ rfl)
    simp only [Resolved.outline, hnotices, hcanonical]
    split
    · rfl
    · exact hrange

theorem answer (x : Mention) :
    (s'.answer (x.map (NodeRef.rename ρ))).outline = (s.answer x).outline := by
  cases x with
  | ref r => exact congrArg (fun o => (Mention.ref o.1, o.2)) (h.resolve r)
  | range r =>
      have hstart : (s'.resolve (r.map (NodeRef.rename ρ)).start).outline = _ := h.resolve r.start
      have hstop : (s'.resolve (r.map (NodeRef.rename ρ)).stop).outline = _ := h.resolve r.stop
      have hmap : (Mention.range r).map (NodeRef.rename ρ) = .range (r.map (NodeRef.rename ρ)) := rfl
      rw [hmap, outline_range, outline_range, hstart, hstop, h.verdict]

end Renames

end Scope

/-- What can be told of a finding without its wording. -/
def Finding.outline (f : Finding) : Severity × Option Keyword := (f.notice.severity, f.keyword)

/-- What can be told of a message without its wording. -/
def Message.outline (x : Message) : Severity × Option Keyword × String :=
  (x.severity, x.keyword, x.moduleName)

theorem outline_messages (run : ModuleRun) :
    run.messages.map Message.outline =
      ((run.building ++ run.settling).map Finding.outline).map
        fun f => (f.1, f.2, run.module.name) := by
  rw [ModuleRun.messages, List.map_map, List.map_map]
  rfl

theorem outline_findings (k : Option Keyword) (ns : List Notice) :
    (ns.map fun n => (⟨k, n⟩ : Finding)).map Finding.outline =
      (ns.map Notice.severity).map fun v => (v, k) := by
  rw [List.map_map, List.map_map]
  rfl

def Stop.renamed (ρ : UserId → UserId) (x : Stop) : Stop :=
  { x with mention := x.mention.map (NodeRef.rename ρ) }

theorem Section.stops_rename (ρ : UserId → UserId) (spans : List (Option Span)) (c : Section) :
    (c.rename ρ).stops spans = (c.stops spans).map (Stop.renamed ρ) := by
  have hstops : (c.rename ρ).stops spans =
      (c.entries.map (renameEntry ρ c.keyword)).zipIdx.flatMap fun e =>
        (mentions e.1).map fun x => ⟨c.keyword, x, spans[e.2]?.join⟩ := rfl
  rw [hstops, stops, List.zipIdx_map, List.flatMap_map, List.map_flatMap]
  apply List.flatMap_congr
  intro e he
  rw [Prod.map_fst, mentions_renameEntry, List.map_map, List.map_map]
  rfl

namespace Module
variable {ρ : UserId → UserId} (hρ : Function.Injective ρ) (m : Module)
include hρ

theorem stops_rename : (m.rename ρ).stops = m.stops.map (Stop.renamed ρ) := by
  rw [stops, stops, zipIdx_rename, List.flatMap_map, List.map_flatMap]
  apply List.flatMap_congr
  intro c hc
  rw [← Section.stops_rename, ← spansAt_rename hρ hc]
  rfl

theorem scope_rename (own : Option Span) :
    Scope.Renames ρ { m.scope false with defining := own }
      { (m.rename ρ).scope false with defining := own } := by
  refine ⟨m.find?_rename hρ, ?_, ?_, rfl, rfl, rfl⟩
  · have hsize : (m.rename ρ).table.size = m.table.size := by
      rw [size_table, size_table, m.tableRows_rename hρ, List.length_map]
    exact hsize
  · intro p
    have hrank : ((m.rename ρ).table.get? p).map (fun e => e.origin.rank) =
        (m.table.get? p).map fun e => e.origin.rank := by
      rw [get?_table, get?_table, m.tableRows_rename hρ, List.getElem?_map, Option.map_map]
      cases he : m.tableRows[p]? with
      | none => rfl
      | some e => exact congrArg some (m.rank_rename hρ (List.mem_of_getElem? he))
    exact hrank

theorem answer_renamed (x : Stop) :
    ((x.renamed ρ).answer ((m.rename ρ).scope false)).outline =
      (x.answer (m.scope false)).outline :=
  (m.scope_rename hρ x.defining).answer x.mention

variable {m} in
theorem findings_renamed {s : Site} (hs : s ∈ m.canonicalSites) :
    ((m.rename ρ).findings (s.renamed ρ)).map Finding.outline =
      (m.findings s).map Finding.outline := by
  have hs' : s.renamed ρ ∈ (m.rename ρ).canonicalSites := by
    rw [canonicalSites_rename]
    exact List.mem_map_of_mem hs
  have hseverities : ((m.rename ρ).notices (s.renamed ρ)).map Notice.severity =
      (m.notices s).map Notice.severity := by
    have hid' := Site.renamed_id? ρ s
    cases hid : s.id? with
    | none =>
        rw [hid] at hid'
        simp only [notices, hid, hid', Option.map_none]
    | some id =>
        rw [hid, Option.map_some] at hid'
        cases ha : id.isAuthored with
        | true =>
            rw [severity_notices hs' hid' (by rwa [NodeRef.rename_isAuthored]),
              severity_notices hs hid ha, m.accepts_renamed hρ]
        | false =>
            rw [NodeRef.rename_of_not_authored ha] at hid'
            cases id with
            | slot x =>
                have hstart := start_renamed hρ (m.mem_canonicalSites.mp hs)
                simp only [notices, hid, hid', hstart]
            | unresolved => simp only [notices, hid, hid']
            | _ => cases ha
  rw [findings, findings, outline_findings, outline_findings, hseverities]
  rfl

theorem stats_rename : ((m.rename ρ).resolve false).stats = (m.resolve false).stats := by
  have hrigid : (m.rename ρ).canonicalSites.countP Site.rigid =
      m.canonicalSites.countP Site.rigid := by
    rw [canonicalSites_rename, List.countP_map]
    apply List.countP_congr
    rintro ⟨i, j, k, (id | kind | ⟨kind, rays, rigid⟩)⟩ hs <;> rfl
  rw [resolve_stats, resolve_stats, m.stops_rename hρ, List.map_map, hrigid]
  refine congrArg (fun l => List.sum l + _) (List.map_congr_left fun x hx => ?_)
  exact congrArg (fun o => o.2.2) (m.answer_renamed hρ x)

theorem messages_rename :
    ((m.rename ρ).resolve false).messages.map Message.outline =
      (m.resolve false).messages.map Message.outline := by
  have hname : ((m.rename ρ).resolve false).module.name = (m.resolve false).module.name := by
    rw [resolve_eq, resolve_eq]
    rfl
  have hbuilding : ((m.rename ρ).resolve false).building.map Finding.outline =
      (m.resolve false).building.map Finding.outline := by
    rw [resolve_eq, resolve_eq]
    simp only [canonicalSites_rename, List.flatMap_map, List.map_flatMap]
    apply List.flatMap_congr
    intro s hs
    exact findings_renamed hρ hs
  have hsettling : ((m.rename ρ).resolve false).settling.map Finding.outline =
      (m.resolve false).settling.map Finding.outline := by
    rw [resolve_settling, resolve_settling, m.stats_rename hρ, m.stops_rename hρ, List.map_append,
      List.map_append, List.flatMap_map, List.map_flatMap, List.map_flatMap]
    refine congrArg (· ++ _) (List.flatMap_congr fun x hx => ?_)
    rw [Stop.findings, Stop.findings, outline_findings, outline_findings]
    exact congrArg (fun o => o.2.1.map fun v => (v, some x.keyword)) (m.answer_renamed hρ x)
  rw [outline_messages, outline_messages, hname, List.map_append, hbuilding, hsettling,
    ← List.map_append]

/-- What is left of a module after the run does not tell which ids it had. -/
theorem module_rename : ((m.rename ρ).resolve false).module = (m.resolve false).module := by
  have hmodule : ∀ m : Module, (m.resolve false).module =
      { m with sections := (m.resolve false).module.sections } := by
    intro m
    rw [resolve_eq]
  have hsections : ((m.rename ρ).resolve false).module.sections =
      (m.resolve false).module.sections := by
    rw [resolve_sections, resolve_sections, zipIdx_rename, List.map_map]
    apply List.map_congr_left
    intro c hc
    have hspans : (m.rename ρ).spansAt (Prod.map (Section.rename ρ) id c) = m.spansAt c :=
      spansAt_rename hρ hc
    rw [Function.comp_apply, hspans]
    exact c.1.settled_rename ρ (m.scope_rename hρ none).value _
  rw [hmodule, hsections, hmodule m]
  rfl

end Module

namespace Resolver

/-- Two runs from one state that differ in the ids of their documents only: the same document comes
out, the same is counted, what is said differs in wording only, and the tables have the same nodes
under other ids. -/
structure SameUpToIds (r : Resolver) (ρ : UserId → UserId) (a b : Resolver × Document) : Prop where
  document : b.2 = a.2
  stats : b.1.stats = a.1.stats
  messages : ∃ added added' : List Message,
    a.1.diagnostics.messages.toList = r.diagnostics.messages.toList ++ added ∧
    b.1.diagnostics.messages.toList = r.diagnostics.messages.toList ++ added' ∧
    added'.map Message.outline = added.map Message.outline
  tables : ∃ ts ts' : List ModuleTable,
    a.1.finished = r.finished ++ ts ∧ b.1.finished = r.finished ++ ts' ∧
    List.Forall₂ (fun t t' => t'.name = t.name ∧ t.table.Renames ρ t'.table) ts ts'

/-- It makes no difference what nodes are called, as long as different nodes are called
differently. -/
theorem process_renamed {r : Resolver} (h : r.options.enabled = true)
    (hlegacy : r.options.legacy = false) {ρ : UserId → UserId} (hρ : Function.Injective ρ)
    (d : Document) : r.SameUpToIds ρ (r.process d) (r.process (d.rename ρ)) := by
  refine ⟨?document, ?stats, ?messages, ?tables⟩
  case document =>
    rw [process_document h, process_document h, hlegacy, Document.rename, List.map_map]
    refine congrArg (Document.mk d.name) (List.map_congr_left fun m hm => ?_)
    exact m.module_rename hρ
  case stats =>
    rw [process_stats h, process_stats h, hlegacy, Document.rename, List.map_map]
    refine congrArg (fun l => r.stats + l.sum) (List.map_congr_left fun m hm => ?_)
    exact m.stats_rename hρ
  case messages =>
    refine ⟨_, _, process_messages h d, process_messages h (d.rename ρ), ?_⟩
    rw [hlegacy, Document.rename, List.flatMap_map, List.map_flatMap, List.map_flatMap]
    apply List.flatMap_congr
    intro m hm
    exact m.messages_rename hρ
  case tables =>
    refine ⟨_, _, process_finished h d, process_finished h (d.rename ρ), ?_⟩
    rw [Document.rename, List.map_map, List.forall₂_map_left_iff, List.forall₂_map_right_iff,
      List.forall₂_same]
    intro m hm
    exact ⟨rfl, m.table_renames hρ⟩

/-- A number takes the place of a name, and the name that of the number. -/
def swapped : UserId → UserId := Equiv.swap (.inl 7) (.inr "hub")

theorem process_renamed_swapped :
    (new ⟨true, false⟩).SameUpToIds swapped ((new ⟨true, false⟩).process ⟨"", [.doubled]⟩)
      ((new ⟨true, false⟩).process (Document.rename swapped ⟨"", [.doubled]⟩)) ∧
      Document.rename swapped ⟨"", [.doubled]⟩ ≠ ⟨"", [.doubled]⟩ ∧
      (Module.doubled.rename swapped).table.findName? "hub" = some 0 ∧
      (Module.doubled.rename swapped).table.findNumber? 7 = some 2 := by
  have hswapped : Function.Injective swapped := Equiv.injective _
  have h := process_renamed (r := new ⟨true, false⟩) rfl rfl hswapped ⟨"", [.doubled]⟩
  exact ⟨h, by decide +kernel, by decide +kernel, by decide +kernel⟩

end Resolver

end RigNodes
