import RigNodes.Proofs.Addressing
import RigNodes.Proofs.SelfReferences.Counts
import RigNodes.Proofs.Histories
import RigNodes.Proofs.RangeVerdict
import RigNodes.Proofs.Session.Requests

/-! Where messages belong. While a document is processed, the module and the section at hand change
many times; yet the messages of a module stand together under its name, each under the keyword of
the section that holds what it is about, and in the order in which the document has these things.
When the work is done nothing stays at hand, so that the next message is not put into a section. -/
namespace RigNodes

/-- What there can be something to say about. -/
inductive Topic
  | definition (id : NodeRef)
  | reference (r : NodeRef)
  | range (r : NodeRange)
  deriving DecidableEq

/-- What a notice is about, if it is about one thing in a document. -/
def Notice.topic? : Notice → Option Topic
  | duplicateNumber n _ => some (.definition (.number n))
  | duplicateName x _ => some (.definition (.name x))
  | definitionWithoutId => some (.definition .unresolved)
  | definitionMoved s _ => some (.definition (.slot s))
  | slotOutsideTable s _ => some (.reference (.slot s))
  | invalidReference => some (.reference .unresolved)
  | nameNotFound x => some (.reference (.name x))
  | numberNotDefined n | byLegacyPosition n _ _ => some (.reference (.number n))
  | selfReference r _ => some (.reference r)
  | rangeUnresolved r | rangeReversed r _ _ | rangeSpansGroups r _ _ => some (.range r)
  | outOfSequence _ | noWheelKind _ | selfReferences _ | noNodeAtPosition .. => none

/-- A range comes after its ends. -/
def Mention.topics : Mention → List Topic
  | .ref r => [.reference r]
  | .range r => [.reference r.start, .reference r.stop, .range r]

/-- The definitions of a module in canonical order, each under the keyword that it stands under. -/
def Module.definedTopics (m : Module) : List (Keyword × Topic) :=
  m.definitions.map fun d => (d.1, .definition d.2)

/-- What is written in a section, in walk order. -/
def Section.topics (c : Section) : List (Keyword × Topic) :=
  c.entries.flatMap fun e =>
    ((fieldStops c.keyword e).flatMap Mention.topics).map fun x => (c.keyword, x)

/-- The references and ranges of a module, section by section as these are declared. -/
def Module.writtenTopics (m : Module) : List (Keyword × Topic) := m.sections.flatMap Section.topics

/-- A finding about a thing, under the keyword that the thing stands under. -/
def Finding.IsAbout (x : Keyword × Topic) (f : Finding) : Prop :=
  f.keyword = some x.1 ∧ f.notice.topic? = some x.2

/-- Findings that go through a list of topics in order: some about the first, maybe none, then some
about the next. -/
def Follow (xs : List (Keyword × Topic)) (fs : List Finding) : Prop :=
  ∃ groups, List.Forall₂ (fun x g => ∀ f ∈ g, f.IsAbout x) xs groups ∧ fs = groups.flatten

namespace Follow

theorem nil : Follow [] [] := ⟨[], .nil, rfl⟩

theorem single {x : Keyword × Topic} {fs : List Finding} (h : ∀ f ∈ fs, f.IsAbout x) :
    Follow [x] fs := ⟨[fs], .cons h .nil, by simp⟩

theorem append {xs ys : List (Keyword × Topic)} {fs gs : List Finding} (h : Follow xs fs)
    (h' : Follow ys gs) : Follow (xs ++ ys) (fs ++ gs) := by
  obtain ⟨groups, hgroups, rfl⟩ := h
  obtain ⟨groups', hgroups', rfl⟩ := h'
  exact ⟨groups ++ groups', List.rel_append hgroups hgroups', List.flatten_append.symm⟩

theorem flatMap {α : Type} {l : List α} {xs : α → List (Keyword × Topic)} {fs : α → List Finding}
    (h : ∀ a ∈ l, Follow (xs a) (fs a)) : Follow (l.flatMap xs) (l.flatMap fs) := by
  induction l with
  | nil => exact nil
  | cons a l ih =>
      obtain ⟨ha, hl⟩ := List.forall_mem_cons.mp h
      exact ha.append (ih hl)

end Follow

namespace Scope
variable (s : Scope)

theorem found_topic {r : NodeRef} {p : Nat} {notices : List Notice} {legacy : Nat}
    (h : ∀ n ∈ notices, n.topic? = some (.reference r)) :
    ∀ n ∈ (s.found r p notices legacy).notices, n.topic? = some (.reference r) := by
  intro n hn
  rcases List.mem_append.mp hn with hn | hn
  · exact h n hn
  · split at hn
    · rw [List.mem_singleton.mp hn]
      rfl
    · cases hn

theorem resolve_topic (r : NodeRef) :
    ∀ n ∈ (s.resolve r).notices, n.topic? = some (.reference r) := by
  cases r with
  | slot x =>
      have hnotices : (s.resolve (.slot x)).notices =
          if x.position < s.table.size then [] else [.slotOutsideTable x s.table.size] := rfl
      rw [hnotices]
      split
      · simp
      · simp [Notice.topic?]
  | unresolved => simp [resolve, Notice.topic?]
  | name x =>
      cases hx : s.table.findName? x with
      | some p =>
          simp only [resolve, hx]
          exact s.found_topic (by simp)
      | none => simp [resolve, hx, notFound, Notice.topic?]
  | number n =>
      cases hn : s.table.findNumber? n with
      | some p =>
          simp only [resolve, hn]
          exact s.found_topic (by simp)
      | none =>
          cases hl : s.legacyPosition? n with
          | some x =>
              simp only [resolve, hn, hl]
              exact s.found_topic (by simp [Notice.topic?])
          | none => simp [resolve, hn, hl, notFound, Notice.topic?]

theorem verdict_topic (x y : NodeRange) :
    ∀ n ∈ (s.verdict x y).notices, n.topic? = some (.range x) := by
  have hrange : ∀ a b, ∀ n ∈ s.rangeNotices x a b, n.topic? = some (.range x) := by
    intro a b n hn
    unfold rangeNotices at hn
    split at hn
    · rw [List.mem_singleton.mp hn]
      rfl
    · split at hn
      · rw [List.mem_singleton.mp hn]
        rfl
      · cases hn
  intro n hn
  unfold verdict at hn
  split at hn
  · split at hn
    · cases hn
    · exact hrange _ _ n hn
  · rw [List.mem_singleton.mp hn]
    rfl

end Scope

/-- What is found at a stop goes through what stands there. -/
theorem Stop.follow_findings (s : Scope) (x : Stop) :
    Follow (x.mention.topics.map fun t => (x.keyword, t)) (x.findings s) := by
  obtain ⟨k, x, own⟩ := x
  have habout : ∀ (t : Topic) (ns : List Notice), (∀ n ∈ ns, n.topic? = some t) →
      Follow [(k, t)] (ns.map fun n => ⟨some k, n⟩) := by
    intro t ns h
    apply Follow.single
    intro f hf
    obtain ⟨n, hn, rfl⟩ := List.mem_map.mp hf
    exact ⟨rfl, h n hn⟩
  generalize hs : ({ s with defining := own } : Scope) = s'
  cases x with
  | ref r =>
      have hfindings : Stop.findings s ⟨k, .ref r, own⟩ =
          (s'.resolve r).notices.map fun n => ⟨some k, n⟩ := by
        rw [← hs]
        rfl
      rw [hfindings]
      exact habout _ _ (s'.resolve_topic r)
  | range r =>
      have hfindings : Stop.findings s ⟨k, .range r, own⟩ =
          ((s'.resolve r.start).notices.map fun n => ⟨some k, n⟩) ++
            (((s'.resolve r.stop).notices.map fun n => ⟨some k, n⟩) ++
              (s'.verdict r (r.map s'.value)).notices.map fun n => ⟨some k, n⟩) := by
        rw [← List.map_append, ← List.map_append, ← List.append_assoc, ← hs]
        rfl
      rw [hfindings]
      exact (habout _ _ (s'.resolve_topic r.start)).append
        ((habout _ _ (s'.resolve_topic r.stop)).append (habout _ _ (s'.verdict_topic r _)))

namespace Module
variable (m : Module)

theorem notices_topic {s : Site} {id : NodeRef} (hs : s.id? = some id) :
    ∀ n ∈ m.notices s, n.topic? = some (.definition id) := by
  intro n hn
  cases id with
  | number x | name x =>
      simp only [notices, hs] at hn
      split at hn
      · cases hn
      · obtain ⟨t, -, rfl⟩ := Option.map_eq_some_iff.mp (Option.mem_toList.mp hn)
        rfl
  | slot x =>
      simp only [notices, hs] at hn
      split at hn
      · cases hn
      · rw [List.mem_singleton.mp hn]
        rfl
  | unresolved =>
      simp only [notices, hs] at hn
      rw [List.mem_singleton.mp hn]
      rfl

/-- The build pass goes through the definitions. -/
theorem follow_building : Follow m.definedTopics (m.canonicalSites.flatMap m.findings) := by
  have hgenerating : m.generatingSites.flatMap m.findings = [] := by
    apply List.flatMap_eq_nil_iff.mpr
    intro s hs
    simp [findings, notices, id?_eq_none_of_mem_generatingSites hs]
  have hdefined : m.definedTopics = m.definingSites.flatMap fun s =>
      (s.id?.map fun id => (s.keyword, Topic.definition id)).toList := by
    rw [definedTopics, definitions_eq, List.map_filterMap, List.filterMap_eq_flatMap_toList]
    apply List.flatMap_congr
    intro s hs
    rw [definition?, Option.map_map]
    rfl
  rw [canonicalSites_eq_append, List.flatMap_append, hgenerating, List.append_nil, hdefined]
  apply Follow.flatMap
  intro s hs
  obtain ⟨id, hid⟩ := Option.isSome_iff_exists.mp (id?_isSome_of_mem_definingSites hs)
  rw [hid]
  apply Follow.single
  intro f hf
  obtain ⟨n, hn, rfl⟩ := List.mem_map.mp hf
  exact ⟨rfl, m.notices_topic hid n hn⟩

/-- The second pass goes through what is written. -/
theorem follow_stops (s : Scope) : Follow m.writtenTopics (m.stops.flatMap (Stop.findings s)) := by
  have hwritten : m.writtenTopics = m.stops.flatMap fun x =>
      x.mention.topics.map fun t => (x.keyword, t) := by
    rw [writtenTopics, stops, List.flatMap_assoc, ← flatMap_zipIdx m.sections]
    apply List.flatMap_congr
    intro c hc
    rw [Section.topics, Section.stops, List.flatMap_assoc, ← flatMap_zipIdx c.1.entries]
    apply List.flatMap_congr
    intro e he
    rw [List.flatMap_map, ← mentions_entry, List.map_flatMap]
  rw [hwritten]
  exact Follow.flatMap fun x _ => x.follow_findings s

/-- The messages of one module: about its definitions, then about what is written in it, then at
most one that belongs to no section. -/
def Block (m : Module) (messages : List Message) : Prop :=
  ∃ definitions references closing, Follow m.definedTopics definitions ∧
    Follow m.writtenTopics references ∧ closing.length ≤ 1 ∧
    (∀ f ∈ closing, f.keyword = none ∧ f.notice.severity = .info) ∧
    messages = (definitions ++ references ++ closing).map (Finding.message m.name)

theorem block_resolve (legacy : Bool) : m.Block (m.resolve legacy).messages := by
  have hmodule : (m.resolve legacy).module.name = m.name := by rw [resolve_eq]
  have hbuilding : (m.resolve legacy).building = m.canonicalSites.flatMap m.findings := by
    rw [resolve_eq]
  refine ⟨_, _, ModuleRun.closing (m.resolve legacy).stats.resolvedToSelf, m.follow_building,
    m.follow_stops (m.scope legacy), ?_, ?_, ?_⟩
  · unfold ModuleRun.closing
    split <;> simp
  · intro f hf
    unfold ModuleRun.closing at hf
    split at hf
    · rw [List.mem_singleton.mp hf]
      exact ⟨rfl, rfl⟩
    · cases hf
  · rw [ModuleRun.messages, hmodule, hbuilding, resolve_settling, List.append_assoc]

end Module

/-- Requests that are made for a kind, outside of any section. -/
def Request.ownKind? : Request → Option Kind
  | registerNumber _ => some .numbered
  | registerName _ => some .named
  | registerGenerated k _ | registerWheel k _ _ | resolveByPosition k _ => some k
  | _ => none

/-- A request for a kind is only ever answered with messages for that kind. -/
theorem Resolver.answer_ownKind (r : Resolver) {q : Request} {k : Kind} (hk : q.ownKind? = some k) :
    ∃ ns : List Notice, (r.answer q).1.diagnostics.messages.toList =
      r.diagnostics.messages.toList ++
        ns.map fun n => Finding.message r.moduleName ⟨some k.keyword, n⟩ := by
  have hkept : ∃ ns : List Notice, r.diagnostics.messages.toList = r.diagnostics.messages.toList ++
      ns.map fun n => Finding.message r.moduleName ⟨some k.keyword, n⟩ := ⟨[], by simp⟩
  have htaken : ∀ {α : Type} (g : Registered α), (r.take k g).diagnostics.messages.toList =
      r.diagnostics.messages.toList ++
        g.notices.map fun n => Finding.message r.moduleName ⟨some k.keyword, n⟩ := by
    intro α g
    rw [take, messages_emit, List.map_map]
    rfl
  cases q with
  | registerNumber n =>
      cases hk
      simp only [answer, registerNumber]
      split
      · exact ⟨_, htaken _⟩
      · exact hkept
  | registerName x =>
      cases hk
      simp only [answer, registerName]
      split
      · exact ⟨_, htaken _⟩
      · exact hkept
  | registerGenerated k role =>
      cases hk
      simp only [answer, registerGenerated]
      split
      · exact ⟨_, htaken _⟩
      · exact hkept
  | registerWheel k rays rigid =>
      cases hk
      simp only [answer, registerWheel]
      split
      · split
        · exact ⟨_, htaken _⟩
        · exact ⟨_, htaken _⟩
      · exact hkept
  | resolveByPosition k i =>
      cases hk
      simp only [answer, resolveByPosition]
      split
      · split
        · exact hkept
        · exact ⟨[_], messages_emit r _⟩
      · exact hkept
  | _ => cases hk

namespace Session

/-- A document that was processed, from the session `s` to `t`. Its messages stand in one block for
each module, and whatever is asked next, requests for a kind have their messages put under the
keyword of that kind. -/
structure Attributes (s : Session) (d : Document) (t : Session) : Prop where
  blocks : ∃ blocks, List.Forall₂ Module.Block d.modules blocks ∧
    t.diagnostics.messages.toList = s.diagnostics.messages.toList ++ blocks.flatten
  afterwards (qs : List Request) {u : Session} (hu : u = ((replay qs).run t).2) {q : Request}
    {k : Kind} (hk : q.ownKind? = some k) : ∃ ns : List Notice,
      ((answer q).run u).2.diagnostics.messages.toList = u.diagnostics.messages.toList ++
        ns.map fun n => Finding.message u.moduleName ⟨some k.keyword, n⟩

/-- Whatever was asked before, every message about a document says where it belongs. -/
theorem process_attributes {o : Options} {qs : List Request}
    (h : ((replay qs).run (new o)).2.options.enabled = true) (d : Document) :
    Attributes ((replay qs).run (new o)).2 d
      ((process d).run ((replay qs).run (new o)).2).2 := by
  have hstate : ((replay qs).run (new o)).2 = idle ((Resolver.new o).replay qs) :=
    replay_idle (Resolver.new o) qs
  rw [hstate] at h ⊢
  generalize (Resolver.new o).replay qs = r at h
  have henabled : r.options.enabled = true := h
  rw [process_idle]
  refine ⟨?blocks, ?afterwards⟩
  case blocks =>
    refine ⟨d.modules.map fun m => (m.resolve r.options.legacy).messages, ?_, ?_⟩
    · rw [List.forall₂_map_right_iff, List.forall₂_same]
      exact fun m _ => m.block_resolve r.options.legacy
    · exact Resolver.process_messages henabled d
  case afterwards =>
    rintro qs' u rfl q k hk
    rw [replay_idle, answer_idle]
    exact Resolver.answer_ownKind _ hk

/-- A resolver with a module at hand, and with another one behind it. -/
def furnished : List Request :=
  [.beginModule "front", .registerWheel .wheels 1 false, .process ⟨"", [.looped]⟩,
    .registerGenerated .wheels2 none]

theorem process_attributes_furnished :
    let s := ((replay furnished).run (new ⟨true, true⟩)).2
    let t := ((process ⟨"", [.doubled]⟩).run s).2
    Attributes s ⟨"", [.doubled]⟩ t ∧
      (t.messagesFrom s.diagnostics.messages.size).map (fun x => (x.moduleName, x.keyword)) =
        [("doubled", some .nodes), ("doubled", some .nodes2), ("doubled", some .wheels),
          ("doubled", some .wheels), ("doubled", some .beams), ("doubled", none)] ∧
      (((answer (.registerNumber 7)).run t).2.messagesFrom t.diagnostics.messages.size).map
        Message.keyword = [some .nodes, some .nodes] := by
  intro s t
  exact ⟨process_attributes (by decide +kernel) _, by decide +kernel, by decide +kernel⟩

end Session

end RigNodes
