import RigNodes.Document.Sample
import RigNodes.Proofs.Histories
import RigNodes.Proofs.Session.Requests

/-! A resolver that is switched off. It has no tables, it gives back whatever it is handed, and
nothing it is asked leaves a mark on it. Starting over is the only way back, and leads to a fresh
resolver from wherever it is done. -/
namespace RigNodes

namespace Request

def isInit : Request → Bool
  | init _ => true
  | _ => false

/-- The reply to a request that has no effect: nothing is registered, and what was to be resolved
comes back as it was. -/
def untouched : Request → Reply
  | init _ | disable | beginModule _ => .done
  | registerNumber _ | registerName _ => .accepted false
  | registerGenerated .. => .position none
  | registerWheel .. => .wheel none
  | resolve x => .ref x
  | resolveRange x => .range x
  | resolveByPosition .. => .ref .unresolved
  | process d => .document d

end Request

namespace Resolver
variable {r : Resolver}

/-- A resolver without tables. -/
def Vacant (r : Resolver) : Prop := r.table = .empty ∧ r.finished = []

/-- Whatever a resolver that is switched off is asked, only the name of a module may be noted. -/
theorem answer_vacant (hd : r.options.enabled = false) (hv : r.Vacant) {q : Request}
    (hq : q.isInit = false) :
    (r.answer q).2 = q.untouched ∧
      (r.answer q).1 = { r with moduleName := (r.answer q).1.moduleName } := by
  obtain ⟨⟨enabled, legacy⟩, table, finished, diagnostics, stats, moduleName⟩ := r
  obtain ⟨rfl, rfl⟩ := hv
  obtain rfl : enabled = false := hd
  cases q with
  | init enabled => cases hq
  | _ => exact ⟨rfl, rfl⟩

theorem replay_vacant (hd : r.options.enabled = false) (hv : r.Vacant) {qs : List Request}
    (hqs : ∀ q ∈ qs, q.isInit = false) :
    r.replies qs = qs.map Request.untouched ∧
      r.replay qs = { r with moduleName := (r.replay qs).moduleName } := by
  induction qs generalizing r with
  | nil => exact ⟨rfl, rfl⟩
  | cons q qs ih =>
      obtain ⟨hreply, hstate⟩ := answer_vacant hd hv (hqs q List.mem_cons_self)
      have hd' : (r.answer q).1.options.enabled = false := by rw [hstate]; exact hd
      have hv' : (r.answer q).1.Vacant := by rw [hstate]; exact hv
      obtain ⟨hreplies, hreplay⟩ := ih hd' hv' fun q' hq' => hqs q' (List.mem_cons_of_mem q hq')
      constructor
      · rw [replies, hreply, hreplies, List.map_cons]
      · rw [replay, hreplay, hstate]

/-- Switching off drops the tables, and nothing brings them back. -/
theorem vacant_of_disabled (h : r.Reachable) (hd : r.options.enabled = false) : r.Vacant := by
  -- Having no tables is not kept by itself: while the resolver is switched on, tables are filled.
  have step : ∀ (r : Resolver) (q : Request), (r.options.enabled = false → r.Vacant) →
      (r.answer q).1.options.enabled = false → (r.answer q).1.Vacant := by
    intro r q hr hd
    by_cases hinit : q.isInit = true
    · cases q with
      | init enabled => exact ⟨rfl, rfl⟩
      | _ => cases hinit
    · by_cases hdisable : q = .disable
      · subst hdisable
        exact ⟨rfl, rfl⟩
      · have hinit : q.isInit = false := Bool.eq_false_iff.mpr hinit
        have hne : ∀ enabled, q ≠ .init enabled := by
          rintro enabled rfl
          cases hinit
        rw [r.answer_options hne hdisable] at hd
        rw [(answer_vacant hd (hr hd) hinit).2]
        exact hr hd
  obtain ⟨o, qs, rfl⟩ := h
  exact replay_preserves (P := fun r => r.options.enabled = false → r.Vacant) step
    (fun _ => ⟨rfl, rfl⟩) qs hd

/-- A resolver without tables that stays as it is, messages and counts included, and gives every
request the reply of one without effect, as long as none of them has it start over. -/
structure Inert (r : Resolver) : Prop where
  vacant : r.Vacant
  replies {qs : List Request} (hqs : ∀ q ∈ qs, q.isInit = false) :
    r.replies qs = qs.map Request.untouched
  replay {qs : List Request} (hqs : ∀ q ∈ qs, q.isInit = false) :
    r.replay qs = { r with moduleName := (r.replay qs).moduleName }
  stepwise (qs : List Request) :
    (Session.replay qs).run (.idle r) = (r.replies qs, .idle (r.replay qs))

end Resolver

/-- A session that is told to start over goes on like a new one with its legacy option. -/
def Session.StartsOver (s : Session) : Prop :=
  ∀ qs, (replay (.init true :: qs)).run s =
    (.done :: ((replay qs).run (new ⟨true, s.options.legacy⟩)).1,
      ((replay qs).run (new ⟨true, s.options.legacy⟩)).2)

theorem Session.startsOver (s : Session) : s.StartsOver := by
  intro qs
  unfold replay
  rw [run_mapM_cons]
  rfl

namespace Resolver

/-- A resolver that is switched off does nothing, and any resolver can be started over, in the
middle of its work as well. -/
theorem dormant (r : Resolver) :
    (r.Reachable → r.options.enabled = false → r.Inert) ∧
      ∀ s : Session, s.toResolver = r → s.StartsOver := by
  refine ⟨fun h hd => ?_, fun s _ => s.startsOver⟩
  have hv := vacant_of_disabled h hd
  refine ⟨hv, fun hqs => (replay_vacant hd hv hqs).1, fun hqs => (replay_vacant hd hv hqs).2, ?_⟩
  intro qs
  exact Prod.ext (Session.replay_replies r qs) (Session.replay_idle r qs)

/-- A resolver that was switched off after some work. -/
def retired : Resolver := (new ⟨true, false⟩).replay
  [.registerNumber 7, .resolve (.number 9), .process .sampleTruck, .disable, .beginModule "front"]

theorem dormant_retired :
    retired.Inert ∧ retired.diagnostics.errorCount = 1 ∧ retired.stats.totalResolved = 43 ∧
      (retired.process .sampleTruck).2 = .sampleTruck := by
  have h := (dormant retired).1 ⟨_, _, rfl⟩ (by decide +kernel)
  refine ⟨h, by decide +kernel, by decide +kernel, ?_⟩
  have hreply : retired.replies [.process .sampleTruck] = [.document .sampleTruck] :=
    h.replies (by decide)
  exact Reply.document.inj (List.cons.inj hreply).1

end Resolver

end RigNodes
