import DalService.Foundation.Run
import DalService.Meta.Failure

/-!
# Down means silence

A `HeartbeatTracker` keeps four maps: the last stamp of a node, when it was accepted, the start of a
grace period nobody was heard in, and the start of a maintenance grace period. `Heard` and `Excused`
say what these maps owe to a heartbeat that was accepted and to a maintenance suspension. Every call
keeps what is owed, under every incarnation, unless it takes the place of what the tracker knows of
another incarnation while an older grace period of that one is open (`Follows`, `Tracked.step`), so
a node found down has been silent for the whole timeout (`down_needs_silence`).

A heartbeat of an incarnation that is not committed yet takes the place of the last stamp, but the
grace period that began before any heartbeat is still there: the tracker then measures silence from
it, and has forgotten the heartbeats in between (`newer_heartbeat_forgets`).
-/

set_option autoImplicit false

namespace DalService.Meta

open Foundation

/-! ### Calls of a tracker and what was told to it -/

/-- What a tracker is asked to do. -/
inductive TrackerCall
  | observe (node : NodeId) (incarnation processIncarnation seq nowMs : UInt64)
  | suspendTimeouts (nowMs : UInt64) (states : List ListedNode)
  | evaluate (nowMs : UInt64) (states : List ListedNode)

def TrackerCall.nowMs : TrackerCall → UInt64
  | .observe _ _ _ _ nowMs => nowMs
  | .suspendTimeouts nowMs _ => nowMs
  | .evaluate nowMs _ => nowMs

/-- A node under an incarnation, at a time. -/
abbrev Sign := NodeId × UInt64 × UInt64

/-- A tracker with the record of its calls: the heartbeats it accepted, and the nodes listed while
timeouts were suspended. -/
structure Watch where
  tracker : HeartbeatTracker
  nowMs : UInt64
  accepted : List Sign
  suspended : List Sign

namespace Watch

def new : Watch where
  tracker := .new
  nowMs := 0
  accepted := []
  suspended := []

/-- One call. -/
def step (timeouts : Timeouts) (w : Watch) : TrackerCall → Watch
  | .observe node incarnation processIncarnation seq nowMs =>
    let (accepted, tracker) := w.tracker.observe node incarnation processIncarnation seq nowMs
    if accepted then
      { w with
        tracker := tracker
        nowMs := nowMs
        accepted := (node, incarnation, nowMs) :: w.accepted }
    else { w with tracker := tracker, nowMs := nowMs }
  | .suspendTimeouts nowMs states =>
    { w with
      tracker := w.tracker.suspendTimeouts nowMs states
      nowMs := nowMs
      suspended := (states.map fun listed ↦ (listed.1, listed.2.2, nowMs)) ++ w.suspended }
  | .evaluate nowMs states =>
    { w with
      tracker := (w.tracker.evaluate nowMs timeouts states).2
      nowMs := nowMs }

/-- A call on a clock that does not go back. -/
def Next (timeouts : Timeouts) (w : Watch) (call : TrackerCall) (next : Watch) : Prop :=
  w.nowMs ≤ call.nowMs ∧ next = w.step timeouts call

/-- The call lists each node once, under the incarnation of its maintenance grace period if that is
open. A heartbeat that is accepted does not take the place of one of another incarnation whose grace
period is open. -/
def Follows (w : Watch) : TrackerCall → Prop
  | .observe node incarnation processIncarnation seq nowMs =>
    (w.tracker.observe node incarnation processIncarnation seq nowMs).1 = true →
      ∀ heard ≠ incarnation, w.tracker.hasHeartbeat node heard = true →
        ∀ since, w.tracker.unobservedSinceMs[node]? ≠ some (heard, since)
  | .suspendTimeouts _ states | .evaluate _ states =>
    (states.map Prod.fst).Nodup ∧ ∀ listed ∈ states, ∀ expected since,
      w.tracker.maintenanceGraceSinceMs[listed.1]? = some (expected, since) → expected = listed.2.2

end Watch

namespace HeartbeatTracker

variable {t t' : HeartbeatTracker} {node other : NodeId} {incarnation found : UInt64}
  {s nowMs : UInt64} {states : List ListedNode}
  {timeouts : Timeouts} {state : NodeState}

/-! ### The entries of one node -/

/-- The four entries of a node are the same. -/
structure SameAt (node : NodeId) (t t' : HeartbeatTracker) : Prop where
  lastStamp : t'.lastStamp[node]? = t.lastStamp[node]?
  lastSeenMs : t'.lastSeenMs[node]? = t.lastSeenMs[node]?
  unobservedSinceMs : t'.unobservedSinceMs[node]? = t.unobservedSinceMs[node]?
  maintenanceGraceSinceMs :
    t'.maintenanceGraceSinceMs[node]? = t.maintenanceGraceSinceMs[node]?

theorem SameAt.refl (t : HeartbeatTracker) : SameAt node t t := ⟨rfl, rfl, rfl, rfl⟩

theorem SameAt.trans {t'' : HeartbeatTracker} (h : SameAt node t t') (h' : SameAt node t' t'') :
    SameAt node t t'' :=
  ⟨h'.1.trans h.1, h'.2.trans h.2, h'.3.trans h.3, h'.4.trans h.4⟩

theorem SameAt.hasHeartbeat_eq (h : SameAt node t t') :
    t'.hasHeartbeat node incarnation = t.hasHeartbeat node incarnation := by
  rw [hasHeartbeat, hasHeartbeat, h.lastStamp]

/-- The tracker holds nothing of the node. -/
structure ForgottenAt (node : NodeId) (t : HeartbeatTracker) : Prop where
  lastStamp : t.lastStamp[node]? = none
  unobservedSinceMs : t.unobservedSinceMs[node]? = none
  maintenanceGraceSinceMs : t.maintenanceGraceSinceMs[node]? = none

theorem sameAt_retainKnownNodes (h : node ∈ states.map Prod.fst) :
    SameAt node t (t.retainKnownNodes states) := by
  have hknown : (states.map Prod.fst).contains node = true := List.contains_iff_mem.mpr h
  constructor <;>
    · refine Option.ext fun _ ↦ ?_
      simp only [retainKnownNodes, Std.ExtTreeMap.getElem?_filter', hknown,
        Option.filter_eq_some_iff, and_true]

theorem forgottenAt_retainKnownNodes
    (h : node ∉ states.map Prod.fst) : ForgottenAt node (t.retainKnownNodes states) := by
  have hknown : (states.map Prod.fst).contains node = false := by
    simpa using h
  constructor <;>
    · refine Option.ext fun _ ↦ ?_
      simp only [retainKnownNodes, Std.ExtTreeMap.getElem?_filter', hknown,
        Option.filter_eq_some_iff, Bool.false_eq_true, and_false, reduceCtorEq]

/-- Evaluating a node touches only its own entries. -/
theorem sameAt_silenceMs (h : other ≠ node) :
    SameAt node t (t.silenceMs other incarnation nowMs).2 := by
  unfold silenceMs
  split
  · constructor <;> simp [Std.ExtTreeMap.getElem?_erase, h]
  · split
    · split
      · exact SameAt.refl t
      · constructor <;> simp [Std.ExtTreeMap.getElem?_insert, h]
    · constructor <;> simp [Std.ExtTreeMap.getElem?_insert, h]

theorem sameAt_endGrace {expected since : UInt64} (h : other ≠ node) :
    SameAt node t (t.endGrace other incarnation expected since) := by
  unfold endGrace
  split_ifs <;> constructor <;>
    simp [Std.ExtTreeMap.getElem?_insert, Std.ExtTreeMap.getElem?_erase, h]

/-- What evaluating one node does: nothing during its maintenance grace period; after it, or without
one, the node is judged. -/
theorem evaluateNode_cases (t : HeartbeatTracker) (nowMs : UInt64) (timeouts : Timeouts)
    (node : NodeId) (state : NodeState) (incarnation : UInt64) :
    (t.evaluateNode nowMs timeouts (node, state, incarnation) = (none, t)) ∨
    (t.maintenanceGraceSinceMs[node]? = none ∧
      t.evaluateNode nowMs timeouts (node, state, incarnation) =
        t.judge nowMs timeouts (node, state, incarnation)) ∨
    ∃ expected since, t.maintenanceGraceSinceMs[node]? = some (expected, since) ∧
      (expected = incarnation → asMillis timeouts.down ≤ nowMs.toNat - since.toNat) ∧
      t.evaluateNode nowMs timeouts (node, state, incarnation) =
        (t.endGrace node incarnation expected since).judge nowMs timeouts
          (node, state, incarnation) := by
  unfold evaluateNode
  dsimp only
  cases hgrace : t.maintenanceGraceSinceMs[node]? with
  | none => exact .inr (.inl ⟨rfl, rfl⟩)
  | some grace =>
    obtain ⟨expected, since⟩ := grace
    dsimp only
    split_ifs with h
    · exact .inl rfl
    · exact .inr (.inr ⟨expected, since, rfl, fun hsame ↦ not_lt.mp fun hlt ↦ h ⟨hsame, hlt⟩, rfl⟩)

theorem sameAt_evaluateNode {listed : ListedNode} (h : listed.1 ≠ node) :
    SameAt node t (t.evaluateNode nowMs timeouts listed).2 := by
  obtain ⟨listedNode, state, incarnation⟩ := listed
  rcases evaluateNode_cases t nowMs timeouts listedNode state incarnation with
    heval | ⟨-, heval⟩ | ⟨expected, since, -, -, heval⟩
  · rw [heval]
    exact SameAt.refl t
  · rw [heval]
    exact sameAt_silenceMs h
  · rw [heval]
    exact (sameAt_endGrace h).trans (sameAt_silenceMs h)

/-! ### What is owed to a heartbeat and to a suspension -/

/-- The tracker measures the silence of the incarnation from the time or later. -/
structure Heard (node : NodeId) (incarnation s : UInt64) (t : HeartbeatTracker) : Prop where
  seen : t.hasHeartbeat node incarnation = true →
    ∀ seen, t.lastSeenMs[node]? = some seen → s ≤ seen
  unobserved : t.hasHeartbeat node incarnation = false →
    ∀ since, t.unobservedSinceMs[node]? = some (incarnation, since) → s ≤ since
  grace : ∀ since, t.maintenanceGraceSinceMs[node]? = some (incarnation, since) → s ≤ since

/-- A suspension at the time is a full timeout ago, or its grace period lasts, or a later sign of
life has taken its place. -/
def Excused (timeouts : Timeouts) (node : NodeId) (incarnation s nowMs : UInt64)
    (t : HeartbeatTracker) : Prop :=
  asMillis timeouts.down ≤ nowMs.toNat - s.toNat ∨
    (∃ since, t.maintenanceGraceSinceMs[node]? = some (incarnation, since) ∧ s ≤ since) ∨
    Heard node incarnation s t

theorem Heard.congr (h : Heard node incarnation s t) (hsame : SameAt node t t') :
    Heard node incarnation s t' where
  seen := by
    rw [hsame.hasHeartbeat_eq, hsame.lastSeenMs]
    exact h.seen
  unobserved := by
    rw [hsame.hasHeartbeat_eq, hsame.unobservedSinceMs]
    exact h.unobserved
  grace := by
    rw [hsame.maintenanceGraceSinceMs]
    exact h.grace

theorem Excused.congr (h : Excused timeouts node incarnation s nowMs t) (hsame : SameAt node t t') :
    Excused timeouts node incarnation s nowMs t' := by
  rcases h with hpast | ⟨since, hgrace, hle⟩ | hheard
  · exact .inl hpast
  · exact .inr (.inl ⟨since, by rw [hsame.maintenanceGraceSinceMs, hgrace], hle⟩)
  · exact .inr (.inr (hheard.congr hsame))

/-- Nothing is owed that a tracker that forgot the node could break. -/
theorem ForgottenAt.heard (h : ForgottenAt node t) : Heard node incarnation s t where
  seen := by simp [hasHeartbeat, h.lastStamp]
  unobserved := by simp [h.unobservedSinceMs]
  grace := by simp [h.maintenanceGraceSinceMs]

theorem Excused.later {laterMs : UInt64} (h : Excused timeouts node incarnation s nowMs t)
    (hle : nowMs ≤ laterMs) : Excused timeouts node incarnation s laterMs t := by
  have hle' := UInt64.le_iff_toNat_le.mp hle
  exact h.imp_left fun hpast ↦ by omega

/-- Measuring a silence leaves the heartbeats and the maintenance grace periods. -/
theorem kept_silenceMs (t : HeartbeatTracker) (node : NodeId) (found nowMs : UInt64) :
    (t.silenceMs node found nowMs).2.lastStamp = t.lastStamp ∧
    (t.silenceMs node found nowMs).2.lastSeenMs = t.lastSeenMs ∧
    (t.silenceMs node found nowMs).2.maintenanceGraceSinceMs = t.maintenanceGraceSinceMs := by
  unfold silenceMs
  split
  · exact ⟨rfl, rfl, rfl⟩
  · split
    · split <;> exact ⟨rfl, rfl, rfl⟩
    · exact ⟨rfl, rfl, rfl⟩

/-- Judging a node, under any incarnation, keeps what is owed to it. -/
theorem Heard.judge (h : Heard node incarnation s t) (hs : s ≤ nowMs) :
    Heard node incarnation s (t.judge nowMs timeouts (node, state, found)).2 := by
  change Heard node incarnation s (t.silenceMs node found nowMs).2
  obtain ⟨hstamp, hseen, hgrace⟩ := kept_silenceMs t node found nowMs
  refine ⟨?_, fun hbeat since hsince ↦ ?_, ?_⟩
  · rw [hasHeartbeat, hstamp, hseen]
    exact h.seen
  · rw [hasHeartbeat, hstamp] at hbeat
    unfold silenceMs at hsince
    split at hsince
    · simp at hsince
    · split at hsince
      · split_ifs at hsince
        · exact h.unobserved hbeat since hsince
        · simp only [Std.ExtTreeMap.getElem?_insert_self, Option.some.injEq,
            Prod.mk.injEq] at hsince
          exact hsince.2 ▸ hs
      · simp only [Std.ExtTreeMap.getElem?_insert_self, Option.some.injEq, Prod.mk.injEq] at hsince
        exact hsince.2 ▸ hs
  · rw [hgrace]
    exact h.grace

/-- A transition is justified by a silence that was measured, and an active node was heard. -/
theorem judge_eq_some {target : NodeState}
    (h : (t.judge nowMs timeouts (node, state, incarnation)).1 = some (node, target)) :
    ∃ silence, (t.silenceMs node incarnation nowMs).1 = some silence ∧
      (target = .down → timeouts.down ≤ fromMillis silence) ∧
      (target = .active →
        t.hasHeartbeat node incarnation = true ∧ fromMillis silence < timeouts.suspect) := by
  obtain ⟨silence, hsilence, htransition⟩ := Option.bind_eq_some_iff.mp h
  refine ⟨silence, hsilence, ?_⟩
  dsimp only at htransition
  split_ifs at htransition with hunheard
  obtain ⟨found, hnext, hfound⟩ := Option.map_eq_some_iff.mp htransition
  obtain rfl : found = target := (Prod.mk.inj hfound).2
  refine ⟨?_, ?_⟩
  · rintro rfl
    have hdown : classify (fromMillis silence) timeouts = .down := by
      revert hnext
      cases state <;> cases classify (fromMillis silence) timeouts <;> simp [nextState]
    unfold classify at hdown
    split_ifs at hdown with hle
    exact hle
  · rintro rfl
    have halive : classify (fromMillis silence) timeouts = .alive := by
      revert hnext
      cases state <;> cases classify (fromMillis silence) timeouts <;> simp [nextState]
    refine ⟨?_, ?_⟩
    · by_contra hbeat
      exact hunheard ⟨by simpa using hbeat, halive⟩
    · unfold classify at halive
      split_ifs at halive with hdown hsuspect
      exact not_le.mp hsuspect

/-- A silence is measured from the last heartbeat of the incarnation, or from its grace period. -/
theorem silenceMs_eq_some {silence : ℕ}
    (h : (t.silenceMs node incarnation nowMs).1 = some silence) :
    ∃ start : UInt64, silence = nowMs.toNat - start.toNat ∧
      (t.hasHeartbeat node incarnation = true → t.lastSeenMs[node]? = some start) ∧
      (t.hasHeartbeat node incarnation = false →
        t.unobservedSinceMs[node]? = some (incarnation, start)) := by
  unfold silenceMs at h
  split at h
  · next hbeat =>
    obtain ⟨start, hstart, rfl⟩ := Option.map_eq_some_iff.mp h
    exact ⟨start, rfl, fun _ ↦ hstart, fun hno ↦ absurd (hbeat.symm.trans hno) (by decide)⟩
  · next hbeat =>
    split at h
    · next expected start hstart =>
      split_ifs at h with hsame
      cases h
      exact ⟨start, rfl, fun hyes ↦ absurd hyes hbeat, fun _ ↦ hsame ▸ hstart⟩
    · cases h

/-- A node judged down has been silent since the time for the whole timeout. -/
theorem Heard.down_of_judge (h : Heard node incarnation s t)
    (hdown : (t.judge nowMs timeouts (node, state, incarnation)).1 = some (node, .down)) :
    timeouts.down ≤ fromMillis (nowMs.toNat - s.toNat) := by
  obtain ⟨silence, hsilence, hle, -⟩ := judge_eq_some hdown
  obtain ⟨start, rfl, hseen, hunobserved⟩ := silenceMs_eq_some hsilence
  have hstart : s ≤ start := by
    cases hbeat : t.hasHeartbeat node incarnation with
    | true => exact h.seen hbeat start (hseen hbeat)
    | false => exact h.unobserved hbeat start (hunobserved hbeat)
  have hshorter : nowMs.toNat - start.toNat ≤ nowMs.toNat - s.toNat :=
    Nat.sub_le_sub_left (UInt64.le_iff_toNat_le.mp hstart) _
  exact (hle rfl).trans (Nat.mul_le_mul_right 1000000 hshorter)

/-- The end of a grace period keeps what is owed: its start takes the place of the start of a
silence only if nothing was heard. -/
theorem Heard.endGrace {expected since : UInt64} (h : Heard node incarnation s t)
    (hgrace : t.maintenanceGraceSinceMs[node]? = some (expected, since)) :
    Heard node incarnation s (t.endGrace node found expected since) where
  seen := h.seen
  unobserved := by
    intro hbeat start hstart
    unfold HeartbeatTracker.endGrace at hstart
    dsimp only at hstart
    split_ifs at hstart with hends
    · rw [Std.ExtTreeMap.getElem?_insert_self, Option.some.injEq, Prod.mk.injEq] at hstart
      obtain ⟨rfl, rfl⟩ := hstart
      exact h.grace since (hends.1 ▸ hgrace)
    · exact h.unobserved hbeat start hstart
  grace := by
    intro start hstart
    simp [HeartbeatTracker.endGrace] at hstart

/-- Evaluating a node keeps what is owed to a heartbeat of it. -/
theorem Heard.evaluateNode (h : Heard node incarnation s t) (hs : s ≤ nowMs) :
    Heard node incarnation s (t.evaluateNode nowMs timeouts (node, state, found)).2 := by
  rcases evaluateNode_cases t nowMs timeouts node state found with
    heval | ⟨-, heval⟩ | ⟨expected, since, hgrace, -, heval⟩
  · rwa [heval]
  · rw [heval]
    exact h.judge hs
  · rw [heval]
    exact (h.endGrace hgrace).judge hs

theorem Heard.down (h : Heard node incarnation s t)
    (hdown : (t.evaluateNode nowMs timeouts (node, state, incarnation)).1 = some (node, .down)) :
    timeouts.down ≤ fromMillis (nowMs.toNat - s.toNat) := by
  rcases evaluateNode_cases t nowMs timeouts node state incarnation with
    heval | ⟨-, heval⟩ | ⟨expected, since, hgrace, -, heval⟩ <;> rw [heval] at hdown
  · cases hdown
  · exact h.down_of_judge hdown
  · exact (h.endGrace hgrace).down_of_judge hdown

/-- The open maintenance grace period of a node is of the incarnation under which it is listed. -/
def Matches (states : List ListedNode) (node : NodeId) (t : HeartbeatTracker) : Prop :=
  ∀ listed ∈ states, listed.1 = node → ∀ expected since,
    t.maintenanceGraceSinceMs[node]? = some (expected, since) → expected = listed.2.2

/-- Evaluating a node starts no maintenance grace period. -/
theorem Matches.evaluateNode (h : Matches states node t) :
    Matches states node (t.evaluateNode nowMs timeouts (node, state, found)).2 := by
  intro listed hlisted hnode expected since hsince
  refine h listed hlisted hnode expected since ?_
  rcases evaluateNode_cases t nowMs timeouts node state found with
    heval | ⟨-, heval⟩ | ⟨_, _, -, -, heval⟩
  · rwa [heval] at hsince
  · rw [heval] at hsince
    exact (kept_silenceMs _ _ _ _).2.2 ▸ hsince
  · rw [heval] at hsince
    have hnone := (kept_silenceMs _ _ _ _).2.2 ▸ hsince
    simp [endGrace] at hnone

/-- Evaluating a node keeps what is owed to a suspension of it. -/
theorem Excused.evaluateNode (h : Excused timeouts node incarnation s nowMs t) (hs : s ≤ nowMs)
    (hopen : ∀ expected since, t.maintenanceGraceSinceMs[node]? = some (expected, since) →
      expected = found) :
    Excused timeouts node incarnation s nowMs
      (t.evaluateNode nowMs timeouts (node, state, found)).2 := by
  rcases h with hpast | ⟨since, hsince, hle⟩ | hheard
  · exact .inl hpast
  · obtain rfl := hopen incarnation since hsince
    rcases evaluateNode_cases t nowMs timeouts node state incarnation with
      heval | ⟨hnone, -⟩ | ⟨expected, start, hgrace, hover, -⟩
    · rw [heval]
      exact .inr (.inl ⟨since, hsince, hle⟩)
    · rw [hsince] at hnone
      cases hnone
    · rw [hsince] at hgrace
      cases hgrace
      have hle' := UInt64.le_iff_toNat_le.mp hle
      have hover' := hover rfl
      exact .inl (by omega)
  · exact .inr (.inr (hheard.evaluateNode hs))

theorem Excused.down (h : Excused timeouts node incarnation s nowMs t)
    (hdown : (t.evaluateNode nowMs timeouts (node, state, incarnation)).1 = some (node, .down)) :
    asMillis timeouts.down ≤ nowMs.toNat - s.toNat := by
  rcases h with hpast | ⟨since, hsince, hle⟩ | hheard
  · exact hpast
  · rcases evaluateNode_cases t nowMs timeouts node state incarnation with
      heval | ⟨hnone, -⟩ | ⟨expected, start, hgrace, hover, -⟩
    · rw [heval] at hdown
      cases hdown
    · rw [hsince] at hnone
      cases hnone
    · rw [hsince] at hgrace
      cases hgrace
      have hle' := UInt64.le_iff_toNat_le.mp hle
      have hover' := hover rfl
      omega
  · have hle := hheard.down hdown
    unfold fromMillis at hle
    unfold asMillis
    omega

/-- A node found active was heard under its incarnation within the suspect timeout. -/
theorem active_of_evaluateNode
    (h : (t.evaluateNode nowMs timeouts (node, state, incarnation)).1 = some (node, .active)) :
    ∃ seen, t.lastSeenMs[node]? = some seen ∧ t.hasHeartbeat node incarnation = true ∧
      fromMillis (nowMs.toNat - seen.toNat) < timeouts.suspect := by
  have hjudged : ∃ settled : HeartbeatTracker, settled.lastStamp = t.lastStamp ∧
      settled.lastSeenMs = t.lastSeenMs ∧
      (settled.judge nowMs timeouts (node, state, incarnation)).1 = some (node, .active) := by
    rcases evaluateNode_cases t nowMs timeouts node state incarnation with
      heval | ⟨-, heval⟩ | ⟨expected, since, -, -, heval⟩ <;> rw [heval] at h
    · cases h
    · exact ⟨t, rfl, rfl, h⟩
    · exact ⟨t.endGrace node incarnation expected since, rfl, rfl, h⟩
  obtain ⟨settled, hstamp, hseen, hactive⟩ := hjudged
  obtain ⟨silence, hsilence, -, hheard⟩ := judge_eq_some hactive
  obtain ⟨hbeat, hlt⟩ := hheard rfl
  obtain ⟨start, rfl, hstart, -⟩ := silenceMs_eq_some hsilence
  refine ⟨start, hseen ▸ hstart hbeat, ?_, hlt⟩
  rwa [hasHeartbeat, hstamp] at hbeat

/-! ### One evaluation of the directory -/

/-- A transition of a listed node is one of its own evaluation. -/
theorem exists_evaluateNode_of_evaluateAll (hnodup : (states.map Prod.fst).Nodup)
    (hlisted : (node, state, incarnation) ∈ states) {target : NodeState}
    (htarget : (node, target) ∈ (evaluateAll nowMs timeouts t states).1) :
    ∃ found, SameAt node t found ∧
      (found.evaluateNode nowMs timeouts (node, state, incarnation)).1 = some (node, target) := by
  induction states generalizing t with
  | nil => cases hlisted
  | cons first rest ih =>
    rw [List.map_cons, List.nodup_cons] at hnodup
    rcases List.mem_cons.mp hlisted with rfl | hrest
    · rcases List.mem_append.mp htarget with hfirst | hlater
      · exact ⟨t, SameAt.refl t, Option.mem_toList.mp hfirst⟩
      · -- the rest of the list does not name the node again
        obtain ⟨listed, hlisted', hsame, -⟩ := mem_evaluateAll hlater
        exact absurd (List.mem_map.mpr ⟨listed, hlisted', hsame.symm⟩) hnodup.1
    · have hne : first.1 ≠ node := by
        intro heq
        exact hnodup.1 (heq ▸ List.mem_map.mpr ⟨_, hrest, rfl⟩)
      rcases List.mem_append.mp htarget with hfirst | hlater
      · exact absurd (live_of_evaluateNode (Option.mem_toList.mp hfirst)).1.symm hne
      · obtain ⟨found, hsame, heval⟩ := ih hnodup.2 hrest hlater
        exact ⟨found, (sameAt_evaluateNode hne).trans hsame, heval⟩

theorem exists_evaluateNode (hnodup : (states.map Prod.fst).Nodup)
    (hlisted : (node, state, incarnation) ∈ states) {target : NodeState}
    (htarget : (node, target) ∈ (t.evaluate nowMs timeouts states).1) :
    ∃ found, SameAt node t found ∧
      (found.evaluateNode nowMs timeouts (node, state, incarnation)).1 = some (node, target) := by
  have hmem : node ∈ states.map Prod.fst := List.mem_map.mpr ⟨_, hlisted, rfl⟩
  obtain ⟨found, hsame, heval⟩ := exists_evaluateNode_of_evaluateAll hnodup hlisted htarget
  exact ⟨found, (sameAt_retainKnownNodes hmem).trans hsame, heval⟩

/-- A property of the entries of one node that survives its evaluation, and that holds once the node
is forgotten. -/
structure Owed (timeouts : Timeouts) (node : NodeId) (nowMs : UInt64) (states : List ListedNode)
    (P : HeartbeatTracker → Prop) : Prop where
  congr : ∀ {t t' : HeartbeatTracker}, P t → SameAt node t t' → P t'
  forgotten : ∀ {t : HeartbeatTracker}, ForgottenAt node t → P t
  evaluateNode : ∀ {t : HeartbeatTracker} {state found}, (node, state, found) ∈ states → P t →
    P (t.evaluateNode nowMs timeouts (node, state, found)).2

variable {P : HeartbeatTracker → Prop}

theorem Owed.evaluateAll (hP : Owed timeouts node nowMs states P) {rest : List ListedNode}
    (hrest : rest ⊆ states) (h : P t) : P (evaluateAll nowMs timeouts t rest).2 := by
  induction rest generalizing t with
  | nil => exact h
  | cons first rest ih =>
    obtain ⟨hfirst, hrest⟩ := List.cons_subset.mp hrest
    refine ih hrest ?_
    by_cases hsame : first.1 = node
    · subst hsame
      exact hP.evaluateNode hfirst h
    · exact hP.congr h (sameAt_evaluateNode hsame)

/-- An evaluation keeps what is owed to a node it lists. A node it does not list is forgotten. -/
theorem Owed.evaluate (hP : Owed timeouts node nowMs states P) (h : P t) :
    P (t.evaluate nowMs timeouts states).2 := by
  refine hP.evaluateAll (List.Subset.refl _) ?_
  by_cases hmem : node ∈ states.map Prod.fst
  · exact hP.congr h (sameAt_retainKnownNodes hmem)
  · exact hP.forgotten (forgottenAt_retainKnownNodes hmem)

theorem owed_heard (hs : s ≤ nowMs) :
    Owed timeouts node nowMs states (Heard node incarnation s) where
  congr := fun h hsame ↦ h.congr hsame
  forgotten := fun h ↦ h.heard
  evaluateNode := fun _ h ↦ h.evaluateNode hs

theorem owed_excused (hs : s ≤ nowMs) :
    Owed timeouts node nowMs states fun t ↦
      Excused timeouts node incarnation s nowMs t ∧ Matches states node t where
  congr := fun ⟨h, hopen⟩ hsame ↦ ⟨h.congr hsame, by
    rwa [Matches, hsame.maintenanceGraceSinceMs]⟩
  forgotten := fun h ↦ ⟨.inr (.inr h.heard), by simp [Matches, h.maintenanceGraceSinceMs]⟩
  evaluateNode := fun hlisted ⟨h, hopen⟩ ↦
    ⟨h.evaluateNode hs (hopen _ hlisted rfl), hopen.evaluateNode⟩

/-! ### A suspension and a heartbeat -/

theorem getElem?_foldl_grace (states : List ListedNode)
    (graces : Std.ExtTreeMap NodeId (UInt64 × UInt64)) (hmem : node ∉ states.map Prod.fst) :
    (states.foldl (fun grace (listed, _, found) ↦ grace.insert listed (found, nowMs))
      graces)[node]? = graces[node]? := by
  induction states generalizing graces with
  | nil => rfl
  | cons first rest ih =>
    rw [List.map_cons, List.mem_cons, not_or] at hmem
    rw [List.foldl_cons, ih _ hmem.2, Std.ExtTreeMap.getElem?_insert,
      if_neg (by simpa using Ne.symm hmem.1)]

/-- A suspension starts a grace period for every node it lists. -/
theorem grace_suspendTimeouts (hnodup : (states.map Prod.fst).Nodup)
    (hlisted : (node, state, incarnation) ∈ states) :
    (t.suspendTimeouts nowMs states).maintenanceGraceSinceMs[node]? =
      some (incarnation, nowMs) := by
  obtain ⟨before, after, rfl⟩ := List.append_of_mem hlisted
  have hafter : node ∉ after.map Prod.fst := by
    rw [List.map_append, List.map_cons, List.nodup_append] at hnodup
    exact (List.nodup_cons.mp hnodup.2.1).1
  rw [suspendTimeouts, List.foldl_append, List.foldl_cons, getElem?_foldl_grace after _ hafter,
    Std.ExtTreeMap.getElem?_insert_self]

theorem forgottenAt_suspendTimeouts (hmem : node ∉ states.map Prod.fst) :
    ForgottenAt node (t.suspendTimeouts nowMs states) where
  lastStamp := (forgottenAt_retainKnownNodes hmem).lastStamp
  unobservedSinceMs := (forgottenAt_retainKnownNodes hmem).unobservedSinceMs
  maintenanceGraceSinceMs := (getElem?_foldl_grace states _ hmem).trans
    (forgottenAt_retainKnownNodes hmem).maintenanceGraceSinceMs

/-- The grace period a suspension leaves for a node is its own. -/
theorem since_of_suspendTimeouts (hnodup : (states.map Prod.fst).Nodup) {since : UInt64}
    (h : (t.suspendTimeouts nowMs states).maintenanceGraceSinceMs[node]? = some (found, since)) :
    since = nowMs := by
  by_cases hmem : node ∈ states.map Prod.fst
  · obtain ⟨⟨_, state, _⟩, hlisted, rfl⟩ := List.mem_map.mp hmem
    rw [grace_suspendTimeouts hnodup hlisted] at h
    cases h
    rfl
  · rw [(forgottenAt_suspendTimeouts hmem).maintenanceGraceSinceMs] at h
    cases h

theorem Heard.suspendTimeouts (h : Heard node incarnation s t) (hs : s ≤ nowMs)
    (hnodup : (states.map Prod.fst).Nodup) :
    Heard node incarnation s (t.suspendTimeouts nowMs states) := by
  by_cases hmem : node ∈ states.map Prod.fst
  · have hkept := h.congr (sameAt_retainKnownNodes hmem)
    exact ⟨hkept.seen, hkept.unobserved, fun since hsince ↦
      since_of_suspendTimeouts hnodup hsince ▸ hs⟩
  · exact (forgottenAt_suspendTimeouts hmem).heard

/-- Listed under another incarnation, a node has no open grace period that the suspension would
end. -/
theorem Excused.suspendTimeouts (h : Excused timeouts node incarnation s nowMs t) (hs : s ≤ nowMs)
    (hnodup : (states.map Prod.fst).Nodup) (hopen : Matches states node t) :
    Excused timeouts node incarnation s nowMs (t.suspendTimeouts nowMs states) := by
  rcases h with hpast | ⟨since, hsince, -⟩ | hheard
  · exact .inl hpast
  · by_cases hmem : node ∈ states.map Prod.fst
    · obtain ⟨⟨_, state, _⟩, hlisted, rfl⟩ := List.mem_map.mp hmem
      obtain rfl := hopen _ hlisted rfl incarnation since hsince
      exact .inr (.inl ⟨nowMs, grace_suspendTimeouts hnodup hlisted, hs⟩)
    · exact .inr (.inr (forgottenAt_suspendTimeouts hmem).heard)
  · exact .inr (.inr (hheard.suspendTimeouts hs hnodup))

variable {processIncarnation seq : UInt64}

/-- A refused heartbeat changes nothing. -/
theorem observe_of_refused
    (h : (t.observe node incarnation processIncarnation seq nowMs).1 = false) :
    (t.observe node incarnation processIncarnation seq nowMs).2 = t := by
  unfold observe at h ⊢
  dsimp only at h ⊢
  split_ifs at h ⊢
  rfl

/-- An accepted heartbeat is the last one of its node, seen now, and ends the maintenance grace
period of its incarnation. -/
theorem observe_of_accepted
    (h : (t.observe node incarnation processIncarnation seq nowMs).1 = true) :
    (t.observe node incarnation processIncarnation seq nowMs).2 =
      { t with
        lastStamp := t.lastStamp.insert node (incarnation, processIncarnation, seq)
        lastSeenMs := t.lastSeenMs.insert node nowMs
        maintenanceGraceSinceMs :=
          if t.maintenanceGraceSinceMs[node]?.any fun grace ↦ grace.1 = incarnation then
            t.maintenanceGraceSinceMs.erase node
          else t.maintenanceGraceSinceMs } := by
  unfold observe at h ⊢
  dsimp only at h ⊢
  split_ifs at h ⊢
  all_goals rfl

theorem grace_of_observe (h : (t.observe node incarnation processIncarnation seq nowMs).1 = true)
    {since : UInt64} (hsince : (t.observe node incarnation processIncarnation seq
      nowMs).2.maintenanceGraceSinceMs[node]? = some (found, since)) :
    found ≠ incarnation ∧ t.maintenanceGraceSinceMs[node]? = some (found, since) := by
  rw [observe_of_accepted h] at hsince
  dsimp only at hsince
  split_ifs at hsince with hopen
  · simp at hsince
  · refine ⟨?_, hsince⟩
    rintro rfl
    simp [hsince] at hopen

theorem heard_observe (h : (t.observe node incarnation processIncarnation seq nowMs).1 = true)
    (hs : s ≤ nowMs) :
    Heard node incarnation s (t.observe node incarnation processIncarnation seq nowMs).2 := by
  refine ⟨fun _ seen hseen ↦ ?_, fun hno ↦ ?_, fun since hsince ↦
    absurd rfl (grace_of_observe h hsince).1⟩
  · rw [observe_of_accepted h, Std.ExtTreeMap.getElem?_insert_self] at hseen
    cases hseen
    exact hs
  · simp [observe_of_accepted h, hasHeartbeat] at hno

/-- A heartbeat of another incarnation takes the place of the last one. What is owed to that one is
kept if no grace period of it is open. -/
theorem Heard.observe (hheard : Heard node found s t)
    (h : (t.observe node incarnation processIncarnation seq nowMs).1 = true)
    (hne : found ≠ incarnation) (hclosed : t.hasHeartbeat node found = true →
      ∀ since, t.unobservedSinceMs[node]? ≠ some (found, since)) :
    Heard node found s (t.observe node incarnation processIncarnation seq nowMs).2 := by
  refine ⟨fun hyes ↦ ?_, fun _ since hsince ↦ ?_, fun since hsince ↦
    hheard.grace since (grace_of_observe h hsince).2⟩
  · simp [observe_of_accepted h, hasHeartbeat, Ne.symm hne] at hyes
  · rw [observe_of_accepted h] at hsince
    cases hbeat : t.hasHeartbeat node found with
    | true => exact absurd hsince (hclosed hbeat since)
    | false => exact hheard.unobserved hbeat since hsince

/-- A heartbeat of another incarnation leaves the maintenance grace period. -/
theorem Excused.observe (hexcused : Excused timeouts node found s nowMs t)
    (h : (t.observe node incarnation processIncarnation seq nowMs).1 = true)
    (hne : found ≠ incarnation) (hclosed : t.hasHeartbeat node found = true →
      ∀ since, t.unobservedSinceMs[node]? ≠ some (found, since)) :
    Excused timeouts node found s nowMs
      (t.observe node incarnation processIncarnation seq nowMs).2 := by
  rcases hexcused with hpast | ⟨since, hsince, hle⟩ | hheard
  · exact .inl hpast
  · refine .inr (.inl ⟨since, ?_, hle⟩)
    rw [observe_of_accepted h]
    simp [hsince, hne]
  · exact .inr (.inr (hheard.observe h hne hclosed))

theorem sameAt_observe (hne : other ≠ node) :
    SameAt node t (t.observe other incarnation processIncarnation seq nowMs).2 := by
  unfold observe
  dsimp only
  split_ifs
  · exact SameAt.refl t
  all_goals
    constructor <;> simp [Std.ExtTreeMap.getElem?_insert, Std.ExtTreeMap.getElem?_erase, hne]

/-- An evaluation keeps the last heartbeats of the nodes it lists. -/
theorem lastStamp_evaluateAll : (evaluateAll nowMs timeouts t states).2.lastStamp = t.lastStamp ∧
    (evaluateAll nowMs timeouts t states).2.lastSeenMs = t.lastSeenMs := by
  induction states generalizing t with
  | nil => exact ⟨rfl, rfl⟩
  | cons first rest ih =>
    obtain ⟨listed, state, found⟩ := first
    have hnode : (t.evaluateNode nowMs timeouts (listed, state, found)).2.lastStamp = t.lastStamp ∧
        (t.evaluateNode nowMs timeouts (listed, state, found)).2.lastSeenMs = t.lastSeenMs := by
      rcases evaluateNode_cases t nowMs timeouts listed state found with
        heval | ⟨-, heval⟩ | ⟨expected, since, -, -, heval⟩
      · rw [heval]
        exact ⟨rfl, rfl⟩
      · rw [heval]
        exact ⟨(kept_silenceMs _ _ _ _).1, (kept_silenceMs _ _ _ _).2.1⟩
      · rw [heval]
        exact ⟨(kept_silenceMs _ _ _ _).1, (kept_silenceMs _ _ _ _).2.1⟩
    exact ⟨ih.1.trans hnode.1, ih.2.trans hnode.2⟩

end HeartbeatTracker

namespace Watch

open HeartbeatTracker

variable {timeouts : Timeouts} {w next : Watch} {call : TrackerCall} {nowMs : UInt64}
  {states : List ListedNode}

/-! ### Runs of a tracker -/

/-- The last stamp of every node is that of a heartbeat that was accepted at the time it was
seen. -/
def Witnessed (accepted : List Sign) (t : HeartbeatTracker) : Prop :=
  ∀ node stamp, t.lastStamp[node]? = some stamp →
    ∃ seen, t.lastSeenMs[node]? = some seen ∧ (node, stamp.1, seen) ∈ accepted

theorem Witnessed.retainKnownNodes {accepted : List Sign} {t : HeartbeatTracker}
    (h : Witnessed accepted t) (states : List ListedNode) :
    Witnessed accepted (t.retainKnownNodes states) := by
  intro node stamp hstamp
  by_cases hmem : node ∈ states.map Prod.fst
  · have hsame := sameAt_retainKnownNodes (t := t) hmem
    rw [hsame.lastStamp] at hstamp
    rw [hsame.lastSeenMs]
    exact h node stamp hstamp
  · rw [(forgottenAt_retainKnownNodes hmem).lastStamp] at hstamp
    cases hstamp

/-- Every accepted heartbeat is accounted for. -/
theorem witnessed_step (h : Witnessed w.accepted w.tracker) :
    Witnessed (w.step timeouts call).accepted (w.step timeouts call).tracker := by
  cases call with
  | observe node incarnation processIncarnation seq nowMs =>
    unfold step
    dsimp only
    split_ifs with haccepted
    · intro other stamp hother
      dsimp only at hother ⊢
      rw [observe_of_accepted haccepted, Std.ExtTreeMap.getElem?_insert] at hother
      rw [observe_of_accepted haccepted, Std.ExtTreeMap.getElem?_insert]
      split_ifs at hother ⊢ with hsame
      · cases hother
        obtain rfl : node = other := by simpa using hsame
        exact ⟨nowMs, rfl, List.mem_cons_self⟩
      · obtain ⟨seen, hat, hmem⟩ := h other stamp hother
        exact ⟨seen, hat, List.mem_cons_of_mem _ hmem⟩
    · rw [observe_of_refused (Bool.not_eq_true _ ▸ haccepted)]
      exact h
  | suspendTimeouts nowMs states => exact h.retainKnownNodes states
  | evaluate nowMs states =>
    intro node stamp hstamp
    have hkept := h.retainKnownNodes states node stamp
    rw [← lastStamp_evaluateAll.1, ← lastStamp_evaluateAll.2] at hkept
    exact hkept hstamp

/-- What a tracker owes to its calls. -/
structure Tracked (timeouts : Timeouts) (w : Watch) : Prop where
  clock : ∀ sign ∈ w.accepted ++ w.suspended, sign.2.2 ≤ w.nowMs
  heard : ∀ node incarnation s, (node, incarnation, s) ∈ w.accepted →
    Heard node incarnation s w.tracker
  excused : ∀ node incarnation s, (node, incarnation, s) ∈ w.suspended →
    Excused timeouts node incarnation s w.nowMs w.tracker

theorem tracked_new : Tracked timeouts new where
  clock := fun _ hsign ↦ by cases hsign
  heard := fun _ _ _ hsign ↦ by cases hsign
  excused := fun _ _ _ hsign ↦ by cases hsign

/-- The times recorded before a call are not after it. -/
theorem Tracked.le_nowMs (h : Tracked timeouts w) {laterMs : UInt64} (hclock : w.nowMs ≤ laterMs)
    {sign : Sign} (hsign : sign ∈ w.accepted ++ w.suspended) : sign.2.2 ≤ laterMs :=
  UInt64.le_trans (h.clock sign hsign) hclock

theorem Tracked.observe (h : Tracked timeouts w) {node : NodeId}
    {incarnation processIncarnation seq nowMs : UInt64} (hclock : w.nowMs ≤ nowMs)
    (hfollows : w.Follows (.observe node incarnation processIncarnation seq nowMs)) :
    Tracked timeouts
      (w.step timeouts (.observe node incarnation processIncarnation seq nowMs)) := by
  unfold step
  dsimp only
  split_ifs with haccepted
  · have hclosed := hfollows haccepted
    refine ⟨fun sign hsign ↦ ?_, fun other found s hsign ↦ ?_, fun other found s hsign ↦ ?_⟩
    · rcases List.mem_cons.mp hsign with rfl | hold
      · exact UInt64.le_refl nowMs
      · exact h.le_nowMs hclock hold
    · rcases List.mem_cons.mp hsign with hnew | hold
      · cases hnew
        exact heard_observe haccepted (UInt64.le_refl nowMs)
      · have hkept := h.heard other found s hold
        by_cases hother : node = other
        · subst hother
          by_cases hsame : found = incarnation
          · subst hsame
            exact heard_observe haccepted
              (h.le_nowMs hclock (List.mem_append_left w.suspended hold))
          · exact hkept.observe haccepted hsame (hclosed found hsame)
        · exact hkept.congr (sameAt_observe hother)
    · have hkept := (h.excused other found s hsign).later hclock
      by_cases hother : node = other
      · subst hother
        by_cases hsame : found = incarnation
        · subst hsame
          exact .inr (.inr (heard_observe haccepted
            (h.le_nowMs hclock (List.mem_append_right w.accepted hsign))))
        · exact hkept.observe haccepted hsame (hclosed found hsame)
      · exact hkept.congr (sameAt_observe hother)
  · rw [observe_of_refused (Bool.not_eq_true _ ▸ haccepted)]
    exact ⟨fun sign hsign ↦ h.le_nowMs hclock hsign, h.heard,
      fun other found s hsign ↦ (h.excused other found s hsign).later hclock⟩

theorem Tracked.suspendTimeouts (h : Tracked timeouts w) {nowMs : UInt64} (hclock : w.nowMs ≤ nowMs)
    (hfollows : w.Follows (.suspendTimeouts nowMs states)) :
    Tracked timeouts (w.step timeouts (.suspendTimeouts nowMs states)) := by
  obtain ⟨hnodup, hopen⟩ := hfollows
  refine ⟨fun sign hsign ↦ ?_, fun node incarnation s hsign ↦ ?_,
    fun node incarnation s hsign ↦ ?_⟩
  · rcases List.mem_append.mp hsign with hold | hsuspended
    · exact h.le_nowMs hclock (List.mem_append_left _ hold)
    · rcases List.mem_append.mp hsuspended with hfirst | hold
      · obtain ⟨listed, -, rfl⟩ := List.mem_map.mp hfirst
        exact UInt64.le_refl nowMs
      · exact h.le_nowMs hclock (List.mem_append_right _ hold)
  · exact (h.heard node incarnation s hsign).suspendTimeouts
      (h.le_nowMs hclock (List.mem_append_left w.suspended hsign)) hnodup
  · rcases List.mem_append.mp hsign with hfirst | hold
    · obtain ⟨⟨_, state, _⟩, hlisted, heq⟩ := List.mem_map.mp hfirst
      cases heq
      exact .inr (.inl ⟨nowMs, grace_suspendTimeouts hnodup hlisted, UInt64.le_refl nowMs⟩)
    · exact ((h.excused node incarnation s hold).later hclock).suspendTimeouts
        (h.le_nowMs hclock (List.mem_append_right w.accepted hold)) hnodup
        fun listed hlisted hnode ↦ hnode ▸ hopen listed hlisted

theorem Tracked.evaluate (h : Tracked timeouts w) {nowMs : UInt64}
    (hclock : w.nowMs ≤ nowMs) (hfollows : w.Follows (.evaluate nowMs states)) :
    Tracked timeouts (w.step timeouts (.evaluate nowMs states)) := by
  obtain ⟨-, hopen⟩ := hfollows
  refine ⟨fun sign hsign ↦ h.le_nowMs hclock hsign, fun node incarnation s hsign ↦ ?_,
    fun node incarnation s hsign ↦ ?_⟩
  · exact (owed_heard (h.le_nowMs hclock (List.mem_append_left w.suspended hsign))).evaluate
      (h.heard node incarnation s hsign)
  · have hs := h.le_nowMs hclock (List.mem_append_right w.accepted hsign)
    exact ((owed_excused hs).evaluate ⟨(h.excused node incarnation s hsign).later hclock,
      fun listed hlisted hnode ↦ hnode ▸ hopen listed hlisted⟩).1

/-- A call that follows the ones before keeps what the tracker owes. -/
theorem Tracked.step (h : Tracked timeouts w) (hnext : Next timeouts w call next)
    (hfollows : w.Follows call) : Tracked timeouts next := by
  obtain ⟨hclock, rfl⟩ := hnext
  cases call with
  | observe => exact h.observe hclock hfollows
  | suspendTimeouts => exact h.suspendTimeouts hclock hfollows
  | evaluate => exact h.evaluate hclock hfollows

/-- Assumes: a run of calls on a clock that does not go back, and a last evaluation of a directory
that lists each node once. If each call, the last included, follows the ones before, and the down
timeout is of whole milliseconds, a node found down was neither heard nor excused, under the
incarnation it is listed with, for the whole down timeout. In every run, a node found active was
heard under its incarnation within the suspect timeout. -/
theorem down_needs_silence {calls : List TrackerCall} (hrun : Trace (Next timeouts) new calls w)
    {nowMs : UInt64} (hclock : w.nowMs ≤ nowMs)
    (hnodup : (states.map Prod.fst).Nodup) {node : NodeId} {state : NodeState}
    {incarnation : UInt64} (hlisted : (node, state, incarnation) ∈ states) :
    (Trace (fun w call next ↦ Next timeouts w call next ∧ w.Follows call) new calls w →
      w.Follows (.evaluate nowMs states) → fromMillis (asMillis timeouts.down) = timeouts.down →
      (node, .down) ∈ (w.tracker.evaluate nowMs timeouts states).1 →
        ∀ s, (node, incarnation, s) ∈ w.accepted ∨ (node, incarnation, s) ∈ w.suspended →
          timeouts.down ≤ fromMillis (nowMs.toNat - s.toNat)) ∧
    ((node, .active) ∈ (w.tracker.evaluate nowMs timeouts states).1 →
      ∃ s, (node, incarnation, s) ∈ w.accepted ∧
        fromMillis (nowMs.toNat - s.toNat) < timeouts.suspect) := by
  refine ⟨fun hordered hfollows hwhole hdown s hsign ↦ ?_, fun hactive ↦ ?_⟩
  · have htracked : Tracked timeouts w :=
      hordered.stable (fun hstep h ↦ h.step hstep.1 hstep.2) tracked_new
    obtain ⟨found, hsame, heval⟩ := exists_evaluateNode hnodup hlisted hdown
    rcases hsign with haccepted | hsuspended
    · exact ((htracked.heard node incarnation s haccepted).congr hsame).down heval
    · have hexcused := (htracked.excused node incarnation s hsuspended).later hclock
      rw [← hwhole]
      exact Nat.mul_le_mul_right _ ((hexcused.congr hsame).down heval)
  · have hwitnessed : Witnessed w.accepted w.tracker := by
      refine hrun.stable (P := fun w ↦ Witnessed w.accepted w.tracker) ?_ ?_
      · rintro mid call after ⟨-, rfl⟩ hmid
        exact witnessed_step hmid
      · intro node stamp hstamp
        simp [new, HeartbeatTracker.new] at hstamp
    obtain ⟨found, hsame, heval⟩ := exists_evaluateNode hnodup hlisted hactive
    obtain ⟨seen, hseen, hbeat, hlt⟩ := active_of_evaluateNode heval
    rw [hsame.hasHeartbeat_eq] at hbeat
    rw [hsame.lastSeenMs] at hseen
    obtain ⟨stamp, hstamp, hincarnation⟩ := (Option.any_eq_true _ _).mp hbeat
    obtain rfl : stamp.1 = incarnation := of_decide_eq_true hincarnation
    obtain ⟨other, hother, hmem⟩ := hwitnessed node stamp hstamp
    obtain rfl := Option.some.inj (hother.symm.trans hseen)
    exact ⟨other, hmem, hlt⟩

/-- A node is heard at 100 ms, and from 300 ms on under an incarnation that is not committed. It is
found down 15 seconds after the first evaluation that finds no heartbeat of its own. -/
theorem down_needs_silence_heard_once :
    let timeouts : Timeouts := ⟨fromMillis 3000, fromMillis 15000⟩
    let states : List ListedNode := [(1, .active, 1)]
    let calls : List TrackerCall :=
      [.evaluate 0 states, .observe 1 1 1 1 100, .evaluate 200 states, .observe 1 2 1 1 300,
        .evaluate 400 states]
    let w := calls.foldl (step timeouts) new
    (1, .down) ∈ (w.tracker.evaluate 15400 timeouts states).1 ∧
      ∀ s, (1, 1, s) ∈ w.accepted ∨ (1, 1, s) ∈ w.suspended →
        timeouts.down ≤ fromMillis ((15400 : UInt64).toNat - s.toNat) := by
  intro timeouts states calls w
  have hlists : ∀ (v : Watch) (nowMs : UInt64),
      v.tracker.maintenanceGraceSinceMs[(1 : NodeId)]? = none →
        v.Follows (.evaluate nowMs states) := by
    intro v nowMs hnone
    simp [Follows, states, hnone]
  have hbeats : ∀ (v : Watch) (incarnation nowMs : UInt64),
      (v.tracker.unobservedSinceMs[(1 : NodeId)]?.all fun entry ↦ entry.1 = incarnation) = true →
      v.Follows (.observe 1 incarnation 1 1 nowMs) := by
    intro v incarnation nowMs hentry _ heard hne _ since hsince
    simp [hsince, hne] at hentry
  have hordered :
      Trace (fun w call next ↦ Next timeouts w call next ∧ w.Follows call) new calls w :=
    Trace.nil.concat ⟨⟨by decide, rfl⟩, hlists _ _ (by decide +kernel)⟩
      |>.concat ⟨⟨by decide +kernel, rfl⟩, hbeats _ _ _ (by decide +kernel)⟩
      |>.concat ⟨⟨by decide +kernel, rfl⟩, hlists _ _ (by decide +kernel)⟩
      |>.concat ⟨⟨by decide +kernel, rfl⟩, hbeats _ _ _ (by decide +kernel)⟩
      |>.concat ⟨⟨by decide +kernel, rfl⟩, hlists _ _ (by decide +kernel)⟩
  have hdown : (1, .down) ∈ (w.tracker.evaluate 15400 timeouts states).1 := by decide +kernel
  have hsilence := down_needs_silence (hordered.mono And.left)
    (show w.nowMs ≤ 15400 by decide +kernel) (show (states.map Prod.fst).Nodup by decide)
    (List.mem_singleton.mpr rfl)
  exact ⟨hdown, hsilence.1 hordered (hlists w _ (by decide +kernel)) (by decide +kernel) hdown⟩

/-- No heartbeat of node 1 is there at the first evaluation. It is heard under its incarnation at
100 ms, and under the next one, which is not committed, at 101 ms. The tracker measures its silence
from the first evaluation, and finds it down at 15 seconds. -/
theorem newer_heartbeat_forgets :
    let timeouts : Timeouts := ⟨fromMillis 3000, fromMillis 15000⟩
    let states : List ListedNode := [(1, .active, 1)]
    let calls : List TrackerCall :=
      [.evaluate 0 states, .observe 1 1 1 1 100, .observe 1 2 1 1 101]
    let w := calls.foldl (step timeouts) new
    Trace (Next timeouts) new calls w ∧
      (1, .down) ∈ (w.tracker.evaluate 15000 timeouts states).1 ∧ (1, 1, 100) ∈ w.accepted ∧
      fromMillis (15000 - 100) < timeouts.down := by
  intro timeouts states calls w
  refine ⟨?_, by decide +kernel, by decide +kernel, by decide⟩
  exact ((Trace.nil.concat ⟨by decide, rfl⟩).concat ⟨by decide, rfl⟩).concat
    ⟨by decide +kernel, rfl⟩

end Watch

end DalService.Meta
