import DalService.Config

/-!
# The failure detector

`failure.rs`: the classification of silence into liveness evidence, the transition of the directory
that evidence justifies, and the tracker a meta leader keeps of the heartbeats it has seen. A
tracker only computes transitions; committing them is the leader's business. What matters to the
directory is which transitions it can ask for: `mem_evaluate` says that each one moves a listed node
that was active or suspect.
-/

set_option autoImplicit false

namespace DalService.Meta

/-- Liveness inferred from the time since the last heartbeat. -/
inductive Liveness
  | alive
  | suspect
  | down
  deriving DecidableEq, Repr

def classify (sinceLastHeartbeat : ℕ) (timeouts : Timeouts) : Liveness :=
  if timeouts.down ≤ sinceLastHeartbeat then .down
  else if timeouts.suspect ≤ sinceLastHeartbeat then .suspect
  else .alive

/-- The transition a piece of evidence justifies. -/
def nextState : NodeState → Liveness → Option NodeState
  | .suspect, .alive => some .active
  | .active, .suspect => some .suspect
  | .active, .down => some .down
  | .suspect, .down => some .down
  | _, _ => none

/-- Evidence moves no node that is down or draining. -/
theorem live_of_nextState {current state : NodeState} {evidence : Liveness}
    (h : nextState current evidence = some state) : current = .active ∨ current = .suspect := by
  cases current <;> cases evidence <;> simp_all [nextState]

/-- A node of the directory as the detector reads it: its id, its state and its incarnation. -/
abbrev ListedNode := NodeId × NodeState × UInt64

/-- The heartbeats a detector has seen, and the grace periods it has started. A stamp is a directory
incarnation, a process incarnation and a sequence; a grace period is a directory incarnation and its
start. -/
structure HeartbeatTracker where
  lastSeenMs : Std.ExtTreeMap NodeId UInt64
  lastStamp : Std.ExtTreeMap NodeId (UInt64 × UInt64 × UInt64)
  unobservedSinceMs : Std.ExtTreeMap NodeId (UInt64 × UInt64)
  maintenanceGraceSinceMs : Std.ExtTreeMap NodeId (UInt64 × UInt64)

def MAX_TRACKED_NODES : ℕ := MAX_CLUSTER_NODES

namespace HeartbeatTracker

/-- A tracker that has seen nothing. -/
def new : HeartbeatTracker where
  lastSeenMs := ∅
  lastStamp := ∅
  unobservedSinceMs := ∅
  maintenanceGraceSinceMs := ∅

def retainKnownNodes (tracker : HeartbeatTracker) (states : List ListedNode) : HeartbeatTracker :=
  let known (node : NodeId) : Bool := (states.map Prod.fst).contains node
  { lastStamp := tracker.lastStamp.filter fun node _ ↦ known node
    lastSeenMs := tracker.lastSeenMs.filter fun node _ ↦ known node
    unobservedSinceMs := tracker.unobservedSinceMs.filter fun node _ ↦ known node
    maintenanceGraceSinceMs := tracker.maintenanceGraceSinceMs.filter fun node _ ↦ known node }

/-- Suspend timeout decisions during maintenance. -/
def suspendTimeouts (tracker : HeartbeatTracker) (nowMs : UInt64) (states : List ListedNode) :
    HeartbeatTracker :=
  let retained := tracker.retainKnownNodes states
  { retained with
    maintenanceGraceSinceMs := states.foldl
      (fun grace (node, _, incarnation) ↦ grace.insert node (incarnation, nowMs))
      retained.maintenanceGraceSinceMs }

/-- Whether a stamp is not newer than the last one of its node. -/
def staleStamp (stamp previous : UInt64 × UInt64 × UInt64) : Bool :=
  stamp.1 < previous.1 || (stamp.1 = previous.1 &&
    (stamp.2.1 < previous.2.1 || (stamp.2.1 = previous.2.1 && stamp.2.2 ≤ previous.2.2)))

/-- Record a heartbeat, unless it is stale or one more node than can be tracked. -/
def observe (tracker : HeartbeatTracker) (node : NodeId)
    (incarnation processIncarnation seq nowMs : UInt64) : Bool × HeartbeatTracker :=
  let stamp := (incarnation, processIncarnation, seq)
  let refused :=
    match tracker.lastStamp[node]? with
    | some previous => staleStamp stamp previous
    | none => MAX_TRACKED_NODES ≤ tracker.lastStamp.size
  if refused then (false, tracker)
  else
    (true,
      { tracker with
        lastStamp := tracker.lastStamp.insert node stamp
        lastSeenMs := tracker.lastSeenMs.insert node nowMs
        maintenanceGraceSinceMs :=
          if tracker.maintenanceGraceSinceMs[node]?.any fun grace ↦ grace.1 = incarnation then
            tracker.maintenanceGraceSinceMs.erase node
          else tracker.maintenanceGraceSinceMs })

/-- Whether a heartbeat of the incarnation was the last one of the node. -/
def hasHeartbeat (tracker : HeartbeatTracker) (node : NodeId) (incarnation : UInt64) : Bool :=
  tracker.lastStamp[node]?.any fun stamp ↦ stamp.1 = incarnation

/-- The time since the last heartbeat of the incarnation, or since its grace period began. -/
def silenceMs (tracker : HeartbeatTracker) (node : NodeId) (incarnation nowMs : UInt64) :
    Option ℕ × HeartbeatTracker :=
  if tracker.hasHeartbeat node incarnation then
    (tracker.lastSeenMs[node]?.map fun seen ↦ nowMs.toNat - seen.toNat,
      { tracker with unobservedSinceMs := tracker.unobservedSinceMs.erase node })
  else
    match tracker.unobservedSinceMs[node]? with
    | some (expected, since) =>
      if expected = incarnation then (some (nowMs.toNat - since.toNat), tracker)
      else
        (none, { tracker with
          unobservedSinceMs := tracker.unobservedSinceMs.insert node (incarnation, nowMs) })
    | none =>
      (none, { tracker with
        unobservedSinceMs := tracker.unobservedSinceMs.insert node (incarnation, nowMs) })

/-- End a maintenance grace period that is over. It counts as the grace of a node that was never
heard of. -/
def endGrace (tracker : HeartbeatTracker) (node : NodeId) (incarnation expected since : UInt64) :
    HeartbeatTracker :=
  { tracker with
    maintenanceGraceSinceMs := tracker.maintenanceGraceSinceMs.erase node
    unobservedSinceMs :=
      if expected = incarnation ∧ !tracker.hasHeartbeat node incarnation then
        tracker.unobservedSinceMs.insert node (incarnation, since)
      else tracker.unobservedSinceMs }

/-- The transition current liveness justifies for one node past its grace period. -/
def judge (tracker : HeartbeatTracker) (nowMs : UInt64) (timeouts : Timeouts)
    (listed : ListedNode) : Option (NodeId × NodeState) × HeartbeatTracker :=
  let (node, current, incarnation) := listed
  let (silence, measured) := tracker.silenceMs node incarnation nowMs
  let transition := silence.bind fun silence ↦
    let evidence := classify (fromMillis silence) timeouts
    if !tracker.hasHeartbeat node incarnation ∧ evidence = .alive then none
    else (nextState current evidence).map fun state ↦ (node, state)
  (transition, measured)

/-- The transition justified for one node, if it has no grace period left. -/
def evaluateNode (tracker : HeartbeatTracker) (nowMs : UInt64) (timeouts : Timeouts)
    (listed : ListedNode) : Option (NodeId × NodeState) × HeartbeatTracker :=
  let (node, _, incarnation) := listed
  match tracker.maintenanceGraceSinceMs[node]? with
  | some (expected, since) =>
    if expected = incarnation ∧ nowMs.toNat - since.toNat < asMillis timeouts.down then
      (none, tracker)
    else (tracker.endGrace node incarnation expected since).judge nowMs timeouts listed
  | none => tracker.judge nowMs timeouts listed

/-- The transitions justified for each node in turn. -/
def evaluateAll (nowMs : UInt64) (timeouts : Timeouts) :
    HeartbeatTracker → List ListedNode → List (NodeId × NodeState) × HeartbeatTracker
  | tracker, [] => ([], tracker)
  | tracker, listed :: rest =>
    let (transition, next) := tracker.evaluateNode nowMs timeouts listed
    let (transitions, last) := evaluateAll nowMs timeouts next rest
    (transition.toList ++ transitions, last)

/-- The transitions of the directory that current liveness justifies. -/
def evaluate (tracker : HeartbeatTracker) (nowMs : UInt64) (timeouts : Timeouts)
    (states : List ListedNode) : List (NodeId × NodeState) × HeartbeatTracker :=
  evaluateAll nowMs timeouts (tracker.retainKnownNodes states) states

/-! ### What a tracker asks for -/

variable {tracker : HeartbeatTracker} {nowMs : UInt64} {timeouts : Timeouts}

theorem live_of_judge {listed : ListedNode} {transition : NodeId × NodeState}
    (h : (tracker.judge nowMs timeouts listed).1 = some transition) :
    transition.1 = listed.1 ∧ (listed.2.1 = .active ∨ listed.2.1 = .suspect) := by
  obtain ⟨silence, -, hsilence⟩ := Option.bind_eq_some_iff.mp h
  dsimp only at hsilence
  split_ifs at hsilence
  obtain ⟨state, hstate, rfl⟩ := Option.map_eq_some_iff.mp hsilence
  exact ⟨rfl, live_of_nextState hstate⟩

theorem live_of_evaluateNode {listed : ListedNode} {transition : NodeId × NodeState}
    (h : (tracker.evaluateNode nowMs timeouts listed).1 = some transition) :
    transition.1 = listed.1 ∧ (listed.2.1 = .active ∨ listed.2.1 = .suspect) := by
  unfold evaluateNode at h
  dsimp only at h
  split at h
  · split_ifs at h
    exact live_of_judge h
  · exact live_of_judge h

theorem mem_evaluateAll {states : List ListedNode} {transition : NodeId × NodeState}
    (h : transition ∈ (evaluateAll nowMs timeouts tracker states).1) :
    ∃ listed ∈ states, transition.1 = listed.1 ∧
      (listed.2.1 = .active ∨ listed.2.1 = .suspect) := by
  induction states generalizing tracker with
  | nil => cases h
  | cons listed rest ih =>
    rcases List.mem_append.mp h with hfirst | hrest
    · exact ⟨listed, List.mem_cons_self, live_of_evaluateNode (Option.mem_toList.mp hfirst)⟩
    · obtain ⟨other, hother, hlive⟩ := ih hrest
      exact ⟨other, List.mem_cons_of_mem listed hother, hlive⟩

/-- Every transition a tracker asks for moves a node of the directory that was active or suspect. -/
theorem mem_evaluate {states : List ListedNode} {transition : NodeId × NodeState}
    (h : transition ∈ (tracker.evaluate nowMs timeouts states).1) :
    ∃ listed ∈ states, transition.1 = listed.1 ∧
      (listed.2.1 = .active ∨ listed.2.1 = .suspect) :=
  mem_evaluateAll h

end HeartbeatTracker

end DalService.Meta
