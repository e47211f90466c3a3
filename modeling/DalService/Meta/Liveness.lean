import DalService.Meta.Directory
import DalService.Meta.Failure

/-!
# Liveness evidence and the directory

The meta group and the failure detectors of its leaders, composed. Detectors see any heartbeats at
any clock values, and read the directory of any state the group has been in, because a replica may
lag; what they ask for may be committed at any later time, any number of times, among any other
commands (`LivenessStep`).

The fence is the incarnation. `Follows` says what a later directory keeps of an earlier one: a node
that was listed has retired, or has a higher incarnation, or the same one and then stays down or
draining if it was. Every step is one of these (`Follows.step`), and a detector asks for changes of
incarnations the directory has had, so no request crosses a registration
(`liveness_never_revives`).
-/

set_option autoImplicit false

namespace DalService.Meta

open Foundation MetaStateMachine
open Function (update update_of_ne)

/-! ### What a later directory keeps -/

/-- The states that evidence cannot end. -/
def OutOfService (state : NodeState) : Prop := state = .down ∨ state = .draining

/-- What a later entry of a node keeps of an earlier one. -/
def Succeeds (old new : NodeDirectoryEntry) : Prop :=
  old.incarnation < new.incarnation ∨
    (old.incarnation = new.incarnation ∧ (OutOfService old.state → OutOfService new.state))

theorem Succeeds.refl (entry : NodeDirectoryEntry) : Succeeds entry entry := .inr ⟨rfl, id⟩

theorem Succeeds.trans {first second third : NodeDirectoryEntry} (hfirst : Succeeds first second)
    (hsecond : Succeeds second third) : Succeeds first third := by
  rcases hfirst with hlt | ⟨heq, hout⟩
  · rcases hsecond with hlt' | ⟨heq', -⟩
    · exact .inl (UInt64.lt_trans hlt hlt')
    · exact .inl (heq' ▸ hlt)
  · rcases hsecond with hlt' | ⟨heq', hout'⟩
    · exact .inl (heq ▸ hlt')
    · exact .inr ⟨heq.trans heq', hout' ∘ hout⟩

theorem Succeeds.incarnation_le {old new : NodeDirectoryEntry} (h : Succeeds old new) :
    old.incarnation ≤ new.incarnation := by
  rcases h with hlt | ⟨heq, -⟩
  · exact UInt64.le_of_lt hlt
  · rw [heq]
    exact UInt64.le_refl _

/-- What a later view keeps of the directory and the tombstones of an earlier one. -/
structure Follows (v w : MetaView) : Prop where
  node : ∀ id old, v.node id = some old →
    (∃ new, w.node id = some new ∧ Succeeds old new) ∨ w.retired id ≠ none
  retired : ∀ id, v.retired id ≠ none → w.retired id ≠ none

theorem Follows.refl (v : MetaView) : Follows v v :=
  ⟨fun _ old hold ↦ .inl ⟨old, hold, Succeeds.refl old⟩, fun _ h ↦ h⟩

theorem Follows.trans {u v w : MetaView} (hfirst : Follows u v) (hsecond : Follows v w) :
    Follows u w := by
  refine ⟨fun id old hold ↦ ?_, fun id h ↦ hsecond.retired id (hfirst.retired id h)⟩
  rcases hfirst.node id old hold with ⟨mid, hmid, hold'⟩ | hretired
  · rcases hsecond.node id mid hmid with ⟨new, hnew, hmid'⟩ | hretired
    · exact .inl ⟨new, hnew, hold'.trans hmid'⟩
    · exact .inr hretired
  · exact .inr (hsecond.retired id hretired)

variable {prims : Primitives} {identity : Option Identity} {v next : MetaView} {entry : Entry}

/-- Assumes: an entry is written that succeeds the one before, if there was one. -/
theorem Follows.write {id : NodeId} {written : NodeDirectoryEntry}
    (h : ∀ old, v.node id = some old → Succeeds old written) :
    Follows v { v with node := update v.node id (some written) } := by
  refine ⟨fun other old hold ↦ .inl ?_, fun _ h ↦ h⟩
  by_cases hother : other = id
  · subst hother
    exact ⟨written, by simp, h old hold⟩
  · exact ⟨old, by simpa [update_of_ne hother] using hold, Succeeds.refl old⟩

/-- A registration of a listed node moves it to the next incarnation. -/
theorem Registers.succ {controlAddr bulkAddr : String} {old : NodeDirectoryEntry}
    {incarnation : UInt64} (h : Registers controlAddr bulkAddr (some old) incarnation) :
    incarnation.toNat = old.incarnation.toNat + 1 := by
  cases h with
  | rejoined _ _ hnext => exact toNat_checkedSucc hnext

theorem Follows.step (hstep : Step prims identity v entry next) : Follows v next := by
  rcases hstep with rfl | heffect
  · exact Follows.refl next
  obtain ⟨logId, cmd⟩ := entry
  rcases heffect.control_cases with hdirectory | ⟨group, placed, -, rfl⟩ | hsame
  · cases hdirectory with
    | clusterInit => exact ⟨(Follows.refl v).node, fun _ h ↦ h⟩
    | registerNode nodeId controlAddr bulkAddr incarnation _ _ _ _ _ _ _ _ _ _ hregisters =>
      refine Follows.write fun old hold ↦ .inl ?_
      rw [hold] at hregisters
      have hnext := hregisters.succ
      rw [UInt64.lt_iff_toNat_lt]
      dsimp only
      omega
    | setNodeState nodeId state old hold hdown hdraining =>
      refine Follows.write fun other hother ↦ .inr ?_
      obtain rfl : old = other := Option.some.inj (hold.symm.trans hother)
      refine ⟨rfl, fun hout ↦ ?_⟩
      rcases hout with hwas | hwas
      · exact .inr (hdown hwas)
      · exact absurd hwas hdraining
    | retireNode nodeId old config =>
      refine ⟨fun id found hfound ↦ ?_, fun id hid ↦ ?_⟩
      · by_cases hsame : id = nodeId
        · exact .inr (by simp [hsame])
        · exact .inl ⟨found, by simpa [update_of_ne hsame] using hfound, Succeeds.refl found⟩
      · by_cases hsame : id = nodeId
        · simp [hsame]
        · simpa [update_of_ne hsame] using hid
  · exact ⟨(Follows.refl v).node, fun _ h ↦ h⟩
  · refine ⟨fun id old hold ↦ .inl ⟨old, ?_, Succeeds.refl old⟩, fun id h ↦ ?_⟩
    · rw [hsame.node, hold]
    · rwa [hsame.retired]

/-- Only a registration brings a node back that is down or draining, and it moves the node to the
next incarnation. -/
theorem registers_of_step (hstep : Step prims identity v entry next) {id : NodeId}
    {old new : NodeDirectoryEntry} (hold : v.node id = some old) (hout : OutOfService old.state)
    (hnew : next.node id = some new) (hlive : ¬OutOfService new.state) :
    (∃ controlAddr bulkAddr, entry.2 = .registerNode id controlAddr bulkAddr) ∧
      new.incarnation.toNat = old.incarnation.toNat + 1 ∧ new.state = .active := by
  have hchanged : next.node id ≠ v.node id := by
    intro hsame
    rw [hsame, hold] at hnew
    cases hnew
    exact hlive hout
  rcases hstep with rfl | heffect
  · exact absurd rfl hchanged
  obtain ⟨logId, cmd⟩ := entry
  rcases heffect.control_cases with hdirectory | ⟨group, placed, -, rfl⟩ | hsame
  · cases hdirectory with
    | clusterInit => exact absurd rfl hchanged
    | registerNode nodeId controlAddr bulkAddr incarnation _ _ _ _ _ _ _ _ _ _ hregisters =>
      rcases update_eq_some hnew with ⟨rfl, rfl⟩ | ⟨hid, -⟩
      · rw [hold] at hregisters
        exact ⟨⟨controlAddr, bulkAddr, rfl⟩, hregisters.succ, rfl⟩
      · exact absurd (by simp [update_of_ne hid]) hchanged
    | setNodeState nodeId state found hfound hdown hdraining =>
      rcases update_eq_some hnew with ⟨rfl, rfl⟩ | ⟨hid, -⟩
      · cases hold.symm.trans hfound
        rcases hout with hwas | hwas
        · exact absurd (.inr (hdown hwas)) hlive
        · exact absurd hwas hdraining
      · exact absurd (by simp [update_of_ne hid]) hchanged
    | retireNode nodeId =>
      exact absurd (by simp [update_of_ne (update_none_eq_some hnew).1]) hchanged
  · exact absurd rfl hchanged
  · exact absurd (by rw [hsame.node]) hchanged

/-! ### The group and its detectors -/

/-- The meta group with the detectors of its leaders: the state of the group and those before it,
the tracker of each node, and the changes of state any detector has asked for. -/
structure Cluster where
  current : Storage
  earlier : List Storage
  trackers : NodeId → HeartbeatTracker
  proposals : List MetaCommand

def Cluster.init (identity : Option Identity) (epoch : Option (BitVec 128)) : Cluster where
  current := emptyStorage identity epoch
  earlier := []
  trackers := fun _ ↦ .new
  proposals := []

/-- The states a replica may have applied. -/
def Cluster.states (c : Cluster) : List Storage := c.current :: c.earlier

def Cluster.setTracker (c : Cluster) (leader : NodeId) (tracker : HeartbeatTracker) : Cluster :=
  { c with trackers := update c.trackers leader tracker }

/-- The directory as a detector reads it. -/
def listedNodes (directory : List NodeDirectoryEntry) : List ListedNode :=
  directory.map fun entry ↦ (entry.nodeId, entry.state, entry.incarnation)

/-- The command a leader proposes for a transition, quoting the incarnation of the directory the
transition was computed from. -/
def proposal (directory : List NodeDirectoryEntry) (transition : NodeId × NodeState) :
    MetaCommand :=
  let incarnation := ((directory.find? (·.nodeId = transition.1)).map (·.incarnation)).getD 0
  .setNodeState transition.1 transition.2 incarnation

/-- One event: a detector sees a heartbeat, starts anew, suspends its timeouts or evaluates them
against the directory of a state it may have applied; or the group commits a command, which may be a
proposal, old or new, or any other. -/
inductive LivenessStep (prims : Primitives) (c : Cluster) : Cluster → Prop
  | heartbeat (leader node : NodeId) (incarnation processIncarnation seq nowMs : UInt64) :
    LivenessStep prims c (c.setTracker leader
      ((c.trackers leader).observe node incarnation processIncarnation seq nowMs).2)
  | restart (leader : NodeId) : LivenessStep prims c (c.setTracker leader .new)
  | suspend (leader : NodeId) (nowMs : UInt64) (s : Storage) (directory : List NodeDirectoryEntry)
    (happlied : s ∈ c.states) (hdirectory : MetaStateMachine.directory s = .ok directory) :
    LivenessStep prims c (c.setTracker leader
      ((c.trackers leader).suspendTimeouts nowMs (listedNodes directory)))
  | evaluate (leader : NodeId) (nowMs : UInt64) (timeouts : Timeouts) (s : Storage)
    (directory : List NodeDirectoryEntry) (happlied : s ∈ c.states)
    (hdirectory : MetaStateMachine.directory s = .ok directory) :
    LivenessStep prims c
      { c.setTracker leader
          ((c.trackers leader).evaluate nowMs timeouts (listedNodes directory)).2 with
        proposals := c.proposals ++
          ((c.trackers leader).evaluate nowMs timeouts (listedNodes directory)).1.map
            (proposal directory) }
  | commit (entry : Entry) (result : MetaApplyResult) (next : Storage)
    (hstep : step prims c.current entry = .ok (result, next)) :
    LivenessStep prims c { c with current := next, earlier := c.states }

/-- A change of state for an incarnation the node had in a state, while it was in service there. -/
def ComputedFrom (s : Storage) (cmd : MetaCommand) : Prop :=
  ∃ id state entry, (view s.state).node id = some entry ∧ ¬OutOfService entry.state ∧
    cmd = .setNodeState id state entry.incarnation

/-- What holds of the group with its detectors: every state of the group is well formed and followed
by the current one, and every proposal was computed from one of them. -/
structure LivenessInvariant (prims : Primitives) (c : Cluster) : Prop where
  placed : PlacementInvariant (view c.current.state)
  directory : DirectoryInvariant (view c.current.state)
  wellFormed : ∀ s ∈ c.states, WellFormed prims s.state
  follows : ∀ s ∈ c.states, Follows (view s.state) (view c.current.state)
  computed : ∀ cmd ∈ c.proposals, ∃ s ∈ c.states, ComputedFrom s cmd

theorem LivenessInvariant.init (identity : Option Identity) (epoch : Option (BitVec 128)) :
    LivenessInvariant prims (Cluster.init identity epoch) where
  placed := by
    rw [Cluster.init, view_emptyStorage]
    exact PlacementInvariant.empty _
  directory := by
    rw [Cluster.init, view_emptyStorage]
    exact DirectoryInvariant.empty _
  wellFormed := fun s hs ↦ List.mem_singleton.mp hs ▸ wellFormed_emptyStorage identity epoch
  follows := fun s hs ↦ List.mem_singleton.mp hs ▸ Follows.refl _
  computed := fun _ h ↦ by cases h

variable {c next : Cluster}

theorem LivenessInvariant.setTracker (h : LivenessInvariant prims c) (leader : NodeId)
    (tracker : HeartbeatTracker) : LivenessInvariant prims (c.setTracker leader tracker) :=
  ⟨h.placed, h.directory, h.wellFormed, h.follows, h.computed⟩

/-- A detector asks for changes of nodes in service, at the incarnations of the directory it
read. -/
theorem computedFrom_of_mem_evaluate {s : Storage} (hs : WellFormed prims s.state)
    {directory : List NodeDirectoryEntry}
    (hdirectory : MetaStateMachine.directory s = .ok directory) {tracker : HeartbeatTracker}
    {nowMs : UInt64} {timeouts : Timeouts} {transition : NodeId × NodeState}
    (h : transition ∈ (tracker.evaluate nowMs timeouts (listedNodes directory)).1) :
    ComputedFrom s (proposal directory transition) := by
  obtain ⟨entries, hentries, hlists⟩ := hs.directory_returns
  obtain rfl : entries = directory := Except.ok.inj (hentries.symm.trans hdirectory)
  obtain ⟨listed, hlisted, hid, hlive⟩ := HeartbeatTracker.mem_evaluate h
  obtain ⟨entry, hentry, rfl⟩ := List.mem_map.mp hlisted
  have hnode := hlists.node_of_mem hentry
  have hfound : entries.find? (·.nodeId = transition.1) = some entry := by
    cases hfind : entries.find? (·.nodeId = transition.1) with
    | none =>
      have := List.find?_eq_none.mp hfind entry hentry
      simp [hid] at this
    | some found =>
      have hsame : found.nodeId = entry.nodeId := by simpa [hid] using List.find?_some hfind
      have hother := hlists.node_of_mem (List.mem_of_find?_eq_some hfind)
      rw [hsame, hnode] at hother
      exact hother.symm
  refine ⟨entry.nodeId, transition.2, entry, hnode, ?_, ?_⟩
  · rcases hlive with hstate | hstate <;> simp_all [OutOfService]
  · rw [proposal, hfound, hid]
    rfl

theorem LivenessInvariant.step (h : LivenessInvariant prims c) (hstep : LivenessStep prims c next) :
    LivenessInvariant prims next := by
  cases hstep with
  | heartbeat leader | restart leader | suspend leader => exact h.setTracker leader _
  | evaluate leader nowMs timeouts s directory happlied hdirectory =>
    refine ⟨h.placed, h.directory, h.wellFormed, h.follows, fun cmd hcmd ↦ ?_⟩
    rcases List.mem_append.mp hcmd with hold | hnew
    · exact h.computed cmd hold
    · obtain ⟨transition, htransition, rfl⟩ := List.mem_map.mp hnew
      exact ⟨s, happlied,
        computedFrom_of_mem_evaluate (h.wellFormed s happlied) hdirectory htransition⟩
  | commit entry result after hstep =>
    obtain ⟨result', after', hstep', -, hwell, habstract⟩ :=
      exists_step (h.wellFormed c.current List.mem_cons_self) entry
    rw [hstep] at hstep'
    cases hstep'
    have hfollows := Follows.step habstract
    refine ⟨h.placed.step habstract, h.directory.step h.placed habstract, fun s hs ↦ ?_,
      fun s hs ↦ ?_, fun cmd hcmd ↦ ?_⟩
    · rcases List.mem_cons.mp hs with rfl | hs
      · exact hwell
      · exact h.wellFormed s hs
    · rcases List.mem_cons.mp hs with rfl | hs
      · exact Follows.refl _
      · exact (h.follows s hs).trans hfollows
    · obtain ⟨s, hs, hcomputed⟩ := h.computed cmd hcmd
      exact ⟨s, List.mem_cons_of_mem _ hs, hcomputed⟩

theorem LivenessInvariant.reachable (h : LivenessInvariant prims c)
    (hreach : Relation.ReflTransGen (LivenessStep prims) c next) : LivenessInvariant prims next :=
  invariant_of_reachable h (fun hmid hstep ↦ hmid.step hstep) hreach

/-- A node listed in a state of the group and in the current one is succeeded there. -/
theorem LivenessInvariant.succeeds (h : LivenessInvariant prims c) {s : Storage} (hs : s ∈ c.states)
    {id : NodeId} {old new : NodeDirectoryEntry} (hold : (view s.state).node id = some old)
    (hnew : (view c.current.state).node id = some new) : Succeeds old new := by
  rcases (h.follows s hs).node id old hold with ⟨found, hfound, hsucceeds⟩ | hretired
  · obtain rfl : found = new := Option.some.inj (hfound.symm.trans hnew)
    exact hsucceeds
  · obtain ⟨tombstone, htombstone⟩ := Option.ne_none_iff_exists'.mp hretired
    rw [h.directory.retired_node id tombstone htombstone] at hnew
    cases hnew

/-- The states of the group only grow in number. -/
theorem states_subset (hreach : Relation.ReflTransGen (LivenessStep prims) c next) :
    c.states ⊆ next.states := by
  refine invariant_of_reachable (P := fun mid ↦ c.states ⊆ mid.states)
    (List.Subset.refl _) ?_ hreach
  intro mid after hmid hstep
  cases hstep with
  | commit => exact List.subset_cons_of_subset _ hmid
  | _ => exact hmid

/-- A change of state that quotes an incarnation the node does not have is refused. -/
theorem rejected_of_incarnation_ne {s : Storage} (hs : WellFormed prims s.state) {id : NodeId}
    {incarnation : UInt64}
    (h : ∀ entry, (view s.state).node id = some entry → incarnation ≠ entry.incarnation)
    (state : NodeState) (logId : LogId) :
    ∃ reason, evaluate prims s (.setNodeState id state incarnation) logId =
      .ok (.rejected reason, []) := by
  refine rejected_of_dispatch hs ?_
  change ∃ reason, setNodeState s id state incarnation = .ok (.rejected reason, [])
  unfold setNodeState
  rw [hs.node_eq, ok_bind]
  cases hnode : (view s.state).node id with
  | none => exact ⟨_, rfl⟩
  | some entry =>
    dsimp only
    rw [if_pos (h entry hnode)]
    exact ⟨_, rfl⟩

variable (prims) in
/-- Assumes: a state the group and its detectors reach, whatever heartbeats were seen at whatever
times and whatever was committed. Later, a listed node has no lower incarnation than now, and if it
is down or draining now it is so later at the same incarnation. A step that brings such a node back
into service is a registration, which makes it active at the next incarnation; and from then on
every change of its state that a detector had asked for before is refused. -/
theorem liveness_never_revives (identity : Option Identity) (epoch : Option (BitVec 128))
    (c : Cluster)
    (hreach : Relation.ReflTransGen (LivenessStep prims) (Cluster.init identity epoch) c) :
    (∀ later, Relation.ReflTransGen (LivenessStep prims) c later → ∀ id old new,
      (view c.current.state).node id = some old → (view later.current.state).node id = some new →
      old.incarnation ≤ new.incarnation ∧
        (old.state = .down ∨ old.state = .draining → new.incarnation = old.incarnation →
          new.state ≠ .active ∧ new.state ≠ .suspect)) ∧
    ∀ next, LivenessStep prims c next → ∀ id old new,
      (view c.current.state).node id = some old → old.state = .down ∨ old.state = .draining →
      (view next.current.state).node id = some new → new.state = .active ∨ new.state = .suspect →
      (∃ logId controlAddr bulkAddr result,
        step prims c.current (logId, .registerNode id controlAddr bulkAddr) =
          .ok (result, next.current)) ∧
      new.state = .active ∧ new.incarnation.toNat = old.incarnation.toNat + 1 ∧
      ∀ later, Relation.ReflTransGen (LivenessStep prims) next later →
        ∀ state incarnation, .setNodeState id state incarnation ∈ c.proposals → ∀ logId, ∃ reason,
          evaluate prims later.current (.setNodeState id state incarnation) logId =
            .ok (.rejected reason, []) := by
  have hinv := (LivenessInvariant.init identity epoch).reachable hreach
  refine ⟨fun later hlater id old new hold hnew ↦ ?_,
    fun next hstep id old new hold hout hnew hlive ↦ ?_⟩
  · have hsucceeds :=
      (hinv.reachable hlater).succeeds (states_subset hlater List.mem_cons_self) hold hnew
    refine ⟨hsucceeds.incarnation_le, fun hout hsame ↦ ?_⟩
    rcases hsucceeds with hlt | ⟨-, hkept⟩
    · rw [hsame] at hlt
      exact absurd hlt (UInt64.lt_irrefl _)
    · rcases hkept hout with hstate | hstate <;> simp [hstate]
  · have hactive : ¬OutOfService new.state := by
      rcases hlive with hstate | hstate <;> simp [OutOfService, hstate]
    have hinv' := hinv.step hstep
    cases hstep with
    | commit entry result after hcommit =>
      obtain ⟨result', after', hcommit', -, -, habstract⟩ :=
        exists_step (hinv.wellFormed c.current List.mem_cons_self) entry
      rw [hcommit] at hcommit'
      cases hcommit'
      obtain ⟨⟨controlAddr, bulkAddr, hcmd⟩, hnext, hstate⟩ :=
        registers_of_step habstract hold hout hnew hactive
      refine ⟨⟨entry.1, controlAddr, bulkAddr, result, ?_⟩, hstate, hnext, ?_⟩
      · rw [← hcmd]
        exact hcommit
      · intro later hlater state incarnation hproposal logId
        have hlast := hinv'.reachable hlater
        refine rejected_of_incarnation_ne (hlast.wellFormed _ List.mem_cons_self) ?_ state logId
        intro found hfound
        -- what was quoted is at most the incarnation before the registration
        obtain ⟨s, hs, id', state', quoted, hquoted, -, hcmd'⟩ := hinv.computed _ hproposal
        cases hcmd'
        have hbefore := (hinv.succeeds hs hquoted hold).incarnation_le
        have hafter := (hlast.succeeds (states_subset hlater List.mem_cons_self) hnew
          hfound).incarnation_le
        rw [UInt64.le_iff_toNat_le] at hbefore hafter
        intro hsame
        rw [hsame] at hbefore
        omega
    | _ =>
      -- the other steps leave the state of the group alone
      have hsame : old = new := Option.some.inj (hold.symm.trans hnew)
      exact absurd (hsame ▸ hout) hactive

/-- A run of the log of the group takes the cluster along, with its detectors and their requests. -/
theorem reachable_of_run {c : Cluster} {entries : List Entry} {results : List MetaApplyResult}
    {s : Storage} (hrun : run (step prims) c.current entries = .ok (results, s)) :
    ∃ earlier, Relation.ReflTransGen (LivenessStep prims) c { c with current := s, earlier } := by
  induction entries generalizing c results with
  | nil =>
    cases hrun
    exact ⟨c.earlier, .refl⟩
  | cons entry rest ih =>
    obtain ⟨result, mid, tail, hstep, hrest, -⟩ := run_cons_eq_ok hrun
    obtain ⟨earlier, hreach⟩ := ih (c := { c with current := mid, earlier := c.states }) hrest
    exact ⟨earlier, .head (.commit entry result mid hstep) hreach⟩

/-- Node 1 registers, and a leader that hears nothing of it asks to set it down. The request is
committed and the node registers again: delivered once more, at any later time, the request is
refused, and at its first incarnation the node is never in service again. -/
theorem liveness_never_revives_registered_again :
    let prims : Primitives := ⟨fun _ ↦ Vector.replicate 32 0, id⟩
    let request : MetaCommand := .setNodeState 1 .down 1
    ∃ c next, Relation.ReflTransGen (LivenessStep prims) (Cluster.init (some ⟨7, 1⟩) none) c ∧
      LivenessStep prims c next ∧ request ∈ c.proposals ∧
      (view c.current.state).node 1 = some ⟨1, "a1", "b1", .down, 1⟩ ∧
      (view next.current.state).node 1 = some ⟨1, "a1", "b1", .active, 2⟩ ∧
      (∀ later, Relation.ReflTransGen (LivenessStep prims) c later → ∀ new,
        (view later.current.state).node 1 = some new → new.incarnation = 1 →
          new.state ≠ .active ∧ new.state ≠ .suspect) ∧
      ∀ later, Relation.ReflTransGen (LivenessStep prims) next later → ∀ logId, ∃ reason,
        evaluate prims later.current request logId = .ok (.rejected reason, []) := by
  intro prims request
  let listed : List NodeDirectoryEntry := [⟨1, "a1", "b1", .active, 1⟩]
  let first : List Entry :=
    [(⟨1, 1⟩, .clusterInit ⟨7, PROTOCOL_VERSION, 1, 3, .CANONICAL⟩ [1, 2, 3]),
      (⟨1, 2⟩, .registerNode 1 "a1" "b1")]
  let again : Entry := (⟨1, 4⟩, .registerNode 1 "a1" "b1")
  obtain ⟨results, s, hrun, -, hwell, -⟩ := exists_run prims (some ⟨7, 1⟩) none first
  obtain ⟨_, down, hdown, -, hwell', -⟩ := exists_step hwell (⟨1, 3⟩, request)
  obtain ⟨_, active, hactive, -⟩ := exists_step hwell' again
  -- the run, evaluated up to each of the three states
  have hfirst : (run (step prims) (emptyStorage (some ⟨7, 1⟩) none) first).toOption.map
      (fun found ↦ (directory found.2).toOption) = some (some listed) := by
    decide +kernel
  have hsecond : (run (step prims) (emptyStorage (some ⟨7, 1⟩) none)
      (first ++ [(⟨1, 3⟩, request)])).toOption.map (fun found ↦ (view found.2.state).node 1) =
        some (some ⟨1, "a1", "b1", .down, 1⟩) := by
    decide +kernel
  have hthird : (run (step prims) (emptyStorage (some ⟨7, 1⟩) none)
      (first ++ [(⟨1, 3⟩, request)] ++ [again])).toOption.map
        (fun found ↦ (view found.2.state).node 1) = some (some ⟨1, "a1", "b1", .active, 2⟩) := by
    decide +kernel
  rw [run_concat (run_concat hrun hdown) hactive] at hthird
  rw [run_concat hrun hdown] at hsecond
  rw [hrun] at hfirst
  have hdirectory : directory s = .ok listed := by
    cases hread : directory s with
    | error => simp [Except.toOption, hread] at hfirst
    | ok found => simpa [Except.toOption, hread] using hfirst
  obtain ⟨earlier, hreach⟩ := reachable_of_run (c := Cluster.init (some ⟨7, 1⟩) none) hrun
  -- the leader begins the grace of the node at 0 ms, and is past its timeout at 20000 ms
  let timeouts : Timeouts := ⟨fromMillis 5000, fromMillis 15000⟩
  have hgrace := hreach.tail (.evaluate 1 0 timeouts s listed List.mem_cons_self hdirectory)
  have hasked := hgrace.tail (.evaluate 1 20000 timeouts s listed List.mem_cons_self hdirectory)
  have hrequest : request ∈ (HeartbeatTracker.new.evaluate 0 timeouts (listedNodes listed)).1.map
      (proposal listed) ++ ((HeartbeatTracker.new.evaluate 0 timeouts
        (listedNodes listed)).2.evaluate 20000 timeouts (listedNodes listed)).1.map
          (proposal listed) := by
    decide +kernel
  obtain ⟨c, hc, rfl, hpending⟩ : ∃ c, Relation.ReflTransGen (LivenessStep prims)
      (Cluster.init (some ⟨7, 1⟩) none) c ∧ c.current = down ∧ request ∈ c.proposals :=
    ⟨_, hasked.tail (.commit (⟨1, 3⟩, request) _ down hdown), rfl,
      by simpa [Cluster.setTracker, Cluster.init] using hrequest⟩
  have hnode := Option.some.inj hsecond
  have hnode' := Option.some.inj hthird
  have hregister := LivenessStep.commit again _ active hactive
  obtain ⟨hlisted, hrevives⟩ := liveness_never_revives prims (some ⟨7, 1⟩) none c hc
  refine ⟨c, _, hc, hregister, hpending, hnode, hnode', fun later hlater new hnew ↦ ?_, ?_⟩
  · exact (hlisted later hlater 1 _ new hnode hnew).2 (.inl rfl)
  · intro later hlater logId
    obtain ⟨-, -, -, hrefused⟩ := hrevives _ hregister 1 _ _ hnode (.inl rfl) hnode' (.inl rfl)
    exact hrefused later hlater .down 1 hpending logId

end DalService.Meta
