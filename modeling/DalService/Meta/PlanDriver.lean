import DalService.Meta.PlacementShape
import DalService.Meta.Reconcile

/-!
# Driving a plan

`rebalance.rs`: the leader of a group compares the voters its group has committed with the record
and takes the step the phase of the plan needs. `drive` is that choice. A plan that exchanges a
voter has three phases that cannot be confused, and each has its step (`Exchanges.driven`). The
state machine also records a plan of the meta group that only removes a voter. The gate refuses such
a plan in the phase in which it should start, so the leader leaves it where it is
(`removal_is_not_driven`). Every plan of a data group can be driven, and in a run that applies no
such removal every plan of the meta group (`accepted_plan_can_be_driven`).
-/

set_option autoImplicit false

namespace DalService.Meta

open Foundation MetaStateMachine

/-- What the leader of a group does for the plan of its group in one tick. -/
inductive DriverStep
  | wait
  /-- Admit the learner, add it, and once it has caught up change the voters and report. -/
  | executeMove (learner : NodeId) (targetVoters : List NodeId)
  /-- Change the voters out of the joint configuration, then report. -/
  | completeJoint (targetVoters : List NodeId)
  | reportFinalize (targetVoters : List NodeId)
  | reportAbort
  | logMismatch
  deriving DecidableEq, Repr

/-- `execute_move` and `execute_meta_move` up to the first call: the gate, then the voter to add. -/
def executeMove (placement : Placement) (committedVoters : Finset NodeId)
    (targetVoters : List NodeId) : DriverStep :=
  if gate placement committedVoters ≠ .accept then .wait
  else
    match (ascending targetVoters).find? (· ∉ voterSet placement.voters) with
    | none => .wait
    | some learner => .executeMove learner targetVoters

/-- `drive_data_role` and `drive_meta_data_role`: the step for the phase of the plan. -/
def drive (placement : Placement) (committedVoters : Finset NodeId) : DriverStep :=
  match placement.move with
  | none => .wait
  | some plan =>
    match reconcile placement committedVoters with
    | .resumePlan =>
      if plan.aborting then .reportAbort
      else executeMove placement committedVoters plan.targetVoters
    | .completeJoint => .completeJoint plan.targetVoters
    | .finalize => if plan.aborting then .reportAbort else .reportFinalize plan.targetVoters
    | .noPlan => .wait
    | .error => .logMismatch

/-! ### The phases of an exchange -/

variable {placed : Placement} {plan : MovePlan}

/-- An exchange has an added and a removed voter. -/
theorem Exchanges.exists_mem {voters target : List NodeId} (h : Exchanges voters target) :
    ∃ added removed, voterSet target \ voterSet voters = {added} ∧
      removed ∈ voterSet voters ∧ removed ∉ voterSet target := by
  obtain ⟨added, hadded⟩ := Finset.card_eq_one.mp h.1
  obtain ⟨removed, hremoved⟩ := Finset.card_eq_one.mp h.2
  have hmem : removed ∈ voterSet voters \ voterSet target := hremoved ▸ Finset.mem_singleton_self _
  exact ⟨added, removed, hadded, Finset.mem_sdiff.mp hmem⟩

/-- The old voters, the target and both together are three sets. -/
theorem Exchanges.ne {voters target : List NodeId} (h : Exchanges voters target) :
    voterSet voters ≠ voterSet target ∧ voterSet voters ≠ voterSet voters ∪ voterSet target ∧
      voterSet target ≠ voterSet voters ∪ voterSet target := by
  obtain ⟨added, removed, hadded, hremoved, hgone⟩ := h.exists_mem
  have hnew : added ∈ voterSet target ∧ added ∉ voterSet voters :=
    Finset.mem_sdiff.mp (hadded ▸ Finset.mem_singleton_self _)
  refine ⟨fun heq ↦ hgone (heq ▸ hremoved), fun heq ↦ hnew.2 ?_, fun heq ↦ hgone ?_⟩
  · rw [heq]
    exact Finset.mem_union_right _ hnew.1
  · rw [heq]
    exact Finset.mem_union_left _ hremoved

/-- Assumes: the three sets of the plan differ. Each phase is the one of its own set. -/
theorem reconcile_iff (hmove : placed.move = some plan)
    (hexchange : Exchanges placed.voters plan.targetVoters) (committedVoters : Finset NodeId) :
    (reconcile placed committedVoters = .resumePlan ↔ committedVoters = voterSet placed.voters) ∧
    (reconcile placed committedVoters = .finalize ↔
      committedVoters = voterSet plan.targetVoters) ∧
    (reconcile placed committedVoters = .completeJoint ↔
      committedVoters = voterSet placed.voters ∪ voterSet plan.targetVoters) := by
  obtain ⟨htarget, hjoint, htargetJoint⟩ := hexchange.ne
  unfold reconcile
  rw [hmove]
  dsimp only
  split_ifs with hvoters hfinal hunion
  · simp [hvoters, htarget, hjoint]
  · simp [hfinal, htarget.symm, htargetJoint]
  · simp [hunion, hjoint.symm, htargetJoint.symm]
  · simp [hvoters, hfinal, hunion]

/-- The gate accepts the plan at the recorded voters. -/
theorem Exchanges.gate_eq (hmove : placed.move = some plan) (haborting : plan.aborting = false)
    (hexchange : Exchanges placed.voters plan.targetVoters) :
    gate placed (voterSet placed.voters) = .accept :=
  gate_eq_accept_iff.mpr ⟨plan, hmove, haborting, rfl, hexchange.1, hexchange.2⟩

/-- The leader adds the voter the plan adds. -/
theorem Exchanges.executeMove_eq (hmove : placed.move = some plan)
    (haborting : plan.aborting = false) (hexchange : Exchanges placed.voters plan.targetVoters) :
    ∃ learner, voterSet plan.targetVoters \ voterSet placed.voters = {learner} ∧
      executeMove placed (voterSet placed.voters) plan.targetVoters =
        .executeMove learner plan.targetVoters := by
  obtain ⟨added, -, hadded, -⟩ := hexchange.exists_mem
  have hnew : added ∈ voterSet plan.targetVoters ∧ added ∉ voterSet placed.voters :=
    Finset.mem_sdiff.mp (hadded ▸ Finset.mem_singleton_self _)
  refine ⟨added, hadded, ?_⟩
  rw [executeMove, if_neg (not_not.mpr (hexchange.gate_eq hmove haborting))]
  cases hfind : (ascending plan.targetVoters).find? (· ∉ voterSet placed.voters) with
  | none =>
    have hall := List.find?_eq_none.mp hfind added
      (mem_ascending.mpr (List.mem_toFinset.mp hnew.1))
    exact absurd (decide_eq_true hnew.2) hall
  | some learner =>
    have hlisted : learner ∈ voterSet plan.targetVoters :=
      List.mem_toFinset.mpr (mem_ascending.mp (List.mem_of_find?_eq_some hfind))
    have hmissing := List.find?_some hfind
    rw [decide_eq_true_eq] at hmissing
    have hlearner := Finset.mem_sdiff.mpr ⟨hlisted, hmissing⟩
    rw [hadded, Finset.mem_singleton] at hlearner
    rw [hlearner]

/-- Assumes: a plan that exchanges a voter and is not aborting. The leader has a step in each of its
three phases. -/
theorem Exchanges.driven (hmove : placed.move = some plan) (haborting : plan.aborting = false)
    (hexchange : Exchanges placed.voters plan.targetVoters) :
    (∃ learner, voterSet plan.targetVoters \ voterSet placed.voters = {learner} ∧
      drive placed (voterSet placed.voters) = .executeMove learner plan.targetVoters) ∧
    drive placed (voterSet plan.targetVoters) = .reportFinalize plan.targetVoters ∧
    drive placed (voterSet placed.voters ∪ voterSet plan.targetVoters) =
      .completeJoint plan.targetVoters := by
  have hphase := fun committed ↦ reconcile_iff hmove hexchange committed
  refine ⟨?_, ?_, ?_⟩
  · obtain ⟨learner, hlearner, hexecute⟩ := hexchange.executeMove_eq hmove haborting
    refine ⟨learner, hlearner, ?_⟩
    simp [drive, hmove, (hphase _).1.mpr rfl, haborting, hexecute]
  · simp [drive, hmove, (hphase _).2.1.mpr rfl, haborting]
  · simp [drive, hmove, (hphase _).2.2.mpr rfl]

/-! ### Runs that record exchanges -/

/-- A plan the command asks for adds a voter to the meta group, if it is one of the meta group. -/
def AddsVoter (v : MetaView) (cmd : MetaCommand) : Prop :=
  ∀ planId targetVoters placed, cmd = .createPlan .meta planId targetVoters →
    v.placement .meta = some placed → ¬voterSet targetVoters ⊆ voterSet placed.voters

/-- A replica takes an entry, and applies no removal of a meta voter. -/
def ReplacingStep (prims : Primitives) (s : Storage) (entry : Entry) (next : Storage) : Prop :=
  ∃ result, step prims s entry = .ok (result, next) ∧
    (result = .applied → AddsVoter (view s.state) entry.2)

/-- The move of the meta group, if there is one, exchanges a voter. -/
def MetaExchange (v : MetaView) : Prop :=
  ∀ placed plan, v.placement .meta = some placed → placed.move = some plan →
    Exchanges placed.voters plan.targetVoters

variable {prims : Primitives} {identity : Option Identity} {v next : MetaView} {entry : Entry}

theorem MetaExchange.written (h : MetaExchange v) {logId : LogId} {cmd : MetaCommand}
    {found : Placement} (hadds : AddsVoter v cmd)
    (heffect : PlacementEffect v logId cmd .meta found) {plan : MovePlan}
    (hmove : found.move = some plan) : Exchanges found.voters plan.targetVoters := by
  cases heffect with
  | plan config _ planId targetVoters old _ hplaced _ _ hlegal _ =>
    obtain ⟨-, hchange⟩ := hlegal
    cases hmove
    simp only [Exchanges, voterSet_ascending]
    rcases hchange with ⟨hadded, hremoved, -⟩ | ⟨hadded, -, -⟩
    · exact ⟨hadded, hremoved⟩
    · have hsub := Finset.sdiff_eq_empty_iff_subset.mp (Finset.card_eq_zero.mp hadded)
      exact absurd hsub (hadds planId targetVoters old rfl hplaced)
  | markAborting _ old plan hplaced hold =>
    cases hmove
    exact h old plan hplaced hold
  | finalize => cases hmove
  | abort => cases hmove

theorem MetaExchange.effect (h : MetaExchange v) (hadds : AddsVoter v entry.2)
    (heffect : Effect prims identity v entry.1 entry.2 next) : MetaExchange next := by
  intro placed plan hplaced hmove
  rcases heffect.control_cases with hdirectory | ⟨group, found, hplacement, rfl⟩ | hsame
  · generalize entry.2 = cmd at hdirectory
    cases hdirectory with
    | clusterInit =>
      simp only [Function.update_self, Option.some.injEq] at hplaced
      subst hplaced
      cases hmove
    | registerNode | setNodeState | retireNode => exact h placed plan hplaced hmove
  · rcases update_eq_some hplaced with ⟨rfl, rfl⟩ | ⟨-, hold⟩
    · exact h.written hadds hplacement hmove
    · exact h placed plan hold hmove
  · rw [hsame.placement] at hplaced
    exact h placed plan hplaced hmove

/-- Assumes: a run of a replica without plans of the meta group. It records no removal. -/
theorem trace_of_run {s last : Storage} {entries : List Entry} {results : List MetaApplyResult}
    (hrun : run (step prims) s entries = .ok (results, last))
    (hadds : ∀ entry ∈ entries, ∀ planId targetVoters,
      entry.2 ≠ .createPlan .meta planId targetVoters) :
    Trace (ReplacingStep prims) s entries last := by
  induction entries generalizing s results with
  | nil =>
    cases hrun
    exact .nil
  | cons entry rest ih =>
    obtain ⟨result, mid, tail, hstep, hrest, -⟩ := run_cons_eq_ok hrun
    have hfirst : ReplacingStep prims s entry mid :=
      ⟨result, hstep, fun _ planId targetVoters _ hcmd ↦
        absurd hcmd (hadds entry List.mem_cons_self planId targetVoters)⟩
    exact (Trace.singleton_iff.mpr hfirst).append
      (ih hrest fun later hlater ↦ hadds later (List.mem_cons_of_mem entry hlater))

/-- Without removals every plan of the meta group exchanges a voter. -/
theorem MetaExchange.of_trace {identity : Option Identity} {epoch : Option (BitVec 128)}
    {entries : List Entry} {last : Storage}
    (hrun : Trace (ReplacingStep prims) (emptyStorage identity epoch) entries last) :
    MetaExchange (view last.state) := by
  have hstable : WellFormed prims last.state ∧ MetaExchange (view last.state) := by
    refine hrun.stable
      (P := fun s : Storage ↦ WellFormed prims s.state ∧ MetaExchange (view s.state))
      (fun hstep h ↦ ?_) ⟨wellFormed_emptyStorage identity epoch, ?_⟩
    · obtain ⟨result, hresult, hadds⟩ := hstep
      obtain ⟨_, _, hok, -, hwell, hanswers⟩ := exists_answer h.1 _
      cases hresult.symm.trans hok
      rcases hanswers with ⟨-, hsame⟩ | ⟨happlied, heffect⟩
      · exact ⟨hwell, hsame ▸ h.2⟩
      · exact ⟨hwell, h.2.effect (hadds happlied) heffect⟩
    · rw [view_emptyStorage]
      intro placed plan hplaced
      cases hplaced
  exact hstable.2

/-- Assumes: a run of a replica, and a plan of any group, in any state reached, that is not
aborting; for a plan of the meta group, a run that applies no removal of a meta voter without a
replacement. The gate accepts the plan at the recorded voters. The recorded voters, the target and
both together are three sets, each phase is recognised by its own set only, and the leader has the
step of each phase: it adds the one new voter, it completes the joint configuration, it reports the
change. -/
theorem accepted_plan_can_be_driven (identity : Option Identity) (epoch : Option (BitVec 128))
    {entries : List Entry} {results : List MetaApplyResult} {last : Storage}
    (hrun : run (step prims) (emptyStorage identity epoch) entries = .ok (results, last))
    {group : GroupId} (hadds : group = .meta →
      Trace (ReplacingStep prims) (emptyStorage identity epoch) entries last)
    (hplaced : (view last.state).placement group = some placed)
    (hmove : placed.move = some plan) (haborting : plan.aborting = false) :
    gate placed (voterSet placed.voters) = .accept ∧
    voterSet placed.voters ≠ voterSet plan.targetVoters ∧
    voterSet placed.voters ≠ voterSet placed.voters ∪ voterSet plan.targetVoters ∧
    voterSet plan.targetVoters ≠ voterSet placed.voters ∪ voterSet plan.targetVoters ∧
    (∀ committedVoters,
      (reconcile placed committedVoters = .resumePlan ↔
        committedVoters = voterSet placed.voters) ∧
      (reconcile placed committedVoters = .finalize ↔
        committedVoters = voterSet plan.targetVoters) ∧
      (reconcile placed committedVoters = .completeJoint ↔
        committedVoters = voterSet placed.voters ∪ voterSet plan.targetVoters)) ∧
    (∃ learner, voterSet plan.targetVoters \ voterSet placed.voters = {learner} ∧
      drive placed (voterSet placed.voters) = .executeMove learner plan.targetVoters) ∧
    drive placed (voterSet plan.targetVoters) = .reportFinalize plan.targetVoters ∧
    drive placed (voterSet placed.voters ∪ voterSet plan.targetVoters) =
      .completeJoint plan.targetVoters := by
  have hexchange : Exchanges placed.voters plan.targetVoters := by
    cases group with
    | «meta» => exact MetaExchange.of_trace (hadds rfl) placed plan hplaced hmove
    | data partition =>
      obtain ⟨_, _, hok, -, -, htrace⟩ := exists_run prims identity epoch entries
      cases hrun.symm.trans hok
      obtain ⟨_, -, -, -, htarget⟩ := (PlacementInvariant.trace htrace).shaped _ _ hplaced
      exact (htarget plan hmove).2
  obtain ⟨htarget, hjoint, htargetJoint⟩ := hexchange.ne
  exact ⟨hexchange.gate_eq hmove haborting, htarget, hjoint, htargetJoint,
    reconcile_iff hmove hexchange, hexchange.driven hmove haborting⟩

/-- Voter 3 of the meta group is replaced by node 4. -/
theorem accepted_plan_can_be_driven_meta_replacement :
    let prims : Primitives := ⟨fun _ ↦ Vector.replicate 32 0, id⟩
    let entries : List Entry :=
      [(⟨1, 1⟩, .clusterInit ⟨7, PROTOCOL_VERSION, 4, 3, .CANONICAL⟩ [1, 2, 3]),
        (⟨1, 2⟩, .registerNode 4 "a4" "b4")]
    let plan : Entry := (⟨1, 3⟩, .createPlan .meta 0 [1, 2, 4])
    ∃ last, Trace (ReplacingStep prims) (emptyStorage (some ⟨7, 1⟩) none) (entries ++ [plan]) last ∧
      ∃ placed, (view last.state).placement .meta = some placed ∧
        gate placed (voterSet placed.voters) = .accept ∧
        drive placed (voterSet [1, 2, 4]) = .reportFinalize [1, 2, 4] := by
  intro prims entries plan
  obtain ⟨results, mid, hrun, -, hwell, -⟩ := exists_run prims (some ⟨7, 1⟩) none entries
  obtain ⟨result, last, hplan, -, -, -⟩ := exists_step hwell plan
  have hbefore : (run (step prims) (emptyStorage (some ⟨7, 1⟩) none) entries).toOption.map
      (fun found ↦ (view found.2.state).placement .meta) =
        some (some ⟨[1, 2, 3], ⟨1, 1⟩, none⟩) := by
    decide +kernel
  have hafter :
      (run (step prims) (emptyStorage (some ⟨7, 1⟩) none) (entries ++ [plan])).toOption.map
      (fun found ↦ (view found.2.state).placement .meta) =
        some (some ⟨[1, 2, 3], ⟨1, 1⟩, some ⟨3, [1, 2, 4], false⟩⟩) := by
    decide +kernel
  rw [hrun] at hbefore
  rw [run_concat hrun hplan] at hafter
  have hadds : AddsVoter (view mid.state) plan.2 := by
    intro planId targetVoters placed hcmd hplaced
    cases hcmd
    obtain rfl := Option.some.inj (hplaced.symm.trans (Option.some.inj hbefore))
    decide
  have htrace : Trace (ReplacingStep prims) (emptyStorage (some ⟨7, 1⟩) none) (entries ++ [plan])
      last := by
    refine (trace_of_run hrun ?_).concat ⟨result, hplan, fun _ ↦ hadds⟩
    simp [entries]
  have hplaced := Option.some.inj hafter
  have hdriven := accepted_plan_can_be_driven (some ⟨7, 1⟩) none (run_concat hrun hplan)
    (fun _ ↦ htrace) hplaced rfl rfl
  exact ⟨last, htrace, _, hplaced, hdriven.1, hdriven.2.2.2.2.2.2.1⟩

/-- A meta group of five voters accepts a plan that removes one of them. The gate refuses it at the
recorded voters, which are also the joint set, and the leader waits. -/
theorem removal_is_not_driven :
    let prims : Primitives := ⟨fun _ ↦ Vector.replicate 32 0, id⟩
    let entries : List Entry :=
      [(⟨1, 1⟩, .clusterInit ⟨7, PROTOCOL_VERSION, 4, 3, .CANONICAL⟩ [1, 2, 3, 4, 5]),
        (⟨1, 2⟩, .createPlan .meta 0 [1, 2, 3, 4])]
    (run (step prims) (emptyStorage (some ⟨7, 1⟩) none) entries).toOption.map (fun found ↦
        (found.1, (view found.2.state).placement .meta)) =
      some ([.applied, .applied],
        some ⟨[1, 2, 3, 4, 5], ⟨1, 1⟩, some ⟨2, [1, 2, 3, 4], false⟩⟩) ∧
    gate ⟨[1, 2, 3, 4, 5], ⟨1, 1⟩, some ⟨2, [1, 2, 3, 4], false⟩⟩ (voterSet [1, 2, 3, 4, 5]) =
      .rejectNotSingleVoter ∧
    voterSet [1, 2, 3, 4, 5] = voterSet [1, 2, 3, 4, 5] ∪ voterSet [1, 2, 3, 4] ∧
    drive ⟨[1, 2, 3, 4, 5], ⟨1, 1⟩, some ⟨2, [1, 2, 3, 4], false⟩⟩ (voterSet [1, 2, 3, 4, 5]) =
      .wait := by
  decide +kernel

end DalService.Meta
