import DalService.Meta.PlacementShape

/-!
# The life of a planned move

A placement that exists moves in four ways: a plan is recorded, marked aborting, finalized at its
target, or resolved by an abort report (`Evolves`). A plan has the index of the entry that recorded
it for its id, so with increasing indices no id is given twice (`PlanInvariant`), and a command that
names a plan which is gone is refused ever after. `fenced_plan_lifecycle` is the result for runs of
a replica.
-/

set_option autoImplicit false

namespace DalService.Meta

open Foundation MetaStateMachine

/-! ### What a step does to one placement -/

/-- The changes of a placement that exists. -/
inductive Evolves (group : GroupId) (entry : Entry) (placed : Placement) : Placement → Prop
  | kept : Evolves group entry placed placed
  | planned (planId : UInt64) (targetVoters : List NodeId)
    (hcmd : entry.2 = .createPlan group planId targetVoters) (hmove : placed.move = none) :
    Evolves group entry placed
      { placed with
        move := some { planId := entry.1.index, targetVoters := ascending targetVoters,
                       aborting := false } }
  | marked (plan : MovePlan) (hcmd : entry.2 = .markAborting group plan.planId)
    (hmove : placed.move = some plan) (haborting : plan.aborting = false) :
    Evolves group entry placed { placed with move := some { plan with aborting := true } }
  | finalized (plan : MovePlan) (observation : DataConfigObservation)
    (hcmd : entry.2 = .finalizePlan group plan.planId observation)
    (hmove : placed.move = some plan) (hgroup : observation.group = group)
    (hplan : observation.planId = plan.planId) (haborting : plan.aborting = false)
    (hobserved : voterSet observation.voterSet = voterSet plan.targetVoters) :
    Evolves group entry placed
      { voters := plan.targetVoters, votersLogId := observation.configLogId, move := none }
  | aborted (plan : MovePlan) (observation : DataConfigObservation) (voters : List NodeId)
    (hcmd : entry.2 = .abortReport group plan.planId observation)
    (hmove : placed.move = some plan) (hgroup : observation.group = group)
    (hplan : observation.planId = plan.planId) (haborting : plan.aborting = true)
    (hobserved : voterSet observation.voterSet = voterSet voters)
    (hvoters : voters = placed.voters ∨ voters = plan.targetVoters) :
    Evolves group entry placed
      { voters := voters, votersLogId := observation.configLogId, move := none }

/-- The ways a group gets its first placement: with the cluster record, or by a seed. -/
inductive Seeds (entry : Entry) : GroupId → Placement → Prop
  | cluster (config : ClusterConfig) (metaVoters : List NodeId)
    (hcmd : entry.2 = .clusterInit config metaVoters) :
    Seeds entry .meta
      { voters := ascending metaVoters, votersLogId := entry.1, move := none }
  | data (partition : UInt16) (voters : List NodeId)
    (hcmd : entry.2 = .seedPlacement (.data partition) voters) :
    Seeds entry (.data partition)
      { voters := ascending voters, votersLogId := entry.1, move := none }

theorem sorted_of_shaped {v : MetaView} {config : ClusterConfig} {placed : Placement}
    {group : GroupId} (h : Shaped v config placed group) :
    placed.voters.Pairwise (· < ·) ∧
      ∀ plan, placed.move = some plan → plan.targetVoters.Pairwise (· < ·) := by
  cases group with
  | «meta» => exact ⟨h.1.sorted, fun plan hplan ↦ (h.2 plan hplan).1.sorted⟩
  | data partition => exact ⟨h.2.1.sorted, fun plan hplan ↦ (h.2.2 plan hplan).1.sorted⟩

variable {prims : Primitives} {identity : Option Identity} {v next : MetaView} {entry : Entry}
  {group : GroupId}

/-- The placement a command writes is the first of its group, or evolves from the one before. The
lists the state machine sorts again are sorted already. -/
theorem PlacementEffect.cases {placed : Placement} (hinv : PlacementInvariant v)
    (h : PlacementEffect v entry.1 entry.2 group placed) :
    (v.placement group = none ∧ Seeds entry group placed) ∨
      ∃ old, v.placement group = some old ∧ Evolves group entry old placed := by
  obtain ⟨logId, cmd⟩ := entry
  cases h with
  | seed config partition voters _ _ _ _ _ hnew => exact .inl ⟨hnew, .data partition voters rfl⟩
  | plan config _ planId targetVoters old _ hplaced hmove =>
    exact .inr ⟨old, hplaced, .planned planId targetVoters rfl hmove⟩
  | markAborting _ old plan hplaced hmove haborting =>
    exact .inr ⟨old, hplaced, .marked plan rfl hmove haborting⟩
  | finalize _ old plan observation hplaced hmove hgroup hplan haborting hobserved =>
    obtain ⟨config, -, hshaped⟩ := hinv.shaped _ _ hplaced
    rw [sortUnstable_of_sorted ((sorted_of_shaped hshaped).2 plan hmove)]
    exact .inr
      ⟨old, hplaced, .finalized plan observation rfl hmove hgroup hplan haborting hobserved⟩
  | abort _ old plan observation voters hplaced hmove hgroup hplan haborting hobserved hvoters =>
    obtain ⟨config, -, hshaped⟩ := hinv.shaped _ _ hplaced
    have hsorted : voters.Pairwise (· < ·) := by
      rcases hvoters with rfl | rfl
      · exact (sorted_of_shaped hshaped).1
      · exact (sorted_of_shaped hshaped).2 plan hmove
    rw [sortUnstable_of_sorted hsorted]
    exact .inr ⟨old, hplaced,
      .aborted plan observation voters rfl hmove hgroup hplan haborting hobserved hvoters⟩

/-- A step keeps the placement of a group, gives the group its first one, or changes the one it
has. -/
theorem placement_cases (hinv : PlacementInvariant v) (hstep : Step prims identity v entry next)
    (group : GroupId) :
    next.placement group = v.placement group ∨
      (v.placement group = none ∧
        ∃ placed, next.placement group = some placed ∧ Seeds entry group placed) ∨
      ∃ old placed, v.placement group = some old ∧ next.placement group = some placed ∧
        Evolves group entry old placed := by
  rcases hstep with rfl | heffect
  · exact .inl rfl
  rcases heffect.control_cases with hdirectory | ⟨written, placed, hplacement, rfl⟩ | hsame
  · obtain ⟨logId, cmd⟩ := entry
    cases hdirectory with
    | clusterInit config metaVoters bound hnew =>
      by_cases hgroup : group = .meta
      · subst hgroup
        refine .inr (.inl ⟨?_, _, by simp, .cluster config metaVoters rfl⟩)
        by_contra hsome
        obtain ⟨placed, hplaced⟩ := Option.ne_none_iff_exists'.mp hsome
        obtain ⟨old, hold, -⟩ := hinv.shaped .meta placed hplaced
        rw [hnew] at hold
        cases hold
      · exact .inl (Function.update_of_ne hgroup _ _)
    | _ => exact .inl rfl
  · by_cases hgroup : group = written
    · subst hgroup
      refine .inr ?_
      rcases hplacement.cases hinv with ⟨hnone, hseeds⟩ | ⟨old, hold, hevolves⟩
      · exact .inl ⟨hnone, placed, Function.update_self _ _ _, hseeds⟩
      · exact .inr ⟨old, placed, hold, Function.update_self _ _ _, hevolves⟩
    · exact .inl (Function.update_of_ne hgroup _ _)
  · exact .inl (by rw [hsame.placement])

/-- A placement that exists stays, and evolves. -/
theorem evolves_of_step (hinv : PlacementInvariant v) (hstep : Step prims identity v entry next)
    {placed : Placement} (hplaced : v.placement group = some placed) :
    ∃ placed', next.placement group = some placed' ∧ Evolves group entry placed placed' := by
  rcases placement_cases hinv hstep group with hkept | ⟨hnone, -⟩ | ⟨old, placed', hold, hnext, h⟩
  · exact ⟨placed, hkept.trans hplaced, .kept⟩
  · rw [hnone] at hplaced
    cases hplaced
  · obtain rfl : old = placed := Option.some.inj (hold.symm.trans hplaced)
    exact ⟨placed', hnext, h⟩

/-! ### The fence -/

/-- What the fence of a placement allows one step to do. -/
structure Fenced (group : GroupId) (cmd : MetaCommand) (placed next : Placement) : Prop where
  voters : next.voters ≠ placed.voters → ∃ plan observation, placed.move = some plan ∧
    (cmd = .finalizePlan group plan.planId observation ∨
      cmd = .abortReport group plan.planId observation) ∧
    observation.group = group ∧ observation.planId = plan.planId ∧
    voterSet observation.voterSet = voterSet plan.targetVoters
  plan : ∀ plan later, placed.move = some plan → next.move = some later →
    later.planId = plan.planId ∧ later.targetVoters = plan.targetVoters ∧
      (plan.aborting = true → later.aborting = true)
  finalized : ∀ plan, placed.move = some plan → plan.aborting = false → next.move = none →
    ∃ observation, cmd = .finalizePlan group plan.planId observation ∧
      next.voters = plan.targetVoters
  aborted : ∀ plan, placed.move = some plan → plan.aborting = true → next.move = none →
    ∃ observation, cmd = .abortReport group plan.planId observation ∧
      ((voterSet observation.voterSet = voterSet placed.voters ∧ next.voters = placed.voters) ∨
        (voterSet observation.voterSet = voterSet plan.targetVoters ∧
          next.voters = plan.targetVoters))

theorem Evolves.fenced {placed placed' : Placement}
    (h : Evolves group entry placed placed') : Fenced group entry.2 placed placed' := by
  have hmoves : ∀ {first second : MovePlan}, placed.move = some first → placed.move = some second →
      first = second := fun hfirst hsecond ↦ Option.some.inj (hfirst.symm.trans hsecond)
  have hcleared : ∀ {plan : MovePlan}, placed.move = some plan → placed.move ≠ none :=
    fun hmove ↦ by simp [hmove]
  cases h with
  | kept =>
    refine ⟨fun hne ↦ absurd rfl hne, fun plan later hplan hlater ↦ ?_,
      fun plan hplan _ hnone ↦ absurd hnone (hcleared hplan),
      fun plan hplan _ hnone ↦ absurd hnone (hcleared hplan)⟩
    obtain rfl := hmoves hplan hlater
    exact ⟨rfl, rfl, id⟩
  | planned planId targetVoters _ hmove =>
    exact ⟨fun hne ↦ absurd rfl hne, fun plan _ hplan ↦ absurd hmove (hcleared hplan),
      fun plan hplan ↦ absurd hmove (hcleared hplan),
      fun plan hplan ↦ absurd hmove (hcleared hplan)⟩
  | marked plan _ hmove =>
    refine ⟨fun hne ↦ absurd rfl hne, fun old later hold hlater ↦ ?_, fun _ _ _ hnone ↦ ?_,
      fun _ _ _ hnone ↦ ?_⟩
    · obtain rfl := hmoves hold hmove
      obtain rfl := Option.some.inj hlater
      exact ⟨rfl, rfl, fun _ ↦ rfl⟩
    · cases hnone
    · cases hnone
  | finalized plan observation hcmd hmove hgroup hplan haborting hobserved =>
    refine ⟨fun _ ↦ ⟨plan, observation, hmove, .inl hcmd, hgroup, hplan, hobserved⟩,
      fun _ _ _ hlater ↦ ?_, fun old hold _ _ ↦ ?_, fun old hold hold' _ ↦ ?_⟩
    · cases hlater
    · obtain rfl := hmoves hold hmove
      exact ⟨observation, hcmd, rfl⟩
    · obtain rfl := hmoves hold hmove
      rw [haborting] at hold'
      cases hold'
  | aborted plan observation voters hcmd hmove hgroup hplan haborting hobserved hvoters =>
    refine ⟨fun hne ↦ ⟨plan, observation, hmove, .inr hcmd, hgroup, hplan, ?_⟩,
      fun _ _ _ hlater ↦ ?_, fun old hold hold' _ ↦ ?_, fun old hold _ _ ↦ ⟨observation, ?_⟩⟩
    · rcases hvoters with rfl | rfl
      · exact absurd rfl hne
      · exact hobserved
    · cases hlater
    · obtain rfl := hmoves hold hmove
      rw [haborting] at hold'
      cases hold'
    · obtain rfl := hmoves hold hmove
      refine ⟨hcmd, ?_⟩
      rcases hvoters with rfl | rfl
      · exact .inl ⟨hobserved, rfl⟩
      · exact .inr ⟨hobserved, rfl⟩

/-! ### Plan ids -/

/-- The plan a view records for a group. -/
def MetaView.plan (v : MetaView) (group : GroupId) : Option MovePlan :=
  (v.placement group).bind (·.move)

theorem MetaView.plan_eq_some_iff {plan : MovePlan} :
    v.plan group = some plan ↔
      ∃ placed, v.placement group = some placed ∧ placed.move = some plan :=
  Option.bind_eq_some_iff

/-- A recorded plan was recorded before, or the step recorded it under the index of its entry. -/
theorem plan_cases (hinv : PlacementInvariant v) (hstep : Step prims identity v entry next)
    {plan : MovePlan} (hplan : next.plan group = some plan) :
    (∃ old, v.plan group = some old ∧ old.planId = plan.planId) ∨
      (v.plan group = none ∧ plan.planId = entry.1.index ∧
        ∃ planId targetVoters, entry.2 = .createPlan group planId targetVoters) := by
  obtain ⟨placed', hnext, hmove'⟩ := MetaView.plan_eq_some_iff.mp hplan
  rcases placement_cases hinv hstep group with hkept | ⟨-, placed, hplaced, hseeds⟩ |
    ⟨old, placed, hold, hplaced, hevolves⟩
  · rw [hkept] at hnext
    exact .inl ⟨plan, MetaView.plan_eq_some_iff.mpr ⟨placed', hnext, hmove'⟩, rfl⟩
  · obtain rfl : placed = placed' := Option.some.inj (hplaced.symm.trans hnext)
    cases hseeds <;> cases hmove'
  · obtain rfl : placed = placed' := Option.some.inj (hplaced.symm.trans hnext)
    cases hevolves with
    | kept => exact .inl ⟨plan, MetaView.plan_eq_some_iff.mpr ⟨_, hold, hmove'⟩, rfl⟩
    | planned planId targetVoters hcmd hmove =>
      obtain rfl := Option.some.inj hmove'
      refine .inr ⟨?_, rfl, planId, targetVoters, hcmd⟩
      simp [MetaView.plan, hold, hmove]
    | marked marked _ hmove =>
      obtain rfl := Option.some.inj hmove'
      exact .inl ⟨marked, MetaView.plan_eq_some_iff.mpr ⟨old, hold, hmove⟩, rfl⟩
    | finalized => cases hmove'
    | aborted => cases hmove'

/-- Every recorded plan has the index of an entry applied before, and no two groups record plans of
one id. -/
structure PlanInvariant (done : List Entry) (v : MetaView) : Prop where
  placed : PlacementInvariant v
  index : ∀ group plan, v.plan group = some plan → plan.planId ∈ done.map (·.1.index)
  unique : ∀ first second plan other, v.plan first = some plan → v.plan second = some other →
    plan.planId = other.planId → first = second

theorem PlanInvariant.step {done : List Entry} (h : PlanInvariant done v)
    (hindices : IncreasingIndices (done ++ [entry])) (hstep : Step prims identity v entry next) :
    PlanInvariant (done ++ [entry]) next := by
  have hfresh : ∀ {group old}, v.plan group = some old → old.planId ≠ entry.1.index :=
    fun hold ↦ hindices.ne (h.index _ _ hold) List.mem_cons_self
  refine ⟨h.placed.step hstep, fun group plan hplan ↦ ?_,
    fun first second plan other hplan hother hid ↦ ?_⟩
  · rw [List.map_append, List.mem_append]
    rcases plan_cases h.placed hstep hplan with ⟨old, hold, hid⟩ | ⟨-, hid, -⟩
    · exact .inl (hid ▸ h.index group old hold)
    · exact .inr (by simp [hid])
  · rcases plan_cases h.placed hstep hplan with ⟨old, hold, hfirst⟩ | ⟨-, hfirst, _, _, hcmd⟩ <;>
      rcases plan_cases h.placed hstep hother with
        ⟨old', hold', hsecond⟩ | ⟨-, hsecond, _, _, hcmd'⟩
    · exact h.unique first second old old' hold hold' (by rw [hfirst, hsecond, hid])
    · exact absurd (hfirst.trans (hid.trans hsecond)) (hfresh hold)
    · exact absurd (hsecond.trans (hid.symm.trans hfirst)) (hfresh hold')
    · rw [hcmd] at hcmd'
      cases hcmd'
      rfl

theorem PlanInvariant.trace {epoch : BitVec 128} {entries : List Entry}
    (hindices : IncreasingIndices entries)
    (htrace : Trace (Step prims identity) (MetaView.empty epoch) entries v) :
    PlanInvariant entries v := by
  refine htrace.invariant (P := PlanInvariant) ?_ fun done entry mid next hbefore hmid hstep ↦
    hmid.step (hindices.sublist hbefore.sublist) hstep
  refine ⟨PlacementInvariant.empty epoch, fun _ _ h ↦ ?_, fun _ _ _ _ h ↦ ?_⟩
  · cases h
  · cases h

/-- No group records a plan of the id. -/
def Unrecorded (planId : UInt64) (v : MetaView) : Prop :=
  ∀ group plan, v.plan group = some plan → plan.planId ≠ planId

/-- Assumes: an id that no entry of a trace has for its index. A trace records no plan of that id
where there is none. -/
theorem Unrecorded.trace {planId : UInt64} {entries : List Entry}
    (hinv : PlacementInvariant v) (hunused : ∀ entry ∈ entries, planId ≠ entry.1.index)
    (htrace : Trace (Step prims identity) v entries next) (h : Unrecorded planId v) :
    Unrecorded planId next := by
  refine (htrace.invariant (P := fun _ w ↦ PlacementInvariant w ∧ Unrecorded planId w) ⟨hinv, h⟩
    fun done entry mid after hbefore hmid hstep ↦ ⟨hmid.1.step hstep, fun group plan hplan ↦ ?_⟩).2
  rcases plan_cases hmid.1 hstep hplan with ⟨old, hold, hid⟩ | ⟨-, hid, -⟩
  · rw [← hid]
    exact hmid.2 group old hold
  · rw [hid]
    exact (hunused entry (hbefore.subset (by simp))).symm

/-- The group and the plan a command names to resolve. -/
def MetaCommand.resolves : MetaCommand → Option (GroupId × UInt64)
  | .markAborting group planId => some (group, planId)
  | .finalizePlan group planId _ => some (group, planId)
  | .abortReport group planId _ => some (group, planId)
  | _ => none

/-- A command that names a plan no group records is refused, and nothing is written. -/
theorem rejected_of_unrecorded {s : Storage} (hs : WellFormed prims s.state) {cmd : MetaCommand}
    {planId : UInt64} (hcmd : cmd.resolves = some (group, planId))
    (hnone : Unrecorded planId (view s.state)) (logId : LogId) :
    ∃ reason, evaluate prims s cmd logId = .ok (.rejected reason, []) := by
  have hplan : ∀ {placed plan}, (view s.state).placement group = some placed →
      placed.move = some plan → plan.planId ≠ planId :=
    fun hplaced hmove ↦ hnone group _ (MetaView.plan_eq_some_iff.mpr ⟨_, hplaced, hmove⟩)
  have hfinalize : ∀ observation isAbort, ∃ reason,
      finalizePlan s group planId observation isAbort = .ok (.rejected reason, []) := by
    intro observation isAbort
    unfold finalizePlan
    rw [hs.placement_eq, ok_bind]
    cases hplaced : (view s.state).placement group with
    | none => exact ⟨_, rfl⟩
    | some placed =>
      dsimp only
      cases hmove : placed.move with
      | none => exact ⟨_, rfl⟩
      | some plan =>
        dsimp only
        rw [if_pos (hplan hplaced hmove)]
        exact ⟨_, rfl⟩
  have hmark : ∃ reason, markAborting s group planId = .ok (.rejected reason, []) := by
    unfold markAborting
    rw [hs.placement_eq, ok_bind]
    cases hplaced : (view s.state).placement group with
    | none => exact ⟨_, rfl⟩
    | some placed =>
      dsimp only
      cases hmove : placed.move with
      | none => exact ⟨_, rfl⟩
      | some plan =>
        dsimp only
        rw [if_neg (hplan hplaced hmove)]
        exact ⟨_, rfl⟩
  refine rejected_of_dispatch hs ?_
  cases cmd with
  | markAborting =>
    cases hcmd
    exact hmark
  | finalizePlan _ _ observation =>
    cases hcmd
    exact hfinalize observation false
  | abortReport _ _ observation =>
    cases hcmd
    exact hfinalize observation true
  | _ => cases hcmd

variable (prims) in
/-- Assumes: entries at increasing indices, cut at any entry. They are applied from the empty state
of a replica. What the entry does to a placement that exists is fenced by the recorded plan. A plan
it records has an id that no plan of any earlier state has. Once it has cleared a plan, every
command that names the plan is refused and writes nothing, after any later entries. -/
theorem fenced_plan_lifecycle (identity : Option Identity) (epoch : Option (BitVec 128))
    (first second : List Entry) (entry : Entry)
    (hindices : IncreasingIndices (first ++ entry :: second)) :
    ∃ early mid result next late last,
      run (step prims) (emptyStorage identity epoch) first = .ok (early, mid) ∧
      step prims mid entry = .ok (result, next) ∧
      run (step prims) next second = .ok (late, last) ∧
      (∀ group placed, (view mid.state).placement group = some placed →
        ∃ placed', (view next.state).placement group = some placed' ∧
          Fenced group entry.2 placed placed') ∧
      (∀ group plan, (view mid.state).plan group = none → (view next.state).plan group = some plan →
        ∀ before, before <+: first → ∃ results s,
          run (step prims) (emptyStorage identity epoch) before = .ok (results, s) ∧
          ∀ other old, (view s.state).plan other = some old → old.planId ≠ plan.planId) ∧
      ∀ group plan, (view mid.state).plan group = some plan → (view next.state).plan group = none →
        ∀ cmd other, cmd.resolves = some (other, plan.planId) → ∀ logId, ∃ reason,
          evaluate prims last cmd logId = .ok (.rejected reason, []) := by
  obtain ⟨early, mid, hearly, rfl, hmid, hfirst⟩ := exists_run prims identity epoch first
  obtain ⟨result, next, hnext, hidentity, hwell, hstep⟩ := exists_step hmid entry
  obtain ⟨late, last, hlate, -, hlast, hsecond⟩ := exists_run_from hwell second
  rw [hidentity] at hsecond
  have hbefore : IncreasingIndices first := hindices.sublist (List.sublist_append_left _ _)
  have hinv := PlanInvariant.trace hbefore hfirst
  refine ⟨early, mid, result, next, late, last, hearly, hnext, hlate, fun group placed hplaced ↦ ?_,
    fun group plan hnone hplan before hprior ↦ ?_,
    fun group plan hplan hnone cmd other hcmd logId ↦ ?_⟩
  · obtain ⟨placed', hplaced', hevolves⟩ := evolves_of_step hinv.placed hstep hplaced
    exact ⟨placed', hplaced', hevolves.fenced⟩
  · obtain ⟨results, s, hrun, -, -, htrace⟩ := exists_run prims mid.identity epoch before
    refine ⟨results, s, hrun, fun other old hold ↦ ?_⟩
    rcases plan_cases hinv.placed hstep hplan with ⟨old', hold', -⟩ | ⟨-, hid, -⟩
    · rw [hnone] at hold'
      cases hold'
    · rw [hid]
      have hused :=
        (PlanInvariant.trace (hbefore.sublist hprior.sublist) htrace).index other old hold
      refine hindices.ne ?_ List.mem_cons_self
      exact List.map_subset _ hprior.subset hused
  · -- the id stood in one group only, and no later entry has its index
    have hgone : Unrecorded plan.planId (view next.state) := by
      intro other' plan' hplan' hid
      rcases plan_cases hinv.placed hstep hplan' with ⟨old, hold, hsame⟩ | ⟨-, hnew, -⟩
      · have hgroup := hinv.unique other' group old plan hold hplan (hsame.trans hid)
        rw [hgroup, hnone] at hplan'
        cases hplan'
      · exact hindices.ne (hinv.index group plan hplan) List.mem_cons_self (hid.symm.trans hnew)
    have hunused : ∀ later ∈ second, plan.planId ≠ later.1.index := fun later hlater ↦
      hindices.ne (hinv.index group plan hplan) (List.mem_cons_of_mem _ hlater)
    exact rejected_of_unrecorded hlast hcmd
      (hgone.trace (hinv.placed.step hstep) hunused hsecond) logId

/-- A plan of the meta group that removes a voter is finalized. The same command delivered again, at
the next index, finds the fence of whatever the group records by then. -/
theorem fenced_plan_lifecycle_meta_removal :
    let prims : Primitives := ⟨fun _ ↦ Vector.replicate 32 0, id⟩
    let observation : DataConfigObservation := ⟨.meta, 2, [1, 2, 3, 4], ⟨1, 9⟩⟩
    let entries : List Entry :=
      [(⟨1, 1⟩, .clusterInit ⟨7, PROTOCOL_VERSION, 4, 3, .CANONICAL⟩ [1, 2, 3, 4, 5]),
        (⟨1, 2⟩, .createPlan .meta 0 [1, 2, 3, 4]), (⟨1, 3⟩, .finalizePlan .meta 2 observation)]
    ∃ early mid result next,
      run (step prims) (emptyStorage (some ⟨7, 1⟩) none) entries = .ok (early, mid) ∧
      step prims mid (⟨1, 4⟩, .finalizePlan .meta 2 observation) = .ok (result, next) ∧
      ∀ group placed, (view mid.state).placement group = some placed →
        ∃ placed', (view next.state).placement group = some placed' ∧
          Fenced group (.finalizePlan .meta 2 observation) placed placed' := by
  intro prims observation entries
  obtain ⟨early, mid, result, next, -, -, hrun, hstep, -, hfenced, -⟩ :=
    fenced_plan_lifecycle prims (some ⟨7, 1⟩) none entries []
      (⟨1, 4⟩, .finalizePlan .meta 2 observation) (by decide)
  exact ⟨early, mid, result, next, hrun, hstep, hfenced⟩

end DalService.Meta
