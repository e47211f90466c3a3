import DalService.Types

/-!
# The move gate and startup reconciliation

A data-Raft leader starts or resumes a plan only through the gate, and a recovering node compares
the voters its group has committed with the meta record. Both compare voter sets: learners are
ignored.
-/

set_option autoImplicit false

namespace DalService.Meta

/-- Whether a data-Raft leader may start or resume a plan. -/
inductive GateDecision
  | accept
  | noPlan
  | rejectAborting
  | rejectConfigMismatch
  | rejectNotSingleVoter
  deriving DecidableEq, Repr

/-- The gate: the plan is not aborting, the committed voters are the record's, and the target
replaces exactly one of them. -/
def gate (placement : Placement) (committedVoters : Finset NodeId) : GateDecision :=
  match placement.move with
  | none => .noPlan
  | some plan =>
    if plan.aborting then .rejectAborting
    else
      let voters := voterSet placement.voters
      if voters ≠ committedVoters then .rejectConfigMismatch
      else
        let target := voterSet plan.targetVoters
        if (target \ voters).card ≠ 1 ∨ (voters \ target).card ≠ 1 then .rejectNotSingleVoter
        else .accept

/-- What a recovering node should do for a group. -/
inductive ReconcileAction
  | noPlan
  | resumePlan
  | completeJoint
  | finalize
  | error
  deriving DecidableEq, Repr

/-- Compare the voters a group has committed (of both configurations while joint) with its
record. -/
def reconcile (placement : Placement) (committedVoters : Finset NodeId) : ReconcileAction :=
  match placement.move with
  | none => .noPlan
  | some plan =>
    let voters := voterSet placement.voters
    let target := voterSet plan.targetVoters
    if committedVoters = voters then .resumePlan
    else if committedVoters = target then .finalize
    else if committedVoters = voters ∪ target then .completeJoint
    else .error

variable {placement : Placement} {committedVoters : Finset NodeId}

/-- The gate accepts exactly a plan that is not aborting, from the committed voters, that exchanges
one voter. -/
theorem gate_eq_accept_iff : gate placement committedVoters = .accept ↔
    ∃ plan, placement.move = some plan ∧ plan.aborting = false ∧
      voterSet placement.voters = committedVoters ∧
      (voterSet plan.targetVoters \ voterSet placement.voters).card = 1 ∧
      (voterSet placement.voters \ voterSet plan.targetVoters).card = 1 := by
  unfold gate
  cases placement.move with
  | none => simp
  | some plan =>
    dsimp only
    split_ifs with haborting hvoters hchange
    · simp [haborting]
    · simp [hvoters]
    · simp only [Option.some.injEq, false_iff, not_exists, not_and]
      rintro _ rfl - - hadded hremoved
      exact hchange.elim (fun h ↦ h hadded) (fun h ↦ h hremoved)
    · rw [not_or, not_not, not_not] at hchange
      obtain rfl := not_not.mp hvoters
      simp [Bool.not_eq_true _ ▸ haborting, hchange]

end DalService.Meta
