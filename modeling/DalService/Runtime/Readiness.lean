import DalService.Foundation.Run

/-!
# The lifecycle of a process

One atomic cell holds the lifecycle of a process (`runtime/readiness.rs`). Bootstrap, shutdown and
every background task move it, by loads and compare-and-exchange in loops, without a lock. `Gate`
has the cell and any number of calls, each at its next atomic operation; the operations of the calls
interleave in any way.

`lifecycle_moves_on`: the lifecycle never goes back, so that readiness once closed is not opened
again, and a call ends within a number of operations that depends on its method alone, whatever the
others do.
-/

set_option autoImplicit false

namespace DalService.Runtime

open Foundation

inductive RuntimeLifecycle
  | starting
  | running
  | draining
  | failed
  | stopped
  deriving DecidableEq, Repr

/-- The byte that stands for a lifecycle. -/
def RuntimeLifecycle.code : RuntimeLifecycle → ℕ
  | .starting => 0
  | .running => 1
  | .draining => 2
  | .failed => 3
  | .stopped => 4

def RuntimeLifecycle.isReady (lifecycle : RuntimeLifecycle) : Bool := lifecycle == .running

/-- The two closing methods, `begin_draining` and `mark_failed`. -/
inductive Closing
  | draining
  | failed
  deriving DecidableEq, Repr

/-- The lifecycle that a closing method aims at. -/
def Closing.goal : Closing → RuntimeLifecycle
  | .draining => .draining
  | .failed => .failed

/-- The two closing methods are one loop, with the lifecycle they aim at. -/
inductive GateMethod
  | markReady
  | close (closing : Closing)
  | markStopped
  deriving DecidableEq, Repr

def GateMethod.beginDraining : GateMethod := .close .draining

def GateMethod.markFailed : GateMethod := .close .failed

/-- Where a call stands: at its first operation, at the second load of `mark_ready`, at the exchange
of a loop that loaded `current`, or at its end. -/
inductive GatePoint
  | entry
  | reload
  | exchange (current : RuntimeLifecycle)
  | returned (result : Bool)
  deriving DecidableEq, Repr

/-- `transition`, and where the call goes on. -/
def transition (cell expected next : RuntimeLifecycle) (otherwise : GatePoint) :
    GatePoint × RuntimeLifecycle :=
  if cell = expected then (.returned true, next) else (otherwise, cell)

/-- The next atomic operation of a call. -/
def operate (cell : RuntimeLifecycle) :
    GateMethod → GatePoint → Option (GatePoint × RuntimeLifecycle)
  | .markReady, .entry => some (transition cell .starting .running .reload)
  | .markReady, .reload => some (.returned (cell == .running), cell)
  | .close closing, .entry =>
    some (if cell.code < closing.goal.code then .exchange cell
      else .returned (cell == closing.goal), cell)
  | .close closing, .exchange current => some (transition cell current closing.goal .entry)
  | .markStopped, .entry => some (.returned true, .stopped)
  | _, _ => none

-- The loads of the two loops, as their matches have them.
example (cell : RuntimeLifecycle) : operate cell .beginDraining .entry = some (match cell with
    | .starting | .running => .exchange cell
    | .draining => .returned true
    | .failed | .stopped => .returned false, cell) := by cases cell <;> rfl

example (cell : RuntimeLifecycle) : operate cell .markFailed .entry =
    some (if cell = .stopped then .returned false else if cell = .failed then .returned true
      else .exchange cell, cell) := by cases cell <;> rfl

/-- A call, with the number of operations it made. -/
structure GateCall where
  method : GateMethod
  point : GatePoint
  operations : ℕ
  deriving DecidableEq, Repr

structure Gate where
  cell : RuntimeLifecycle
  calls : List GateCall
  deriving DecidableEq, Repr

inductive GateEvent
  | call (method : GateMethod)
  | operate (i : ℕ)

def Gate.step (gate : Gate) : GateEvent → Option Gate
  | .call method => some { gate with calls := gate.calls ++ [⟨method, .entry, 0⟩] }
  | .operate i => do
    let call ← gate.calls[i]?
    let (point, cell) ← operate gate.cell call.method call.point
    some { cell, calls := gate.calls.set i ⟨call.method, point, call.operations + 1⟩ }

/-! ### What a call knows -/

/-- What the lifecycle has come to where a call returned. -/
def GateMethod.reached : GateMethod → Bool → ℕ
  | .markReady, result => if result then 1 else 2
  | .close closing, result => if result then closing.goal.code else closing.goal.code + 1
  | .markStopped, _ => 4

/-- The most operations a call makes. -/
def GateMethod.bound : GateMethod → ℕ
  | .markReady => 2
  | .close closing => 2 * closing.goal.code + 1
  | .markStopped => 1

/-- A call stands at `point`, and needs at most `left` operations more. -/
def Stands (cell : RuntimeLifecycle) (left : ℕ) : GateMethod → GatePoint → Prop
  | .markReady, .entry => 2 ≤ left
  | .markReady, .reload => 1 ≤ left ∧ 1 ≤ cell.code
  | .close closing, .entry => 2 * (closing.goal.code - cell.code) + 1 ≤ left
  | .close closing, .exchange current => 2 * (closing.goal.code - current.code) ≤ left ∧
    current.code < closing.goal.code ∧ current.code ≤ cell.code
  | .markStopped, .entry => 1 ≤ left
  | method, .returned result => method.reached result ≤ cell.code
  | _, _ => False

theorem Stands.mono {cell next : RuntimeLifecycle} {left : ℕ} {method : GateMethod}
    {point : GatePoint} (h : Stands cell left method point) (hle : cell.code ≤ next.code) :
    Stands next left method point := by
  cases method <;> cases point <;> simp only [Stands] at h ⊢ <;> omega

theorem RuntimeLifecycle.code_inj {first second : RuntimeLifecycle} :
    first.code = second.code ↔ first = second := by
  refine ⟨fun h ↦ ?_, congrArg code⟩
  cases first <;> cases second <;> first | rfl | cases h

/-- An operation moves the lifecycle on, if it moves it, and brings the call closer to its end. -/
theorem operate_spec {cell next : RuntimeLifecycle} {left : ℕ} {method : GateMethod}
    {point after : GatePoint} (h : Stands cell left method point)
    (hop : operate cell method point = some (after, next)) :
    cell.code ≤ next.code ∧ ∃ less, less + 1 ≤ left ∧ Stands next less method after := by
  have hrunning : RuntimeLifecycle.running.code = 1 := rfl
  have hdiffer {other : RuntimeLifecycle} (hne : cell ≠ other) : cell.code ≠ other.code :=
    mt RuntimeLifecycle.code_inj.mp hne
  unfold operate at hop
  split at hop
  · rw [transition] at hop
    split at hop
    · next hcell =>
      cases hop
      exact ⟨by rw [hcell]; decide, 0, by simp only [Stands] at h; omega, le_rfl⟩
    · next hcell =>
      cases hop
      have hpositive : cell.code ≠ 0 := hdiffer hcell
      exact ⟨le_rfl, 1, h, le_rfl, Nat.one_le_iff_ne_zero.mpr hpositive⟩
  · cases hop
    refine ⟨le_rfl, 0, h.1, ?_⟩
    by_cases hcell : cell = .running
    · simp [Stands, GateMethod.reached, hcell, hrunning]
    · have hne := hdiffer hcell
      have hreached := h.2
      simp only [Stands, GateMethod.reached, beq_iff_eq, hcell, if_false]
      omega
  · cases hop
    simp only [Stands] at h
    split
    · next hless => exact ⟨le_rfl, 2 * (_ - cell.code), h, le_rfl, hless, le_rfl⟩
    · next closing hless =>
      refine ⟨le_rfl, 0, by omega, ?_⟩
      by_cases hcell : cell = closing.goal
      · simp [Stands, GateMethod.reached, hcell]
      · have hne := hdiffer hcell
        simp only [Stands, GateMethod.reached, beq_iff_eq, hcell, if_false]
        omega
  · obtain ⟨hleft, hless, hle⟩ := h
    rw [transition] at hop
    split at hop
    · next hcell =>
      cases hop
      exact ⟨hcell ▸ hless.le, 0, by omega, le_rfl⟩
    · next hcell =>
      cases hop
      have hne := hdiffer hcell
      exact ⟨le_rfl, 2 * (_ - cell.code) + 1, by omega, le_rfl⟩
  · cases hop
    exact ⟨by cases cell <;> decide, 0, h, le_rfl⟩
  · cases hop

/-! ### Runs -/

/-- Every call stands where it can, within its bound. -/
def Gate.Sound (gate : Gate) : Prop :=
  ∀ call ∈ gate.calls, ∃ left, call.operations + left ≤ call.method.bound ∧
    Stands gate.cell left call.method call.point

theorem Gate.Sound.step {gate next : Gate} {event : GateEvent} (h : gate.Sound)
    (hstep : gate.step event = some next) : gate.cell.code ≤ next.cell.code ∧ next.Sound := by
  cases event with
  | call method =>
    cases hstep
    refine ⟨le_rfl, fun call hcall ↦ ?_⟩
    rcases List.mem_append.mp hcall with hold | hnew
    · exact h call hold
    · rw [List.mem_singleton.mp hnew]
      refine ⟨method.bound, (Nat.zero_add _).le, ?_⟩
      cases method <;> simp only [Stands, GateMethod.bound] <;> omega
  | operate i =>
    simp only [Gate.step, Option.bind_eq_bind, Option.bind_eq_some_iff] at hstep
    obtain ⟨call, hcall, ⟨point, cell⟩, hop, hnext⟩ := hstep
    cases hnext
    obtain ⟨left, hbound, hstands⟩ := h call (List.mem_of_getElem? hcall)
    obtain ⟨hle, less, hless, hafter⟩ := operate_spec hstands hop
    refine ⟨hle, fun other hother ↦ ?_⟩
    rcases List.mem_or_eq_of_mem_set hother with hold | rfl
    · obtain ⟨left, hbound, hstands⟩ := h other hold
      exact ⟨left, hbound, hstands.mono hle⟩
    · exact ⟨less, by dsimp only; omega, hafter⟩

/-- Assumes: a run of any calls in any interleaving, and a run that continues it. The lifecycle does
not go back. A call has made at most the operations of its bound, and can make the next one unless
it returned. What a call that returned has reached stays reached, so that after a `begin_draining`,
a `mark_failed`, a `mark_stopped` or a `mark_ready` that failed the process is not ready again. -/
theorem lifecycle_moves_on (events more : List GateEvent) (gate later : Gate)
    (hrun : events.foldlM Gate.step ⟨.starting, []⟩ = some gate)
    (hmore : more.foldlM Gate.step gate = some later) :
    gate.cell.code ≤ later.cell.code ∧
    ∀ call ∈ gate.calls, call.operations ≤ call.method.bound ∧
      ((∃ result, call.point = .returned result) ∨
        operate gate.cell call.method call.point ≠ none) ∧
      ∀ result, call.point = .returned result → call.method.reached result ≤ later.cell.code ∧
        (2 ≤ call.method.reached result → later.cell.isReady = false) := by
  have hsound : gate.Sound :=
    foldlM_invariant (fun hs hstep ↦ (hs.step hstep).2) hrun (by simp [Gate.Sound])
  have hle : gate.cell.code ≤ later.cell.code :=
    (foldlM_invariant (P := fun mid ↦ gate.cell.code ≤ mid.cell.code ∧ mid.Sound)
      (fun hs hstep ↦ ⟨hs.1.trans (hs.2.step hstep).1, (hs.2.step hstep).2⟩) hmore
        ⟨le_rfl, hsound⟩).1
  refine ⟨hle, fun ⟨method, point, operations⟩ hcall ↦ ?_⟩
  obtain ⟨left, hbound, hstands⟩ := hsound _ hcall
  refine ⟨(Nat.le_add_right _ _).trans hbound, ?_, fun result hreturned ↦ ?_⟩
  · cases method <;> cases point <;> simp_all [operate, Stands]
  · have hreached : method.reached result ≤ later.cell.code := by
      cases hreturned
      cases method <;> exact hstands.trans hle
    refine ⟨hreached, fun hclosed ↦ ?_⟩
    have hne : later.cell ≠ .running := by
      intro hcell
      rw [hcell] at hreached
      exact absurd (hclosed.trans hreached) (by decide)
    simp [RuntimeLifecycle.isReady, hne]

/-- A drain wins over bootstrap that exchanges after it. -/
theorem lifecycle_moves_on_drained :
    let events : List GateEvent := [.call .markReady, .call .beginDraining, .operate 1, .operate 1,
      .operate 0, .operate 0]
    ∃ gate, events.foldlM Gate.step ⟨.starting, []⟩ = some gate ∧ gate.cell.isReady = false := by
  refine ⟨_, rfl, ?_⟩
  have h := lifecycle_moves_on [.call .markReady, .call .beginDraining, .operate 1, .operate 1,
    .operate 0, .operate 0] [] _ _ rfl rfl
  exact ((h.2 ⟨.markReady, .returned false, 2⟩ (by decide)).2.2 false rfl).2 (by decide)

end DalService.Runtime
