import DalService.Partition.StateMachine

/-!
# Visibility and durability of a group's state

The tracker of `apply_durability.rs`. A state batch is visible when it is written and durable when a
flush of the shared write-ahead log covers it; the tracker keeps the two watermarks apart, together
with the batches that are not durable yet, and the gate that stays closed to local reads after a
restart or a snapshot install until the visible watermark has reached a recovery target.

Watermarks are compared by index (`next`). They never go back (`next_advance`), a watermark that
reaches a log id is at or above it (`lt_next_of_reaches`), and a snapshot that passed
`validateInstall` is at or above both watermarks (`next_le_of_validateInstall`). Timings and
counters that the source only reports are left out.
-/

set_option autoImplicit false

namespace DalService.Storage

open DalService.Partition

/-- The first index above a log id: zero where there is none. -/
def next : Option RaftLogId → ℕ
  | none => 0
  | some logId => logId.index.toNat + 1

@[simp] theorem next_none : next none = 0 := rfl

@[simp] theorem next_some (logId : RaftLogId) : next (some logId) = logId.index.toNat + 1 := rfl

def MAX_PENDING_STATE_ENTRIES : ℕ := 4096

def MAX_PENDING_STATE_BYTES : ℕ := 64 * 1024 * 1024

structure ApplyDurabilityLimits where
  maxPendingEntries : ℕ
  maxPendingBytes : ℕ
  deriving DecidableEq, Repr

def ApplyDurabilityLimits.default : ApplyDurabilityLimits where
  maxPendingEntries := MAX_PENDING_STATE_ENTRIES
  maxPendingBytes := MAX_PENDING_STATE_BYTES

structure PendingApply where
  logId : RaftLogId
  entries : ℕ
  bytes : ℕ
  deriving DecidableEq, Repr

/-- The state of a group's tracker. -/
structure GroupState where
  visible : Option RaftLogId
  durable : Option RaftLogId
  pendingEntries : ℕ
  pendingBytes : ℕ
  pending : List PendingApply
  recoveryReady : Bool
  recoveryEpoch : UInt64
  recoveryTarget : Option RaftLogId
  closing : Bool
  failed : Option String
  deriving DecidableEq, Repr

section Watermark

variable (logIdText : RaftLogId → String)

def watermarkConflict (current other : RaftLogId) (index : UInt64) : Error :=
  .corrupt "state durability watermark"
    ("log id mismatch at index " ++ toString index.toNat ++ ": " ++ logIdText current ++ " != " ++
      logIdText other)

/-- Raise a watermark. Two log ids of one index conflict. -/
def advance (current : Option RaftLogId) (logId : RaftLogId) : Result (Option RaftLogId) :=
  match current with
  | none => .ok (some logId)
  | some previous =>
    if previous.index = logId.index ∧ previous ≠ logId then
      .error (watermarkConflict logIdText previous logId logId.index)
    else if logId.index < previous.index then .ok (some previous)
    else if previous = logId then .ok (some previous)
    else .ok (some logId)

/-- The watermark is at or above a target. -/
def reaches (current : Option RaftLogId) (target : RaftLogId) : Result Bool :=
  match current with
  | none => .ok false
  | some current =>
    if current.index < target.index then .ok false
    else if current.index = target.index ∧ current ≠ target then
      .error (watermarkConflict logIdText current target target.index)
    else .ok true

variable {logIdText} {current after : Option RaftLogId} {logId : RaftLogId}

theorem next_advance (h : advance logIdText current logId = .ok after) :
    next after = max (next current) (logId.index.toNat + 1) := by
  cases current with
  | none =>
    cases h
    simp
  | some previous =>
    simp only [advance] at h
    split_ifs at h with hconflict hbehind hsame
    · cases h
      have := UInt64.lt_iff_toNat_lt.mp hbehind
      simp only [next_some]
      omega
    · cases h
      simp [hsame]
    · cases h
      have := mt UInt64.lt_iff_toNat_lt.mpr hbehind
      simp only [next_some]
      omega

theorem lt_next_of_reaches (h : reaches logIdText current logId = .ok true) :
    logId.index.toNat < next current := by
  cases current with
  | none => cases h
  | some current =>
    simp only [reaches] at h
    split_ifs at h with hbehind hconflict
    · cases h
    · have := mt UInt64.lt_iff_toNat_lt.mpr hbehind
      simp only [next_some]
      omega

end Watermark

namespace GroupState

/-- `GroupTracker::new`, with the next recovery epoch of the process. -/
def new (recovered : Option RaftLogId) (recoveryReady : Bool) (epoch : UInt64) : GroupState where
  visible := recovered
  durable := recovered
  pendingEntries := 0
  pendingBytes := 0
  pending := []
  recoveryReady := recoveryReady
  recoveryEpoch := epoch
  recoveryTarget := none
  closing := false
  failed := none

variable (logIdText : RaftLogId → String) (state : GroupState)

def fail (error : String) : GroupState :=
  { state with failed := some (state.failed.getD error) }

/-- Admit a batch: `none` while the batches before it leave no room. -/
def begin (limits : ApplyDurabilityLimits) (logId : RaftLogId) (entries bytes : ℕ) :
    Result (Option GroupState) :=
  match state.failed with
  | some error => .error (.io error)
  | none =>
    if state.closing then .error (.raft "materialized-state durability tracker is closing")
    else if limits.maxPendingEntries < entries ∨ limits.maxPendingBytes < bytes then
      .error (.io ("materialized-state batch of " ++ toString entries ++ " entries / " ++
        toString bytes ++ " bytes exceeds limits of " ++ toString limits.maxPendingEntries ++
        " entries / " ++ toString limits.maxPendingBytes ++ " bytes"))
    else if state.pendingEntries + entries ≤ limits.maxPendingEntries ∧
        state.pendingBytes + bytes ≤ limits.maxPendingBytes then
      .ok (some { state with
        pendingEntries := state.pendingEntries + entries
        pendingBytes := state.pendingBytes + bytes
        pending := state.pending ++ [{ logId := logId, entries := entries, bytes := bytes }] })
    else .ok none

/-- The first pending batch of a log id is no longer pending. -/
def release (logId : RaftLogId) : GroupState :=
  match state.pending.find? fun pending ↦ pending.logId = logId with
  | none => state
  | some found =>
    { state with
      pendingEntries := state.pendingEntries - found.entries
      pendingBytes := state.pendingBytes - found.bytes
      pending := state.pending.eraseP fun pending ↦ pending.logId = logId }

def visibleAt (logId : RaftLogId) : GroupState :=
  match advance logIdText state.visible logId with
  | .ok visible => { state with visible := visible }
  | .error error => state.fail error.text

def durableAt (logId : RaftLogId) : GroupState :=
  match advance logIdText state.durable logId with
  | .ok durable => release { state with durable := durable } logId
  | .error error => release (state.fail error.text) logId

def cancel (logId : RaftLogId) (error : String) : GroupState := (state.release logId).fail error

/-- A snapshot was installed: both watermarks rise to it, and a new recovery epoch starts. -/
def installed (logId : Option RaftLogId) (requiresFence : Bool) (epoch : UInt64) : GroupState :=
  let raised :=
    match logId with
    | none => state
    | some logId =>
      match advance logIdText state.visible logId, advance logIdText state.durable logId with
      | .ok visible, .ok durable => { state with visible := visible, durable := durable }
      | .ok visible, .error error => fail { state with visible := visible } error.text
      | .error error, .ok durable => fail { state with durable := durable } error.text
      | .error error, .error _ => state.fail error.text
  { raised with recoveryReady := !requiresFence, recoveryEpoch := epoch, recoveryTarget := none }

/-- Open the gate, in the recovery epoch the attempt began in. -/
def markRecoveryReady (epoch : UInt64) (target : Option RaftLogId) : Result GroupState := do
  if state.recoveryEpoch ≠ epoch ∨ state.closing then
    throw (.raft "stale materialized-state recovery fence")
  if let some error := state.failed then throw (.io error)
  if let some target := target then
    if !(← reaches logIdText state.visible target) then
      throw (.raft ("materialized state has not reached recovery target " ++ logIdText target))
  return { state with recoveryReady := true, recoveryTarget := target }

/-- A watermark that an install of `target` would move back, or that conflicts with it. -/
def installConflict (name : String) (current target : Option RaftLogId) : Option Error :=
  match current, target with
  | none, _ => none
  | some current, none =>
    some (.corrupt "snapshot install"
      ("empty snapshot would move " ++ name ++ " state behind " ++ logIdText current))
  | some current, some target =>
    if target.index < current.index then
      some (.corrupt "snapshot install"
        ("snapshot " ++ logIdText target ++ " would move " ++ name ++
        " state behind " ++ logIdText current))
    else if target.index = current.index ∧ target ≠ current then
      some (.corrupt "snapshot install" ("snapshot log id " ++ logIdText target ++
        " conflicts with " ++ name ++ " state " ++ logIdText current))
    else none

def validateInstall (target : Option RaftLogId) : Result Unit :=
  match state.failed with
  | some error => .error (.io error)
  | none =>
    match installConflict logIdText "visible" state.visible target with
    | some error => .error error
    | none =>
      match installConflict logIdText "durable" state.durable target with
      | some error => .error error
      | none => .ok ()

def beginClose : GroupState := { state with closing := true }

/-! ### What each operation does to the watermarks -/

variable {logIdText state} {limits : ApplyDurabilityLimits} {logId : RaftLogId}

@[simp] theorem visible_fail (error : String) : (state.fail error).visible = state.visible := rfl

@[simp] theorem durable_fail (error : String) : (state.fail error).durable = state.durable := rfl

@[simp] theorem failed_fail (error : String) : (state.fail error).failed ≠ none := nofun

@[simp] theorem failed_release : (state.release logId).failed = state.failed := by
  rw [release]
  split <;> rfl

@[simp] theorem visible_release : (state.release logId).visible = state.visible := by
  rw [release]
  split <;> rfl

@[simp] theorem durable_release : (state.release logId).durable = state.durable := by
  rw [release]
  split <;> rfl

theorem begin_eq_some {entries bytes : ℕ} {after : GroupState}
    (h : state.begin limits logId entries bytes = .ok (some after)) :
    state.failed = none ∧ after.visible = state.visible ∧ after.durable = state.durable ∧
      after.failed = none := by
  rw [begin] at h
  split at h
  · cases h
  · rename_i hfailed
    split_ifs at h
    · cases h
      exact ⟨hfailed, rfl, rfl, hfailed⟩
    · cases h

/-- The visible watermark rises to the log id, or is left where a log id conflicts. -/
theorem visible_visibleAt (hnext : next state.visible ≤ logId.index.toNat) :
    (state.visibleAt logIdText logId).visible = some logId := by
  rw [visibleAt]
  cases hcurrent : state.visible with
  | none => rfl
  | some previous =>
    rw [hcurrent, next_some] at hnext
    have hne : previous.index ≠ logId.index := fun h ↦ by simp [h] at hnext
    have hlt : ¬logId.index < previous.index := fun h ↦ by
      have := UInt64.lt_iff_toNat_lt.mp h
      omega
    have hdiff : previous ≠ logId := fun h ↦ hne (h ▸ rfl)
    simp [advance, hne, hlt, hdiff]

@[simp] theorem durable_visibleAt :
    (state.visibleAt logIdText logId).durable = state.durable := by
  rw [visibleAt]
  split <;> rfl

@[simp] theorem visible_durableAt :
    (state.durableAt logIdText logId).visible = state.visible := by
  rw [durableAt]
  split <;> simp

/-- A tracker that has not failed had not failed before. -/
theorem failed_of_durableAt (h : (state.durableAt logIdText logId).failed = none) :
    state.failed = none := by
  rw [durableAt] at h
  split at h
  · rw [failed_release] at h
    exact h
  · rw [failed_release] at h
    exact absurd h (failed_fail _)

theorem next_durable_durableAt :
    next (state.durableAt logIdText logId).durable ≤
      max (next state.durable) (logId.index.toNat + 1) := by
  rw [durableAt]
  split
  · rename_i durable h
    rw [durable_release]
    exact (next_advance h).le
  · rw [durable_release, durable_fail]
    exact le_max_left _ _

theorem next_durable_installed {target : Option RaftLogId} {requiresFence : Bool} {epoch : UInt64} :
    next (state.installed logIdText target requiresFence epoch).durable ≤
      max (next state.durable) (next target) := by
  cases target with
  | none => exact le_max_left _ _
  | some target =>
    dsimp only [installed]
    split
    · rename_i h
      exact (next_advance h).le
    · exact le_max_left _ _
    · rename_i h
      exact (next_advance h).le
    · exact le_max_left _ _

/-- A tracker that has not failed over an install has raised its visible watermark. -/
theorem next_visible_installed {target : Option RaftLogId} {requiresFence : Bool} {epoch : UInt64}
    (h : (state.installed logIdText target requiresFence epoch).failed = none) :
    state.failed = none ∧ next (state.installed logIdText target requiresFence epoch).visible =
      max (next state.visible) (next target) := by
  cases target with
  | none => exact ⟨h, (max_eq_left (Nat.zero_le _)).symm⟩
  | some target =>
    dsimp only [installed] at h ⊢
    split at h
    · rename_i hvisible _
      exact ⟨h, next_advance hvisible⟩
    · exact absurd h (failed_fail _)
    · exact absurd h (failed_fail _)
    · exact absurd h (failed_fail _)

theorem next_le_of_installConflict {name : String} {current target : Option RaftLogId}
    (h : installConflict logIdText name current target = none) : next current ≤ next target := by
  cases current with
  | none => exact Nat.zero_le _
  | some current =>
    cases target with
    | none => cases h
    | some target =>
      simp only [installConflict] at h
      split_ifs at h with hbehind
      have := mt UInt64.lt_iff_toNat_lt.mpr hbehind
      simp only [next_some]
      omega

/-- A snapshot that may be installed is at or above both watermarks. -/
theorem next_le_of_validateInstall {target : Option RaftLogId}
    (h : state.validateInstall logIdText target = .ok ()) :
    state.failed = none ∧ next state.visible ≤ next target ∧ next state.durable ≤ next target := by
  rw [validateInstall] at h
  split at h
  · cases h
  · rename_i hfailed
    split at h
    · cases h
    · rename_i hvisible
      split at h
      · cases h
      · rename_i hdurable
        exact ⟨hfailed, next_le_of_installConflict hvisible, next_le_of_installConflict hdurable⟩

end GroupState

end DalService.Storage
