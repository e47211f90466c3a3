import DalService.Foundation.Run
import DalService.Meta.StateMachine
import DalService.Storage.HostInvariant

/-!
# The recovery lineage of a node

A node has one recovery epoch, and every group it hosts records the epoch of its own state. Three
operations write the node's epoch: an install adopts the epoch of a snapshot, an adoption takes the
one of an authoritative read, and an offline restore starts a new one. The node's epoch, once it is
not zero, is only changed by an offline restore (`localRecoveryEpoch_step`).

That the hosted groups record the node's epoch is not kept by every run: an install on a node
without an epoch adopts the snapshot's without a look at the other groups
(`install_relabels_other_group`), and a group created on a node with one records none with its first
batch (`first_batch_records_no_epoch`). It is kept by runs whose steps are consistent
(`Consistent`): such an install finds the epoch at the other groups that have applied something, the
first batch of a group finds the node's epoch in its state, and an adoption or a restore is over all
the groups that have applied something. The groups of a node without an epoch record none either, so
there the condition on an install says that no other hosted group has applied something.
`one_recovery_lineage` is the result.
-/

set_option autoImplicit false

namespace DalService.Storage

open Foundation Keyspace DalService.Partition

variable {V P : Type} [Record V Applied] [Record V (BitVec 128)]

/-! ### Groups -/

/-- The `Debug` text of a group. -/
def debugGroup : GroupId → String
  | .meta => "Meta"
  | .data partition => "Data(" ++ toString partition ++ ")"

namespace GroupDisk

variable (d : GroupDisk V P) {epoch : BitVec 128}

/-- `group_exists`. -/
def groupExists : Bool := d.activeState.isSome && d.log.isSome

/-- The applied log id of the state in use. -/
def recoveredRaftApplied : Result (Option RaftLogId) :=
  match d.activeState with
  | some cf => (readApplied cf).map (·.logId)
  | none => .ok none

/-- The recovery epoch that the state in use records: zero where there is none. -/
def recoveryEpoch : Result (BitVec 128) :=
  match d.activeState.map Host.recoveryEpoch with
  | some (some epoch) => .ok epoch
  | some none => .error (.codec "deserialize")
  | none => .ok 0

omit [Record V Applied] [Record V (BitVec 128)] in
theorem activeState_apply (mutations : List (Mutation V)) (committed : RaftLogId)
    (searchEpoch : Option UInt64) (outbox : List Bytes) :
    (d.write (.apply d.pointer mutations committed searchEpoch outbox)).activeState =
      d.activeState.map fun cf ↦ cf.writeAll mutations := by
  simp [activeState, write, writeState]

omit [Record V Applied] [Record V (BitVec 128)] in
theorem activeState_writeState (mutations : List (Mutation V)) :
    (d.writeState d.pointer mutations).activeState =
      d.activeState.map fun cf ↦ cf.writeAll mutations := by
  simp [activeState, writeState]

/-- What an offline restore leaves of a group: an empty log that starts at the applied position, and
the new epoch in the state. It also resets the consumer records of a data group, of which only the
keys are kept here, and they stay. -/
def restored (epoch : BitVec 128) (applied : RaftLogId) : GroupDisk V P :=
  { d.writeState d.pointer [.put recoveryEpochKey (Record.encode epoch)] with
    log := d.log.map fun log ↦
      { log with entries := ∅, purged := some applied, committed := some applied } }

omit [Record V Applied] in
theorem activeState_restored (epoch : BitVec 128) (applied : RaftLogId) :
    (d.restored epoch applied).activeState =
      d.activeState.map fun cf ↦ cf.insert recoveryEpochKey (Record.encode epoch) :=
  d.activeState_writeState [.put recoveryEpochKey (Record.encode epoch)]

omit [Record V Applied] in
/-- A restored state records the new epoch. -/
theorem recoveryEpoch_restored {applied : RaftLogId} {cf : ColumnFamily V}
    (hcf : (d.restored epoch applied).activeState = some cf) :
    Host.recoveryEpoch cf = some epoch := by
  rw [activeState_restored, Option.map_eq_some_iff] at hcf
  obtain ⟨old, -, rfl⟩ := hcf
  simp [Host.recoveryEpoch]

end GroupDisk

/-! ### The node -/

namespace Disk

variable (d : Disk V P)

def ensureGroup (group : GroupId) : Option (Disk V P) :=
  let logged := if (d.group group).log.isSome then d else d.change group .createLog
  match (d.group group).activeState with
  | some _ => some logged
  | none =>
    match (d.group group).pointer with
    | some _ => none
    | none => some (logged.change group (.createState none))

/-- One batch of a state machine. No state machine writes the recovery epoch. -/
def apply (group : GroupId) (logId : RaftLogId) (membership : StoredMembership)
    (mutations : List (Mutation V)) (outbox : List Bytes) : Option (Disk V P) :=
  if (d.group group).groupExists ∧ ∀ mutation ∈ mutations, mutation.key ≠ recoveryEpochKey then
    some (d.write group (.apply (d.group group).pointer
      (mutations ++ [putApplied { logId := some logId, membership := membership }]) logId
      (missingSearchEpoch group (d.group group).searchEpoch) outbox))
  else none

/-- A snapshot is staged under the next generation and becomes the state in use, unless it belongs
to another epoch. -/
def install (group : GroupId) (snapshot : Snapshot V) : Option (Disk V P) :=
  let old := d.group group
  let generation := old.generation.getD 0 + 1
  if old.groupExists ∧ (old.generation.getD 0).toNat + 1 < 2 ^ 64 then do
    let epoch ← Host.recoveryEpoch snapshot.state
    let searchEpoch ← Host.nextSearchEpoch group old
    if d.localRecoveryEpoch = 0 ∨ epoch = d.localRecoveryEpoch then
      let staged := ((d.write group (.generation generation)).change group
        (.createState (some generation))).write group
          (.stage generation (putAll snapshot.records ++ [putApplied snapshot.applied]))
      let switched := staged.write group (.switch epoch generation searchEpoch)
      some (if old.pointer = some generation then switched
        else switched.change group (.dropState old.pointer))
    else none
  else none

/-- A hosted group with an applied position is of the epoch. -/
def checkEpoch (epoch : BitVec 128) (group : GroupId) : Result Unit := do
  if (d.group group).groupExists then
    if (← (d.group group).recoveredRaftApplied).isSome then
      if (← (d.group group).recoveryEpoch) ≠ epoch then
        throw (.config (debugGroup group ++
          " belongs to another recovery epoch; use an offline restore or fresh data directory"))

def adoptRecoveryEpoch (epoch : BitVec 128) (partitionCount : UInt16) : Result (Disk V P) := do
  if d.localRecoveryEpoch = epoch then return d
  if d.localRecoveryEpoch ≠ 0 then
    throw (.config "authoritative recovery epoch differs from local epoch")
  (Meta.groups partitionCount).forM (d.checkEpoch epoch)
  return { d with recoveryEpoch := some epoch }

/-- The applied position of a group that is restored: a hosted group has one. -/
def restoredPosition (group : GroupId) : Result (Option RaftLogId) := do
  if (d.group group).groupExists then
    match ← (d.group group).recoveredRaftApplied with
    | some applied => return some applied
    | none => throw (.config ("restored " ++ debugGroup group ++ " has no Raft applied position"))
  else return none

/-- One group of a restore; `left` is what the groups before it leave. -/
def restoreGroup (epoch : BitVec 128) (left : Disk V P) (group : GroupId) : Result (Disk V P) := do
  match ← d.restoredPosition group with
  | some applied => return { left with
      group := Function.update left.group group ((d.group group).restored epoch applied) }
  | none => return left

def installRestoredEpochOffline (epoch : BitVec 128) (partitionCount : UInt16) :
    Result (Disk V P) := do
  if epoch = 0 ∨ epoch = d.localRecoveryEpoch then
    throw (.config "restore requires a new nonzero recovery epoch")
  let restored ← (Meta.groups partitionCount).foldlM (d.restoreGroup epoch) d
  return { restored with recoveryEpoch := some epoch }

/-- The families and the search records of a group are dropped; its generation number stays. -/
def dropGroup (group : GroupId) : Disk V P :=
  let old := d.group group
  let dropped : GroupDisk V P :=
    { old with log := none, state := fun _ ↦ none, pointer := none, serving := some .nonServing }
  { d with group := Function.update d.group group (match group with
    | .meta => dropped
    | .data _ => { dropped with searchEpoch := none, consumers := ∅, outbox := ∅ }) }

end Disk

inductive NodeEvent (V : Type)
  | ensureGroup (group : GroupId)
  | apply (group : GroupId) (logId : RaftLogId) (membership : StoredMembership)
    (mutations : List (Mutation V)) (outbox : List Bytes)
  | install (group : GroupId) (snapshot : Snapshot V)
  | adopt (epoch : BitVec 128) (partitionCount : UInt16)
  | restore (epoch : BitVec 128) (partitionCount : UInt16)
  | dropGroup (group : GroupId)

/-- The event is an offline restore. -/
def NodeEvent.isRestore : NodeEvent V → Bool
  | .restore _ _ => true
  | _ => false

/-- One operation on a node. An operation that is refused does not happen. -/
def Disk.step (d : Disk V P) : NodeEvent V → Option (Disk V P)
  | .ensureGroup group => d.ensureGroup group
  | .apply group logId membership mutations outbox =>
    d.apply group logId membership mutations outbox
  | .install group snapshot => d.install group snapshot
  | .adopt epoch partitionCount => (d.adoptRecoveryEpoch epoch partitionCount).toOption
  | .restore epoch partitionCount => (d.installRestoredEpochOffline epoch partitionCount).toOption
  | .dropGroup group => some (d.dropGroup group)

/-! ### The lineage -/

/-- A hosted group that has applied something, with its state in use. -/
def GroupDisk.Positioned (d : GroupDisk V P) (cf : ColumnFamily V) : Prop :=
  d.log.isSome ∧ d.activeState = some cf ∧
    ∃ applied logId, readApplied cf = .ok applied ∧ applied.logId = some logId

/-- Every hosted group that has applied something is of the node's epoch. -/
def Disk.Lineage (d : Disk V P) : Prop :=
  d.localRecoveryEpoch ≠ 0 → ∀ group cf, (d.group group).Positioned cf →
    Host.recoveryEpoch cf = some d.localRecoveryEpoch

/-- The condition on a step: the first batch of a group finds the node's epoch in its state, an
install that brings an epoch to the node finds it at the other groups, and an adoption or a restore
reaches all groups that have applied something. -/
def Disk.Consistent (d : Disk V P) : NodeEvent V → Prop
  | .apply group _ _ _ _ => ∀ cf, (d.group group).activeState = some cf →
      (d.group group).Positioned cf ∨ d.localRecoveryEpoch = 0 ∨
        Host.recoveryEpoch cf = some d.localRecoveryEpoch
  | .install group snapshot =>
      d.localRecoveryEpoch ≠ 0 ∨ Host.recoveryEpoch snapshot.state = some 0 ∨
      ∀ other ≠ group, ∀ cf, (d.group other).Positioned cf →
        Host.recoveryEpoch cf = Host.recoveryEpoch snapshot.state
  | .adopt _ partitionCount | .restore _ partitionCount =>
    ∀ group cf, (d.group group).Positioned cf → group ∈ Meta.groups partitionCount
  | _ => True

namespace Disk

variable {d after : Disk V P} {epoch : BitVec 128}

/-- A group with a state has a log. -/
def Paired (d : Disk V P) : Prop :=
  ∀ group, (d.group group).activeState.isSome → (d.group group).log.isSome

/-- The invariant of a node whose steps are consistent. -/
structure OneLineage (d : Disk V P) : Prop where
  paired : d.Paired
  lineage : d.Lineage

omit [Record V (BitVec 128)] in
theorem not_positioned_empty {g : GroupDisk V P} : ¬g.Positioned ∅ := by
  rintro ⟨-, -, applied, logId, happlied, hlogId⟩
  rw [readApplied_empty] at happlied
  cases happlied
  cases hlogId

/-- One group changes and the node's epoch stays. -/
theorem OneLineage.group (h : d.OneLineage) (group : GroupId)
    (hothers : ∀ other ≠ group, after.group other = d.group other)
    (hepoch : after.localRecoveryEpoch = d.localRecoveryEpoch)
    (hpaired : (after.group group).activeState.isSome → (after.group group).log.isSome)
    (hown : ∀ cf, (after.group group).Positioned cf → d.localRecoveryEpoch ≠ 0 →
      Host.recoveryEpoch cf = some d.localRecoveryEpoch) : after.OneLineage := by
  constructor
  · intro other
    by_cases hother : other = group
    · exact hother ▸ hpaired
    · rw [hothers other hother]
      exact h.paired other
  · intro hne other cf hpositioned
    rw [hepoch] at hne ⊢
    by_cases hother : other = group
    · subst hother
      exact hown cf hpositioned hne
    · rw [hothers other hother] at hpositioned
      exact h.lineage hne other cf hpositioned

/-- A batch that does not write the epoch leaves it. -/
theorem recoveryEpoch_writeAll {cf : ColumnFamily V} {mutations : List (Mutation V)}
    {applied : Applied} (hkeys : ∀ mutation ∈ mutations, mutation.key ≠ recoveryEpochKey) :
    Host.recoveryEpoch (cf.writeAll (mutations ++ [putApplied applied])) =
      Host.recoveryEpoch cf := by
  have hread : (cf.writeAll (mutations ++ [putApplied applied]))[recoveryEpochKey]? =
      cf[recoveryEpochKey]? := by
    have hother : raftAppliedKey ≠ recoveryEpochKey := by decide
    have hnone : lastWrite mutations recoveryEpochKey = none := by
      rw [lastWrite_eq_none_iff, List.mem_map]
      rintro ⟨mutation, hmutation, hkey⟩
      exact hkeys mutation hmutation hkey
    rw [getElem?_writeAll, lastWrite_append, hnone]
    simp [lastWrite, putApplied, hother]
  rw [Host.recoveryEpoch, Host.recoveryEpoch, hread]

omit [Record V Applied] [Record V (BitVec 128)] in
/-- What the creation of a group leaves: a log, and the state in use or an empty one. -/
theorem ensureGroup_eq_some {group : GroupId} (hstep : d.ensureGroup group = some after) :
    (∀ other ≠ group, after.group other = d.group other) ∧ after.recoveryEpoch = d.recoveryEpoch ∧
      (after.group group).log.isSome ∧
      ((after.group group).activeState = (d.group group).activeState ∨
        (after.group group).activeState = some ∅) := by
  have hlogged : ∀ logged : Disk V P,
      (logged = if (d.group group).log.isSome then d else d.change group .createLog) →
      (∀ other ≠ group, logged.group other = d.group other) ∧
        logged.recoveryEpoch = d.recoveryEpoch ∧ (logged.group group).log.isSome ∧
        (logged.group group).activeState = (d.group group).activeState ∧
        (logged.group group).pointer = (d.group group).pointer := by
    rintro logged rfl
    split_ifs with hlog
    · exact ⟨fun _ _ ↦ rfl, rfl, hlog, rfl, rfl⟩
    · refine ⟨fun _ hother ↦ group_change_of_ne hother, rfl, ?_⟩
      rw [group_change]
      exact ⟨rfl, rfl, rfl⟩
  simp only [Disk.ensureGroup] at hstep
  obtain ⟨hothers, hepoch, hlog, hactive, hpointer⟩ := hlogged _ rfl
  generalize (if (d.group group).log.isSome = true then d else d.change group .createLog) = logged
    at hstep hothers hepoch hlog hactive hpointer
  split at hstep
  · cases hstep
    exact ⟨hothers, hepoch, hlog, .inl hactive⟩
  · split at hstep
    · cases hstep
    · rename_i hnone
      cases hstep
      refine ⟨fun other hother ↦ (group_change_of_ne hother).trans (hothers other hother), hepoch,
        ?_, .inr ?_⟩
      · rw [group_change]
        exact hlog
      · rw [group_change]
        simp [GroupDisk.change, GroupDisk.activeState, hpointer.trans hnone]

theorem OneLineage.ensureGroup (h : d.OneLineage) {group : GroupId}
    (hstep : d.ensureGroup group = some after) : after.OneLineage := by
  obtain ⟨hothers, hepoch, hlog, hactive⟩ := ensureGroup_eq_some hstep
  refine h.group group hothers (congrArg (Option.getD · 0) hepoch) (fun _ ↦ hlog) ?_
  intro cf hpositioned hne
  obtain ⟨-, hcf, happlied⟩ := id hpositioned
  rcases hactive with hsame | hempty
  · rw [hsame] at hcf
    exact h.lineage hne group cf ⟨h.paired group (by rw [hcf]; rfl), hcf, happlied⟩
  · obtain rfl := Option.some.inj (hempty.symm.trans hcf)
    exact absurd hpositioned not_positioned_empty

theorem OneLineage.apply (h : d.OneLineage) {group : GroupId} {logId : RaftLogId}
    {membership : StoredMembership} {mutations : List (Mutation V)} {outbox : List Bytes}
    (hconsistent : d.Consistent (.apply group logId membership mutations outbox))
    (hstep : d.apply group logId membership mutations outbox = some after) : after.OneLineage := by
  rw [Disk.apply] at hstep
  split_ifs at hstep with hallowed
  cases hstep
  obtain ⟨hexists, hkeys⟩ := hallowed
  obtain ⟨hactive, hlog⟩ := Bool.and_eq_true_iff.mp hexists
  obtain ⟨cf, hcf⟩ := Option.isSome_iff_exists.mp hactive
  refine h.group group (fun other hother ↦ group_write_of_ne hother) rfl (fun _ ↦ ?_) ?_
  · rw [group_write]
    simpa [GroupDisk.write] using hlog
  · rintro cf' ⟨-, hcf', -⟩ hne
    rw [group_write, GroupDisk.activeState_apply, hcf] at hcf'
    obtain rfl := Option.some.inj hcf'
    rw [recoveryEpoch_writeAll hkeys]
    rcases hconsistent cf hcf with hpositioned | hzero | hepoch
    · exact h.lineage hne group cf hpositioned
    · exact absurd hzero hne
    · exact hepoch

/-- What an install leaves: the snapshot's state in use, and its epoch at the node. -/
theorem install_eq_some {group : GroupId} {snapshot : Snapshot V}
    (hstep : d.install group snapshot = some after) :
    ∃ epoch, Host.recoveryEpoch snapshot.state = some epoch ∧
      (d.localRecoveryEpoch = 0 ∨ epoch = d.localRecoveryEpoch) ∧ after.recoveryEpoch = some epoch ∧
      (∀ other ≠ group, after.group other = d.group other) ∧
      (after.group group).activeState = some snapshot.state ∧ (after.group group).log.isSome := by
  simp only [Disk.install] at hstep
  generalize hgeneration : (d.group group).generation.getD 0 + 1 = generation at hstep
  by_cases hexists : (d.group group).groupExists = true ∧
      ((d.group group).generation.getD 0).toNat + 1 < 2 ^ 64
  · rw [if_pos hexists] at hstep
    simp only [Option.bind_eq_bind, Option.bind_eq_some_iff] at hstep
    obtain ⟨epoch, hepoch, searchEpoch, -, hstep⟩ := hstep
    by_cases hlocal : d.localRecoveryEpoch = 0 ∨ epoch = d.localRecoveryEpoch
    · rw [if_pos hlocal] at hstep
      have hlog := (Bool.and_eq_true_iff.mp hexists.1).2
      refine ⟨epoch, hepoch, hlocal, ?_⟩
      split_ifs at hstep with hpointer
      · cases hstep
        refine ⟨rfl, fun other hother ↦ by simp [hother], ?_, ?_⟩
        · simp [GroupDisk.write, GroupDisk.change, GroupDisk.activeState, GroupDisk.writeState,
            Snapshot.state]
        · simpa [GroupDisk.write, GroupDisk.change, GroupDisk.writeState] using hlog
      · cases hstep
        refine ⟨rfl, fun other hother ↦ by simp [hother], ?_, ?_⟩
        · have hne : some generation ≠ (d.group group).pointer := Ne.symm hpointer
          simp [GroupDisk.write, GroupDisk.change, GroupDisk.activeState, GroupDisk.writeState,
            Snapshot.state, Function.update_of_ne hne]
        · simpa [GroupDisk.write, GroupDisk.change, GroupDisk.writeState] using hlog
    · rw [if_neg hlocal] at hstep
      cases hstep
  · rw [if_neg hexists] at hstep
    cases hstep

theorem OneLineage.install (h : d.OneLineage) {group : GroupId} {snapshot : Snapshot V}
    (hconsistent : d.Consistent (.install group snapshot))
    (hstep : d.install group snapshot = some after) : after.OneLineage := by
  obtain ⟨epoch, hepoch, hlocal, hafter, hothers, hactive, hlog⟩ := install_eq_some hstep
  have hnew : after.localRecoveryEpoch = epoch := by rw [localRecoveryEpoch, hafter]; rfl
  constructor
  · intro other
    by_cases hother : other = group
    · exact fun _ ↦ hother ▸ hlog
    · rw [hothers other hother]
      exact h.paired other
  · intro hne other cf hpositioned
    rw [hnew] at hne ⊢
    by_cases hother : other = group
    · subst hother
      obtain rfl := Option.some.inj (hactive.symm.trans hpositioned.2.1)
      exact hepoch
    · rw [hothers other hother] at hpositioned
      rcases hconsistent with hset | hzero | hsame
      · obtain rfl := hlocal.resolve_left hset
        exact h.lineage hset other cf hpositioned
      · exact absurd (Option.some.inj (hepoch.symm.trans hzero)) hne
      · exact (hsame other hother cf hpositioned).trans hepoch

/-- A group that passed the check is of the epoch. -/
theorem recoveryEpoch_of_checkEpoch {group : GroupId} {cf : ColumnFamily V}
    (hcheck : d.checkEpoch epoch group = .ok ()) (hpositioned : (d.group group).Positioned cf) :
    Host.recoveryEpoch cf = some epoch := by
  obtain ⟨hlog, hcf, applied, logId, happlied, hlogId⟩ := hpositioned
  have hexists : (d.group group).groupExists = true := by
    rw [GroupDisk.groupExists, hcf, hlog]
    rfl
  cases hrecorded : Host.recoveryEpoch cf with
  | none =>
    simp [checkEpoch, hexists, GroupDisk.recoveredRaftApplied, GroupDisk.recoveryEpoch,
      hcf, happlied, hlogId, hrecorded, Except.map, bind, Except.bind] at hcheck
  | some recorded =>
    by_cases hsame : recorded = epoch
    · rw [hsame]
    · simp [checkEpoch, hexists, GroupDisk.recoveredRaftApplied, GroupDisk.recoveryEpoch,
        hcf, happlied, hlogId, hrecorded, hsame, Except.map, bind, Except.bind, throw, throwThe,
        MonadExceptOf.throw] at hcheck

/-- An adoption leaves the node as it is, or every group that was checked is of the epoch. -/
theorem adopt_eq_ok {partitionCount : UInt16}
    (hstep : d.adoptRecoveryEpoch epoch partitionCount = .ok after) :
    after = d ∨ d.localRecoveryEpoch = 0 ∧ after = { d with recoveryEpoch := some epoch } ∧
      ∀ group ∈ Meta.groups partitionCount, d.checkEpoch epoch group = .ok () := by
  rw [adoptRecoveryEpoch] at hstep
  by_cases hsame : d.localRecoveryEpoch = epoch
  · rw [if_pos hsame] at hstep
    exact .inl (Except.ok.inj hstep).symm
  · by_cases hset : d.localRecoveryEpoch ≠ 0
    · rw [if_neg hsame, if_pos hset] at hstep
      cases hstep
    · rw [if_neg hsame, if_neg hset] at hstep
      obtain ⟨⟨⟩, hchecked, hlast⟩ := bind_eq_ok_iff.mp hstep
      exact .inr ⟨not_not.mp hset, (Except.ok.inj hlast).symm, fun group ↦ forM_eq_ok hchecked⟩

theorem OneLineage.adopt (h : d.OneLineage) {partitionCount : UInt16}
    (hconsistent : d.Consistent (.adopt epoch partitionCount))
    (hstep : d.adoptRecoveryEpoch epoch partitionCount = .ok after) : after.OneLineage := by
  rcases adopt_eq_ok hstep with rfl | ⟨-, rfl, hchecked⟩
  · exact h
  · refine ⟨h.paired, fun _ group cf hpositioned ↦ ?_⟩
    exact recoveryEpoch_of_checkEpoch
      (hchecked group (hconsistent group cf hpositioned)) hpositioned

omit [Record V (BitVec 128)] in
/-- A group without a position to restore from is not hosted. -/
theorem groupExists_of_restoredPosition {group : GroupId}
    (h : d.restoredPosition group = .ok none) : (d.group group).groupExists = false := by
  rw [restoredPosition] at h
  by_cases hexists : (d.group group).groupExists = true
  · rw [if_pos hexists] at h
    obtain ⟨position, -, hposition⟩ := bind_eq_ok_iff.mp h
    cases position <;> cases hposition
  · exact Bool.eq_false_iff.mpr hexists

/-- What the loop of a restore leaves: a hosted group of the list is restored, another one stays. -/
theorem restored_loop {groups : List GroupId} {left last : Disk V P}
    (hloop : groups.foldlM (d.restoreGroup epoch) left = .ok last) (group : GroupId) :
    (∃ applied, last.group group = (d.group group).restored epoch applied) ∨
      last.group group = left.group group ∧
        (group ∈ groups → (d.group group).groupExists = false) := by
  induction groups generalizing left with
  | nil => exact .inr ⟨by cases hloop; rfl, nofun⟩
  | cons first rest ih =>
    rw [List.foldlM_cons] at hloop
    obtain ⟨mid, hmid, hrest⟩ := bind_eq_ok_iff.mp hloop
    obtain ⟨position, hposition, hmid⟩ := bind_eq_ok_iff.mp hmid
    refine (ih hrest).elim .inl fun ⟨hsame, hmissing⟩ ↦ ?_
    cases position with
    | some applied =>
      cases hmid
      by_cases hfirst : group = first
      · subst hfirst
        exact .inl ⟨applied, hsame.trans (Function.update_self _ _ _)⟩
      · refine .inr ⟨hsame.trans (Function.update_of_ne hfirst _ _), fun hin ↦ ?_⟩
        exact hmissing ((List.mem_cons.mp hin).resolve_left hfirst)
    | none =>
      cases hmid
      refine .inr ⟨hsame, fun hin ↦ (List.mem_cons.mp hin).elim ?_ hmissing⟩
      rintro rfl
      exact groupExists_of_restoredPosition hposition

/-- What a restore leaves. -/
theorem restore_eq_ok {partitionCount : UInt16}
    (hstep : d.installRestoredEpochOffline epoch partitionCount = .ok after) :
    after.recoveryEpoch = some epoch ∧ ∀ group,
      (∃ applied, after.group group = (d.group group).restored epoch applied) ∨
        after.group group = d.group group ∧
          (group ∈ Meta.groups partitionCount → (d.group group).groupExists = false) := by
  rw [installRestoredEpochOffline] at hstep
  by_cases hrefused : epoch = 0 ∨ epoch = d.localRecoveryEpoch
  · rw [if_pos hrefused] at hstep
    cases hstep
  · rw [if_neg hrefused] at hstep
    obtain ⟨last, hloop, hlast⟩ := bind_eq_ok_iff.mp hstep
    cases hlast
    exact ⟨rfl, fun group ↦ restored_loop hloop group⟩

theorem OneLineage.restore (h : d.OneLineage) {partitionCount : UInt16}
    (hconsistent : d.Consistent (.restore epoch partitionCount))
    (hstep : d.installRestoredEpochOffline epoch partitionCount = .ok after) :
    after.OneLineage := by
  obtain ⟨hepoch, hgroups⟩ := restore_eq_ok hstep
  have hnew : after.localRecoveryEpoch = epoch := by rw [localRecoveryEpoch, hepoch]; rfl
  constructor
  · intro group
    rcases hgroups group with ⟨applied, hrestored⟩ | ⟨hsame, -⟩
    · rw [hrestored]
      intro hactive
      rw [GroupDisk.activeState_restored, Option.isSome_map] at hactive
      simpa [GroupDisk.restored] using h.paired group hactive
    · rw [hsame]
      exact h.paired group
  · intro _ group cf hpositioned
    rw [hnew]
    rcases hgroups group with ⟨applied, hrestored⟩ | ⟨hsame, hmissing⟩
    · rw [hrestored] at hpositioned
      exact GroupDisk.recoveryEpoch_restored _ hpositioned.2.1
    · rw [hsame] at hpositioned
      have hexists := hmissing (hconsistent group cf hpositioned)
      rw [GroupDisk.groupExists, hpositioned.2.1, hpositioned.1] at hexists
      cases hexists

theorem OneLineage.dropGroup (h : d.OneLineage) (group : GroupId) :
    (d.dropGroup group).OneLineage := by
  have hnone : ((d.dropGroup group).group group).activeState = none := by
    cases group <;> simp [Disk.dropGroup, GroupDisk.activeState]
  refine h.group group (fun other hother ↦ Function.update_of_ne hother _ _) rfl ?_ ?_
  · rw [hnone]
    exact fun h ↦ Bool.noConfusion h
  · rintro cf ⟨-, hcf, -⟩
    rw [hnone] at hcf
    cases hcf

theorem OneLineage.step (h : d.OneLineage) {event : NodeEvent V} (hconsistent : d.Consistent event)
    (hstep : d.step event = some after) : after.OneLineage := by
  cases event with
  | ensureGroup group => exact h.ensureGroup hstep
  | apply group logId membership mutations outbox => exact h.apply hconsistent hstep
  | install group snapshot => exact h.install hconsistent hstep
  | adopt epoch partitionCount => exact h.adopt hconsistent (toOption_eq_some_iff.mp hstep)
  | restore epoch partitionCount => exact h.restore hconsistent (toOption_eq_some_iff.mp hstep)
  | dropGroup group => exact Option.some.inj hstep ▸ h.dropGroup group

/-- Nothing but a restore changes an epoch that is set. -/
theorem localRecoveryEpoch_step {event : NodeEvent V} (hstep : d.step event = some after)
    (hset : d.localRecoveryEpoch ≠ 0) (hevent : event.isRestore = false) :
    after.localRecoveryEpoch = d.localRecoveryEpoch := by
  cases event with
  | ensureGroup group => exact congrArg (Option.getD · 0) (ensureGroup_eq_some hstep).2.1
  | apply group logId membership mutations outbox =>
    simp only [Disk.step, Disk.apply] at hstep
    split_ifs at hstep
    cases hstep
    rfl
  | install group snapshot =>
    obtain ⟨epoch, -, hlocal, hafter, -⟩ := install_eq_some hstep
    rw [localRecoveryEpoch, hafter]
    exact hlocal.resolve_left hset
  | adopt epoch partitionCount =>
    rcases adopt_eq_ok (toOption_eq_some_iff.mp hstep) with rfl | ⟨hzero, -⟩
    · rfl
    · exact absurd hzero hset
  | restore epoch partitionCount => cases hevent
  | dropGroup group =>
    cases hstep
    rfl

/-! ### Runs -/

/-- A node that stores nothing. -/
def empty : Disk V P where
  group := fun _ ↦ .empty
  recoveryEpoch := none
  identity := none

/-- A step of a node. -/
def Steps (d : Disk V P) (event : NodeEvent V) (after : Disk V P) : Prop :=
  d.step event = some after

/-- A step of a node that meets the condition. -/
def ConsistentSteps (d : Disk V P) (event : NodeEvent V) (after : Disk V P) : Prop :=
  d.Consistent event ∧ d.step event = some after

theorem OneLineage.empty : (Disk.empty : Disk V P).OneLineage :=
  ⟨fun _ h ↦ Bool.noConfusion h, fun h ↦ absurd rfl h⟩

/-- In a run whose steps are consistent, every hosted group that has applied something is of the
node's epoch, if that is set. In every run, only an offline restore changes an epoch that is set. -/
theorem one_recovery_lineage {events : List (NodeEvent V)} {d : Disk V P} :
    (Trace ConsistentSteps Disk.empty events d → d.Lineage) ∧
      (Trace Steps Disk.empty events d → ∀ (event : NodeEvent V) (after : Disk V P),
        d.step event = some after → d.localRecoveryEpoch ≠ 0 → event.isRestore = false →
          after.localRecoveryEpoch = d.localRecoveryEpoch) := by
  refine ⟨fun hrun ↦ ?_, fun _ event after hstep hset hevent ↦
    localRecoveryEpoch_step hstep hset hevent⟩
  have hkept := hrun.invariant (P := fun _ d ↦ d.OneLineage) OneLineage.empty
    fun _ _ _ _ _ h ⟨hconsistent, hstep⟩ ↦ h.step hconsistent hstep
  exact hkept.lineage

end Disk

/-- A snapshot of a group that was restored under epoch five. -/
def restoredSnapshot : Snapshot DataValue where
  applied := { logId := some ⟨⟨1, 1⟩, 7⟩, membership := StoredMembership.default }
  records := [(recoveryEpochKey, Record.encode (5 : BitVec 128))]

/-- Two groups install snapshots of the epoch: the first brings it to the node. -/
theorem one_recovery_lineage_install :
    let events : List (NodeEvent DataValue) :=
      [.ensureGroup (.data 0), .install (.data 0) restoredSnapshot, .ensureGroup (.data 1),
        .install (.data 1) restoredSnapshot]
    let batch : NodeEvent DataValue :=
      .apply (.data 1) ⟨⟨1, 1⟩, 8⟩ StoredMembership.default [] []
    ∃ d after : Disk DataValue Unit, Trace Disk.ConsistentSteps Disk.empty events d ∧
      d.localRecoveryEpoch = 5 ∧ d.Lineage ∧ d.step batch = some after ∧
      after.localRecoveryEpoch = d.localRecoveryEpoch := by
  intro events batch
  obtain ⟨last, hlast⟩ : ∃ last, (events ++ [batch]).foldlM Disk.step
      (Disk.empty : Disk DataValue Unit) = some last :=
    Option.isSome_iff_exists.mp (by decide +kernel)
  simp only [events, batch, List.cons_append, List.nil_append, List.foldlM_cons, List.foldlM_nil,
    Option.bind_eq_bind, Option.bind_eq_some_iff] at hlast
  obtain ⟨first, hfirst, one, hone, second, hsecond, d, hd, after, hafter, -⟩ := hlast
  have hbrought : first.Consistent (.install (.data 0) restoredSnapshot) := by
    refine .inr (.inr fun other hother cf hpositioned ↦ ?_)
    have hcreated : Disk.empty.ensureGroup (.data 0) = some first := hfirst
    rw [(Disk.ensureGroup_eq_some hcreated).1 other hother] at hpositioned
    exact Bool.noConfusion hpositioned.1
  have hone' : one.localRecoveryEpoch = 5 := by
    obtain ⟨epoch, hepoch, -, hlocal, -⟩ := Disk.install_eq_some hone
    have hfive : Host.recoveryEpoch restoredSnapshot.state = some 5 := by decide +kernel
    rw [Disk.localRecoveryEpoch, hlocal, ← hepoch, hfive]
    rfl
  have hset : one.localRecoveryEpoch ≠ 0 := by rw [hone']; decide
  have hsecond' : second.localRecoveryEpoch = 5 :=
    (Disk.localRecoveryEpoch_step hsecond hset rfl).trans hone'
  have hset' : second.localRecoveryEpoch ≠ 0 := by rw [hsecond']; decide
  have hd' : d.localRecoveryEpoch = 5 := (Disk.localRecoveryEpoch_step hd hset' rfl).trans hsecond'
  have hrun : Trace Disk.ConsistentSteps Disk.empty events d :=
    Trace.nil.concat ⟨trivial, hfirst⟩ |>.concat ⟨hbrought, hone⟩ |>.concat ⟨trivial, hsecond⟩
      |>.concat ⟨.inl hset', hd⟩
  have hsteps : Trace Disk.Steps Disk.empty events d := hrun.mono And.right
  exact ⟨d, after, hrun, hd', Disk.one_recovery_lineage.1 hrun, hafter,
    Disk.one_recovery_lineage.2 hsteps _ after hafter (by rw [hd']; decide) rfl⟩

/-- The node is of an epoch, and a group has applied something and is of none. -/
def relabelled (group : GroupId) (d : Disk DataValue Unit) : Bool :=
  d.localRecoveryEpoch = 5 && (d.group group).log.isSome &&
    (d.group group).activeState.any fun cf ↦
      readApplied cf = .ok { logId := some ⟨⟨1, 1⟩, 1⟩, membership := StoredMembership.default } &&
        Host.recoveryEpoch cf = some 0

theorem not_lineage_of_relabelled {events : List (NodeEvent DataValue)} {group : GroupId}
    (h : (events.foldlM Disk.step (Disk.empty : Disk DataValue Unit)).any
      (relabelled group) = true) :
    ∃ d : Disk DataValue Unit, Trace Disk.Steps Disk.empty events d ∧ ¬d.Lineage := by
  obtain ⟨d, hd, hrelabelled⟩ := (Option.any_eq_true _ _).mp h
  refine ⟨d, trace_of_foldlM hd, fun hlineage ↦ ?_⟩
  simp only [relabelled, Bool.and_eq_true, decide_eq_true_eq] at hrelabelled
  obtain ⟨⟨hlocal, hlog⟩, hstate⟩ := hrelabelled
  obtain ⟨cf, hcf, hread⟩ := (Option.any_eq_true _ _).mp hstate
  simp only [Bool.and_eq_true, decide_eq_true_eq] at hread
  have hepoch := hlineage (by rw [hlocal]; decide) group cf ⟨hlog, hcf, _, _, hread.1, rfl⟩
  rw [hread.2, hlocal] at hepoch
  exact absurd hepoch (by decide)

/-- Two groups; the second installs a snapshot of an epoch that the first is not of. -/
def relabelling : List (NodeEvent DataValue) :=
  [.ensureGroup (.data 0), .apply (.data 0) ⟨⟨1, 1⟩, 1⟩ StoredMembership.default [] [],
    .ensureGroup (.data 1), .install (.data 1) restoredSnapshot]

/-- The node adopts the epoch of the snapshot, though its other group has applied something and is
of none. -/
theorem install_relabels_other_group :
    ∃ d : Disk DataValue Unit, Trace Disk.Steps Disk.empty relabelling d ∧ ¬d.Lineage :=
  have hrelabelled : (relabelling.foldlM Disk.step (Disk.empty : Disk DataValue Unit)).any
      (relabelled (.data 0)) = true := by decide +kernel
  not_lineage_of_relabelled hrelabelled

/-- A group is created on a node that is of an epoch, and applies its first batch: its state records
no epoch. -/
theorem first_batch_records_no_epoch :
    ∃ d : Disk DataValue Unit, Trace Disk.Steps Disk.empty
      [.ensureGroup (.data 0), .install (.data 0) restoredSnapshot, .ensureGroup (.data 1),
        .apply (.data 1) ⟨⟨1, 1⟩, 1⟩ StoredMembership.default [] []] d ∧ ¬d.Lineage := by
  have hrelabelled : ([.ensureGroup (.data 0), .install (.data 0) restoredSnapshot,
      .ensureGroup (.data 1), .apply (.data 1) ⟨⟨1, 1⟩, 1⟩ StoredMembership.default [] []].foldlM
      Disk.step (Disk.empty : Disk DataValue Unit)).any (relabelled (.data 1)) = true := by
    decide +kernel
  exact not_lineage_of_relabelled hrelabelled

end DalService.Storage
