import DalService.Foundation.Journal
import DalService.Partition.StateMachine

/-!
# What a node stores

The database of a node, from `storage/rocks.rs` and `partition/log_store.rs`. For each group it
holds the log column family, the state column families and the node-local records of the default
column family. A state column family is the base one or the generation of a snapshot; the pointer
record names the one in use. One atomic batch of the write-ahead log is a `Write`, and creating or
dropping a column family is a `Change`; `Database` is the journal of both.

A batch and a change touch what is stored for their own group alone (`Disk.group_write_of_ne`,
`Disk.group_change_of_ne`), the adopted recovery epoch of a switch apart. A state batch ends with
the applied record, and reading it back gives that record (`readApplied_writeAll`).
-/

set_option autoImplicit false

namespace DalService.Storage

open Foundation Keyspace DalService.Partition
open Function (update update_of_ne update_self)

/-- openraft's `Vote`. -/
structure Vote where
  leaderId : RaftLeaderId
  committed : Bool
  deriving DecidableEq, Repr

/-- An entry of a Raft log, for any kind of payload. -/
structure LogEntry (P : Type) where
  logId : RaftLogId
  payload : P
  deriving DecidableEq, Repr

/-- This node's serving gate for a group. -/
inductive ServingState
  | serving
  | nonServing
  deriving DecidableEq, Repr

/-- A group this node was a founding member of. -/
structure BootstrapGroup where
  clusterId : ClusterId
  group : GroupId
  members : List NodeId
  deriving DecidableEq, Repr

/-- This node's admission of itself as a learner, for a plan. -/
structure LearnerAdmission where
  clusterId : ClusterId
  group : GroupId
  planId : UInt64
  deriving DecidableEq, Repr

variable {V P : Type}

/-! ### The log column family -/

/-- The log column family of a group. -/
structure LogCf (P : Type) where
  vote : Option Vote
  purged : Option RaftLogId
  committed : Option RaftLogId
  entries : Std.ExtTreeMap UInt64 (LogEntry P)

namespace LogCf

def empty : LogCf P where
  vote := none
  purged := none
  committed := none
  entries := ∅

/-- Put each entry under its index. -/
def put (log : LogCf P) (entries : List (LogEntry P)) : LogCf P :=
  { log with
    entries :=
      entries.foldl (fun stored entry ↦ stored.insert entry.logId.index entry) log.entries }

/-- Delete the entries from `first` up to but without `last`. -/
def deleteRange (log : LogCf P) (first last : UInt64) : LogCf P :=
  { log with entries := log.entries.filter fun index _ ↦ ¬(first ≤ index ∧ index < last) }

def delete (log : LogCf P) (index : UInt64) : LogCf P :=
  { log with entries := log.entries.erase index }

/-- The log id of the highest entry. -/
def lastEntryId (log : LogCf P) : Option RaftLogId :=
  log.entries.toList.getLast?.map fun last ↦ last.2.logId

/-- The last log id `get_log_state` reports. -/
def lastLogId (log : LogCf P) : Option RaftLogId := log.lastEntryId.or log.purged

@[simp] theorem entries_deleteRange (log : LogCf P) (first last index : UInt64) :
    (log.deleteRange first last).entries[index]? =
      if first ≤ index ∧ index < last then none else log.entries[index]? := by
  rw [deleteRange, Std.ExtTreeMap.getElem?_filter']
  split_ifs with h
  · cases log.entries[index]? <;> simp [h]
  · cases log.entries[index]? with
    | none => rfl
    | some entry => simp only [Option.filter, h, not_false_eq_true, decide_true, if_true]

@[simp] theorem entries_delete (log : LogCf P) (deleted index : UInt64) :
    (log.delete deleted).entries[index]? =
      if deleted = index then none else log.entries[index]? := by
  rw [delete, Std.ExtTreeMap.getElem?_erase]
  simp

theorem lastEntryId_eq_none_iff {log : LogCf P} : log.lastEntryId = none ↔ log.entries = ∅ := by
  rw [lastEntryId, Option.map_eq_none_iff, List.getLast?_eq_none_iff,
    Std.ExtTreeMap.toList_eq_nil_iff]

/-- The last entry of an iteration is stored, and no index is above it. -/
theorem exists_of_lastEntryId {log : LogCf P} {logId : RaftLogId}
    (h : log.lastEntryId = some logId) :
    ∃ (index : UInt64) (entry : LogEntry P), log.entries[index]? = some entry ∧
      entry.logId = logId ∧ ∀ other ∈ log.entries, other ≤ index := by
  obtain ⟨⟨index, entry⟩, hlast, rfl⟩ := Option.map_eq_some_iff.mp h
  obtain ⟨before, hbefore⟩ := List.getLast?_eq_some_iff.mp hlast
  refine ⟨index, entry, ?_, rfl, fun other hother ↦ ?_⟩
  · rw [← Std.ExtTreeMap.mem_toList_iff_getElem?_eq_some, hbefore]
    exact List.mem_append_right _ (List.mem_singleton_self _)
  · obtain ⟨found, hfound⟩ :=
      Option.isSome_iff_exists.mp (Std.ExtTreeMap.mem_iff_isSome_getElem?.mp hother)
    rw [← Std.ExtTreeMap.mem_toList_iff_getElem?_eq_some, hbefore] at hfound
    have hordered : log.entries.toList.Pairwise fun first second ↦
        compare first.1 second.1 = .lt := Std.ExtTreeMap.ordered_keys_toList
    rw [hbefore] at hordered
    rcases List.mem_append.mp hfound with hin | hin
    · have hlt := (List.pairwise_append.mp hordered).2.2 _ hin _ (List.mem_singleton_self _)
      exact Std.isLE_compare.mp (by simp only at hlt; rw [hlt]; rfl)
    · cases List.mem_singleton.mp hin
      exact UInt64.le_refl _

end LogCf

/-! ### One group -/

/-- What a node stores for one group. A state column family is named by its generation: none is the
base family, and the pointer record names a generation. -/
structure GroupDisk (V P : Type) where
  log : Option (LogCf P)
  state : Option UInt64 → Option (ColumnFamily V)
  pointer : Option UInt64
  generation : Option UInt64
  searchEpoch : Option UInt64
  consumers : ColumnFamily Unit
  outbox : ColumnFamily Unit
  serving : Option ServingState
  bootstrap : Option BootstrapGroup
  admission : Option LearnerAdmission

/-- One atomic batch of the write-ahead log, for one group. -/
inductive Write (V P : Type)
  /-- The vote. -/
  | vote (vote : Vote)
  /-- Log entries. -/
  | append (entries : List (LogEntry P))
  /-- A range of the log's entries is deleted. -/
  | deleteRange (first last : UInt64)
  /-- One of the log's entries is deleted. -/
  | deleteEntry (index : UInt64)
  /-- The purge marker of the log. -/
  | purged (logId : RaftLogId)
  /-- A state batch, with the committed marker, the projection epoch if none is stored, and the rows
  of the search outbox. -/
  | apply (generation : Option UInt64) (mutations : List (Mutation V)) (committed : RaftLogId)
    (searchEpoch : Option UInt64) (outbox : List Bytes)
  /-- The number of the last snapshot generation. -/
  | generation (generation : UInt64)
  /-- Records staged in a snapshot generation. -/
  | stage (generation : UInt64) (mutations : List (Mutation V))
  /-- The switch to a snapshot generation. -/
  | switch (recoveryEpoch : BitVec 128) (generation : UInt64) (searchEpoch : Option UInt64)
  /-- The serving gate. -/
  | serving (state : ServingState)
  /-- An admission, which opens the serving gate. -/
  | admission (record : LearnerAdmission)
  /-- The bootstrap record. -/
  | bootstrap (record : BootstrapGroup)
  /-- A row of a search consumer. -/
  | consumer (mutation : Mutation Unit)
  /-- Rows pruned from the search outbox. -/
  | prune (rows : List Bytes)
  /-- Every record under the search prefix is deleted. -/
  | deleteSearch
  /-- The pointer record is deleted. -/
  | deletePointer

/-- A column family is created or dropped. -/
inductive Change
  | createLog
  | createState (generation : Option UInt64)
  | dropLog
  | dropState (generation : Option UInt64)
  deriving DecidableEq, Repr

namespace GroupDisk

/-- Nothing is stored. -/
def empty : GroupDisk V P where
  log := none
  state := fun _ ↦ none
  pointer := none
  generation := none
  searchEpoch := none
  consumers := ∅
  outbox := ∅
  serving := none
  bootstrap := none
  admission := none

variable (d : GroupDisk V P)

/-- Write a batch to a state column family, if there is one. -/
def writeState (generation : Option UInt64) (mutations : List (Mutation V)) : GroupDisk V P :=
  { d with
    state := update d.state generation
      ((d.state generation).map fun cf ↦ cf.writeAll mutations) }

def write : Write V P → GroupDisk V P
  | .vote vote => { d with log := d.log.map fun log ↦ { log with vote := some vote } }
  | .append entries => { d with log := d.log.map fun log ↦ log.put entries }
  | .deleteRange first last => { d with log := d.log.map fun log ↦ log.deleteRange first last }
  | .deleteEntry index => { d with log := d.log.map fun log ↦ log.delete index }
  | .purged logId => { d with log := d.log.map fun log ↦ { log with purged := some logId } }
  | .apply generation mutations committed searchEpoch outbox =>
    { d.writeState generation mutations with
      log := d.log.map fun log ↦ { log with committed := some committed }
      searchEpoch := searchEpoch.or d.searchEpoch
      outbox := d.outbox.writeAll (outbox.map fun row ↦ .put row ()) }
  | .generation generation => { d with generation := some generation }
  | .stage generation mutations => d.writeState (some generation) mutations
  | .switch _ generation searchEpoch =>
    { d with pointer := some generation, searchEpoch := searchEpoch.or d.searchEpoch }
  | .serving state => { d with serving := some state }
  | .admission record => { d with admission := some record, serving := some .serving }
  | .bootstrap record => { d with bootstrap := some record }
  | .consumer mutation => { d with consumers := d.consumers.write mutation }
  | .prune rows => { d with outbox := d.outbox.writeAll (rows.map fun row ↦ .delete row) }
  | .deleteSearch => { d with searchEpoch := none, consumers := ∅, outbox := ∅ }
  | .deletePointer => { d with pointer := none }

def change : Change → GroupDisk V P
  | .createLog => { d with log := some .empty }
  | .createState generation => { d with state := update d.state generation (some ∅) }
  | .dropLog => { d with log := none }
  | .dropState generation => { d with state := update d.state generation none }

/-- The state column family in use. -/
def activeState : Option (ColumnFamily V) := d.state d.pointer

/-- The projection epoch of the search outbox: one where none is recorded. -/
def searchProjectionEpoch : UInt64 := d.searchEpoch.getD 1

end GroupDisk

/-! ### The node -/

/-- What a node stores. -/
structure Disk (V P : Type) where
  group : GroupId → GroupDisk V P
  recoveryEpoch : Option (BitVec 128)
  identity : Option Identity

/-- The epoch of the cluster a batch makes the node adopt. -/
def Write.recoveryEpoch : Write V P → Option (BitVec 128)
  | .switch epoch _ _ => some epoch
  | _ => none

namespace Disk

variable (d : Disk V P)

def localRecoveryEpoch : BitVec 128 := d.recoveryEpoch.getD 0

instance : Journaled (Disk V P) (GroupId × Write V P) (GroupId × Change) where
  write d w :=
    { d with
      group := update d.group w.1 ((d.group w.1).write w.2)
      recoveryEpoch := w.2.recoveryEpoch.or d.recoveryEpoch }
  change d c := { d with group := update d.group c.1 ((d.group c.1).change c.2) }

/-- A batch for one group, written to the node's database. -/
abbrev write (group : GroupId) (w : Write V P) : Disk V P :=
  Journaled.write (GroupId × Change) d (group, w)

/-- A column family of one group, created or dropped. -/
abbrev change (group : GroupId) (c : Change) : Disk V P :=
  Journaled.change (GroupId × Write V P) d (group, c)

variable {d} {group other : GroupId} {w : Write V P} {c : Change}

@[simp] theorem group_write : (d.write group w).group group = (d.group group).write w :=
  update_self _ _ _

@[simp] theorem group_write_of_ne (h : other ≠ group) :
    (d.write group w).group other = d.group other := update_of_ne h _ _

@[simp] theorem group_change : (d.change group c).group group = (d.group group).change c :=
  update_self _ _ _

@[simp] theorem group_change_of_ne (h : other ≠ group) :
    (d.change group c).group other = d.group other := update_of_ne h _ _

end Disk

/-- The node's database since it was opened. -/
abbrev Database (V P : Type) := Journal (Disk V P) (GroupId × Write V P) (GroupId × Change)

/-! ### The applied position -/

section Applied

variable [Record V Applied]

/-- The applied record of a state column family. -/
def readApplied (cf : ColumnFamily V) : Result Applied :=
  match cf[raftAppliedKey]? with
  | none => .ok { logId := none, membership := StoredMembership.default }
  | some value =>
    match Record.decode value with
    | some applied => .ok applied
    | none => .error (.codec "deserialize")

/-- The put of the applied record that ends a state batch. -/
def putApplied (applied : Applied) : Mutation V := .put raftAppliedKey (Record.encode applied)

@[simp] theorem readApplied_empty :
    readApplied (∅ : ColumnFamily V) =
      .ok { logId := none, membership := StoredMembership.default } := by
  simp [readApplied]

/-- A batch that ends with the applied record leaves that record. -/
@[simp] theorem readApplied_writeAll (cf : ColumnFamily V) (mutations : List (Mutation V))
    (applied : Applied) :
    readApplied (cf.writeAll (mutations ++ [putApplied applied])) = .ok applied := by
  have hread : (cf.writeAll (mutations ++ [putApplied applied]))[raftAppliedKey]? =
      some (Record.encode applied) := by
    rw [getElem?_writeAll, lastWrite_append]
    simp [lastWrite, putApplied]
  rw [readApplied, hread]
  simp

end Applied

end DalService.Storage
