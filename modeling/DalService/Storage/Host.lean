import DalService.Storage.ApplyDurability
import DalService.Storage.Cleanup

/-!
# A group on a running node

One group of a node, from `partition/log_store.rs`, `partition/sm.rs`, `storage/rocks.rs` and
`storage/durability.rs`: its log store, the worker that flushes the shared write-ahead log, the
batches that apply committed entries, building and installing snapshots, and reopening after a
crash. Every write of an operation is an event of its own, so that a crash and the writes of the
other operations may fall between any two.

The log store takes one operation at a time. Applying, building and installing exclude each other by
the view lock of the state machine, which `StateTask` stands for. A batch handed to the worker is
written first, and its callbacks run after a flush: an append is then reported to the caller
(`acknowledged`), and a state batch raises the durable watermark. An operation that fails poisons
the database (`fail`), and `saveVote`, `append`, `truncate`, `purge`, `applyBegin` and `install`
then refuse to start.

Other groups write to the same log (`foreign`), and anything may sync it (`sync`).
-/

set_option autoImplicit false

namespace DalService.Storage

open Foundation Keyspace DalService.Partition

variable {V P : Type}

/-- A batch written by the worker that no flush has covered yet, by what its callback reports. -/
inductive Request (P : Type)
  | log (entries : List (LogEntry P))
  | state (logId : RaftLogId)

namespace Request

/-- The log entries whose append is reported. -/
def entries : Request P → List (LogEntry P)
  | log entries => entries
  | state _ => []

/-- The log id at which the state becomes durable. -/
def stateId : Request P → Option RaftLogId
  | log _ => none
  | state logId => some logId

/-- The entries above a truncation are no longer of interest to anyone. -/
def truncate (index : UInt64) : Request P → Request P
  | log entries => log (entries.filter fun entry ↦ entry.logId.index < index)
  | state logId => state logId

end Request

/-- An operation of the log store between two of its writes. -/
inductive LogTask
  | idle
  | truncated
  | marked (logId : RaftLogId)
  | swept (logId : RaftLogId)
  deriving DecidableEq, Repr

/-- A snapshot: the metadata, and the records in key order. -/
structure Snapshot (V : Type) where
  applied : Applied
  records : List (Bytes × V)

/-- The holder of the view lock of the state machine. -/
inductive StateTask (V P : Type)
  | idle
  /-- A batch is admitted and not written yet. -/
  | applying (logId : RaftLogId) (batch : Write V P)
  /-- A snapshot is being built, and its metadata is read. -/
  | building (applied : Applied)
  /-- A snapshot is being installed: its generation is numbered. -/
  | numbered (snapshot : Snapshot V) (generation : UInt64)
  /-- Its records are being staged: those buffered, and those still to come after `lastKey`. -/
  | staging (snapshot : Snapshot V) (generation : UInt64) (buffer : List (Mutation V))
    (left : List (Bytes × V)) (lastKey : Option Bytes)
  /-- All records and the applied record are written. -/
  | staged (snapshot : Snapshot V) (generation : UInt64)
  /-- They are durable. -/
  | flushed (snapshot : Snapshot V) (generation : UInt64)
  /-- The pointer names the new generation. -/
  | switched (snapshot : Snapshot V) (old : Option UInt64)
  /-- The old generation is dropped or left to the next start. -/
  | retired (snapshot : Snapshot V)
  /-- An install failed. -/
  | failed

/-- One group of a running node. -/
structure Host (V P : Type) where
  database : Database V P
  tracker : GroupState
  logTask : LogTask
  stateTask : StateTask V P
  unflushed : List (Request P)
  completing : List (Request P)
  /-- The entries whose append was reported and that were not truncated later. -/
  acknowledged : List (LogEntry P)
  /-- The snapshots built. -/
  built : List (Snapshot V)

/-- What can happen to the group next. -/
inductive Event (V P : Type)
  | saveVote (vote : Vote)
  | append (entries : List (LogEntry P))
  | appendSynced (entries : List (LogEntry P))
  | truncate (logId : RaftLogId)
  | truncateLast
  | purge (logId : RaftLogId)
  | purgeRange
  | purgeLast
  | flush
  | complete
  | fail (error : String)
  | applyBegin (logId : RaftLogId) (membership : StoredMembership) (mutations : List (Mutation V))
    (outbox : List Bytes) (entries bytes : ℕ)
  | applyWrite
  | buildBegin
  | buildCapture
  | install (snapshot : Snapshot V)
  | createStaging
  | put
  | flushBatch
  | finish
  | flushWal
  | switch
  | retire (dropped : Bool)
  | recordInstalled (epoch : UInt64)
  | abandon (error : String) (dropped : Bool)
  | consumer (mutation : Mutation Unit)
  | prune (rows : List Bytes)
  | sync
  | foreign (other : GroupId) (w : Write V P)
  | foreignChange (other : GroupId) (c : Change)
  | crash (kept : ℕ) (epoch : UInt64)

/-- The highest index of all. -/
def lastIndex : UInt64 := UInt64.ofNat (2 ^ 64 - 1)

/-- Entries with consecutive indices from `start` on. -/
def IndicesFrom : ℕ → List (LogEntry P) → Prop
  | _, [] => True
  | start, entry :: rest => entry.logId.index.toNat = start ∧ IndicesFrom (start + 1) rest

instance decidableIndicesFrom : (start : ℕ) → (entries : List (LogEntry P)) →
    Decidable (IndicesFrom start entries)
  | _, [] => .isTrue trivial
  | start, entry :: rest =>
    letI := decidableIndicesFrom (start + 1) rest
    inferInstanceAs (Decidable (entry.logId.index.toNat = start ∧ IndicesFrom (start + 1) rest))

/-- The epoch a data group stores with its first batch. -/
def missingSearchEpoch (group : GroupId) (stored : Option UInt64) : Option UInt64 :=
  match group, stored with
  | .data _, none => some 1
  | _, _ => none

/-- The mutations that stage a snapshot's records. -/
def putAll (records : List (Bytes × V)) : List (Mutation V) :=
  records.map fun record ↦ .put record.1 record.2

namespace Host

section Step

variable [Record V Applied] [Record V (BitVec 128)] (group : GroupId)
  (limits : ApplyDurabilityLimits) (logIdText : RaftLogId → String) (s : Host V P)

/-- What is stored for the group, as it is read. -/
def disk : GroupDisk V P := s.database.current.group group

def write (w : Write V P) : Host V P := { s with database := s.database.write (group, w) }

def writeSynced (w : Write V P) : Host V P :=
  { s with database := (s.database.write (group, w)).sync }

def change (c : Change) : Host V P := { s with database := s.database.change (group, c) }

def healthy : Bool := s.tracker.failed.isNone

/-! ### The log store -/

/-- The log store may start an operation. -/
def logReady : Bool := s.healthy && s.logTask = .idle

def saveVote (vote : Vote) : Option (Host V P) :=
  if s.logReady then some (s.writeSynced group (.vote vote)) else none

/-- The caller appends after the last entry the log reports. -/
def follows (entries : List (LogEntry P)) : Bool :=
  (s.disk group).log.any fun log ↦ IndicesFrom (next log.lastLogId) entries

def append (entries : List (LogEntry P)) : Option (Host V P) :=
  if s.logReady && s.follows group entries then
    some { s.write group (.append entries) with unflushed := s.unflushed ++ [.log entries] }
  else none

/-- An append with group commit switched off. -/
def appendSynced (entries : List (LogEntry P)) : Option (Host V P) :=
  if s.logReady && s.follows group entries then
    some { s.writeSynced group (.append entries) with acknowledged := s.acknowledged ++ entries }
  else none

/-- Delete the entries from a log id on; the highest index of all has a delete of its own. -/
def truncate (logId : RaftLogId) : Option (Host V P) :=
  if s.logReady then
    some { s.write group (.deleteRange logId.index lastIndex) with
      logTask := .truncated
      unflushed := s.unflushed.map (Request.truncate logId.index)
      completing := s.completing.map (Request.truncate logId.index)
      acknowledged := s.acknowledged.filter fun entry ↦ entry.logId.index < logId.index }
  else none

def truncateLast : Option (Host V P) :=
  match s.logTask with
  | .truncated =>
    some { s.writeSynced group (.deleteEntry lastIndex) with logTask := .idle }
  | _ => none

/-- Record the purge point, once the state is durable up to it. -/
def purge (logId : RaftLogId) : Option (Host V P) :=
  if s.logReady && (reaches logIdText s.tracker.durable logId).toOption = some true then
    some { s.writeSynced group (.purged logId) with logTask := .marked logId }
  else none

def purgeRange : Option (Host V P) :=
  match s.logTask with
  | .marked logId =>
    some { s.write group (.deleteRange 0 logId.index) with logTask := .swept logId }
  | _ => none

def purgeLast : Option (Host V P) :=
  match s.logTask with
  | .swept logId =>
    some { s.writeSynced group (.deleteEntry logId.index) with logTask := .idle }
  | _ => none

/-! ### The worker of the write-ahead log -/

/-- Flush what is written; the callbacks run next. -/
def flush : Option (Host V P) :=
  if s.healthy && s.completing.isEmpty then
    some { s with
      database := s.database.sync
      unflushed := []
      completing := s.unflushed }
  else none

/-- Run the callback of one flushed batch. -/
def complete : Option (Host V P) :=
  match s.completing with
  | [] => none
  | .log entries :: rest =>
    some { s with completing := rest, acknowledged := s.acknowledged ++ entries }
  | .state logId :: rest =>
    some { s with completing := rest, tracker := s.tracker.durableAt logIdText logId }

/-- What a failed flush does to the tracker. -/
def cancelled (tracker : GroupState) (error : String) : List (Request P) → GroupState
  | [] => tracker
  | .log _ :: rest => cancelled tracker error rest
  | .state logId :: rest => cancelled (tracker.cancel logId error) error rest

/-- An operation fails: the database is poisoned, and the batches not flushed are reported as
failed. -/
def fail (error : String) : Host V P :=
  { s with
    tracker := (cancelled s.tracker error s.unflushed).fail error
    unflushed := [] }

/-! ### Applying committed entries -/

/-- Admit a state batch, in log order. -/
def applyBegin (logId : RaftLogId) (membership : StoredMembership) (mutations : List (Mutation V))
    (outbox : List Bytes) (entries bytes : ℕ) : Option (Host V P) :=
  match s.stateTask with
  | .idle =>
    match s.tracker.begin limits logId entries bytes with
    | .ok (some tracker) =>
      if next s.tracker.visible ≤ logId.index.toNat then
        some { s with
          tracker := tracker
          stateTask := .applying logId (.apply (s.disk group).pointer
            (mutations ++ [putApplied { logId := some logId, membership := membership }]) logId
            (missingSearchEpoch group (s.disk group).searchEpoch) outbox) }
      else none
    | _ => none
  | _ => none

/-- The worker writes the batch, which is then visible. -/
def applyWrite : Option (Host V P) :=
  match s.stateTask with
  | .applying logId batch =>
    if s.healthy then
      some { s.write group batch with
        tracker := s.tracker.visibleAt logIdText logId
        stateTask := .idle
        unflushed := s.unflushed ++ [.state logId] }
    else none
  | _ => none

/-! ### Building a snapshot -/

/-- Read the metadata under the view lock. -/
def buildBegin : Option (Host V P) :=
  match s.stateTask, (s.disk group).activeState with
  | .idle, some cf =>
    match readApplied cf with
    | .ok applied => some { s with stateTask := .building applied }
    | .error _ => none
  | _, _ => none

/-- Once the state is durable up to the metadata, capture it and release the lock. -/
def buildCapture : Option (Host V P) :=
  match s.stateTask, (s.disk group).activeState with
  | .building applied, some cf =>
    if applied.logId.all fun logId ↦
      (reaches logIdText s.tracker.durable logId).toOption = some true
    then
      some { s with
        stateTask := .idle
        built := s.built ++ [{ applied := applied, records := cf.toList }] }
    else none
  | _, _ => none

/-! ### Installing a snapshot -/

/-- Number the generation a snapshot is staged in. -/
def install (snapshot : Snapshot V) : Option (Host V P) :=
  match s.stateTask with
  | .idle =>
    let generation := (s.disk group).generation.getD 0
    if (s.tracker.validateInstall logIdText snapshot.applied.logId).toOption = some () ∧
        generation.toNat + 1 < 2 ^ 64 then
      some { s.writeSynced group (.generation (generation + 1)) with
        stateTask := .numbered snapshot (generation + 1) }
    else none
  | _ => none

def createStaging : Option (Host V P) :=
  match s.stateTask with
  | .numbered snapshot generation =>
    if ((s.disk group).state (some generation)).isNone then
      some { s.change group (.createState (some generation)) with
        stateTask := .staging snapshot generation [] snapshot.records none }
    else none
  | _ => none

/-- Buffer one record. Keys are strictly increasing. -/
def put : Option (Host V P) :=
  match s.stateTask with
  | .staging snapshot generation buffer ((key, value) :: left) lastKey =>
    if lastKey.all fun previous ↦ compare previous key = .lt then
      some { s with
        stateTask := .staging snapshot generation (buffer ++ [.put key value]) left (some key) }
    else none
  | _ => none

def flushBatch : Option (Host V P) :=
  match s.stateTask with
  | .staging snapshot generation buffer left lastKey =>
    some { s.write group (.stage generation buffer) with
      stateTask := .staging snapshot generation [] left lastKey }
  | _ => none

/-- Write what is buffered with the applied record. -/
def finish : Option (Host V P) :=
  match s.stateTask with
  | .staging snapshot generation buffer [] _ =>
    some { s.write group (.stage generation (buffer ++ [putApplied snapshot.applied])) with
      stateTask := .staged snapshot generation }
  | _ => none

def flushWal : Option (Host V P) :=
  match s.stateTask with
  | .staged snapshot generation =>
    some { s with database := s.database.sync, stateTask := .flushed snapshot generation }
  | _ => none

/-- The recovery epoch of a state column family: zero where none is recorded. -/
def recoveryEpoch (cf : ColumnFamily V) : Option (BitVec 128) :=
  match cf[recoveryEpochKey]? with
  | none => some 0
  | some value => Record.decode value

/-- The projection epoch after an install, for a data group; none is left if it is exhausted. -/
def nextSearchEpoch (d : GroupDisk V P) : Option (Option UInt64) :=
  match group with
  | .meta => some none
  | .data _ =>
    if d.searchProjectionEpoch.toNat + 1 < 2 ^ 64 then some (some (d.searchProjectionEpoch + 1))
    else none

/-- Point to the new generation, unless it belongs to another recovery epoch. -/
def switch : Option (Host V P) :=
  match s.stateTask with
  | .flushed snapshot generation => do
    let cf ← (s.disk group).state (some generation)
    let epoch ← recoveryEpoch cf
    let searchEpoch ← nextSearchEpoch group (s.disk group)
    let localEpoch := s.database.current.localRecoveryEpoch
    if localEpoch = 0 ∨ epoch = localEpoch then
      some { s.writeSynced group (.switch epoch generation searchEpoch) with
        stateTask := .switched snapshot (s.disk group).pointer }
    else none
  | _ => none

/-- Drop the old generation, or leave it to the next start if it is still being read. -/
def retire (dropped : Bool) : Option (Host V P) :=
  match s.stateTask with
  | .switched snapshot old =>
    some { (if dropped then s.change group (.dropState old) else s) with
      stateTask := .retired snapshot }
  | _ => none

def recordInstalled (epoch : UInt64) : Option (Host V P) :=
  match s.stateTask with
  | .retired snapshot =>
    some { s with
      tracker := s.tracker.installed logIdText snapshot.applied.logId (group != .meta) epoch
      stateTask := .idle }
  | _ => none

/-- The generation that a failed install drops, if it was not switched to. -/
def stagedGeneration : StateTask V P → Option UInt64
  | .staging _ generation _ _ _ => some generation
  | .staged _ generation => some generation
  | .flushed _ generation => some generation
  | _ => none

/-- An install is under way. -/
def installing : StateTask V P → Bool
  | .numbered _ _ | .staging _ _ _ _ _ | .staged _ _ | .flushed _ _ | .switched _ _ | .retired _ =>
    true
  | _ => false

/-- An install fails. Dropping what it staged may fail too. -/
def abandon (error : String) (dropped : Bool) : Option (Host V P) :=
  if installing s.stateTask then
    let cleared :=
      match stagedGeneration s.stateTask with
      | some generation =>
        if dropped then s.change group (.dropState (some generation)) else s
      | none => s
    some { cleared.fail error with stateTask := .failed }
  else none

/-! ### Reopening -/

/-- Open the group on what the node stores. -/
def opened (d : Disk V P) (epoch : UInt64) (acknowledged : List (LogEntry P))
    (built : List (Snapshot V)) : Option (Host V P) :=
  match (d.group group).log, (d.group group).activeState with
  | some _, some cf =>
    match readApplied cf with
    | .ok applied => some {
        database := .opened d
        tracker := .new applied.logId (group = .meta) epoch
        logTask := .idle
        stateTask := .idle
        unflushed := []
        completing := []
        acknowledged := acknowledged
        built := built }
    | .error _ => none
  | _, _ => none

/-- A crash keeps the first `kept` writes, and the node starts again. -/
def crash (kept : ℕ) (epoch : UInt64) : Option (Host V P) :=
  if s.database.synced ≤ kept ∧ kept ≤ Journal.writes s.database.taken then
    let left := Journal.replay s.database.base s.database.taken kept
    opened group left.cleanupSnapshotCfs epoch s.acknowledged s.built
  else none

/-- One event. -/
def step : Event V P → Option (Host V P)
  | .saveVote vote => s.saveVote group vote
  | .append entries => s.append group entries
  | .appendSynced entries => s.appendSynced group entries
  | .truncate logId => s.truncate group logId
  | .truncateLast => s.truncateLast group
  | .purge logId => s.purge group logIdText logId
  | .purgeRange => s.purgeRange group
  | .purgeLast => s.purgeLast group
  | .flush => s.flush
  | .complete => s.complete logIdText
  | .fail error => some (s.fail error)
  | .applyBegin logId membership mutations outbox entries bytes =>
    s.applyBegin group limits logId membership mutations outbox entries bytes
  | .applyWrite => s.applyWrite group logIdText
  | .buildBegin => s.buildBegin group
  | .buildCapture => s.buildCapture group logIdText
  | .install snapshot => s.install group logIdText snapshot
  | .createStaging => s.createStaging group
  | .put => s.put
  | .flushBatch => s.flushBatch group
  | .finish => s.finish group
  | .flushWal => s.flushWal
  | .switch => s.switch group
  | .retire dropped => s.retire group dropped
  | .recordInstalled epoch => s.recordInstalled group logIdText epoch
  | .abandon error dropped => s.abandon group error dropped
  | .consumer mutation => some (s.write group (.consumer mutation))
  | .prune rows => some (s.write group (.prune rows))
  | .sync => some { s with database := s.database.sync }
  | .foreign other w => if other ≠ group then some (s.write other w) else none
  | .foreignChange other c => if other ≠ group then some (s.change other c) else none
  | .crash kept epoch => s.crash group kept epoch

end Step

end Host

end DalService.Storage
