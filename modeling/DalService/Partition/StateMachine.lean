import DalService.Foundation.ColumnFamily
import DalService.Keyspace

/-!
# The data-group state machine

`DataStateMachine::evaluate` decides one committed request from the records it reads: the recovery
epoch, the sequence record of the client, and the record of the key. It passes the request through
the epoch fence, the structural checks and the sequence gate, and only then evaluates the condition
(`DataStateMachine.decide`). The hash of the digest is a parameter (`xxh3`): the digest of an
operation is the hash of its encoding.
-/

set_option autoImplicit false

namespace DalService.Partition

open Foundation Keyspace

/-! ### Records of a data group -/

/-- openraft's `CommittedLeaderId`. -/
structure RaftLeaderId where
  term : UInt64
  nodeId : NodeId
  deriving DecidableEq, Repr

/-- openraft's `LogId`. -/
structure RaftLogId where
  leaderId : RaftLeaderId
  index : UInt64
  deriving DecidableEq, Repr

/-- openraft's `Membership`: one voter set, or two while the group is joint, and the nodes with
their addresses, in ascending order. -/
structure Membership where
  configs : List (List NodeId)
  nodes : List (NodeId × String)
  deriving DecidableEq, Repr

/-- openraft's `StoredMembership`: a membership and the entry that set it. -/
structure StoredMembership where
  logId : Option RaftLogId
  membership : Membership
  deriving DecidableEq, Repr

/-- `StoredMembership::default`. -/
def StoredMembership.default : StoredMembership where
  logId := none
  membership := { configs := [], nodes := [] }

/-- The persisted applied state of a Raft group. -/
structure Applied where
  logId : Option RaftLogId
  membership : StoredMembership
  deriving DecidableEq, Repr

structure KeyRecord where
  version : Version
  value : Bytes
  deriving DecidableEq, Repr

structure SeqRecord where
  highest : Sequence
  digest : BitVec 128
  result : MutationResult
  deriving DecidableEq, Repr

/-- The records a data group keeps in its state column family. -/
inductive DataValue
  | user (record : KeyRecord)
  | seq (record : SeqRecord)
  | epoch (epoch : BitVec 128)
  | lastApplied (logId : LogId)
  | raftApplied (applied : Applied)
  deriving DecidableEq, Repr

instance : Record DataValue KeyRecord where
  encode := .user
  decode := fun
    | .user record => some record
    | _ => none
  decode_encode := fun _ ↦ rfl

instance : Record DataValue SeqRecord where
  encode := .seq
  decode := fun
    | .seq record => some record
    | _ => none
  decode_encode := fun _ ↦ rfl

instance : Record DataValue (BitVec 128) where
  encode := .epoch
  decode := fun
    | .epoch epoch => some epoch
    | _ => none
  decode_encode := fun _ ↦ rfl

instance : Record DataValue Applied where
  encode := .raftApplied
  decode := fun
    | .raftApplied applied => some applied
    | _ => none
  decode_encode := fun _ ↦ rfl

abbrev StateMutation := Mutation DataValue

/-- The state column family of a data group. -/
abbrev DataState := ColumnFamily DataValue

/-- Why a committed entry was rejected without mutating state. -/
inductive RejectReason
  | recoveryEpochMismatch (expected got : BitVec 128)
  | sequenceGap (expected got : Sequence)
  | staleSequence (highest got : Sequence)
  | sequenceMismatch
  | malformed
  | sequenceExhausted
  deriving DecidableEq, Repr

/-- The outcome of applying one committed entry. -/
inductive ApplyResult
  | decided (result : MutationResult)
  | replayed (result : MutationResult)
  | rejected (reason : RejectReason)
  | noOp
  deriving DecidableEq, Repr

/-! ### Reading records -/

/-- A read seam over a group's records: the column family itself, or an overlay of it. -/
abbrev StateRead := Bytes → Option DataValue

/-- Reading the column family. -/
def DataState.reader (cf : DataState) : StateRead := fun key ↦ cf[key]?

/-- Read and decode one record. -/
def readState (T : Type) [Record DataValue T] (reader : StateRead) (key : Bytes) :
    Result (Option T) :=
  match reader key with
  | none => .ok none
  | some value =>
    match Record.decode value with
    | some record => .ok (some record)
    | none => .error (.codec "deserialize")

variable (xxh3 : Bytes → BitVec 128)

/-- The idempotency digest of an operation: a hash of its encoding. -/
def digest (op : DataOp) : BitVec 128 := xxh3 (Bincode.encode op)

namespace DataStateMachine

def keyRecord (reader : StateRead) (key : Bytes) : Result (Option KeyRecord) :=
  readState KeyRecord reader (userKey key)

def seqRecord (reader : StateRead) (clientId : ClientId) : Result (Option SeqRecord) :=
  readState SeqRecord reader (seqKey clientId)

/-- The recovery epoch of the group: zero where none is recorded. -/
def recoveryEpoch (reader : StateRead) : Result (BitVec 128) := do
  return (← readState (BitVec 128) reader recoveryEpochKey).getD 0

/-- The current value and version of a key. -/
def get (reader : StateRead) (key : Bytes) : Result (Option (Version × Bytes)) := do
  return (← keyRecord reader key).map fun record ↦ (record.version, record.value)

/-- The presence of a key, as a failed condition reports it. -/
def presence : Option KeyRecord → KeyPresence
  | some record => .present record.version
  | none => .absent

/-- Whether the condition of an operation holds of the current record. -/
def conditionHolds : DataOp → Option KeyRecord → Bool
  | .put _ _ none, _ => true
  | .put _ _ (some (.number version)), current => current.any (·.version = version)
  | .put _ _ (some .absent), current => current.isNone
  | .delete _ none, _ => true
  | .delete _ (some (.number version)), current => current.any (·.version = version)
  | .delete _ (some .absent), _ => false

/-- Evaluate the condition and produce the decided result with any key mutation. -/
protected def decide (reader : StateRead) (op : DataOp) (logIndex : UInt64) :
    Result (MutationResult × Option StateMutation) := do
  let current ← keyRecord reader op.key
  if !conditionHolds op current then
    return (.conditionFailed (presence current), none)
  match op with
  | .put key value _ =>
    let record : KeyRecord := { version := logIndex, value := value }
    return (.applied logIndex, some (.put (userKey key) (.user record)))
  | .delete key _ =>
    return (.applied logIndex, if current.isSome then some (.delete (userKey key)) else none)

/-- Commands the API layer should have caught: an oversized value, or a delete under the create-only
condition. -/
def malformed : DataOp → Bool
  | .put _ value _ => MAX_VALUE_BYTES < value.length
  | .delete _ ifVersion => ifVersion = some .absent

/-- The highest sequence decided for a client: zero where none is. -/
def highest (seq : Option SeqRecord) : Sequence := (seq.map SeqRecord.highest).getD 0

/-- Decide the outcome of a committed request and the mutations it implies, writing nothing. -/
def evaluate (reader : StateRead) (req : DataRequest) (logIndex : UInt64) :
    Result (ApplyResult × List StateMutation) := do
  let expected ← recoveryEpoch reader
  if req.recoveryEpoch ≠ expected then
    return (.rejected (.recoveryEpochMismatch expected req.recoveryEpoch), [])
  if malformed req.op then
    return (.rejected .malformed, [])
  let seq ← seqRecord reader req.clientId
  let highest := highest seq
  if req.sequence = highest then
    match seq with
    | some record =>
      if record.digest = digest xxh3 req.op then
        return (.replayed record.result, [])
      else
        return (.rejected .sequenceMismatch, [])
    | none => return (.rejected (.staleSequence highest req.sequence), [])
  else if req.sequence < highest then
    return (.rejected (.staleSequence highest req.sequence), [])
  else
    match checkedSucc highest with
    | none => return (.rejected .sequenceExhausted, [])
    | some expected =>
      if expected < req.sequence then
        return (.rejected (.sequenceGap expected req.sequence), [])
      else
        let (result, keyMutation) ← DataStateMachine.decide reader req.op logIndex
        let record : SeqRecord :=
          { highest := req.sequence, digest := digest xxh3 req.op, result := result }
        return (.decided result,
          keyMutation.toList ++ [.put (seqKey req.clientId) (.seq record)])

/-- Write the mutations of an entry and `last_applied` in one batch. -/
def applyState (cf : DataState) (muts : List StateMutation) (lastApplied : LogId) : DataState :=
  cf.writeAll (muts ++ [.put lastAppliedKey (.lastApplied lastApplied)])

/-- Apply one committed request and write what it implies. -/
def apply (cf : DataState) (req : DataRequest) (logIndex : UInt64) :
    Result (ApplyResult × DataState) := do
  let (result, muts) ← evaluate xxh3 cf.reader req logIndex
  return (result, applyState cf muts { term := 0, index := logIndex })

end DataStateMachine

end DalService.Partition
