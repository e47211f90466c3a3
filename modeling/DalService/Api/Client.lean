import DalService.Partition.StateMachine
import DalService.Transport.Codec

/-!
# The client's mutation path and the gateway's refusals

`Client::mutate` for one partition, from `client.rs`: what it does before its request leaves
(`startMutation`), and what it does with the reply its routing returns (`finishMutation`). Both run
without an await, so a call that fails or is cancelled stops before the first, between the two, or
after the second. The client keeps one stream per partition (`MutationStream`): the next sequence,
whether the sequence space is exhausted, and the operation whose outcome it has not observed.

`refusal` is the part of `ClientGateway::handle_client_op` that depends on the request and the
constants of the cluster alone. The hash of a key is a parameter (`xxh64`).
-/

set_option autoImplicit false

namespace DalService.Api

open DalService.Foundation DalService.Partition DalService.Transport

/-! ### Replies -/

/-- The outcome of a mutation, as the client sees it. -/
inductive WriteReply
  | applied (version : Version)
  | conditionFailed (current : KeyPresence)
  | rejected (reason : RejectReason)
  deriving DecidableEq, Repr

/-- The reply that reports a decided result. -/
def WriteReply.ofResult : MutationResult → WriteReply
  | .applied version => .applied version
  | .conditionFailed current => .conditionFailed current

/-- Collapse the result of applying an entry: a fresh decision and a replayed one look the same. -/
def WriteReply.fromApply : ApplyResult → WriteReply
  | .decided result => .ofResult result
  | .replayed result => .ofResult result
  | .rejected reason => .rejected reason
  | .noOp => .rejected .malformed

structure Redirect where
  clusterId : ClusterId
  leader : Option NodeId
  candidates : List NodeId
  deriving DecidableEq, Repr

/-- A reply to a client operation. -/
inductive ClientReply
  | recoveryEpochMismatch (expected got : BitVec 128)
  | mutation (reply : WriteReply)
  | value (record : Option (Version × Bytes))
  | redirect (redirect : Redirect)
  | recovering
  | refused (message : String)
  | error (message : String)
  | unavailable (message : String)
  | denied (message : String)
  deriving DecidableEq, Repr

/-- Routing returns this reply to its caller; on the others it tries another candidate. -/
def ClientReply.returned : ClientReply → Bool
  | .redirect _ => false
  | .recovering => false
  | _ => true

/-! ### The mutation stream of a partition -/

/-- A mutation that may have committed though its outcome was not observed. -/
structure PendingMutation where
  sequence : Sequence
  op : DataOp
  deriving DecidableEq, Repr

/-- What a client keeps for one partition. -/
structure MutationStream where
  nextSeq : Option Sequence
  exhausted : Bool
  pending : Option PendingMutation
  deriving DecidableEq, Repr

namespace MutationStream

/-- The stream of a new client. -/
def new : MutationStream where
  nextSeq := none
  exhausted := false
  pending := none

/-- The next unused sequence: streams start at 1. -/
def reserveSequence (stream : MutationStream) : Sequence × MutationStream :=
  (stream.nextSeq.getD 1, { stream with nextSeq := some (stream.nextSeq.getD 1) })

/-- The sequence of an operation: an unresolved mutation keeps its own, and no other operation gets
one until it is resolved. -/
def nextMutationSequence (partition : UInt16) (stream : MutationStream) (op : DataOp) :
    Result (Sequence × MutationStream) :=
  match stream.pending with
  | some existing =>
    if existing.op = op then .ok (existing.sequence, stream)
    else .error (.raft ("mutation sequence " ++ toString existing.sequence.toNat ++
      " for partition " ++ toString partition.toNat ++
      " is unresolved; retry that operation first"))
  | none =>
    if stream.exhausted then
      .error (.raft ("mutation sequence space is exhausted for partition " ++
        toString partition.toNat ++ "; use a new client_id"))
    else .ok stream.reserveSequence

/-- Advance the stream past a decided sequence. -/
def commitSequence (stream : MutationStream) (decided : Sequence) : MutationStream :=
  let slot := stream.nextSeq.getD 1
  if slot ≤ decided then
    match checkedSucc decided with
    | some next => { stream with nextSeq := some next }
    | none => { stream with nextSeq := none, exhausted := true }
  else { stream with nextSeq := some slot }

end MutationStream

/-! ### One call -/

/-- The serialized `ClientRequest::Mutate`. -/
def mutatePayload (request : DataRequest) : Bytes := Bincode.variant 0 ++ Bincode.encode request

/-- A client of one cluster. -/
structure ClientIdentity where
  clientId : ClientId
  recoveryEpoch : BitVec 128
  partition : UInt16
  deriving DecidableEq, Repr

namespace ClientIdentity

variable (client : ClientIdentity)

/-- The request that carries an operation at a sequence. -/
def request (mutation : PendingMutation) : DataRequest where
  recoveryEpoch := client.recoveryEpoch
  clientId := client.clientId
  sequence := mutation.sequence
  op := mutation.op

/-- `mutate` up to routing: pick the sequence, check the payload, and mark the operation pending.
The stream is returned also when the call fails. -/
def startMutation (stream : MutationStream) (op : DataOp) :
    Result PendingMutation × MutationStream :=
  match stream.nextMutationSequence client.partition op with
  | .error e => (.error e, stream)
  | .ok (sequence, reserved) =>
    let mutation : PendingMutation := { sequence := sequence, op := op }
    let length := (mutatePayload (client.request mutation)).length
    if MsgType.clientOp.maxPayload < length then
      (.error (.config ("client request cannot be encoded: ClientOp payload " ++ toString length ++
        " exceeds limit " ++ toString MsgType.clientOp.maxPayload)), reserved)
    else (.ok mutation, { reserved with pending := some (reserved.pending.getD mutation) })

/-- A number as `{:#x}` prints it. -/
def hex (value : BitVec 128) : String := "0x" ++ String.ofList (Nat.toDigits 16 value.toNat)

def epochMismatch (expected got : BitVec 128) : Error :=
  .raft ("recovery epoch mismatch: stream " ++ hex got ++ ", cluster " ++ hex expected ++
    "; reconcile pending mutations and start a new client identity")

/-- `mutate` after routing: a decided mutation advances the stream, a rejection or a refusal
releases the sequence, and every other reply leaves the operation pending. The debug text of an
unexpected reply is a parameter. -/
def finishMutation (debug : ClientReply → String) (stream : MutationStream) (sequence : Sequence)
    (reply : ClientReply) : Result WriteReply × MutationStream :=
  match reply with
  | .recoveryEpochMismatch expected got => (.error (epochMismatch expected got), stream)
  | .mutation (.rejected (.recoveryEpochMismatch expected got)) =>
    (.error (epochMismatch expected got), stream)
  | .mutation (.rejected reason) => (.ok (.rejected reason), { stream with pending := none })
  | .mutation write => (.ok write, { stream.commitSequence sequence with pending := none })
  | .refused message =>
    (.error (.raft ("write refused: " ++ message)), { stream with pending := none })
  | .error message => (.error (.raft ("write rejected: " ++ message)), stream)
  | .unavailable message => (.error (.raft ("write unavailable: " ++ message)), stream)
  | .denied message => (.error (.raft ("write denied: " ++ message)), stream)
  | other => (.error (.raft ("unexpected write reply: " ++ debug other)), stream)

end ClientIdentity

/-! ### The gateway -/

/-- `HashSpec::partition_of`: the partition a key belongs to. -/
def HashSpec.partitionOf (xxh64 : Bytes → UInt64 → UInt64) (spec : HashSpec) (key : Bytes)
    (p : UInt16) : UInt16 :=
  UInt16.ofNat ((xxh64 key spec.seed).toNat % p.toNat)

/-- A put whose value is too large. -/
def oversized : DataOp → Bool
  | .put _ value _ => MAX_VALUE_BYTES < value.length
  | .delete _ _ => false

/-- A delete under the create-only condition. -/
def absentDelete : DataOp → Bool
  | .delete _ (some .absent) => true
  | _ => false

/-- Why the gateway refuses a mutation sent to a partition, if it does: an oversized value, a
conditional create of a delete, or a key of another partition. It reads only the request and the
constants of the cluster. -/
def refusal (xxh64 : Bytes → UInt64 → UInt64) (spec : HashSpec) (p partition : UInt16)
    (request : DataRequest) : Option String :=
  let actual := HashSpec.partitionOf xxh64 spec request.op.key p
  if oversized request.op then some ("value exceeds " ++ toString MAX_VALUE_BYTES ++ " byte limit")
  else if absentDelete request.op then some "delete does not support if_version=Absent"
  else if actual ≠ partition then
    some ("key hashes to Data(" ++ toString actual.toNat ++ ") but was sent to Data(" ++
      toString partition.toNat ++ ")")
  else none

/-! ### Redirects and placement generations -/

/-- The candidates a redirect advertised, with the `votersLogId` of the placement the client had
cached when it arrived. -/
structure RedirectHints where
  learnedAt : Option LogId
  candidates : List NodeId
  deriving DecidableEq, Repr

/-- Whether a snapshot whose placement committed at `logId` accounts for what the redirect
taught. -/
def RedirectHints.subsumedBy (hints : RedirectHints) (logId : LogId) : Bool :=
  match hints.learnedAt with
  | some learned => learned < logId
  | none => true

end DalService.Api
