import DalService.Foundation.Bincode

/-!
# Core types

The wire and state types shared by every part of the service, from `types.rs` and `error.rs`. Node,
client and cluster identities are machine words of the source's width, so the model has no value the
service cannot hold. A set of voters is compared as a set (`voterSet`) and stored as the ascending
list a `BTreeSet` iterates (`ascending`).
-/

set_option autoImplicit false

namespace DalService

open Foundation

abbrev NodeId := UInt64

abbrev ClusterId := BitVec 128

abbrev ClientId := BitVec 128

abbrev Sequence := UInt64

abbrev Version := UInt64

/-- A SHA-256 digest. -/
abbrev Digest32 := Vector UInt8 32

def PROTOCOL_VERSION : UInt32 := 7

def MAX_ROUTING_PAYLOAD_BYTES : ℕ := 4 * 1024 * 1024

def MAX_CLUSTER_NODES : ℕ := 8

def MAX_ENDPOINT_BYTES : ℕ := 256

def MAX_VALUE_BYTES : ℕ := 1024 * 1024

/-- The errors of the modelled functions, with the texts `error.rs` gives them. -/
inductive Error
  | config (message : String)
  | codec (message : String)
  | corrupt (record detail : String)
  | raft (message : String)
  | search (message : String)
  | io (message : String)
  deriving DecidableEq, Repr

/-- The `Display` text of an error. -/
def Error.text : Error → String
  | .config message => "configuration invalid: " ++ message
  | .codec message => "codec: " ++ message
  | .corrupt record detail => "corrupt on-disk record in " ++ record ++ ": " ++ detail
  | .raft message => "raft: " ++ message
  | .search message => "search: " ++ message
  | .io message => "io: " ++ message

abbrev Result (T : Type) := Except Error T

/-- The functions the service takes from its libraries: SHA-256, and the `Debug` rendering of a text
inside an error message. -/
structure Primitives where
  sha256 : Bytes → Digest32
  debugText : String → String

/-- One Raft group: the meta group or one data partition. -/
inductive GroupId
  | «meta»
  | data (partition : UInt16)
  deriving DecidableEq, Repr

/-- The stable name of a group, used in keys. -/
def GroupId.token : GroupId → String
  | .meta => "meta"
  | .data partition => "data_" ++ toString partition.toNat

structure LogId where
  term : UInt64
  index : UInt64
  deriving DecidableEq, Repr

/-- Log ids are ordered by term, then by index. -/
instance : LT LogId :=
  ⟨fun first second ↦
    first.term < second.term ∨ (first.term = second.term ∧ first.index < second.index)⟩

instance (first second : LogId) : Decidable (first < second) :=
  inferInstanceAs (Decidable (_ ∨ _))

theorem LogId.lt_iff {first second : LogId} : first < second ↔
    first.term.toNat < second.term.toNat ∨
      (first.term.toNat = second.term.toNat ∧ first.index.toNat < second.index.toNat) := by
  rw [UInt64.toNat_inj, ← UInt64.lt_iff_toNat_lt, ← UInt64.lt_iff_toNat_lt]
  rfl

theorem LogId.lt_trans {first second third : LogId} (hfirst : first < second)
    (hsecond : second < third) : first < third := by
  rw [LogId.lt_iff] at *
  omega

theorem LogId.lt_irrefl (logId : LogId) : ¬logId < logId := by
  rw [LogId.lt_iff]
  omega

/-! ### Client data operations -/

inductive IfVersion
  | number (version : UInt64)
  | absent
  deriving DecidableEq, Repr

inductive DataOp
  | put (key value : Bytes) (ifVersion : Option IfVersion)
  | delete (key : Bytes) (ifVersion : Option IfVersion)
  deriving DecidableEq, Repr

def DataOp.key : DataOp → Bytes
  | .put key _ _ => key
  | .delete key _ => key

structure DataRequest where
  recoveryEpoch : BitVec 128
  clientId : ClientId
  sequence : Sequence
  op : DataOp
  deriving DecidableEq, Repr

inductive KeyPresence
  | absent
  | present (version : Version)
  deriving DecidableEq, Repr

inductive MutationResult
  | applied (version : Version)
  | conditionFailed (current : KeyPresence)
  deriving DecidableEq, Repr

instance : Bincode IfVersion :=
  ⟨fun condition ↦
    match condition with
    | .number version => Bincode.variant 0 ++ Bincode.encode version
    | .absent => Bincode.variant 1⟩

instance : Bincode DataOp :=
  ⟨fun op ↦
    match op with
    | .put key value ifVersion =>
      Bincode.variant 0 ++ Bincode.encode key ++ Bincode.encode value ++ Bincode.encode ifVersion
    | .delete key ifVersion =>
      Bincode.variant 1 ++ Bincode.encode key ++ Bincode.encode ifVersion⟩

instance : Bincode DataRequest :=
  ⟨fun request ↦
    Bincode.encode request.recoveryEpoch ++ Bincode.encode request.clientId ++
      Bincode.encode request.sequence ++ Bincode.encode request.op⟩

/-- The archived version-1 bytes of a conditional delete. -/
example : Bincode.encode (DataOp.delete [107] (some (.number 7))) =
    [1, 0, 0, 0, 1, 0, 0, 0, 0, 0, 0, 0, 107, 1, 0, 0, 0, 0, 7, 0, 0, 0, 0, 0, 0, 0] := by
  decide

/-! ### The cluster record, placements and plans -/

inductive HashAlgo
  | xxh64
  deriving DecidableEq, Repr

structure HashSpec where
  algo : HashAlgo
  seed : UInt64
  deriving DecidableEq, Repr

def HashSpec.CANONICAL : HashSpec where
  algo := .xxh64
  seed := 0

structure ClusterConfig where
  clusterId : ClusterId
  protocolVersion : UInt32
  p : UInt16
  r : UInt8
  hashSpec : HashSpec
  deriving DecidableEq, Repr

structure MovePlan where
  planId : UInt64
  targetVoters : List NodeId
  aborting : Bool
  deriving DecidableEq, Repr

structure Placement where
  voters : List NodeId
  votersLogId : LogId
  move : Option MovePlan
  deriving DecidableEq, Repr

def Placement.referencesNode (placement : Placement) (nodeId : NodeId) : Bool :=
  placement.voters.contains nodeId ||
    placement.move.any fun plan ↦ plan.targetVoters.contains nodeId

/-- The voters of a list as a comparable set. -/
def voterSet (voters : List NodeId) : Finset NodeId := voters.toFinset

/-- The list a `BTreeSet` of the voters iterates: ascending, each voter once. -/
def ascending (voters : List NodeId) : List NodeId := voters.dedup.insertionSort (· ≤ ·)

/-- `sort_unstable` of node ids. -/
def sortUnstable (voters : List NodeId) : List NodeId := voters.insertionSort (· ≤ ·)

@[simp] theorem voterSet_sortUnstable (voters : List NodeId) :
    voterSet (sortUnstable voters) = voterSet voters := by
  ext id
  simp [voterSet, sortUnstable]

theorem mem_ascending {voters : List NodeId} {id : NodeId} :
    id ∈ ascending voters ↔ id ∈ voters := by
  rw [ascending, List.mem_insertionSort, List.mem_dedup]

@[simp] theorem voterSet_ascending (voters : List NodeId) :
    voterSet (ascending voters) = voterSet voters := by
  ext id
  rw [voterSet, voterSet, List.mem_toFinset, List.mem_toFinset, mem_ascending]

theorem length_ascending (voters : List NodeId) :
    (ascending voters).length = (voterSet voters).card := by
  rw [ascending, List.length_insertionSort, voterSet, List.card_toFinset]

theorem nodup_ascending (voters : List NodeId) : (ascending voters).Nodup :=
  (List.perm_insertionSort _ _).nodup_iff.mpr (List.nodup_dedup voters)

/-- The list is strictly ascending. -/
theorem sorted_ascending (voters : List NodeId) : (ascending voters).Pairwise (· < ·) := by
  have hle : (ascending voters).Pairwise (· ≤ ·) := List.pairwise_insertionSort _ _
  refine (hle.and (nodup_ascending voters)).imp fun ⟨hbelow, hne⟩ ↦ ?_
  exact UInt64.lt_of_le_of_ne hbelow hne

/-- Assumes: a strictly ascending list. It is the list its set iterates. -/
theorem ascending_of_sorted {voters : List NodeId} (hsorted : voters.Pairwise (· < ·)) :
    ascending voters = voters := by
  have hnodup : voters.Nodup := by
    refine hsorted.imp fun {first second} hlt heq ↦ ?_
    rw [heq] at hlt
    exact UInt64.lt_irrefl second hlt
  rw [ascending, hnodup.dedup]
  exact List.Pairwise.insertionSort_eq (hsorted.imp UInt64.le_of_lt)

/-! ### The node directory and maintenance -/

inductive NodeState
  | active
  | suspect
  | down
  | draining
  deriving DecidableEq, Repr

structure NodeDirectoryEntry where
  nodeId : NodeId
  controlAddr : String
  bulkAddr : String
  state : NodeState
  incarnation : UInt64
  deriving DecidableEq, Repr

/-- The addresses of an entry, one for each lane. -/
def NodeDirectoryEntry.endpoints (entry : NodeDirectoryEntry) : List String :=
  [entry.controlAddr, entry.bulkAddr]

inductive MaintenanceStage
  | preparing
  | quiesced
  | verifying
  | released
  deriving DecidableEq, Repr

structure MaintenanceRecord where
  operationId : BitVec 128
  generation : UInt64
  participants : List NodeId
  acknowledged : List NodeId
  recovered : List NodeId
  recoveryProcesses : List (NodeId × UInt64)
  recoveryPolicyDigests : List (NodeId × Digest32)
  verificationPolicyDigest : Option Digest32
  verificationRecoveryEpoch : Option (BitVec 128)
  stage : MaintenanceStage
  deriving DecidableEq, Repr

/-- A leader's observation of the configuration its group committed. -/
structure DataConfigObservation where
  group : GroupId
  planId : UInt64
  voterSet : List NodeId
  configLogId : LogId
  deriving DecidableEq, Repr

/-- The order of groups: the meta group, then the partitions. -/
def GroupId.rank : GroupId → ℕ
  | .meta => 0
  | .data partition => partition.toNat + 1

/-- The bytes one group adds to a topology digest. -/
def topologyBytes (group : GroupId × List NodeId) : Bytes :=
  let named : Bytes :=
    match group.1 with
    | .meta => [0, 0, 0]
    | .data partition => 1 :: u16Be partition
  let voters := ascending group.2
  named ++ u16Be (UInt16.ofNat voters.length) ++ voters.flatMap u64Be

/-- The digest of the voter configurations a maintenance participant hosts. -/
def maintenanceTopologyDigest (prims : Primitives) (groups : List (GroupId × List NodeId)) :
    Digest32 :=
  let canonical := groups.insertionSort fun first second ↦ first.1.rank ≤ second.1.rank
  prims.sha256 (strBytes "dal-maintenance-topology-v1" ++
    u32Be (UInt32.ofNat canonical.length) ++ canonical.flatMap topologyBytes)

/-- The identity record of a node's storage. -/
structure Identity where
  clusterId : ClusterId
  nodeId : NodeId
  deriving DecidableEq, Repr

end DalService
