import DalService.Config
import DalService.Foundation.ColumnFamily
import DalService.Foundation.SortedList
import DalService.Keyspace
import DalService.Meta.Command

/-!
# The meta-group state machine

`MetaStateMachine::evaluate` decides one committed command from the records of the meta group: the
cluster record, the node directory with the tombstones of retired nodes, the placement map with the
moves planned on it, the search catalog with its readiness reports, and the record of the
maintenance operation. It returns the outcome and the mutations the outcome implies, and writes
nothing; `apply` writes them in one batch with the position of the entry.

A loop of the source that returns at its first failing element is `List.findSomeM?` or `List.anyM`
over the same elements in the same order. SHA-256 and the `Debug` rendering of texts are parameters
(`Primitives`).
-/

set_option autoImplicit false

namespace DalService.Meta

open Foundation Keyspace DalService.Search

/-! ### Records of the meta group -/

/-- The records the meta group keeps in its state column family. -/
inductive MetaValue
  | cluster (config : ClusterConfig)
  | node (entry : NodeDirectoryEntry)
  | retired (incarnation : UInt64)
  | maintenance (record : MaintenanceRecord)
  | placement (placement : Placement)
  | searchIndex (record : SearchIndexRecord)
  | ready (ready : SearchIndexReady)
  | epoch (epoch : BitVec 128)
  | lastApplied (logId : LogId)
  deriving DecidableEq, Repr

instance : Record MetaValue ClusterConfig where
  encode := .cluster
  decode := fun
    | .cluster config => some config
    | _ => none
  decode_encode := fun _ ↦ rfl

instance : Record MetaValue NodeDirectoryEntry where
  encode := .node
  decode := fun
    | .node entry => some entry
    | _ => none
  decode_encode := fun _ ↦ rfl

/-- The tombstone of a retired node is the incarnation it was retired at. -/
instance : Record MetaValue UInt64 where
  encode := .retired
  decode := fun
    | .retired incarnation => some incarnation
    | _ => none
  decode_encode := fun _ ↦ rfl

instance : Record MetaValue MaintenanceRecord where
  encode := .maintenance
  decode := fun
    | .maintenance record => some record
    | _ => none
  decode_encode := fun _ ↦ rfl

instance : Record MetaValue Placement where
  encode := .placement
  decode := fun
    | .placement placement => some placement
    | _ => none
  decode_encode := fun _ ↦ rfl

instance : Record MetaValue SearchIndexRecord where
  encode := .searchIndex
  decode := fun
    | .searchIndex record => some record
    | _ => none
  decode_encode := fun _ ↦ rfl

instance : Record MetaValue SearchIndexReady where
  encode := .ready
  decode := fun
    | .ready ready => some ready
    | _ => none
  decode_encode := fun _ ↦ rfl

instance : Record MetaValue (BitVec 128) where
  encode := .epoch
  decode := fun
    | .epoch epoch => some epoch
    | _ => none
  decode_encode := fun _ ↦ rfl

abbrev StateMutation := Mutation MetaValue

/-- The state column family of the meta group. -/
abbrev MetaState := ColumnFamily MetaValue

/-- What the state machine reads of a node's storage. -/
structure Storage where
  identity : Option Identity
  state : MetaState

/-- Decode a stored record. -/
def decode (T : Type) [Record MetaValue T] (value : MetaValue) : Result T :=
  match Record.decode value with
  | some record => .ok record
  | none => .error (.codec "deserialize")

/-- Read and decode the record under a key. -/
def getStateRecord (T : Type) [Record MetaValue T] (s : Storage) (key : Bytes) :
    Result (Option T) :=
  match s.state[key]? with
  | none => .ok none
  | some value => do return some (← decode T value)

/-- The records under a key prefix, in key order. -/
def scanPrefix (s : Storage) (keyPrefix : Bytes) : List (Bytes × MetaValue) :=
  s.state.toList.filter fun entry ↦ keyPrefix.isPrefixOf entry.1

/-- The recovery epoch of the group: zero where none is recorded. -/
def Storage.recoveryEpoch (s : Storage) : Result (BitVec 128) := do
  return (← getStateRecord (BitVec 128) s recoveryEpochKey).getD 0

/-- `put` of an encoded record. -/
def put {T : Type} [Record MetaValue T] (key : Bytes) (record : T) : StateMutation :=
  .put key (Record.encode record)

def reject (reason : MetaReject) : MetaApplyResult × List StateMutation := (.rejected reason, [])

def invalid (message : String) : MetaApplyResult × List StateMutation :=
  reject (.invalidConfig message)

def illegal (message : String) : MetaApplyResult × List StateMutation :=
  reject (.illegalVoterChange message)

def noOp : MetaApplyResult × List StateMutation := (.noOp, [])

def applied (muts : List StateMutation) : MetaApplyResult × List StateMutation := (.applied, muts)

/-- The meta group and the `p` partitions. -/
def groups (p : UInt16) : List GroupId :=
  .meta :: (List.range p.toNat).map fun partition ↦ .data (UInt16.ofNat partition)

def LEGACY_SEARCH_ENGINE_REVISION : UInt32 := 1

namespace MetaStateMachine

/-! ### Typed accessors -/

def cluster (s : Storage) : Result (Option ClusterConfig) :=
  getStateRecord ClusterConfig s metaClusterKey

def node (s : Storage) (id : NodeId) : Result (Option NodeDirectoryEntry) :=
  getStateRecord NodeDirectoryEntry s (metaNodeKey id)

def retired (s : Storage) (id : NodeId) : Result (Option UInt64) :=
  getStateRecord UInt64 s (metaRetiredNodeKey id)

def maintenance (s : Storage) : Result (Option MaintenanceRecord) :=
  getStateRecord MaintenanceRecord s metaMaintenanceKey

def placement (s : Storage) (group : GroupId) : Result (Option Placement) :=
  getStateRecord Placement s (metaPlacementKey group)

/-- Every node-directory entry, in key order. -/
def directory (s : Storage) : Result (List NodeDirectoryEntry) :=
  (scanPrefix s metaNodePrefix).mapM fun entry ↦ decode NodeDirectoryEntry entry.2

def isActive (s : Storage) (id : NodeId) : Result Bool := do
  return (← node s id).any fun entry ↦ entry.state = .active

def eligibleCount (s : Storage) : Result ℕ := do
  return ((← directory s).filter fun entry ↦ entry.state = .active).length

variable (prims : Primitives)

def searchIndex (s : Storage) (name : String) : Result (Option SearchIndexRecord) := do
  let record ← getStateRecord SearchIndexRecord s (metaSearchIndexKey name)
  match record with
  | none => return none
  | some stored =>
    stored.validate prims
    return some stored

/-! ### Maintenance -/

/-- Why a group keeps a maintenance operation from starting: it is unplaced, it is moving, or one of
its voters is not active. -/
def maintenanceBusy (s : Storage) (active : List NodeId) (group : GroupId) :
    Result (Option MetaReject) := do
  let some placed ← placement s group
    | return some .maintenanceBusy
  if placed.move.isSome ∨ placed.voters.any fun voter ↦ !active.contains voter then
    return some .maintenanceBusy
  return none

def beginMaintenance (s : Storage) (operationId : BitVec 128) (generation : UInt64)
    (participants : List NodeId) : Result (MetaApplyResult × List StateMutation) := do
  let some config ← cluster s
    | return reject .clusterNotInitialized
  if operationId = 0 ∨ generation = 0 ∨ participants.isEmpty then
    return invalid "maintenance identity and participants are required"
  if ¬participants.IsChain (· < ·) then
    return invalid "maintenance participants must be sorted and unique"
  let entries ← directory s
  let active := ascending ((entries.filter fun entry ↦ entry.state = .active).map (·.nodeId))
  if participants ≠ active then
    return invalid "maintenance must include every Active node"
  if let some reason ← (groups config.p).findSomeM? (maintenanceBusy s active) then
    return reject reason
  let busy ← (scanPrefix s metaSearchIndexPrefix).anyM fun entry ↦ do
    let record ← decode SearchIndexRecord entry.2
    return record.building.isSome || !record.retiring.isEmpty
  if busy then
    return reject .maintenanceBusy
  let record : MaintenanceRecord :=
    { operationId := operationId, generation := generation, participants := participants,
      acknowledged := [], recovered := [], recoveryProcesses := [], recoveryPolicyDigests := [],
      verificationPolicyDigest := none, verificationRecoveryEpoch := none, stage := .preparing }
  match ← maintenance s with
  | some previous =>
    if previous.stage ≠ .released then
      if previous.operationId = operationId ∧ previous.generation = generation ∧
          previous.participants = participants then
        return noOp
      return reject .maintenanceActive
    if previous.operationId = operationId ∨ checkedSucc previous.generation ≠ some generation then
      return reject .maintenanceMismatch
    return applied [put metaMaintenanceKey record]
  | none =>
    if generation ≠ 1 then
      return reject .maintenanceMismatch
    return applied [put metaMaintenanceKey record]

/-- Whether a participant is not live at the incarnation claimed for it. -/
def livenessMismatch (s : Storage) (claim : NodeId × NodeId × UInt64) : Result Bool := do
  if claim.1 ≠ claim.2.1 then
    return true
  return !(← node s claim.1).any fun entry ↦
    entry.state = .active && entry.incarnation = claim.2.2

def releaseMaintenance (s : Storage) (operationId : BitVec 128) (generation : UInt64)
    (liveProcesses liveIncarnations : List (NodeId × UInt64)) (policyDigest : Digest32) :
    Result (MetaApplyResult × List StateMutation) := do
  let some record ← maintenance s
    | return reject .maintenanceMismatch
  if record.operationId ≠ operationId ∨ record.generation ≠ generation then
    return reject .maintenanceMismatch
  let released := applied [put metaMaintenanceKey { record with stage := .released }]
  match record.stage with
  | .released => return noOp
  | .preparing => return released
  | .quiesced => return reject .maintenanceBusy
  | .verifying =>
    if record.recovered = record.participants ∧
        record.recoveryProcesses.map Prod.fst = record.participants then
      if record.verificationPolicyDigest ≠ some policyDigest then
        return reject .maintenancePolicyMismatch
      if record.verificationRecoveryEpoch ≠ some (← s.recoveryEpoch) then
        return reject .maintenanceMismatch
      if record.recoveryProcesses ≠ liveProcesses then
        return reject .maintenanceLivenessMismatch
      if liveIncarnations.length ≠ record.participants.length then
        return reject .maintenanceLivenessMismatch
      if ← (record.participants.zip liveIncarnations).anyM (livenessMismatch s) then
        return reject .maintenanceLivenessMismatch
      return released
    else
      return reject .maintenanceBusy

def acknowledgeMaintenance (s : Storage) (operationId : BitVec 128) (generation : UInt64)
    (nodeId : NodeId) (incarnation : UInt64) : Result (MetaApplyResult × List StateMutation) := do
  let some record ← maintenance s
    | return reject .maintenanceMismatch
  if record.operationId ≠ operationId ∨ record.generation ≠ generation then
    return reject .maintenanceMismatch
  if record.stage ≠ .preparing then
    return reject .maintenanceBusy
  if ¬(binarySearch nodeId record.participants).isOk then
    return reject .ineligibleTarget
  let some entry ← node s nodeId
    | return reject .unknownNode
  if entry.incarnation ≠ incarnation then
    return reject .staleIncarnation
  if entry.state ≠ .active then
    return reject .ineligibleTarget
  match binarySearch nodeId record.acknowledged with
  | .ok _ => return noOp
  | .error index =>
    return applied [put metaMaintenanceKey
      { record with acknowledged := record.acknowledged.insertIdx index nodeId }]

def quiesceMaintenance (s : Storage) (operationId : BitVec 128) (generation : UInt64) :
    Result (MetaApplyResult × List StateMutation) := do
  let some record ← maintenance s
    | return reject .maintenanceMismatch
  if record.operationId ≠ operationId ∨ record.generation ≠ generation then
    return reject .maintenanceMismatch
  if record.stage = .quiesced then
    return noOp
  if record.stage ≠ .preparing ∨ record.acknowledged ≠ record.participants then
    return reject .maintenanceBusy
  return applied [put metaMaintenanceKey { record with stage := .quiesced }]

def enterMaintenanceVerification (s : Storage) (operationId : BitVec 128) (generation : UInt64) :
    Result (MetaApplyResult × List StateMutation) := do
  let some record ← maintenance s
    | return reject .maintenanceMismatch
  if record.operationId ≠ operationId ∨ record.generation ≠ generation then
    return reject .maintenanceMismatch
  if record.stage = .verifying then
    return noOp
  if record.stage ≠ .quiesced then
    return reject .maintenanceBusy
  return applied [put metaMaintenanceKey
    { record with
      stage := .verifying, recovered := [], recoveryProcesses := [], recoveryPolicyDigests := [],
      verificationPolicyDigest := none, verificationRecoveryEpoch := none }]

/-- The placements a participant hosts, or why they cannot be taken now. -/
def hostedGroups (s : Storage) (nodeId : NodeId) :
    List GroupId → Result (Except MetaReject (List (GroupId × List NodeId)))
  | [] => return .ok []
  | group :: rest => do
    let some placed ← placement s group
      | return .error .noPlacement
    if placed.move.isSome then
      return .error .maintenanceBusy
    match ← hostedGroups s nodeId rest with
    | .error reason => return .error reason
    | .ok hosted =>
      return .ok
        (if placed.voters.contains nodeId then (group, placed.voters) :: hosted else hosted)

/-- Record the recovery of a participant, and the policy and epoch all of them agree on. -/
def recordRecovery (record : MaintenanceRecord) (nodeId : NodeId) (processIncarnation : UInt64)
    (policyDigest : Digest32) (recoveryEpoch : BitVec 128) : MaintenanceRecord :=
  let recovered :=
    match binarySearch nodeId record.recovered with
    | .ok _ => record.recovered
    | .error index => record.recovered.insertIdx index nodeId
  let processes := upsert Prod.fst (nodeId, processIncarnation) record.recoveryProcesses
  let digests := upsert Prod.fst (nodeId, policyDigest) record.recoveryPolicyDigests
  { record with
    recovered := recovered
    recoveryProcesses := processes
    recoveryPolicyDigests := digests
    verificationPolicyDigest :=
      if recovered = record.participants ∧ digests.length = record.participants.length ∧
          digests.map Prod.fst = record.participants ∧
          digests.all (fun digest ↦ digest.2 = policyDigest) then
        some policyDigest
      else none
    verificationRecoveryEpoch :=
      if recovered = record.participants then some recoveryEpoch else none }

/-- The answer to a report of an older process, or of one already recorded. -/
def answeredProcess (record : MaintenanceRecord) (nodeId : NodeId) (processIncarnation : UInt64) :
    Option (MetaApplyResult × List StateMutation) :=
  match binarySearchBy Prod.fst nodeId record.recoveryProcesses with
  | .error _ => none
  | .ok index =>
    let previous := record.recoveryProcesses[index].2
    if processIncarnation < previous then some (reject .staleMaintenanceProcess)
    else if processIncarnation = previous ∧ (binarySearch nodeId record.recovered).isOk then
      some noOp
    else none

def acknowledgeMaintenanceRecovery (s : Storage) (operationId : BitVec 128) (generation : UInt64)
    (nodeId : NodeId) (incarnation processIncarnation : UInt64)
    (topologyDigest policyDigest : Digest32) (recoveryEpoch : BitVec 128) :
    Result (MetaApplyResult × List StateMutation) := do
  let some record ← maintenance s
    | return reject .maintenanceMismatch
  if record.operationId ≠ operationId ∨ record.generation ≠ generation then
    return reject .maintenanceMismatch
  if record.stage ≠ .verifying then
    return reject .maintenanceBusy
  if ¬(binarySearch nodeId record.participants).isOk then
    return reject .ineligibleTarget
  let some entry ← node s nodeId
    | return reject .unknownNode
  if entry.incarnation ≠ incarnation then
    return reject .staleIncarnation
  if entry.state ≠ .active then
    return reject .ineligibleTarget
  if processIncarnation = 0 then
    return invalid "maintenance process incarnation is required"
  if policyDigest = Vector.replicate 32 0 then
    return invalid "maintenance trust-policy digest is required"
  if recoveryEpoch ≠ (← s.recoveryEpoch) then
    return reject .maintenanceMismatch
  if let some answer := answeredProcess record nodeId processIncarnation then
    return answer
  let some config ← cluster s
    | return reject .clusterNotInitialized
  match ← hostedGroups s nodeId (groups config.p) with
  | .error reason => return reject reason
  | .ok expected =>
    if topologyDigest ≠ maintenanceTopologyDigest prims expected then
      return reject .maintenanceTopologyMismatch
    return applied [put metaMaintenanceKey
      (recordRecovery record nodeId processIncarnation policyDigest recoveryEpoch)]

/-! ### The cluster record and the node directory -/

def clusterInit (s : Storage) (config : ClusterConfig) (metaVoters : List NodeId) (logId : LogId) :
    Result (MetaApplyResult × List StateMutation) := do
  if let some existing ← cluster s then
    let existingMeta := (← placement s .meta).map fun placed ↦ voterSet placed.voters
    if existing = config ∧ existingMeta = some (voterSet metaVoters) then
      return noOp
    return reject .clusterConflict
  let some identity := s.identity
    | return invalid "cluster init requires a bound storage identity"
  if config.clusterId ≠ identity.clusterId then
    return invalid "cluster_id differs from the storage identity"
  if config.protocolVersion ≠ PROTOCOL_VERSION then
    return invalid "unsupported protocol version"
  if config.r < MIN_REPLICATION then
    return invalid "R below minimum"
  if config.p = 0 then
    return invalid "P must be non-zero"
  match validateRoutingShape config.p config.r with
  | .error error => return invalid error.text
  | .ok () =>
    let voters := ascending metaVoters
    if voters.length ≠ metaVoters.length then
      return invalid "duplicate meta voter"
    if voters.length < MIN_META_VOTERS ∨ voters.length % 2 = 0 then
      return invalid "meta voters must be an odd set of >= 3"
    if MAX_CLUSTER_NODES < voters.length then
      return invalid "meta voter set exceeds the cluster node limit"
    let placed : Placement := { voters := voters, votersLogId := logId, move := none }
    return applied [put metaClusterKey config, put (metaPlacementKey .meta) placed]

/-- Whether an entry uses one of two addresses, on either lane. -/
def usesAddress (controlAddr bulkAddr : String) (entry : NodeDirectoryEntry) : Bool :=
  entry.controlAddr = controlAddr || entry.bulkAddr = controlAddr ||
    entry.controlAddr = bulkAddr || entry.bulkAddr = bulkAddr

def registerNode (s : Storage) (nodeId : NodeId) (controlAddr bulkAddr : String) :
    Result (MetaApplyResult × List StateMutation) := do
  if (← cluster s).isNone then
    return reject .clusterNotInitialized
  if nodeId = 0 then
    return invalid "node_id must be non-zero"
  if controlAddr.isEmpty ∨ bulkAddr.isEmpty then
    return invalid "node addresses must be non-empty"
  if MAX_ENDPOINT_BYTES < controlAddr.utf8ByteSize ∨ MAX_ENDPOINT_BYTES < bulkAddr.utf8ByteSize then
    return invalid ("node addresses must be <= " ++ toString MAX_ENDPOINT_BYTES ++ " bytes")
  if controlAddr = bulkAddr then
    return invalid "control_addr and bulk_addr must differ"
  if (← retired s nodeId).isSome then
    return invalid "retired node ids cannot be reused"
  let entries ← directory s
  if entries.any fun other ↦ other.nodeId ≠ nodeId && usesAddress controlAddr bulkAddr other then
    return invalid "node addresses are already registered to another node"
  if MAX_CLUSTER_NODES ≤ entries.length ∧ ¬entries.any fun entry ↦ entry.nodeId = nodeId then
    return invalid ("cluster node count must be <= " ++ toString MAX_CLUSTER_NODES)
  match ← node s nodeId with
  | some entry =>
    if entry.controlAddr = controlAddr ∧ entry.bulkAddr = bulkAddr then
      if entry.state ≠ .down then
        return noOp
      let some incarnation := checkedSucc entry.incarnation
        | return invalid "node incarnation exhausted"
      return applied [put (metaNodeKey nodeId)
        { entry with state := .active, incarnation := incarnation }]
    else
      let some incarnation := checkedSucc entry.incarnation
        | return invalid "node incarnation exhausted"
      let rejoined : NodeDirectoryEntry :=
        { nodeId := nodeId, controlAddr := controlAddr, bulkAddr := bulkAddr, state := .active,
          incarnation := incarnation }
      return applied [put (metaNodeKey nodeId) rejoined]
  | none =>
    let joined : NodeDirectoryEntry :=
      { nodeId := nodeId, controlAddr := controlAddr, bulkAddr := bulkAddr, state := .active,
        incarnation := 1 }
    return applied [put (metaNodeKey nodeId) joined]

def setNodeState (s : Storage) (nodeId : NodeId) (state : NodeState) (incarnation : UInt64) :
    Result (MetaApplyResult × List StateMutation) := do
  let some entry ← node s nodeId
    | return reject .unknownNode
  if incarnation ≠ entry.incarnation then
    return reject .staleIncarnation
  if (entry.state = .down ∧ ¬(state = .down ∨ state = .draining)) ∨
      (entry.state = .draining ∧ state ≠ .draining) then
    return reject .staleIncarnation
  if entry.state = state then
    return noOp
  return applied [put (metaNodeKey nodeId) { entry with state := state }]

/-- Why a group keeps a node from retiring. -/
def retirementBlocked (s : Storage) (nodeId : NodeId) (group : GroupId) :
    Result (Option MetaReject) := do
  let some placed ← placement s group
    | return some .noPlacement
  if placed.referencesNode nodeId then
    return some (.invalidConfig "node is still referenced by a placement or move")
  return none

def retireNode (s : Storage) (nodeId : NodeId) (incarnation : UInt64) :
    Result (MetaApplyResult × List StateMutation) := do
  if let some tombstone ← retired s nodeId then
    return if tombstone = incarnation then noOp else reject .staleIncarnation
  let some entry ← node s nodeId
    | return reject .unknownNode
  if entry.incarnation ≠ incarnation then
    return reject .staleIncarnation
  if entry.state ≠ .draining then
    return reject .ineligibleTarget
  let some config ← cluster s
    | return reject .clusterNotInitialized
  if let some reason ← (groups config.p).findSomeM? (retirementBlocked s nodeId) then
    return reject reason
  return applied [put (metaRetiredNodeKey nodeId) incarnation, .delete (metaNodeKey nodeId)]

/-! ### The placement map -/

def seedPlacement (s : Storage) (group : GroupId) (voters : List NodeId) (logId : LogId) :
    Result (MetaApplyResult × List StateMutation) := do
  let some config ← cluster s
    | return reject .clusterNotInitialized
  let .data partition := group
    | return reject .seedMetaForbidden
  if config.p ≤ partition then
    return illegal "partition is outside the configured range"
  let seeded := ascending voters
  if seeded.length ≠ voters.length then
    return illegal "duplicate voter"
  if seeded.length ≠ config.r.toNat then
    return illegal "initial voters must number exactly R"
  if ← voters.anyM fun voter ↦ return !(← isActive s voter) then
    return reject .ineligibleTarget
  match ← placement s group with
  | some existing =>
    if existing.move.isNone ∧ voterSet existing.voters = voterSet voters then
      return noOp
    return reject .placementConflict
  | none =>
    let placed : Placement := { voters := seeded, votersLogId := logId, move := none }
    return applied [put (metaPlacementKey group) placed]

/-- Why the sets of a move do not make a legal change of one voter, given the number of active
nodes. -/
def illegalMove (config : ClusterConfig) (group : GroupId) (current target : Finset NodeId)
    (eligible : Result ℕ) : Result (Option MetaReject) := do
  let added := (target \ current).card
  let removed := (current \ target).card
  match group with
  | .data _ =>
    if target.card ≠ config.r.toNat then
      return some (.illegalVoterChange "data target must have exactly R voters")
    if added ≠ 1 ∨ removed ≠ 1 then
      return some (.illegalVoterChange "data move must change exactly one voter")
    if (← eligible) < config.r.toNat then
      return some .ineligibleTarget
    return none
  | .meta =>
    if target.card < MIN_META_VOTERS then
      return some (.illegalVoterChange "meta move must not leave < 3 voters")
    let replacement := added = 1 ∧ removed = 1 ∧ target.card = current.card
    let removal := added = 0 ∧ removed = 1 ∧ target.card + 1 = current.card
    if ¬(replacement ∨ removal) then
      return some (.illegalVoterChange "meta move must be single-voter replacement or removal")
    return none

def createPlan (s : Storage) (group : GroupId) (targetVoters : List NodeId) (logId : LogId) :
    Result (MetaApplyResult × List StateMutation) := do
  let some config ← cluster s
    | return reject .clusterNotInitialized
  let some placed ← placement s group
    | return reject .noPlacement
  if placed.move.isSome then
    return reject .planExists
  let current := voterSet placed.voters
  let target := voterSet targetVoters
  if target.card ≠ targetVoters.length then
    return illegal "duplicate voter"
  if let some reason ← illegalMove config group current target (eligibleCount s) then
    return reject reason
  let added := (ascending targetVoters).filter fun voter ↦ voter ∉ current
  if ← added.anyM fun voter ↦ return !(← isActive s voter) then
    return reject .ineligibleTarget
  let plan : MovePlan :=
    { planId := logId.index, targetVoters := sortUnstable (ascending targetVoters),
      aborting := false }
  return applied [put (metaPlacementKey group) { placed with move := some plan }]

def markAborting (s : Storage) (group : GroupId) (planId : UInt64) :
    Result (MetaApplyResult × List StateMutation) := do
  let some placed ← placement s group
    | return reject .noPlan
  match placed.move with
  | some plan =>
    if plan.planId = planId then
      if plan.aborting then
        return noOp
      return applied [put (metaPlacementKey group)
        { placed with move := some { plan with aborting := true } }]
    return reject .planIdMismatch
  | none => return reject .noPlan

/-- Resolve a plan from an observation of the configuration its group committed. -/
def finalizePlan (s : Storage) (group : GroupId) (planId : UInt64)
    (observation : DataConfigObservation) (isAbort : Bool) :
    Result (MetaApplyResult × List StateMutation) := do
  let some placed ← placement s group
    | return reject .noPlan
  let some plan := placed.move
    | return reject .noPlan
  if plan.planId ≠ planId then
    return reject .planIdMismatch
  if observation.group ≠ group ∨ observation.planId ≠ planId then
    return reject .observationMismatch
  let observed := voterSet observation.voterSet
  let resolved (voters : List NodeId) : Placement :=
    { voters := sortUnstable voters, votersLogId := observation.configLogId, move := none }
  if isAbort then
    if !plan.aborting then
      return reject .notAborting
    if observed = voterSet placed.voters then
      return applied [put (metaPlacementKey group) (resolved placed.voters)]
    else if observed = voterSet plan.targetVoters then
      return applied [put (metaPlacementKey group) (resolved plan.targetVoters)]
    else
      return reject .observationMismatch
  else
    if plan.aborting then
      return reject .planAborting
    if observed = voterSet plan.targetVoters then
      return applied [put (metaPlacementKey group) (resolved plan.targetVoters)]
    else
      return reject .observationMismatch

/-! ### The search catalog -/

/-- Whether a slot holds a generation of the same definition and engine revision. -/
def sameGeneration (slot : Option SearchIndexGeneration) (generation : SearchIndexGeneration) :
    Bool :=
  slot.any fun building ↦
    building.definitionHash = generation.definitionHash &&
      building.engineRevision = generation.engineRevision

/-- Store a changed record if it passes its check. -/
def storeIndex (name : String) (record : SearchIndexRecord) (deletes : List StateMutation) :
    MetaApplyResult × List StateMutation :=
  match record.validate prims with
  | .error error => invalid error.text
  | .ok () => applied (put (metaSearchIndexKey name) record :: deletes)

/-- Start building a generation of an index. -/
def buildGeneration (name : String) (record : SearchIndexRecord)
    (generation : SearchIndexGeneration) (update : Bool) : MetaApplyResult × List StateMutation :=
  if record.building.isSome then
    if sameGeneration record.building generation then noOp else reject .searchGenerationExists
  else if update ∧ record.active.isNone then reject .searchIndexNotFound
  else if update ∧ SEARCH_MAX_RETIRING_GENERATIONS ≤ record.retiring.length then
    invalid "too many retiring search generations; finalize one before updating"
  else storeIndex prims name { record with building := some generation } []

def createSearchIndex (s : Storage) (name : String) (definition : SearchIndexDefinition)
    (engineRevision : UInt32) (logId : LogId) (update : Bool) :
    Result (MetaApplyResult × List StateMutation) := do
  if (← cluster s).isNone then
    return reject .clusterNotInitialized
  match validateIndexName name with
  | .error error => return invalid error.text
  | .ok () =>
    match SearchIndexGeneration.withRevision prims logId.index engineRevision definition with
    | .error error => return invalid error.text
    | .ok generation =>
      let existing ← searchIndex prims s name
      if existing.isNone ∧ !update ∧
          SEARCH_MAX_INDEXES ≤ (scanPrefix s metaSearchIndexPrefix).length then
        return invalid "search catalog has reached its maximum index count"
      match existing, update with
      | none, false =>
        return buildGeneration prims name
          { name := name, active := none, building := none, retiring := [] } generation false
      | none, true => return reject .searchIndexNotFound
      | some record, false =>
        if record.active.isNone ∧ sameGeneration record.building generation then
          return noOp
        return reject .searchIndexExists
      | some record, true => return buildGeneration prims name record generation true

def reportSearchReady (s : Storage) (name : String) (observation : SearchIndexReady) :
    Result (MetaApplyResult × List StateMutation) := do
  let some record ← searchIndex prims s name
    | return reject .searchIndexNotFound
  let some building := record.building
    | return reject .searchGenerationMismatch
  if observation.generation ≠ building.id ∨ observation.definitionHash ≠ building.definitionHash ∨
      observation.engineRevision ≠ building.engineRevision then
    return reject .searchGenerationMismatch
  let .data partition := observation.group
    | return reject .observationMismatch
  let some config ← cluster s
    | return reject .clusterNotInitialized
  if config.p ≤ partition ∨ observation.projectionEpoch = 0 then
    return reject .observationMismatch
  let some placed ← placement s observation.group
    | return reject .noPlacement
  if placed.move.isSome ∨ placed.votersLogId ≠ observation.votersLogId ∨
      ¬placed.voters.contains observation.nodeId then
    return reject .observationMismatch
  let readyKey :=
    metaSearchReadyKey name observation.generation observation.group observation.nodeId
  match ← getStateRecord SearchIndexReady s readyKey with
  | some previous =>
    if previous = observation then
      return noOp
    if observation.projectionEpoch < previous.projectionEpoch ∨
        (observation.projectionEpoch = previous.projectionEpoch ∧
          observation.sourceLogId.index < previous.sourceLogId.index) then
      return reject .observationMismatch
    return applied [put readyKey observation]
  | none => return applied [put readyKey observation]

/-- Whether a voter of a placement has reported a generation ready under this placement. -/
def reportedReady (readiness : List SearchIndexReady) (building : SearchIndexGeneration)
    (group : GroupId) (placed : Placement) (nodeId : NodeId) : Bool :=
  readiness.any fun ready ↦
    ready.generation = building.id && ready.group = group && ready.nodeId = nodeId &&
      ready.votersLogId = placed.votersLogId && ready.definitionHash = building.definitionHash &&
      ready.engineRevision = building.engineRevision

/-- Whether a partition is unplaced, moving, or has a voter that has not reported ready. -/
def notReady (s : Storage) (readiness : List SearchIndexReady) (building : SearchIndexGeneration)
    (partition : ℕ) : Result Bool := do
  let group := GroupId.data (UInt16.ofNat partition)
  let some placed ← placement s group
    | return true
  if placed.move.isSome then
    return true
  return placed.voters.any fun nodeId ↦ !reportedReady readiness building group placed nodeId

/-- Add a generation to the retiring list unless it is there. -/
def retire (retiring : List SearchIndexGenerationId) (generation : SearchIndexGeneration) :
    List SearchIndexGenerationId :=
  if retiring.contains generation.id then retiring else retiring ++ [generation.id]

def activateSearchGeneration (s : Storage) (name : String) (generation : SearchIndexGenerationId) :
    Result (MetaApplyResult × List StateMutation) := do
  let some record ← searchIndex prims s name
    | return reject .searchIndexNotFound
  if record.active.map (·.id) = some generation ∧ record.building.isNone then
    return noOp
  let some building := record.building
    | return reject .searchGenerationMismatch
  if building.id ≠ generation then
    return reject .searchGenerationMismatch
  let some config ← cluster s
    | return reject .clusterNotInitialized
  let readyEntries := scanPrefix s (metaSearchReadyPrefix name generation)
  let readiness ← readyEntries.mapM fun entry ↦ decode SearchIndexReady entry.2
  if ← (List.range config.p.toNat).anyM (notReady s readiness building) then
    return reject .searchGenerationNotReady
  if record.active.any fun previous ↦ !record.retiring.contains previous.id &&
      SEARCH_MAX_RETIRING_GENERATIONS ≤ record.retiring.length then
    return invalid "too many retiring search generations; finalize one before activation"
  let next : SearchIndexRecord :=
    { record with
      active := some building
      building := none
      retiring := record.active.toList.foldl retire record.retiring }
  return storeIndex prims name next (readyEntries.map fun entry ↦ .delete entry.1)

def dropSearchIndex (s : Storage) (name : String) :
    Result (MetaApplyResult × List StateMutation) := do
  let some record ← searchIndex prims s name
    | return noOp
  if record.active.isNone ∧ record.building.isNone then
    return noOp
  let dropped := record.active.toList ++ record.building.toList
  let additions := (dropped.filter fun generation ↦ !record.retiring.contains generation.id).length
  if SEARCH_MAX_RETIRING_GENERATIONS < record.retiring.length + additions then
    return invalid "too many retiring search generations; finalize one before dropping"
  let next : SearchIndexRecord :=
    { record with
      active := none
      building := none
      retiring := dropped.foldl retire record.retiring }
  let readyEntries := record.building.toList.flatMap fun building ↦
    scanPrefix s (metaSearchReadyPrefix name building.id)
  return storeIndex prims name next (readyEntries.map fun entry ↦ .delete entry.1)

def finalizeSearchDrop (s : Storage) (name : String) (generation : SearchIndexGenerationId) :
    Result (MetaApplyResult × List StateMutation) := do
  let some record ← searchIndex prims s name
    | return noOp
  let retiring := record.retiring.filter (· ≠ generation)
  if retiring.length = record.retiring.length then
    return noOp
  if record.active.isNone ∧ record.building.isNone ∧ retiring.isEmpty then
    return applied [.delete (metaSearchIndexKey name)]
  return applied [put (metaSearchIndexKey name) { record with retiring := retiring }]

/-! ### Deciding a command -/

/-- Decide a command past the maintenance gate. -/
def dispatch (s : Storage) (logId : LogId) :
    MetaCommand → Result (MetaApplyResult × List StateMutation)
  | .clusterInit config metaVoters => clusterInit s config metaVoters logId
  | .registerNode nodeId controlAddr bulkAddr => registerNode s nodeId controlAddr bulkAddr
  | .seedPlacement group voters => seedPlacement s group voters logId
  | .setNodeState nodeId state incarnation => setNodeState s nodeId state incarnation
  | .retireNode nodeId incarnation => retireNode s nodeId incarnation
  | .createPlan group _ targetVoters => createPlan s group targetVoters logId
  | .markAborting group planId => markAborting s group planId
  | .finalizePlan group planId observation => finalizePlan s group planId observation false
  | .abortReport group planId observation => finalizePlan s group planId observation true
  | .createSearchIndex name definition =>
    createSearchIndex prims s name definition LEGACY_SEARCH_ENGINE_REVISION logId false
  | .createSearchIndexGeneration name definition =>
    createSearchIndex prims s name definition LEGACY_SEARCH_ENGINE_REVISION logId true
  | .reportSearchIndexReady name observation => reportSearchReady prims s name observation
  | .activateSearchIndexGeneration name generation =>
    activateSearchGeneration prims s name generation
  | .dropSearchIndex name => dropSearchIndex prims s name
  | .finalizeSearchIndexDrop name generation => finalizeSearchDrop prims s name generation
  | .createSearchIndexWithRevision name definition engineRevision =>
    createSearchIndex prims s name definition engineRevision logId false
  | .createSearchIndexGenerationWithRevision name definition engineRevision =>
    createSearchIndex prims s name definition engineRevision logId true
  | .beginMaintenance operationId generation participants =>
    beginMaintenance s operationId generation participants
  | .releaseMaintenance operationId generation liveProcesses liveIncarnations policyDigest =>
    releaseMaintenance s operationId generation liveProcesses liveIncarnations policyDigest
  | .acknowledgeMaintenance operationId generation nodeId incarnation =>
    acknowledgeMaintenance s operationId generation nodeId incarnation
  | .quiesceMaintenance operationId generation => quiesceMaintenance s operationId generation
  | .enterMaintenanceVerification operationId generation =>
    enterMaintenanceVerification s operationId generation
  | .acknowledgeMaintenanceRecovery operationId generation nodeId incarnation processIncarnation
      topologyDigest policyDigest recoveryEpoch =>
    acknowledgeMaintenanceRecovery prims s operationId generation nodeId incarnation
      processIncarnation topologyDigest policyDigest recoveryEpoch

/-- Decide the outcome of a command and the mutations it implies, writing nothing. -/
def evaluate (s : Storage) (cmd : MetaCommand) (logId : LogId) :
    Result (MetaApplyResult × List StateMutation) := do
  let gated := (← maintenance s).any fun record ↦ record.stage ≠ .released
  if gated ∧ !cmd.isMaintenance then
    return reject .maintenanceActive
  dispatch prims s logId cmd

/-- Write the mutations of an entry and `last_applied` in one batch. -/
def applyState (s : Storage) (muts : List StateMutation) (lastApplied : LogId) : Storage :=
  { s with state := s.state.writeAll (muts ++ [.put lastAppliedKey (.lastApplied lastApplied)]) }

/-- Decide and commit one command. -/
def apply (s : Storage) (cmd : MetaCommand) (logId : LogId) :
    Result (MetaApplyResult × Storage) := do
  let (result, muts) ← evaluate prims s cmd logId
  return (result, applyState s muts logId)

end MetaStateMachine

end DalService.Meta
