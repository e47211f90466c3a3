import DalService.Meta.View

/-!
# What a meta command can do

The transitions of the abstract state, one constructor for each way a command changes it, with every
condition the state machine checks on the way: on the directory and the cluster record
(`DirectoryEffect`), on the placement map (`PlacementEffect`), on the search catalog
(`SearchEffect`), and on the maintenance record (`MaintenanceEffect`). `Effect` puts them together
behind the maintenance gate.

An effect always changes the view (`Effect.ne`), and while a maintenance operation is open it
changes nothing but the maintenance record.
-/

set_option autoImplicit false

namespace DalService.Meta

open Foundation Keyspace DalService.Search MetaStateMachine
open Function (update update_self)

/-! ### The transitions -/

/-- The incarnation a registration gives a node: one for a new node, the next one for a listed node
that changed its addresses or was down. -/
inductive Registers (controlAddr bulkAddr : String) : Option NodeDirectoryEntry → UInt64 → Prop
  | joined : Registers controlAddr bulkAddr none 1
  | rejoined (entry : NodeDirectoryEntry) (incarnation : UInt64)
    (hnext : checkedSucc entry.incarnation = some incarnation)
    (hreason : entry.controlAddr = controlAddr → entry.bulkAddr = bulkAddr → entry.state = .down) :
    Registers controlAddr bulkAddr (some entry) incarnation

/-- Changes of the cluster record and of the node directory. -/
inductive DirectoryEffect (identity : Option Identity) (v : MetaView) (logId : LogId) :
    MetaCommand → MetaView → Prop
  | clusterInit (config : ClusterConfig) (metaVoters : List NodeId) (bound : Identity)
    (hnew : v.cluster = none) (hbound : identity = some bound)
    (hcluster : config.clusterId = bound.clusterId)
    (hprotocol : config.protocolVersion = PROTOCOL_VERSION)
    (hreplication : ¬config.r < MIN_REPLICATION) (hpartitions : config.p ≠ 0)
    (hshape : validateRoutingShape config.p config.r = .ok ())
    (hdistinct : (ascending metaVoters).length = metaVoters.length)
    (hmin : MIN_META_VOTERS ≤ (ascending metaVoters).length)
    (hodd : (ascending metaVoters).length % 2 ≠ 0)
    (hmax : (ascending metaVoters).length ≤ MAX_CLUSTER_NODES) :
    DirectoryEffect identity v logId (.clusterInit config metaVoters)
      { v with
        cluster := some config
        placement := update v.placement .meta
          (some { voters := ascending metaVoters, votersLogId := logId, move := none }) }
  | registerNode (nodeId : NodeId) (controlAddr bulkAddr : String) (incarnation : UInt64)
    (hcluster : v.cluster ≠ none) (hid : nodeId ≠ 0) (hcontrol : controlAddr.isEmpty = false)
    (hbulk : bulkAddr.isEmpty = false)
    (hcontrolSize : controlAddr.utf8ByteSize ≤ MAX_ENDPOINT_BYTES)
    (hbulkSize : bulkAddr.utf8ByteSize ≤ MAX_ENDPOINT_BYTES) (hlanes : controlAddr ≠ bulkAddr)
    (hretired : v.retired nodeId = none)
    (hfree : ∀ other entry, v.node other = some entry → other ≠ nodeId →
      usesAddress controlAddr bulkAddr entry = false)
    (hroom : nodeId ∈ v.listed ∨ v.listed.ncard < MAX_CLUSTER_NODES)
    (hregisters : Registers controlAddr bulkAddr (v.node nodeId) incarnation) :
    DirectoryEffect identity v logId (.registerNode nodeId controlAddr bulkAddr)
      { v with
        node := update v.node nodeId (some
          { nodeId := nodeId, controlAddr := controlAddr, bulkAddr := bulkAddr, state := .active,
            incarnation := incarnation }) }
  | setNodeState (nodeId : NodeId) (state : NodeState) (entry : NodeDirectoryEntry)
    (hentry : v.node nodeId = some entry) (hdown : entry.state = .down → state = .draining)
    (hdraining : entry.state ≠ .draining) (hchange : entry.state ≠ state) :
    DirectoryEffect identity v logId (.setNodeState nodeId state entry.incarnation)
      { v with node := update v.node nodeId (some { entry with state := state }) }
  | retireNode (nodeId : NodeId) (entry : NodeDirectoryEntry) (config : ClusterConfig)
    (hretired : v.retired nodeId = none) (hentry : v.node nodeId = some entry)
    (hdraining : entry.state = .draining) (hcluster : v.cluster = some config)
    (hfree : ∀ group ∈ groups config.p, ∃ placed, v.placement group = some placed ∧
      placed.referencesNode nodeId = false) :
    DirectoryEffect identity v logId (.retireNode nodeId entry.incarnation)
      { v with
        retired := update v.retired nodeId (some entry.incarnation)
        node := update v.node nodeId none }

/-- The changes of voters a plan may make. -/
def LegalMove (v : MetaView) (config : ClusterConfig) (current target : Finset NodeId) :
    GroupId → Prop
  | .data _ =>
    target.card = config.r.toNat ∧ (target \ current).card = 1 ∧ (current \ target).card = 1 ∧
      config.r.toNat ≤ v.active.ncard
  | .meta =>
    MIN_META_VOTERS ≤ target.card ∧
      (((target \ current).card = 1 ∧ (current \ target).card = 1 ∧ target.card = current.card) ∨
        ((target \ current).card = 0 ∧ (current \ target).card = 1 ∧
          target.card + 1 = current.card))

/-- Changes of the placement of one group. -/
inductive PlacementEffect (v : MetaView) (logId : LogId) :
    MetaCommand → GroupId → Placement → Prop
  | seed (config : ClusterConfig) (partition : UInt16) (voters : List NodeId)
    (hcluster : v.cluster = some config) (hpartition : partition < config.p)
    (hdistinct : (ascending voters).length = voters.length)
    (hsize : (ascending voters).length = config.r.toNat)
    (hactive : ∀ voter ∈ voters, voter ∈ v.active)
    (hnew : v.placement (.data partition) = none) :
    PlacementEffect v logId (.seedPlacement (.data partition) voters) (.data partition)
      { voters := ascending voters, votersLogId := logId, move := none }
  | plan (config : ClusterConfig) (group : GroupId) (planId : UInt64) (targetVoters : List NodeId)
    (placed : Placement) (hcluster : v.cluster = some config)
    (hplaced : v.placement group = some placed) (hmove : placed.move = none)
    (hdistinct : (voterSet targetVoters).card = targetVoters.length)
    (hlegal : LegalMove v config (voterSet placed.voters) (voterSet targetVoters) group)
    (hactive : ∀ voter ∈ targetVoters, voter ∉ voterSet placed.voters → voter ∈ v.active) :
    PlacementEffect v logId (.createPlan group planId targetVoters) group
      { placed with
        move := some { planId := logId.index, targetVoters := ascending targetVoters,
                       aborting := false } }
  | markAborting (group : GroupId) (placed : Placement) (plan : MovePlan)
    (hplaced : v.placement group = some placed) (hmove : placed.move = some plan)
    (haborting : plan.aborting = false) :
    PlacementEffect v logId (.markAborting group plan.planId) group
      { placed with move := some { plan with aborting := true } }
  | finalize (group : GroupId) (placed : Placement) (plan : MovePlan)
    (observation : DataConfigObservation)
    (hplaced : v.placement group = some placed) (hmove : placed.move = some plan)
    (hgroup : observation.group = group) (hplan : observation.planId = plan.planId)
    (haborting : plan.aborting = false)
    (hobserved : voterSet observation.voterSet = voterSet plan.targetVoters) :
    PlacementEffect v logId (.finalizePlan group plan.planId observation) group
      { voters := sortUnstable plan.targetVoters, votersLogId := observation.configLogId,
        move := none }
  | abort (group : GroupId) (placed : Placement) (plan : MovePlan)
    (observation : DataConfigObservation) (voters : List NodeId)
    (hplaced : v.placement group = some placed) (hmove : placed.move = some plan)
    (hgroup : observation.group = group) (hplan : observation.planId = plan.planId)
    (haborting : plan.aborting = true)
    (hobserved : voterSet observation.voterSet = voterSet voters)
    (hvoters : voters = placed.voters ∨ voters = plan.targetVoters) :
    PlacementEffect v logId (.abortReport group plan.planId observation) group
      { voters := sortUnstable voters, votersLogId := observation.configLogId, move := none }

/-- What a command asks to build: the index, its definition and revision, and whether it updates an
index that exists. -/
def MetaCommand.creation :
    MetaCommand → Option (String × SearchIndexDefinition × UInt32 × Bool)
  | .createSearchIndex name definition =>
    some (name, definition, LEGACY_SEARCH_ENGINE_REVISION, false)
  | .createSearchIndexGeneration name definition =>
    some (name, definition, LEGACY_SEARCH_ENGINE_REVISION, true)
  | .createSearchIndexWithRevision name definition engineRevision =>
    some (name, definition, engineRevision, false)
  | .createSearchIndexGenerationWithRevision name definition engineRevision =>
    some (name, definition, engineRevision, true)
  | _ => none

/-- The record of an index without generations. -/
def freshIndex (name : String) : SearchIndexRecord where
  name := name
  active := none
  building := none
  retiring := []

/-- The record after its building generation became the active one. -/
def activated (record : SearchIndexRecord) (building : SearchIndexGeneration) : SearchIndexRecord :=
  { record with
    active := some building
    building := none
    retiring := record.active.toList.foldl retire record.retiring }

/-- The record after all its generations were dropped. -/
def dropped (record : SearchIndexRecord) : SearchIndexRecord :=
  { record with
    active := none
    building := none
    retiring := (record.active.toList ++ record.building.toList).foldl retire record.retiring }

/-- A voter of a group has reported a generation ready under the group's placement. -/
def ReadyAt (v : MetaView) (name : String) (building : SearchIndexGeneration) (group : GroupId)
    (placed : Placement) (nodeId : NodeId) : Prop :=
  ∃ ready, v.ready name building.id group nodeId = some ready ∧
    ready.votersLogId = placed.votersLogId ∧ ready.definitionHash = building.definitionHash ∧
    ready.engineRevision = building.engineRevision

/-- Changes of the search catalog and its readiness reports. -/
inductive SearchEffect (prims : Primitives) (v : MetaView) (logId : LogId) :
    MetaCommand → MetaView → Prop
  | build (cmd : MetaCommand) (name : String) (definition : SearchIndexDefinition)
    (engineRevision : UInt32) (isUpdate : Bool) (generation : SearchIndexGeneration)
    (record : SearchIndexRecord)
    (hcmd : cmd.creation = some (name, definition, engineRevision, isUpdate))
    (hcluster : v.cluster ≠ none) (hname : validateIndexName name = .ok ())
    (hgeneration :
      SearchIndexGeneration.withRevision prims logId.index engineRevision definition =
        .ok generation)
    (hrecord :
      (isUpdate = false ∧ v.searchIndex name = none ∧ v.indexNames.ncard < SEARCH_MAX_INDEXES ∧
          record = freshIndex name) ∨
        (isUpdate = true ∧ v.searchIndex name = some record ∧ record.active ≠ none ∧
          record.retiring.length < SEARCH_MAX_RETIRING_GENERATIONS))
    (hbuilding : record.building = none)
    (hvalid : SearchIndexRecord.validate prims { record with building := some generation } =
      .ok ()) :
    SearchEffect prims v logId cmd
      { v with
        searchIndex :=
          update v.searchIndex name (some { record with building := some generation }) }
  | ready (name : String) (observation : SearchIndexReady) (record : SearchIndexRecord)
    (building : SearchIndexGeneration) (partition : UInt16) (config : ClusterConfig)
    (placed : Placement) (hrecord : v.searchIndex name = some record)
    (hbuilding : record.building = some building)
    (hgeneration : observation.generation = building.id)
    (hhash : observation.definitionHash = building.definitionHash)
    (hrevision : observation.engineRevision = building.engineRevision)
    (hgroup : observation.group = .data partition) (hcluster : v.cluster = some config)
    (hpartition : partition < config.p) (hepoch : observation.projectionEpoch ≠ 0)
    (hplaced : v.placement observation.group = some placed) (hmove : placed.move = none)
    (hlog : placed.votersLogId = observation.votersLogId)
    (hvoter : observation.nodeId ∈ placed.voters)
    (hnewer : ∀ previous,
      v.ready name observation.generation observation.group observation.nodeId = some previous →
      previous ≠ observation ∧
        ¬(observation.projectionEpoch < previous.projectionEpoch ∨
          (observation.projectionEpoch = previous.projectionEpoch ∧
            observation.sourceLogId.index < previous.sourceLogId.index))) :
    SearchEffect prims v logId (.reportSearchIndexReady name observation)
      (v.setReady name observation)
  | activate (name : String) (record : SearchIndexRecord) (building : SearchIndexGeneration)
    (config : ClusterConfig) (hrecord : v.searchIndex name = some record)
    (hbuilding : record.building = some building) (hcluster : v.cluster = some config)
    (hready : ∀ partition < config.p.toNat, ∃ placed,
      v.placement (.data (UInt16.ofNat partition)) = some placed ∧ placed.move = none ∧
        ∀ nodeId ∈ placed.voters,
          ReadyAt v name building (.data (UInt16.ofNat partition)) placed nodeId)
    (hvalid : (activated record building).validate prims = .ok ()) :
    SearchEffect prims v logId (.activateSearchIndexGeneration name building.id)
      ({ v with
          searchIndex := update v.searchIndex name (some (activated record building)) }.clearReady
        name building.id)
  | drop (name : String) (record : SearchIndexRecord) (hrecord : v.searchIndex name = some record)
    (hsome : record.active ≠ none ∨ record.building ≠ none)
    (hvalid : (dropped record).validate prims = .ok ()) :
    SearchEffect prims v logId (.dropSearchIndex name)
      (record.building.elim id (fun building w ↦ w.clearReady name building.id)
        { v with searchIndex := update v.searchIndex name (some (dropped record)) })
  | finalizeDrop (name : String) (generation : SearchIndexGenerationId)
    (record : SearchIndexRecord) (hrecord : v.searchIndex name = some record)
    (hretiring : generation ∈ record.retiring) :
    SearchEffect prims v logId (.finalizeSearchIndexDrop name generation)
      { v with
        searchIndex := update v.searchIndex name
          (if record.active = none ∧ record.building = none ∧
              record.retiring.filter (· ≠ generation) = [] then
            none
          else some { record with retiring := record.retiring.filter (· ≠ generation) }) }

/-- The maintenance record of an operation that starts. -/
def begun (operationId : BitVec 128) (generation : UInt64) (participants : List NodeId) :
    MaintenanceRecord where
  operationId := operationId
  generation := generation
  participants := participants
  acknowledged := []
  recovered := []
  recoveryProcesses := []
  recoveryPolicyDigests := []
  verificationPolicyDigest := none
  verificationRecoveryEpoch := none
  stage := .preparing

/-- The maintenance record of an operation that enters verification. -/
def verifying (record : MaintenanceRecord) : MaintenanceRecord :=
  { record with
    stage := .verifying, recovered := [], recoveryProcesses := [], recoveryPolicyDigests := [],
    verificationPolicyDigest := none, verificationRecoveryEpoch := none }

/-- What a release of a verified operation must show. -/
structure Verified (v : MetaView) (record : MaintenanceRecord)
    (liveProcesses liveIncarnations : List (NodeId × UInt64)) (policyDigest : Digest32) : Prop where
  recovered : record.recovered = record.participants
  processes : record.recoveryProcesses.map Prod.fst = record.participants
  policy : record.verificationPolicyDigest = some policyDigest
  epoch : record.verificationRecoveryEpoch = some v.recoveryEpoch
  live : record.recoveryProcesses = liveProcesses
  length : liveIncarnations.length = record.participants.length
  incarnations : ∀ claim ∈ record.participants.zip liveIncarnations, claim.1 = claim.2.1 ∧
    ∃ entry, v.node claim.1 = some entry ∧ entry.state = .active ∧ entry.incarnation = claim.2.2

/-- The groups a node votes in, with their voters. -/
def MetaView.hosted (v : MetaView) (nodeId : NodeId) (candidates : List GroupId) :
    List (GroupId × List NodeId) :=
  candidates.filterMap fun group ↦ (v.placement group).bind fun placed ↦
    if placed.voters.contains nodeId then some (group, placed.voters) else none

/-- Changes of the maintenance record. -/
inductive MaintenanceEffect (prims : Primitives) (v : MetaView) :
    MetaCommand → MaintenanceRecord → Prop
  | start (operationId : BitVec 128) (generation : UInt64) (participants : List NodeId)
    (config : ClusterConfig) (hcluster : v.cluster = some config) (hid : operationId ≠ 0)
    (hgeneration : generation ≠ 0) (hsome : participants ≠ [])
    (hsorted : participants.IsChain (· < ·)) (hactive : ∀ id, id ∈ participants ↔ id ∈ v.active)
    (hgroups : ∀ group ∈ groups config.p, ∃ placed, v.placement group = some placed ∧
      placed.move = none ∧ ∀ voter ∈ placed.voters, voter ∈ v.active)
    (hsearch : ∀ name record, v.searchIndex name = some record →
      record.building = none ∧ record.retiring = [])
    (hprevious :
      (v.maintenance = none ∧ generation = 1) ∨
        ∃ previous, v.maintenance = some previous ∧ previous.stage = .released ∧
          previous.operationId ≠ operationId ∧ checkedSucc previous.generation = some generation) :
    MaintenanceEffect prims v (.beginMaintenance operationId generation participants)
      (begun operationId generation participants)
  | release (record : MaintenanceRecord) (liveProcesses liveIncarnations : List (NodeId × UInt64))
    (policyDigest : Digest32) (hrecord : v.maintenance = some record)
    (hstage : record.stage = .preparing ∨
      record.stage = .verifying ∧ Verified v record liveProcesses liveIncarnations policyDigest) :
    MaintenanceEffect prims v
      (.releaseMaintenance record.operationId record.generation liveProcesses liveIncarnations
        policyDigest) { record with stage := .released }
  | acknowledge (record : MaintenanceRecord) (nodeId : NodeId)
    (entry : NodeDirectoryEntry) (index : ℕ)
    (hrecord : v.maintenance = some record) (hstage : record.stage = .preparing)
    (hparticipant : (binarySearch nodeId record.participants).isOk)
    (hentry : v.node nodeId = some entry) (hactive : entry.state = .active)
    (hindex : binarySearch nodeId record.acknowledged = .error index) :
    MaintenanceEffect prims v
      (.acknowledgeMaintenance record.operationId record.generation nodeId entry.incarnation)
      { record with acknowledged := record.acknowledged.insertIdx index nodeId }
  | quiesce (record : MaintenanceRecord) (hrecord : v.maintenance = some record)
    (hstage : record.stage = .preparing) (hall : record.acknowledged = record.participants) :
    MaintenanceEffect prims v (.quiesceMaintenance record.operationId record.generation)
      { record with stage := .quiesced }
  | verify (record : MaintenanceRecord) (hrecord : v.maintenance = some record)
    (hstage : record.stage = .quiesced) :
    MaintenanceEffect prims v (.enterMaintenanceVerification record.operationId record.generation)
      (verifying record)
  | recover (record : MaintenanceRecord) (nodeId : NodeId) (entry : NodeDirectoryEntry)
    (processIncarnation : UInt64) (topologyDigest policyDigest : Digest32)
    (config : ClusterConfig)
    (hrecord : v.maintenance = some record) (hstage : record.stage = .verifying)
    (hparticipant : (binarySearch nodeId record.participants).isOk)
    (hentry : v.node nodeId = some entry) (hactive : entry.state = .active)
    (hprocess : processIncarnation ≠ 0) (hpolicy : policyDigest ≠ Vector.replicate 32 0)
    (hunanswered : answeredProcess record nodeId processIncarnation = none)
    (hcluster : v.cluster = some config)
    (hplaced : ∀ group ∈ groups config.p, ∃ placed, v.placement group = some placed ∧
      placed.move = none)
    (htopology :
      topologyDigest = maintenanceTopologyDigest prims (v.hosted nodeId (groups config.p))) :
    MaintenanceEffect prims v
      (.acknowledgeMaintenanceRecovery record.operationId record.generation nodeId entry.incarnation
        processIncarnation topologyDigest policyDigest v.recoveryEpoch)
      (recordRecovery record nodeId processIncarnation policyDigest v.recoveryEpoch)

/-- Every change a command can make. While a maintenance operation is open only its own record
changes. -/
inductive Effect (prims : Primitives) (identity : Option Identity) (v : MetaView) (logId : LogId) :
    MetaCommand → MetaView → Prop
  | directory (cmd : MetaCommand) (next : MetaView) (hopen : ¬v.Frozen)
    (h : DirectoryEffect identity v logId cmd next) : Effect prims identity v logId cmd next
  | placement (cmd : MetaCommand) (group : GroupId) (placed : Placement) (hopen : ¬v.Frozen)
    (h : PlacementEffect v logId cmd group placed) :
    Effect prims identity v logId cmd
      { v with placement := update v.placement group (some placed) }
  | search (cmd : MetaCommand) (next : MetaView) (hopen : ¬v.Frozen)
    (h : SearchEffect prims v logId cmd next) : Effect prims identity v logId cmd next
  | maintenance (cmd : MetaCommand) (record : MaintenanceRecord)
    (h : MaintenanceEffect prims v cmd record) :
    Effect prims identity v logId cmd { v with maintenance := some record }

/-! ### An effect changes the view -/

variable {prims : Primitives} {identity : Option Identity} {v next : MetaView} {logId : LogId}
  {cmd : MetaCommand}

/-- Assumes: the record under a name changes. The view changes. -/
theorem ne_of_node_ne (id : NodeId) (h : next.node id ≠ v.node id) : next ≠ v :=
  fun heq ↦ h (by rw [heq])

/-- A registration changes the entry: a new node has none, and a listed one has a lower
incarnation. -/
theorem Registers.ne {controlAddr bulkAddr : String} {old : Option NodeDirectoryEntry}
    {incarnation : UInt64} (h : Registers controlAddr bulkAddr old incarnation)
    {entry : NodeDirectoryEntry} (hentry : entry.incarnation = incarnation) : some entry ≠ old := by
  cases h with
  | joined => simp
  | rejoined old incarnation hnext hreason =>
    intro heq
    have hsame : entry = old := Option.some.inj heq
    have hsucc := toNat_checkedSucc hnext
    rw [← hentry, hsame] at hsucc
    omega

theorem DirectoryEffect.ne (h : DirectoryEffect identity v logId cmd next) : next ≠ v := by
  cases h with
  | clusterInit config metaVoters bound hnew =>
    intro heq
    have hcluster := congrArg MetaView.cluster heq
    rw [hnew] at hcluster
    cases hcluster
  | registerNode nodeId controlAddr bulkAddr incarnation _ _ _ _ _ _ _ _ _ _ hregisters =>
    refine ne_of_node_ne nodeId ?_
    simp only [update_self]
    exact hregisters.ne rfl
  | setNodeState nodeId state entry hentry _ _ hchange =>
    refine ne_of_node_ne nodeId ?_
    simp only [update_self, hentry]
    intro heq
    exact hchange (congrArg NodeDirectoryEntry.state (Option.some.inj heq)).symm
  | retireNode nodeId entry config _ hentry =>
    refine ne_of_node_ne nodeId ?_
    simp [hentry]

/-- A change of one placement writes a record that was not there. -/
theorem PlacementEffect.ne {group : GroupId} {placed : Placement}
    (h : PlacementEffect v logId cmd group placed) : some placed ≠ v.placement group := by
  cases h with
  | seed config partition voters _ _ _ _ _ hnew => simp [hnew]
  | plan config _ planId targetVoters old _ hplaced hmove
  | finalize _ old plan observation hplaced hmove
  | abort _ old plan observation voters hplaced hmove =>
    rw [hplaced]
    intro heq
    have := congrArg Placement.move (Option.some.inj heq)
    simp [hmove] at this
  | markAborting _ old plan hplaced hmove haborting =>
    rw [hplaced]
    intro heq
    have := congrArg Placement.move (Option.some.inj heq)
    rw [hmove] at this
    have := congrArg MovePlan.aborting (Option.some.inj this)
    simp [haborting] at this

theorem SearchEffect.ne (h : SearchEffect prims v logId cmd next) : next ≠ v := by
  have hindex : ∀ (name : String) (w : MetaView),
      w.searchIndex name ≠ v.searchIndex name → w ≠ v := fun name w hne heq ↦ hne (by rw [heq])
  cases h with
  | build _ name definition engineRevision isUpdate generation record _ _ _ _ hrecord hbuilding =>
    refine hindex name _ ?_
    simp only [update_self]
    rcases hrecord with ⟨-, hnone, -⟩ | ⟨-, hsome, -⟩
    · simp [hnone]
    · rw [hsome]
      intro heq
      have := congrArg SearchIndexRecord.building (Option.some.inj heq)
      simp [hbuilding] at this
  | ready name observation record building partition config placed _ _ _ _ _ _ _ _ _ _ _ _ _
      hnewer =>
    intro heq
    have hready : (v.setReady name observation).ready name observation.generation observation.group
        observation.nodeId = some observation := by simp [MetaView.setReady]
    rw [heq] at hready
    exact (hnewer observation hready).1 rfl
  | activate name record building config hrecord hbuilding =>
    refine hindex name _ ?_
    simp only [MetaView.clearReady, update_self, hrecord]
    intro heq
    have := congrArg SearchIndexRecord.building (Option.some.inj heq)
    simp [activated, hbuilding] at this
  | drop name record hrecord hsome =>
    have hdropped : some (dropped record) ≠ v.searchIndex name := by
      rw [hrecord]
      intro heq
      have hactive := congrArg SearchIndexRecord.active (Option.some.inj heq)
      have hbuilding := congrArg SearchIndexRecord.building (Option.some.inj heq)
      exact hsome.elim (fun h ↦ h hactive.symm) fun h ↦ h hbuilding.symm
    refine hindex name _ ?_
    cases record.building with
    | none => simpa using hdropped
    | some building => simpa [MetaView.clearReady] using hdropped
  | finalizeDrop name generation record hrecord hretiring =>
    refine hindex name _ ?_
    simp only [update_self, hrecord]
    split_ifs with hlast
    · simp
    · intro heq
      have hfilter := congrArg SearchIndexRecord.retiring (Option.some.inj heq)
      have hkept := List.filter_eq_self.mp hfilter generation hretiring
      simp at hkept

/-- A recovery report that was not answered at once changes the record. -/
theorem recordRecovery_ne {record : MaintenanceRecord} {nodeId : NodeId}
    {processIncarnation : UInt64}
    (hunanswered : answeredProcess record nodeId processIncarnation = none)
    (policyDigest : Digest32) (recoveryEpoch : BitVec 128) :
    recordRecovery record nodeId processIncarnation policyDigest recoveryEpoch ≠ record := by
  intro heq
  have hprocesses := congrArg MaintenanceRecord.recoveryProcesses heq
  have hrecovered := congrArg MaintenanceRecord.recovered heq
  simp only [recordRecovery, upsert] at hprocesses hrecovered
  unfold answeredProcess at hunanswered
  split at hunanswered
  next index hsearch =>
    rw [hsearch] at hprocesses
    exact insertIdx_ne_self (le_length_of_binarySearchBy_error hsearch) _ hprocesses
  next index hsearch =>
    rw [hsearch] at hprocesses
    dsimp only at hunanswered hprocesses
    have hprevious : record.recoveryProcesses[index].2 = processIncarnation := by
      have hget := List.getElem_set_self (l := record.recoveryProcesses) (i := index)
        (a := (nodeId, processIncarnation)) (by simp)
      simp only [hprocesses] at hget
      exact congrArg Prod.snd hget
    split_ifs at hunanswered with holder hrecorded
    cases hfound : binarySearch nodeId record.recovered with
    | ok position => exact hrecorded ⟨hprevious.symm, by rw [hfound]; rfl⟩
    | error position =>
      rw [hfound] at hrecovered
      exact insertIdx_ne_self (le_length_of_binarySearchBy_error hfound) _ hrecovered

theorem MaintenanceEffect.ne {record : MaintenanceRecord}
    (h : MaintenanceEffect prims v cmd record) : some record ≠ v.maintenance := by
  have hstage : ∀ {old new : MaintenanceRecord}, v.maintenance = some old → new.stage ≠ old.stage →
      some new ≠ v.maintenance := by
    intro old new hold hne heq
    rw [hold] at heq
    exact hne (congrArg MaintenanceRecord.stage (Option.some.inj heq))
  cases h with
  | start operationId generation participants config _ _ _ _ _ _ _ _ hprevious =>
    rcases hprevious with ⟨hnone, -⟩ | ⟨previous, hprevious, hreleased, -⟩
    · simp [hnone]
    · exact hstage hprevious (by simp [begun, hreleased])
  | release old _ _ _ hrecord hreleasable =>
    refine hstage hrecord ?_
    rcases hreleasable with hpreparing | ⟨hverifying, -⟩
    · simp [hpreparing]
    · simp [hverifying]
  | acknowledge old nodeId entry index hrecord _ _ _ _ hindex =>
    rw [hrecord]
    intro heq
    have hlist := congrArg MaintenanceRecord.acknowledged (Option.some.inj heq)
    exact insertIdx_ne_self (le_length_of_binarySearchBy_error hindex) nodeId hlist
  | quiesce old hrecord hpreparing => exact hstage hrecord (by simp [hpreparing])
  | verify old hrecord hquiesced => exact hstage hrecord (by simp [verifying, hquiesced])
  | recover old nodeId entry processIncarnation topologyDigest policyDigest config hrecord _ _ _ _ _
      _ hunanswered =>
    rw [hrecord]
    intro heq
    exact recordRecovery_ne hunanswered policyDigest v.recoveryEpoch (Option.some.inj heq)

/-- Every effect changes a record. -/
theorem Effect.ne (h : Effect prims identity v logId cmd next) : next ≠ v := by
  cases h with
  | directory _ _ heffect => exact heffect.ne
  | placement group placed _ heffect =>
    intro heq
    have hplacement := congrFun (congrArg MetaView.placement heq) group
    simp only [update_self] at hplacement
    exact heffect.ne hplacement
  | search _ _ heffect => exact heffect.ne
  | maintenance record heffect =>
    intro heq
    exact heffect.ne (congrArg MetaView.maintenance heq)

/-! ### What an effect leaves alone -/

/-- Two views with the same cluster record, directory, tombstones and placements. -/
structure SameControl (v next : MetaView) : Prop where
  cluster : next.cluster = v.cluster
  node : next.node = v.node
  retired : next.retired = v.retired
  placement : next.placement = v.placement

theorem SearchEffect.sameControl (h : SearchEffect prims v logId cmd next) :
    SameControl v next := by
  cases h with
  | drop name record =>
    cases record.building with
    | none => exact ⟨rfl, rfl, rfl, rfl⟩
    | some building => exact ⟨rfl, rfl, rfl, rfl⟩
  | _ => exact ⟨rfl, rfl, rfl, rfl⟩

/-- An effect is on the directory, on one placement, or on neither. -/
theorem Effect.control_cases (h : Effect prims identity v logId cmd next) :
    DirectoryEffect identity v logId cmd next ∨
      (∃ group placed, PlacementEffect v logId cmd group placed ∧
        next = { v with placement := update v.placement group (some placed) }) ∨
      SameControl v next := by
  cases h with
  | directory _ _ heffect => exact .inl heffect
  | placement group placed _ heffect => exact .inr (.inl ⟨group, placed, heffect, rfl⟩)
  | search _ _ heffect => exact .inr (.inr heffect.sameControl)
  | maintenance _ heffect => exact .inr (.inr ⟨rfl, rfl, rfl, rfl⟩)

/-- Once written, the cluster record does not change. -/
theorem Effect.cluster_eq {config : ClusterConfig} (h : Effect prims identity v logId cmd next)
    (hconfig : v.cluster = some config) : next.cluster = some config := by
  rcases h.control_cases with hdirectory | ⟨group, placed, -, rfl⟩ | hsame
  · cases hdirectory with
    | clusterInit _ _ _ hnew =>
      rw [hnew] at hconfig
      cases hconfig
    | _ => exact hconfig
  · exact hconfig
  · rw [hsame.cluster, hconfig]

end DalService.Meta
