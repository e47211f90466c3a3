import DalService.Search.Definition

/-!
# Commands of the meta group

The replicated commands of the meta group, and the outcomes of applying one: the command changed
state, it was accepted without changing state, or it was refused for a reason.
-/

set_option autoImplicit false

namespace DalService.Meta

open DalService.Search

inductive MetaCommand
  | clusterInit (config : ClusterConfig) (metaVoters : List NodeId)
  | registerNode (nodeId : NodeId) (controlAddr bulkAddr : String)
  | seedPlacement (group : GroupId) (voters : List NodeId)
  | setNodeState (nodeId : NodeId) (state : NodeState) (incarnation : UInt64)
  | createPlan (group : GroupId) (planId : UInt64) (targetVoters : List NodeId)
  | markAborting (group : GroupId) (planId : UInt64)
  | finalizePlan (group : GroupId) (planId : UInt64) (observation : DataConfigObservation)
  | abortReport (group : GroupId) (planId : UInt64) (observation : DataConfigObservation)
  | createSearchIndex (name : String) (definition : SearchIndexDefinition)
  | createSearchIndexGeneration (name : String) (definition : SearchIndexDefinition)
  | reportSearchIndexReady (name : String) (observation : SearchIndexReady)
  | activateSearchIndexGeneration (name : String) (generation : SearchIndexGenerationId)
  | dropSearchIndex (name : String)
  | finalizeSearchIndexDrop (name : String) (generation : SearchIndexGenerationId)
  | createSearchIndexWithRevision (name : String) (definition : SearchIndexDefinition)
      (engineRevision : UInt32)
  | createSearchIndexGenerationWithRevision (name : String) (definition : SearchIndexDefinition)
      (engineRevision : UInt32)
  | beginMaintenance (operationId : BitVec 128) (generation : UInt64) (participants : List NodeId)
  | releaseMaintenance (operationId : BitVec 128) (generation : UInt64)
      (liveProcesses liveIncarnations : List (NodeId × UInt64)) (policyDigest : Digest32)
  | acknowledgeMaintenance (operationId : BitVec 128) (generation : UInt64) (nodeId : NodeId)
      (incarnation : UInt64)
  | quiesceMaintenance (operationId : BitVec 128) (generation : UInt64)
  | enterMaintenanceVerification (operationId : BitVec 128) (generation : UInt64)
  | acknowledgeMaintenanceRecovery (operationId : BitVec 128) (generation : UInt64)
      (nodeId : NodeId) (incarnation processIncarnation : UInt64)
      (topologyDigest policyDigest : Digest32) (recoveryEpoch : BitVec 128)
  | retireNode (nodeId : NodeId) (incarnation : UInt64)
  deriving DecidableEq, Repr

/-- The commands of a maintenance operation, the only ones decided while one is open. -/
def MetaCommand.isMaintenance : MetaCommand → Bool
  | .beginMaintenance .. => true
  | .releaseMaintenance .. => true
  | .acknowledgeMaintenance .. => true
  | .quiesceMaintenance .. => true
  | .enterMaintenanceVerification .. => true
  | .acknowledgeMaintenanceRecovery .. => true
  | _ => false

/-- Why a meta command was refused. -/
inductive MetaReject
  | clusterNotInitialized
  | clusterConflict
  | invalidConfig (message : String)
  | noPlacement
  | placementConflict
  | planExists
  | noPlan
  | planIdMismatch
  | illegalVoterChange (message : String)
  | ineligibleTarget
  | observationMismatch
  | planAborting
  | notAborting
  | unknownNode
  | staleIncarnation
  | seedMetaForbidden
  | searchIndexExists
  | searchIndexNotFound
  | searchGenerationExists
  | searchGenerationMismatch
  | searchGenerationNotReady
  | maintenanceActive
  | maintenanceBusy
  | maintenanceMismatch
  | maintenanceTopologyMismatch
  | maintenancePolicyMismatch
  | maintenanceLivenessMismatch
  | staleMaintenanceProcess
  deriving DecidableEq, Repr

/-- The outcome of applying one committed meta command. -/
inductive MetaApplyResult
  | applied
  | noOp
  | rejected (reason : MetaReject)
  deriving DecidableEq, Repr

end DalService.Meta
