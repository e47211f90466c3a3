import DalService.Search.Definition

/-!
# Message types

The types a frame may carry (`transport/codec.rs`), the tag each has on the wire, the bound on its
payload, the lane it rides and whether it belongs to the control path of the nodes. A type is one of
the tags (`MsgType.fromU8_toU8`), and a frame of any type fits the frames of its lane
(`MsgType.maxPayload_le_maxFrameBytes`).
-/

set_option autoImplicit false

namespace DalService.Transport

open Search

def HEADER_LEN : ℕ := 36

def KIB : ℕ := 1024

def MIB : ℕ := 1024 * KIB

def MAX_CONTROL_FRAME_BYTES : ℕ := 64 * MIB + HEADER_LEN

def MAX_BULK_FRAME_BYTES : ℕ := 256 * MIB + HEADER_LEN

/-- The two endpoints of a node: the control path, and the one large transfers ride. -/
inductive Lane
  | control
  | bulk
  deriving DecidableEq, Repr

def Lane.maxFrameBytes : Lane → ℕ
  | .control => MAX_CONTROL_FRAME_BYTES
  | .bulk => MAX_BULK_FRAME_BYTES

inductive MsgType
  | clientOp
  | raftAppend
  | raftVote
  | raftSnapshot
  | migrationChunk
  | metaQuery
  | redirect
  | heartbeat
  | becomeLearner
  | dataConfigObservation
  | joinRequest
  | leaveRequest
  | abortPlanRequest
  | bootstrapStatus
  | placementQuery
  | directoryQuery
  | dataRecoveryFence
  | searchOp
  | searchPrepare
  | searchExecute
  | searchIndexStatus
  | searchCatalogQuery
  | searchIndexAdmin
  | transferLeadership
  | maintenanceQuery
  | maintenanceAck
  | maintenanceStatus
  | maintenanceRecoveryAck
  | maintenanceRelease
  | maintenanceBegin
  | maintenanceQuiesce
  | maintenanceVerify
  | sequenceInspect
  deriving DecidableEq, Repr

namespace MsgType

/-- The tag of a type on the wire. -/
def toU8 : MsgType → UInt8
  | clientOp => 0
  | raftAppend => 1
  | raftVote => 2
  | raftSnapshot => 3
  | migrationChunk => 4
  | metaQuery => 5
  | redirect => 6
  | heartbeat => 7
  | becomeLearner => 8
  | dataConfigObservation => 9
  | joinRequest => 10
  | leaveRequest => 11
  | abortPlanRequest => 12
  | bootstrapStatus => 13
  | placementQuery => 14
  | directoryQuery => 15
  | dataRecoveryFence => 16
  | searchOp => 17
  | searchPrepare => 18
  | searchExecute => 19
  | searchIndexStatus => 20
  | searchCatalogQuery => 21
  | searchIndexAdmin => 22
  | transferLeadership => 23
  | maintenanceQuery => 24
  | maintenanceAck => 25
  | maintenanceStatus => 26
  | maintenanceRecoveryAck => 27
  | maintenanceRelease => 28
  | maintenanceBegin => 29
  | maintenanceQuiesce => 30
  | maintenanceVerify => 31
  | sequenceInspect => 32

def fromU8 : UInt8 → Option MsgType
  | 0 => some clientOp
  | 1 => some raftAppend
  | 2 => some raftVote
  | 3 => some raftSnapshot
  | 4 => some migrationChunk
  | 5 => some metaQuery
  | 6 => some redirect
  | 7 => some heartbeat
  | 8 => some becomeLearner
  | 9 => some dataConfigObservation
  | 10 => some joinRequest
  | 11 => some leaveRequest
  | 12 => some abortPlanRequest
  | 13 => some bootstrapStatus
  | 14 => some placementQuery
  | 15 => some directoryQuery
  | 16 => some dataRecoveryFence
  | 17 => some searchOp
  | 18 => some searchPrepare
  | 19 => some searchExecute
  | 20 => some searchIndexStatus
  | 21 => some searchCatalogQuery
  | 22 => some searchIndexAdmin
  | 23 => some transferLeadership
  | 24 => some maintenanceQuery
  | 25 => some maintenanceAck
  | 26 => some maintenanceStatus
  | 27 => some maintenanceRecoveryAck
  | 28 => some maintenanceRelease
  | 29 => some maintenanceBegin
  | 30 => some maintenanceQuiesce
  | 31 => some maintenanceVerify
  | 32 => some sequenceInspect
  | _ => none

/-- The largest payload a frame of this type may carry. -/
def maxPayload : MsgType → ℕ
  | clientOp => MAX_VALUE_BYTES + 64 * KIB
  | raftAppend => 64 * MIB
  | raftVote => 4 * KIB
  | raftSnapshot | migrationChunk => 256 * MIB
  | metaQuery => MAX_ROUTING_PAYLOAD_BYTES
  | redirect => 64 * KIB
  | heartbeat => 4 * KIB
  | becomeLearner => 4 * KIB
  | dataConfigObservation => 4 * KIB
  | joinRequest | leaveRequest | abortPlanRequest | bootstrapStatus | placementQuery => 4 * KIB
  | directoryQuery => 4 * MIB
  | dataRecoveryFence => 4 * KIB
  | searchOp | searchExecute => SEARCH_MAX_FRAME_BYTES
  | searchPrepare | searchIndexStatus => 64 * KIB
  | searchCatalogQuery => SEARCH_MAX_CATALOG_FRAME_BYTES
  | searchIndexAdmin => SEARCH_MAX_DEFINITION_BYTES + 4 * KIB
  | transferLeadership => 4 * KIB
  | maintenanceQuery | maintenanceStatus => 64 * KIB
  | maintenanceAck | maintenanceRecoveryAck | maintenanceRelease | maintenanceBegin
  | maintenanceQuiesce | maintenanceVerify => 4 * KIB
  | sequenceInspect => 4 * KIB

def isBulk : MsgType → Bool
  | raftSnapshot | migrationChunk => true
  | _ => false

/-- Whether the type is dispatched on the control path of the nodes, never by the client gateway. -/
def isPeerControl : MsgType → Bool
  | raftAppend | raftVote | raftSnapshot | migrationChunk | heartbeat | becomeLearner
  | dataConfigObservation | joinRequest | leaveRequest | abortPlanRequest | bootstrapStatus
  | placementQuery | directoryQuery | dataRecoveryFence | searchPrepare | searchExecute
  | searchIndexStatus | searchIndexAdmin | transferLeadership | maintenanceQuery | maintenanceAck
  | maintenanceStatus | maintenanceRecoveryAck | maintenanceRelease | maintenanceBegin
  | maintenanceQuiesce | maintenanceVerify | sequenceInspect => true
  | _ => false

theorem fromU8_toU8 (msgType : MsgType) : fromU8 msgType.toU8 = some msgType := by
  cases msgType <;> rfl

/-- The lane a type rides. -/
def lane (msgType : MsgType) : Lane := if msgType.isBulk then .bulk else .control

/-- The largest frame of any type is one its lane takes. -/
theorem maxPayload_le_maxFrameBytes (msgType : MsgType) :
    msgType.maxPayload + HEADER_LEN ≤ msgType.lane.maxFrameBytes := by
  cases msgType <;> decide

end MsgType

end DalService.Transport
