import DalService.Foundation.Framing
import DalService.Foundation.Returns
import DalService.Transport.Codec

/-!
# The wire envelope

A frame is a header of 36 bytes and a payload (`transport/codec.rs`): the protocol version, the
cluster, the message type, the group as a tag and a partition, the request id and the payload
length, all little-endian. `Envelope.encode` writes it and `Envelope.decode` parses it.

The two are inverse (`frame_codec_exact`) up to one place, which `Envelope.encode` fills with zeros
and `Envelope.decode` does not look at: the partition of a frame of the meta group.
-/

set_option autoImplicit false

namespace DalService.Transport

open Foundation

/-- Why a frame is refused, before any payload is decoded. -/
inductive FrameError
  | truncated (need got : ℕ)
  | unsupportedVersion (version : UInt32)
  | badMsgType (tag : UInt8)
  | badGroupId (tag : UInt8)
  | oversized (msgType : MsgType) (limit got : ℕ)
  | trailingBytes (extra : ℕ)
  deriving DecidableEq, Repr

structure Envelope where
  clusterId : ClusterId
  msgType : MsgType
  groupId : GroupId
  requestId : UInt64
  payload : Bytes
  deriving DecidableEq, Repr

def MsgType.validatePayloadLen (msgType : MsgType) (len : ℕ) : Except FrameError Unit :=
  throwIf (msgType.maxPayload < len) (.oversized msgType msgType.maxPayload len)

/-- The tag and the partition a group has in the header. -/
def GroupId.wire : GroupId → UInt8 × UInt16
  | .meta => (0, 0)
  | .data partition => (1, partition)

namespace Envelope

/-- The frame of an envelope with `partition` in the place of the partition. -/
def frame (env : Envelope) (partition : Bytes) : Bytes :=
  leBytes 4 PROTOCOL_VERSION.toNat ++ (leBytes 16 env.clusterId.toNat ++ ([env.msgType.toU8] ++
    ([(GroupId.wire env.groupId).1] ++ (partition ++ (leBytes 8 env.requestId.toNat ++
      (leBytes 4 env.payload.length ++ env.payload))))))

def encode (env : Envelope) : Except FrameError Bytes := do
  env.msgType.validatePayloadLen env.payload.length
  .ok (env.frame (leBytes 2 (GroupId.wire env.groupId).2.toNat))

/-- `bytes[start..stop]` as a little-endian integer. -/
def field (bytes : Bytes) (start stop : ℕ) : ℕ := leNat (bytes.extract start stop)

/-- The group of a tag and a partition. -/
def groupOf (tag : UInt8) (partition : ℕ) : Except FrameError GroupId :=
  if tag = 0 then .ok .meta
  else if tag = 1 then .ok (.data (UInt16.ofNat partition))
  else .error (.badGroupId tag)

def msgTypeOf (tag : UInt8) : Except FrameError MsgType :=
  match MsgType.fromU8 tag with
  | some msgType => .ok msgType
  | none => .error (.badMsgType tag)

def decode (bytes : Bytes) : Except FrameError Envelope := do
  throwIf (bytes.length < HEADER_LEN) (.truncated HEADER_LEN bytes.length)
  let version := UInt32.ofNat (field bytes 0 4)
  throwIf (version ≠ PROTOCOL_VERSION) (.unsupportedVersion version)
  let clusterId := BitVec.ofNat 128 (field bytes 4 20)
  let msgType ← msgTypeOf (bytes.getD 20 0)
  let groupId ← groupOf (bytes.getD 21 0) (field bytes 22 24)
  let requestId := UInt64.ofNat (field bytes 24 32)
  let payloadLen := field bytes 32 36
  throwIf (msgType.maxPayload < payloadLen) (.oversized msgType msgType.maxPayload payloadLen)
  let frameEnd := HEADER_LEN + payloadLen
  throwIf (bytes.length < frameEnd) (.truncated frameEnd bytes.length)
  throwIf (frameEnd < bytes.length) (.trailingBytes (bytes.length - frameEnd))
  .ok { clusterId, msgType, groupId, requestId, payload := bytes.extract HEADER_LEN frameEnd }

/-! ### What is accepted -/

theorem toU8_of_fromU8 {tag : UInt8} {msgType : MsgType} (h : MsgType.fromU8 tag = some msgType) :
    msgType.toU8 = tag := by
  unfold MsgType.fromU8 at h
  split at h <;> cases h <;> rfl

theorem msgTypeOf_eq_ok_iff {tag : UInt8} {msgType : MsgType} :
    msgTypeOf tag = .ok msgType ↔ tag = msgType.toU8 := by
  constructor
  · intro h
    unfold msgTypeOf at h
    split at h
    · next found hfound => exact (toU8_of_fromU8 (hfound.trans (by cases h; rfl))).symm
    · cases h
  · rintro rfl
    rw [msgTypeOf, MsgType.fromU8_toU8]

theorem groupOf_eq_ok_iff {tag : UInt8} {partition : ℕ} {groupId : GroupId} :
    groupOf tag partition = .ok groupId ↔ tag = (GroupId.wire groupId).1 ∧
      (groupId = .meta ∨ groupId = .data (UInt16.ofNat partition)) := by
  unfold groupOf
  by_cases hmeta : tag = 0
  · cases groupId <;> simp [hmeta, GroupId.wire]
  · by_cases hdata : tag = 1
    · cases groupId <;> simp [hdata, GroupId.wire, eq_comm]
    · cases groupId <;> simp [hmeta, hdata, GroupId.wire]

/-- What `decode` found in an accepted frame. -/
theorem decode_eq_ok_iff {bytes : Bytes} {env : Envelope} :
    decode bytes = .ok env ↔
      (bytes.length = HEADER_LEN + field bytes 32 36 ∧
        UInt32.ofNat (field bytes 0 4) = PROTOCOL_VERSION ∧
        field bytes 32 36 ≤ env.msgType.maxPayload) ∧
      env.clusterId = BitVec.ofNat 128 (field bytes 4 20) ∧
      bytes.getD 20 0 = env.msgType.toU8 ∧
      (bytes.getD 21 0 = (GroupId.wire env.groupId).1 ∧
        (env.groupId = .meta ∨ env.groupId = .data (UInt16.ofNat (field bytes 22 24)))) ∧
      env.requestId = UInt64.ofNat (field bytes 24 32) ∧
      env.payload = bytes.extract HEADER_LEN bytes.length := by
  simp only [decode, bind_eq_ok_iff, throwIf_eq_ok_iff, msgTypeOf_eq_ok_iff, groupOf_eq_ok_iff,
    exists_const, not_lt, not_not]
  constructor
  · rintro ⟨-, hversion, msgType, htype, groupId, hgroup, hfits, hlong, hshort, h⟩
    have hlength := le_antisymm hshort hlong
    cases h
    exact ⟨⟨hlength, hversion, hfits⟩, rfl, htype, hgroup, rfl, by rw [hlength]⟩
  · rintro ⟨⟨hlength, hversion, hfits⟩, hcluster, htype, hgroup, hrequest, hpayload⟩
    refine ⟨by omega, hversion, env.msgType, htype, env.groupId, hgroup, hfits, hlength.ge,
      hlength.le, ?_⟩
    rw [← hlength, ← hcluster, ← hrequest, ← hpayload]

/-! ### Frames and their fields -/

/-- A string with a header is its fields one after the other. -/
theorem eq_fields {bytes : Bytes} (h : HEADER_LEN ≤ bytes.length) :
    bytes = bytes.extract 0 4 ++ (bytes.extract 4 20 ++ ([bytes.getD 20 0] ++ ([bytes.getD 21 0] ++
      (bytes.extract 22 24 ++ (bytes.extract 24 32 ++ (bytes.extract 32 36 ++
        bytes.extract HEADER_LEN bytes.length)))))) := by
  have hheader : 36 ≤ bytes.length := h
  have hwhole : bytes.extract 0 bytes.length = bytes := by
    rw [List.extract_eq_take_drop, List.drop_zero, Nat.sub_zero, List.take_length]
  rw [HEADER_LEN, ← extract_succ (by omega : 20 < bytes.length),
    ← extract_succ (by omega : 21 < bytes.length)]
  simp (disch := omega) only [extract_append_extract]
  exact hwhole.symm

/-- The number in a field fits the width of the field, and its rendering is the field. -/
theorem field_spec (bytes : Bytes) (start stop width : ℕ) (hstop : stop ≤ bytes.length)
    (hwidth : stop - start = width) :
    field bytes start stop < 256 ^ width ∧
      leBytes width (field bytes start stop) = bytes.extract start stop := by
  have hlength : (bytes.extract start stop).length = stop - start := length_extract hstop
  rw [← hwidth, ← hlength]
  exact ⟨leNat_lt _, leBytes_leNat _⟩

/-- Bytes that may stand for the partition of a group: of the meta group, any two. -/
def PartitionField (groupId : GroupId) (partition : Bytes) : Prop :=
  partition.length = 2 ∧
    ∀ number, groupId = .data number → partition = leBytes 2 number.toNat

theorem partitionField_wire (groupId : GroupId) :
    PartitionField groupId (leBytes 2 (GroupId.wire groupId).2.toNat) := by
  refine ⟨length_leBytes _ _, ?_⟩
  rintro number rfl
  rfl

theorem eq_frame_of_decode {bytes : Bytes} {env : Envelope} (h : decode bytes = .ok env) :
    bytes = env.frame (bytes.extract 22 24) ∧ PartitionField env.groupId (bytes.extract 22 24) ∧
      env.payload.length ≤ env.msgType.maxPayload := by
  obtain ⟨⟨hlength, hversion, hfits⟩, hcluster, htype, ⟨htag, hgroup⟩, hrequest, hpayload⟩ :=
    decode_eq_ok_iff.mp h
  have hheader : 36 ≤ bytes.length := hlength ▸ Nat.le_add_right _ _
  have hpayloadLength : env.payload.length = field bytes 32 36 := by
    rw [hpayload, length_extract le_rfl]
    omega
  refine ⟨?_, ⟨length_extract (by omega), ?_⟩, hpayloadLength ▸ hfits⟩
  · obtain ⟨hversionLt, hversionBytes⟩ := field_spec bytes 0 4 4 (by omega) rfl
    obtain ⟨hclusterLt, hclusterBytes⟩ := field_spec bytes 4 20 16 (by omega) rfl
    obtain ⟨hrequestLt, hrequestBytes⟩ := field_spec bytes 24 32 8 (by omega) rfl
    obtain ⟨-, hlengthBytes⟩ := field_spec bytes 32 36 4 hheader rfl
    rw [frame, ← hversion, UInt32.toNat_ofNat_of_lt' hversionLt, hversionBytes, hcluster,
      BitVec.toNat_ofNat, Nat.mod_eq_of_lt (b := 2 ^ 128) hclusterLt, hclusterBytes, ← htype,
      ← htag, hrequest,
      UInt64.toNat_ofNat_of_lt' hrequestLt, hrequestBytes, hpayloadLength, hlengthBytes, hpayload]
    exact eq_fields hheader
  · intro number hnumber
    obtain rfl : number = UInt16.ofNat (field bytes 22 24) := by
      rw [hnumber] at hgroup
      simpa using hgroup
    obtain ⟨hlt, hbytes⟩ := field_spec bytes 22 24 2 (by omega) rfl
    rw [UInt16.toNat_ofNat_of_lt' hlt, hbytes]

theorem length_frame (env : Envelope) {partition : Bytes} (h : partition.length = 2) :
    (env.frame partition).length = HEADER_LEN + env.payload.length := by
  simp only [frame, List.length_append, length_leBytes, List.length_singleton, h, HEADER_LEN]
  omega

theorem decode_frame (env : Envelope) {partition : Bytes}
    (hpartition : PartitionField env.groupId partition)
    (hfits : env.payload.length ≤ env.msgType.maxPayload) :
    decode (env.frame partition) = .ok env := by
  have hlength := env.length_frame hpartition.1
  have hheader : 36 ≤ (env.frame partition).length := hlength ▸ Nat.le_add_right _ _
  have hextract {start stop width : ℕ} (hstop : stop ≤ 36) (hwidth : width = stop - start) :
      width = ((env.frame partition).extract start stop).length := by
    rw [length_extract (hstop.trans hheader), hwidth]
  generalize hbytes : env.frame partition = bytes at hlength hheader hextract ⊢
  have hfields := eq_fields hheader
  nth_rewrite 1 [← hbytes, frame] at hfields
  -- Each piece of the frame is as long as the field at its place.
  obtain ⟨hversion, hfields⟩ := List.append_inj hfields
    (by rw [length_leBytes, ← hextract (by omega) rfl])
  obtain ⟨hcluster, hfields⟩ := List.append_inj hfields
    (by rw [length_leBytes, ← hextract (by omega) rfl])
  obtain ⟨htype, hfields⟩ := List.append_inj hfields rfl
  obtain ⟨htag, hfields⟩ := List.append_inj hfields rfl
  obtain ⟨hnumber, hfields⟩ := List.append_inj hfields
    (by rw [hpartition.1, ← hextract (by omega) rfl])
  obtain ⟨hrequest, hfields⟩ := List.append_inj hfields
    (by rw [length_leBytes, ← hextract (by omega) rfl])
  obtain ⟨hlengthField, hpayload⟩ := List.append_inj hfields
    (by rw [length_leBytes, ← hextract (by omega) rfl])
  have hfitsField : env.payload.length < 256 ^ 4 :=
    hfits.trans_lt (by cases env.msgType <;> decide)
  have hpayloadLen : field bytes 32 36 = env.payload.length := by
    rw [field, ← hlengthField, leNat_leBytes, Nat.mod_eq_of_lt hfitsField]
  rw [decode_eq_ok_iff, hpayloadLen]
  refine ⟨⟨hlength, ?_, hfits⟩, ?_, (List.singleton_injective htype).symm,
    ⟨(List.singleton_injective htag).symm, ?_⟩, ?_, hpayload⟩
  · rw [field, ← hversion, leNat_leBytes]
    rfl
  · rw [field, ← hcluster, leNat_leBytes, Nat.mod_eq_of_lt (b := 256 ^ 16) env.clusterId.isLt,
      BitVec.ofNat_toNat, BitVec.setWidth_eq]
  · cases hgroup : env.groupId with
    | «meta» => exact .inl rfl
    | data number =>
      rw [field, ← hnumber, hpartition.2 number hgroup, leNat_leBytes,
        Nat.mod_eq_of_lt (b := 256 ^ 2) number.toNat_lt, UInt16.ofNat_toNat]
      exact .inr rfl
  · rw [field, ← hrequest, leNat_leBytes, Nat.mod_eq_of_lt (b := 256 ^ 8) env.requestId.toNat_lt,
      UInt64.ofNat_toNat]

/-! ### The codec -/

theorem encode_eq_ok_iff {env : Envelope} {bytes : Bytes} :
    env.encode = .ok bytes ↔ env.payload.length ≤ env.msgType.maxPayload ∧
      env.frame (leBytes 2 (GroupId.wire env.groupId).2.toNat) = bytes := by
  simp only [encode, MsgType.validatePayloadLen, bind_eq_ok_iff, throwIf_eq_ok_iff, exists_const,
    not_lt, Except.ok.injEq]

end Envelope

open Envelope

/-- An envelope is written if and only if its payload is within the bound of its type, and is then
read back. A frame that is read fits its lane, and is the one that is written, but for the unread
place; with any two bytes there it is read all the same. -/
theorem frame_codec_exact :
    (∀ env : Envelope, (∃ bytes, env.encode = .ok bytes) ↔
      env.payload.length ≤ env.msgType.maxPayload) ∧
    (∀ (env : Envelope) (bytes : Bytes), env.encode = .ok bytes → decode bytes = .ok env) ∧
    (∀ (env : Envelope) (bytes : Bytes), decode bytes = .ok env →
      bytes.length ≤ env.msgType.lane.maxFrameBytes ∧ (env.encode = .ok bytes ∨
        env.groupId = .meta ∧ ∃ place, place.length = 2 ∧ bytes = env.frame place)) ∧
    (∀ (env : Envelope) (place : Bytes), env.payload.length ≤ env.msgType.maxPayload →
      env.groupId = .meta → place.length = 2 → decode (env.frame place) = .ok env) := by
  refine ⟨fun env ↦ ?_, fun env bytes h ↦ ?_, fun env bytes h ↦ ⟨?_, ?_⟩, ?_⟩
  · simp only [encode_eq_ok_iff, exists_and_left, exists_eq', and_true]
  · obtain ⟨hfits, rfl⟩ := encode_eq_ok_iff.mp h
    exact env.decode_frame (partitionField_wire env.groupId) hfits
  · obtain ⟨hframe, hpartition, hfits⟩ := eq_frame_of_decode h
    have hlane := env.msgType.maxPayload_le_maxFrameBytes
    rw [hframe, env.length_frame hpartition.1]
    omega
  · obtain ⟨hframe, hpartition, hfits⟩ := eq_frame_of_decode h
    cases hgroup : env.groupId with
    | «meta» => exact .inr ⟨rfl, _, hpartition.1, hframe⟩
    | data number =>
      rw [hpartition.2 number hgroup] at hframe
      exact .inl (encode_eq_ok_iff.mpr ⟨hfits, by rw [hframe, hgroup, GroupId.wire]⟩)
  · intro env place hfits hgroup hplace
    exact env.decode_frame ⟨hplace, by simp [hgroup]⟩ hfits

/-- A heartbeat on the meta group is read back also with bytes in the place of the partition. -/
theorem frame_codec_exact_heartbeat :
    let env : Envelope := ⟨7, .heartbeat, .meta, 41, [1, 2, 3]⟩
    decode ([7, 0, 0, 0] ++ (7 :: List.replicate 15 0) ++ [7, 0] ++ [255, 1] ++
      [41, 0, 0, 0, 0, 0, 0, 0] ++ [3, 0, 0, 0] ++ [1, 2, 3]) = .ok env := by
  exact frame_codec_exact.2.2.2 ⟨7, .heartbeat, .meta, 41, [1, 2, 3]⟩ [255, 1] (by decide) rfl rfl

end DalService.Transport
