import DalService.Foundation.Returns
import DalService.Foundation.WriteBatch
import DalService.Partition.CoalescedApply
import DalService.Transport.Codec

/-!
# Committed entries fit the apply budget

`apply_coalesced` bounds the input of a chunk, while the durability tracker bounds the batch that
the chunk writes (`GroupState.begin`). The batch repeats the key of a write, once in the user record
and once in the outbox row, and adds a sequence record, so it can be almost twice its input.

`raftBatch` is the batch `apply_raft` builds, and `chunkWrite` what a chunk hands to it
(`applyCoalescedChunk_eq_chunkWrite`). What an entry adds to the batch stays eighteen bytes below
twice its encoding (`cost_evaluateEntry`), staged writes only shrink when they collapse
(`sum_cost_intoMutations_le`), and what a batch holds besides is a few hundred bytes
(`writeBatchSize_raftBatch`). A chunk of a few entries is far below the limit, and in a larger one
the eighteen bytes of each entry pay for the rest (`writeBatchSize_le`).
`committed_entries_fit_budget` says so of every chunk that is cut.
-/

set_option autoImplicit false

namespace DalService.Partition

open Foundation Bincode Keyspace DataStateMachine Transport
open Storage (ApplyDurabilityLimits MAX_PENDING_STATE_ENTRIES MAX_PENDING_STATE_BYTES)

/-! ### The batch of an apply -/

instance : Bincode KeyPresence :=
  ⟨fun presence ↦
    match presence with
    | .absent => variant 0
    | .present version => variant 1 ++ encode version⟩

instance : Bincode MutationResult :=
  ⟨fun result ↦
    match result with
    | .applied version => variant 0 ++ encode version
    | .conditionFailed current => variant 1 ++ encode current⟩

instance : Bincode KeyRecord :=
  ⟨fun record ↦ encode record.version ++ encode record.value⟩

instance : Bincode SeqRecord :=
  ⟨fun record ↦
    encode record.highest ++ encode record.digest ++ encode record.result⟩

instance : Bincode StoredMembership :=
  ⟨fun stored ↦ encode stored.logId ++ encode stored.membership⟩

instance : Bincode Applied :=
  ⟨fun applied ↦ encode applied.logId ++ encode applied.membership⟩

/-- The bytes of a record of the state column family. -/
def DataValue.encode : DataValue → Bytes
  | .user record => Bincode.encode record
  | .seq record => Bincode.encode record
  | .epoch number => Bincode.encode number
  | .lastApplied logId => Bincode.encode logId.term ++ Bincode.encode logId.index
  | .raftApplied applied => Bincode.encode applied

/-- The ids of the state and log column families of a group. -/
structure Families where
  state : UInt32
  log : UInt32
  deriving DecidableEq, Repr

def KEY_COMMITTED : Bytes := [0x00, 'c'.toUInt8]

def stateRecord (family : UInt32) (m : StateMutation) : BatchRecord where
  family := family
  key := m.key
  value := m.value.map DataValue.encode

section Batch

variable (families : Families) (partition : UInt16)

/-- The batch of `applyRaft`: the mutations, the projection epoch where none is stored, the outbox
rows, the applied record and the committed marker. -/
def raftBatch (store : GroupStore) (mutations : List StateMutation) (appliedLogId : RaftLogId)
    (applied : Applied) : Result (List BatchRecord) := do
  let epoch := store.searchEpoch.getD 1
  let rows ← outboxRows partition epoch appliedLogId mutations
  return mutations.map (stateRecord families.state) ++
    (if store.searchEpoch.isNone then
      [{ family := 0, key := searchEpochKey (.data partition), value := some (encode epoch) }]
    else []) ++
    rows.map (fun row ↦ { family := 0, key := row, value := some [] }) ++
    [{ family := families.state, key := raftAppliedKey, value := some (encode applied) },
      { family := families.log, key := KEY_COMMITTED
        value := some (encode (some appliedLogId)) }]

end Batch

/-- What a chunk hands to `applyRaft`. -/
structure ChunkWrite where
  mutations : List StateMutation
  logId : RaftLogId
  applied : Applied
  entries : ℕ

section Chunk

variable (xxh3 : Bytes → BitVec 128) (partition : UInt16)
  (prune : ColumnFamily Unit → ColumnFamily Unit) (order : RaftLogId → HashOrder DataValue)

/-- Decide a chunk, up to its write: a chunk without entries has none. -/
def chunkWrite (store : GroupStore) (entries : List Entry) :
    Result (List ApplyResult × Option ChunkWrite) := do
  let applied ← readApplied store.state
  let (results, chunk) ← run (chunkStep xxh3)
    { membership := applied.membership, overlay := .new store.state, lastLogId := none } entries
  return (results, chunk.lastLogId.map fun logId ↦
    { mutations := chunk.overlay.intoMutations (order logId)
      logId := logId
      applied := { logId := some logId, membership := chunk.membership }
      entries := results.length })

/-- Applying a chunk is deciding it and writing what it hands over. -/
theorem applyCoalescedChunk_eq_chunkWrite (store : GroupStore) (entries : List Entry) :
    applyCoalescedChunk xxh3 partition prune order store entries = do
      let (results, write) ← chunkWrite xxh3 order store entries
      match write with
      | none => return (results, store)
      | some write =>
        return (results, ← applyRaft partition prune store write.mutations write.logId write.applied
          write.entries) := by
  unfold applyCoalescedChunk chunkWrite
  cases readApplied store.state with
  | error e => rfl
  | ok applied =>
    simp only [ok_bind]
    cases hrun : run (chunkStep xxh3)
        { membership := applied.membership, overlay := .new store.state, lastLogId := none }
        entries with
    | error e => rfl
    | ok decided =>
      obtain ⟨results, chunk⟩ := decided
      cases chunk with
      | mk membership overlay last => cases last <;> rfl

end Chunk

/-! ### What an entry writes -/

/-- The mutations a request can imply: none, its sequence record alone, or a user record with the
sequence record of a success. -/
inductive Writes (req : DataRequest) (logIndex : UInt64) : List StateMutation → Prop
  | nothing : Writes req logIndex []
  | answer (record : SeqRecord) : Writes req logIndex [.put (seqKey req.clientId) (.seq record)]
  | put {key value : Bytes} {ifVersion : Option IfVersion} {record : SeqRecord}
      (hop : req.op = .put key value ifVersion) (hresult : record.result = .applied logIndex) :
      Writes req logIndex [.put (userKey key) (.user { version := logIndex, value := value }),
        .put (seqKey req.clientId) (.seq record)]
  | delete {key : Bytes} {ifVersion : Option IfVersion} {record : SeqRecord}
      (hop : req.op = .delete key ifVersion) (hresult : record.result = .applied logIndex) :
      Writes req logIndex [.delete (userKey key), .put (seqKey req.clientId) (.seq record)]

theorem Writes.of_decide {reader : StateRead} {req : DataRequest} {logIndex : UInt64}
    {result : MutationResult} {keyMutation : Option StateMutation}
    (h : DataStateMachine.decide reader req.op logIndex = .ok (result, keyMutation))
    (record : SeqRecord) (hrecord : record.result = result) :
    Writes req logIndex
      (keyMutation.toList ++ [.put (seqKey req.clientId) (.seq record)]) := by
  unfold DataStateMachine.decide at h
  obtain ⟨current, -, h⟩ := bind_eq_ok_iff.mp h
  by_cases hholds : (!conditionHolds req.op current) = true
  · rw [if_pos hholds] at h
    cases h
    exact .answer record
  · rw [if_neg hholds] at h
    cases hop : req.op with
    | put key value ifVersion =>
      rw [hop] at h
      cases h
      exact .put hop hrecord
    | delete key ifVersion =>
      rw [hop] at h
      cases h
      cases current with
      | none => exact .answer record
      | some found => exact .delete hop hrecord

/-- Whatever is read, a request writes one of these. -/
theorem Writes.of_evaluate {xxh3 : Bytes → BitVec 128} {reader : StateRead} {req : DataRequest}
    {logIndex : UInt64} {result : ApplyResult} {mutations : List StateMutation}
    (h : evaluate xxh3 reader req logIndex = .ok (result, mutations)) :
    Writes req logIndex mutations := by
  unfold evaluate at h
  obtain ⟨expected, -, h⟩ := bind_eq_ok_iff.mp h
  split_ifs at h with hepoch hmalformed
  · cases h
    exact .nothing
  · cases h
    exact .nothing
  · obtain ⟨seq, -, h⟩ := bind_eq_ok_iff.mp h
    simp only at h
    split_ifs at h with hsame hbelow
    · cases seq with
      | none =>
        cases h
        exact .nothing
      | some record =>
        simp only at h
        split_ifs at h <;> (cases h; exact .nothing)
    · cases h
      exact .nothing
    · cases hnext : checkedSucc (highest seq) with
      | none =>
        rw [hnext] at h
        cases h
        exact .nothing
      | some next =>
        rw [hnext] at h
        simp only at h
        split_ifs at h with hgap
        · cases h
          exact .nothing
        · obtain ⟨⟨decided, keyMutation⟩, hdecide, h⟩ := bind_eq_ok_iff.mp h
          cases h
          exact .of_decide hdecide _ rfl

/-! ### Sizes -/

@[simp] theorem encodedLen_raftLogId (logId : RaftLogId) : encodedLen logId = 24 := by
  change (encode logId.leaderId.term ++ encode logId.leaderId.nodeId ++
    encode logId.index).length = _
  simp

theorem encodedLen_entry (entry : Entry) :
    encodedLen entry = 24 + encodedLen entry.payload := by
  change (encode entry.logId ++ encode entry.payload).length = _
  simp

theorem encodedLen_normal (req : DataRequest) :
    encodedLen (EntryPayload.normal req) = 4 + encodedLen req := by
  change (variant 1 ++ encode req).length = _
  simp

theorem encodedLen_request (req : DataRequest) :
    encodedLen req = 40 + encodedLen req.op := by
  change (encode req.recoveryEpoch ++ encode req.clientId ++
    encode req.sequence ++ encode req.op).length = _
  simp [ClientId, Sequence]
  omega

theorem encodedLen_option_pos {T : Type} [Bincode T] (value : Option T) :
    1 ≤ encodedLen value := by
  cases value <;> simp

theorem le_encodedLen_put (key value : Bytes) (ifVersion : Option IfVersion) :
    21 + key.length + value.length ≤ encodedLen (DataOp.put key value ifVersion) := by
  have hoption := encodedLen_option_pos ifVersion
  change _ ≤ (variant 0 ++ encode key ++ encode value ++
    encode ifVersion).length
  simp only [List.length_append, length_variant, length_encode,
    encodedLen_bytes]
  omega

theorem le_encodedLen_delete (key : Bytes) (ifVersion : Option IfVersion) :
    13 + key.length ≤ encodedLen (DataOp.delete key ifVersion) := by
  have hoption := encodedLen_option_pos ifVersion
  change _ ≤ (variant 1 ++ encode key ++ encode ifVersion).length
  simp only [List.length_append, length_variant, length_encode,
    encodedLen_bytes]
  omega

theorem encodedLen_keyRecord (record : KeyRecord) :
    encodedLen record = 16 + record.value.length := by
  change (encode record.version ++ encode record.value).length = _
  simp only [List.length_append, length_encode, encodedLen_bytes]
  rw [← Nat.add_assoc]
  rfl

theorem encodedLen_seqRecord (record : SeqRecord) :
    encodedLen record = 24 + encodedLen record.result := by
  change (encode record.highest ++ encode record.digest ++
    encode record.result).length = _
  simp [Sequence]
  omega

theorem encodedLen_applied (version : Version) :
    encodedLen (MutationResult.applied version) = 12 := by
  change (variant 0 ++ encode version).length = _
  simp [Version]

theorem encodedLen_result_le (result : MutationResult) : encodedLen result ≤ 16 := by
  cases result with
  | applied version => exact (encodedLen_applied version).trans_le (by decide)
  | conditionFailed current =>
    change (variant 1 ++ encode current).length ≤ _
    cases current with
    | absent => decide
    | present version =>
      change (variant 1 ++ (variant 1 ++ encode version)).length ≤ _
      simp [Version]

theorem length_searchPrefix_le (partition : UInt16) :
    (searchPrefix (.data partition)).length ≤ 24 := by
  have hdigits : partition.toNat.repr.utf8ByteSize ≤ 5 :=
    utf8ByteSize_repr_le (by decide) (partition.toNat_lt.trans (by decide))
  have htoken :
      (GroupId.data partition).token.utf8ByteSize = 5 + partition.toNat.repr.utf8ByteSize :=
    String.utf8ByteSize_append
  have hslash : "/".utf8ByteSize = 1 := by decide
  have hlocal : "local/search/".utf8ByteSize = 13 := by decide
  rw [searchPrefix, length_strBytes, String.utf8ByteSize_append, String.utf8ByteSize_append]
  omega

theorem length_searchEpochKey_le (partition : UInt16) :
    (searchEpochKey (.data partition)).length ≤ 29 := by
  have hprefix := length_searchPrefix_le partition
  rw [searchEpochKey, List.length_append]
  have hname : (strBytes "epoch").length = 5 := by decide
  omega

theorem length_searchOutboxPrefix_le (partition : UInt16) :
    (searchOutboxPrefix (.data partition)).length ≤ 31 := by
  have hprefix := length_searchPrefix_le partition
  rw [searchOutboxPrefix, List.length_append]
  have hname : (strBytes "outbox/").length = 7 := by decide
  omega

/-! ### What a mutation adds to a batch -/

section Cost

variable (families : Families) (partition : UInt16)

/-- The size of the outbox row of a user key. -/
def rowSize (key : Bytes) : ℕ :=
  2 + BatchRecord.prefixedLen ((searchOutboxPrefix (.data partition)).length + 36 + key.length)

/-- What a mutation adds to the batch: its record, and the outbox row of a user key. -/
def cost (m : StateMutation) : ℕ :=
  (stateRecord families.state m).size + ((stripUserTag m.key).map (rowSize partition)).getD 0

theorem size_row {epoch : UInt64} {logId : RaftLogId} {key row : Bytes}
    (h : encodeOutboxKey (.data partition) epoch logId key = .ok row) :
    BatchRecord.size { family := 0, key := row, value := some [] } = rowSize partition key := by
  unfold encodeOutboxKey at h
  split_ifs at h
  cases h
  have hlength : (searchOutboxPrefix (.data partition) ++ u64Be epoch ++ u64Be logId.index ++
      u64Be logId.leaderId.term ++ u64Be logId.leaderId.nodeId ++
      u32Be (UInt32.ofNat key.length) ++ key).length =
      (searchOutboxPrefix (.data partition)).length + 36 + key.length := by
    simp only [List.length_append, length_u64Be, length_u32Be]
  rw [BatchRecord.size, hlength, rowSize]
  simp [BatchRecord.prefixedLen, varint32Len]
  omega

/-- Assumes: user keys that fit an outbox row. The rows of a batch exist, and their sizes are what
its mutations add for them. -/
theorem sum_size_rows {mutations : List StateMutation} (hfits : fits mutations = true)
    (epoch : UInt64) (logId : RaftLogId) :
    ∃ rows, outboxRows partition epoch logId mutations = .ok rows ∧
      ((rows.map fun row ↦ BatchRecord.size { family := 0, key := row, value := some [] })).sum =
        (mutations.map fun m ↦ ((stripUserTag m.key).map (rowSize partition)).getD 0).sum := by
  induction mutations with
  | nil => exact ⟨[], rfl, rfl⟩
  | cons m rest ih =>
    have hcons : fits (m :: rest) =
        ((stripUserTag m.key).all (·.length < 2 ^ 32) && fits rest) := rfl
    rw [hcons, Bool.and_eq_true] at hfits
    obtain ⟨rows, hrows, hsum⟩ := ih hfits.2
    unfold outboxRows at hrows ⊢
    cases hstrip : stripUserTag m.key with
    | none => exact ⟨rows, by simpa [hstrip] using hrows, by simpa [hstrip] using hsum⟩
    | some key =>
      have hkey : key.length < 2 ^ 32 := by simpa [hstrip] using hfits.1
      have hrow : ∃ row, encodeOutboxKey (.data partition) epoch logId key = .ok row :=
        ⟨_, if_pos hkey⟩
      obtain ⟨row, hrow⟩ := hrow
      refine ⟨row :: rows, ?_, ?_⟩
      · simp only [List.filterMap_cons, hstrip, List.mapM_cons, hrow, hrows, ok_bind]
        rfl
      · rw [List.map_cons, List.sum_cons, List.map_cons, List.sum_cons, hsum, hstrip,
          size_row partition hrow]
        rfl

/-! ### Entries within the limits of their messages -/

theorem maxPayload_clientOp : MsgType.clientOp.maxPayload = 1114112 := rfl

/-- At most two voter sets and eight nodes, none with an address. -/
structure Membership.Bounded (membership : Membership) : Prop where
  sets : membership.configs.length ≤ 2
  voters : ∀ config ∈ membership.configs, config.length ≤ 8
  nodes : membership.nodes.length ≤ 8
  addresses : ∀ node ∈ membership.nodes, node.2 = ""

/-- A client request fits its message, and a membership is bounded. -/
def Entry.Bounded (entry : Entry) : Prop :=
  match entry.payload with
  | .blank => True
  | .normal req => encodedLen req ≤ MsgType.clientOp.maxPayload
  | .membership membership => membership.Bounded

theorem Membership.Bounded.encodedLen_le {membership : Membership} (h : membership.Bounded) :
    encodedLen membership ≤ 288 := by
  have hconfigs : encodedLen membership.configs ≤ 152 := by
    have hconfig : ∀ config ∈ membership.configs, encodedLen config ≤ 72 := by
      intro config hconfig
      have hvoter : ∀ voter ∈ config, encodedLen voter ≤ 8 := fun voter _ ↦
        (encodedLen_uInt64 voter).le
      have hvoters := encodedLen_list_le hvoter
      have hcount := h.voters config hconfig
      omega
    have hlist := encodedLen_list_le hconfig
    have hsets := h.sets
    omega
  have hnodes : encodedLen membership.nodes ≤ 136 := by
    have hnode : ∀ node ∈ membership.nodes, encodedLen node ≤ 16 := by
      intro node hnode
      rw [encodedLen_prod, h.addresses node hnode]
      exact (Nat.add_le_add (encodedLen_uInt64 node.1).le
        (encodedLen_string "").le).trans (by decide)
    have hlist := encodedLen_list_le hnode
    have hcount := h.nodes
    omega
  change (encode membership.configs ++ encode membership.nodes).length ≤ _
  rw [List.length_append]
  exact Nat.add_le_add hconfigs hnodes

theorem Entry.Bounded.encodedLen_le {entry : Entry} (h : entry.Bounded) :
    encodedLen entry ≤ MsgType.clientOp.maxPayload + 28 := by
  rw [encodedLen_entry]
  unfold Entry.Bounded at h
  cases hpayload : entry.payload with
  | blank => decide
  | normal req =>
    rw [hpayload] at h
    rw [encodedLen_normal]
    simp only at h
    omega
  | membership membership =>
    rw [hpayload] at h
    have hsize := Membership.Bounded.encodedLen_le h
    change 24 + (variant 2 ++ encode membership).length ≤ _
    simp only [List.length_append, length_variant, length_encode,
      maxPayload_clientOp]
    omega

/-- The record of the applied position and membership. -/
theorem encodedLen_appliedRecord_le {applied : Applied}
    (h : applied.membership.membership.Bounded) : encodedLen applied ≤ 338 := by
  have hposition : ∀ logId : Option RaftLogId, encodedLen logId ≤ 25 := by
    intro logId
    cases logId <;> simp
  have hmembership := h.encodedLen_le
  have hset := hposition applied.membership.logId
  have hat := hposition applied.logId
  change (encode applied.logId ++ (encode applied.membership.logId ++
    encode applied.membership.membership)).length ≤ _
  simp only [List.length_append, length_encode]
  omega

theorem size_seqRecord (clientId : ClientId) (record : SeqRecord) :
    (stateRecord families.state (.put (seqKey clientId) (.seq record))).size =
      44 + BatchRecord.familyLen families.state + encodedLen record.result := by
  have hresult := encodedLen_result_le record.result
  have hkey : (seqKey clientId).length = 17 := by simp [seqKey]
  have hvalue : (DataValue.encode (.seq record)).length =
      24 + encodedLen record.result := encodedLen_seqRecord record
  change 1 + BatchRecord.familyLen families.state +
    BatchRecord.prefixedLen (seqKey clientId).length +
    BatchRecord.prefixedLen (DataValue.encode (.seq record)).length = _
  rw [hkey, hvalue, BatchRecord.prefixedLen, BatchRecord.prefixedLen,
    varint32Len_eq_one (by decide), varint32Len_eq_one (by omega)]
  omega

theorem cost_seqRecord (clientId : ClientId) (record : SeqRecord) :
    cost families partition (.put (seqKey clientId) (.seq record)) =
      44 + BatchRecord.familyLen families.state + encodedLen record.result :=
  size_seqRecord families clientId record

/-- Assumes: a key that fits a request. Its outbox row repeats it. -/
theorem rowSize_le {key : Bytes} (hkey : key.length ≤ MsgType.clientOp.maxPayload) :
    rowSize partition key ≤ 72 + key.length := by
  have hprefix := length_searchOutboxPrefix_le partition
  have hvarint : varint32Len
      ((searchOutboxPrefix (.data partition)).length + 36 + key.length) ≤ 3 := by
    refine varint32Len_le_three ?_
    simp only [maxPayload_clientOp] at hkey
    omega
  rw [rowSize, BatchRecord.prefixedLen]
  omega

theorem length_value_prefix_le (value : Bytes) :
    varint32Len (16 + value.length) ≤ 1 + value.length := by
  have hfive := varint32Len_le_five (16 + value.length)
  by_cases hshort : 16 + value.length < 2 ^ 7
  · rw [varint32Len_eq_one hshort]
    omega
  · omega

/-- Assumes: a key that fits a request. -/
theorem cost_put_le {key : Bytes} (value : Bytes) (version : Version)
    (hkey : key.length ≤ MsgType.clientOp.maxPayload) :
    cost families partition (.put (userKey key) (.user { version := version, value := value })) ≤
      94 + BatchRecord.familyLen families.state + 2 * key.length + 2 * value.length := by
  have hrow := rowSize_le partition hkey
  have hvarint : varint32Len (key.length + 1) ≤ 3 := by
    refine varint32Len_le_three ?_
    simp only [maxPayload_clientOp] at hkey
    omega
  have hprefix := length_value_prefix_le value
  have hvalue : (DataValue.encode (.user { version := version, value := value })).length =
      16 + value.length := encodedLen_keyRecord _
  change 1 + BatchRecord.familyLen families.state + BatchRecord.prefixedLen (key.length + 1) +
    BatchRecord.prefixedLen (DataValue.encode
      (.user { version := version, value := value })).length +
    rowSize partition key ≤ _
  rw [hvalue, BatchRecord.prefixedLen, BatchRecord.prefixedLen]
  omega

/-- Assumes: a key that fits a request. -/
theorem cost_delete_le {key : Bytes} (hkey : key.length ≤ MsgType.clientOp.maxPayload) :
    cost families partition (.delete (userKey key)) ≤
      77 + BatchRecord.familyLen families.state + 2 * key.length := by
  have hrow := rowSize_le partition hkey
  have hvarint : varint32Len (key.length + 1) ≤ 3 := by
    refine varint32Len_le_three ?_
    simp only [maxPayload_clientOp] at hkey
    omega
  change 1 + BatchRecord.familyLen families.state + BatchRecord.prefixedLen (key.length + 1) + 0 +
    rowSize partition key ≤ _
  rw [BatchRecord.prefixedLen]
  omega

/-- Assumes: a request that fits its message. So does its key. -/
theorem key_length_le {req : DataRequest} (h : encodedLen req ≤ MsgType.clientOp.maxPayload) :
    req.op.key.length ≤ MsgType.clientOp.maxPayload := by
  have hlength := encodedLen_request req
  cases hop : req.op with
  | put key value ifVersion =>
    have hop_le := le_encodedLen_put key value ifVersion
    rw [hop] at hlength
    change key.length ≤ _
    omega
  | delete key ifVersion =>
    have hop_le := le_encodedLen_delete key ifVersion
    rw [hop] at hlength
    change key.length ≤ _
    omega

/-- Assumes: a request that fits its message. What it adds to the batch is eighteen bytes or more
below twice its entry, and its key fits an outbox row. -/
theorem Writes.cost_le {req : DataRequest} {logIndex : UInt64} {mutations : List StateMutation}
    (h : Writes req logIndex mutations) (hreq : encodedLen req ≤ MsgType.clientOp.maxPayload) :
    (mutations.map (cost families partition)).sum + 18 ≤ 2 * (28 + encodedLen req) ∧
      fits mutations = true := by
  have hfamily := BatchRecord.familyLen_le families.state
  have hlength := encodedLen_request req
  cases h with
  | nothing => exact ⟨by simp; omega, rfl⟩
  | answer record =>
    have hresult := encodedLen_result_le record.result
    refine ⟨?_, rfl⟩
    simp only [List.map_cons, List.map_nil, List.sum_cons, List.sum_nil, cost_seqRecord]
    omega
  | @put key value ifVersion record hop hresult =>
    have hop_le := le_encodedLen_put key value ifVersion
    rw [← hop] at hop_le
    have hkey : key.length ≤ MsgType.clientOp.maxPayload := by omega
    have hput := cost_put_le families partition value logIndex hkey
    refine ⟨?_, ?_⟩
    · simp only [List.map_cons, List.map_nil, List.sum_cons, List.sum_nil, cost_seqRecord, hresult,
        encodedLen_applied]
      omega
    · simp only [maxPayload_clientOp] at hkey
      have hshort : key.length < 4294967296 := by omega
      simp [fits, hshort]
  | @delete key ifVersion record hop hresult =>
    have hop_le := le_encodedLen_delete key ifVersion
    rw [← hop] at hop_le
    have hkey : key.length ≤ MsgType.clientOp.maxPayload := by omega
    have hdelete := cost_delete_le families partition hkey
    refine ⟨?_, ?_⟩
    · simp only [List.map_cons, List.map_nil, List.sum_cons, List.sum_nil, cost_seqRecord, hresult,
        encodedLen_applied]
      omega
    · simp only [maxPayload_clientOp] at hkey
      have hshort : key.length < 4294967296 := by omega
      simp [fits, hshort]

/-- Assumes: a bounded entry, and a bounded membership before it. -/
theorem cost_evaluateEntry {xxh3 : Bytes → BitVec 128} {reader : StateRead}
    {membership next : StoredMembership} {entry : Entry} {result : ApplyResult}
    {mutations : List StateMutation} (hentry : entry.Bounded)
    (hmembership : membership.membership.Bounded)
    (h : evaluateEntry xxh3 reader membership entry = .ok (result, mutations, next)) :
    (mutations.map (cost families partition)).sum + 18 ≤ 2 * encodedLen entry ∧
      fits mutations = true ∧ next.membership.Bounded := by
  have hlength := encodedLen_entry entry
  unfold evaluateEntry at h
  unfold Entry.Bounded at hentry
  cases hpayload : entry.payload with
  | blank =>
    rw [hpayload] at h
    cases h
    exact ⟨by simp; omega, rfl, hmembership⟩
  | membership changed =>
    rw [hpayload] at h hentry
    cases h
    exact ⟨by simp; omega, rfl, hentry⟩
  | normal req =>
    rw [hpayload] at h hentry
    obtain ⟨⟨decided, writes⟩, hevaluate, h⟩ := bind_eq_ok_iff.mp h
    cases h
    obtain ⟨hcost, hfits⟩ := (Writes.of_evaluate hevaluate).cost_le families partition hentry
    rw [hpayload, encodedLen_normal] at hlength
    exact ⟨by omega, hfits, hmembership⟩

/-- Collapsing what is staged adds no cost. -/
theorem sum_cost_intoMutations_le (hash : HashOrder DataValue) (base : DataState)
    (staged : List StateMutation) :
    ((((Overlay.new base).stage staged).intoMutations hash).map (cost families partition)).sum ≤
      (staged.map (cost families partition)).sum := by
  obtain ⟨kept, hperm, hsub⟩ := Overlay.subperm_intoMutations hash base staged
  rw [← (hperm.map (cost families partition)).sum_eq]
  exact (hsub.map _).sum_le_sum fun _ _ ↦ Nat.zero_le _

/-- What a chunk has staged after some of its entries. -/
structure Staged (base : DataState) (entries : List Entry) (results : List ApplyResult)
    (chunk : ChunkState) : Prop where
  overlay : ∃ staged, chunk.overlay = (Overlay.new base).stage staged ∧ fits staged = true ∧
    (staged.map (cost families partition)).sum + 18 * entries.length ≤
      2 * (entries.map encodedLen).sum
  membership : chunk.membership.membership.Bounded
  results : results.length = entries.length

variable {families partition}

/-- Assumes: a bounded entry. Its step stages its own mutations after the earlier ones. -/
theorem Staged.step {xxh3 : Bytes → BitVec 128} {base : DataState} {done : List Entry}
    {results : List ApplyResult} {mid next : ChunkState} {entry : Entry} {result : ApplyResult}
    (h : Staged families partition base done results mid) (hentry : entry.Bounded)
    (hstep : chunkStep xxh3 mid entry = .ok (result, next)) :
    Staged families partition base (done ++ [entry]) (results ++ [result]) next := by
  obtain ⟨⟨staged, hoverlay, hfits, hcost⟩, hmembership, hresults⟩ := h
  obtain ⟨⟨answered, writes, changed⟩, hevaluate, hnext⟩ := bind_eq_ok_iff.mp hstep
  cases hnext
  obtain ⟨hadded, hfitting, hbounded⟩ :=
    cost_evaluateEntry families partition hentry hmembership hevaluate
  refine ⟨⟨staged ++ writes, ?_, ?_, ?_⟩, hbounded, by simp [hresults]⟩
  · rw [Overlay.stage_append, ← hoverlay]
  · rw [fits_append, hfits, hfitting]
    rfl
  · simp only [List.map_append, List.sum_append, List.map_cons, List.map_nil, List.sum_cons,
      List.sum_nil, List.length_append, List.length_singleton]
    omega

/-- Assumes: bounded entries. -/
theorem Staged.run {xxh3 : Bytes → BitVec 128} {base : DataState} {done entries : List Entry}
    {before results : List ApplyResult} {mid chunk : ChunkState}
    (h : Staged families partition base done before mid)
    (hentries : ∀ entry ∈ entries, entry.Bounded)
    (hrun : Foundation.run (chunkStep xxh3) mid entries = .ok (results, chunk)) :
    Staged families partition base (done ++ entries) (before ++ results) chunk := by
  induction entries generalizing done before mid results with
  | nil =>
    cases hrun
    rwa [List.append_nil, List.append_nil]
  | cons entry rest ih =>
    obtain ⟨result, next, tail, hstep, hrest, rfl⟩ := run_cons_eq_ok hrun
    have htail := ih (h.step (hentries entry List.mem_cons_self) hstep)
      (fun other hother ↦ hentries other (List.mem_cons_of_mem entry hother)) hrest
    rwa [List.append_assoc, List.append_assoc] at htail

variable (families partition)

theorem size_epochRecord_le (epoch : UInt64) :
    BatchRecord.size { family := 0, key := searchEpochKey (.data partition)
                       value := some (encode epoch) } ≤ 40 := by
  have hkey := length_searchEpochKey_le partition
  change 1 + 0 + BatchRecord.prefixedLen (searchEpochKey (.data partition)).length +
    BatchRecord.prefixedLen (encodedLen epoch) ≤ _
  rw [encodedLen_uInt64, BatchRecord.prefixedLen, BatchRecord.prefixedLen,
    varint32Len_eq_one (by omega), varint32Len_eq_one (by decide)]
  omega

/-- Assumes: a bounded membership. -/
theorem size_appliedRecord_le {applied : Applied} (h : applied.membership.membership.Bounded) :
    BatchRecord.size { family := families.state, key := raftAppliedKey
                       value := some (encode applied) } ≤ 349 := by
  have hfamily := BatchRecord.familyLen_le families.state
  have hlength := encodedLen_appliedRecord_le h
  have hvarint : varint32Len (encodedLen applied) ≤ 2 := varint32Len_le_two (by omega)
  change 1 + BatchRecord.familyLen families.state + BatchRecord.prefixedLen 2 +
    BatchRecord.prefixedLen (encodedLen applied) ≤ _
  rw [BatchRecord.prefixedLen, BatchRecord.prefixedLen, varint32Len_eq_one (by decide)]
  omega

theorem size_committedRecord_le (logId : RaftLogId) :
    BatchRecord.size { family := families.log, key := KEY_COMMITTED
                       value := some (encode (some logId)) } ≤ 35 := by
  have hfamily := BatchRecord.familyLen_le families.log
  change 1 + BatchRecord.familyLen families.log + BatchRecord.prefixedLen 2 +
    BatchRecord.prefixedLen (encodedLen (some logId)) ≤ _
  rw [encodedLen_some, encodedLen_raftLogId, BatchRecord.prefixedLen,
    BatchRecord.prefixedLen, varint32Len_eq_one (by decide), varint32Len_eq_one (by decide)]
  omega

/-- Assumes: user keys that fit an outbox row, and a bounded membership. The batch exists; besides
what its mutations add, it holds a few hundred bytes. -/
theorem writeBatchSize_raftBatch {mutations : List StateMutation} {applied : Applied}
    (hfits : fits mutations = true) (happlied : applied.membership.membership.Bounded)
    (store : GroupStore) (logId : RaftLogId) :
    ∃ batch, raftBatch families partition store mutations logId applied = .ok batch ∧
      writeBatchSize batch ≤ 436 + (mutations.map (cost families partition)).sum := by
  obtain ⟨rows, hrows, hsizes⟩ := sum_size_rows partition hfits (store.searchEpoch.getD 1) logId
  refine ⟨_, by rw [raftBatch, hrows]; rfl, ?_⟩
  have hepoch : ((if store.searchEpoch.isNone then
      [{ family := 0, key := searchEpochKey (.data partition)
         value := some (encode (store.searchEpoch.getD 1)) }]
    else []).map BatchRecord.size).sum ≤ 40 := by
    split_ifs
    · rw [List.map_singleton, List.sum_singleton]
      exact size_epochRecord_le partition _
    · exact Nat.zero_le 40
  have hposition := size_appliedRecord_le families happlied
  have hcommitted := size_committedRecord_le families logId
  have hcosts : (mutations.map (cost families partition)).sum =
      ((mutations.map (stateRecord families.state)).map BatchRecord.size).sum +
        (mutations.map fun m ↦ ((stripUserTag m.key).map (rowSize partition)).getD 0).sum := by
    rw [List.map_map]
    exact List.sum_map_add
  rw [writeBatchSize, List.map_append, List.map_append, List.map_append, List.sum_append,
    List.sum_append, List.sum_append, List.map_cons, List.map_singleton, List.sum_cons,
    List.sum_singleton, List.map_map (l := rows)]
  change 12 + (_ + _ + (rows.map fun row ↦
    BatchRecord.size { family := 0, key := row, value := some [] }).sum + _) ≤ _
  omega

/-! ### Chunks -/

/-- The membership a store holds is bounded. -/
def GroupStore.Bounded (store : GroupStore) : Prop :=
  ∀ applied, readApplied store.state = .ok applied → applied.membership.membership.Bounded

variable (xxh3 : Bytes → BitVec 128) (prune : ColumnFamily Unit → ColumnFamily Unit)
  (order : RaftLogId → HashOrder DataValue)

/-- Assumes: a bounded store and bounded entries. The write of a chunk adds what its entries
staged. -/
theorem chunkWrite_staged {store : GroupStore} {chunk : List Entry} {results : List ApplyResult}
    {write : ChunkWrite} (hstore : store.Bounded) (hchunk : ∀ entry ∈ chunk, entry.Bounded)
    (h : chunkWrite xxh3 order store chunk = .ok (results, some write)) :
    write.entries = chunk.length ∧ fits write.mutations = true ∧
      write.applied.membership.membership.Bounded ∧
      (write.mutations.map (cost families partition)).sum + 18 * chunk.length ≤
        2 * (chunk.map encodedLen).sum := by
  obtain ⟨applied, hread, h⟩ := bind_eq_ok_iff.mp h
  obtain ⟨⟨answers, state⟩, hrun, h⟩ := bind_eq_ok_iff.mp h
  have hstart : Staged families partition store.state [] []
      { membership := applied.membership, overlay := .new store.state, lastLogId := none } :=
    ⟨⟨[], rfl, rfl, Nat.le_refl 0⟩, hstore applied hread, rfl⟩
  obtain ⟨⟨staged, hoverlay, hfits, hcost⟩, hmembership, hanswers⟩ := hstart.run hchunk hrun
  obtain ⟨hresults, hwrite⟩ := Prod.mk.inj (Except.ok.inj h)
  obtain ⟨logId, -, rfl⟩ := Option.map_eq_some_iff.mp hwrite
  simp only [List.nil_append] at hanswers hcost
  have hcollapsed := sum_cost_intoMutations_le families partition (order logId) store.state staged
  refine ⟨hanswers, ?_, hmembership, ?_⟩
  · simp only [hoverlay]
    rwa [fits_intoMutations]
  · simp only [hoverlay]
    omega

/-- Assumes: a chunk within the input limits, of bounded entries. Its batch is within the limit of
the tracker: up to 24 entries are far below it, and more make up for the fixed records of the
batch. -/
theorem writeBatchSize_le {store : GroupStore} {chunk : List Entry} {results : List ApplyResult}
    {write : ChunkWrite} (hstore : store.Bounded) (hchunk : ∀ entry ∈ chunk, entry.Bounded)
    (hinput : (chunk.map encodedLen).sum ≤ APPLY_CHUNK_INPUT_BYTES)
    (h : chunkWrite xxh3 order store chunk = .ok (results, some write)) :
    ∃ batch, raftBatch families partition store write.mutations write.logId write.applied =
      .ok batch ∧ writeBatchSize batch ≤ MAX_PENDING_STATE_BYTES := by
  obtain ⟨-, hfits, hmembership, hcost⟩ :=
    chunkWrite_staged families partition xxh3 order hstore hchunk h
  obtain ⟨batch, hbatch, hsize⟩ :=
    writeBatchSize_raftBatch families partition hfits hmembership store write.logId
  refine ⟨batch, hbatch, ?_⟩
  have hlimit : APPLY_CHUNK_INPUT_BYTES = 33554432 := rfl
  have hbudget : MAX_PENDING_STATE_BYTES = 67108864 := rfl
  have heach : (chunk.map encodedLen).sum ≤ chunk.length * 1114140 := by
    have hsum := List.sum_le_card_nsmul (chunk.map encodedLen) 1114140 fun size hmem ↦ by
      obtain ⟨entry, hentry, rfl⟩ := List.mem_map.mp hmem
      exact (hchunk entry hentry).encodedLen_le
    rwa [List.length_map, smul_eq_mul] at hsum
  by_cases hfew : chunk.length ≤ 24
  · have hsmall := Nat.mul_le_mul_right 1114140 hfew
    omega
  · omega

/-- Assumes: a bounded store and bounded entries. Applying a chunk leaves a bounded store. -/
theorem GroupStore.Bounded.applyCoalescedChunk {store next : GroupStore} {chunk : List Entry}
    {results : List ApplyResult} (hstore : store.Bounded)
    (hchunk : ∀ entry ∈ chunk, entry.Bounded)
    (h : Partition.applyCoalescedChunk xxh3 partition prune order store chunk =
      .ok (results, next)) : next.Bounded := by
  rw [applyCoalescedChunk_eq_chunkWrite] at h
  obtain ⟨⟨answers, write⟩, hwrite, h⟩ := bind_eq_ok_iff.mp h
  cases write with
  | none =>
    cases h
    exact hstore
  | some write =>
    obtain ⟨written, happly, h⟩ := bind_eq_ok_iff.mp h
    cases h
    obtain ⟨rows, -, hwritten⟩ := bind_eq_ok_iff.mp happly
    cases hwritten
    have hbounded :=
      (chunkWrite_staged ⟨0, 0⟩ partition xxh3 order hstore hchunk hwrite).2.2.1
    intro applied hread
    rw [readApplied_writeAll] at hread
    cases hread
    exact hbounded

/-! ### Cutting entries into chunks -/

/-- The open chunk is within the input limits, and its size is counted right. -/
structure CutState.Fits (cut : CutState) : Prop where
  store : cut.store.Bounded
  chunk : ∀ entry ∈ cut.chunk, entry.Bounded
  entries : cut.chunk.length ≤ APPLY_CHUNK_ENTRIES
  counted : cut.chunkBytes = (cut.chunk.map encodedLen).sum
  input : cut.chunkBytes ≤ APPLY_CHUNK_INPUT_BYTES

/-- Assumes: room for the entry in the open chunk, or an empty one. -/
theorem CutState.Fits.push {cut : CutState} (h : cut.Fits) {entry : Entry} (hentry : entry.Bounded)
    (hroom : cut.chunk = [] ∨ (cut.chunk.length < APPLY_CHUNK_ENTRIES ∧
      saturatingAdd cut.chunkBytes (encodedLen entry) ≤ APPLY_CHUNK_INPUT_BYTES)) :
    CutState.Fits { cut with
      chunk := cut.chunk ++ [entry]
      chunkBytes := saturatingAdd cut.chunkBytes (encodedLen entry) } := by
  have hsize := hentry.encodedLen_le
  have hcounted := h.counted
  have hinput := h.input
  have hpayload := maxPayload_clientOp
  have hlimit : APPLY_CHUNK_INPUT_BYTES = 33554432 := rfl
  have hcount : APPLY_CHUNK_ENTRIES = 2048 := rfl
  have hsum : saturatingAdd cut.chunkBytes (encodedLen entry) =
      cut.chunkBytes + encodedLen entry := by
    rw [saturatingAdd]
    omega
  refine ⟨h.store, ?_, ?_, ?_, ?_⟩
  · intro other hother
    rcases List.mem_append.mp hother with hold | hnew
    · exact h.chunk other hold
    · rw [List.mem_singleton.mp hnew]
      exact hentry
  · rw [List.length_append, List.length_singleton]
    rcases hroom with hempty | ⟨hroom, -⟩
    · rw [hempty, hcount]
      decide
    · omega
  · rw [hsum, hcounted, List.map_append, List.sum_append, List.map_singleton, List.sum_singleton]
  · rcases hroom with hempty | ⟨-, hroom⟩
    · rw [hempty, List.map_nil, List.sum_nil] at hcounted
      change saturatingAdd cut.chunkBytes (encodedLen entry) ≤ _
      omega
    · exact hroom

/-- Assumes: a bounded entry. A step leaves an open chunk within the limits. -/
theorem CutState.Fits.step {cut next : CutState} (h : cut.Fits) {entry : Entry}
    (hentry : entry.Bounded) (hstep : cutStep xxh3 partition prune order cut entry = .ok next) :
    next.Fits := by
  cases hexceeds : cut.wouldExceed (encodedLen entry) with
  | false =>
    have hroom : cut.chunk = [] ∨ (cut.chunk.length < APPLY_CHUNK_ENTRIES ∧
        saturatingAdd cut.chunkBytes (encodedLen entry) ≤ APPLY_CHUNK_INPUT_BYTES) := by
      unfold CutState.wouldExceed at hexceeds
      simp only [Bool.and_eq_false_iff, Bool.not_eq_false', List.isEmpty_iff, Bool.or_eq_false_iff,
        decide_eq_false_iff_not, not_le, not_lt] at hexceeds
      exact hexceeds
    unfold cutStep at hstep
    simp only [hexceeds] at hstep
    cases hstep
    exact h.push hentry hroom
  | true =>
    rw [cutStep_of_full xxh3 partition prune order hexceeds] at hstep
    cases happly : applyCoalescedChunk xxh3 partition prune order cut.store cut.chunk with
    | error e =>
      rw [happly] at hstep
      cases hstep
    | ok applied =>
      rw [happly] at hstep
      cases hstep
      have hopened : CutState.Fits
          { results := cut.results ++ applied.1, store := applied.2, chunk := [],
            chunkBytes := 0 } :=
        ⟨h.store.applyCoalescedChunk partition xxh3 prune order h.chunk happly, by simp,
          Nat.zero_le _, rfl, Nat.zero_le _⟩
      exact hopened.push hentry (.inl rfl)

/-- Assumes: bounded entries. The open chunk stays within the limits over any of them. -/
theorem CutState.Fits.foldlM {cut last : CutState} (h : cut.Fits) {entries : List Entry}
    (hentries : ∀ entry ∈ entries, entry.Bounded)
    (hrun : entries.foldlM (cutStep xxh3 partition prune order) cut = .ok last) : last.Fits := by
  induction entries generalizing cut with
  | nil =>
    cases hrun
    exact h
  | cons entry rest ih =>
    rw [List.foldlM_cons] at hrun
    obtain ⟨next, hstep, hrest⟩ := bind_eq_ok_iff.mp hrun
    exact ih (h.step partition xxh3 prune order (hentries entry List.mem_cons_self) hstep)
      (fun other hother ↦ hentries other (List.mem_cons_of_mem entry hother)) hrest

/-- Assumes: a write within the limits, and a tracker that is neither failed nor closing. The
tracker never refuses the write, and admits it once nothing is pending. -/
theorem begin_of_fits {tracker : Storage.GroupState} {entries bytes : ℕ} (logId : RaftLogId)
    (hfailed : tracker.failed = none) (hclosing : tracker.closing = false)
    (hentries : entries ≤ MAX_PENDING_STATE_ENTRIES) (hbytes : bytes ≤ MAX_PENDING_STATE_BYTES) :
    (∃ admitted, tracker.begin .default logId entries bytes = .ok admitted) ∧
      (tracker.pendingEntries = 0 → tracker.pendingBytes = 0 →
        ∃ admitted, tracker.begin .default logId entries bytes = .ok (some admitted)) := by
  have hwithin : ¬(ApplyDurabilityLimits.default.maxPendingEntries < entries ∨
      ApplyDurabilityLimits.default.maxPendingBytes < bytes) :=
    not_or.mpr ⟨Nat.not_lt.mpr hentries, Nat.not_lt.mpr hbytes⟩
  unfold Storage.GroupState.begin
  simp only [hfailed, hclosing, Bool.false_eq_true, if_false, if_neg hwithin]
  refine ⟨?_, ?_⟩
  · split_ifs <;> exact ⟨_, rfl⟩
  · intro hidle hempty
    have hroom : tracker.pendingEntries + entries ≤
        ApplyDurabilityLimits.default.maxPendingEntries ∧
        tracker.pendingBytes + bytes ≤ ApplyDurabilityLimits.default.maxPendingBytes := by
      rw [hidle, hempty, Nat.zero_add, Nat.zero_add]
      exact ⟨hentries, hbytes⟩
    exact ⟨_, if_pos hroom⟩

/-- Assumes: entries whose client requests fit a `ClientOp` message and whose memberships are
bounded, over a store whose membership is bounded. Wherever `apply_coalesced` stands, the open chunk
has at most `MAX_PENDING_STATE_ENTRIES` entries, and writing it takes a batch of at most
`MAX_PENDING_STATE_BYTES`, which no working tracker refuses and an idle one admits. From records of
the types of their keys, every entry is applied: there is one result for each. -/
theorem committed_entries_fit_budget {store : GroupStore} {entries : List Entry}
    (hstore : store.Bounded) (hentries : ∀ entry ∈ entries, entry.Bounded) :
    (∀ before after cut, entries = before ++ after →
      before.foldlM (cutStep xxh3 partition prune order)
        { results := [], store := store, chunk := [], chunkBytes := 0 } = .ok cut →
      cut.chunk.length ≤ MAX_PENDING_STATE_ENTRIES ∧
      ∀ results write, chunkWrite xxh3 order cut.store cut.chunk = .ok (results, some write) →
        write.entries = cut.chunk.length ∧
        ∃ batch, raftBatch families partition cut.store write.mutations write.logId write.applied =
            .ok batch ∧ writeBatchSize batch ≤ MAX_PENDING_STATE_BYTES ∧
          ∀ tracker : Storage.GroupState, tracker.failed = none → tracker.closing = false →
            (∃ admitted, tracker.begin .default write.logId write.entries (writeBatchSize batch) =
              .ok admitted) ∧
            (tracker.pendingEntries = 0 → tracker.pendingBytes = 0 →
              ∃ admitted, tracker.begin .default write.logId write.entries (writeBatchSize batch) =
                .ok (some admitted))) ∧
    (WellTyped store.state →
      ∃ results last, applyCoalesced xxh3 partition prune order store entries =
        .ok (results, last) ∧ results.length = entries.length) := by
  refine ⟨?_, ?_⟩
  · rintro before after cut rfl hrun
    have hstart : CutState.Fits { results := [], store := store, chunk := [], chunkBytes := 0 } :=
      ⟨hstore, by simp, Nat.zero_le _, rfl, Nat.zero_le _⟩
    have hcut := hstart.foldlM partition xxh3 prune order
      (fun entry hentry ↦ hentries entry (List.mem_append_left after hentry)) hrun
    have hcount : cut.chunk.length ≤ MAX_PENDING_STATE_ENTRIES :=
      hcut.entries.trans (by decide)
    refine ⟨hcount, fun results write hwrite ↦ ?_⟩
    have hlength := (chunkWrite_staged families partition xxh3 order hcut.store hcut.chunk hwrite).1
    obtain ⟨batch, hbatch, hsize⟩ := writeBatchSize_le families partition xxh3 order hcut.store
      hcut.chunk (hcut.counted ▸ hcut.input) hwrite
    refine ⟨hlength, batch, hbatch, hsize, fun tracker hfailed hclosing ↦ ?_⟩
    exact begin_of_fits write.logId hfailed hclosing (hlength.trans_le hcount) hsize
  · intro htyped
    have hkeys : ∀ entry ∈ entries, ∀ req, entry.payload = .normal req →
        req.op.key.length < 2 ^ 32 := by
      intro entry hentry req hpayload
      have hbounded := hentries entry hentry
      rw [Entry.Bounded, hpayload] at hbounded
      exact (key_length_le hbounded).trans_lt (by decide)
    have hspec := applyCoalesced_eq_applyAtOnce xxh3 partition prune order htyped entries
    have hok : applyAtOnce xxh3 store entries = .ok _ := if_pos (fits_replay xxh3 hkeys _ _)
    rw [hok] at hspec
    cases happly : applyCoalesced xxh3 partition prune order store entries with
    | error e =>
      rw [happly] at hspec
      cases hspec
    | ok answered =>
      rw [happly] at hspec
      have hresults := congrArg Prod.fst (Except.ok.inj hspec)
      refine ⟨answered.1, answered.2, rfl, (congrArg List.length hresults).trans ?_⟩
      exact length_results_replay xxh3 _ _ _

end Cost

/-- A membership of three nodes and a write, applied to an empty store. -/
theorem committed_entries_fit_budget_two_entries :
    ∃ results last, applyCoalesced (fun _ ↦ 0) 0 id (fun _ ↦ .ascending _) ⟨∅, none, none, ∅⟩
      [⟨⟨⟨1, 1⟩, 1⟩, .membership ⟨[[1, 2, 3]], [(1, ""), (2, ""), (3, "")]⟩⟩,
        ⟨⟨⟨1, 1⟩, 2⟩, .normal ⟨0, 7, 1, .put [107] [1] none⟩⟩] = .ok (results, last) ∧
      results.length = 2 := by
  refine (committed_entries_fit_budget ⟨1, 2⟩ 0 (fun _ ↦ 0) id (fun _ ↦ .ascending _) ?_ ?_).2
    WellTyped.empty
  · intro applied hread
    cases hread
    exact ⟨by decide, by decide, by decide, by decide⟩
  · intro entry hentry
    rcases List.mem_pair.mp hentry with rfl | rfl
    · exact ⟨by decide, by decide, by decide, by decide⟩
    · change encodedLen _ ≤ _
      decide

end DalService.Partition
