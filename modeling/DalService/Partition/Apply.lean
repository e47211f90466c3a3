import DalService.Foundation.Run
import DalService.Partition.Outcome
import DalService.Storage.ApplyDurability

/-!
# Applying committed entries

The Raft state machine of a data group, from `sm.rs` and `storage/batch.rs`. A committed entry is
blank, a client request, or a new membership. `applyRaft` writes the mutations of one or more
entries with the applied position and membership, the committed marker of the log, and one
search-outbox row per user key written, in one batch; pruning the outbox is a parameter (`prune`),
since it touches the outbox rows alone.

`applyPerEntry` writes after every entry. `applyCoalesced` cuts the entries into bounded chunks, and
`applyCoalescedChunk` decides a chunk against an overlay and writes once, with one mutation per
staged key in the order the hash map of that chunk hands them out (`order`).
-/

set_option autoImplicit false

namespace DalService.Partition

open Foundation Keyspace DataStateMachine
open Storage (MAX_PENDING_STATE_ENTRIES MAX_PENDING_STATE_BYTES)

/-! ### Entries -/

/-- openraft's `EntryPayload`. -/
inductive EntryPayload
  | blank
  | normal (request : DataRequest)
  | membership (membership : Membership)
  deriving DecidableEq, Repr

/-- openraft's `Entry`. -/
structure Entry where
  logId : RaftLogId
  payload : EntryPayload
  deriving DecidableEq, Repr

instance : Bincode RaftLogId :=
  ⟨fun logId ↦ Bincode.encode logId.leaderId.term ++ Bincode.encode logId.leaderId.nodeId ++
    Bincode.encode logId.index⟩

instance : Bincode Membership :=
  ⟨fun membership ↦ Bincode.encode membership.configs ++ Bincode.encode membership.nodes⟩

instance : Bincode EntryPayload :=
  ⟨fun payload ↦
    match payload with
    | .blank => Bincode.variant 0
    | .normal request => Bincode.variant 1 ++ Bincode.encode request
    | .membership membership => Bincode.variant 2 ++ Bincode.encode membership⟩

instance : Bincode Entry :=
  ⟨fun entry ↦ Bincode.encode entry.logId ++ Bincode.encode entry.payload⟩

/-! ### The storage of a group -/

/-- What a node stores for a data group: the state column family, the committed marker of the log,
the projection epoch of the search outbox, and the rows of the outbox. -/
structure GroupStore where
  state : DataState
  committed : Option RaftLogId
  searchEpoch : Option UInt64
  outbox : ColumnFamily Unit

/-- The applied position and membership: nothing, and the default membership, before the first
entry. -/
def readApplied (cf : DataState) : Result Applied := do
  return (← readState Applied cf.reader raftAppliedKey).getD
    { logId := none, membership := StoredMembership.default }

/-- A batch that ends with the applied record leaves that record. -/
theorem readApplied_writeAll (cf : DataState) (mutations : List StateMutation) (applied : Applied) :
    readApplied (cf.writeAll (mutations ++ [.put raftAppliedKey (.raftApplied applied)])) =
      .ok applied := by
  have hread : (cf.writeAll
      (mutations ++ [.put raftAppliedKey (.raftApplied applied)]))[raftAppliedKey]? =
      some (.raftApplied applied) := by
    rw [getElem?_writeAll, lastWrite_append]
    simp [lastWrite]
  simp only [readApplied, readState, DataState.reader, hread, Record.decode]
  rfl

def SEARCH_OUTBOX_PRUNE_APPLIES : ℕ := 4096

/-- The applied index passed a multiple of `SEARCH_OUTBOX_PRUNE_APPLIES`. -/
def crossedSearchPruneBoundary (appliedIndex : UInt64) (appliedEntries : ℕ) : Bool :=
  (appliedIndex.toNat - appliedEntries) / SEARCH_OUTBOX_PRUNE_APPLIES <
    appliedIndex.toNat / SEARCH_OUTBOX_PRUNE_APPLIES

def encodeOutboxKey (group : GroupId) (epoch : UInt64) (sourceLogId : RaftLogId) (key : Bytes) :
    Result Bytes :=
  if key.length < 2 ^ 32 then
    .ok (searchOutboxPrefix group ++ u64Be epoch ++ u64Be sourceLogId.index ++
      u64Be sourceLogId.leaderId.term ++ u64Be sourceLogId.leaderId.nodeId ++
      u32Be (UInt32.ofNat key.length) ++ key)
  else .error (.search "user key is too large for search outbox")

section Apply

variable (xxh3 : Bytes → BitVec 128) (partition : UInt16)
  (prune : ColumnFamily Unit → ColumnFamily Unit) (order : RaftLogId → HashOrder DataValue)

/-- The outbox rows of a batch: one for each user key it writes. -/
def outboxRows (epoch : UInt64) (appliedLogId : RaftLogId) (mutations : List StateMutation) :
    Result (List Bytes) :=
  (mutations.filterMap fun m ↦ stripUserTag m.key).mapM
    (encodeOutboxKey (.data partition) epoch appliedLogId)

/-- The atomic apply: business mutations, outbox rows, the applied record and the committed marker
in one batch, then pruning at a boundary. -/
def applyRaft (store : GroupStore) (mutations : List StateMutation) (appliedLogId : RaftLogId)
    (applied : Applied) (appliedEntries : ℕ) : Result GroupStore := do
  let epoch := store.searchEpoch.getD 1
  let rows ← outboxRows partition epoch appliedLogId mutations
  let outbox := store.outbox.writeAll (rows.map fun row ↦ .put row ())
  return {
    state := store.state.writeAll (mutations ++ [.put raftAppliedKey (.raftApplied applied)])
    committed := some appliedLogId
    searchEpoch := some epoch
    outbox :=
      if crossedSearchPruneBoundary appliedLogId.index appliedEntries then prune outbox
      else outbox }

/-- The result of one entry, the mutations it implies and the membership after it. -/
def evaluateEntry (reader : StateRead) (membership : StoredMembership) (entry : Entry) :
    Result (ApplyResult × List StateMutation × StoredMembership) :=
  match entry.payload with
  | .blank => .ok (.noOp, [], membership)
  | .normal req => do
    let (result, mutations) ← evaluate xxh3 reader req entry.logId.index
    return (result, mutations, membership)
  | .membership m => .ok (.noOp, [], { logId := some entry.logId, membership := m })

/-! ### One write per entry -/

def perEntryStep (s : StoredMembership × GroupStore) (entry : Entry) :
    Result (ApplyResult × StoredMembership × GroupStore) := do
  let (result, muts, membership) ← evaluateEntry xxh3 s.2.state.reader s.1 entry
  let applied : Applied := { logId := some entry.logId, membership := membership }
  let store ← applyRaft partition prune s.2 muts entry.logId applied 1
  return (result, membership, store)

def applyPerEntry (store : GroupStore) (entries : List Entry) :
    Result (List ApplyResult × GroupStore) := do
  let applied ← readApplied store.state
  let (results, _, last) ←
    run (perEntryStep xxh3 partition prune) (applied.membership, store) entries
  return (results, last)

/-! ### One write per chunk -/

/-- The entries of a chunk decided so far. -/
structure ChunkState where
  membership : StoredMembership
  overlay : Overlay DataValue
  lastLogId : Option RaftLogId

def chunkStep (s : ChunkState) (entry : Entry) : Result (ApplyResult × ChunkState) := do
  let (result, muts, membership) ← evaluateEntry xxh3 s.overlay.read s.membership entry
  return (result,
    { membership := membership, overlay := s.overlay.stage muts, lastLogId := some entry.logId })

/-- Apply one chunk: decide its entries against an overlay, then write once. -/
def applyCoalescedChunk (store : GroupStore) (entries : List Entry) :
    Result (List ApplyResult × GroupStore) := do
  let applied ← readApplied store.state
  let (results, chunk) ← run (chunkStep xxh3)
    { membership := applied.membership, overlay := .new store.state, lastLogId := none } entries
  match chunk.lastLogId with
  | none => return (results, store)
  | some logId =>
    let applied : Applied := { logId := some logId, membership := chunk.membership }
    let mutations := chunk.overlay.intoMutations (order logId)
    let next ← applyRaft partition prune store mutations logId applied results.length
    return (results, next)

def APPLY_CHUNK_INPUT_BYTES : ℕ := MAX_PENDING_STATE_BYTES / 2

def APPLY_CHUNK_ENTRIES : ℕ := MAX_PENDING_STATE_ENTRIES / 2

/-- `usize::saturating_add`. -/
def saturatingAdd (first second : ℕ) : ℕ := min (first + second) (2 ^ 64 - 1)

/-- Where `applyCoalesced` stands between two entries: what the chunks applied so far answered and
left, and the open chunk. -/
structure CutState where
  results : List ApplyResult
  store : GroupStore
  chunk : List Entry
  chunkBytes : ℕ

/-- The open chunk has no room for an entry. -/
def CutState.wouldExceed (cut : CutState) (entryBytes : ℕ) : Bool :=
  !cut.chunk.isEmpty && (APPLY_CHUNK_ENTRIES ≤ cut.chunk.length ||
    APPLY_CHUNK_INPUT_BYTES < saturatingAdd cut.chunkBytes entryBytes)

/-- Apply the open chunk. -/
def CutState.flush (cut : CutState) : Result CutState := do
  let (results, store) ← applyCoalescedChunk xxh3 partition prune order cut.store cut.chunk
  return { results := cut.results ++ results, store := store, chunk := [], chunkBytes := 0 }

def cutStep (cut : CutState) (entry : Entry) : Result CutState := do
  let entryBytes := Bincode.encodedLen entry
  let cut ← if cut.wouldExceed entryBytes then cut.flush xxh3 partition prune order else pure cut
  return { cut with
    chunk := cut.chunk ++ [entry], chunkBytes := saturatingAdd cut.chunkBytes entryBytes }

def applyCoalesced (store : GroupStore) (entries : List Entry) :
    Result (List ApplyResult × GroupStore) := do
  let cut ← entries.foldlM (cutStep xxh3 partition prune order)
    { results := [], store := store, chunk := [], chunkBytes := 0 }
  let cut ← if !cut.chunk.isEmpty then cut.flush xxh3 partition prune order else pure cut
  return (cut.results, cut.store)

end Apply

end DalService.Partition
