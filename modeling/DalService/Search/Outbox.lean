import DalService.Partition.Apply
import DalService.Search.Definition

/-!
# The search outbox and its consumers

A data group journals the user keys of each batch in an outbox, and the local generations of its
search indexes consume the journal. A consumer's record says how far it has come: the checkpoint of
its last commit, or, while it is built, the floor of the source snapshot it is built from. Rows that
every consumer has passed are pruned, and a consumer that holds back too much is released: it is
told to rebuild and is no longer waited for.

`pruneSearchOutbox_keeps` says what a prune cannot delete: a row of the current epoch that some
consumer which holds retention has not passed.
-/

set_option autoImplicit false

namespace DalService.Search

open Foundation Keyspace DalService.Partition

/-! ### Rows -/

structure SearchOutboxEntry where
  epoch : UInt64
  sourceLogId : RaftLogId
  userKey : Bytes
  deriving DecidableEq, Repr

/-- The bytes before the user key of a row: four integers and the length of the key. -/
def HEADER : ℕ := 8 * 4 + 4

def decodeOutboxKey (group : GroupId) (key : Bytes) : Result SearchOutboxEntry := do
  let rowPrefix := searchOutboxPrefix group
  throwIf (¬rowPrefix <+: key) (.corrupt "search outbox" "key has the wrong group prefix")
  let bytes := key.drop rowPrefix.length
  throwIf (bytes.length < HEADER) (.corrupt "search outbox" "key is shorter than its fixed header")
  let readU64 (start : ℕ) : UInt64 := UInt64.ofNat (beNat ((bytes.drop start).take 8))
  let keyLen := beNat ((bytes.drop 32).take 4)
  throwIf (bytes.length ≠ HEADER + keyLen) (.corrupt "search outbox"
    ("encoded user-key length is " ++ toString keyLen ++ ", actual is " ++
      toString (bytes.length - HEADER)))
  return { epoch := readU64 0
           sourceLogId := ⟨⟨readU64 16, readU64 24⟩, readU64 8⟩
           userKey := bytes.drop HEADER }

/-- A row reads as what it was written for. -/
theorem decodeOutboxKey_of_encode {group : GroupId} {epoch : UInt64} {sourceLogId : RaftLogId}
    {key row : Bytes} (h : encodeOutboxKey group epoch sourceLogId key = .ok row) :
    decodeOutboxKey group row = .ok ⟨epoch, sourceLogId, key⟩ := by
  rw [encodeOutboxKey] at h
  split_ifs at h with hlen
  have hkeyLen : (UInt32.ofNat key.length).toNat = key.length := by
    rw [UInt32.toNat_ofNat']
    exact Nat.mod_eq_of_lt hlen
  generalize hrest : u64Be epoch ++ (u64Be sourceLogId.index ++ (u64Be sourceLogId.leaderId.term ++
    (u64Be sourceLogId.leaderId.nodeId ++ (u32Be (UInt32.ofNat key.length) ++ key)))) = rest
  have hrow : row = searchOutboxPrefix group ++ rest := by
    rw [← hrest, ← Except.ok.inj h]
    simp only [List.append_assoc]
  have hheader : rest.length = HEADER + key.length := by
    rw [← hrest]
    simp only [List.length_append, length_u64Be, length_u32Be, HEADER]
    omega
  have hnil : ∀ (value : UInt64) (start : ℕ), 8 ≤ start → (u64Be value).drop start = [] :=
    fun value start hstart ↦ List.drop_eq_nil_of_le (by rwa [length_u64Be])
  have hlast : beNat ((rest.drop 32).take 4) = key.length := by
    have hbytes : (rest.drop 32).take 4 = u32Be (UInt32.ofNat key.length) := by
      rw [← hrest]
      simp [List.drop_append, hnil]
    rw [hbytes, beNat_u32Be, hkeyLen]
  have hread : ∀ start value, (rest.drop start).take 8 = u64Be value →
      UInt64.ofNat (beNat ((rest.drop start).take 8)) = value := by
    intro start value hbytes
    rw [hbytes, beNat_u64Be, UInt64.ofNat_toNat]
  simp only [decodeOutboxKey, hrow, List.prefix_append, not_true_eq_false, List.drop_left, hlast,
    hheader, throwIf]
  rw [hread 0 epoch, hread 16 sourceLogId.leaderId.term, hread 24 sourceLogId.leaderId.nodeId,
    hread 8 sourceLogId.index]
  · have hkey : rest.drop HEADER = key := by
      rw [← hrest]
      simp [List.drop_append, HEADER, hnil]
    rw [hkey, if_neg not_false, if_neg (by omega), if_neg (by simp)]
    rfl
  all_goals
    rw [← hrest]
    simp [List.drop_append, hnil]

/-! ### Consumers -/

structure IndexCheckpoint where
  projectionEpoch : UInt64
  definitionHash : Digest32
  engineRevision : UInt32
  sourceLogId : Option RaftLogId
  deriving DecidableEq, Repr

structure SearchConsumerState where
  definitionHash : Digest32
  engineRevision : UInt32
  checkpoint : Option IndexCheckpoint
  retentionFloor : Option (UInt64 × UInt64)
  needsRebuild : Bool
  deriving DecidableEq, Repr

structure SearchConsumerRegistration where
  created : Bool
  needsRebuild : Bool
  deriving DecidableEq, Repr

namespace SearchConsumerState

def holdsRetention (state : SearchConsumerState) : Bool := !state.needsRebuild

/-- Up to where the consumer lets rows of the epoch be pruned; `none` retains everything. -/
def mark (epoch : UInt64) (state : SearchConsumerState) : Option UInt64 :=
  match state.checkpoint, state.retentionFloor with
  | some checkpoint, _ =>
    if checkpoint.projectionEpoch ≠ epoch then none else checkpoint.sourceLogId.map (·.index)
  | none, some (floorEpoch, floor) => if floorEpoch = epoch then some floor else none
  | none, none => none

theorem mark_eq_some_iff {epoch mark : UInt64} {state : SearchConsumerState} :
    state.mark epoch = some mark ↔
      (∃ checkpoint id, state.checkpoint = some checkpoint ∧ checkpoint.projectionEpoch = epoch ∧
        checkpoint.sourceLogId = some id ∧ id.index = mark) ∨
      state.checkpoint = none ∧ state.retentionFloor = some (epoch, mark) := by
  unfold SearchConsumerState.mark
  cases hcheckpoint : state.checkpoint with
  | some checkpoint => by_cases hepoch : checkpoint.projectionEpoch = epoch <;> simp [hepoch]
  | none =>
    cases hfloor : state.retentionFloor with
    | none => simp
    | some floor =>
      obtain ⟨floorEpoch, floor⟩ := floor
      by_cases hepoch : floorEpoch = epoch <;> simp [hepoch]

/-- The watermark by which the slowest consumer is found. -/
def lag (epoch : UInt64) (state : SearchConsumerState) : UInt64 :=
  match state.checkpoint, state.retentionFloor with
  | some checkpoint, _ => (checkpoint.sourceLogId.map (·.index)).getD 0
  | none, some (floorEpoch, floor) => if floorEpoch = epoch then floor else 0
  | none, none => 0

end SearchConsumerState

/-- Recover the index name and the generation from a consumer key. -/
def decodeSearchConsumerKey (group : GroupId) (key : Bytes) : Result (String × UInt64) := do
  let corrupt (detail : String) : Error := .corrupt "search consumer key" detail
  throwIf (¬searchConsumerPrefix group <+: key) (corrupt "key has the wrong group prefix")
  let rest := key.drop (searchConsumerPrefix group).length
  throwIf (rest.length < 4) (corrupt "key is truncated")
  let nameLen := beNat (rest.take 4)
  throwIf (rest.length < 4 + nameLen) (corrupt "name runs past the key")
  throwIf (rest.length < 4 + nameLen + 8) (corrupt "key has no generation")
  match String.fromUTF8? ⟨((rest.drop 4).take nameLen).toArray⟩ with
  | some name => return (name, UInt64.ofNat (beNat ((rest.drop (4 + nameLen)).take 8)))
  | none => throw (corrupt "name is not UTF-8")

variable (prims : Primitives)

/-! ### Storage -/

/-- What a node stores for a data group and the consumers of its outbox. -/
structure SearchStore where
  store : GroupStore
  consumers : ColumnFamily SearchConsumerState

namespace SearchStore

variable (partition : UInt16) (s : SearchStore)

def searchProjectionEpoch : UInt64 := s.store.searchEpoch.getD 1

abbrev consumerKey (name : String) (generation : UInt64) : Bytes :=
  searchConsumerKey (.data partition) name generation

/-- The consumer's record, or another one in its place. -/
abbrev putConsumer (key : Bytes) (state : SearchConsumerState) : SearchStore :=
  { s with consumers := s.consumers.insert key state }

def registerSearchConsumer (name : String) (generation : SearchIndexGeneration) :
    Result (SearchConsumerRegistration × SearchStore) := do
  validateIndexName name
  generation.validateIdentity prims
  let key := consumerKey partition name generation.id
  match s.consumers[key]? with
  | some existing =>
    throwIf (existing.definitionHash ≠ generation.definitionHash ∨
        existing.engineRevision ≠ generation.engineRevision)
      (.corrupt "search consumer" "consumer identity differs from catalog generation")
    return ({ created := false, needsRebuild := existing.checkpoint.isNone }, s)
  | none =>
    return ({ created := true, needsRebuild := true }, s.putConsumer key
      { definitionHash := generation.definitionHash, engineRevision := generation.engineRevision
        checkpoint := none, retentionFloor := none, needsRebuild := false })

/-- A missing record is a race with an unregistration and is left alone. -/
def recordSearchConsumerRetentionFloor (name : String) (generation : UInt64)
    (floor : UInt64 × UInt64) : SearchStore :=
  let key := consumerKey partition name generation
  match s.consumers[key]? with
  | none => s
  | some state => s.putConsumer key { state with retentionFloor := some floor }

def recordSearchConsumerCheckpoint (name : String) (generation : UInt64)
    (checkpoint : IndexCheckpoint) : Result SearchStore :=
  let key := consumerKey partition name generation
  match s.consumers[key]? with
  | none => throw (.corrupt "search consumer" "checkpoint written for an unregistered consumer")
  | some state => do
    throwIf (state.definitionHash ≠ checkpoint.definitionHash ∨
        state.engineRevision ≠ checkpoint.engineRevision)
      (.corrupt "search consumer" "checkpoint identity differs from consumer")
    throwIf state.needsRebuild
      (.search "search consumer was released from retention while projection was running")
    return s.putConsumer key { state with checkpoint := some checkpoint, needsRebuild := false }

/-- The number of rows retained, and the bytes of their keys. -/
def searchOutboxUsage : ℕ × ℕ :=
  (s.store.outbox.keys.length, (s.store.outbox.keys.map List.length).sum)

/-- The consumers that hold retention. -/
def holders : List SearchConsumerState :=
  (s.consumers.toList.map Prod.snd).filter (·.holdsRetention)

/-- The rows before the first one that is not covered. -/
def coveredKeys (covered : SearchOutboxEntry → Bool) : List Bytes → Result (List Bytes)
  | [] => return []
  | key :: rest => do
    let entry ← decodeOutboxKey (.data partition) key
    if covered entry then return key :: (← coveredKeys covered rest) else return []

/-- Delete the rows that every consumer which holds retention has passed: all of them if there is no
such consumer. -/
def pruneSearchOutbox : Result (ℕ × SearchStore) :=
  let epoch := s.searchProjectionEpoch
  match s.holders.mapM (·.mark epoch) with
  | none => return (0, s)
  | some marks => do
    let covered (entry : SearchOutboxEntry) : Bool :=
      s.holders.isEmpty || decide (entry.epoch < epoch) ||
        (decide (entry.epoch = epoch) && marks.min?.any fun minimum ↦
          entry.sourceLogId.index ≤ minimum)
    let deleted ← coveredKeys partition covered s.store.outbox.keys
    return (deleted.length,
      { s with store := { s.store with outbox := s.store.outbox.writeAll (deleted.map .delete) } })

/-- Keep the consumer with the lower watermark; the first of two equal ones. -/
def slower (epoch : UInt64) (laggard : Option (Bytes × SearchConsumerState))
    (consumer : Bytes × SearchConsumerState) : Option (Bytes × SearchConsumerState) :=
  if !consumer.2.holdsRetention then laggard
  else match laggard with
    | none => some consumer
    | some slowest => if consumer.2.lag epoch < slowest.2.lag epoch then some consumer else laggard

/-- Take the slowest consumer out of retention: it must rebuild. -/
def releaseLaggard : Option (Bytes × SearchStore) :=
  (s.consumers.toList.foldl (slower s.searchProjectionEpoch) none).map fun (key, state) ↦
    (key, s.putConsumer key
      { state with needsRebuild := true, checkpoint := none, retentionFloor := none })

def enforceSearchOutboxBounds (maxEntries maxBytes : UInt64) :
    Result (Option (String × UInt64) × SearchStore) :=
  let (entries, bytes) := s.searchOutboxUsage
  if entries ≤ maxEntries.toNat ∧ bytes ≤ maxBytes.toNat then return (none, s)
  else match s.releaseLaggard with
    | none => return (none, s)
    | some (key, released) => do
      let identity ← decodeSearchConsumerKey (.data partition) key
      let (_, pruned) ← released.pruneSearchOutbox partition
      return (some identity, pruned)

/-- Retention is held again before the source snapshot of the rebuild is taken. -/
def beginSearchConsumerRebuild (name : String) (generation : SearchIndexGeneration) :
    Result SearchStore :=
  let key := consumerKey partition name generation.id
  match s.consumers[key]? with
  | none => throw (.corrupt "search consumer" "rebuild started for an unregistered consumer")
  | some state => do
    throwIf (state.definitionHash ≠ generation.definitionHash ∨
        state.engineRevision ≠ generation.engineRevision)
      (.corrupt "search consumer" "rebuild identity differs from consumer")
    return s.putConsumer key { state with checkpoint := none, needsRebuild := false }

def unregisterSearchConsumer (name : String) (generation : UInt64) : Result SearchStore := do
  let deleted := { s with consumers := s.consumers.erase (consumerKey partition name generation) }
  let (_, pruned) ← deleted.pruneSearchOutbox partition
  return pruned

/-- The epoch and the applied position that a source view reads. -/
def searchSourceView : Result (UInt64 × Option RaftLogId) := do
  let applied ← readApplied s.store.state
  return (s.searchProjectionEpoch, applied.logId)

/-- The outbox after the prune at the end of an apply. A prune that fails fences the storage, and
the apply is not undone. -/
def prunedOutbox (outbox : ColumnFamily Unit) : ColumnFamily Unit :=
  match pruneSearchOutbox partition { s with store := { s.store with outbox := outbox } } with
  | .ok (_, pruned) => pruned.store.outbox
  | .error _ => outbox

def applyRaft (mutations : List StateMutation) (appliedLogId : RaftLogId) (applied : Applied)
    (appliedEntries : ℕ) : Result SearchStore := do
  let store ← Partition.applyRaft partition (s.prunedOutbox partition) s.store
    mutations appliedLogId applied appliedEntries
  return { s with store := store }

/-- What the switch of an install leaves: the snapshot's records and the next epoch. -/
def installState (records : DataState) (applied : Applied) : Option SearchStore :=
  (checkedSucc s.searchProjectionEpoch).map fun epoch ↦
    { s with store := { s.store with
        state := records.insert raftAppliedKey (.raftApplied applied), searchEpoch := some epoch } }

/-! ### What a prune leaves -/

variable {partition} {s} {after : SearchStore} {state : SearchConsumerState}

theorem exists_covered_of_mem {covered : SearchOutboxEntry → Bool} {keys deleted : List Bytes}
    (h : coveredKeys partition covered keys = .ok deleted) {key : Bytes} (hkey : key ∈ deleted) :
    ∃ entry, decodeOutboxKey (.data partition) key = .ok entry ∧ covered entry = true := by
  induction keys generalizing deleted with
  | nil =>
    cases h
    cases hkey
  | cons first rest ih =>
    rw [coveredKeys] at h
    obtain ⟨entry, hentry, hrest⟩ := bind_eq_ok_iff.mp h
    cases hcovered : covered entry with
    | false =>
      rw [hcovered, if_neg Bool.false_ne_true] at hrest
      cases hrest
      cases hkey
    | true =>
      rw [hcovered, if_pos rfl] at hrest
      obtain ⟨others, hothers, hdeleted⟩ := bind_eq_ok_iff.mp hrest
      cases hdeleted
      rcases List.mem_cons.mp hkey with rfl | hkey
      · exact ⟨entry, hentry, hcovered⟩
      · exact ih hothers hkey

/-- A prune deletes rows and nothing else. -/
theorem pruneSearchOutbox_eq {deleted : ℕ}
    (h : s.pruneSearchOutbox partition = .ok (deleted, after)) :
    ∃ outbox, after = { s with store := { s.store with outbox := outbox } } := by
  rw [pruneSearchOutbox] at h
  cases hmarks : s.holders.mapM (·.mark s.searchProjectionEpoch) with
  | none =>
    rw [hmarks] at h
    cases h
    exact ⟨_, rfl⟩
  | some marks =>
    simp only [hmarks] at h
    obtain ⟨keys, -, hafter⟩ := bind_eq_ok_iff.mp h
    cases hafter
    exact ⟨_, rfl⟩

/-- The consumers' marks are all there if there is one of each. -/
theorem mem_marks {mark : SearchConsumerState → Option UInt64} {states : List SearchConsumerState}
    {marks : List UInt64} (h : states.mapM mark = some marks)
    (hstate : state ∈ states) : ∃ own ∈ marks, mark state = some own := by
  induction states generalizing marks with
  | nil => cases hstate
  | cons first rest ih =>
    rw [List.mapM_cons] at h
    obtain ⟨own, hown, h⟩ := Option.bind_eq_some_iff.mp h
    obtain ⟨others, hothers, h⟩ := Option.bind_eq_some_iff.mp h
    cases h
    rcases List.mem_cons.mp hstate with rfl | hstate
    · exact ⟨own, List.mem_cons_self, hown⟩
    · obtain ⟨other, hother, hmark⟩ := ih hothers hstate
      exact ⟨other, List.mem_cons_of_mem own hother, hmark⟩

/-- Assumes: a consumer that holds retention and has not passed the row, or retains everything. The
row is still there after a prune. -/
theorem pruneSearchOutbox_keeps {deleted : ℕ}
    (h : s.pruneSearchOutbox partition = .ok (deleted, after)) (hstate : state ∈ s.holders)
    {row : Bytes} {entry : SearchOutboxEntry} (hrow : s.store.outbox[row]? = some ())
    (hentry : decodeOutboxKey (.data partition) row = .ok entry)
    (hepoch : entry.epoch = s.searchProjectionEpoch)
    (hmark : ∀ mark, state.mark s.searchProjectionEpoch = some mark →
      mark < entry.sourceLogId.index) : after.store.outbox[row]? = some () := by
  rw [pruneSearchOutbox] at h
  cases hmarks : s.holders.mapM (·.mark s.searchProjectionEpoch) with
  | none =>
    rw [hmarks] at h
    cases h
    exact hrow
  | some marks =>
    simp only [hmarks] at h
    obtain ⟨keys, hkeys, hafter⟩ := bind_eq_ok_iff.mp h
    cases hafter
    have hkept : lastWrite (keys.map .delete : List (Mutation Unit)) row = none := by
      rw [lastWrite_eq_none_iff, List.map_map]
      intro hdeleted
      obtain ⟨key, hkey, rfl⟩ := List.mem_map.mp hdeleted
      obtain ⟨other, hother, hcovered⟩ := exists_covered_of_mem hkeys hkey
      obtain rfl := Except.ok.inj (hother.symm.trans hentry)
      obtain ⟨own, hown, hmine⟩ := mem_marks hmarks hstate
      have hsome : s.holders.isEmpty = false :=
        List.isEmpty_eq_false_iff.mpr (List.ne_nil_of_mem hstate)
      simp only [hsome, hepoch, UInt64.lt_irrefl, decide_false, Bool.false_or, decide_true,
        Bool.true_and] at hcovered
      obtain ⟨minimum, hminimum, hle⟩ := (Option.any_eq_true _ _).mp hcovered
      have hmin : minimum ≤ own := (List.min?_eq_some_iff.mp hminimum).2 own hown
      exact UInt64.lt_irrefl _ (UInt64.lt_of_lt_of_le (hmark own hmine)
        (UInt64.le_trans (of_decide_eq_true hle) hmin))
    show (ColumnFamily.writeAll _ _)[row]? = _
    rw [getElem?_writeAll, hkept]
    exact hrow

/-- The same, for the prune at the end of an apply. -/
theorem prunedOutbox_keeps {outbox : ColumnFamily Unit} (hstate : state ∈ s.holders) {row : Bytes}
    {entry : SearchOutboxEntry} (hrow : outbox[row]? = some ())
    (hentry : decodeOutboxKey (.data partition) row = .ok entry)
    (hepoch : entry.epoch = s.searchProjectionEpoch)
    (hmark : ∀ mark, state.mark s.searchProjectionEpoch = some mark →
      mark < entry.sourceLogId.index) : (s.prunedOutbox partition outbox)[row]? = some () := by
  rw [prunedOutbox]
  split
  · rename_i pruned hpruned
    exact pruneSearchOutbox_keeps hpruned hstate hrow hentry hepoch hmark
  · exact hrow

/-- Rows that are put are there, and so are the ones that were. -/
theorem getElem?_putRows {outbox : ColumnFamily Unit} {rows : List Bytes} {row : Bytes}
    (h : row ∈ rows ∨ outbox[row]? = some ()) :
    (outbox.writeAll (rows.map fun row ↦ .put row ()))[row]? = some () := by
  induction rows generalizing outbox with
  | nil => exact h.resolve_left List.not_mem_nil
  | cons first rest ih =>
    refine ih ?_
    by_cases hfirst : first = row
    · subst hfirst
      exact .inr (by simp [ColumnFamily.write])
    · rcases h with hmem | hold
      · exact .inl ((List.mem_cons.mp hmem).resolve_left (Ne.symm hfirst))
      · exact .inr
          (by simpa [ColumnFamily.write, Std.ExtTreeMap.getElem?_insert, hfirst] using hold)

/-- What an apply leaves: its records and position, the epoch, and the rows of its user keys, of
which the prune at its end may delete some. -/
theorem applyRaft_eq_ok {mutations : List StateMutation} {logId : RaftLogId} {applied : Applied}
    {entries : ℕ} (h : s.applyRaft partition mutations logId applied entries = .ok after) :
    after.consumers = s.consumers ∧ after.searchProjectionEpoch = s.searchProjectionEpoch ∧
      readApplied after.store.state = .ok applied ∧
      ∃ written : ColumnFamily Unit,
        (after.store.outbox = written ∨ after.store.outbox = s.prunedOutbox partition written) ∧
        (∀ row : Bytes, s.store.outbox[row]? = some () → written[row]? = some ()) ∧
        ∀ key ∈ mutations.filterMap (fun mutation ↦ stripUserTag mutation.key),
          ∃ row : Bytes, decodeOutboxKey (.data partition) row =
            .ok ⟨s.searchProjectionEpoch, logId, key⟩ ∧ written[row]? = some () := by
  obtain ⟨store, hstore, hafter⟩ := bind_eq_ok_iff.mp h
  cases hafter
  obtain ⟨rows, hrows, hstore⟩ := bind_eq_ok_iff.mp hstore
  cases hstore
  refine ⟨rfl, rfl, ?_, s.store.outbox.writeAll (rows.map fun row ↦ .put row ()), ?_,
    fun row hrow ↦ getElem?_putRows (.inr hrow), fun key hkey ↦ ?_⟩
  · exact readApplied_writeAll s.store.state mutations applied
  · by_cases hcrossed : crossedSearchPruneBoundary logId.index entries = true
    · exact .inr (if_pos hcrossed)
    · exact .inl (if_neg hcrossed)
  · obtain ⟨row, hrow, hencode⟩ := exists_of_mapM_eq_ok hrows hkey
    exact ⟨row, decodeOutboxKey_of_encode hencode, getElem?_putRows (.inl hrow)⟩

theorem mem_holders {key : Bytes} (h : s.consumers[key]? = some state)
    (hholds : state.holdsRetention) : state ∈ s.holders := by
  rw [holders, List.mem_filter, List.mem_map]
  exact ⟨⟨(key, state), Std.ExtTreeMap.mem_toList_iff_getElem?_eq_some.mpr h, rfl⟩, hholds⟩

end SearchStore

end DalService.Search
