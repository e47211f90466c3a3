import DalService.Search.Outbox

/-!
# The outbox among the node-local records

The rows of every group's outbox lie in the default column family of a node, among its other local
records (`keyspace.rs`, `storage/rocks.rs`). A row's key is the prefix of its group, four integers
and the user key after its length. Decoding inverts encoding and accepts nothing else
(`encodes_of_decode`), the byte order of rows is the order of epoch, index, term and node
(`compare_rowKey`), and no other record that a node writes starts with the prefix of a group's
outbox (`isPrefix_bytes_iff`), because a group's token has no slash in it.

A prune walks the rows of a group and stops at the first one it keeps. In the order of the keys what
it may delete comes first, so it deletes all of it: `outbox_keys_order_and_isolate`. On what is
stored for one group it is the prune of `SearchStore` (`DefaultFamily.Views.prune`).
-/

set_option autoImplicit false

namespace DalService.Search

open Foundation Keyspace DalService.Partition

/-! ### Rows and their keys -/

/-- The key of a row. -/
def SearchOutboxEntry.key (group : GroupId) (entry : SearchOutboxEntry) : Bytes :=
  searchOutboxPrefix group ++ (u64Be entry.epoch ++ (u64Be entry.sourceLogId.index ++
    (u64Be entry.sourceLogId.leaderId.term ++ (u64Be entry.sourceLogId.leaderId.nodeId ++
      (u32Be (UInt32.ofNat entry.userKey.length) ++ entry.userKey)))))

/-- The bytes are the encoding of the row. -/
def SearchOutboxEntry.Encodes (group : GroupId) (entry : SearchOutboxEntry) (row : Bytes) : Prop :=
  encodeOutboxKey group entry.epoch entry.sourceLogId entry.userKey = .ok row

variable {group : GroupId}

theorem encodes_iff {entry : SearchOutboxEntry} {row : Bytes} :
    entry.Encodes group row ↔ entry.userKey.length < 2 ^ 32 ∧ row = entry.key group := by
  unfold SearchOutboxEntry.Encodes encodeOutboxKey SearchOutboxEntry.key
  split_ifs with hlength
  · rw [Except.ok.injEq, eq_comm, and_iff_right hlength]
    simp only [List.append_assoc]
  · exact ⟨fun h ↦ (nomatch h), fun h ↦ absurd h.1 hlength⟩

theorem decodeOutboxKey_key {entry : SearchOutboxEntry}
    (h : entry.userKey.length < 2 ^ 32) : decodeOutboxKey group (entry.key group) = .ok entry :=
  decodeOutboxKey_of_encode (encodes_iff.mpr ⟨h, rfl⟩)

theorem u64Be_ofNat_beNat {bytes : Bytes} (h : bytes.length = 8) :
    u64Be (UInt64.ofNat (beNat bytes)) = bytes := by
  have hlt : beNat bytes < 2 ^ 64 := by
    have hbound := beNat_lt bytes
    rwa [h] at hbound
  rw [u64Be, UInt64.toNat_ofNat_of_lt' hlt, ← h, beBytes_beNat]

theorem u32Be_ofNat_beNat {bytes : Bytes} (h : bytes.length = 4) :
    u32Be (UInt32.ofNat (beNat bytes)) = bytes := by
  have hlt : beNat bytes < 2 ^ 32 := by
    have hbound := beNat_lt bytes
    rwa [h] at hbound
  rw [u32Be, UInt32.toNat_ofNat_of_lt' hlt, ← h, beBytes_beNat]

/-- What is decoded is an encoded row. -/
theorem encodes_of_decode {row : Bytes} {entry : SearchOutboxEntry}
    (h : decodeOutboxKey group row = .ok entry) : entry.Encodes group row := by
  obtain ⟨_, hfronted, h⟩ := bind_eq_ok_iff.mp h
  obtain ⟨_, hheader, h⟩ := bind_eq_ok_iff.mp h
  obtain ⟨_, hlength, h⟩ := bind_eq_ok_iff.mp h
  obtain rfl := Except.ok.inj h
  simp only [throwIf_eq_ok_iff, not_not, not_lt] at hfronted hheader hlength
  obtain ⟨bytes, rfl⟩ := hfronted
  rw [List.drop_left] at hheader hlength ⊢
  have hfull : 36 ≤ bytes.length := hheader
  have htake (start width : ℕ) (h : start + width ≤ 36) :
      ((bytes.drop start).take width).length = width := by
    rw [List.length_take, List.length_drop]
    omega
  have hkey : (bytes.drop HEADER).length = beNat ((bytes.drop 32).take 4) := by
    rw [List.length_drop, hlength]
    omega
  have hkeyLen : (bytes.drop HEADER).length < 2 ^ 32 := by
    have hbound := beNat_lt ((bytes.drop 32).take 4)
    rwa [htake 32 4 le_rfl, ← hkey] at hbound
  have hsplit (start width : ℕ) :
      (bytes.drop start).take width ++ bytes.drop (start + width) = bytes.drop start := by
    rw [← List.drop_drop, List.take_append_drop]
  refine encodes_iff.mpr ⟨hkeyLen, ?_⟩
  simp only [SearchOutboxEntry.key]
  rw [hkey, u64Be_ofNat_beNat (htake 0 8 (by decide)), u64Be_ofNat_beNat (htake 8 8 (by decide)),
    u64Be_ofNat_beNat (htake 16 8 (by decide)), u64Be_ofNat_beNat (htake 24 8 (by decide)),
    u32Be_ofNat_beNat (htake 32 4 le_rfl), show HEADER = 32 + 4 from rfl, hsplit 32 4, hsplit 24 8,
    hsplit 16 8, hsplit 8 8, hsplit 0 8, List.drop_zero]

/-- The order of rows in the journal: by epoch, index, term and node. -/
def SearchOutboxEntry.compareSource (first second : SearchOutboxEntry) : Ordering :=
  (compare first.epoch second.epoch).then
    ((compare first.sourceLogId.index second.sourceLogId.index).then
      ((compare first.sourceLogId.leaderId.term second.sourceLogId.leaderId.term).then
        (compare first.sourceLogId.leaderId.nodeId second.sourceLogId.leaderId.nodeId)))

/-- The keys of a group's rows are ordered as the rows are in the journal, and then by the length of
the user key and the key. -/
theorem compare_rowKey (group : GroupId) (first second : SearchOutboxEntry) :
    compare (first.key group) (second.key group) =
      (first.compareSource second).then
        (compare (u32Be (UInt32.ofNat first.userKey.length) ++ first.userKey)
          (u32Be (UInt32.ofNat second.userKey.length) ++ second.userKey)) := by
  have hwidth (one other : UInt64) : (u64Be one).length = (u64Be other).length := by
    rw [length_u64Be, length_u64Be]
  unfold SearchOutboxEntry.key
  rw [compare_append rfl, Std.compare_self, Ordering.eq_then, compare_append (hwidth _ _),
    compare_append (hwidth _ _), compare_append (hwidth _ _), compare_append (hwidth _ _)]
  simp only [compare_u64Be, SearchOutboxEntry.compareSource, Ordering.then_assoc]

/-! ### The records of the default column family -/

/-- The records a node keeps outside the column families of its groups. -/
inductive LocalKey
  | identity
  | heartbeatIncarnation
  | searchSessionIncarnation
  | stateCfPointer (group : GroupId)
  | stateCfGeneration (group : GroupId)
  | registrationBinding
  | maintenanceFence
  | recoveryEpoch
  | restoredEpoch
  | retired
  | serving (group : GroupId)
  | admission (group : GroupId)
  | pendingReport (group : GroupId)
  | bootstrap (group : GroupId)
  | searchEpoch (group : GroupId)
  | searchOutbox (group : GroupId) (entry : SearchOutboxEntry)
  | searchConsumer (group : GroupId) (name : String) (generation : UInt64)
  deriving DecidableEq, Repr

def LocalKey.bytes : LocalKey → Bytes
  | .identity => strBytes "local/identity"
  | .heartbeatIncarnation => strBytes "local/heartbeat_incarnation"
  | .searchSessionIncarnation => strBytes "local/search_session_incarnation"
  | .stateCfPointer group => strBytes "local/state_cf/" ++ strBytes group.token
  | .stateCfGeneration group => strBytes "local/state_cf_generation/" ++ strBytes group.token
  | .registrationBinding => strBytes "local/registration_binding"
  | .maintenanceFence => strBytes "local/maintenance_fence"
  | .recoveryEpoch => strBytes "local/recovery_epoch"
  | .restoredEpoch => strBytes "local/restored_epoch"
  | .retired => strBytes "local/retired"
  | .serving group => strBytes ("local/serving/" ++ group.token)
  | .admission group => strBytes ("local/admission/" ++ group.token)
  | .pendingReport group => strBytes ("local/pending_report/" ++ group.token)
  | .bootstrap group => strBytes ("local/bootstrap/" ++ group.token)
  | .searchEpoch group => searchEpochKey group
  | .searchOutbox group entry => entry.key group
  | .searchConsumer group name generation => searchConsumerKey group name generation

def searchOutboxEpochPrefix (group : GroupId) (epoch : UInt64) : Bytes :=
  searchOutboxPrefix group ++ u64Be epoch

/-- No token has a slash in it. -/
theorem slash_not_mem_token (group : GroupId) : (47 : UInt8) ∉ strBytes group.token := by
  cases group with
  | «meta» => decide
  | data partition =>
    rw [GroupId.token, strBytes_append, List.mem_append, not_or]
    refine ⟨by decide, fun h ↦ ?_⟩
    have hdigit := le_of_mem_strBytes_repr h
    exact absurd hdigit (by decide)

/-- Two lists that are cut by their first separator are equal in front of it and after it. -/
theorem append_cons_inj_of_not_mem {T : Type} {sep : T} {first second restFirst restSecond : List T}
    (hfirst : sep ∉ first) (hsecond : sep ∉ second)
    (h : first ++ sep :: restFirst = second ++ sep :: restSecond) :
    first = second ∧ restFirst = restSecond := by
  induction first generalizing second with
  | nil =>
    cases second with
    | nil => exact ⟨rfl, (List.cons.inj h).2⟩
    | cons head second => exact absurd ((List.cons.inj h).1 ▸ List.mem_cons_self) hsecond
  | cons head first ih =>
    cases second with
    | nil => exact absurd ((List.cons.inj h).1 ▸ List.mem_cons_self) hfirst
    | cons other second =>
      obtain ⟨rfl, htail⟩ := List.cons.inj h
      obtain ⟨rfl, hrest⟩ := ih (fun hmem ↦ hfirst (List.mem_cons_of_mem _ hmem))
        (fun hmem ↦ hsecond (List.mem_cons_of_mem _ hmem)) htail
      exact ⟨rfl, hrest⟩

theorem searchPrefix_eq (group : GroupId) :
    searchPrefix group = strBytes "local/search/" ++ (strBytes group.token ++ [47]) := by
  rw [searchPrefix, strBytes_append, strBytes_append, List.append_assoc]
  rfl

/-- The search records of a group are under no other group's prefix. -/
theorem searchPrefix_append_inj {other : GroupId} {rest restOther : Bytes}
    (h : searchPrefix group ++ rest = searchPrefix other ++ restOther) :
    group = other ∧ rest = restOther := by
  simp only [searchPrefix_eq, List.append_assoc, List.singleton_append,
    List.append_cancel_left_eq] at h
  obtain ⟨htoken, hrest⟩ :=
    append_cons_inj_of_not_mem (slash_not_mem_token group) (slash_not_mem_token other) h
  exact ⟨token_injective (strBytes_injective htoken), hrest⟩

/-- Of the records a node keeps, those under the search prefix of a group are its search records. -/
theorem search_of_isPrefix {record : LocalKey} (h : searchPrefix group <+: record.bytes) :
    record = .searchEpoch group ∨ (∃ entry, record = .searchOutbox group entry) ∨
      ∃ name generation, record = .searchConsumer group name generation := by
  have hroot : strBytes "local/search/" <+: record.bytes := by
    refine List.IsPrefix.trans ?_ h
    rw [searchPrefix_eq]
    exact List.prefix_append _ _
  have hcut {front rest : Bytes} (hfronted : strBytes "local/search/" <+: front ++ rest)
      (hlength : (strBytes "local/search/").length ≤ front.length) :
      strBytes "local/search/" <+: front :=
    List.prefix_of_prefix_length_le hfronted (List.prefix_append _ _) hlength
  obtain ⟨rest, hrest⟩ := h
  cases record with
  | identity | heartbeatIncarnation | searchSessionIncarnation | registrationBinding
  | maintenanceFence | recoveryEpoch | restoredEpoch | retired => exact absurd hroot (by decide)
  | stateCfPointer other | stateCfGeneration other =>
    exact absurd (hcut hroot (by decide)) (by decide)
  | serving other | admission other | pendingReport other | bootstrap other =>
    rw [LocalKey.bytes, strBytes_append] at hroot
    exact absurd (hcut hroot (by decide)) (by decide)
  | searchEpoch other =>
    rw [LocalKey.bytes, searchEpochKey] at hrest
    obtain ⟨rfl, -⟩ := searchPrefix_append_inj hrest
    exact .inl rfl
  | searchOutbox other entry =>
    rw [LocalKey.bytes, SearchOutboxEntry.key, searchOutboxPrefix, List.append_assoc] at hrest
    obtain ⟨rfl, -⟩ := searchPrefix_append_inj hrest
    exact .inr (.inl ⟨entry, rfl⟩)
  | searchConsumer other name generation =>
    rw [LocalKey.bytes, searchConsumerKey, searchConsumerPrefix] at hrest
    simp only [List.append_assoc] at hrest
    obtain ⟨rfl, -⟩ := searchPrefix_append_inj hrest
    exact .inr (.inr ⟨name, generation, rfl⟩)

/-- Under the prefix of a group's outbox are its rows. -/
theorem isPrefix_bytes_iff {record : LocalKey} :
    searchOutboxPrefix group <+: record.bytes ↔ ∃ entry, record = .searchOutbox group entry := by
  constructor
  · intro h
    obtain rfl | hrow | ⟨name, generation, rfl⟩ :=
      search_of_isPrefix ((List.prefix_append _ _).trans h)
    · rw [LocalKey.bytes, searchEpochKey, searchOutboxPrefix, List.prefix_append_right_inj] at h
      exact absurd h (by decide)
    · exact hrow
    · rw [LocalKey.bytes, searchConsumerKey, searchConsumerPrefix, searchOutboxPrefix,
        List.append_assoc, List.append_assoc, List.append_assoc, List.prefix_append_right_inj] at h
      obtain ⟨rest, hrest⟩ := h
      exact absurd (List.cons.inj hrest).1 (by decide)
  · rintro ⟨entry, rfl⟩
    exact List.prefix_append _ _

/-- Under the prefix of a group's consumers are their records. -/
theorem isPrefix_consumer_bytes_iff {record : LocalKey} :
    searchConsumerPrefix group <+: record.bytes ↔
      ∃ name generation, record = .searchConsumer group name generation := by
  constructor
  · intro h
    obtain rfl | ⟨entry, rfl⟩ | hconsumer :=
      search_of_isPrefix ((List.prefix_append _ _).trans h)
    · rw [LocalKey.bytes, searchEpochKey, searchConsumerPrefix, List.prefix_append_right_inj] at h
      exact absurd h (by decide)
    · rw [LocalKey.bytes, SearchOutboxEntry.key, searchConsumerPrefix, searchOutboxPrefix,
        List.append_assoc, List.prefix_append_right_inj] at h
      obtain ⟨rest, hrest⟩ := h
      exact absurd (List.cons.inj hrest).1 (by decide)
    · exact hconsumer
  · rintro ⟨name, generation, rfl⟩
    rw [LocalKey.bytes, searchConsumerKey, List.append_assoc, List.append_assoc]
    exact List.prefix_append _ _

/-- Of those, the rows of an epoch are under the prefix of the epoch. -/
theorem isPrefix_epoch_bytes_iff {epoch : UInt64} {record : LocalKey} :
    searchOutboxEpochPrefix group epoch <+: record.bytes ↔
      ∃ entry, record = .searchOutbox group entry ∧ entry.epoch = epoch := by
  constructor
  · intro h
    obtain ⟨entry, rfl⟩ := isPrefix_bytes_iff.mp ((List.prefix_append _ _).trans h)
    obtain ⟨rest, hrest⟩ := h
    rw [LocalKey.bytes, SearchOutboxEntry.key, searchOutboxEpochPrefix, List.append_assoc] at hrest
    obtain ⟨hepoch, -⟩ := append_beBytes_inj (List.append_cancel_left hrest)
    exact ⟨entry, rfl, (u64Be_injective hepoch).symm⟩
  · rintro ⟨entry, rfl, rfl⟩
    rw [LocalKey.bytes, SearchOutboxEntry.key, searchOutboxEpochPrefix,
      List.prefix_append_right_inj]
    exact List.prefix_append _ _

/-- What the default column family has under a key: the value of a row is empty, and of the records
the outbox does not read only the bytes are kept. -/
inductive LocalRecord
  | outboxRow
  | consumer (state : SearchConsumerState)
  | epoch (value : UInt64)
  | other (bytes : Bytes)
  deriving DecidableEq, Repr

abbrev DefaultFamily := ColumnFamily LocalRecord

/-- A record is one its key may have. The user key of a row is shorter than 4 GiB. -/
def LocalKey.Holds : LocalKey → LocalRecord → Prop
  | .searchOutbox _ entry, record => record = .outboxRow ∧ entry.userKey.length < 2 ^ 32
  | .searchConsumer _ _ _, record => ∃ state, record = .consumer state
  | .searchEpoch _, record => ∃ epoch, record = .epoch epoch
  | _, record => ∃ bytes, record = .other bytes

/-- A column family of records that a node writes. -/
def DefaultFamily.WellFormed (cf : DefaultFamily) : Prop :=
  ∀ (key : Bytes) (record : LocalRecord), cf[key]? = some record →
    ∃ name : LocalKey, name.bytes = key ∧ name.Holds record

theorem DefaultFamily.WellFormed.empty : DefaultFamily.WellFormed ∅ := by
  intro key record hfound
  simp at hfound

/-- Writing a record under its key keeps the column family well formed. -/
theorem DefaultFamily.WellFormed.insert {cf : DefaultFamily} (h : cf.WellFormed) (name : LocalKey)
    {record : LocalRecord} (hholds : name.Holds record) :
    DefaultFamily.WellFormed (cf.insert name.bytes record) := by
  intro key found hfound
  rw [Std.ExtTreeMap.getElem?_insert] at hfound
  split_ifs at hfound with hkey
  · exact ⟨name, Std.compare_eq_iff_eq.mp hkey, Option.some.inj hfound ▸ hholds⟩
  · exact h key found hfound

namespace DefaultFamily

variable (cf : DefaultFamily)

def readConsumer (row : Bytes × LocalRecord) : Result (Bytes × SearchConsumerState) :=
  match row.2 with
  | .consumer state => .ok (row.1, state)
  | _ => .error (.codec "search consumer")

def searchConsumers (group : GroupId) : Result (List (Bytes × SearchConsumerState)) :=
  (cf.scan (searchConsumerPrefix group)).mapM readConsumer

def searchProjectionEpoch : GroupId → Result UInt64
  | .meta => .error (.search "search projection requires a data group")
  | .data partition =>
    match cf[searchEpochKey (.data partition)]? with
    | some (.epoch value) => .ok value
    | some _ => .error (.codec "search epoch")
    | none => .ok 1

/-- The rows of a group before the first one that is not covered. -/
def coveredRows (group : GroupId) (covered : SearchOutboxEntry → Bool) :
    List (Bytes × LocalRecord) → Result (List Bytes)
  | [] => return []
  | row :: rest => do
    let entry ← decodeOutboxKey group row.1
    if covered entry then return row.1 :: (← coveredRows group covered rest) else return []

/-- Delete the rows that every consumer which holds retention has passed: all of them if there is no
such consumer. -/
def pruneSearchOutbox (group : GroupId) : Result (ℕ × DefaultFamily) := do
  let consumers ← cf.searchConsumers group
  let holders := (consumers.map Prod.snd).filter (·.holdsRetention)
  let epoch ← cf.searchProjectionEpoch group
  match holders.mapM (·.mark epoch) with
  | none => return (0, cf)
  | some marks =>
    let covered (entry : SearchOutboxEntry) : Bool :=
      holders.isEmpty || decide (entry.epoch < epoch) || (decide (entry.epoch = epoch) &&
        marks.min?.any fun minimum ↦ entry.sourceLogId.index ≤ minimum)
    let deleted ← coveredRows group covered (cf.scan (searchOutboxPrefix group))
    return (deleted.length, cf.writeAll (deleted.map .delete))

end DefaultFamily

/-! ### Scans of a well-formed column family -/

namespace DefaultFamily

variable {cf : DefaultFamily}

theorem key_inj {first second : SearchOutboxEntry} (hfirst : first.userKey.length < 2 ^ 32)
    (hsecond : second.userKey.length < 2 ^ 32) (h : first.key group = second.key group) :
    first = second := by
  have hdecoded : decodeOutboxKey group (first.key group) = .ok first := decodeOutboxKey_key hfirst
  rw [h, decodeOutboxKey_key hsecond] at hdecoded
  exact (Except.ok.inj hdecoded).symm

/-- Under the prefix of a group's outbox are rows, and under that of an epoch rows of the epoch. -/
theorem WellFormed.row_of_isPrefix (h : cf.WellFormed) {key : Bytes} {record : LocalRecord}
    (hfound : cf[key]? = some record) (hfronted : searchOutboxPrefix group <+: key) :
    ∃ entry : SearchOutboxEntry, entry.userKey.length < 2 ^ 32 ∧ key = entry.key group ∧
      record = .outboxRow := by
  obtain ⟨name, rfl, hholds⟩ := h key record hfound
  obtain ⟨entry, rfl⟩ := isPrefix_bytes_iff.mp hfronted
  exact ⟨entry, hholds.2, rfl, hholds.1⟩

/-- The prefix of a group's outbox meets its rows, and nothing else. -/
theorem WellFormed.scan_outbox (h : cf.WellFormed) (group : GroupId) :
    ∃ entries : List SearchOutboxEntry,
      cf.scan (searchOutboxPrefix group) =
        entries.map (fun entry ↦ (entry.key group, .outboxRow)) ∧
      (∀ entry ∈ entries, entry.userKey.length < 2 ^ 32) ∧
      ∀ entry : SearchOutboxEntry, entry.userKey.length < 2 ^ 32 →
        (entry ∈ entries ↔ cf[entry.key group]? = some .outboxRow) := by
  let Row := { entry : SearchOutboxEntry // entry.userKey.length < 2 ^ 32 }
  have hrange : cf.scan (searchOutboxPrefix group) ∈ Set.range
      (List.map fun row : Row ↦ (row.1.key group, LocalRecord.outboxRow)) := by
    rw [Set.range_list_map]
    rintro ⟨key, record⟩ hrow
    obtain ⟨hfound, hfronted⟩ := ColumnFamily.mem_scan.mp hrow
    obtain ⟨entry, hlength, rfl, rfl⟩ := h.row_of_isPrefix hfound hfronted
    exact ⟨⟨entry, hlength⟩, rfl⟩
  obtain ⟨rows, hrows⟩ := hrange
  refine ⟨rows.map Subtype.val, by rw [← hrows, List.map_map]; rfl, fun entry hentry ↦ ?_,
    fun entry hlength ↦ ?_⟩
  · obtain ⟨row, -, rfl⟩ := List.mem_map.mp hentry
    exact row.2
  · have hscanned : (entry.key group, LocalRecord.outboxRow) ∈ cf.scan (searchOutboxPrefix group) ↔
        cf[entry.key group]? = some .outboxRow := by
      rw [ColumnFamily.mem_scan]
      exact and_iff_left (List.prefix_append _ _)
    rw [← hscanned, ← hrows, List.mem_map, List.mem_map]
    constructor
    · rintro ⟨row, hrow, rfl⟩
      exact ⟨row, hrow, rfl⟩
    · rintro ⟨row, hrow, hkey⟩
      exact ⟨row, hrow, key_inj row.2 hlength (Prod.mk.inj hkey).1⟩

/-- The consumers of a group are read, each of them. -/
theorem WellFormed.exists_searchConsumers (h : cf.WellFormed) (group : GroupId) :
    ∃ consumers, cf.searchConsumers group = .ok consumers ∧ ∀ state,
      state ∈ consumers.map Prod.snd ↔ ∃ name generation,
        cf[searchConsumerKey group name generation]? = some (.consumer state) := by
  have hrange : cf.scan (searchConsumerPrefix group) ∈ Set.range
      (List.map fun consumer : Bytes × SearchConsumerState ↦
        (consumer.1, LocalRecord.consumer consumer.2)) := by
    rw [Set.range_list_map]
    rintro ⟨key, record⟩ hrow
    obtain ⟨hfound, hfronted⟩ := ColumnFamily.mem_scan.mp hrow
    obtain ⟨name, rfl, hholds⟩ := h key record hfound
    obtain ⟨index, generation, rfl⟩ := isPrefix_consumer_bytes_iff.mp hfronted
    obtain ⟨state, rfl⟩ := hholds
    exact ⟨(_, state), rfl⟩
  obtain ⟨consumers, hconsumers⟩ := hrange
  refine ⟨consumers, ?_, fun state ↦ ?_⟩
  · have hread : consumers.mapM (readConsumer ∘ fun consumer ↦ (consumer.1, .consumer consumer.2)) =
        .ok (consumers.map id) := mapM_eq_ok fun consumer _ ↦ rfl
    rw [searchConsumers, ← hconsumers, List.mapM_map, hread, List.map_id]
  · have hscanned (key : Bytes) : (key, state) ∈ consumers ↔
        cf[key]? = some (.consumer state) ∧ searchConsumerPrefix group <+: key := by
      have hmem : (key, LocalRecord.consumer state) ∈ cf.scan (searchConsumerPrefix group) ↔ _ :=
        ColumnFamily.mem_scan
      rw [← hmem, ← hconsumers, List.mem_map]
      constructor
      · exact fun hmem ↦ ⟨_, hmem, rfl⟩
      · rintro ⟨⟨key', state'⟩, hmem, heq⟩
        simp only [Prod.mk.injEq, LocalRecord.consumer.injEq] at heq
        rwa [← heq.1, ← heq.2]
    constructor
    · intro hmem
      obtain ⟨⟨key, found⟩, hconsumer, rfl⟩ := List.mem_map.mp hmem
      obtain ⟨hfound, hfronted⟩ := (hscanned key).mp hconsumer
      obtain ⟨name, rfl, -⟩ := h key _ hfound
      obtain ⟨index, generation, rfl⟩ := isPrefix_consumer_bytes_iff.mp hfronted
      exact ⟨index, generation, hfound⟩
    · rintro ⟨index, generation, hfound⟩
      exact List.mem_map.mpr ⟨_, (hscanned _).mpr ⟨hfound, isPrefix_consumer_bytes_iff.mpr
        ⟨index, generation, rfl⟩⟩, rfl⟩

theorem WellFormed.exists_searchProjectionEpoch (h : cf.WellFormed) (partition : UInt16) :
    ∃ epoch, cf.searchProjectionEpoch (.data partition) = .ok epoch := by
  simp only [searchProjectionEpoch]
  cases hfound : cf[searchEpochKey (.data partition)]? with
  | none => exact ⟨1, rfl⟩
  | some record =>
    obtain ⟨name, hname, hholds⟩ := h _ record hfound
    have hepoch : name = .searchEpoch (.data partition) := by
      obtain hepoch | ⟨entry, rfl⟩ | ⟨index, generation, rfl⟩ :=
        search_of_isPrefix (hname ▸ List.prefix_append _ _ :
          searchPrefix (.data partition) <+: name.bytes)
      · exact hepoch
      · rw [LocalKey.bytes, SearchOutboxEntry.key, searchEpochKey, searchOutboxPrefix,
          List.append_assoc, List.append_cancel_left_eq] at hname
        exact absurd (List.cons.inj hname).1 (by decide)
      · rw [LocalKey.bytes, searchConsumerKey, searchConsumerPrefix, searchEpochKey,
          List.append_assoc, List.append_assoc, List.append_assoc,
          List.append_cancel_left_eq] at hname
        exact absurd (List.cons.inj hname).1 (by decide)
    subst hepoch
    obtain ⟨epoch, rfl⟩ := hholds
    exact ⟨epoch, rfl⟩

/-! ### What a prune deletes -/

/-- Assumes: rows in the order of their keys, and a condition that holds of every row before one it
holds of. The rows up to the first one that is not covered are all that are. -/
theorem coveredRows_eq (group : GroupId) {entries : List SearchOutboxEntry}
    (hlength : ∀ entry ∈ entries, entry.userKey.length < 2 ^ 32)
    {covered : SearchOutboxEntry → Bool}
    (hcovered : entries.Pairwise fun first second ↦ covered second → covered first) :
    coveredRows group covered (entries.map fun entry ↦ (entry.key group, .outboxRow)) =
      .ok ((entries.filter covered).map (SearchOutboxEntry.key group)) := by
  rw [← takeWhile_eq_filter hcovered]
  clear hcovered
  induction entries with
  | nil => rfl
  | cons entry entries ih =>
    rw [List.map_cons, coveredRows, decodeOutboxKey_key (hlength entry List.mem_cons_self), ok_bind,
      ih fun other hother ↦ hlength other (List.mem_cons_of_mem _ hother)]
    cases hentry : covered entry with
    | true => rw [List.takeWhile_cons_of_pos hentry]; rfl
    | false => rw [List.takeWhile_cons_of_neg (by simp [hentry])]; rfl

/-- A consumer's record, of one that holds retention. -/
def Retains (cf : DefaultFamily) (group : GroupId) (state : SearchConsumerState) : Prop :=
  (∃ name generation, cf[searchConsumerKey group name generation]? = some (.consumer state)) ∧
    state.holdsRetention = true

/-- The rows no consumer that holds retention needs: those of older epochs, and those of the current
epoch at or below every watermark. -/
def Prunable (cf : DefaultFamily) (group : GroupId) (epoch : UInt64) (entry : SearchOutboxEntry) :
    Prop :=
  (∀ state, ¬cf.Retains group state) ∨ entry.epoch < epoch ∨
    entry.epoch = epoch ∧ ∀ state, cf.Retains group state →
      ∃ mark, state.mark epoch = some mark ∧ entry.sourceLogId.index ≤ mark

/-- A row before one that may be pruned may be pruned. -/
theorem Prunable.of_compare {epoch : UInt64} {first second : SearchOutboxEntry}
    (hlt : compare (first.key group) (second.key group) = .lt)
    (hsecond : cf.Prunable group epoch second) : cf.Prunable group epoch first := by
  rw [compare_rowKey, SearchOutboxEntry.compareSource, Ordering.then_assoc, Ordering.then_assoc,
    Ordering.then_eq_lt, UInt64.compare_eq_toNat_compare_toNat,
    Nat.compare_eq_lt, Nat.compare_eq_eq, Ordering.then_eq_lt,
    UInt64.compare_eq_toNat_compare_toNat, Nat.compare_eq_lt, Nat.compare_eq_eq] at hlt
  have hepoch : first.epoch.toNat < second.epoch.toNat ∨ first.epoch = second.epoch ∧
      first.sourceLogId.index ≤ second.sourceLogId.index := by
    rcases hlt with hlt | ⟨heq, hindex⟩
    · exact .inl hlt
    · refine .inr ⟨UInt64.toNat_inj.mp heq, UInt64.le_iff_toNat_le.mpr ?_⟩
      omega
  rcases hsecond with hnone | hold | ⟨hcurrent, hmarks⟩
  · exact .inl hnone
  · refine .inr (.inl ?_)
    rcases hepoch with hlower | ⟨heq, -⟩
    · exact UInt64.lt_trans (UInt64.lt_iff_toNat_lt.mpr hlower) hold
    · exact heq ▸ hold
  · rcases hepoch with hlower | ⟨heq, hindex⟩
    · exact .inr (.inl (hcurrent ▸ UInt64.lt_iff_toNat_lt.mpr hlower))
    · refine .inr (.inr ⟨heq.trans hcurrent, fun state hstate ↦ ?_⟩)
      obtain ⟨mark, hmark, hle⟩ := hmarks state hstate
      exact ⟨mark, hmark, UInt64.le_trans hindex hle⟩

/-- A mark that was collected is that of a consumer. -/
theorem exists_of_mem_marks {mark : SearchConsumerState → Option UInt64}
    {states : List SearchConsumerState} {marks : List UInt64} (h : states.mapM mark = some marks)
    {own : UInt64} (hown : own ∈ marks) : ∃ state ∈ states, mark state = some own := by
  induction states generalizing marks with
  | nil =>
    cases h
    cases hown
  | cons first rest ih =>
    rw [List.mapM_cons] at h
    obtain ⟨head, hhead, h⟩ := Option.bind_eq_some_iff.mp h
    obtain ⟨others, hothers, h⟩ := Option.bind_eq_some_iff.mp h
    cases h
    rcases List.mem_cons.mp hown with rfl | hown
    · exact ⟨first, List.mem_cons_self, hhead⟩
    · obtain ⟨state, hstate, hmark⟩ := ih hothers hown
      exact ⟨state, List.mem_cons_of_mem _ hstate, hmark⟩

/-- Assumes: the consumers that hold retention, and their marks. What the prune tests of a row is
whether it may be pruned. -/
theorem covered_iff {epoch : UInt64} {holders : List SearchConsumerState} {marks : List UInt64}
    (hholders : ∀ state, state ∈ holders ↔ cf.Retains group state)
    (hmarks : holders.mapM (·.mark epoch) = some marks) (entry : SearchOutboxEntry) :
    (holders.isEmpty || decide (entry.epoch < epoch) || (decide (entry.epoch = epoch) &&
      marks.min?.any fun minimum ↦ decide (entry.sourceLogId.index ≤ minimum))) = true ↔
      cf.Prunable group epoch entry := by
  have hlowest : holders ≠ [] →
      ((marks.min?.any fun minimum ↦ decide (entry.sourceLogId.index ≤ minimum)) = true ↔
        ∀ state, cf.Retains group state →
          ∃ mark, state.mark epoch = some mark ∧ entry.sourceLogId.index ≤ mark) := by
    intro hsome
    simp only [Option.any_eq_true, decide_eq_true_eq, ← hholders]
    constructor
    · rintro ⟨minimum, hminimum, hle⟩ state hstate
      obtain ⟨own, hown, hmark⟩ := SearchStore.mem_marks hmarks hstate
      exact ⟨own, hmark, UInt64.le_trans hle ((List.min?_eq_some_iff.mp hminimum).2 own hown)⟩
    · intro hall
      obtain ⟨state, hstate⟩ := List.exists_mem_of_ne_nil _ hsome
      obtain ⟨own, hown, -⟩ := SearchStore.mem_marks hmarks hstate
      obtain ⟨minimum, hminimum⟩ : ∃ minimum, marks.min? = some minimum :=
        Option.ne_none_iff_exists'.mp (by simpa using List.ne_nil_of_mem hown)
      obtain ⟨lowest, hlowest, hmark⟩ :=
        exists_of_mem_marks hmarks (List.min?_eq_some_iff.mp hminimum).1
      obtain ⟨mark, hmark', hle⟩ := hall lowest hlowest
      obtain rfl := Option.some.inj (hmark.symm.trans hmark')
      exact ⟨minimum, hminimum, hle⟩
  rw [Prunable, Bool.or_eq_true, Bool.or_eq_true, Bool.and_eq_true, decide_eq_true_eq,
    decide_eq_true_eq, List.isEmpty_iff, or_assoc]
  have hempty : holders = [] ↔ ∀ state, ¬cf.Retains group state := by
    simp only [List.eq_nil_iff_forall_not_mem, hholders]
  by_cases hnone : holders = []
  · simp only [hnone, true_or, true_iff]
    exact .inl (hempty.mp hnone)
  · rw [hlowest hnone, ← hempty]

/-- Every consumer has a mark. -/
theorem exists_marks {mark : SearchConsumerState → Option UInt64}
    {states : List SearchConsumerState} (h : ∀ state ∈ states, mark state ≠ none) :
    ∃ marks, states.mapM mark = some marks := by
  induction states with
  | nil => exact ⟨[], rfl⟩
  | cons first rest ih =>
    obtain ⟨own, hown⟩ := Option.ne_none_iff_exists'.mp (h first List.mem_cons_self)
    obtain ⟨marks, hmarks⟩ := ih fun state hstate ↦ h state (List.mem_cons_of_mem _ hstate)
    exact ⟨own :: marks, by simp [List.mapM_cons, hown, hmarks]⟩

/-- Assumes: a mark of every consumer that holds retention. A prune deletes exactly the rows that
may be pruned, although it stops at the first row it keeps. -/
theorem WellFormed.prune (h : cf.WellFormed) {partition : UInt16} {epoch : UInt64}
    (hepoch : cf.searchProjectionEpoch (.data partition) = .ok epoch)
    (hmarked : ∀ state, cf.Retains (.data partition) state → state.mark epoch ≠ none) :
    ∃ deleted after, cf.pruneSearchOutbox (.data partition) = .ok (deleted, after) ∧
      (∀ entry : SearchOutboxEntry, entry.userKey.length < 2 ^ 32 →
        cf.Prunable (.data partition) epoch entry →
        after[entry.key (.data partition)]? = none) ∧
      ∀ key : Bytes, (∀ entry : SearchOutboxEntry, entry.userKey.length < 2 ^ 32 →
        cf.Prunable (.data partition) epoch entry → key ≠ entry.key (.data partition)) →
        after[key]? = cf[key]? := by
  obtain ⟨consumers, hconsumers, hstates⟩ := h.exists_searchConsumers (.data partition)
  have hholders (state : SearchConsumerState) :
      state ∈ (consumers.map Prod.snd).filter (·.holdsRetention) ↔
        cf.Retains (.data partition) state := by
    rw [List.mem_filter, hstates, Retains]
  obtain ⟨marks, hmarks⟩ := exists_marks fun state hstate ↦
    hmarked state ((hholders state).mp hstate)
  obtain ⟨entries, hscan, hlength, hentries⟩ := h.scan_outbox (.data partition)
  have hcovered := covered_iff hholders hmarks
  have hordered : entries.Pairwise fun first second ↦
      compare (first.key (.data partition)) (second.key (.data partition)) = .lt := by
    have hsorted := cf.pairwise_scan (searchOutboxPrefix (.data partition))
    rwa [hscan, List.pairwise_map] at hsorted
  have hrows := coveredRows_eq (.data partition) hlength (hordered.imp fun hlt hsecond ↦
    (hcovered _).mpr (((hcovered _).mp hsecond).of_compare hlt))
  refine ⟨_, _, by
    rw [pruneSearchOutbox, hconsumers, ok_bind, hepoch, ok_bind, hmarks]
    simp only [hscan, hrows, ok_bind]
    rfl, fun entry hentry hprunable ↦ ?_, fun key hkey ↦ ?_⟩
  · rw [getElem?_deleteAll]
    split_ifs with hdeleted
    · rfl
    · by_contra hfound
      obtain ⟨record, hrecord⟩ := Option.ne_none_iff_exists'.mp hfound
      obtain ⟨_, -, -, rfl⟩ := h.row_of_isPrefix hrecord (List.prefix_append _ _)
      refine hdeleted
        (List.mem_map_of_mem (List.mem_filter.mpr ⟨?_, (hcovered entry).mpr hprunable⟩))
      exact (hentries entry hentry).mpr hrecord
  · rw [getElem?_deleteAll, if_neg]
    intro hdeleted
    obtain ⟨entry, hentry, rfl⟩ := List.mem_map.mp hdeleted
    obtain ⟨hmem, hprunable⟩ := List.mem_filter.mp hentry
    exact hkey entry (hlength entry hmem) ((hcovered entry).mp hprunable) rfl

end DefaultFamily

/-! ### The records of one group -/

/-- What is stored for a data group and its consumers is what the default column family has under
the prefixes of the group. -/
structure DefaultFamily.Views (partition : UInt16) (cf : DefaultFamily)
    (s : SearchStore) : Prop where
  consumers : cf.searchConsumers (.data partition) = .ok s.consumers.toList
  epoch : cf.searchProjectionEpoch (.data partition) = .ok s.searchProjectionEpoch
  outbox : (cf.scan (searchOutboxPrefix (.data partition))).map Prod.fst = s.store.outbox.keys

namespace DefaultFamily

variable {partition : UInt16} {cf after : DefaultFamily} {s : SearchStore}

theorem coveredRows_eq_coveredKeys (covered : SearchOutboxEntry → Bool)
    (rows : List (Bytes × LocalRecord)) :
    coveredRows (.data partition) covered rows =
      SearchStore.coveredKeys partition covered (rows.map Prod.fst) := by
  induction rows with
  | nil => rfl
  | cons row rows ih => rw [coveredRows, List.map_cons, SearchStore.coveredKeys, ih]

/-- Deleting rows of a group's outbox leaves its other records. -/
theorem Views.deleteRows (h : Views partition cf s) {deleted : List Bytes}
    (hdeleted : ∀ key ∈ deleted, searchOutboxPrefix (.data partition) <+: key) :
    Views partition (cf.writeAll (deleted.map .delete))
      { s with store := { s.store with
          outbox := s.store.outbox.writeAll (deleted.map .delete) } } := by
  have hother {front : Bytes} (hne : ∀ rest, searchOutboxPrefix (.data partition) ++ rest ≠ front) :
      front ∉ deleted := by
    intro hmem
    obtain ⟨rest, hrest⟩ := hdeleted front hmem
    exact hne rest hrest
  have hscan (front : Bytes) : ColumnFamily.scan (cf.writeAll (deleted.map .delete)) front =
      (cf.scan front).filter fun row ↦ decide (row.1 ∉ deleted) := by
    rw [ColumnFamily.scan_eq_filter, ColumnFamily.scan_eq_filter, toList_deleteAll,
      List.filter_filter, List.filter_filter]
    exact List.filter_congr fun row _ ↦ Bool.and_comm _ _
  refine ⟨?_, ?_, ?_⟩
  · rw [← h.consumers, searchConsumers, searchConsumers, hscan, List.filter_eq_self.mpr]
    intro row hrow
    refine decide_eq_true (hother fun rest hrest ↦ ?_)
    obtain ⟨-, tail, htail⟩ := ColumnFamily.mem_scan.mp hrow
    rw [← hrest, searchConsumerPrefix, searchOutboxPrefix, List.append_assoc, List.append_assoc,
      List.append_cancel_left_eq] at htail
    exact absurd (List.cons.inj htail).1 (by decide)
  · have hepoch : searchEpochKey (.data partition) ∉ deleted := hother fun rest hrest ↦ by
      rw [searchOutboxPrefix, searchEpochKey, List.append_assoc,
        List.append_cancel_left_eq] at hrest
      exact absurd (List.cons.inj hrest).1 (by decide)
    have hread := h.epoch
    simp only [searchProjectionEpoch] at hread ⊢
    rw [getElem?_deleteAll, if_neg hepoch]
    exact hread
  · have hkeys {V : Type} (family : ColumnFamily V) : family.keys = family.toList.map Prod.fst :=
      Std.ExtTreeMap.map_fst_toList_eq_keys.symm
    have hfst {V : Type} (rows : List (Bytes × V)) :
        (rows.filter fun row ↦ decide (row.1 ∉ deleted)).map Prod.fst =
          (rows.map Prod.fst).filter fun key ↦ decide (key ∉ deleted) := by
      rw [List.filter_map]
      rfl
    rw [hscan, hkeys, toList_deleteAll, hfst, hfst, h.outbox, hkeys]

/-- A prune of the default column family is a prune of what is stored for the group. -/
theorem Views.prune (h : Views partition cf s) {deleted : ℕ}
    (hprune : cf.pruneSearchOutbox (.data partition) = .ok (deleted, after)) :
    ∃ pruned, s.pruneSearchOutbox partition = .ok (deleted, pruned) ∧
      Views partition after pruned := by
  rw [pruneSearchOutbox, h.consumers, ok_bind, h.epoch, ok_bind] at hprune
  rw [SearchStore.pruneSearchOutbox, SearchStore.holders]
  cases hmarks : ((s.consumers.toList.map Prod.snd).filter (·.holdsRetention)).mapM
      (·.mark s.searchProjectionEpoch) with
  | none =>
    simp only [hmarks] at hprune
    obtain ⟨rfl, rfl⟩ := Prod.mk.inj (Except.ok.inj hprune)
    exact ⟨s, rfl, h⟩
  | some marks =>
    simp only [hmarks] at hprune
    obtain ⟨rows, hrows, hafter⟩ := bind_eq_ok_iff.mp hprune
    obtain ⟨rfl, rfl⟩ := Prod.mk.inj (Except.ok.inj hafter)
    rw [coveredRows_eq_coveredKeys, h.outbox] at hrows
    refine ⟨_, by simp only [hrows, ok_bind]; rfl, h.deleteRows fun key hkey ↦ ?_⟩
    obtain ⟨entry, hentry, -⟩ := SearchStore.exists_covered_of_mem hrows hkey
    rw [(encodes_iff.mp (encodes_of_decode hentry)).2]
    exact List.prefix_append _ _

end DefaultFamily

/-- Outbox keys order and isolate the journal. Decoding inverts encoding and accepts encodings only;
rows of a group are in the order of epoch, index, term and node; of all records a node may keep, a
scan of a group's outbox meets its rows, and a scan of an epoch the rows of the epoch. A prune
deletes exactly the rows of older epochs and those of the current epoch at or below the lowest
watermark, all rows if no consumer holds retention, and no other record, when every consumer that
holds retention has a watermark: the source of its checkpoint if it has one, which must be of the
current epoch, else a floor of the current epoch. -/
theorem outbox_keys_order_and_isolate :
    (∀ (group : GroupId) (entry : SearchOutboxEntry), entry.userKey.length < 2 ^ 32 →
      ∃ row, entry.Encodes group row ∧ decodeOutboxKey group row = .ok entry) ∧
    (∀ (group : GroupId) (row : Bytes) (entry : SearchOutboxEntry),
      decodeOutboxKey group row = .ok entry → entry.Encodes group row) ∧
    (∀ (group : GroupId) (first second : SearchOutboxEntry) (rowFirst rowSecond : Bytes),
      first.Encodes group rowFirst → second.Encodes group rowSecond →
      first.compareSource second ≠ .eq →
      compare rowFirst rowSecond = first.compareSource second) ∧
    ∀ cf : DefaultFamily, cf.WellFormed →
      (∀ (group : GroupId) (row : Bytes × LocalRecord),
        row ∈ cf.scan (searchOutboxPrefix group) ↔
          cf[row.1]? = some row.2 ∧ ∃ entry, SearchOutboxEntry.Encodes group entry row.1) ∧
      (∀ (group : GroupId) (epoch : UInt64) (row : Bytes × LocalRecord),
        row ∈ cf.scan (searchOutboxEpochPrefix group epoch) ↔
          cf[row.1]? = some row.2 ∧
            ∃ entry, SearchOutboxEntry.Encodes group entry row.1 ∧ entry.epoch = epoch) ∧
      ∀ partition : UInt16, ∃ epoch, cf.searchProjectionEpoch (.data partition) = .ok epoch ∧
        ((∀ state, cf.Retains (.data partition) state →
          (∃ checkpoint id, state.checkpoint = some checkpoint ∧
            checkpoint.projectionEpoch = epoch ∧ checkpoint.sourceLogId = some id) ∨
          (state.checkpoint = none ∧ ∃ floor, state.retentionFloor = some (epoch, floor))) →
        ∃ deleted after, cf.pruneSearchOutbox (.data partition) = .ok (deleted, after) ∧
          ∀ key : Bytes,
            ((∃ entry, SearchOutboxEntry.Encodes (.data partition) entry key ∧
              cf.Prunable (.data partition) epoch entry) → after[key]? = none) ∧
            ((¬∃ entry, SearchOutboxEntry.Encodes (.data partition) entry key ∧
              cf.Prunable (.data partition) epoch entry) → after[key]? = cf[key]?)) := by
  refine ⟨fun group entry hlength ↦
    ⟨_, encodes_iff.mpr ⟨hlength, rfl⟩, decodeOutboxKey_key hlength⟩,
    fun group row entry ↦ encodes_of_decode,
    fun group first second rowFirst rowSecond hfirst hsecond hne ↦ ?_,
    fun cf hcf ↦ ⟨fun group row ↦ ?_, fun group epoch row ↦ ?_, fun partition ↦ ?_⟩⟩
  · rw [(encodes_iff.mp hfirst).2, (encodes_iff.mp hsecond).2, compare_rowKey]
    cases horder : first.compareSource second with
    | eq => exact absurd horder hne
    | lt => rfl
    | gt => rfl
  · rw [ColumnFamily.mem_scan]
    refine and_congr_right fun hfound ↦ ⟨fun hfronted ↦ ?_, fun ⟨entry, hentry⟩ ↦ ?_⟩
    · obtain ⟨entry, hlength, hkey, -⟩ := hcf.row_of_isPrefix hfound hfronted
      exact ⟨entry, encodes_iff.mpr ⟨hlength, hkey⟩⟩
    · rw [(encodes_iff.mp hentry).2]
      exact List.prefix_append _ _
  · rw [ColumnFamily.mem_scan]
    refine and_congr_right fun hfound ↦ ⟨fun hfronted ↦ ?_, fun ⟨entry, hentry, hepoch⟩ ↦ ?_⟩
    · obtain ⟨name, hname, hholds⟩ := hcf row.1 row.2 hfound
      rw [← hname] at hfronted ⊢
      obtain ⟨entry, rfl, hepoch⟩ := isPrefix_epoch_bytes_iff.mp hfronted
      exact ⟨entry, encodes_iff.mpr ⟨hholds.2, rfl⟩, hepoch⟩
    · have hrow : searchOutboxEpochPrefix group epoch <+:
          (LocalKey.searchOutbox group entry).bytes :=
        isPrefix_epoch_bytes_iff.mpr ⟨entry, rfl, hepoch⟩
      rwa [(encodes_iff.mp hentry).2]
  · obtain ⟨epoch, hepoch⟩ := hcf.exists_searchProjectionEpoch partition
    refine ⟨epoch, hepoch, fun hmarked ↦ ?_⟩
    obtain ⟨deleted, after, hprune, hdeleted, hkept⟩ := hcf.prune hepoch fun state hstate ↦ by
      rw [Option.ne_none_iff_exists']
      simp only [SearchConsumerState.mark_eq_some_iff]
      obtain ⟨checkpoint, id, hcheckpoint, hcurrent, hid⟩ | ⟨hnone, floor, hfloor⟩ :=
        hmarked state hstate
      · exact ⟨_, .inl ⟨checkpoint, id, hcheckpoint, hcurrent, hid, rfl⟩⟩
      · exact ⟨floor, .inr ⟨hnone, hfloor⟩⟩
    refine ⟨deleted, after, hprune, fun key ↦ ⟨?_, fun hnot ↦ ?_⟩⟩
    · rintro ⟨entry, hentry, hprunable⟩
      obtain ⟨hlength, rfl⟩ := encodes_iff.mp hentry
      exact hdeleted entry hlength hprunable
    · exact hkept key fun entry hlength hprunable hkey ↦
        hnot ⟨entry, encodes_iff.mpr ⟨hlength, hkey⟩, hprunable⟩

/-! ### A journal of two epochs -/

/-- A row of an epoch, for the user key `a`. -/
def sampleRow (epoch index : UInt64) : SearchOutboxEntry := ⟨epoch, ⟨⟨1, 1⟩, index⟩, [97]⟩

def sampleConsumer (checkpoint : Option IndexCheckpoint) : SearchConsumerState :=
  ⟨Vector.replicate 32 0, 2, checkpoint, some (2, 9), false⟩

/-- Partition 0 is in its second epoch, with a row of the first and two of the second, beside the
identity of the node and a row of partition 1. -/
def sampleJournal (checkpoint : Option IndexCheckpoint) : DefaultFamily :=
  let put (cf : DefaultFamily) (name : LocalKey) (record : LocalRecord) : DefaultFamily :=
    cf.insert name.bytes record
  let cf := put (put ∅ .identity (.other [7])) (.searchEpoch (.data 0)) (.epoch 2)
  let cf := put cf (.searchConsumer (.data 0) "t" 1) (.consumer (sampleConsumer checkpoint))
  let cf := put (put cf (.searchOutbox (.data 0) (sampleRow 1 5)) .outboxRow)
    (.searchOutbox (.data 1) (sampleRow 1 5)) .outboxRow
  put (put cf (.searchOutbox (.data 0) (sampleRow 2 9)) .outboxRow)
    (.searchOutbox (.data 0) (sampleRow 2 10)) .outboxRow

theorem wellFormed_sampleJournal (checkpoint : Option IndexCheckpoint) :
    (sampleJournal checkpoint).WellFormed := by
  unfold sampleJournal
  exact (((((((DefaultFamily.WellFormed.empty.insert .identity ⟨[7], rfl⟩).insert
    (.searchEpoch (.data 0)) ⟨2, rfl⟩).insert (.searchConsumer (.data 0) "t" 1) ⟨_, rfl⟩).insert
    (.searchOutbox (.data 0) (sampleRow 1 5)) ⟨rfl, by decide⟩).insert
    (.searchOutbox (.data 1) (sampleRow 1 5)) ⟨rfl, by decide⟩).insert
    (.searchOutbox (.data 0) (sampleRow 2 9)) ⟨rfl, by decide⟩).insert
    (.searchOutbox (.data 0) (sampleRow 2 10)) ⟨rfl, by decide⟩)

/-- The consumer of the journal is the only one. -/
theorem retains_sampleJournal_iff {checkpoint : Option IndexCheckpoint}
    (hread : (sampleJournal checkpoint).searchConsumers (.data 0) =
      .ok [(searchConsumerKey (.data 0) "t" 1, sampleConsumer checkpoint)])
    {state : SearchConsumerState} :
    (sampleJournal checkpoint).Retains (.data 0) state ↔ state = sampleConsumer checkpoint := by
  obtain ⟨consumers, hconsumers, hstates⟩ :=
    (wellFormed_sampleJournal checkpoint).exists_searchConsumers (.data 0)
  obtain rfl := Except.ok.inj (hread.symm.trans hconsumers)
  rw [DefaultFamily.Retains, ← hstates]
  simp only [List.map_cons, List.map_nil, List.mem_singleton]
  exact ⟨And.left, fun h ↦ ⟨h, h ▸ rfl⟩⟩

/-- While the consumer is built from a snapshot at index 9, a prune deletes the row of the first
epoch and the row at index 9, and keeps the row at index 10 and that of the other partition. -/
theorem outbox_keys_order_and_isolate_two_epochs :
    ∃ deleted after, (sampleJournal none).pruneSearchOutbox (.data 0) = .ok (deleted, after) ∧
      after[(sampleRow 1 5).key (.data 0)]? = none ∧ after[(sampleRow 2 9).key (.data 0)]? = none ∧
      after[(sampleRow 2 10).key (.data 0)]? = some .outboxRow := by
  have hread : (sampleJournal none).searchConsumers (.data 0) =
      .ok [(searchConsumerKey (.data 0) "t" 1, sampleConsumer none)] := by
    decide +kernel
  have hretains (state : SearchConsumerState) :
      (sampleJournal none).Retains (.data 0) state ↔ state = sampleConsumer none :=
    retains_sampleJournal_iff hread
  obtain ⟨epoch, hepoch, hprune⟩ :=
    (outbox_keys_order_and_isolate.2.2.2 _ (wellFormed_sampleJournal none)).2.2 0
  have htwo : (sampleJournal none).searchProjectionEpoch (.data 0) = .ok 2 := by decide +kernel
  obtain rfl := Except.ok.inj (htwo.symm.trans hepoch)
  obtain ⟨deleted, after, hdone, hkeys⟩ := hprune fun state hstate ↦
    .inr (by rw [(hretains state).mp hstate]; exact ⟨rfl, 9, rfl⟩)
  refine ⟨deleted, after, hdone, (hkeys _).1 ⟨sampleRow 1 5, encodes_iff.mpr ⟨by decide, rfl⟩,
    .inr (.inl (by decide))⟩, (hkeys _).1 ⟨sampleRow 2 9, encodes_iff.mpr ⟨by decide, rfl⟩,
    .inr (.inr ⟨rfl, fun state hstate ↦ ?_⟩)⟩, ?_⟩
  · rw [(hretains state).mp hstate]
    exact ⟨9, rfl, by decide⟩
  · rw [(hkeys _).2, show (sampleJournal none)[(sampleRow 2 10).key (.data 0)]? = some .outboxRow by
      decide +kernel]
    rintro ⟨entry, hentry, hprunable⟩
    obtain ⟨hlength, hkey⟩ := encodes_iff.mp hentry
    obtain rfl := DefaultFamily.key_inj (by decide) hlength hkey
    obtain hnone | hold | ⟨-, hmarks⟩ := hprunable
    · exact hnone _ ((hretains _).mpr rfl)
    · exact absurd hold (by decide)
    · obtain ⟨mark, hmark, hle⟩ := hmarks _ ((hretains _).mpr rfl)
      obtain rfl : 9 = mark := Option.some.inj hmark
      exact absurd hle (by decide)

/-- A consumer has a floor of the current epoch beside a checkpoint of the epoch before. The
checkpoint decides, and the prune keeps the row of the older epoch. -/
theorem stale_checkpoint_holds_older_rows :
    let checkpoint : IndexCheckpoint := ⟨1, Vector.replicate 32 0, 2, some ⟨⟨1, 1⟩, 5⟩⟩
    let cf := sampleJournal (some checkpoint)
    cf.WellFormed ∧ cf.searchProjectionEpoch (.data 0) = .ok 2 ∧
      (∀ state, cf.Retains (.data 0) state → state.retentionFloor = some (2, 9)) ∧
      cf[(sampleRow 1 5).key (.data 0)]? = some .outboxRow ∧ (sampleRow 1 5).epoch < 2 ∧
      (cf.pruneSearchOutbox (.data 0)).toOption.map
        (fun pruned ↦ (pruned.1, pruned.2[(sampleRow 1 5).key (.data 0)]?)) =
        some (0, some .outboxRow) := by
  intro checkpoint cf
  have hread : (sampleJournal (some checkpoint)).searchConsumers (.data 0) =
      .ok [(searchConsumerKey (.data 0) "t" 1, sampleConsumer (some checkpoint))] := by
    decide +kernel
  refine ⟨wellFormed_sampleJournal _, by decide +kernel, fun state hstate ↦ ?_, by decide +kernel,
    by decide, by decide +kernel⟩
  rw [(retains_sampleJournal_iff hread).mp hstate]
  rfl

end DalService.Search
