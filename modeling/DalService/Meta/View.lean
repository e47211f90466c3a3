import DalService.Foundation.Returns
import DalService.Meta.StateMachine

/-!
# The records of the meta group, read by what they name

A key of the meta group's column family names a record: `MetaKey` lists what can be named, and no
two of them share a key (`MetaKey.bytes_injective`). `Holds` says which record may stand under which
key, and `WellFormed` that a column family holds nothing else. In a well-formed state every read and
every prefix scan of the state machine succeeds, and returns what the view of the state says.

`MetaView` is the abstract state: a function from names to records for each kind. `view` reads it
off a column family, and each mutation the state machine makes is one update of it.
-/

set_option autoImplicit false

namespace DalService.Meta

open Foundation Keyspace DalService.Search

/-! ### Names of records -/

/-- What a key of the meta group names. -/
inductive MetaKey
  | cluster
  | maintenance
  | node (id : NodeId)
  | retired (id : NodeId)
  | placement (group : GroupId)
  | searchIndex (name : String)
  | ready (name : String) (generation : SearchIndexGenerationId) (group : GroupId) (nodeId : NodeId)
  | recoveryEpoch
  | lastApplied
  deriving DecidableEq, Repr

namespace MetaKey

def bytes : MetaKey → Bytes
  | cluster => metaClusterKey
  | maintenance => metaMaintenanceKey
  | node id => metaNodeKey id
  | retired id => metaRetiredNodeKey id
  | placement group => metaPlacementKey group
  | searchIndex name => metaSearchIndexKey name
  | ready name generation group nodeId => metaSearchReadyKey name generation group nodeId
  | recoveryEpoch => recoveryEpochKey
  | lastApplied => lastAppliedKey

/-- The two bytes a key starts with. -/
def kind : MetaKey → Bytes
  | cluster => [TAG_META, 'C'.toUInt8]
  | maintenance => [TAG_META, 'M'.toUInt8]
  | node _ => metaNodePrefix
  | retired _ => [TAG_META, 'X'.toUInt8]
  | placement _ => [TAG_META, 'P'.toUInt8]
  | searchIndex _ => metaSearchIndexPrefix
  | ready .. => [TAG_META, 's'.toUInt8]
  | recoveryEpoch => [TAG_INTERNAL, 'E'.toUInt8]
  | lastApplied => [TAG_INTERNAL, 'L'.toUInt8]

theorem take_bytes (key : MetaKey) : key.bytes.take 2 = key.kind := by
  cases key <;> rfl

theorem bytes_injective : Function.Injective bytes := by
  intro first second h
  have hkind : first.kind = second.kind := by rw [← take_bytes, ← take_bytes, h]
  cases first <;> cases second <;> dsimp only [kind] at hkind <;> first
    | rfl
    | exact absurd hkind (by decide)
    | skip
  · rw [metaNodeKey_injective h]
  · rw [metaRetiredNodeKey_injective h]
  · rw [metaPlacementKey_injective h]
  · rw [metaSearchIndexKey_injective h]
  · obtain ⟨rfl, rfl, rfl, rfl⟩ := metaSearchReadyKey_inj h
    rfl

@[simp] theorem bytes_inj {first second : MetaKey} : first.bytes = second.bytes ↔ first = second :=
  bytes_injective.eq_iff

/-- A key under a prefix that starts with two bytes has that kind. -/
theorem kind_of_isPrefix {key : MetaKey} {keyPrefix : Bytes} (h : keyPrefix <+: key.bytes)
    (hlength : 2 ≤ keyPrefix.length) : key.kind = keyPrefix.take 2 := by
  rw [← take_bytes]
  obtain ⟨rest, hrest⟩ := h
  rw [← hrest, List.take_append_of_le_length hlength]

end MetaKey

/-! ### Well-formed states -/

variable (prims : Primitives)

/-- The records that may stand under a key: of the key's kind, naming what the key names, and past
the checks made when they were written. -/
inductive Holds : MetaKey → MetaValue → Prop
  | cluster (config : ClusterConfig) : Holds .cluster (.cluster config)
  | maintenance (record : MaintenanceRecord) : Holds .maintenance (.maintenance record)
  | node (entry : NodeDirectoryEntry) : Holds (.node entry.nodeId) (.node entry)
  | retired (id : NodeId) (incarnation : UInt64) : Holds (.retired id) (.retired incarnation)
  | placement (group : GroupId) (placed : Placement) :
    Holds (.placement group) (.placement placed)
  | searchIndex (record : SearchIndexRecord) (hvalid : record.validate prims = .ok ()) :
    Holds (.searchIndex record.name) (.searchIndex record)
  | ready (name : String) (ready : SearchIndexReady) (hname : validateIndexName name = .ok ()) :
    Holds (.ready name ready.generation ready.group ready.nodeId) (.ready ready)
  | recoveryEpoch (epoch : BitVec 128) : Holds .recoveryEpoch (.epoch epoch)
  | lastApplied (logId : LogId) : Holds .lastApplied (.lastApplied logId)

/-- Every record of the column family may stand under its key. -/
def WellFormed (cf : MetaState) : Prop :=
  ∀ key value, cf[key]? = some value → ∃ name : MetaKey, key = name.bytes ∧ Holds prims name value

variable {prims}

theorem WellFormed.holds {cf : MetaState} (hcf : WellFormed prims cf) {name : MetaKey}
    {value : MetaValue} (h : cf[name.bytes]? = some value) : Holds prims name value := by
  obtain ⟨other, hother, hholds⟩ := hcf _ _ h
  rwa [MetaKey.bytes_injective hother]

theorem WellFormed.empty : WellFormed prims ∅ := by
  intro key value h
  rw [Std.ExtTreeMap.getElem?_empty] at h
  simp at h

/-- Assumes: a well-formed state, and a mutation that puts what may stand under its key. -/
theorem WellFormed.write {cf : MetaState} (hcf : WellFormed prims cf) {m : StateMutation}
    (hm : ∀ value, m.value = some value → ∃ name : MetaKey, m.key = name.bytes ∧
      Holds prims name value) :
    WellFormed prims (ColumnFamily.write cf m) := by
  intro key value h
  rw [ColumnFamily.getElem?_write] at h
  split_ifs at h with hkey
  · exact hkey ▸ hm value h
  · exact hcf key value h

theorem WellFormed.put {cf : MetaState} (hcf : WellFormed prims cf) {name : MetaKey}
    {value : MetaValue} (h : Holds prims name value) :
    WellFormed prims (ColumnFamily.write cf (.put name.bytes value)) := by
  refine hcf.write fun written hwritten ↦ ⟨name, rfl, ?_⟩
  rwa [← Option.some.inj hwritten]

theorem WellFormed.delete {cf : MetaState} (hcf : WellFormed prims cf) (key : Bytes) :
    WellFormed prims (ColumnFamily.write cf (.delete key)) :=
  hcf.write fun _ hwritten ↦ by cases hwritten

theorem WellFormed.deletes {cf : MetaState} (hcf : WellFormed prims cf) (keys : List Bytes) :
    WellFormed prims (cf.writeAll (keys.map .delete)) := by
  induction keys generalizing cf with
  | nil => exact hcf
  | cons key keys ih => exact ih (hcf.delete key)

/-! ### The view of a state -/

/-- The records of the meta group by what they name. -/
@[ext] structure MetaView where
  cluster : Option ClusterConfig
  maintenance : Option MaintenanceRecord
  node : NodeId → Option NodeDirectoryEntry
  retired : NodeId → Option UInt64
  placement : GroupId → Option Placement
  searchIndex : String → Option SearchIndexRecord
  ready : String → SearchIndexGenerationId → GroupId → NodeId → Option SearchIndexReady
  recoveryEpoch : BitVec 128

/-- The record of a type under a name, if there is one. -/
def lookup (T : Type) [Record MetaValue T] (cf : MetaState) (name : MetaKey) : Option T :=
  cf[name.bytes]?.bind Record.decode

/-- The view of a column family. -/
def view (cf : MetaState) : MetaView where
  cluster := lookup ClusterConfig cf .cluster
  maintenance := lookup MaintenanceRecord cf .maintenance
  node id := lookup NodeDirectoryEntry cf (.node id)
  retired id := lookup UInt64 cf (.retired id)
  placement group := lookup Placement cf (.placement group)
  searchIndex name := lookup SearchIndexRecord cf (.searchIndex name)
  ready name generation group nodeId :=
    lookup SearchIndexReady cf (.ready name generation group nodeId)
  recoveryEpoch := (lookup (BitVec 128) cf .recoveryEpoch).getD 0

namespace MetaView

/-- The nodes of the directory. -/
def listed (v : MetaView) : Set NodeId := {id | (v.node id).isSome}

/-- The active nodes of the directory. -/
def active (v : MetaView) : Set NodeId :=
  {id | ∃ entry, v.node id = some entry ∧ entry.state = .active}

/-- The names of the search catalog. -/
def indexNames (v : MetaView) : Set String := {name | (v.searchIndex name).isSome}

/-- A maintenance operation is open. -/
def Frozen (v : MetaView) : Prop :=
  ∃ record, v.maintenance = some record ∧ record.stage ≠ .released

/-- The view without any record but a recovery epoch. -/
def empty (recoveryEpoch : BitVec 128) : MetaView where
  cluster := none
  maintenance := none
  node _ := none
  retired _ := none
  placement _ := none
  searchIndex _ := none
  ready _ _ _ _ := none
  recoveryEpoch := recoveryEpoch

end MetaView

/-! ### What writing does to the view -/

theorem lookup_put (T : Type) [Record MetaValue T] (cf : MetaState) (written name : MetaKey)
    (value : MetaValue) :
    lookup T (ColumnFamily.write cf (.put written.bytes value)) name =
      if written = name then Record.decode value else lookup T cf name := by
  unfold lookup
  rw [ColumnFamily.getElem?_write]
  by_cases h : written = name <;> simp [h]

theorem lookup_delete (T : Type) [Record MetaValue T] (cf : MetaState) (written name : MetaKey) :
    lookup T (ColumnFamily.write cf (.delete written.bytes)) name =
      if written = name then none else lookup T cf name := by
  unfold lookup
  rw [ColumnFamily.getElem?_write]
  by_cases h : written = name <;> simp [h]

section Writes

open Function (update update_apply)

theorem update_eq_ite {K T : Type} [DecidableEq K] (f : K → T) (name : K) (value : T) :
    (fun other ↦ if name = other then value else f other) = update f name value := by
  funext other
  rw [update_apply]
  exact if_congr eq_comm rfl rfl

variable (cf : MetaState)

theorem view_put_cluster (config : ClusterConfig) :
    view (ColumnFamily.write cf (.put metaClusterKey (.cluster config))) =
      { view cf with cluster := some config } := by
  change view (ColumnFamily.write cf (.put MetaKey.cluster.bytes _)) = _
  ext1 <;> simp [view, lookup_put]
  rfl

theorem view_put_maintenance (record : MaintenanceRecord) :
    view (ColumnFamily.write cf (.put metaMaintenanceKey (.maintenance record))) =
      { view cf with maintenance := some record } := by
  change view (ColumnFamily.write cf (.put MetaKey.maintenance.bytes _)) = _
  ext1 <;> simp [view, lookup_put]
  rfl

theorem view_put_node (id : NodeId) (entry : NodeDirectoryEntry) :
    view (ColumnFamily.write cf (.put (metaNodeKey id) (.node entry))) =
      { view cf with node := update (view cf).node id (some entry) } := by
  change view (ColumnFamily.write cf (.put (MetaKey.node id).bytes _)) = _
  ext1 <;> simp [view, lookup_put]
  exact update_eq_ite ..

theorem view_delete_node (id : NodeId) :
    view (ColumnFamily.write cf (.delete (metaNodeKey id))) =
      { view cf with node := update (view cf).node id none } := by
  change view (ColumnFamily.write cf (.delete (MetaKey.node id).bytes)) = _
  ext1 <;> simp [view, lookup_delete]
  exact update_eq_ite ..

theorem view_put_retired (id : NodeId) (incarnation : UInt64) :
    view (ColumnFamily.write cf (.put (metaRetiredNodeKey id) (.retired incarnation))) =
      { view cf with retired := update (view cf).retired id (some incarnation) } := by
  change view (ColumnFamily.write cf (.put (MetaKey.retired id).bytes _)) = _
  ext1 <;> simp [view, lookup_put]
  exact update_eq_ite ..

theorem view_put_placement (group : GroupId) (placed : Placement) :
    view (ColumnFamily.write cf (.put (metaPlacementKey group) (.placement placed))) =
      { view cf with placement := update (view cf).placement group (some placed) } := by
  change view (ColumnFamily.write cf (.put (MetaKey.placement group).bytes _)) = _
  ext1 <;> simp [view, lookup_put]
  exact update_eq_ite ..

theorem view_put_searchIndex (name : String) (record : SearchIndexRecord) :
    view (ColumnFamily.write cf (.put (metaSearchIndexKey name) (.searchIndex record))) =
      { view cf with searchIndex := update (view cf).searchIndex name (some record) } := by
  change view (ColumnFamily.write cf (.put (MetaKey.searchIndex name).bytes _)) = _
  ext1 <;> simp [view, lookup_put]
  exact update_eq_ite ..

theorem view_delete_searchIndex (name : String) :
    view (ColumnFamily.write cf (.delete (metaSearchIndexKey name))) =
      { view cf with searchIndex := update (view cf).searchIndex name none } := by
  change view (ColumnFamily.write cf (.delete (MetaKey.searchIndex name).bytes)) = _
  ext1 <;> simp [view, lookup_delete]
  exact update_eq_ite ..

/-- The readiness reports after one more report. -/
def MetaView.setReady (v : MetaView) (name : String) (ready : SearchIndexReady) : MetaView :=
  { v with ready := fun other generation group nodeId ↦
      if other = name ∧ generation = ready.generation ∧ group = ready.group ∧
          nodeId = ready.nodeId then
        some ready
      else v.ready other generation group nodeId }

/-- The readiness reports without those of one generation. -/
def MetaView.clearReady (v : MetaView) (name : String) (generation : SearchIndexGenerationId) :
    MetaView :=
  { v with ready := fun other otherGeneration group nodeId ↦
      if other = name ∧ otherGeneration = generation then none
      else v.ready other otherGeneration group nodeId }

theorem view_put_ready (name : String) (ready : SearchIndexReady) :
    view (ColumnFamily.write cf
        (.put (metaSearchReadyKey name ready.generation ready.group ready.nodeId) (.ready ready))) =
      (view cf).setReady name ready := by
  change view (ColumnFamily.write cf
    (.put (MetaKey.ready name ready.generation ready.group ready.nodeId).bytes _)) = _
  ext1 <;> simp [view, lookup_put, MetaView.setReady]
  funext other generation group nodeId
  refine if_congr ?_ rfl rfl
  simp only [eq_comm]

theorem view_put_lastApplied (logId : LogId) :
    view (ColumnFamily.write cf (.put lastAppliedKey (.lastApplied logId))) = view cf := by
  change view (ColumnFamily.write cf (.put MetaKey.lastApplied.bytes _)) = _
  ext1 <;> simp [view, lookup_put]

end Writes

/-! ### Reading a well-formed state -/

section Reads

variable {s : Storage}

theorem getStateRecord_eq {T : Type} [Record MetaValue T] (name : MetaKey)
    (h : ∀ value, s.state[name.bytes]? = some value →
      ∃ record : T, Record.decode value = some record) :
    getStateRecord T s name.bytes = .ok (lookup T s.state name) := by
  unfold getStateRecord lookup
  cases hread : s.state[name.bytes]? with
  | none => rfl
  | some value =>
    obtain ⟨record, hrecord⟩ := h value hread
    simp [decode, hrecord]

theorem mem_scanPrefix {keyPrefix key : Bytes} {value : MetaValue} :
    (key, value) ∈ scanPrefix s keyPrefix ↔ s.state[key]? = some value ∧ keyPrefix <+: key := by
  rw [scanPrefix, List.mem_filter, Std.ExtTreeMap.mem_toList_iff_getElem?_eq_some,
    List.isPrefixOf_iff_prefix]

theorem nodup_scanPrefix (keyPrefix : Bytes) : ((scanPrefix s keyPrefix).map Prod.fst).Nodup := by
  have hdistinct := Std.ExtTreeMap.distinct_keys_toList (t := s.state)
  rw [List.Nodup, List.pairwise_map]
  exact (hdistinct.filter _).imp fun hne heq ↦ hne (Std.compare_eq_iff_eq.mpr heq)

variable (hs : WellFormed prims s.state)

include hs

theorem WellFormed.cluster_eq : MetaStateMachine.cluster s = .ok (view s.state).cluster := by
  refine getStateRecord_eq .cluster fun value hvalue ↦ ?_
  cases hs.holds hvalue
  exact ⟨_, rfl⟩

theorem WellFormed.maintenance_eq :
    MetaStateMachine.maintenance s = .ok (view s.state).maintenance := by
  refine getStateRecord_eq .maintenance fun value hvalue ↦ ?_
  cases hs.holds hvalue
  exact ⟨_, rfl⟩

theorem WellFormed.node_eq (id : NodeId) :
    MetaStateMachine.node s id = .ok ((view s.state).node id) := by
  refine getStateRecord_eq (.node id) fun value hvalue ↦ ?_
  cases hs.holds hvalue
  exact ⟨_, rfl⟩

theorem WellFormed.retired_eq (id : NodeId) :
    MetaStateMachine.retired s id = .ok ((view s.state).retired id) := by
  refine getStateRecord_eq (.retired id) fun value hvalue ↦ ?_
  cases hs.holds hvalue
  exact ⟨_, rfl⟩

theorem WellFormed.placement_eq (group : GroupId) :
    MetaStateMachine.placement s group = .ok ((view s.state).placement group) := by
  refine getStateRecord_eq (.placement group) fun value hvalue ↦ ?_
  cases hs.holds hvalue
  exact ⟨_, rfl⟩

theorem WellFormed.ready_eq (name : String) (generation : SearchIndexGenerationId)
    (group : GroupId) (nodeId : NodeId) :
    getStateRecord SearchIndexReady s (metaSearchReadyKey name generation group nodeId) =
      .ok ((view s.state).ready name generation group nodeId) := by
  refine getStateRecord_eq (.ready name generation group nodeId) fun value hvalue ↦ ?_
  cases hs.holds hvalue
  exact ⟨_, rfl⟩

theorem WellFormed.recoveryEpoch_eq : s.recoveryEpoch = .ok (view s.state).recoveryEpoch := by
  have hread : getStateRecord (BitVec 128) s recoveryEpochKey =
      .ok (lookup (BitVec 128) s.state .recoveryEpoch) := by
    refine getStateRecord_eq .recoveryEpoch fun value hvalue ↦ ?_
    cases hs.holds hvalue
    exact ⟨_, rfl⟩
  rw [Storage.recoveryEpoch, hread]
  rfl

/-- A directory entry stands under its own id. -/
theorem WellFormed.nodeId_eq {id : NodeId} {entry : NodeDirectoryEntry}
    (h : (view s.state).node id = some entry) : entry.nodeId = id := by
  obtain ⟨value, hvalue, hdecode⟩ := Option.bind_eq_some_iff.mp h
  cases hs.holds hvalue
  cases hdecode
  rfl

/-- A catalog record stands under its own name and passes its check. -/
theorem WellFormed.searchIndex_valid {name : String} {record : SearchIndexRecord}
    (h : (view s.state).searchIndex name = some record) :
    record.name = name ∧ record.validate prims = .ok () := by
  obtain ⟨value, hvalue, hdecode⟩ := Option.bind_eq_some_iff.mp h
  cases hs.holds hvalue with
  | searchIndex stored hvalid =>
    cases hdecode
    exact ⟨rfl, hvalid⟩

theorem WellFormed.indexName_valid {name : String} {record : SearchIndexRecord}
    (h : (view s.state).searchIndex name = some record) : validateIndexName name = .ok () := by
  obtain ⟨hnamed, hvalid⟩ := hs.searchIndex_valid h
  exact hnamed ▸ (SearchIndexRecord.validate_eq_ok_iff.mp hvalid).1

theorem WellFormed.searchIndex_eq (name : String) :
    MetaStateMachine.searchIndex prims s name = .ok ((view s.state).searchIndex name) := by
  have hread : getStateRecord SearchIndexRecord s (metaSearchIndexKey name) =
      .ok ((view s.state).searchIndex name) := by
    refine getStateRecord_eq (.searchIndex name) fun value hvalue ↦ ?_
    cases hs.holds hvalue
    exact ⟨_, rfl⟩
  rw [MetaStateMachine.searchIndex, hread, ok_bind]
  cases hrecord : (view s.state).searchIndex name with
  | none => rfl
  | some record =>
    simp only [(hs.searchIndex_valid hrecord).2]
    rfl

end Reads

/-! ### Scanning a well-formed state -/

/-- Assumes: a list of the elements of a set, each once. Its length is the size of the set. -/
theorem ncard_eq_length {T : Type} {elements : Set T} {items : List T} (hnodup : items.Nodup)
    (h : ∀ item, item ∈ items ↔ item ∈ elements) : elements.ncard = items.length := by
  classical
  have hset : elements = (items.toFinset : Set T) := by
    ext item
    rw [Finset.mem_coe, List.mem_toFinset, h]
  rw [hset, Set.ncard_coe_finset, List.toFinset_card_of_nodup hnodup]

/-- The entries of the directory, each once. -/
structure MetaView.Lists (v : MetaView) (entries : List NodeDirectoryEntry) : Prop where
  node_eq_some_iff : ∀ id entry, v.node id = some entry ↔ entry ∈ entries ∧ entry.nodeId = id
  nodup : (entries.map (·.nodeId)).Nodup

/-- The records of the search catalog, each once. -/
structure MetaView.Catalogs (v : MetaView) (records : List SearchIndexRecord) : Prop where
  searchIndex_eq_some_iff :
    ∀ name record, v.searchIndex name = some record ↔ record ∈ records ∧ record.name = name
  nodup : (records.map (·.name)).Nodup

namespace MetaView.Lists

variable {v : MetaView} {entries : List NodeDirectoryEntry} (h : v.Lists entries)

include h

theorem node_of_mem {entry : NodeDirectoryEntry} (hentry : entry ∈ entries) :
    v.node entry.nodeId = some entry := (h.node_eq_some_iff _ _).mpr ⟨hentry, rfl⟩

theorem ncard_listed : v.listed.ncard = entries.length := by
  rw [← List.length_map (·.nodeId)]
  refine ncard_eq_length h.nodup fun id ↦ ?_
  rw [List.mem_map, MetaView.listed, Set.mem_ofPred_eq, Option.isSome_iff_exists]
  simp only [h.node_eq_some_iff]

theorem mem_active_iff {id : NodeId} :
    id ∈ (entries.filter fun entry ↦ entry.state = .active).map (·.nodeId) ↔ id ∈ v.active := by
  simp only [List.mem_map, List.mem_filter, decide_eq_true_eq, MetaView.active, Set.mem_ofPred_eq,
    h.node_eq_some_iff]
  constructor
  · rintro ⟨entry, ⟨hentry, hactive⟩, hid⟩
    exact ⟨entry, ⟨hentry, hid⟩, hactive⟩
  · rintro ⟨entry, ⟨hentry, hid⟩, hactive⟩
    exact ⟨entry, ⟨hentry, hactive⟩, hid⟩

theorem ncard_active :
    v.active.ncard = (entries.filter fun entry ↦ entry.state = .active).length := by
  rw [← List.length_map (·.nodeId)]
  exact ncard_eq_length (h.nodup.sublist (List.filter_sublist.map _)) fun _ ↦ h.mem_active_iff

end MetaView.Lists

theorem MetaView.Catalogs.ncard_indexNames {v : MetaView} {records : List SearchIndexRecord}
    (h : v.Catalogs records) : v.indexNames.ncard = records.length := by
  rw [← List.length_map (·.name)]
  refine ncard_eq_length h.nodup fun name ↦ ?_
  rw [List.mem_map, MetaView.indexNames, Set.mem_ofPred_eq, Option.isSome_iff_exists]
  simp only [h.searchIndex_eq_some_iff]

section Scans

variable {s : Storage}

/-- Assumes: what stands under a prefix are records of one type, each under its own key. The scan of
the prefix lists them. -/
theorem exists_records {T : Type} [Record MetaValue T] (recordKey : T → Bytes) (keyPrefix : Bytes)
    (h : ∀ key value, s.state[key]? = some value → keyPrefix <+: key →
      ∃ record : T, key = recordKey record ∧ value = Record.encode record) :
    ∃ records : List T,
      scanPrefix s keyPrefix = records.map (fun record ↦ (recordKey record, Record.encode record)) ∧
        (∀ record, record ∈ records ↔
          s.state[recordKey record]? = some (Record.encode record) ∧
            keyPrefix <+: recordKey record) ∧
        (records.map recordKey).Nodup := by
  have hrange : scanPrefix s keyPrefix ∈
      Set.range (List.map fun record : T ↦ (recordKey record, Record.encode record)) := by
    rw [Set.range_list_map]
    rintro ⟨key, value⟩ hentry
    obtain ⟨hvalue, hunder⟩ := mem_scanPrefix.mp hentry
    obtain ⟨record, rfl, rfl⟩ := h key value hvalue hunder
    exact ⟨record, rfl⟩
  obtain ⟨records, hrecords⟩ := hrange
  have hencode : Function.Injective fun record : T ↦
      (recordKey record, (Record.encode record : MetaValue)) := by
    intro first second heq
    have hdecoded := congrArg (fun pair ↦ (Record.decode pair.2 : Option T)) heq
    simpa using hdecoded
  refine ⟨records, hrecords.symm, fun record ↦ ?_, ?_⟩
  · rw [← mem_scanPrefix, ← hrecords, List.mem_map_of_injective hencode]
  · have hnodup := nodup_scanPrefix (s := s) keyPrefix
    rwa [← hrecords, List.map_map] at hnodup

theorem mapM_decode_eq {T : Type} [Record MetaValue T] (recordKey : T → Bytes) (records : List T) :
    (records.map fun record ↦ (recordKey record, (Record.encode record : MetaValue))).mapM
      (fun entry ↦ decode T entry.2) = .ok records := by
  rw [List.mapM_map, mapM_eq_ok (g := id), List.map_id]
  intro record _
  simp [decode]

variable (hs : WellFormed prims s.state)

include hs

/-- What stands under the prefix of the directory is a directory entry. -/
theorem WellFormed.node_of_isPrefix {key : Bytes} {value : MetaValue}
    (hvalue : s.state[key]? = some value) (hunder : metaNodePrefix <+: key) :
    ∃ entry : NodeDirectoryEntry, key = metaNodeKey entry.nodeId ∧ value = .node entry := by
  obtain ⟨name, rfl, hholds⟩ := hs key value hvalue
  have hkind := MetaKey.kind_of_isPrefix hunder (by decide)
  cases hholds with
  | node entry => exact ⟨entry, rfl, rfl⟩
  | _ =>
    dsimp only [MetaKey.kind] at hkind
    exact absurd hkind (by decide)

/-- What stands under the prefix of the catalog is a catalog record that passes its check. -/
theorem WellFormed.searchIndex_of_isPrefix {key : Bytes} {value : MetaValue}
    (hvalue : s.state[key]? = some value) (hunder : metaSearchIndexPrefix <+: key) :
    ∃ record : SearchIndexRecord, key = metaSearchIndexKey record.name ∧
      value = .searchIndex record ∧ record.validate prims = .ok () := by
  obtain ⟨name, rfl, hholds⟩ := hs key value hvalue
  have hkind := MetaKey.kind_of_isPrefix hunder (by decide)
  cases hholds with
  | searchIndex record hvalid => exact ⟨record, rfl, rfl, hvalid⟩
  | _ =>
    dsimp only [MetaKey.kind] at hkind
    exact absurd hkind (by decide)

/-- What stands under the prefix of readiness reports is a readiness report. -/
theorem WellFormed.ready_of_isPrefix {name : String} {generation : SearchIndexGenerationId}
    {key : Bytes} {value : MetaValue} (hvalue : s.state[key]? = some value)
    (hunder : metaSearchReadyPrefix name generation <+: key) :
    ∃ (other : String) (ready : SearchIndexReady), validateIndexName other = .ok () ∧
      key = metaSearchReadyKey other ready.generation ready.group ready.nodeId ∧
      value = .ready ready := by
  obtain ⟨stored, rfl, hholds⟩ := hs key value hvalue
  have hkind : stored.kind = [TAG_META, 's'.toUInt8] :=
    MetaKey.kind_of_isPrefix hunder (by simp [metaSearchReadyPrefix])
  cases hholds with
  | ready other ready hother => exact ⟨other, ready, hother, rfl, rfl⟩
  | _ =>
    dsimp only [MetaKey.kind] at hkind
    exact absurd hkind (by decide)

/-- Assumes: a name that passed its check. What stands under the prefix of one of its generations is
a readiness report of that generation. -/
theorem WellFormed.ready_of_isPrefix_name {name : String} (hname : validateIndexName name = .ok ())
    {generation : SearchIndexGenerationId} {key : Bytes} {value : MetaValue}
    (hvalue : s.state[key]? = some value)
    (hunder : metaSearchReadyPrefix name generation <+: key) :
    ∃ ready : SearchIndexReady, ready.generation = generation ∧
      key = metaSearchReadyKey name ready.generation ready.group ready.nodeId ∧
      value = .ready ready := by
  obtain ⟨other, ready, hother, rfl, hready⟩ := hs.ready_of_isPrefix hvalue hunder
  have hsmall : ∀ {text : String}, validateIndexName text = .ok () → text.utf8ByteSize < 2 ^ 32 :=
    fun h ↦ lt_of_le_of_lt (utf8ByteSize_le_of_validateIndexName h) (by decide)
  obtain ⟨rfl, rfl⟩ := metaSearchReadyPrefix_isPrefix (hsmall hname) (hsmall hother) hunder
  exact ⟨ready, rfl, rfl, hready⟩

theorem WellFormed.directory_returns :
    Returns (MetaStateMachine.directory s) (view s.state).Lists := by
  obtain ⟨entries, hscan, hmem, hnodup⟩ := exists_records
    (fun entry : NodeDirectoryEntry ↦ metaNodeKey entry.nodeId) metaNodePrefix
    fun key value ↦ hs.node_of_isPrefix
  refine ⟨entries, ?_, fun id entry ↦ ?_, ?_⟩
  · rw [MetaStateMachine.directory, hscan, mapM_decode_eq]
  · constructor
    · intro h
      obtain rfl := hs.nodeId_eq h
      obtain ⟨value, hvalue, hdecode⟩ := Option.bind_eq_some_iff.mp h
      cases value <;> cases hdecode
      exact ⟨(hmem entry).mpr ⟨hvalue, List.prefix_append _ _⟩, rfl⟩
    · rintro ⟨hentry, rfl⟩
      exact Option.bind_eq_some_iff.mpr ⟨_, ((hmem entry).mp hentry).1, rfl⟩
  · exact List.Nodup.of_map metaNodeKey (by rwa [List.map_map])

theorem WellFormed.catalog_returns :
    ∃ records, scanPrefix s metaSearchIndexPrefix =
        records.map (fun record ↦ (metaSearchIndexKey record.name, MetaValue.searchIndex record)) ∧
      (view s.state).Catalogs records := by
  obtain ⟨records, hscan, hmem, hnodup⟩ := exists_records
    (fun record : SearchIndexRecord ↦ metaSearchIndexKey record.name) metaSearchIndexPrefix
    fun key value hvalue hunder ↦ by
      obtain ⟨record, hkey, hrecord, -⟩ := hs.searchIndex_of_isPrefix hvalue hunder
      exact ⟨record, hkey, hrecord⟩
  refine ⟨records, hscan, fun name record ↦ ?_, ?_⟩
  · constructor
    · intro h
      obtain ⟨rfl, -⟩ := hs.searchIndex_valid h
      obtain ⟨value, hvalue, hdecode⟩ := Option.bind_eq_some_iff.mp h
      cases value <;> cases hdecode
      refine ⟨(hmem record).mpr ⟨hvalue, ?_⟩, rfl⟩
      rw [metaSearchIndexKey, List.append_assoc]
      exact List.prefix_append _ _
    · rintro ⟨hrecord, rfl⟩
      exact Option.bind_eq_some_iff.mpr ⟨_, ((hmem record).mp hrecord).1, rfl⟩
  · exact List.Nodup.of_map metaSearchIndexKey (by rwa [List.map_map])

/-- Assumes: a name that passed its check. The scan of a generation lists its readiness reports. -/
theorem WellFormed.readiness_returns {name : String} (hname : validateIndexName name = .ok ())
    (generation : SearchIndexGenerationId) :
    ∃ readiness : List SearchIndexReady,
      scanPrefix s (metaSearchReadyPrefix name generation) = readiness.map (fun ready ↦
        (metaSearchReadyKey name ready.generation ready.group ready.nodeId,
          MetaValue.ready ready)) ∧
      ∀ ready, ready ∈ readiness ↔ ready.generation = generation ∧
        (view s.state).ready name generation ready.group ready.nodeId = some ready := by
  obtain ⟨readiness, hscan, hmem, -⟩ := exists_records
    (fun ready : SearchIndexReady ↦
      metaSearchReadyKey name ready.generation ready.group ready.nodeId)
    (metaSearchReadyPrefix name generation) fun key value hvalue hunder ↦ by
      obtain ⟨ready, -, hkey, hready⟩ := hs.ready_of_isPrefix_name hname hvalue hunder
      exact ⟨ready, hkey, hready⟩
  refine ⟨readiness, hscan, fun ready ↦ ?_⟩
  rw [hmem]
  constructor
  · rintro ⟨hvalue, hunder⟩
    obtain ⟨other, rfl, -, hother⟩ := hs.ready_of_isPrefix_name hname hvalue hunder
    cases hother
    exact ⟨rfl, Option.bind_eq_some_iff.mpr ⟨_, hvalue, rfl⟩⟩
  · rintro ⟨rfl, h⟩
    obtain ⟨value, hvalue, hdecode⟩ := Option.bind_eq_some_iff.mp h
    cases value <;> cases hdecode
    refine ⟨hvalue, ?_⟩
    rw [metaSearchReadyKey, List.append_assoc]
    exact List.prefix_append _ _

end Scans

/-! ### Clearing the readiness reports of a generation -/

theorem lookup_deletes (T : Type) [Record MetaValue T] (cf : MetaState) (keys : List Bytes)
    (name : MetaKey) :
    lookup T (cf.writeAll (keys.map .delete)) name =
      if name.bytes ∈ keys then none else lookup T cf name := by
  induction keys generalizing cf with
  | nil => rfl
  | cons key keys ih =>
    rw [List.map_cons, ColumnFamily.writeAll_cons, ih]
    unfold lookup
    rw [ColumnFamily.getElem?_write]
    by_cases hkeys : name.bytes ∈ keys
    · simp [hkeys]
    · by_cases hkey : key = name.bytes
      · simp [hkey]
      · simp [hkeys, hkey, Ne.symm hkey]

/-- Assumes: keys of readiness reports of one generation, among them every report stored. Deleting
them clears the reports of the generation and nothing else. -/
theorem view_deletes_ready {cf : MetaState} {keys : List Bytes} {name : String}
    {generation : SearchIndexGenerationId}
    (hkeys : ∀ key : MetaKey, key.bytes ∈ keys →
      ∃ group nodeId, key = .ready name generation group nodeId)
    (hall : ∀ group nodeId, (MetaKey.ready name generation group nodeId).bytes ∈ keys ∨
      (view cf).ready name generation group nodeId = none) :
    view (cf.writeAll (keys.map .delete)) = (view cf).clearReady name generation := by
  have hother : ∀ (T : Type) [Record MetaValue T] (key : MetaKey),
      (∀ group nodeId, key ≠ .ready name generation group nodeId) →
      lookup T (cf.writeAll (keys.map .delete)) key = lookup T cf key := by
    intro T _ key hkey
    rw [lookup_deletes, if_neg]
    intro hmem
    obtain ⟨group, nodeId, heq⟩ := hkeys key hmem
    exact hkey group nodeId heq
  ext1
  · exact hother _ .cluster (by simp)
  · exact hother _ .maintenance (by simp)
  · exact funext fun id ↦ hother _ (.node id) (by simp)
  · exact funext fun id ↦ hother _ (.retired id) (by simp)
  · exact funext fun group ↦ hother _ (.placement group) (by simp)
  · exact funext fun index ↦ hother _ (.searchIndex index) (by simp)
  · funext other otherGeneration group nodeId
    change lookup SearchIndexReady _ (.ready other otherGeneration group nodeId) =
      if other = name ∧ otherGeneration = generation then none
      else (view cf).ready other otherGeneration group nodeId
    by_cases hsame : other = name ∧ otherGeneration = generation
    · obtain ⟨rfl, rfl⟩ := hsame
      rw [if_pos ⟨rfl, rfl⟩, lookup_deletes]
      rcases hall group nodeId with hmem | hnone
      · rw [if_pos hmem]
      · exact ite_eq_left_iff.mpr fun _ ↦ hnone
    · rw [if_neg hsame]
      exact hother _ _ (by simp only [ne_eq, MetaKey.ready.injEq]; grind)
  · exact congrArg (Option.getD · 0) (hother _ .recoveryEpoch (by simp))

section Clears

variable {s : Storage} {name : String} {generation : SearchIndexGenerationId}

/-- Assumes: a name that passed its check. The scan of a generation lists keys of its readiness
reports only. -/
theorem WellFormed.ready_of_mem_scan (hs : WellFormed prims s.state)
    (hname : validateIndexName name = .ok ()) (key : MetaKey)
    (hkey : key.bytes ∈ (scanPrefix s (metaSearchReadyPrefix name generation)).map Prod.fst) :
    ∃ group nodeId, key = .ready name generation group nodeId := by
  obtain ⟨⟨found, value⟩, hentry, hfound⟩ := List.mem_map.mp hkey
  obtain ⟨hvalue, hunder⟩ := mem_scanPrefix.mp hentry
  obtain ⟨ready, rfl, hready, -⟩ := hs.ready_of_isPrefix_name hname hvalue hunder
  refine ⟨ready.group, ready.nodeId, MetaKey.bytes_injective ?_⟩
  rw [← hfound, hready]
  rfl

/-- The scan of a generation lists every readiness report stored. -/
theorem mem_scan_of_ready (group : GroupId) (nodeId : NodeId) :
    (MetaKey.ready name generation group nodeId).bytes ∈
        (scanPrefix s (metaSearchReadyPrefix name generation)).map Prod.fst ∨
      (view s.state).ready name generation group nodeId = none := by
  cases hvalue : s.state[(MetaKey.ready name generation group nodeId).bytes]? with
  | none =>
    refine .inr ?_
    change lookup _ _ _ = none
    rw [lookup, hvalue]
    rfl
  | some value =>
    refine .inl (List.mem_map.mpr ⟨(_, value), mem_scanPrefix.mpr ⟨hvalue, ?_⟩, rfl⟩)
    rw [MetaKey.bytes, metaSearchReadyKey, List.append_assoc]
    exact List.prefix_append _ _

end Clears

end DalService.Meta
