import DalService.Meta.RoutingSnapshot
import DalService.Meta.SearchCatalog
import DalService.Transport.Codec

/-!
# The size of replies built from replicated state

A routing snapshot and the whole search catalog each go into one frame, whose payload is bounded.
The meta group bounds what they are made of as it applies commands: the nodes and their endpoints,
the shape of the cluster, the number of search indexes and the size of each record. In every state
it can reach both replies fit their frame: `replies_fit_their_frame`.
-/

set_option autoImplicit false

namespace DalService.Meta

open Foundation Bincode Keyspace MetaStateMachine Api Search Transport

/-! ### Encodings -/

instance : Bincode NodeState :=
  ⟨fun
    | .active => variant 0
    | .suspect => variant 1
    | .down => variant 2
    | .draining => variant 3⟩

instance : Bincode NodeDirectoryEntry :=
  ⟨fun entry ↦ encode entry.nodeId ++ encode entry.controlAddr ++
    encode entry.bulkAddr ++ encode entry.state ++ encode entry.incarnation⟩

instance : Bincode HashSpec :=
  ⟨fun spec ↦
    (match spec.algo with
      | .xxh64 => variant 0) ++ encode spec.seed⟩

instance : Bincode LogId := ⟨fun logId ↦ encode logId.term ++ encode logId.index⟩

instance : Bincode MovePlan :=
  ⟨fun plan ↦ encode plan.planId ++ encode plan.targetVoters ++
    encode plan.aborting⟩

instance : Bincode Placement :=
  ⟨fun placed ↦ encode placed.voters ++ encode placed.votersLogId ++
    encode placed.move⟩

instance : Bincode RoutingInfo :=
  ⟨fun info ↦ encode info.clusterId ++ encode info.recoveryEpoch ++
    encode info.p ++ encode info.hashSpec ++ encode info.directory ++
    encode info.placements⟩

/-- What a catalog query is answered with. -/
inductive SearchCatalogReply
  | record (record : Option SearchIndexRecord)
  | catalog (records : List SearchIndexRecord)
  | unavailable
  | error (message : String)
  | denied (message : String)
  deriving DecidableEq, Repr

instance : Bincode SearchCatalogReply :=
  ⟨fun
    | .record record => variant 0 ++ encode record
    | .catalog records => variant 1 ++ encode records
    | .unavailable => variant 2
    | .error message => variant 3 ++ encode message
    | .denied message => variant 4 ++ encode message⟩

/-- The records of the catalog, in the order of their keys. -/
def scanSearchCatalog (s : Storage) : Result (List SearchIndexRecord) :=
  (scanPrefix s metaSearchIndexPrefix).mapM fun entry ↦
    match entry.2 with
    | .searchIndex record => .ok record
    | _ => .error (.codec "search catalog record")

/-! ### The sizes -/

theorem encodedLen_nodeState (state : NodeState) : encodedLen state = 4 := by
  cases state <;> rfl

theorem encodedLen_directoryEntry_le {id : NodeId} {entry : NodeDirectoryEntry}
    (h : WellListed id entry) : encodedLen entry ≤ DIRECTORY_ENTRY_BUDGET := by
  have hlen : encodedLen entry =
      8 + (8 + entry.controlAddr.utf8ByteSize) + (8 + entry.bulkAddr.utf8ByteSize) + 4 + 8 := by
    change (encode entry.nodeId ++ encode entry.controlAddr ++
      encode entry.bulkAddr ++ encode entry.state ++
      encode entry.incarnation).length = _
    simp only [List.length_append, length_encode, encodedLen_uInt64,
      encodedLen_string, encodedLen_nodeState]
  have hcontrol := h.control_size
  have hbulk := h.bulk_size
  rw [hlen]
  simp only [DIRECTORY_ENTRY_BUDGET]
  omega

theorem encodedLen_voters (voters : List NodeId) :
    encodedLen voters = 8 + 8 * voters.length := by
  rw [encodedLen_list]
  have hsizes : voters.map encodedLen = List.replicate voters.length 8 :=
    List.map_eq_replicate_iff.mpr fun _ _ ↦ encodedLen_uInt64 _
  rw [hsizes, List.sum_replicate, smul_eq_mul, Nat.mul_comm]

theorem encodedLen_placement_le {v : MetaView} {config : ClusterConfig} {partition : UInt16}
    {placed : Placement} (h : Shaped v config placed (.data partition)) :
    encodedLen (partition, placed) ≤ PLACEMENT_FIXED_BUDGET + 2 * config.r.toNat * 8 := by
  obtain ⟨-, hvoters, hmove⟩ := h
  have hplaced : encodedLen placed = encodedLen placed.voters +
      encodedLen placed.votersLogId + encodedLen placed.move := by
    change (encode placed.voters ++ encode placed.votersLogId ++
      encode placed.move).length = _
    simp only [List.length_append, length_encode]
  have hlogId : encodedLen placed.votersLogId = 16 := by
    change (encode placed.votersLogId.term ++
      encode placed.votersLogId.index).length = _
    simp
  have hplan : encodedLen placed.move ≤ 18 + 8 * config.r.toNat := by
    cases hplanned : placed.move with
    | none =>
      rw [encodedLen_none]
      omega
    | some plan =>
      have hlen : encodedLen plan = 8 + encodedLen plan.targetVoters + 1 := by
        change (encode plan.planId ++ encode plan.targetVoters ++
          encode plan.aborting).length = _
        simp only [List.length_append, length_encode, encodedLen_uInt64,
          encodedLen_bool]
      rw [encodedLen_some, hlen, encodedLen_voters, (hmove plan hplanned).1.length_eq]
      omega
  rw [encodedLen_prod, encodedLen_uInt16, hplaced, hlogId, encodedLen_voters,
    hvoters.length_eq]
  simp only [PLACEMENT_FIXED_BUDGET]
  omega

/-- An accepted shape leaves room for its largest snapshot. -/
theorem estimate_le_of_validateRoutingShape {p : UInt16} {r : UInt8}
    (h : validateRoutingShape p r = .ok ()) :
    ROUTING_FIXED_HEADROOM + MAX_CLUSTER_NODES * DIRECTORY_ENTRY_BUDGET +
      p.toNat * (PLACEMENT_FIXED_BUDGET + 2 * r.toNat * 8) ≤ MAX_ROUTING_PAYLOAD_BYTES := by
  have hdirectory : checkedMul MAX_CLUSTER_NODES DIRECTORY_ENTRY_BUDGET =
      some (MAX_CLUSTER_NODES * DIRECTORY_ENTRY_BUDGET) := rfl
  have hbase : checkedAdd ROUTING_FIXED_HEADROOM (MAX_CLUSTER_NODES * DIRECTORY_ENTRY_BUDGET) =
      some (ROUTING_FIXED_HEADROOM + MAX_CLUSTER_NODES * DIRECTORY_ENTRY_BUDGET) := rfl
  unfold validateRoutingShape at h
  simp only [hdirectory, hbase, Option.bind_some] at h
  split_ifs at h with hr
  · cases h
  cases hplacement : checkedMul p.toNat (PLACEMENT_FIXED_BUDGET + 2 * r.toNat * 8) with
  | none =>
    rw [hplacement] at h
    cases h
  | some placement =>
    obtain ⟨-, hproduct⟩ := Option.ite_none_right_eq_some.mp hplacement
    rw [hplacement] at h
    dsimp only at h
    cases hsum : checkedAdd (ROUTING_FIXED_HEADROOM + MAX_CLUSTER_NODES * DIRECTORY_ENTRY_BUDGET)
        placement with
    | none =>
      rw [hsum] at h
      cases h
    | some estimate =>
      obtain ⟨-, htotal⟩ := Option.ite_none_right_eq_some.mp hsum
      rw [hsum] at h
      dsimp only at h
      split_ifs at h with hfits
      rw [Option.some.inj hproduct, Option.some.inj htotal]
      exact not_lt.mp hfits

theorem encodedLen_routingInfo_le {info : RoutingInfo} {r : UInt8}
    (hshape : validateRoutingShape info.p r = .ok ())
    (hcount : info.directory.length ≤ MAX_CLUSTER_NODES)
    (hentries : ∀ entry ∈ info.directory, encodedLen entry ≤ DIRECTORY_ENTRY_BUDGET)
    (hpartitions : info.placements.length ≤ info.p.toNat)
    (hplacements : ∀ placed ∈ info.placements,
      encodedLen placed ≤ PLACEMENT_FIXED_BUDGET + 2 * r.toNat * 8) :
    encodedLen info ≤ MAX_ROUTING_PAYLOAD_BYTES := by
  have hlen : encodedLen info = 46 + encodedLen info.directory +
      encodedLen info.placements := by
    change (encode info.clusterId ++ encode info.recoveryEpoch ++
      encode info.p ++ encode info.hashSpec ++ encode info.directory ++
      encode info.placements).length = _
    have hspec : encodedLen info.hashSpec = 12 := by
      change (_ ++ encode info.hashSpec.seed).length = _
      cases info.hashSpec.algo
      simp
    simp only [List.length_append, length_encode, encodedLen_bitVec,
      encodedLen_uInt16, hspec]
  have hdirectory := encodedLen_list_le hentries
  have hplaced := encodedLen_list_le hplacements
  have hnodes := Nat.mul_le_mul_right DIRECTORY_ENTRY_BUDGET hcount
  have hparts := Nat.mul_le_mul_right (PLACEMENT_FIXED_BUDGET + 2 * r.toNat * 8) hpartitions
  have hestimate := estimate_le_of_validateRoutingShape hshape
  have hheadroom : 62 ≤ ROUTING_FIXED_HEADROOM := by decide
  rw [hlen]
  omega

theorem encodedLen_catalog_le {records : List SearchIndexRecord}
    (hcount : records.length ≤ SEARCH_MAX_INDEXES)
    (hsizes : ∀ record ∈ records, encodedLen record ≤ SEARCH_MAX_CATALOG_BYTES) :
    encodedLen (SearchCatalogReply.catalog records) ≤ SEARCH_MAX_CATALOG_FRAME_BYTES := by
  have hlen : encodedLen (SearchCatalogReply.catalog records) =
      4 + encodedLen records := by
    change (variant 1 ++ encode records).length = _
    rw [List.length_append, length_variant, length_encode]
  have hheadroom : 12 ≤ 64 * 1024 := by decide
  calc encodedLen (SearchCatalogReply.catalog records)
      = 4 + encodedLen records := hlen
    _ ≤ 4 + (8 + records.length * SEARCH_MAX_CATALOG_BYTES) :=
      Nat.add_le_add_left (encodedLen_list_le hsizes) 4
    _ ≤ 4 + (8 + SEARCH_MAX_INDEXES * SEARCH_MAX_CATALOG_BYTES) :=
      Nat.add_le_add_left (Nat.add_le_add_left (Nat.mul_le_mul_right _ hcount) 8) 4
    _ = SEARCH_MAX_INDEXES * SEARCH_MAX_CATALOG_BYTES + 12 := by
      rw [← Nat.add_assoc, Nat.add_comm]
    _ ≤ SEARCH_MAX_CATALOG_FRAME_BYTES := Nat.add_le_add_left hheadroom _

theorem scanSearchCatalog_eq {s : Storage} {records : List SearchIndexRecord}
    (h : scanPrefix s metaSearchIndexPrefix =
      records.map fun record ↦ (metaSearchIndexKey record.name, MetaValue.searchIndex record)) :
    scanSearchCatalog s = .ok records := by
  rw [scanSearchCatalog, h, List.mapM_map]
  exact (mapM_eq_ok (g := id) fun _ _ ↦ rfl).trans (congrArg Except.ok (List.map_id records))

/-! ### The invariants the sizes rest on -/

variable {prims : Primitives} {identity : Option Identity} {v next : MetaView} {entry : Entry}

/-- The shape of the cluster was accepted, and the catalog has room. -/
structure Bounded (v : MetaView) : Prop where
  shape : ∀ config, v.cluster = some config → validateRoutingShape config.p config.r = .ok ()
  count : v.indexNames.ncard ≤ SEARCH_MAX_INDEXES

theorem Bounded.empty (epoch : BitVec 128) : Bounded (MetaView.empty epoch) := by
  refine ⟨fun _ h ↦ (by cases h), ?_⟩
  have hempty : (MetaView.empty epoch).indexNames = ∅ := by
    simp [MetaView.indexNames, MetaView.empty]
  rw [hempty, Set.ncard_empty]
  exact Nat.zero_le _

theorem Bounded.step (h : Bounded v) (hstep : Step prims identity v entry next) : Bounded next := by
  refine ⟨fun config hconfig ↦ ?_, ?_⟩
  · rcases hstep with rfl | heffect
    · exact h.shape config hconfig
    rcases heffect.control_cases with hdirectory | ⟨group, found, -, rfl⟩ | hsame
    · generalize entry.2 = cmd at hdirectory
      cases hdirectory with
      | clusterInit written _ _ _ _ _ _ _ _ hshape =>
        cases hconfig
        exact hshape
      | registerNode | setNodeState | retireNode => exact h.shape config hconfig
    · exact h.shape config hconfig
    · rw [hsame.cluster] at hconfig
      exact h.shape config hconfig
  · rcases index_cases hstep with ⟨hsame, -⟩ | ⟨name, index, hchange, hnext, -⟩
    · rw [indexNames_eq_of_searchIndex hsame]
      exact h.count
    · exact hchange.count hnext h.count

theorem length_routingPlacements_le (s : Storage) (p : UInt16) :
    (routingPlacements s p).length ≤ p.toNat :=
  (List.length_filterMap_le _ _).trans List.length_range.le

variable (prims) in
/-- In every state that a replica of the meta group reaches, whatever commands it applies: once the
cluster record is there, the routing snapshot of the state fits the payload of a meta query, and the
reply with all records of the search catalog fits the payload of a catalog query. -/
theorem replies_fit_their_frame (identity : Option Identity) (epoch : Option (BitVec 128))
    (entries : List Entry) :
    ∃ results s, run (step prims) (emptyStorage identity epoch) entries = .ok (results, s) ∧
      (∀ config, (view s.state).cluster = some config →
        ∃ info, routingInfo s config = .ok info ∧
          encodedLen info ≤ MsgType.metaQuery.maxPayload) ∧
      ∃ records, scanSearchCatalog s = .ok records ∧
        (∀ name record, (view s.state).searchIndex name = some record ↔
          record ∈ records ∧ record.name = name) ∧
        encodedLen (SearchCatalogReply.catalog records) ≤
          MsgType.searchCatalogQuery.maxPayload := by
  obtain ⟨results, s, hrun, -, hwell, htrace⟩ := exists_run prims identity epoch entries
  have hbounded : Bounded (view s.state) :=
    htrace.stable (fun hstep h ↦ h.step hstep) (Bounded.empty _)
  refine ⟨results, s, hrun, fun config hconfig ↦ ?_, ?_⟩
  · have hdirectory := DirectoryInvariant.trace htrace
    have hplaced : PlacementInvariant (view s.state) :=
      htrace.stable (fun hstep h ↦ h.step hstep) (PlacementInvariant.empty _)
    obtain ⟨directory, hread, hlists⟩ := hwell.directory_returns
    refine ⟨_, hwell.routingInfo_eq config hread,
      encodedLen_routingInfo_le (hbounded.shape config hconfig)
      (hlists.ncard_listed ▸ hdirectory.count) (fun entry hentry ↦ ?_)
      (length_routingPlacements_le s config.p) fun item hmem ↦ ?_⟩
    · exact encodedLen_directoryEntry_le (hdirectory.entries _ entry (hlists.node_of_mem hentry))
    · obtain ⟨partition, placed⟩ := item
      obtain ⟨-, hplacement⟩ := (mem_routingPlacements hwell).mp hmem
      obtain ⟨config', hconfig', hshaped⟩ := hplaced.shaped _ _ hplacement
      cases hconfig.symm.trans hconfig'
      exact encodedLen_placement_le hshaped
  · obtain ⟨records, hscan, hcatalogs⟩ := hwell.catalog_returns
    refine ⟨records, scanSearchCatalog_eq hscan, hcatalogs.searchIndex_eq_some_iff,
      encodedLen_catalog_le (hcatalogs.ncard_indexNames ▸ hbounded.count) fun record hrecord ↦ ?_⟩
    have hstored := (hcatalogs.searchIndex_eq_some_iff record.name record).mpr ⟨hrecord, rfl⟩
    exact (SearchIndexRecord.validate_eq_ok_iff.mp (hwell.searchIndex_valid hstored).2).2.2.2.2

end DalService.Meta
