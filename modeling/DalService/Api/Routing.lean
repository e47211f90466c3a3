import DalService.Foundation.Returns
import DalService.Types

/-!
# Routing snapshots

`ops.rs`: a client learns routes from a snapshot of the cluster, and checks it before it caches it.
`RoutingInfo.validate` keeps what it has seen of ids, addresses and partitions in sets, as the
source does. `Coherent.validate_eq_ok` says which snapshots it accepts: ids and addresses that are
distinct over the whole directory, and placements of distinct partitions at listed nodes.
-/

set_option autoImplicit false

namespace DalService.Api

open Foundation

/-- A routing snapshot of a cluster. -/
structure RoutingInfo where
  clusterId : ClusterId
  recoveryEpoch : BitVec 128
  p : UInt16
  hashSpec : HashSpec
  directory : List NodeDirectoryEntry
  placements : List (UInt16 × Placement)
  deriving DecidableEq

namespace RoutingInfo

def checkEndpoint (seen : List String) (address : String) : Result (List String) := do
  throwIf (address.isEmpty = true ∨ MAX_ENDPOINT_BYTES < address.utf8ByteSize)
    (.config "routing directory contains an invalid endpoint")
  throwIf (address ∈ seen) (.config "routing directory contains a duplicate endpoint")
  return address :: seen

/-- Check one entry of the directory against the ids and the addresses seen before. -/
def checkEntry (seen : List NodeId × List String) (entry : NodeDirectoryEntry) :
    Result (List NodeId × List String) := do
  throwIf (entry.nodeId = 0 ∨ entry.nodeId ∈ seen.1)
    (.config "routing directory contains a zero or duplicate node id")
  let addresses ← [entry.controlAddr, entry.bulkAddr].foldlM checkEndpoint seen.2
  return (entry.nodeId :: seen.1, addresses)

/-- Check one placement against the directory and the partitions seen before. -/
def checkPlacement (p : UInt16) (nodes : List NodeId) (seen : List UInt16)
    (listed : UInt16 × Placement) : Result (List UInt16) := do
  let (partition, placement) := listed
  throwIf (p ≤ partition ∨ partition ∈ seen)
    (.config "routing snapshot contains an invalid or duplicate partition")
  let voters := voterSet placement.voters
  throwIf (voters = ∅ ∨ voters.card ≠ placement.voters.length ∨ ¬∀ node ∈ voters, node ∈ nodes)
    (.config "routing placement contains invalid voters")
  if let some plan := placement.move then
    let target := voterSet plan.targetVoters
    throwIf (plan.planId = 0 ∨ target.card ≠ plan.targetVoters.length ∨ target.card ≠ voters.card ∨
        (¬∀ node ∈ target, node ∈ nodes) ∨ (target \ voters).card ≠ 1 ∨ (voters \ target).card ≠ 1)
      (.config "routing placement contains an invalid move plan")
  return partition :: seen

/-- Reject a malformed snapshot, or one of another cluster. -/
def validate (info : RoutingInfo) (expectedCluster : ClusterId) : Result Unit := do
  throwIf (info.clusterId ≠ expectedCluster) (.config "routing snapshot has the wrong cluster_id")
  throwIf (info.p = 0) (.config "routing snapshot has zero partitions")
  throwIf (MAX_CLUSTER_NODES < info.directory.length)
    (.config "routing directory exceeds the node limit")
  let (nodes, _) ← info.directory.foldlM checkEntry ([], [])
  let _ ← info.placements.foldlM (checkPlacement info.p nodes) []
  return ()

/-- The control address of a node the directory knows. -/
def controlAddr (info : RoutingInfo) (node : NodeId) : Option String :=
  (info.directory.find? (·.nodeId = node)).map (·.controlAddr)

/-- The candidates of a partition: its voters, and the target of its move. -/
def candidates (info : RoutingInfo) (partition : UInt16) : List NodeId :=
  match info.placements.find? (·.1 = partition) with
  | none => []
  | some (_, placement) =>
    match placement.move with
    | none => placement.voters
    | some plan =>
      plan.targetVoters.foldl (fun out voter ↦ if voter ∈ out then out else out ++ [voter])
        placement.voters

/-! ### What is accepted -/

/-- A placement whose voters are distinct and listed, and whose move exchanges one of them. -/
structure CoherentPlacement (nodes : List NodeId) (placement : Placement) : Prop where
  ne_nil : placement.voters ≠ []
  nodup : placement.voters.Nodup
  listed : ∀ voter ∈ placement.voters, voter ∈ nodes
  move : ∀ plan, placement.move = some plan →
    plan.planId ≠ 0 ∧ plan.targetVoters.Nodup ∧
      plan.targetVoters.length = placement.voters.length ∧
      (∀ voter ∈ plan.targetVoters, voter ∈ nodes) ∧
      (voterSet plan.targetVoters \ voterSet placement.voters).card = 1 ∧
      (voterSet placement.voters \ voterSet plan.targetVoters).card = 1

/-- A snapshot without contradictions. -/
structure Coherent (info : RoutingInfo) : Prop where
  partitions : info.p ≠ 0
  directory_length : info.directory.length ≤ MAX_CLUSTER_NODES
  id_ne_zero : ∀ entry ∈ info.directory, entry.nodeId ≠ 0
  ids : (info.directory.map (·.nodeId)).Nodup
  endpoint : ∀ entry ∈ info.directory, ∀ address ∈ entry.endpoints,
    address.isEmpty = false ∧ address.utf8ByteSize ≤ MAX_ENDPOINT_BYTES
  endpoints_nodup : (info.directory.flatMap (·.endpoints)).Nodup
  partition_lt : ∀ listed ∈ info.placements, listed.1 < info.p
  partitions_nodup : (info.placements.map Prod.fst).Nodup
  placement : ∀ listed ∈ info.placements,
    CoherentPlacement (info.directory.map (·.nodeId)) listed.2

theorem CoherentPlacement.mono {nodes others : List NodeId} {placement : Placement}
    (h : CoherentPlacement nodes placement) (hsub : ∀ node ∈ nodes, node ∈ others) :
    CoherentPlacement others placement := by
  refine ⟨h.ne_nil, h.nodup, fun voter hvoter ↦ hsub voter (h.listed voter hvoter),
    fun plan hplan ↦ ?_⟩
  obtain ⟨hid, hnodup, hlength, hlisted, hexchange⟩ := h.move plan hplan
  exact ⟨hid, hnodup, hlength, fun voter hvoter ↦ hsub voter (hlisted voter hvoter), hexchange⟩

theorem checkEndpoint_eq_ok {seen : List String} {address : String}
    (hvalid : address.isEmpty = false ∧ address.utf8ByteSize ≤ MAX_ENDPOINT_BYTES)
    (hfresh : address ∉ seen) : checkEndpoint seen address = .ok (address :: seen) := by
  simp [checkEndpoint, throwIf, hvalid.1, not_lt.mpr hvalid.2, hfresh, pure, Except.pure]

/-- Assumes: ids and addresses that are distinct, also from those seen before. -/
theorem foldlM_checkEntry_eq_ok {directory : List NodeDirectoryEntry} {ids : List NodeId}
    {addresses : List String} (hzero : ∀ entry ∈ directory, entry.nodeId ≠ 0)
    (hvalid : ∀ entry ∈ directory, ∀ address ∈ entry.endpoints,
      address.isEmpty = false ∧ address.utf8ByteSize ≤ MAX_ENDPOINT_BYTES)
    (hids : (directory.map (·.nodeId) ++ ids).Nodup)
    (haddresses : (directory.flatMap (·.endpoints) ++ addresses).Nodup) :
    directory.foldlM checkEntry (ids, addresses) =
      .ok ((directory.map (·.nodeId)).reverse ++ ids,
        (directory.flatMap (·.endpoints)).reverse ++ addresses) := by
  induction directory generalizing ids addresses with
  | nil => rfl
  | cons entry rest ih =>
    -- what is still to be checked and what was seen stay one list of distinct items
    have hids' : (rest.map (·.nodeId) ++ entry.nodeId :: ids).Nodup :=
      List.perm_middle.nodup_iff.mpr hids
    have haddresses' :
        (rest.flatMap (·.endpoints) ++ entry.bulkAddr :: entry.controlAddr :: addresses).Nodup := by
      refine (List.perm_middle.trans (List.Perm.cons _ List.perm_middle)).nodup_iff.mpr ?_
      exact (List.Perm.swap _ _ _).nodup_iff.mpr haddresses
    have hid : entry.nodeId ∉ ids := (List.nodup_cons.mp (List.nodup_append.mp hids').2.1).1
    have hseen := List.nodup_cons.mp (List.nodup_append.mp haddresses').2.1
    have hendpoint := hvalid entry List.mem_cons_self
    have hentry : checkEntry (ids, addresses) entry =
        .ok (entry.nodeId :: ids, entry.bulkAddr :: entry.controlAddr :: addresses) := by
      simp [checkEntry, throwIf, hzero entry List.mem_cons_self, hid, pure, Except.pure,
        checkEndpoint_eq_ok (hendpoint _ (by simp [NodeDirectoryEntry.endpoints]))
          (List.nodup_cons.mp hseen.2).1,
        checkEndpoint_eq_ok (hendpoint entry.bulkAddr (by simp [NodeDirectoryEntry.endpoints]))
          hseen.1]
    rw [List.foldlM_cons, hentry, ok_bind, ih
      (fun other hother ↦ hzero other (List.mem_cons_of_mem entry hother))
      (fun other hother ↦ hvalid other (List.mem_cons_of_mem entry hother)) hids' haddresses']
    simp [NodeDirectoryEntry.endpoints, List.flatMap_cons]

theorem card_voterSet {voters : List NodeId} (h : voters.Nodup) :
    (voterSet voters).card = voters.length := List.toFinset_card_of_nodup h

theorem CoherentPlacement.check_eq_ok {p : UInt16} {nodes : List NodeId} {seen : List UInt16}
    {partition : UInt16} {placement : Placement} (h : CoherentPlacement nodes placement)
    (hlt : partition < p) (hfresh : partition ∉ seen) :
    checkPlacement p nodes seen (partition, placement) = .ok (partition :: seen) := by
  have hpartition : ¬(p ≤ partition ∨ partition ∈ seen) :=
    not_or.mpr ⟨fun hle ↦ UInt16.lt_irrefl _ (UInt16.lt_of_lt_of_le hlt hle), hfresh⟩
  have hvoters : ¬(voterSet placement.voters = ∅ ∨
      (voterSet placement.voters).card ≠ placement.voters.length ∨
      ¬∀ node ∈ voterSet placement.voters, node ∈ nodes) := by
    rw [not_or, not_or, not_not, not_not]
    exact ⟨fun hempty ↦ h.ne_nil (List.toFinset_eq_empty_iff _ |>.mp hempty), card_voterSet h.nodup,
      fun node hnode ↦ h.listed node (List.mem_toFinset.mp hnode)⟩
  unfold checkPlacement
  dsimp only
  rw [throwIf_of_not hpartition, ok_bind, throwIf_of_not hvoters, ok_bind]
  cases hmove : placement.move with
  | none => rfl
  | some plan =>
    obtain ⟨hid, hnodup, hlength, hlisted, hadded, hremoved⟩ := h.move plan hmove
    have hplan : ¬(plan.planId = 0 ∨
        (voterSet plan.targetVoters).card ≠ plan.targetVoters.length ∨
        (voterSet plan.targetVoters).card ≠ (voterSet placement.voters).card ∨
        (¬∀ node ∈ voterSet plan.targetVoters, node ∈ nodes) ∨
        (voterSet plan.targetVoters \ voterSet placement.voters).card ≠ 1 ∨
        (voterSet placement.voters \ voterSet plan.targetVoters).card ≠ 1) := by
      simp only [hid, card_voterSet hnodup, card_voterSet h.nodup, hlength, hadded, hremoved, ne_eq,
        not_true_eq_false, false_or, or_false, not_not]
      exact fun node hnode ↦ hlisted node (List.mem_toFinset.mp hnode)
    dsimp only
    rw [throwIf_of_not hplan, ok_bind]
    rfl

theorem foldlM_checkPlacement_eq_ok {p : UInt16} {nodes : List NodeId}
    {placements : List (UInt16 × Placement)} {seen : List UInt16}
    (hlt : ∀ listed ∈ placements, listed.1 < p)
    (hnodup : (placements.map Prod.fst ++ seen).Nodup)
    (hcoherent : ∀ listed ∈ placements, CoherentPlacement nodes listed.2) :
    placements.foldlM (checkPlacement p nodes) seen =
      .ok ((placements.map Prod.fst).reverse ++ seen) := by
  induction placements generalizing seen with
  | nil => rfl
  | cons listed rest ih =>
    have hnodup' : (rest.map Prod.fst ++ listed.1 :: seen).Nodup :=
      List.perm_middle.nodup_iff.mpr hnodup
    have hfresh : listed.1 ∉ seen := (List.nodup_cons.mp (List.nodup_append.mp hnodup').2.1).1
    have hfirst : checkPlacement p nodes seen listed = .ok (listed.1 :: seen) :=
      (hcoherent listed List.mem_cons_self).check_eq_ok (hlt listed List.mem_cons_self) hfresh
    rw [List.foldlM_cons, hfirst, ok_bind, ih
      (fun other hother ↦ hlt other (List.mem_cons_of_mem listed hother)) hnodup'
      (fun other hother ↦ hcoherent other (List.mem_cons_of_mem listed hother))]
    simp

/-- A coherent snapshot is accepted by a client of its cluster. -/
theorem Coherent.validate_eq_ok {info : RoutingInfo} (h : info.Coherent) :
    info.validate info.clusterId = .ok () := by
  have hdirectory : info.directory.foldlM checkEntry ([], []) =
      .ok ((info.directory.map (·.nodeId)).reverse ++ [],
        (info.directory.flatMap (·.endpoints)).reverse ++ []) :=
    foldlM_checkEntry_eq_ok h.id_ne_zero h.endpoint (by simpa using h.ids)
      (by simpa using h.endpoints_nodup)
  have hplacements : info.placements.foldlM
      (checkPlacement info.p ((info.directory.map (·.nodeId)).reverse ++ [])) [] =
        .ok ((info.placements.map Prod.fst).reverse ++ []) := by
    refine foldlM_checkPlacement_eq_ok h.partition_lt (by simpa using h.partitions_nodup) ?_
    intro listed hlisted
    exact (h.placement listed hlisted).mono fun node hnode ↦ by simpa using hnode
  unfold validate
  rw [throwIf_of_not (not_not.mpr rfl), ok_bind, throwIf_of_not h.partitions, ok_bind,
    throwIf_of_not (not_lt.mpr h.directory_length), ok_bind, hdirectory, ok_bind]
  dsimp only
  rw [hplacements, ok_bind]
  rfl

/-! ### Candidates -/

/-- Adding the missing ones of a list to distinct items gives all of them, each once. -/
theorem foldl_addMissing (targets : List NodeId) {out : List NodeId} (hout : out.Nodup) :
    (targets.foldl (fun out voter ↦ if voter ∈ out then out else out ++ [voter]) out).Nodup ∧
      ∀ voter, voter ∈ targets.foldl (fun out voter ↦ if voter ∈ out then out else out ++ [voter])
        out ↔ voter ∈ out ∨ voter ∈ targets := by
  induction targets generalizing out with
  | nil => simp [hout]
  | cons target rest ih =>
    rw [List.foldl_cons]
    split_ifs with hmem
    · refine ⟨(ih hout).1, fun voter ↦ ?_⟩
      rw [(ih hout).2, List.mem_cons]
      constructor
      · rintro (h | h)
        · exact .inl h
        · exact .inr (.inr h)
      · rintro (h | rfl | h)
        · exact .inl h
        · exact .inl hmem
        · exact .inr h
    · have hadded : (out ++ [target]).Nodup := by
        refine List.nodup_append.mpr
          ⟨hout, List.nodup_singleton target, fun other hother last hlast ↦ ?_⟩
        rw [List.mem_singleton.mp hlast]
        exact ne_of_mem_of_not_mem hother hmem
      refine ⟨(ih hadded).1, fun voter ↦ ?_⟩
      rw [(ih hadded).2, List.mem_append, List.mem_singleton, List.mem_cons, or_assoc]

/-- Assumes: the only placement the snapshot has for the partition. Its candidates are its voters
and its targets, each once. -/
theorem mem_candidates {info : RoutingInfo} {partition : UInt16} {placement : Placement}
    (hfind : info.placements.find? (·.1 = partition) = some (partition, placement))
    (hnodup : placement.voters.Nodup) :
    (info.candidates partition).Nodup ∧ ∀ voter, voter ∈ info.candidates partition ↔
      voter ∈ placement.voters ∨
        ∃ plan, placement.move = some plan ∧ voter ∈ plan.targetVoters := by
  unfold candidates
  rw [hfind]
  dsimp only
  cases hmove : placement.move with
  | none => simp [hnodup]
  | some plan =>
    dsimp only
    obtain ⟨hkept, hmem⟩ := foldl_addMissing plan.targetVoters hnodup
    exact ⟨hkept, fun voter ↦ by simp [hmem]⟩

theorem controlAddr_of_mem {info : RoutingInfo} {node : NodeId}
    (h : node ∈ info.directory.map (·.nodeId)) :
    ∃ entry ∈ info.directory, info.controlAddr node = some entry.controlAddr := by
  obtain ⟨entry, hentry, hid⟩ := List.mem_map.mp h
  cases hfind : info.directory.find? (·.nodeId = node) with
  | none => exact absurd (decide_eq_true hid) (List.find?_eq_none.mp hfind entry hentry)
  | some found => exact ⟨found, List.mem_of_find?_eq_some hfind, by simp [controlAddr, hfind]⟩

/-- The placement of a partition in a list that names each partition once is the one found. -/
theorem find?_placement {placements : List (UInt16 × Placement)} {partition : UInt16}
    {placement : Placement} (hnodup : (placements.map Prod.fst).Nodup)
    (hmem : (partition, placement) ∈ placements) :
    placements.find? (·.1 = partition) = some (partition, placement) := by
  induction placements with
  | nil => cases hmem
  | cons first rest ih =>
    rw [List.map_cons, List.nodup_cons] at hnodup
    rcases List.mem_cons.mp hmem with rfl | hrest
    · simp
    · have hne : first.1 ≠ partition := fun heq ↦
        hnodup.1 (heq ▸ List.mem_map.mpr ⟨_, hrest, rfl⟩)
      rw [List.find?_cons_of_neg (by simpa using hne), ih hnodup.2 hrest]

/-- The candidates of a partition of a coherent snapshot are distinct, they are its voters and its
targets, and each has a control address. -/
theorem Coherent.candidates {info : RoutingInfo} (h : info.Coherent) {partition : UInt16}
    {placement : Placement} (hmem : (partition, placement) ∈ info.placements) :
    (info.candidates partition).Nodup ∧
      (∀ voter, voter ∈ info.candidates partition ↔ voter ∈ placement.voters ∨
        ∃ plan, placement.move = some plan ∧ voter ∈ plan.targetVoters) ∧
      ∀ voter ∈ info.candidates partition, ∃ address, info.controlAddr voter = some address := by
  have hplacement := h.placement _ hmem
  obtain ⟨hnodup, hcandidates⟩ :=
    mem_candidates (find?_placement h.partitions_nodup hmem) hplacement.nodup
  refine ⟨hnodup, hcandidates, fun voter hvoter ↦ ?_⟩
  have hlisted : voter ∈ info.directory.map (·.nodeId) := by
    rcases (hcandidates voter).mp hvoter with hcurrent | ⟨plan, hmove, htarget⟩
    · exact hplacement.listed voter hcurrent
    · obtain ⟨-, -, -, hlisted, -⟩ := hplacement.move plan hmove
      exact hlisted voter htarget
  obtain ⟨entry, -, haddress⟩ := controlAddr_of_mem hlisted
  exact ⟨entry.controlAddr, haddress⟩

end RoutingInfo

end DalService.Api
