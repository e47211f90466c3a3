import DalService.Meta.Run

/-!
# Bootstrap

`bootstrap.rs`: the cluster record, the node directory and the initial placements are committed as a
list of commands (`seedCommands`). A process that stops is started again and proposes the list from
its beginning, while the failure detector of the leader may already be at work. The system is
`Seeding.Next`: the list proposed any number of times, each time up to any point, with liveness
transitions in between.

A state of it holds nothing but parts of the descriptor (`Seeded`). The cluster record and the
registrations are accepted in any such state, whatever the nodes' liveness (`clusterInit_accepted`,
`registerNode_accepted`); an initial placement is accepted when its voters are active
(`seedPlacement_accepted`), also if it is already there. That check comes before the one for a
retry, so a placement proposed again while one of its voters is suspect is refused
(`suspect_voter_refuses_retry`). `seeding_idempotent` is about the runs in which no placement is
proposed at such a time.
-/

set_option autoImplicit false

namespace DalService.Meta

open Foundation MetaStateMachine

/-- The coordinates of one node in a descriptor. -/
structure DirEntry where
  nodeId : NodeId
  controlAddr : String
  bulkAddr : String
  deriving DecidableEq, Repr

/-- The immutable bootstrap descriptor. -/
structure BootstrapDescriptor where
  clusterId : ClusterId
  config : ClusterConfig
  metaVoters : List NodeId
  directory : List DirEntry
  dataPlacements : List (UInt16 × List NodeId)
  deriving DecidableEq, Repr

/-- The commands a bootstrap proposes, in order. -/
def seedCommands (desc : BootstrapDescriptor) : List MetaCommand :=
  .clusterInit desc.config desc.metaVoters ::
    (desc.directory.map fun entry ↦
        .registerNode entry.nodeId entry.controlAddr entry.bulkAddr) ++
      desc.dataPlacements.map fun (partition, voters) ↦ .seedPlacement (.data partition) voters

/-- The addresses of a node, one for each lane. -/
def DirEntry.endpoints (entry : DirEntry) : List String := [entry.controlAddr, entry.bulkAddr]

/-- What `validate_node_descriptor` checks of a descriptor, for a node that is bound to its
cluster. -/
structure ValidDescriptor (identity : Identity) (desc : BootstrapDescriptor) : Prop where
  clusterId : desc.config.clusterId = identity.clusterId
  protocolVersion : desc.config.protocolVersion = PROTOCOL_VERSION
  replication : ¬desc.config.r < MIN_REPLICATION
  partitions : desc.config.p ≠ 0
  shape : validateRoutingShape desc.config.p desc.config.r = .ok ()
  metaVoters_nodup : desc.metaVoters.Nodup
  metaVoters_min : MIN_META_VOTERS ≤ desc.metaVoters.length
  metaVoters_odd : desc.metaVoters.length % 2 ≠ 0
  metaVoters_listed : ∀ voter ∈ desc.metaVoters, voter ∈ desc.directory.map (·.nodeId)
  directory_length : desc.directory.length ≤ MAX_CLUSTER_NODES
  ids_nodup : (desc.directory.map (·.nodeId)).Nodup
  id_ne_zero : ∀ entry ∈ desc.directory, entry.nodeId ≠ 0
  endpoints_nodup : (desc.directory.flatMap DirEntry.endpoints).Nodup
  endpoint : ∀ entry ∈ desc.directory, ∀ address ∈ entry.endpoints,
    address.isEmpty = false ∧ address.utf8ByteSize ≤ MAX_ENDPOINT_BYTES
  partition_lt : ∀ placed ∈ desc.dataPlacements, placed.1 < desc.config.p
  partitions_nodup : (desc.dataPlacements.map Prod.fst).Nodup
  placements_length : desc.dataPlacements.length = desc.config.p.toNat
  voters : ∀ placed ∈ desc.dataPlacements, placed.2.Nodup ∧
    placed.2.length = desc.config.r.toNat ∧
    ∀ voter ∈ placed.2, voter ∈ desc.directory.map (·.nodeId)

section

variable {identity : Identity} {desc : BootstrapDescriptor} (hdesc : ValidDescriptor identity desc)

include hdesc

theorem ValidDescriptor.lanes {listed : DirEntry} (hlisted : listed ∈ desc.directory) :
    listed.controlAddr ≠ listed.bulkAddr := by
  have hnodup := (List.nodup_flatMap.mp hdesc.endpoints_nodup).1 listed hlisted
  simpa [DirEntry.endpoints] using hnodup

theorem ValidDescriptor.disjoint {first second : DirEntry} (hfirst : first ∈ desc.directory)
    (hsecond : second ∈ desc.directory) (hne : first ≠ second) :
    first.endpoints.Disjoint second.endpoints := by
  have : Std.Symm (Function.onFun List.Disjoint DirEntry.endpoints) :=
    ⟨fun _ _ ↦ List.Disjoint.symm⟩
  exact (List.nodup_flatMap.mp hdesc.endpoints_nodup).2.forall hfirst hsecond hne

end

/-! ### The system -/

/-- `accept`: a command that replays as a no-op is accepted. -/
def MetaApplyResult.accepted : MetaApplyResult → Bool
  | .applied | .noOp => true
  | .rejected _ => false

/-- The storage of a replica, the index of its last entry, how many commands the current execution
of the list has proposed, and whether an execution has come to its end. -/
structure Seeding where
  storage : Storage
  index : UInt64
  position : ℕ
  completed : Bool

inductive SeedEvent
  | restart
  | propose (cmd : MetaCommand) (result : MetaApplyResult)
  | liveness (nodeId : NodeId) (state : NodeState) (incarnation : UInt64)

namespace Seeding

/-- A replica before its first entry. -/
def start (identity : Identity) (epoch : Option (BitVec 128)) : Seeding where
  storage := emptyStorage (some identity) epoch
  index := 0
  position := 0
  completed := false

/-- An execution starts over, proposes its next command, or liveness evidence is committed. An
execution ends at the first command that is refused. -/
inductive Next (prims : Primitives) (desc : BootstrapDescriptor) :
    Seeding → SeedEvent → Seeding → Prop
  | restart (w : Seeding) : Next prims desc w .restart { w with position := 0 }
  | accepted (w : Seeding) (logId : LogId) (cmd : MetaCommand) (result : MetaApplyResult)
    (storage : Storage) (hcmd : (seedCommands desc)[w.position]? = some cmd)
    (hindex : w.index < logId.index)
    (hstep : step prims w.storage (logId, cmd) = .ok (result, storage))
    (haccepted : result.accepted = true) :
    Next prims desc w (.propose cmd result)
      { storage := storage
        index := logId.index
        position := w.position + 1
        completed := w.completed || w.position + 1 = (seedCommands desc).length }
  | refused (w : Seeding) (logId : LogId) (cmd : MetaCommand) (result : MetaApplyResult)
    (storage : Storage) (hcmd : (seedCommands desc)[w.position]? = some cmd)
    (hindex : w.index < logId.index)
    (hstep : step prims w.storage (logId, cmd) = .ok (result, storage))
    (hrefused : result.accepted = false) :
    Next prims desc w (.propose cmd result)
      { w with storage := storage, index := logId.index, position := 0 }
  | liveness (w : Seeding) (logId : LogId) (nodeId : NodeId) (state : NodeState)
    (incarnation : UInt64) (result : MetaApplyResult) (storage : Storage)
    (hstate : state ≠ .draining) (hindex : w.index < logId.index)
    (hstep : step prims w.storage (logId, .setNodeState nodeId state incarnation) =
      .ok (result, storage)) :
    Next prims desc w (.liveness nodeId state incarnation)
      { w with storage := storage, index := logId.index }

/-- An initial placement is proposed when its voters are active. -/
def Eligible (w : Seeding) : SeedEvent → Prop
  | .propose (.seedPlacement _ voters) _ =>
    ∀ voter ∈ voters, voter ∈ (view w.storage.state).active
  | _ => True

end Seeding

/-! ### States that hold parts of the descriptor -/

/-- The initial voters of a group. -/
def BootstrapDescriptor.Genesis (desc : BootstrapDescriptor) (voters : List NodeId) :
    GroupId → Prop
  | .meta => voters = ascending desc.metaVoters
  | .data partition =>
    ∃ listed, (partition, listed) ∈ desc.dataPlacements ∧ voters = ascending listed

/-- The view holds nothing but parts of the descriptor. An incarnation is at most the index of the
last entry, since each registration takes an entry. -/
structure Seeded (desc : BootstrapDescriptor) (index : UInt64) (v : MetaView) : Prop where
  maintenance : v.maintenance = none
  retired : ∀ id, v.retired id = none
  cluster : ∀ config, v.cluster = some config → config = desc.config ∧ v.placement .meta ≠ none
  node : ∀ id entry, v.node id = some entry → ∃ listed ∈ desc.directory, listed.nodeId = id ∧
    entry.controlAddr = listed.controlAddr ∧ entry.bulkAddr = listed.bulkAddr ∧
    entry.incarnation ≤ index
  placement : ∀ group placed, v.placement group = some placed →
    placed.move = none ∧ desc.Genesis placed.voters group

/-- What a seed command leaves in the view. -/
def Done (v : MetaView) : MetaCommand → Prop
  | .clusterInit config _ => v.cluster = some config
  | .registerNode nodeId _ _ => v.node nodeId ≠ none
  | .seedPlacement group _ => v.placement group ≠ none
  | _ => True

/-! ### Seed commands are accepted -/

/-- The decision on a command is not a refusal, and a no-op finds the command done. -/
def Accepts (v : MetaView) (cmd : MetaCommand)
    (decision : Result (MetaApplyResult × List StateMutation)) : Prop :=
  ∃ result muts, decision = .ok (result, muts) ∧ result.accepted = true ∧
    (result = .noOp → Done v cmd)

section Accepted

variable {prims : Primitives} {s : Storage} {identity : Identity} {desc : BootstrapDescriptor}
  {index : UInt64} (hs : WellFormed prims s.state) (hdesc : ValidDescriptor identity desc)
  (h : Seeded desc index (view s.state)) {logId : LogId}

include hs hdesc h

theorem clusterInit_accepted (hidentity : s.identity = some identity) :
    Accepts (view s.state) (.clusterInit desc.config desc.metaVoters)
      (clusterInit s desc.config desc.metaVoters logId) := by
  unfold Accepts clusterInit
  rw [hs.cluster_eq, ok_bind]
  cases hcluster : (view s.state).cluster with
  | none =>
    have hlength : (ascending desc.metaVoters).length = desc.metaVoters.length := by
      rw [length_ascending, voterSet, List.toFinset_card_of_nodup hdesc.metaVoters_nodup]
    have hmax : desc.metaVoters.length ≤ MAX_CLUSTER_NODES := by
      refine le_trans ?_ hdesc.directory_length
      have hle := (hdesc.metaVoters_nodup.subperm hdesc.metaVoters_listed).length_le
      rwa [List.length_map] at hle
    dsimp only
    rw [hidentity]
    dsimp only
    rw [if_neg (not_not.mpr hdesc.clusterId), if_neg (not_not.mpr hdesc.protocolVersion),
      if_neg hdesc.replication, if_neg hdesc.partitions, hdesc.shape]
    dsimp only
    rw [hlength, if_neg (not_not.mpr rfl),
      if_neg (not_or.mpr ⟨not_lt.mpr hdesc.metaVoters_min, hdesc.metaVoters_odd⟩),
      if_neg (not_lt.mpr hmax)]
    exact ⟨_, _, rfl, rfl, fun hno ↦ by cases hno⟩
  | some config =>
    obtain ⟨rfl, hplaced⟩ := h.cluster config hcluster
    obtain ⟨placed, hplaced⟩ := Option.ne_none_iff_exists'.mp hplaced
    have hvoters : placed.voters = ascending desc.metaVoters := (h.placement _ _ hplaced).2
    dsimp only
    rw [hs.placement_eq, ok_bind, hplaced, if_pos ⟨rfl, by simp [hvoters]⟩]
    exact ⟨_, _, rfl, rfl, fun _ ↦ hcluster⟩

omit hs in
/-- A registered node that is not the listed one uses other addresses. -/
theorem usesAddress_eq_false {listed : DirEntry} (hlisted : listed ∈ desc.directory)
    {entry : NodeDirectoryEntry} (hentry : (view s.state).node entry.nodeId = some entry)
    (hne : entry.nodeId ≠ listed.nodeId) :
    usesAddress listed.controlAddr listed.bulkAddr entry = false := by
  obtain ⟨other, hother, hid, hcontrol, hbulk, -⟩ := h.node _ entry hentry
  have hdisjoint := hdesc.disjoint hother hlisted fun heq ↦ hne (heq ▸ hid.symm)
  simp only [DirEntry.endpoints, List.disjoint_left, List.mem_cons, List.not_mem_nil, or_false,
    not_or] at hdisjoint
  obtain ⟨hcc, hcb⟩ := hdisjoint (.inl rfl)
  obtain ⟨hbc, hbb⟩ := hdisjoint (.inr rfl)
  simp [usesAddress, hcontrol, hbulk, hcc, hcb, hbc, hbb]

omit hs in
/-- There is room for a node of the descriptor that is not registered yet. -/
theorem length_lt_of_new {entries : List NodeDirectoryEntry} (hlists : (view s.state).Lists entries)
    {listed : DirEntry} (hlisted : listed ∈ desc.directory)
    (hnew : listed.nodeId ∉ entries.map (·.nodeId)) : entries.length < MAX_CLUSTER_NODES := by
  have hsub : listed.nodeId :: entries.map (·.nodeId) ⊆ desc.directory.map (·.nodeId) := by
    intro id hid
    rcases List.mem_cons.mp hid with rfl | hmem
    · exact List.mem_map.mpr ⟨listed, hlisted, rfl⟩
    · obtain ⟨entry, hentry, rfl⟩ := List.mem_map.mp hmem
      obtain ⟨other, hother, hid', -⟩ := h.node _ entry (hlists.node_of_mem hentry)
      exact List.mem_map.mpr ⟨other, hother, hid'⟩
  have hle := ((List.nodup_cons.mpr ⟨hnew, hlists.nodup⟩).subperm hsub).length_le
  rw [List.length_cons, List.length_map, List.length_map] at hle
  exact lt_of_lt_of_le hle hdesc.directory_length

theorem registerNode_accepted (hcluster : (view s.state).cluster ≠ none) {listed : DirEntry}
    (hlisted : listed ∈ desc.directory) (hindex : index < logId.index) :
    Accepts (view s.state) (.registerNode listed.nodeId listed.controlAddr listed.bulkAddr)
      (registerNode s listed.nodeId listed.controlAddr listed.bulkAddr) := by
  obtain ⟨config, hconfig⟩ := Option.ne_none_iff_exists'.mp hcluster
  obtain ⟨entries, hentries, hlists⟩ := hs.directory_returns
  have hcontrol := hdesc.endpoint listed hlisted listed.controlAddr (by simp [DirEntry.endpoints])
  have hbulk := hdesc.endpoint listed hlisted listed.bulkAddr (by simp [DirEntry.endpoints])
  have hfree : entries.any (fun other ↦ other.nodeId ≠ listed.nodeId &&
      usesAddress listed.controlAddr listed.bulkAddr other) = false := by
    rw [List.any_eq_false]
    intro other hother huses
    rw [Bool.and_eq_true, decide_eq_true_eq] at huses
    have hunused := usesAddress_eq_false hdesc h hlisted (hlists.node_of_mem hother) huses.1
    exact absurd (huses.2.symm.trans hunused) (by decide)
  have hroom : ¬(MAX_CLUSTER_NODES ≤ entries.length ∧
      ¬entries.any (fun entry ↦ entry.nodeId = listed.nodeId) = true) := by
    rintro ⟨hfull, hnew⟩
    refine absurd (length_lt_of_new hdesc h hlists hlisted fun hmem ↦ hnew ?_) (not_lt.mpr hfull)
    obtain ⟨entry, hentry, hid⟩ := List.mem_map.mp hmem
    exact List.any_eq_true.mpr ⟨entry, hentry, decide_eq_true hid⟩
  unfold Accepts registerNode
  rw [hs.cluster_eq, ok_bind, hconfig, if_neg (by simp), if_neg (hdesc.id_ne_zero listed hlisted),
    if_neg (by simp [hcontrol.1, hbulk.1]),
    if_neg (by simp [not_lt.mpr hcontrol.2, not_lt.mpr hbulk.2]),
    if_neg (hdesc.lanes hlisted), hs.retired_eq, ok_bind, h.retired, if_neg (by simp), hentries,
    ok_bind, if_neg (by rw [hfree]; exact Bool.false_ne_true), if_neg hroom, hs.node_eq, ok_bind]
  cases hnode : (view s.state).node listed.nodeId with
  | none => exact ⟨_, _, rfl, rfl, fun hno ↦ by cases hno⟩
  | some entry =>
    obtain ⟨other, hother, hid, hcontrol', hbulk', hincarnation⟩ := h.node _ entry hnode
    obtain rfl : other = listed :=
      List.inj_on_of_nodup_map hdesc.ids_nodup hother hlisted hid
    dsimp only
    rw [if_pos ⟨hcontrol', hbulk'⟩]
    split_ifs with hdown
    · refine ⟨_, _, rfl, rfl, fun _ ↦ ?_⟩
      simp [Done, hnode]
    · -- the incarnation is below the index of the entry, so there is a next one
      have hnext : entry.incarnation ≠ UInt64.ofNat (UInt64.size - 1) := by
        rintro heq
        rw [heq] at hincarnation
        have hlt := UInt64.lt_of_le_of_lt hincarnation hindex
        exact absurd (UInt64.lt_iff_toNat_lt.mp hlt)
          (not_lt.mpr (Nat.le_pred_of_lt logId.index.toNat_lt))
      rw [checkedSucc, if_neg hnext]
      exact ⟨_, _, rfl, rfl, fun hno ↦ by cases hno⟩

theorem seedPlacement_accepted (hcluster : (view s.state).cluster ≠ none) {partition : UInt16}
    {voters : List NodeId} (hplaced : (partition, voters) ∈ desc.dataPlacements)
    (hactive : ∀ voter ∈ voters, voter ∈ (view s.state).active) :
    Accepts (view s.state) (.seedPlacement (.data partition) voters)
      (seedPlacement s (.data partition) voters logId) := by
  obtain ⟨config, hconfig⟩ := Option.ne_none_iff_exists'.mp hcluster
  obtain ⟨rfl, -⟩ := h.cluster config hconfig
  obtain ⟨hnodup, hsize, -⟩ := hdesc.voters _ hplaced
  have hlength : (ascending voters).length = voters.length := by
    rw [length_ascending, voterSet, List.toFinset_card_of_nodup hnodup]
  have hlt : ¬desc.config.p ≤ partition := fun hle ↦
    UInt16.lt_irrefl _ (UInt16.lt_of_lt_of_le (hdesc.partition_lt _ hplaced) hle)
  have hall : voters.anyM (fun voter ↦ return !(← isActive s voter)) = .ok false := by
    refine anyM_eq_ok_false fun voter hvoter ↦ ?_
    obtain ⟨found, heq, hfound⟩ := isActive_returns hs voter
    rw [heq, hfound.mpr (hactive voter hvoter)]
    rfl
  unfold Accepts seedPlacement
  rw [hs.cluster_eq, ok_bind, hconfig]
  dsimp only
  rw [if_neg hlt, hlength, if_neg (not_not.mpr rfl), if_neg (not_not.mpr hsize), hall, ok_bind,
    if_neg Bool.false_ne_true, hs.placement_eq, ok_bind]
  cases hfound : (view s.state).placement (.data partition) with
  | none => exact ⟨_, _, rfl, rfl, fun hno ↦ by cases hno⟩
  | some placed =>
    obtain ⟨hmove, other, hother, hvoters⟩ := h.placement _ _ hfound
    obtain rfl : other = voters := by
      have heq := List.inj_on_of_nodup_map hdesc.partitions_nodup hother hplaced rfl
      exact (Prod.mk.inj heq).2
    dsimp only
    rw [if_pos ⟨by rw [hmove]; rfl, by rw [hvoters, voterSet_ascending]⟩]
    refine ⟨_, _, rfl, rfl, fun _ ↦ ?_⟩
    simp [Done, hfound]

end Accepted

/-! ### What an execution leaves -/

section Steps

variable {prims : Primitives} {bound : Option Identity} {identity : Identity}
  {desc : BootstrapDescriptor} {index : UInt64} {v next : MetaView} {logId : LogId}

theorem Seeded.later (h : Seeded desc index v) {later : UInt64} (hle : index ≤ later) :
    Seeded desc later v := by
  refine ⟨h.maintenance, h.retired, h.cluster, fun id entry hentry ↦ ?_, h.placement⟩
  obtain ⟨listed, hlisted, hid, hcontrol, hbulk, hincarnation⟩ := h.node id entry hentry
  exact ⟨listed, hlisted, hid, hcontrol, hbulk, UInt64.le_trans hincarnation hle⟩

/-- An entry of a listed node is written. -/
theorem Seeded.write (h : Seeded desc index v) {listed : DirEntry}
    (hlisted : listed ∈ desc.directory) {entry : NodeDirectoryEntry}
    (hcontrol : entry.controlAddr = listed.controlAddr) (hbulk : entry.bulkAddr = listed.bulkAddr)
    (hincarnation : entry.incarnation ≤ logId.index) (hindex : index < logId.index) :
    Seeded desc logId.index
      { v with node := Function.update v.node listed.nodeId (some entry) } := by
  have hlater := h.later (UInt64.le_of_lt hindex)
  refine ⟨h.maintenance, h.retired, h.cluster, fun id found hfound ↦ ?_, h.placement⟩
  rcases update_eq_some hfound with ⟨rfl, rfl⟩ | ⟨-, hold⟩
  · exact ⟨listed, hlisted, rfl, hcontrol, hbulk, hincarnation⟩
  · exact hlater.node id found hold

/-- The placement of a group is written. -/
theorem Seeded.place (h : Seeded desc index v) {group : GroupId} {placed : Placement}
    (hmove : placed.move = none) (hgenesis : desc.Genesis placed.voters group)
    (hindex : index < logId.index) :
    Seeded desc logId.index
      { v with placement := Function.update v.placement group (some placed) } := by
  have hlater := h.later (UInt64.le_of_lt hindex)
  have hplacement :
      ∀ other found, Function.update v.placement group (some placed) other = some found →
      found.move = none ∧ desc.Genesis found.voters other := by
    intro other found hfound
    rcases update_eq_some hfound with ⟨rfl, rfl⟩ | ⟨-, hold⟩
    · exact ⟨hmove, hgenesis⟩
    · exact h.placement other found hold
  refine ⟨h.maintenance, h.retired, fun config hconfig ↦ ?_, hlater.node, hplacement⟩
  obtain ⟨hsame, hmeta⟩ := h.cluster config hconfig
  refine ⟨hsame, ?_⟩
  by_cases hgroup : GroupId.meta = group
  · simp [hgroup]
  · simpa [Function.update_of_ne hgroup] using hmeta

/-- The commands of a run: those of the list, and liveness evidence. -/
def SeedingCommand (desc : BootstrapDescriptor) (cmd : MetaCommand) : Prop :=
  cmd ∈ seedCommands desc ∨ ∃ nodeId state incarnation, cmd = .setNodeState nodeId state incarnation

theorem mem_seedCommands {cmd : MetaCommand} : cmd ∈ seedCommands desc ↔
    cmd = .clusterInit desc.config desc.metaVoters ∨
    (∃ listed ∈ desc.directory,
      cmd = .registerNode listed.nodeId listed.controlAddr listed.bulkAddr) ∨
    ∃ partition voters, (partition, voters) ∈ desc.dataPlacements ∧
      cmd = .seedPlacement (.data partition) voters := by
  simp only [seedCommands, List.cons_append, List.mem_cons, List.mem_append, List.mem_map,
    Prod.exists, eq_comm]

/-- Nothing is taken back. -/
theorem Done.mono {done : MetaCommand} (h : Done v done)
    (hcluster : ∀ config, v.cluster = some config → next.cluster = some config)
    (hnode : ∀ id, v.node id ≠ none → next.node id ≠ none)
    (hplacement : ∀ group, v.placement group ≠ none → next.placement group ≠ none) :
    Done next done := by
  cases done with
  | clusterInit config metaVoters => exact hcluster config h
  | registerNode nodeId _ _ => exact hnode nodeId h
  | seedPlacement group _ => exact hplacement group h
  | _ => trivial

/-- The incarnation a registration gives is at most the index of its entry. -/
theorem Seeded.incarnation_le (h : Seeded desc index v) {nodeId : NodeId}
    {controlAddr bulkAddr : String} {incarnation : UInt64}
    (hregisters : Registers controlAddr bulkAddr (v.node nodeId) incarnation)
    (hindex : index < logId.index) : incarnation ≤ logId.index := by
  have hlt := UInt64.lt_iff_toNat_lt.mp hindex
  generalize hold : v.node nodeId = old at hregisters
  rw [UInt64.le_iff_toNat_le]
  cases hregisters with
  | joined => exact Nat.succ_le_of_lt (Nat.zero_lt_of_lt hlt)
  | rejoined entry _ hnext =>
    obtain ⟨-, -, -, -, -, hle⟩ := h.node nodeId entry hold
    have hle' := UInt64.le_iff_toNat_le.mp hle
    rw [toNat_checkedSucc hnext]
    omega

/-- What a command of a run changes: it writes the cluster record, an entry of the directory, or a
placement, as the descriptor has them. -/
theorem Seeded.effect (h : Seeded desc index v) {cmd : MetaCommand}
    (hcmd : SeedingCommand desc cmd) (hindex : index < logId.index)
    (heffect : Effect prims bound v logId cmd next) :
    Seeded desc logId.index next ∧ (∀ done, Done v done → Done next done) ∧ Done next cmd := by
  rcases hcmd with hseed | ⟨nodeId, state, incarnation, rfl⟩
  · rcases mem_seedCommands.mp hseed with rfl | ⟨listed, hlisted, rfl⟩ |
      ⟨partition, voters, hplaced, rfl⟩
    · cases heffect with
      | placement _ _ _ h => cases h
      | maintenance _ h => cases h
      | search _ _ h =>
        cases h with
        | build _ _ _ _ _ _ _ hcmd => cases hcmd
      | directory _ _ heffect =>
        cases heffect with
        | clusterInit _ _ bound hnew =>
          have hplaced : Seeded desc logId.index
              { v with
                placement := Function.update v.placement GroupId.meta
                  (some ⟨ascending desc.metaVoters, logId, none⟩) } := h.place rfl rfl hindex
          refine ⟨⟨h.maintenance, h.retired, ?_, hplaced.node, hplaced.placement⟩,
            fun done hdone ↦ hdone.mono ?_ (fun _ ↦ id) (fun _ ↦ ne_none_of_update), rfl⟩
          · rintro config hconfig
            cases hconfig
            exact ⟨rfl, by simp⟩
          · rintro config hconfig
            rw [hnew] at hconfig
            cases hconfig
    · cases heffect with
      | placement _ _ _ h => cases h
      | maintenance _ h => cases h
      | search _ _ h =>
        cases h with
        | build _ _ _ _ _ _ _ hcmd => cases hcmd
      | directory _ _ heffect =>
        cases heffect with
        | registerNode _ _ _ incarnation _ _ _ _ _ _ _ _ _ _ hregisters =>
          refine ⟨h.write hlisted rfl rfl (h.incarnation_le hregisters hindex) hindex,
            fun done hdone ↦ hdone.mono (fun _ ↦ id) (fun _ ↦ ne_none_of_update) (fun _ ↦ id), ?_⟩
          simp [Done]
    · cases heffect with
      | maintenance _ h => cases h
      | directory _ _ h => cases h
      | search _ _ h =>
        cases h with
        | build _ _ _ _ _ _ _ hcmd => cases hcmd
      | placement _ _ _ heffect =>
        cases heffect with
        | seed =>
          refine ⟨h.place rfl ⟨voters, hplaced, rfl⟩ hindex,
            fun done hdone ↦ hdone.mono (fun _ ↦ id) (fun _ ↦ id) (fun _ ↦ ne_none_of_update), ?_⟩
          simp [Done]
  · cases heffect with
    | placement _ _ _ h => cases h
    | maintenance _ h => cases h
    | search _ _ h =>
      cases h with
      | build _ _ _ _ _ _ _ hcmd => cases hcmd
    | directory _ _ heffect =>
      cases heffect with
      | setNodeState _ _ entry hentry =>
        obtain ⟨listed, hlisted, rfl, hcontrol, hbulk, hincarnation⟩ := h.node _ entry hentry
        exact ⟨h.write hlisted hcontrol hbulk
            (UInt64.le_trans hincarnation (UInt64.le_of_lt hindex)) hindex,
          fun done hdone ↦ hdone.mono (fun _ ↦ id) (fun _ ↦ ne_none_of_update) (fun _ ↦ id),
          trivial⟩

end Steps

/-! ### Runs -/

namespace Seeding

variable {prims : Primitives} {identity : Identity} {desc : BootstrapDescriptor} {w after : Seeding}

/-- A replica during a bootstrap: what the current execution has proposed is done, and all of it
once an execution came to its end. -/
structure Invariant (prims : Primitives) (identity : Identity) (desc : BootstrapDescriptor)
    (w : Seeding) : Prop where
  wellFormed : WellFormed prims w.storage.state
  identity_eq : w.storage.identity = some identity
  seeded : Seeded desc w.index (view w.storage.state)
  proposed : ∀ cmd ∈ (seedCommands desc).take w.position, Done (view w.storage.state) cmd
  finished : w.completed = true → ∀ cmd ∈ seedCommands desc, Done (view w.storage.state) cmd

theorem invariant_start (identity : Identity) (epoch : Option (BitVec 128))
    (desc : BootstrapDescriptor) : Invariant prims identity desc (start identity epoch) where
  wellFormed := wellFormed_emptyStorage (some identity) epoch
  identity_eq := by
    cases epoch <;> rfl
  seeded := by
    rw [start, view_emptyStorage]
    exact ⟨rfl, fun _ ↦ rfl, fun _ h ↦ (by cases h), fun _ _ h ↦ (by cases h),
      fun _ _ h ↦ (by cases h)⟩
  proposed := fun _ h ↦ by cases h
  finished := fun h ↦ by cases h

/-- The next command of an execution is accepted, if the voters of an initial placement are
active. -/
theorem Invariant.accepts (h : Invariant prims identity desc w)
    (hdesc : ValidDescriptor identity desc) {cmd : MetaCommand} {logId : LogId}
    {result : MetaApplyResult} (hcmd : (seedCommands desc)[w.position]? = some cmd)
    (hindex : w.index < logId.index) (heligible : w.Eligible (.propose cmd result)) :
    Accepts (view w.storage.state) cmd (dispatch prims w.storage logId cmd) := by
  -- past the first command the cluster record is there
  have hcluster : cmd ≠ .clusterInit desc.config desc.metaVoters →
      (view w.storage.state).cluster ≠ none := by
    intro hne
    have hpos : w.position ≠ 0 := by
      intro hzero
      rw [hzero] at hcmd
      exact hne (Option.some.inj hcmd).symm
    obtain ⟨count, hcount⟩ := Nat.exists_eq_succ_of_ne_zero hpos
    have hdone := h.proposed (.clusterInit desc.config desc.metaVoters) (by
      rw [hcount]
      exact List.mem_cons_self)
    rw [Done] at hdone
    rw [hdone]
    exact Option.some_ne_none _
  rcases mem_seedCommands.mp (List.mem_of_getElem? hcmd) with rfl | ⟨listed, hlisted, rfl⟩ |
    ⟨partition, voters, hplaced, rfl⟩
  · exact clusterInit_accepted h.wellFormed hdesc h.seeded h.identity_eq
  · exact registerNode_accepted h.wellFormed hdesc h.seeded (hcluster (by simp)) hlisted hindex
  · exact seedPlacement_accepted h.wellFormed hdesc h.seeded (hcluster (by simp)) hplaced heligible

/-- What the decision on a command says about the step that takes it. -/
theorem Invariant.step_accepted (h : Invariant prims identity desc w) {cmd : MetaCommand}
    {logId : LogId} {result : MetaApplyResult} {storage : Storage}
    (haccepts : Accepts (view w.storage.state) cmd (dispatch prims w.storage logId cmd))
    (hstep : step prims w.storage (logId, cmd) = .ok (result, storage)) :
    result.accepted = true ∧ (result = .noOp → Done (view w.storage.state) cmd) := by
  obtain ⟨found, muts, hdecision, haccepted, hdone⟩ := haccepts
  have heval : evaluate prims w.storage cmd logId = .ok (found, muts) := by
    unfold evaluate
    rw [h.wellFormed.maintenance_eq, ok_bind, h.seeded.maintenance]
    exact hdecision
  rw [step, MetaStateMachine.apply, heval, ok_bind] at hstep
  cases hstep
  exact ⟨haccepted, hdone⟩

/-- A command of the run leads to a state that holds parts of the descriptor. -/
theorem Invariant.commit (h : Invariant prims identity desc w) {cmd : MetaCommand}
    (hcmd : SeedingCommand desc cmd) {logId : LogId} (hindex : w.index < logId.index)
    {result : MetaApplyResult} {storage : Storage}
    (hstep : step prims w.storage (logId, cmd) = .ok (result, storage)) :
    WellFormed prims storage.state ∧ storage.identity = some identity ∧
      Seeded desc logId.index (view storage.state) ∧
      (∀ done, Done (view w.storage.state) done → Done (view storage.state) done) ∧
      (result = .applied → Done (view storage.state) cmd) := by
  obtain ⟨_, _, hok, hidentity, hwell, hanswers⟩ := exists_answer h.wellFormed (logId, cmd)
  cases hstep.symm.trans hok
  refine ⟨hwell, hidentity.trans h.identity_eq, ?_⟩
  rcases hanswers with ⟨hother, hsame⟩ | ⟨-, heffect⟩
  · rw [hsame]
    exact ⟨h.seeded.later (UInt64.le_of_lt hindex),
      fun _ ↦ id, fun happlied ↦ absurd happlied hother⟩
  · obtain ⟨hseeded, hkept, hdone⟩ := h.seeded.effect hcmd hindex heffect
    exact ⟨hseeded, hkept, fun _ ↦ hdone⟩

theorem Invariant.step (h : Invariant prims identity desc w) (hdesc : ValidDescriptor identity desc)
    {event : SeedEvent} (hnext : Next prims desc w event after) (heligible : w.Eligible event) :
    Invariant prims identity desc after ∧
      ∀ cmd result, event = .propose cmd result → result.accepted = true := by
  cases hnext with
  | restart =>
    exact ⟨⟨h.wellFormed, h.identity_eq, h.seeded, fun _ hcmd ↦ by simp at hcmd, h.finished⟩,
      fun _ _ hevent ↦ by cases hevent⟩
  | accepted logId cmd result storage hcmd hindex hstep haccepted =>
    have hlisted := List.mem_of_getElem? hcmd
    obtain ⟨hwell, hidentity, hseeded, hkept, hdone⟩ := h.commit (.inl hlisted) hindex hstep
    obtain ⟨-, hnoop⟩ := h.step_accepted (h.accepts hdesc hcmd hindex heligible) hstep
    have hcmdDone : Done (view storage.state) cmd := by
      cases result with
      | applied => exact hdone rfl
      | noOp => exact hkept cmd (hnoop rfl)
      | rejected => cases haccepted
    have hproposed : ∀ done ∈ (seedCommands desc).take (w.position + 1),
        Done (view storage.state) done := by
      intro done hmem
      rw [List.take_add_one, hcmd, List.mem_append, Option.mem_toList] at hmem
      rcases hmem with hbefore | hlast
      · exact hkept done (h.proposed done hbefore)
      · cases hlast
        exact hcmdDone
    refine ⟨⟨hwell, hidentity, hseeded, hproposed, fun hcompleted done hmem ↦ ?_⟩,
      fun _ _ hevent ↦ by cases hevent; exact haccepted⟩
    rw [Bool.or_eq_true, decide_eq_true_eq] at hcompleted
    rcases hcompleted with hbefore | hend
    · exact hkept done (h.finished hbefore done hmem)
    · refine hproposed done ?_
      rwa [hend, List.take_length]
  | refused logId cmd result storage hcmd hindex hstep hrefused =>
    obtain ⟨haccepted, -⟩ := h.step_accepted (h.accepts hdesc hcmd hindex heligible) hstep
    rw [hrefused] at haccepted
    cases haccepted
  | liveness logId nodeId state incarnation result storage hstate hindex hstep =>
    obtain ⟨hwell, hidentity, hseeded, hkept, -⟩ := h.commit (.inr ⟨_, _, _, rfl⟩) hindex hstep
    exact ⟨⟨hwell, hidentity, hseeded, fun done hmem ↦ hkept done (h.proposed done hmem),
      fun hcompleted done hmem ↦ hkept done (h.finished hcompleted done hmem)⟩,
      fun _ _ hevent ↦ by cases hevent⟩

/-- The placement of a group that is there is the one of the descriptor. -/
theorem Invariant.placed (h : Invariant prims identity desc w) {group : GroupId}
    (hplaced : (view w.storage.state).placement group ≠ none) :
    ∃ voters logId, (view w.storage.state).placement group = some ⟨voters, logId, none⟩ ∧
      desc.Genesis voters group := by
  obtain ⟨⟨voters, logId, move⟩, hplaced⟩ := Option.ne_none_iff_exists'.mp hplaced
  obtain ⟨hmove, hgenesis⟩ := h.seeded.placement group _ hplaced
  obtain rfl : move = none := hmove
  exact ⟨voters, logId, hplaced, hgenesis⟩

variable (prims) in
/-- Assumes: a valid descriptor, and a run in which the seed commands are executed any number of
times, each time up to any point, among liveness transitions, and every initial placement is
proposed while its voters are active. No seed command is refused. Once an execution has come to its
end, the cluster record and the placements are those of the descriptor, and there are no others. -/
theorem seeding_idempotent (hdesc : ValidDescriptor identity desc) (epoch : Option (BitVec 128))
    {events : List SeedEvent}
    (hrun : Trace (fun w event after ↦ Next prims desc w event after ∧ w.Eligible event)
      (start identity epoch) events w) :
    (∀ cmd result, .propose cmd result ∈ events → result.accepted = true) ∧
    (w.completed = true →
      (view w.storage.state).cluster = some desc.config ∧
      (∃ logId, (view w.storage.state).placement .meta =
        some ⟨ascending desc.metaVoters, logId, none⟩) ∧
      (∀ partition voters, (partition, voters) ∈ desc.dataPlacements →
        ∃ logId, (view w.storage.state).placement (.data partition) =
          some ⟨ascending voters, logId, none⟩) ∧
      ∀ partition placed, (view w.storage.state).placement (.data partition) = some placed →
        partition ∈ desc.dataPlacements.map Prod.fst) := by
  have hinv : Invariant prims identity desc w ∧
      ∀ cmd result, .propose cmd result ∈ events → result.accepted = true := by
    refine hrun.invariant (P := fun done w ↦ Invariant prims identity desc w ∧
      ∀ cmd result, .propose cmd result ∈ done → result.accepted = true) ?_ ?_
    · exact ⟨invariant_start identity epoch desc, fun _ _ h ↦ by cases h⟩
    · rintro done event mid after - ⟨hmid, hbefore⟩ ⟨hnext, heligible⟩
      obtain ⟨hafter, haccepted⟩ := hmid.step hdesc hnext heligible
      refine ⟨hafter, fun cmd result hmem ↦ ?_⟩
      rcases List.mem_append.mp hmem with hold | hlast
      · exact hbefore cmd result hold
      · exact haccepted cmd result (List.mem_singleton.mp hlast).symm
  refine ⟨hinv.2, fun hcompleted ↦ ?_⟩
  have hdone := hinv.1.finished hcompleted
  have hcluster : (view w.storage.state).cluster = some desc.config :=
    hdone _ (mem_seedCommands.mpr (.inl rfl))
  refine ⟨hcluster, ?_, fun partition voters hplaced ↦ ?_, fun partition placed hfound ↦ ?_⟩
  · obtain ⟨-, hmeta⟩ := hinv.1.seeded.cluster desc.config hcluster
    obtain ⟨_, logId, hplaced, rfl⟩ := hinv.1.placed hmeta
    exact ⟨logId, hplaced⟩
  · have hseeded := hdone _ (mem_seedCommands.mpr (.inr (.inr ⟨partition, voters, hplaced, rfl⟩)))
    obtain ⟨_, logId, hfound, other, hother, rfl⟩ := hinv.1.placed hseeded
    have heq := List.inj_on_of_nodup_map hdesc.partitions_nodup hother hplaced rfl
    rw [(Prod.mk.inj heq).2] at hfound
    exact ⟨logId, hfound⟩
  · obtain ⟨-, other, hother, -⟩ := hinv.1.seeded.placement _ _ hfound
    exact List.mem_map.mpr ⟨_, hother, rfl⟩

/-- One partition on three nodes. -/
def threeNodes : BootstrapDescriptor where
  clusterId := 7
  config := ⟨7, PROTOCOL_VERSION, 1, 3, .CANONICAL⟩
  metaVoters := [1, 2, 3]
  directory := [⟨1, "a1", "b1"⟩, ⟨2, "a2", "b2"⟩, ⟨3, "a3", "b3"⟩]
  dataPlacements := [(0, [1, 2, 3])]

theorem valid_threeNodes : ValidDescriptor ⟨7, 1⟩ threeNodes := by
  constructor
  case metaVoters_listed => simp [threeNodes]
  case voters =>
    intro placed hplaced
    obtain rfl := List.mem_singleton.mp hplaced
    exact ⟨by decide, rfl, by simp [threeNodes]⟩
  all_goals decide +kernel

/-- The steps of a bootstrap that nothing disturbs, evaluated: its commands take consecutive
entries, are accepted, and find the voters of a placement active. -/
def undisturbed (prims : Primitives) (desc : BootstrapDescriptor) (w : Seeding) :
    SeedEvent → Option Seeding
  | .restart => some { w with position := 0 }
  | .propose cmd result => do
    let (found, storage) ← (step prims w.storage (⟨1, w.index + 1⟩, cmd)).toOption
    let active : Bool := match cmd with
      | .seedPlacement _ voters =>
        voters.all fun voter ↦ ((view w.storage.state).node voter).any (·.state = .active)
      | _ => true
    if (seedCommands desc)[w.position]? = some cmd ∧ w.index < w.index + 1 ∧ found = result ∧
        result.accepted ∧ active then
      some ⟨storage, w.index + 1, w.position + 1,
        w.completed || w.position + 1 = (seedCommands desc).length⟩
    else none
  | .liveness _ _ _ => none

theorem next_of_undisturbed {event : SeedEvent} {after : Seeding}
    (h : undisturbed prims desc w event = some after) :
    Next prims desc w event after ∧ w.Eligible event := by
  cases event with
  | restart =>
    cases h
    exact ⟨.restart w, trivial⟩
  | liveness => cases h
  | propose cmd result =>
    obtain ⟨⟨found, storage⟩, hstep, hafter⟩ := Option.bind_eq_some_iff.mp h
    dsimp only at hafter
    split_ifs at hafter with hchecks
    obtain ⟨hcmd, hindex, rfl, haccepted, hactive⟩ := hchecks
    cases hafter
    have hran := toOption_eq_some_iff.mp hstep
    refine ⟨.accepted w _ cmd found storage hcmd hindex hran haccepted, ?_⟩
    cases cmd with
    | seedPlacement group voters =>
      intro voter hvoter
      obtain ⟨entry, hentry, hstate⟩ :=
        (Option.any_eq_true _ _).mp (List.all_eq_true.mp hactive voter hvoter)
      exact ⟨entry, hentry, of_decide_eq_true hstate⟩
    | _ => trivial

/-- A bootstrap comes to its end, is started again and comes to its end once more: its commands are
answered with no-ops, and the placements are those of the descriptor. -/
theorem seeding_idempotent_restarted :
    let prims : Primitives := ⟨fun _ ↦ Vector.replicate 32 0, id⟩
    let events : List SeedEvent := (seedCommands threeNodes).map (.propose · .applied) ++
      .restart :: (seedCommands threeNodes).map (.propose · .noOp)
    ∃ last, Trace (fun w event after ↦ Next prims threeNodes w event after ∧ w.Eligible event)
        (start ⟨7, 1⟩ none) events last ∧
      (view last.storage.state).cluster = some threeNodes.config ∧
      (∃ logId, (view last.storage.state).placement .meta = some ⟨[1, 2, 3], logId, none⟩) ∧
      ∃ logId, (view last.storage.state).placement (.data 0) = some ⟨[1, 2, 3], logId, none⟩ := by
  intro prims events
  have hends : (events.foldlM (undisturbed prims threeNodes) (start ⟨7, 1⟩ none)).map
      (·.completed) = some true := by
    decide +kernel
  obtain ⟨last, hfold, hcompleted⟩ := Option.map_eq_some_iff.mp hends
  have hrun : Trace (fun w event after ↦ Next prims threeNodes w event after ∧ w.Eligible event)
      (start ⟨7, 1⟩ none) events last := (trace_of_foldlM hfold).mono next_of_undisturbed
  obtain ⟨hcluster, hmeta, hdata, -⟩ :=
    (seeding_idempotent prims valid_threeNodes none hrun).2 hcompleted
  exact ⟨last, hrun, hcluster, hmeta, hdata 0 [1, 2, 3] List.mem_cons_self⟩

/-- A bootstrap has come to its end. Node 1 is found suspect, and the bootstrap is started again:
its placement, which is there, is refused. -/
theorem suspect_voter_refuses_retry :
    let prims : Primitives := ⟨fun _ ↦ Vector.replicate 32 0, id⟩
    let entries : List Entry :=
      ([1, 2, 3, 4, 5, 6, 7, 8, 9, 10, 11].map fun index : UInt64 ↦ (⟨1, index⟩ : LogId)).zip
        (seedCommands threeNodes ++ .setNodeState 1 .suspect 1 :: seedCommands threeNodes)
    (run (step prims) (emptyStorage (some ⟨7, 1⟩) none) entries).toOption.map Prod.fst =
      some [.applied, .applied, .applied, .applied, .applied, .applied,
        .noOp, .noOp, .noOp, .noOp, .rejected .ineligibleTarget] := by
  decide +kernel

end Seeding

end DalService.Meta
