import DalService.Api.Routing
import DalService.Meta.Directory
import DalService.Meta.PlanLifecycle

/-!
# Routing snapshots of the meta group

A replica of the meta group answers a routing query from its own state (`routingInfo`). The check a
client makes has its own copy of the rules for directories, placements and moves. What the meta
group keeps of them in every state it can reach is enough for that check:
`routing_snapshot_accepted`.
-/

set_option autoImplicit false

namespace DalService.Meta

open Foundation MetaStateMachine Api

/-- The placements of the partitions that have one. A placement that cannot be read is left out. -/
def routingPlacements (s : Storage) (p : UInt16) : List (UInt16 × Placement) :=
  (List.range p.toNat).filterMap fun partition ↦
    ((MetaStateMachine.placement s (.data (.ofNat partition))).toOption.join).map
      fun placed ↦ (.ofNat partition, placed)

/-- The snapshot of the state of a replica. -/
def routingInfo (s : Storage) (config : ClusterConfig) : Result RoutingInfo := do
  let directory ← MetaStateMachine.directory s
  let recoveryEpoch ← s.recoveryEpoch
  return {
    clusterId := config.clusterId
    recoveryEpoch := recoveryEpoch
    p := config.p
    hashSpec := config.hashSpec
    directory := directory
    placements := routingPlacements s config.p }

variable {prims : Primitives} {identity : Option Identity} {v next : MetaView} {entry : Entry}
  {config : ClusterConfig}

/-! ### The cluster record and the ids of plans -/

/-- The cluster record has partitions and at least three replicas of each. -/
def ClusterShaped (v : MetaView) : Prop :=
  ∀ config, v.cluster = some config → config.p ≠ 0 ∧ 3 ≤ config.r.toNat

theorem ClusterShaped.step (h : ClusterShaped v) (hstep : Step prims identity v entry next) :
    ClusterShaped next := by
  rcases hstep with rfl | heffect
  · exact h
  intro config hconfig
  rcases heffect.control_cases with hdirectory | ⟨group, found, -, rfl⟩ | hsame
  · generalize entry.2 = cmd at hdirectory
    cases hdirectory with
    | clusterInit written _ _ _ _ _ _ hreplication hpartitions =>
      cases hconfig
      refine ⟨hpartitions, not_lt.mp fun hlt ↦ hreplication ?_⟩
      exact UInt8.lt_iff_toNat_lt.mpr hlt
    | registerNode | setNodeState | retireNode => exact h config hconfig
  · exact h config hconfig
  · rw [hsame.cluster] at hconfig
    exact h config hconfig

theorem cluster_eq_of_createPlan (hstep : Step prims identity v entry next) {group : GroupId}
    {planId : UInt64} {targetVoters : List NodeId}
    (hcmd : entry.2 = .createPlan group planId targetVoters) : next.cluster = v.cluster := by
  rcases hstep with rfl | heffect
  · rfl
  rcases heffect.control_cases with hdirectory | ⟨group, found, -, rfl⟩ | hsame
  · rw [hcmd] at hdirectory
    cases hdirectory
  · rfl
  · exact hsame.cluster

/-- No recorded plan has id zero: a plan takes the index of an entry that is not the first. -/
structure PlansNumbered (done : List Entry) (v : MetaView) : Prop where
  placed : PlacementInvariant v
  ne_nil : v.cluster ≠ none → done ≠ []
  planId_ne_zero : ∀ group plan, v.plan group = some plan → plan.planId ≠ 0

theorem PlansNumbered.step {done : List Entry} (h : PlansNumbered done v)
    (hindices : IncreasingIndices (done ++ [entry])) (hstep : Step prims identity v entry next) :
    PlansNumbered (done ++ [entry]) next := by
  refine ⟨h.placed.step hstep, fun _ ↦ by simp, fun group plan hplan ↦ ?_⟩
  rcases plan_cases h.placed hstep hplan with ⟨old, hold, hid⟩ | ⟨-, hid, _, _, hcmd⟩
  · exact hid ▸ h.planId_ne_zero group old hold
  · -- the plan belongs to a cluster, whose record an earlier entry wrote
    obtain ⟨placed, hplaced, -⟩ := MetaView.plan_eq_some_iff.mp hplan
    obtain ⟨config, hconfig, -⟩ := (h.placed.step hstep).shaped group placed hplaced
    have hcluster : v.cluster ≠ none := by
      rw [← cluster_eq_of_createPlan hstep hcmd, hconfig]
      exact Option.some_ne_none config
    obtain ⟨first, hfirst⟩ := List.exists_mem_of_ne_nil done (h.ne_nil hcluster)
    have hlt := (List.pairwise_append.mp hindices).2.2 first hfirst entry List.mem_cons_self
    rw [hid]
    rintro heq
    rw [heq] at hlt
    exact UInt64.not_lt_zero hlt

theorem PlansNumbered.trace {epoch : BitVec 128} {entries : List Entry}
    (hindices : IncreasingIndices entries)
    (htrace : Trace (Step prims identity) (MetaView.empty epoch) entries v) :
    PlansNumbered entries v := by
  refine htrace.invariant (P := PlansNumbered) ?_ fun done entry mid next hbefore hmid hstep ↦
    hmid.step (hindices.sublist hbefore.sublist) hstep
  refine ⟨PlacementInvariant.empty epoch, fun h ↦ absurd rfl h, fun _ _ h ↦ ?_⟩
  cases h

/-! ### The placements of a snapshot -/

variable {s : Storage}

theorem mem_routingPlacements (hs : WellFormed prims s.state) {p partition : UInt16}
    {placed : Placement} : (partition, placed) ∈ routingPlacements s p ↔
      partition < p ∧ (view s.state).placement (.data partition) = some placed := by
  have hread : ∀ q : UInt16, (MetaStateMachine.placement s (.data q)).toOption.join =
      (view s.state).placement (.data q) := by
    intro q
    rw [hs.placement_eq]
    rfl
  simp only [routingPlacements, hread, List.mem_filterMap, List.mem_range, Option.map_eq_some_iff,
    Prod.mk.injEq]
  constructor
  · rintro ⟨q, hq, found, hfound, rfl, rfl⟩
    refine ⟨?_, hfound⟩
    rw [UInt16.lt_iff_toNat_lt, UInt16.toNat_ofNat_of_lt' (hq.trans p.toNat_lt)]
    exact hq
  · rintro ⟨hlt, hplaced⟩
    refine ⟨partition.toNat, UInt16.lt_iff_toNat_lt.mp hlt, placed, ?_, ?_, rfl⟩
    · rwa [UInt16.ofNat_toNat]
    · rw [UInt16.ofNat_toNat]

theorem nodup_routingPlacements (s : Storage) (p : UInt16) :
    ((routingPlacements s p).map Prod.fst).Nodup := by
  rw [routingPlacements, List.map_filterMap]
  refine List.pairwise_filterMap.mpr (List.nodup_range.imp_of_mem ?_)
  intro first second hfirst hsecond hne partition hpartition other hother heq
  simp only [Option.map_map, Option.map_eq_some_iff, Function.comp_apply] at hpartition hother
  obtain ⟨-, -, rfl⟩ := hpartition
  obtain ⟨-, -, rfl⟩ := hother
  have hbound : ∀ {q : ℕ}, q ∈ List.range p.toNat → (UInt16.ofNat q).toNat = q := fun hq ↦
    UInt16.toNat_ofNat_of_lt' ((List.mem_range.mp hq).trans p.toNat_lt)
  exact hne (by rw [← hbound hfirst, ← hbound hsecond, heq])

theorem WellFormed.routingInfo_eq (hs : WellFormed prims s.state) (config : ClusterConfig)
    {directory : List NodeDirectoryEntry} (hread : MetaStateMachine.directory s = .ok directory) :
    routingInfo s config = .ok ⟨config.clusterId, (view s.state).recoveryEpoch, config.p,
      config.hashSpec, directory, routingPlacements s config.p⟩ := by
  rw [routingInfo, hread, ok_bind, hs.recoveryEpoch_eq]
  rfl

/-! ### The snapshot -/

/-- Assumes: the shape of a data placement, and plans with ids. A client accepts the placement. -/
theorem coherentPlacement_of_shaped {partition : UInt16} {placed : Placement}
    {directory : List NodeDirectoryEntry} (hlists : v.Lists directory)
    (hshaped : Shaped v config placed (.data partition)) (hr : 3 ≤ config.r.toNat)
    (hplan : ∀ plan, placed.move = some plan → plan.planId ≠ 0) :
    RoutingInfo.CoherentPlacement (directory.map (·.nodeId)) placed := by
  obtain ⟨-, hvoters, hmove⟩ := hshaped
  have hlisted : ∀ {voters : List NodeId}, DataVoters v config voters →
      ∀ voter ∈ voters, voter ∈ directory.map (·.nodeId) := by
    intro voters hdata voter hvoter
    obtain ⟨-, entry, hentry⟩ := hdata.listed voter hvoter
    obtain ⟨hmem, hid⟩ := (hlists.node_eq_some_iff voter entry).mp hentry
    exact List.mem_map.mpr ⟨entry, hmem, hid⟩
  have hnodup : ∀ {voters : List NodeId}, DataVoters v config voters → voters.Nodup := fun hdata ↦
    hdata.sorted.imp fun hlt ↦ UInt64.ne_of_lt hlt
  refine ⟨fun hnil ↦ ?_, hnodup hvoters, hlisted hvoters, fun plan hplaced ↦ ?_⟩
  · have hlength := hvoters.length_eq
    rw [hnil, List.length_nil] at hlength
    omega
  · obtain ⟨htarget, hexchange⟩ := hmove plan hplaced
    exact ⟨hplan plan hplaced, hnodup htarget, htarget.length_eq.trans hvoters.length_eq.symm,
      hlisted htarget, hexchange⟩

variable (prims) in
/-- Assumes: entries at increasing indices. They are applied from the empty state of a replica. Once
the cluster record is there, the snapshot of the state lists exactly the placements of data groups,
and a client of the cluster accepts it. The candidates of every partition in it are distinct, the
voters of its placement and the targets of its move are among them, and each has a control address
in the snapshot. -/
theorem routing_snapshot_accepted (identity : Option Identity) (epoch : Option (BitVec 128))
    {entries : List Entry} (hindices : IncreasingIndices entries) :
    ∃ results s, run (step prims) (emptyStorage identity epoch) entries = .ok (results, s) ∧
      ∀ config, (view s.state).cluster = some config →
        ∃ info, routingInfo s config = .ok info ∧
          (∀ id entry, (view s.state).node id = some entry ↔
            entry ∈ info.directory ∧ entry.nodeId = id) ∧
          (∀ partition placed, (partition, placed) ∈ info.placements ↔
            (view s.state).placement (.data partition) = some placed) ∧
          info.validate config.clusterId = .ok () ∧
          ∀ partition placed, (partition, placed) ∈ info.placements →
            (info.candidates partition).Nodup ∧
            (∀ voter ∈ placed.voters, voter ∈ info.candidates partition) ∧
            (∀ plan, placed.move = some plan →
              ∀ voter ∈ plan.targetVoters, voter ∈ info.candidates partition) ∧
            ∀ voter ∈ info.candidates partition,
            ∃ address, info.controlAddr voter = some address := by
  obtain ⟨results, s, hrun, -, hwell, htrace⟩ := exists_run prims identity epoch entries
  refine ⟨results, s, hrun, fun config hconfig ↦ ?_⟩
  have hdirectory := DirectoryInvariant.trace htrace
  have hplans := PlansNumbered.trace hindices htrace
  have hcluster : ClusterShaped (view s.state) :=
    htrace.stable (fun hstep h ↦ h.step hstep) (fun _ h ↦ by cases h)
  obtain ⟨directory, hread, hlists⟩ := hwell.directory_returns
  have hplacements : ∀ partition placed, (partition, placed) ∈ routingPlacements s config.p ↔
      (view s.state).placement (.data partition) = some placed := by
    intro partition placed
    refine (mem_routingPlacements hwell).trans ⟨And.right, fun hplaced ↦ ⟨?_, hplaced⟩⟩
    obtain ⟨config', hconfig', hshaped⟩ := hplans.placed.shaped _ _ hplaced
    cases hconfig.symm.trans hconfig'
    exact hshaped.1
  have hcoherent : ∀ partition placed, (partition, placed) ∈ routingPlacements s config.p →
      RoutingInfo.CoherentPlacement (directory.map (·.nodeId)) placed := by
    intro partition placed hmem
    have hplaced := (hplacements partition placed).mp hmem
    obtain ⟨config', hconfig', hshaped⟩ := hplans.placed.shaped _ _ hplaced
    cases hconfig.symm.trans hconfig'
    refine coherentPlacement_of_shaped hlists hshaped (hcluster config hconfig).2
      fun plan hmove ↦ ?_
    exact hplans.planId_ne_zero _ plan (MetaView.plan_eq_some_iff.mpr ⟨placed, hplaced, hmove⟩)
  have hsnapshot : RoutingInfo.Coherent ⟨config.clusterId, (view s.state).recoveryEpoch, config.p,
      config.hashSpec, directory, routingPlacements s config.p⟩ := by
    refine ⟨(hcluster config hconfig).1, hlists.ncard_listed ▸ hdirectory.count,
      fun entry hentry ↦ (hdirectory.entries _ entry (hlists.node_of_mem hentry)).id_ne_zero,
      hlists.nodup, fun entry hentry address haddress ↦ ?_, nodup_endpoints hdirectory hlists,
      fun listed hlisted ↦ ((mem_routingPlacements hwell).mp hlisted).1,
      nodup_routingPlacements s config.p, fun listed hlisted ↦ hcoherent _ _ hlisted⟩
    have hentry' := hdirectory.entries _ entry (hlists.node_of_mem hentry)
    rcases List.mem_cons.mp haddress with rfl | hbulk
    · exact ⟨hentry'.control, hentry'.control_size⟩
    · rw [List.mem_singleton.mp hbulk]
      exact ⟨hentry'.bulk, hentry'.bulk_size⟩
  refine ⟨_, hwell.routingInfo_eq config hread, hlists.node_eq_some_iff, hplacements,
    hsnapshot.validate_eq_ok, fun partition placed hmem ↦ ?_⟩
  obtain ⟨hnodup, hcandidates, haddress⟩ := hsnapshot.candidates hmem
  exact ⟨hnodup, fun voter hvoter ↦ (hcandidates voter).mpr (.inl hvoter),
    fun plan hmove voter hvoter ↦ (hcandidates voter).mpr (.inr ⟨plan, hmove, hvoter⟩), haddress⟩

/-- A partition that is moved from node 3 to node 4. -/
theorem routing_snapshot_accepted_moving :
    let prims : Primitives := ⟨fun _ ↦ Vector.replicate 32 0, id⟩
    let entries : List Entry :=
      [(⟨1, 1⟩, .clusterInit ⟨7, PROTOCOL_VERSION, 1, 3, .CANONICAL⟩ [1, 2, 3]),
        (⟨1, 2⟩, .registerNode 1 "a1" "b1"), (⟨1, 3⟩, .registerNode 2 "a2" "b2"),
        (⟨1, 4⟩, .registerNode 3 "a3" "b3"), (⟨1, 5⟩, .registerNode 4 "a4" "b4"),
        (⟨1, 6⟩, .seedPlacement (.data 0) [1, 2, 3]), (⟨1, 7⟩, .createPlan (.data 0) 0 [1, 2, 4])]
    ∃ results s, run (step prims) (emptyStorage (some ⟨7, 1⟩) none) entries = .ok (results, s) ∧
      ∀ config, (view s.state).cluster = some config →
        ∃ info, routingInfo s config = .ok info ∧ info.validate config.clusterId = .ok () := by
  intro prims entries
  obtain ⟨results, s, hrun, haccepted⟩ :=
    routing_snapshot_accepted prims (some ⟨7, 1⟩) none
      (show IncreasingIndices entries by decide)
  refine ⟨results, s, hrun, fun config hconfig ↦ ?_⟩
  obtain ⟨info, hinfo, -, -, hvalid, -⟩ := haccepted config hconfig
  exact ⟨info, hinfo, hvalid⟩

end DalService.Meta
