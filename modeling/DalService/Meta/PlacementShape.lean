import DalService.Meta.Run

/-!
# The shape of placements

`Shaped` says what a placement looks like: a data placement has exactly `R` voters and a planned
move of it exchanges one of them, the meta placement has three to eight voters and a planned move of
it exchanges or removes one. Voter lists, plan targets and the directory constrain each other,
because a node may leave the directory only when no placement refers to it, so the shape of all
placements is one invariant of the abstract steps (`PlacementInvariant.step`).
`meta_placement_shape` is the result for runs of a replica.
-/

set_option autoImplicit false

namespace DalService.Meta

open Foundation MetaStateMachine

/-! ### Voter lists -/

/-- The voters of a data placement: as many as the replication factor, ascending, each a listed node
with a non-zero id. -/
structure DataVoters (v : MetaView) (config : ClusterConfig) (voters : List NodeId) : Prop where
  length_eq : voters.length = config.r.toNat
  sorted : voters.Pairwise (· < ·)
  listed : ∀ voter ∈ voters, voter ≠ 0 ∧ ∃ entry, v.node voter = some entry

/-- The voters of the meta placement: three to eight, ascending. -/
structure MetaVoters (voters : List NodeId) : Prop where
  min_le : 3 ≤ voters.length
  le_max : voters.length ≤ 8
  sorted : voters.Pairwise (· < ·)

/-- One voter is added and one is removed. -/
def Exchanges (voters target : List NodeId) : Prop :=
  (voterSet target \ voterSet voters).card = 1 ∧ (voterSet voters \ voterSet target).card = 1

/-- One voter is removed and none is added. -/
def Removes (voters target : List NodeId) : Prop :=
  voterSet target \ voterSet voters = ∅ ∧ (voterSet voters \ voterSet target).card = 1

/-- The shape of the placement of a group. -/
def Shaped (v : MetaView) (config : ClusterConfig) (placed : Placement) : GroupId → Prop
  | .data partition =>
    partition < config.p ∧ DataVoters v config placed.voters ∧
      ∀ plan, placed.move = some plan →
        DataVoters v config plan.targetVoters ∧ Exchanges placed.voters plan.targetVoters
  | .meta =>
    MetaVoters placed.voters ∧
      ∀ plan, placed.move = some plan → MetaVoters plan.targetVoters ∧
        (Exchanges placed.voters plan.targetVoters ∨ Removes placed.voters plan.targetVoters)

theorem length_eq_card {voters : List NodeId} (hsorted : voters.Pairwise (· < ·)) :
    voters.length = (voterSet voters).card := by
  rw [← length_ascending, ascending_of_sorted hsorted]

theorem sortUnstable_of_sorted {voters : List NodeId} (hsorted : voters.Pairwise (· < ·)) :
    sortUnstable voters = voters :=
  List.Pairwise.insertionSort_eq (hsorted.imp UInt64.le_of_lt)

theorem mem_groups_data {p partition : UInt16} (h : partition < p) :
    GroupId.data partition ∈ groups p := by
  refine List.mem_cons_of_mem _ (List.mem_map.mpr ⟨partition.toNat, ?_, ?_⟩)
  · exact List.mem_range.mpr (UInt16.lt_iff_toNat_lt.mp h)
  · rw [UInt16.ofNat_toNat]

variable {config : ClusterConfig} {placed : Placement}

/-- Assumes: a placement that does not refer to a node. The node is no voter and no target. -/
theorem not_mem_of_referencesNode {id : NodeId} (h : placed.referencesNode id = false) :
    id ∉ placed.voters ∧ ∀ plan, placed.move = some plan → id ∉ plan.targetVoters := by
  rw [Placement.referencesNode, Bool.or_eq_false_iff] at h
  refine ⟨by simpa using h.1, fun plan hplan ↦ ?_⟩
  simpa [hplan] using h.2

/-- The group of a placement with its shape is one of the cluster's groups. -/
theorem mem_groups_of_shaped {v : MetaView}
    {group : GroupId} (h : Shaped v config placed group) : group ∈ groups config.p := by
  cases group with
  | «meta» => exact List.mem_cons_self
  | data partition => exact mem_groups_data h.1

/-! ### The shape survives changes of the directory -/

theorem DataVoters.mono {v next : MetaView} {voters : List NodeId} (h : DataVoters v config voters)
    (hlisted : ∀ voter ∈ voters, v.node voter ≠ none → next.node voter ≠ none) :
    DataVoters next config voters := by
  refine ⟨h.length_eq, h.sorted, fun voter hvoter ↦ ?_⟩
  obtain ⟨hid, entry, hentry⟩ := h.listed voter hvoter
  refine ⟨hid, Option.ne_none_iff_exists'.mp (hlisted voter hvoter ?_)⟩
  rw [hentry]
  exact Option.some_ne_none entry

/-- Assumes: every node the placement refers to stays listed. -/
theorem Shaped.mono {v next : MetaView} {group : GroupId} (h : Shaped v config placed group)
    (hlisted : ∀ id, placed.referencesNode id = true → v.node id ≠ none → next.node id ≠ none) :
    Shaped next config placed group := by
  cases group with
  | «meta» => exact h
  | data partition =>
    obtain ⟨hpartition, hvoters, hmove⟩ := h
    refine ⟨hpartition, hvoters.mono fun voter hvoter ↦ hlisted voter ?_, fun plan hplan ↦ ?_⟩
    · simp [Placement.referencesNode, hvoter]
    · obtain ⟨htarget, hexchange⟩ := hmove plan hplan
      refine ⟨htarget.mono fun voter hvoter ↦ hlisted voter ?_, hexchange⟩
      simp [Placement.referencesNode, hplan, hvoter]

/-! ### The invariant -/

/-- Every placement belongs to the cluster and has its shape, and no listed node has id zero. -/
structure PlacementInvariant (v : MetaView) : Prop where
  shaped : ∀ group placed, v.placement group = some placed →
    ∃ config, v.cluster = some config ∧ Shaped v config placed group
  node_ne_zero : ∀ id entry, v.node id = some entry → id ≠ 0

theorem PlacementInvariant.empty (epoch : BitVec 128) :
    PlacementInvariant (MetaView.empty epoch) where
  shaped := fun _ _ h ↦ by cases h
  node_ne_zero := fun _ _ h ↦ by cases h

variable {prims : Primitives} {identity : Option Identity} {v next : MetaView} {logId : LogId}
  {cmd : MetaCommand}

/-- An active node is listed, under a non-zero id. -/
theorem PlacementInvariant.listed_of_active (h : PlacementInvariant v) {id : NodeId}
    (hactive : id ∈ v.active) : id ≠ 0 ∧ ∃ entry, v.node id = some entry := by
  obtain ⟨entry, hentry, -⟩ := hactive
  exact ⟨h.node_ne_zero id entry hentry, entry, hentry⟩

/-- An entry is written under an id other than zero. -/
theorem PlacementInvariant.list (h : PlacementInvariant v) {nodeId : NodeId} (hid : nodeId ≠ 0)
    {written : NodeDirectoryEntry} :
    PlacementInvariant { v with node := Function.update v.node nodeId (some written) } := by
  refine ⟨fun group placed hplaced ↦ ?_, fun id entry hentry ↦ ?_⟩
  · obtain ⟨config, hconfig, hshaped⟩ := h.shaped group placed hplaced
    refine ⟨config, hconfig, hshaped.mono fun id _ hlisted ↦ ?_⟩
    by_cases hsame : id = nodeId <;> simp [hsame, hlisted]
  · rcases update_eq_some hentry with ⟨rfl, -⟩ | ⟨-, hold⟩
    · exact hid
    · exact h.node_ne_zero id entry hold

/-- A placement that refers to no node of the change keeps its shape. -/
theorem PlacementInvariant.directory (h : PlacementInvariant v)
    (heffect : DirectoryEffect identity v logId cmd next) : PlacementInvariant next := by
  cases heffect with
  | clusterInit config metaVoters bound hnew _ _ _ _ _ _ hdistinct hmin _ hmax =>
    refine ⟨fun group placed hplaced ↦ ⟨config, rfl, ?_⟩, h.node_ne_zero⟩
    rcases update_eq_some hplaced with ⟨rfl, rfl⟩ | ⟨-, hplaced⟩
    · exact ⟨⟨hmin, hmax, sorted_ascending metaVoters⟩, fun plan hplan ↦ by cases hplan⟩
    · obtain ⟨old, hold, -⟩ := h.shaped group placed hplaced
      cases hnew.symm.trans hold
  | registerNode nodeId controlAddr bulkAddr incarnation _ hid => exact h.list hid
  | setNodeState nodeId state old hold => exact h.list (h.node_ne_zero nodeId old hold)
  | retireNode nodeId old config _ _ _ hcluster hfree =>
    refine ⟨fun group placed hplaced ↦ ?_, fun id entry hentry ↦ ?_⟩
    · obtain ⟨config', hconfig, hshaped⟩ := h.shaped group placed hplaced
      cases hconfig.symm.trans hcluster
      refine ⟨config, hconfig, hshaped.mono fun id hrefers hlisted ↦ ?_⟩
      -- the retired node is not among the nodes the placement refers to
      obtain ⟨other, hother, hunused⟩ := hfree group (mem_groups_of_shaped hshaped)
      cases hother.symm.trans hplaced
      have hne : id ≠ nodeId := by
        rintro rfl
        rw [hunused] at hrefers
        cases hrefers
      simpa [Function.update_of_ne hne] using hlisted
    · exact h.node_ne_zero id entry (update_none_eq_some hentry).2

/-- A plan that was checked has a target of the shape its group needs. -/
theorem PlacementInvariant.planned (h : PlacementInvariant v) {group : GroupId}
    {targetVoters : List NodeId} (hshaped : Shaped v config placed group)
    (hlegal : LegalMove v config (voterSet placed.voters) (voterSet targetVoters) group)
    (hactive : ∀ voter ∈ targetVoters, voter ∉ voterSet placed.voters → voter ∈ v.active)
    (planId : UInt64) (aborting : Bool) :
    Shaped v config
      { placed with
        move := some { planId := planId, targetVoters := ascending targetVoters,
                       aborting := aborting } } group := by
  cases group with
  | data partition =>
    obtain ⟨hpartition, hvoters, -⟩ := hshaped
    obtain ⟨hsize, hadded, hremoved, -⟩ := hlegal
    refine ⟨hpartition, hvoters, fun plan hplan ↦ ?_⟩
    cases hplan
    refine ⟨⟨by rw [length_ascending, hsize], sorted_ascending _, fun voter hvoter ↦ ?_⟩, ?_⟩
    · by_cases hcurrent : voter ∈ voterSet placed.voters
      · exact hvoters.listed voter (List.mem_toFinset.mp hcurrent)
      · exact h.listed_of_active (hactive voter (mem_ascending.mp hvoter) hcurrent)
    · simp only [Exchanges, voterSet_ascending]
      exact ⟨hadded, hremoved⟩
  | «meta» =>
    obtain ⟨hvoters, -⟩ := hshaped
    obtain ⟨hsize, hchange⟩ := hlegal
    have hcurrent := length_eq_card hvoters.sorted
    have hmax := hvoters.le_max
    refine ⟨hvoters, fun plan hplan ↦ ?_⟩
    cases hplan
    refine ⟨⟨by rw [length_ascending]; exact hsize, ?_, sorted_ascending _⟩, ?_⟩
    · rw [length_ascending]
      rcases hchange with ⟨-, -, hcard⟩ | ⟨-, -, hcard⟩ <;> omega
    · simp only [Exchanges, Removes, voterSet_ascending]
      rcases hchange with ⟨hadded, hremoved, -⟩ | ⟨hadded, hremoved, -⟩
      · exact .inl ⟨hadded, hremoved⟩
      · exact .inr ⟨Finset.card_eq_zero.mp hadded, hremoved⟩

/-- The placement of a group without a move, at its old voters or at the target of its plan. -/
theorem Shaped.resolved {group : GroupId} {plan : MovePlan} (hshaped : Shaped v config placed group)
    (hmove : placed.move = some plan) {voters : List NodeId}
    (hvoters : voters = placed.voters ∨ voters = plan.targetVoters) (votersLogId : LogId) :
    Shaped v config { voters := sortUnstable voters, votersLogId := votersLogId, move := none }
      group := by
  cases group with
  | data partition =>
    obtain ⟨hpartition, hcurrent, htarget⟩ := hshaped
    have hdata : DataVoters v config voters := by
      rcases hvoters with rfl | rfl
      · exact hcurrent
      · exact (htarget plan hmove).1
    refine ⟨hpartition, ?_, fun other hother ↦ by cases hother⟩
    rwa [sortUnstable_of_sorted hdata.sorted]
  | «meta» =>
    obtain ⟨hcurrent, htarget⟩ := hshaped
    have hmeta : MetaVoters voters := by
      rcases hvoters with rfl | rfl
      · exact hcurrent
      · exact (htarget plan hmove).1
    refine ⟨?_, fun other hother ↦ by cases hother⟩
    rwa [sortUnstable_of_sorted hmeta.sorted]

/-- The placement a command writes belongs to the cluster and has its shape. -/
theorem PlacementInvariant.written (h : PlacementInvariant v) {group : GroupId}
    (heffect : PlacementEffect v logId cmd group placed) :
    ∃ config, v.cluster = some config ∧ Shaped v config placed group := by
  cases heffect with
  | seed config partition voters hcluster hpartition hdistinct hsize hactive _ =>
    refine ⟨config, hcluster, hpartition, ⟨hsize, sorted_ascending voters, fun voter hvoter ↦ ?_⟩,
      fun plan hplan ↦ by cases hplan⟩
    exact h.listed_of_active (hactive voter (mem_ascending.mp hvoter))
  | plan config _ planId targetVoters old hcluster hplaced _ _ hlegal hactive =>
    obtain ⟨config', hconfig, hshaped⟩ := h.shaped _ _ hplaced
    obtain rfl : config' = config := Option.some.inj (hconfig.symm.trans hcluster)
    exact ⟨config', hconfig, h.planned hshaped hlegal hactive logId.index false⟩
  | markAborting _ old plan hplaced hmove _ =>
    obtain ⟨config, hconfig, hshaped⟩ := h.shaped _ _ hplaced
    refine ⟨config, hconfig, ?_⟩
    cases group with
    | data partition =>
      refine ⟨hshaped.1, hshaped.2.1, fun marked hmarked ↦ ?_⟩
      cases hmarked
      exact hshaped.2.2 plan hmove
    | «meta» =>
      refine ⟨hshaped.1, fun marked hmarked ↦ ?_⟩
      cases hmarked
      exact hshaped.2 plan hmove
  | finalize _ old plan observation hplaced hmove =>
    obtain ⟨config, hconfig, hshaped⟩ := h.shaped _ _ hplaced
    exact ⟨config, hconfig, hshaped.resolved hmove (.inr rfl) _⟩
  | abort _ old plan observation voters hplaced hmove _ _ _ _ hvoters =>
    obtain ⟨config, hconfig, hshaped⟩ := h.shaped _ _ hplaced
    exact ⟨config, hconfig, hshaped.resolved hmove hvoters _⟩

/-- Every abstract step keeps the shape of placements. -/
theorem PlacementInvariant.step (h : PlacementInvariant v) {entry : Entry}
    (hstep : Step prims identity v entry next) : PlacementInvariant next := by
  rcases hstep with rfl | heffect
  · exact h
  rcases heffect.control_cases with hdirectory | ⟨group, placed, hplacement, rfl⟩ | hsame
  · exact h.directory hdirectory
  · refine ⟨fun other found hfound ↦ ?_, h.node_ne_zero⟩
    rcases update_eq_some hfound with ⟨rfl, rfl⟩ | ⟨-, hold⟩
    · obtain ⟨config, hconfig, hshaped⟩ := h.written hplacement
      exact ⟨config, hconfig, hshaped.mono fun _ _ hlisted ↦ hlisted⟩
    · obtain ⟨config, hconfig, hshaped⟩ := h.shaped other found hold
      exact ⟨config, hconfig, hshaped.mono fun _ _ hlisted ↦ hlisted⟩
  · refine ⟨fun group placed hplaced ↦ ?_, fun id entry hentry ↦ ?_⟩
    · rw [hsame.placement] at hplaced
      obtain ⟨config, hconfig, hshaped⟩ := h.shaped group placed hplaced
      refine ⟨config, by rw [hsame.cluster, hconfig], hshaped.mono fun id _ hlisted ↦ ?_⟩
      rwa [hsame.node]
    · rw [hsame.node] at hentry
      exact h.node_ne_zero id entry hentry

/-- The shape holds in every state a trace from the empty state leads to. -/
theorem PlacementInvariant.trace {epoch : BitVec 128} {entries : List Entry}
    (htrace : Trace (Step prims identity) (MetaView.empty epoch) entries v) :
    PlacementInvariant v :=
  htrace.stable (fun hstep hinv ↦ hinv.step hstep) (PlacementInvariant.empty epoch)

/-- Once written, the cluster record does not change. -/
theorem cluster_eq_of_trace {entries : List Entry}
    (htrace : Trace (Step prims identity) v entries next) (hconfig : v.cluster = some config) :
    next.cluster = some config := by
  refine htrace.stable (P := fun w ↦ w.cluster = some config) ?_ hconfig
  rintro mid entry after (rfl | heffect) hmid
  · exact hmid
  · exact heffect.cluster_eq hmid

/-- Every list of entries is applied from the empty state of a replica, whatever its commands are.
At each cut of the list the cluster record, once written, is the one of the end. At the end, a
placement of `Data(p)` exists only for `p < P`, has exactly `R` distinct ascending voters that are
listed nodes with non-zero ids, and a move of it has a target of the same kind that adds one node
and removes one; the meta placement has three to eight distinct ascending voters, and a move of it
exchanges one voter or removes one and leaves at least three. -/
theorem meta_placement_shape (identity : Option Identity) (epoch : Option (BitVec 128))
    (first second : List Entry) :
    ∃ early mid late last,
      run (Meta.step prims) (emptyStorage identity epoch) first = .ok (early, mid) ∧
      run (Meta.step prims) mid second = .ok (late, last) ∧
      (∀ config, (view mid.state).cluster = some config →
        (view last.state).cluster = some config) ∧
      (∀ partition placed, (view last.state).placement (.data partition) = some placed →
        ∃ config, (view last.state).cluster = some config ∧ partition < config.p ∧
          DataVoters (view last.state) config placed.voters ∧
          ∀ plan, placed.move = some plan →
            DataVoters (view last.state) config plan.targetVoters ∧
              Exchanges placed.voters plan.targetVoters) ∧
      ∀ placed, (view last.state).placement .meta = some placed →
        MetaVoters placed.voters ∧ ∀ plan, placed.move = some plan →
          MetaVoters plan.targetVoters ∧
            (Exchanges placed.voters plan.targetVoters ∨
              Removes placed.voters plan.targetVoters) := by
  obtain ⟨early, mid, hearly, rfl, hmid, hfirst⟩ := exists_run prims identity epoch first
  obtain ⟨late, last, hlate, -, -, hsecond⟩ := exists_run_from hmid second
  have hinv := PlacementInvariant.trace (hfirst.append hsecond)
  refine ⟨early, mid, late, last, hearly, hlate, fun config hconfig ↦ ?_,
    fun partition placed hplaced ↦ ?_, fun placed hplaced ↦ ?_⟩
  · exact cluster_eq_of_trace hsecond hconfig
  · obtain ⟨config, hconfig, hshaped⟩ := hinv.shaped _ _ hplaced
    exact ⟨config, hconfig, hshaped⟩
  · obtain ⟨config, -, hshaped⟩ := hinv.shaped _ _ hplaced
    exact hshaped

end DalService.Meta
