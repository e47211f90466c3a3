import DalService.Meta.PlacementShape

/-!
# The node directory and retirement

The directory lists at most eight nodes, and no address stands in it twice, on either lane. A node
leaves it by retirement only, which leaves a tombstone; a tombstone is never changed, and its node
is in no entry, no voter list and no plan target from then on. The parts constrain each other
through the placements (a node retires only when no placement refers to it), so they are one
invariant of the abstract steps, `DirectoryInvariant.step`. `directory_and_retirement` is the result
for runs of a replica.
-/

set_option autoImplicit false

namespace DalService.Meta

open Foundation MetaStateMachine
open Function (update update_of_ne)

/-! ### Entries and endpoints -/

/-- What every registration checks of an entry. -/
structure WellListed (id : NodeId) (entry : NodeDirectoryEntry) : Prop where
  id_ne_zero : id ≠ 0
  nodeId_eq : entry.nodeId = id
  control : entry.controlAddr.isEmpty = false
  bulk : entry.bulkAddr.isEmpty = false
  control_size : entry.controlAddr.utf8ByteSize ≤ MAX_ENDPOINT_BYTES
  bulk_size : entry.bulkAddr.utf8ByteSize ≤ MAX_ENDPOINT_BYTES
  lanes : entry.controlAddr ≠ entry.bulkAddr

/-- Assumes: an entry that uses neither of two addresses. Its addresses are others. -/
theorem disjoint_of_usesAddress {entry other : NodeDirectoryEntry}
    (h : usesAddress entry.controlAddr entry.bulkAddr other = false) :
    entry.endpoints.Disjoint other.endpoints := by
  simp only [usesAddress, Bool.or_eq_false_iff, decide_eq_false_iff_not] at h
  obtain ⟨⟨⟨hcc, hbc⟩, hcb⟩, hbb⟩ := h
  intro address hfirst hsecond
  simp only [NodeDirectoryEntry.endpoints, List.mem_cons, List.not_mem_nil,
    or_false] at hfirst hsecond
  rcases hfirst with rfl | rfl <;> rcases hsecond with h | h
  · exact hcc h.symm
  · exact hbc h.symm
  · exact hcb h.symm
  · exact hbb h.symm

/-- The directory of a view, its tombstones, and what they say about placements. -/
structure DirectoryInvariant (v : MetaView) : Prop where
  entries : ∀ id entry, v.node id = some entry → WellListed id entry
  endpoints_disjoint : ∀ first second entry other, v.node first = some entry →
    v.node second = some other → first ≠ second → entry.endpoints.Disjoint other.endpoints
  count : v.listed.ncard ≤ MAX_CLUSTER_NODES
  retired_cluster : ∀ id incarnation, v.retired id = some incarnation → v.cluster ≠ none
  retired_node : ∀ id incarnation, v.retired id = some incarnation → v.node id = none
  retired_placement : ∀ id incarnation group placed, v.retired id = some incarnation →
    v.placement group = some placed → placed.referencesNode id = false

theorem DirectoryInvariant.empty (epoch : BitVec 128) :
    DirectoryInvariant (MetaView.empty epoch) where
  entries := fun _ _ h ↦ by cases h
  endpoints_disjoint := fun _ _ _ _ h ↦ by cases h
  count := by
    have hempty : (MetaView.empty epoch).listed = ∅ := by simp [MetaView.listed, MetaView.empty]
    rw [hempty, Set.ncard_empty]
    exact Nat.zero_le _
  retired_cluster := fun _ _ h ↦ by cases h
  retired_node := fun _ _ h ↦ by cases h
  retired_placement := fun _ _ _ _ h ↦ by cases h

variable {prims : Primitives} {identity : Option Identity} {v next : MetaView} {logId : LogId}
  {cmd : MetaCommand}

/-! ### Steps -/

theorem listed_update_some (id : NodeId) (entry : NodeDirectoryEntry) :
    { v with node := update v.node id (some entry) }.listed = insert id v.listed := by
  ext other
  by_cases hother : other = id
  · simp [MetaView.listed, hother]
  · simp [MetaView.listed, hother]

/-- An entry that passed the checks of a registration is written. -/
theorem DirectoryInvariant.write (h : DirectoryInvariant v) {id : NodeId}
    {entry : NodeDirectoryEntry} (hentry : WellListed id entry) (hretired : v.retired id = none)
    (hfree : ∀ other found, v.node other = some found → other ≠ id →
      entry.endpoints.Disjoint found.endpoints)
    (hroom : id ∈ v.listed ∨ v.listed.ncard < MAX_CLUSTER_NODES) :
    DirectoryInvariant { v with node := update v.node id (some entry) } where
  entries := by
    intro other found hfound
    rcases update_eq_some hfound with ⟨rfl, rfl⟩ | ⟨-, hold⟩
    · exact hentry
    · exact h.entries other found hold
  endpoints_disjoint := by
    intro first second found other hfound hother hne
    rcases update_eq_some hfound with ⟨rfl, rfl⟩ | ⟨hfirst, hold⟩ <;>
      rcases update_eq_some hother with ⟨rfl, rfl⟩ | ⟨hsecond, hold'⟩
    · exact absurd rfl hne
    · exact hfree second other hold' hsecond
    · exact (hfree first found hold hfirst).symm
    · exact h.endpoints_disjoint first second found other hold hold' hne
  count := by
    rw [listed_update_some]
    rcases hroom with hlisted | hroom
    · rw [Set.insert_eq_of_mem hlisted]
      exact h.count
    · have := Set.ncard_insert_le id v.listed
      omega
  retired_cluster := h.retired_cluster
  retired_node := by
    intro other incarnation hother
    have hne : other ≠ id := by
      rintro rfl
      have hsome : v.retired other = some incarnation := hother
      rw [hretired] at hsome
      cases hsome
    simp only [update_of_ne hne]
    exact h.retired_node other incarnation hother
  retired_placement := h.retired_placement

/-- Every change of the directory keeps the invariant. The retired node is in no placement, because
every placement is one of the groups the retirement checked. -/
theorem DirectoryInvariant.directory (h : DirectoryInvariant v) (hplaced : PlacementInvariant v)
    (heffect : DirectoryEffect identity v logId cmd next) : DirectoryInvariant next := by
  cases heffect with
  | clusterInit config metaVoters bound hnew =>
    -- no node retires before the cluster record exists
    have hnone : ∀ id incarnation, v.retired id ≠ some incarnation :=
      fun id incarnation hretired ↦ h.retired_cluster id incarnation hretired hnew
    exact ⟨h.entries, h.endpoints_disjoint, h.count,
      fun id incarnation hretired ↦ absurd hretired (hnone id incarnation),
      fun id incarnation hretired ↦ absurd hretired (hnone id incarnation),
      fun id incarnation _ _ hretired ↦ absurd hretired (hnone id incarnation)⟩
  | registerNode nodeId controlAddr bulkAddr incarnation _ hid hcontrol hbulk hcontrolSize hbulkSize
      hlanes hretired hfree hroom =>
    exact h.write ⟨hid, rfl, hcontrol, hbulk, hcontrolSize, hbulkSize, hlanes⟩ hretired
      (fun other found hfound hne ↦ disjoint_of_usesAddress (hfree other found hfound hne)) hroom
  | setNodeState nodeId state entry hentry =>
    have hold := h.entries nodeId entry hentry
    have hretired : v.retired nodeId = none := by
      by_contra hsome
      obtain ⟨incarnation, hincarnation⟩ := Option.ne_none_iff_exists'.mp hsome
      rw [h.retired_node nodeId incarnation hincarnation] at hentry
      cases hentry
    refine h.write ⟨hold.id_ne_zero, hold.nodeId_eq, hold.control, hold.bulk, hold.control_size,
      hold.bulk_size, hold.lanes⟩ hretired (fun other found hfound hne ↦ ?_) (.inl ?_)
    · exact h.endpoints_disjoint nodeId other entry found hentry hfound hne.symm
    · simp [MetaView.listed, hentry]
  | retireNode nodeId entry config hretired hentry _ hcluster hfree =>
    have hkept : ∀ {id found}, update v.node nodeId none id = some found →
        v.node id = some found := fun hfound ↦ (update_none_eq_some hfound).2
    refine ⟨fun id found hfound ↦ h.entries id found (hkept hfound),
      fun first second found other hfound hother ↦
        h.endpoints_disjoint first second found other (hkept hfound) (hkept hother), ?_,
      fun _ _ _ ↦ by simp [hcluster], fun id incarnation hid ↦ ?_,
      fun id incarnation group placed hid hgroup ↦ ?_⟩
    · have hlisted : MetaView.listed
          { v with retired := update v.retired nodeId (some entry.incarnation)
                   node := update v.node nodeId none } = v.listed \ {nodeId} := by
        ext other
        by_cases hother : other = nodeId
        · simp [MetaView.listed, hother]
        · simp [MetaView.listed, hother]
      rw [hlisted]
      exact (Set.ncard_sdiff_singleton_le _ _).trans h.count
    · by_cases hsame : id = nodeId
      · simp [hsame]
      · simp only [update_of_ne hsame] at hid ⊢
        exact h.retired_node id incarnation hid
    · rcases update_eq_some hid with ⟨rfl, -⟩ | ⟨-, hold⟩
      · obtain ⟨config', hconfig, hshaped⟩ := hplaced.shaped group placed hgroup
        cases hconfig.symm.trans hcluster
        obtain ⟨other, hother, hunused⟩ := hfree group (mem_groups_of_shaped hshaped)
        cases hother.symm.trans hgroup
        exact hunused
      · exact h.retired_placement id incarnation group placed hold hgroup

theorem referencesNode_iff {placed : Placement} {id : NodeId} :
    placed.referencesNode id = true ↔
      id ∈ placed.voters ∨ ∃ plan, placed.move = some plan ∧ id ∈ plan.targetVoters := by
  simp [Placement.referencesNode, Option.any_eq_true]

/-- The placement a command writes refers to active nodes and to nodes the group referred to
before. -/
theorem PlacementEffect.refers {group : GroupId} {placed : Placement}
    (h : PlacementEffect v logId cmd group placed) {id : NodeId}
    (hrefers : placed.referencesNode id = true) :
    id ∈ v.active ∨ ∃ old, v.placement group = some old ∧ old.referencesNode id = true := by
  rw [referencesNode_iff] at hrefers
  have hsorted : ∀ {voters : List NodeId}, id ∈ sortUnstable voters → id ∈ voters :=
    fun hid ↦ (List.mem_insertionSort _).mp hid
  cases h with
  | seed config partition voters _ _ _ _ hactive =>
    rcases hrefers with hvoter | ⟨plan, hplan, -⟩
    · exact .inl (hactive id (mem_ascending.mp hvoter))
    · cases hplan
  | plan config _ planId targetVoters old _ hplaced _ _ _ hactive =>
    by_cases hcurrent : id ∈ old.voters
    · exact .inr ⟨old, hplaced, referencesNode_iff.mpr (.inl hcurrent)⟩
    · rcases hrefers with hvoter | ⟨plan, hplan, htarget⟩
      · exact absurd hvoter hcurrent
      · cases hplan
        exact .inl (hactive id (mem_ascending.mp htarget) (by simpa [voterSet] using hcurrent))
  | markAborting _ old plan hplaced hmove =>
    refine .inr ⟨old, hplaced, referencesNode_iff.mpr ?_⟩
    rcases hrefers with hvoter | ⟨marked, hmarked, htarget⟩
    · exact .inl hvoter
    · cases hmarked
      exact .inr ⟨plan, hmove, htarget⟩
  | finalize _ old plan observation hplaced hmove =>
    refine .inr ⟨old, hplaced, referencesNode_iff.mpr ?_⟩
    rcases hrefers with hvoter | ⟨plan', hplan, -⟩
    · exact .inr ⟨plan, hmove, hsorted hvoter⟩
    · cases hplan
  | abort _ old plan observation voters hplaced hmove _ _ _ _ hvoters =>
    refine .inr ⟨old, hplaced, referencesNode_iff.mpr ?_⟩
    rcases hrefers with hvoter | ⟨plan', hplan, -⟩
    · rcases hvoters with rfl | rfl
      · exact .inl (hsorted hvoter)
      · exact .inr ⟨plan, hmove, hsorted hvoter⟩
    · cases hplan

/-- Every abstract step keeps the invariant of the directory. -/
theorem DirectoryInvariant.step (h : DirectoryInvariant v) (hplaced : PlacementInvariant v)
    {entry : Entry} (hstep : Step prims identity v entry next) : DirectoryInvariant next := by
  rcases hstep with rfl | heffect
  · exact h
  rcases heffect.control_cases with hdirectory | ⟨group, placed, hplacement, rfl⟩ | hsame
  · exact h.directory hplaced hdirectory
  · refine ⟨h.entries, h.endpoints_disjoint, h.count, h.retired_cluster, h.retired_node,
      fun id incarnation other found hid hfound ↦ ?_⟩
    rcases update_eq_some hfound with ⟨rfl, rfl⟩ | ⟨-, hold⟩
    · rw [← Bool.not_eq_true]
      intro hrefers
      rcases hplacement.refers hrefers with ⟨listed, hlisted, -⟩ | ⟨old, hold, hreferred⟩
      · rw [h.retired_node id incarnation hid] at hlisted
        cases hlisted
      · rw [h.retired_placement id incarnation other old hid hold] at hreferred
        cases hreferred
    · exact h.retired_placement id incarnation other found hid hold
  · obtain ⟨hcluster, hnode, hretired, hplacement⟩ := hsame
    refine ⟨?_, ?_, ?_, ?_, ?_, ?_⟩
    · rw [hnode]
      exact h.entries
    · rw [hnode]
      exact h.endpoints_disjoint
    · rw [MetaView.listed, hnode]
      exact h.count
    · rw [hretired, hcluster]
      exact h.retired_cluster
    · rw [hretired, hnode]
      exact h.retired_node
    · rw [hretired, hplacement]
      exact h.retired_placement

/-- The invariant holds in every state a trace from the empty state leads to. -/
theorem DirectoryInvariant.trace {epoch : BitVec 128} {entries : List Entry}
    (htrace : Trace (Step prims identity) (MetaView.empty epoch) entries v) :
    DirectoryInvariant v := by
  have hboth : PlacementInvariant v ∧ DirectoryInvariant v := by
    refine htrace.stable (P := fun w ↦ PlacementInvariant w ∧ DirectoryInvariant w) ?_
      ⟨PlacementInvariant.empty epoch, DirectoryInvariant.empty epoch⟩
    intro mid entry after hstep hmid
    exact ⟨hmid.1.step hstep, hmid.2.step hmid.1 hstep⟩
  exact hboth.2

/-- A tombstone is written where there was none, so it is never changed. -/
theorem retired_eq_of_step {entry : Entry} (hstep : Step prims identity v entry next) {id : NodeId}
    {incarnation : UInt64} (hretired : v.retired id = some incarnation) :
    next.retired id = some incarnation := by
  rcases hstep with rfl | heffect
  · exact hretired
  obtain ⟨entryLog, entryCmd⟩ := entry
  rcases heffect.control_cases with hdirectory | ⟨group, placed, -, rfl⟩ | hsame
  · cases hdirectory with
    | retireNode nodeId _ _ hnone =>
      have hne : id ≠ nodeId := by
        rintro rfl
        rw [hnone] at hretired
        cases hretired
      simpa only [update_of_ne hne] using hretired
    | _ => exact hretired
  · exact hretired
  · rw [hsame.retired, hretired]

/-- A node leaves the directory by retirement only, and what the retirement checked held. -/
theorem retires_of_step {entry : Entry} (hstep : Step prims identity v entry next) {id : NodeId}
    {old : NodeDirectoryEntry} (hold : v.node id = some old) (hnone : next.node id = none) :
    entry.2 = .retireNode id old.incarnation ∧ old.state = .draining ∧
      ∃ config, v.cluster = some config ∧ ∀ group ∈ groups config.p, ∃ placed,
        v.placement group = some placed ∧ placed.referencesNode id = false := by
  rcases hstep with rfl | heffect
  · rw [hold] at hnone
    cases hnone
  obtain ⟨entryLog, entryCmd⟩ := entry
  rcases heffect.control_cases with hdirectory | ⟨group, placed, -, rfl⟩ | hsame
  · cases hdirectory with
    | clusterInit =>
      rw [hold] at hnone
      cases hnone
    | registerNode nodeId | setNodeState nodeId =>
      by_cases hsame : id = nodeId
      · simp [hsame] at hnone
      · simp [update_of_ne hsame, hold] at hnone
    | retireNode nodeId found config _ hentry hdraining hcluster hfree =>
      by_cases hsame : id = nodeId
      · subst hsame
        obtain rfl : old = found := Option.some.inj (hold.symm.trans hentry)
        exact ⟨rfl, hdraining, config, hcluster, hfree⟩
      · simp [update_of_ne hsame, hold] at hnone
  · rw [hold] at hnone
    cases hnone
  · rw [hsame.node, hold] at hnone
    cases hnone

/-- The entries of a directory have no address in common, on either lane. -/
theorem nodup_endpoints (h : DirectoryInvariant v) {entries : List NodeDirectoryEntry}
    (hlists : v.Lists entries) : (entries.flatMap (·.endpoints)).Nodup := by
  rw [List.nodup_flatMap]
  refine ⟨fun entry hentry ↦ ?_, ?_⟩
  · simpa [NodeDirectoryEntry.endpoints] using (h.entries _ entry (hlists.node_of_mem hentry)).lanes
  · have hids : entries.Pairwise fun first second ↦ first.nodeId ≠ second.nodeId :=
      List.pairwise_map.mp hlists.nodup
    refine hids.imp_of_mem fun hfirst hsecond hne ↦ ?_
    exact h.endpoints_disjoint _ _ _ _ (hlists.node_of_mem hfirst) (hlists.node_of_mem hsecond) hne

/-- Every list of entries is applied from the empty state of a replica. In the state it leads to the
directory has at most eight entries, each with a non-zero id and non-empty addresses of bounded
size, and no address stands twice in it, on either lane. A tombstone written at any cut of the list
is the same at the end, and its node is in no entry, no voter list and no plan target. The next
entry, whatever it is, removes a node from the directory only if it retires the node at its current
incarnation while the node drains and none of the placements of the cluster refers to it. -/
theorem directory_and_retirement (identity : Option Identity) (epoch : Option (BitVec 128))
    (first second : List Entry) :
    ∃ early mid late last,
      run (Meta.step prims) (emptyStorage identity epoch) first = .ok (early, mid) ∧
      run (Meta.step prims) mid second = .ok (late, last) ∧
      (∃ entries, MetaStateMachine.directory last = .ok entries ∧ entries.length ≤ 8 ∧
        (∀ entry ∈ entries, WellListed entry.nodeId entry) ∧
        (entries.flatMap (·.endpoints)).Nodup) ∧
      (∀ id incarnation, (view mid.state).retired id = some incarnation →
        (view last.state).retired id = some incarnation) ∧
      (∀ id incarnation, (view last.state).retired id = some incarnation →
        (view last.state).node id = none ∧
        ∀ group placed, (view last.state).placement group = some placed →
          id ∉ placed.voters ∧ ∀ plan, placed.move = some plan → id ∉ plan.targetVoters) ∧
      ∀ entry, ∃ result next, Meta.step prims last entry = .ok (result, next) ∧
        ∀ id old, (view last.state).node id = some old → (view next.state).node id = none →
          entry.2 = .retireNode id old.incarnation ∧ old.state = .draining ∧
          ∃ config, (view last.state).cluster = some config ∧
            ∀ group ∈ groups config.p, ∃ placed, (view last.state).placement group = some placed ∧
              placed.referencesNode id = false := by
  obtain ⟨early, mid, hearly, rfl, hmid, hfirst⟩ := exists_run prims identity epoch first
  obtain ⟨late, last, hlate, -, hlast, hsecond⟩ := exists_run_from hmid second
  have hinv := DirectoryInvariant.trace (hfirst.append hsecond)
  refine ⟨early, mid, late, last, hearly, hlate, ?_, fun id incarnation hid ↦ ?_,
    fun id incarnation hid ↦ ⟨hinv.retired_node id incarnation hid, fun group placed hplaced ↦ ?_⟩,
    fun entry ↦ ?_⟩
  · obtain ⟨entries, hentries, hlists⟩ := hlast.directory_returns
    refine ⟨entries, hentries, ?_, fun entry hentry ↦ ?_, nodup_endpoints hinv hlists⟩
    · rw [← hlists.ncard_listed]
      exact hinv.count
    · exact hinv.entries _ entry (hlists.node_of_mem hentry)
  · exact hsecond.stable (P := fun w ↦ w.retired id = some incarnation)
      (fun hstep ↦ retired_eq_of_step hstep) hid
  · exact not_mem_of_referencesNode (hinv.retired_placement id incarnation group placed hid hplaced)
  · obtain ⟨result, next, hstep, -, -, habstract⟩ := exists_step hlast entry
    exact ⟨result, next, hstep, fun id old hold hnone ↦ retires_of_step habstract hold hnone⟩

end DalService.Meta
