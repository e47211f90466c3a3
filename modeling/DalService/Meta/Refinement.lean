import DalService.Meta.Effect

/-!
# The state machine refines its transitions

`evaluate_returns` is the one statement about `evaluate` that later modules use: in a well-formed
state it returns, and either it refuses or ignores the command with no mutation, or its mutations
lead to a well-formed state whose view is an effect of the command. There is one lemma for each
handler, which follows the handler check by check.
-/

set_option autoImplicit false

namespace DalService.Meta

open Foundation Keyspace DalService.Search MetaStateMachine
open Function (update)

/-! ### Outcomes -/

/-- The outcome leaves the state as it is, or its mutations lead to a well-formed state whose view
has the property. -/
def Decides (prims : Primitives) (s : Storage) (P : MetaView → Prop)
    (outcome : MetaApplyResult × List StateMutation) : Prop :=
  (outcome.1 ≠ .applied ∧ outcome.2 = []) ∨
    (outcome.1 = .applied ∧ WellFormed prims (s.state.writeAll outcome.2) ∧
      P (view (s.state.writeAll outcome.2)))

variable {prims : Primitives} {s : Storage} {P : MetaView → Prop}

theorem decides_reject (reason : MetaReject) : Decides prims s P (reject reason) :=
  .inl ⟨by simp [reject], rfl⟩

theorem decides_noOp : Decides prims s P noOp := .inl ⟨by simp [noOp], rfl⟩

theorem decides_applied {muts : List StateMutation}
    (hwell : WellFormed prims (s.state.writeAll muts)) (h : P (view (s.state.writeAll muts))) :
    Decides prims s P (applied muts) :=
  .inr ⟨rfl, hwell, h⟩

theorem Decides.mono {Q : MetaView → Prop} {outcome : MetaApplyResult × List StateMutation}
    (h : Decides prims s P outcome) (hpq : ∀ v, P v → Q v) : Decides prims s Q outcome := by
  rcases h with hrefused | ⟨happlied, hwell, hP⟩
  · exact .inl hrefused
  · exact .inr ⟨happlied, hwell, hpq _ hP⟩

theorem returns_mono {Q : MetaView → Prop} {c : Result (MetaApplyResult × List StateMutation)}
    (hpq : ∀ v, P v → Q v) (h : Returns c (Decides prims s P)) : Returns c (Decides prims s Q) :=
  h.mono fun _ houtcome ↦ houtcome.mono hpq

theorem returns_reject (reason : MetaReject) :
    Returns (pure (reject reason) : Result _) (Decides prims s P) :=
  returns_ok (decides_reject reason)

/-- A check that refuses the command. -/
theorem returns_unless {c : Prop} [Decidable c] {reason : MetaReject}
    {rest : Result (MetaApplyResult × List StateMutation)}
    (h : ¬c → Returns rest (Decides prims s P)) :
    Returns (if c then pure (reject reason) else rest) (Decides prims s P) :=
  returns_ite (fun _ ↦ returns_reject reason) h

theorem returns_noOp : Returns (pure noOp : Result _) (Decides prims s P) :=
  returns_ok decides_noOp

theorem returns_applied {muts : List StateMutation}
    (hwell : WellFormed prims (s.state.writeAll muts)) (h : P (view (s.state.writeAll muts))) :
    Returns (pure (applied muts) : Result _) (Decides prims s P) :=
  returns_ok (decides_applied hwell h)

variable (hs : WellFormed prims s.state) (logId : LogId)

include hs

theorem returns_put_node {id : NodeId} {entry : NodeDirectoryEntry} (hid : entry.nodeId = id)
    (h : P { view s.state with node := update (view s.state).node id (some entry) }) :
    Returns (pure (applied [put (metaNodeKey id) entry]) : Result _) (Decides prims s P) := by
  subst hid
  refine returns_applied (hs.put (.node entry)) ?_
  have hview := view_put_node s.state entry.nodeId entry
  rwa [← hview] at h

theorem returns_put_placement {group : GroupId} {placed : Placement}
    (h : P { view s.state with placement := update (view s.state).placement group (some placed) }) :
    Returns (pure (applied [put (metaPlacementKey group) placed]) : Result _)
      (Decides prims s P) := by
  refine returns_applied (hs.put (.placement group placed)) ?_
  have hview := view_put_placement s.state group placed
  rwa [← hview] at h

theorem returns_put_maintenance {record : MaintenanceRecord}
    (h : P { view s.state with maintenance := some record }) :
    Returns (pure (applied [put metaMaintenanceKey record]) : Result _) (Decides prims s P) := by
  refine returns_applied (hs.put (.maintenance record)) ?_
  have hview := view_put_maintenance s.state record
  rwa [← hview] at h

/-! ### The directory -/

theorem clusterInit_returns (config : ClusterConfig) (metaVoters : List NodeId) :
    Returns (clusterInit s config metaVoters logId)
      (Decides prims s (DirectoryEffect s.identity (view s.state) logId
        (.clusterInit config metaVoters))) := by
  unfold clusterInit
  rw [hs.cluster_eq, ok_bind]
  cases hcluster : (view s.state).cluster with
  | some existing =>
    simp only [hs.placement_eq, ok_bind]
    exact returns_ite (fun _ ↦ returns_noOp) fun _ ↦ returns_reject _
  | none =>
    cases hidentity : s.identity with
    | none => exact returns_reject _
    | some bound =>
      refine returns_unless fun hid ↦ ?_
      refine returns_unless fun hprotocol ↦ ?_
      refine returns_unless fun hreplication ↦ ?_
      refine returns_unless fun hpartitions ↦ ?_
      cases hshape : validateRoutingShape config.p config.r with
      | error error => exact returns_reject _
      | ok _ =>
        refine returns_unless fun hdistinct ↦ ?_
        refine returns_unless fun hsize ↦ ?_
        refine returns_unless fun hmax ↦ ?_
        rw [not_or, not_lt] at hsize
        refine returns_applied ((hs.put (.cluster config)).put (.placement .meta _)) ?_
        have hview := (view_put_placement _ .meta
          { voters := ascending metaVoters, votersLogId := logId, move := none }).trans
            (by rw [view_put_cluster s.state config])
        exact hview ▸ .clusterInit config metaVoters bound hcluster rfl (not_not.mp hid)
          (not_not.mp hprotocol) hreplication hpartitions hshape (not_not.mp hdistinct) hsize.1
          hsize.2 (not_lt.mp hmax)

theorem registerNode_returns (nodeId : NodeId) (controlAddr bulkAddr : String) :
    Returns (registerNode s nodeId controlAddr bulkAddr)
      (Decides prims s (DirectoryEffect s.identity (view s.state) logId
        (.registerNode nodeId controlAddr bulkAddr))) := by
  unfold registerNode
  rw [hs.cluster_eq, ok_bind]
  refine returns_unless fun hcluster ↦ ?_
  refine returns_unless fun hid ↦ ?_
  refine returns_unless fun hempty ↦ ?_
  refine returns_unless fun hsize ↦ ?_
  refine returns_unless fun hlanes ↦ ?_
  rw [hs.retired_eq, ok_bind]
  refine returns_unless fun hretired ↦ ?_
  refine hs.directory_returns.bind fun entries hentries ↦ ?_
  refine returns_unless fun hfree ↦ ?_
  refine returns_unless fun hroom ↦ ?_
  rw [hs.node_eq, ok_bind]
  rw [not_or, Bool.not_eq_true, Bool.not_eq_true] at hempty
  rw [not_or, not_lt, not_lt] at hsize
  have hfree' : ∀ other entry, (view s.state).node other = some entry → other ≠ nodeId →
      usesAddress controlAddr bulkAddr entry = false := by
    intro other entry hentry hne
    obtain ⟨hmem, rfl⟩ := (hentries.node_eq_some_iff other entry).mp hentry
    rw [List.any_eq_true, not_exists] at hfree
    simpa [hmem, hne] using hfree entry
  have hroom' : nodeId ∈ (view s.state).listed ∨
      (view s.state).listed.ncard < MAX_CLUSTER_NODES := by
    rw [hentries.ncard_listed]
    rw [not_and_or, not_le, not_not] at hroom
    refine hroom.symm.imp_left fun hlisted ↦ ?_
    obtain ⟨entry, hentry, hnode⟩ := List.any_eq_true.mp hlisted
    rw [decide_eq_true_eq] at hnode
    exact Option.isSome_iff_exists.mpr
      ⟨entry, (hentries.node_eq_some_iff _ _).mpr ⟨hentry, hnode⟩⟩
  have hregister : ∀ incarnation,
      Registers controlAddr bulkAddr ((view s.state).node nodeId) incarnation →
      Returns (pure (applied [put (metaNodeKey nodeId)
        ({ nodeId := nodeId, controlAddr := controlAddr, bulkAddr := bulkAddr, state := .active,
           incarnation := incarnation } : NodeDirectoryEntry)]) : Result _)
        (Decides prims s (DirectoryEffect s.identity (view s.state) logId
          (.registerNode nodeId controlAddr bulkAddr))) := by
    intro incarnation hregisters
    refine returns_put_node hs rfl ?_
    exact .registerNode nodeId controlAddr bulkAddr incarnation
      (fun hnone ↦ hcluster (by rw [hnone]; rfl)) hid hempty.1 hempty.2 hsize.1 hsize.2 hlanes
      (by simpa using hretired) hfree' hroom' hregisters
  cases hentry : (view s.state).node nodeId with
  | none => exact hregister 1 (hentry ▸ .joined)
  | some entry =>
    obtain rfl := hs.nodeId_eq hentry
    refine returns_ite (fun hsame ↦ ?_) fun hchanged ↦ ?_
    · refine returns_ite (fun _ ↦ returns_noOp) fun hdown ↦ ?_
      obtain ⟨rfl, rfl⟩ := hsame
      cases hnext : checkedSucc entry.incarnation with
      | none => exact returns_reject _
      | some incarnation =>
        exact hregister incarnation (hentry ▸ .rejoined entry incarnation hnext
          fun _ _ ↦ not_not.mp hdown)
    · cases hnext : checkedSucc entry.incarnation with
      | none => exact returns_reject _
      | some incarnation =>
        exact hregister incarnation (hentry ▸ .rejoined entry incarnation hnext
          fun hcontrol hbulk ↦ absurd ⟨hcontrol, hbulk⟩ hchanged)

theorem setNodeState_returns (nodeId : NodeId) (state : NodeState) (incarnation : UInt64) :
    Returns (setNodeState s nodeId state incarnation)
      (Decides prims s (DirectoryEffect s.identity (view s.state) logId
        (.setNodeState nodeId state incarnation))) := by
  unfold setNodeState
  rw [hs.node_eq, ok_bind]
  cases hentry : (view s.state).node nodeId with
  | none => exact returns_reject _
  | some entry =>
    refine returns_unless fun hincarnation ↦ ?_
    refine returns_unless fun hallowed ↦ ?_
    refine returns_ite (fun _ ↦ returns_noOp) fun hchange ↦ ?_
    obtain rfl := not_not.mp hincarnation
    rw [not_or, not_and, not_and, not_not, not_not] at hallowed
    have hid : entry.nodeId = nodeId := hs.nodeId_eq hentry
    refine returns_put_node hs hid (.setNodeState nodeId state entry hentry ?_ ?_ hchange)
    · intro hdown
      exact (hallowed.1 hdown).resolve_left fun hstate ↦ hchange (hdown.trans hstate.symm)
    · intro hdraining
      exact hchange (hdraining.trans (hallowed.2 hdraining).symm)

theorem retirementBlocked_returns (nodeId : NodeId) (group : GroupId) :
    Returns (retirementBlocked s nodeId group) fun reason ↦ reason = none →
      ∃ placed, (view s.state).placement group = some placed ∧
        placed.referencesNode nodeId = false := by
  unfold retirementBlocked
  rw [hs.placement_eq, ok_bind]
  cases (view s.state).placement group with
  | none => exact returns_ok (by simp)
  | some placed =>
    refine returns_ite (fun _ ↦ returns_ok (by simp)) fun hfree ↦ returns_ok fun _ ↦ ?_
    exact ⟨placed, rfl, Bool.not_eq_true _ ▸ hfree⟩

theorem retireNode_returns (nodeId : NodeId) (incarnation : UInt64) :
    Returns (retireNode s nodeId incarnation)
      (Decides prims s (DirectoryEffect s.identity (view s.state) logId
        (.retireNode nodeId incarnation))) := by
  unfold retireNode
  rw [hs.retired_eq, ok_bind]
  cases hretired : (view s.state).retired nodeId with
  | some tombstone =>
    by_cases hsame : tombstone = incarnation
    · simp only [hsame, if_true]
      exact returns_noOp
    · simp only [hsame, if_false]
      exact returns_reject _
  | none =>
    simp only [hs.node_eq, ok_bind]
    cases hentry : (view s.state).node nodeId with
    | none => exact returns_reject _
    | some entry =>
      refine returns_unless fun hincarnation ↦ ?_
      refine returns_unless fun hdraining ↦ ?_
      rw [hs.cluster_eq, ok_bind]
      cases hcluster : (view s.state).cluster with
      | none => exact returns_reject _
      | some config =>
        obtain rfl := not_not.mp hincarnation
        refine (returns_findSomeM? fun group _ ↦ retirementBlocked_returns hs nodeId group).bind
          fun blocked hfree ↦ ?_
        cases blocked with
        | some reason => exact returns_reject _
        | none =>
          refine returns_applied ((hs.put (.retired nodeId entry.incarnation)).delete _) ?_
          have hview := (view_delete_node _ nodeId).trans
            (by rw [view_put_retired s.state nodeId entry.incarnation])
          exact hview ▸ .retireNode nodeId entry config hretired hentry (not_not.mp hdraining)
            hcluster (hfree rfl)

/-! ### The placement map -/

/-- The property a change of one placement must have. -/
abbrev Places (v : MetaView) (logId : LogId) (cmd : MetaCommand) (next : MetaView) : Prop :=
  ∃ group placed, PlacementEffect v logId cmd group placed ∧
    next = { v with placement := update v.placement group (some placed) }

theorem isActive_returns (id : NodeId) :
    Returns (isActive s id) fun found ↦ found = true ↔ id ∈ (view s.state).active := by
  unfold isActive
  rw [hs.node_eq, ok_bind]
  refine returns_ok ?_
  rw [Option.any_eq_true]
  simp [MetaView.active]

theorem allActive_returns (voters : List NodeId) :
    Returns (voters.anyM fun voter ↦ return !(← isActive s voter)) fun found ↦
      found = false → ∀ voter ∈ voters, voter ∈ (view s.state).active := by
  refine returns_anyM fun voter _ ↦ (isActive_returns hs voter).bind fun found hfound ↦
    returns_ok fun hactive ↦ ?_
  exact hfound.mp (by simpa using hactive)

theorem eligibleCount_returns :
    Returns (eligibleCount s) fun count ↦ count = (view s.state).active.ncard :=
  hs.directory_returns.bind fun _ hentries ↦ returns_ok hentries.ncard_active.symm

theorem seedPlacement_returns (group : GroupId) (voters : List NodeId) :
    Returns (seedPlacement s group voters logId)
      (Decides prims s (Places (view s.state) logId (.seedPlacement group voters))) := by
  unfold seedPlacement
  rw [hs.cluster_eq, ok_bind]
  cases hcluster : (view s.state).cluster with
  | none => exact returns_reject _
  | some config =>
    cases group with
    | «meta» => exact returns_reject _
    | data partition =>
      refine returns_unless fun hpartition ↦ ?_
      refine returns_unless fun hdistinct ↦ ?_
      refine returns_unless fun hsize ↦ ?_
      refine (allActive_returns hs voters).bind fun inactive hactive ↦ ?_
      refine returns_unless fun hall ↦ ?_
      rw [hs.placement_eq, ok_bind]
      cases hplaced : (view s.state).placement (.data partition) with
      | some existing => exact returns_ite (fun _ ↦ returns_noOp) fun _ ↦ returns_reject _
      | none =>
        refine returns_put_placement hs ⟨.data partition, _, ?_, rfl⟩
        exact .seed config partition voters hcluster (UInt16.not_le.mp hpartition)
          (not_not.mp hdistinct) (not_not.mp hsize) (hactive (Bool.not_eq_true _ ▸ hall)) hplaced

theorem illegalMove_returns (config : ClusterConfig) (group : GroupId)
    (current target : Finset NodeId) :
    Returns (illegalMove config group current target (eligibleCount s)) fun reason ↦
      reason = none → LegalMove (view s.state) config current target group := by
  unfold illegalMove
  cases group with
  | data partition =>
    refine returns_ite (fun _ ↦ returns_ok (by simp)) fun hsize ↦ ?_
    refine returns_ite (fun _ ↦ returns_ok (by simp)) fun hchange ↦ ?_
    refine (eligibleCount_returns hs).bind fun count hcount ↦ ?_
    refine returns_ite (fun _ ↦ returns_ok (by simp)) fun heligible ↦ returns_ok fun _ ↦ ?_
    rw [not_or, not_not, not_not] at hchange
    exact ⟨not_not.mp hsize, hchange.1, hchange.2, hcount ▸ not_lt.mp heligible⟩
  | «meta» =>
    refine returns_ite (fun _ ↦ returns_ok (by simp)) fun hsize ↦ ?_
    refine returns_ite (fun _ ↦ returns_ok (by simp)) fun hchange ↦ returns_ok fun _ ↦ ?_
    exact ⟨not_lt.mp hsize, not_not.mp hchange⟩

omit hs in
theorem sortUnstable_ascending (voters : List NodeId) :
    sortUnstable (ascending voters) = ascending voters :=
  List.Pairwise.insertionSort_eq ((sorted_ascending voters).imp UInt64.le_of_lt)

theorem createPlan_returns (group : GroupId) (planId : UInt64) (targetVoters : List NodeId) :
    Returns (createPlan s group targetVoters logId)
      (Decides prims s (Places (view s.state) logId (.createPlan group planId targetVoters))) := by
  unfold createPlan
  rw [hs.cluster_eq, ok_bind]
  cases hcluster : (view s.state).cluster with
  | none => exact returns_reject _
  | some config =>
    simp only [hs.placement_eq, ok_bind]
    cases hplaced : (view s.state).placement group with
    | none => exact returns_reject _
    | some placed =>
      refine returns_unless fun hmove ↦ ?_
      refine returns_unless fun hdistinct ↦ ?_
      refine (illegalMove_returns hs config group _ _).bind fun reason hlegal ↦ ?_
      cases reason with
      | some reason => exact returns_reject _
      | none =>
        refine (allActive_returns hs _).bind fun inactive hactive ↦ ?_
        refine returns_unless fun hall ↦ ?_
        rw [sortUnstable_ascending]
        refine returns_put_placement hs ⟨group, _, ?_, rfl⟩
        refine .plan config group planId targetVoters placed hcluster hplaced (by simpa using hmove)
          (not_not.mp hdistinct) (hlegal rfl) fun voter hvoter hnew ↦ ?_
        refine hactive (Bool.not_eq_true _ ▸ hall) voter
          (List.mem_filter.mpr ⟨?_, by simpa using hnew⟩)
        exact mem_ascending.mpr hvoter

theorem markAborting_returns (group : GroupId) (planId : UInt64) :
    Returns (markAborting s group planId)
      (Decides prims s (Places (view s.state) logId (.markAborting group planId))) := by
  unfold markAborting
  rw [hs.placement_eq, ok_bind]
  cases hplaced : (view s.state).placement group with
  | none => exact returns_reject _
  | some placed =>
    dsimp only
    cases hmove : placed.move with
    | none => exact returns_reject _
    | some plan =>
      refine returns_ite (fun hplan ↦ ?_) fun _ ↦ returns_reject _
      refine returns_ite (fun _ ↦ returns_noOp) fun haborting ↦ ?_
      subst hplan
      refine returns_put_placement hs ⟨group, _, ?_, rfl⟩
      exact .markAborting group placed plan hplaced hmove (Bool.not_eq_true _ ▸ haborting)

theorem finalizePlan_returns (group : GroupId) (planId : UInt64)
    (observation : DataConfigObservation) (isAbort : Bool) :
    Returns (finalizePlan s group planId observation isAbort)
      (Decides prims s (Places (view s.state) logId
        (if isAbort then .abortReport group planId observation
          else .finalizePlan group planId observation))) := by
  unfold finalizePlan
  rw [hs.placement_eq, ok_bind]
  cases hplaced : (view s.state).placement group with
  | none => exact returns_reject _
  | some placed =>
    dsimp only
    cases hmove : placed.move with
    | none => exact returns_reject _
    | some plan =>
      refine returns_unless fun hplan ↦ ?_
      refine returns_unless fun hbinding ↦ ?_
      obtain rfl := not_not.mp hplan
      rw [not_or, not_not, not_not] at hbinding
      refine returns_ite (fun habort ↦ ?_) fun hfinalize ↦ ?_
      · refine returns_unless fun haborting ↦ ?_
        rw [Bool.not_eq_true, Bool.not_eq_false'] at haborting
        refine returns_ite (fun hobserved ↦ ?_) fun _ ↦ returns_ite (fun hobserved ↦ ?_) fun _ ↦
          returns_reject _
        · refine returns_put_placement hs ⟨group, _, ?_, rfl⟩
          rw [if_pos habort]
          exact .abort group placed plan observation placed.voters hplaced hmove hbinding.1
            hbinding.2 haborting hobserved (.inl rfl)
        · refine returns_put_placement hs ⟨group, _, ?_, rfl⟩
          rw [if_pos habort]
          exact .abort group placed plan observation plan.targetVoters hplaced hmove hbinding.1
            hbinding.2 haborting hobserved (.inr rfl)
      · refine returns_unless fun haborting ↦ ?_
        refine returns_ite (fun hobserved ↦ ?_) fun _ ↦ returns_reject _
        refine returns_put_placement hs ⟨group, _, ?_, rfl⟩
        rw [if_neg hfinalize]
        exact .finalize group placed plan observation hplaced hmove hbinding.1 hbinding.2
          (Bool.not_eq_true _ ▸ haborting) hobserved

/-! ### The search catalog -/

/-- A changed record that passes its check is stored, with the readiness reports deleted as
asked. -/
theorem storeIndex_decides {name : String} (record : SearchIndexRecord) (keys : List Bytes)
    (hname : record.name = name)
    (h : record.validate prims = .ok () →
      P (view ((s.state.write (put (metaSearchIndexKey name) record)).writeAll
        (keys.map .delete)))) :
    Decides prims s P (storeIndex prims name record (keys.map .delete)) := by
  unfold storeIndex
  cases hvalid : record.validate prims with
  | error error => exact decides_reject _
  | ok _ =>
    subst hname
    exact decides_applied ((hs.put (.searchIndex record hvalid)).deletes keys) (h hvalid)

theorem buildGeneration_decides {cmd : MetaCommand} {name : String}
    {definition : SearchIndexDefinition} {engineRevision : UInt32} {isUpdate : Bool}
    {generation : SearchIndexGeneration} {record : SearchIndexRecord}
    (hcmd : cmd.creation = some (name, definition, engineRevision, isUpdate))
    (hcluster : (view s.state).cluster ≠ none) (hname : validateIndexName name = .ok ())
    (hgeneration :
      SearchIndexGeneration.withRevision prims logId.index engineRevision definition =
        .ok generation)
    (hrecord :
      (isUpdate = false ∧ (view s.state).searchIndex name = none ∧
          (view s.state).indexNames.ncard < SEARCH_MAX_INDEXES ∧ record = freshIndex name) ∨
        (isUpdate = true ∧ (view s.state).searchIndex name = some record)) :
    Decides prims s (SearchEffect prims (view s.state) logId cmd)
      (buildGeneration prims name record generation isUpdate) := by
  unfold buildGeneration
  split_ifs with hbuilding hsame hactive hretiring
  · exact decides_noOp
  · exact decides_reject _
  · exact decides_reject _
  · exact decides_reject _
  · have hnamed : record.name = name := by
      rcases hrecord with ⟨-, -, -, rfl⟩ | ⟨-, hstored⟩
      · rfl
      · exact (hs.searchIndex_valid hstored).1
    refine storeIndex_decides hs _ [] hnamed fun hvalid ↦ ?_
    have hview := view_put_searchIndex s.state name { record with building := some generation }
    refine hview ▸ .build cmd name definition engineRevision isUpdate generation record
      hcmd hcluster hname hgeneration ?_ (by simpa using hbuilding) hvalid
    rcases hrecord with hfresh | ⟨hupdate, hstored⟩
    · exact .inl hfresh
    · refine .inr ⟨hupdate, hstored, ?_, ?_⟩
      · intro hnone
        exact hactive ⟨hupdate, by rw [hnone]; rfl⟩
      · exact not_le.mp fun hlong ↦ hretiring ⟨hupdate, hlong⟩

theorem createSearchIndex_returns {cmd : MetaCommand} {name : String}
    {definition : SearchIndexDefinition} {engineRevision : UInt32} {isUpdate : Bool}
    (hcmd : cmd.creation = some (name, definition, engineRevision, isUpdate)) :
    Returns (createSearchIndex prims s name definition engineRevision logId isUpdate)
      (Decides prims s (SearchEffect prims (view s.state) logId cmd)) := by
  unfold createSearchIndex
  rw [hs.cluster_eq, ok_bind]
  refine returns_unless fun hcluster ↦ ?_
  have hcluster' : (view s.state).cluster ≠ none := fun hnone ↦ hcluster (by rw [hnone]; rfl)
  cases hname : validateIndexName name with
  | error error => exact returns_reject _
  | ok _ =>
    dsimp only
    cases hgeneration :
      SearchIndexGeneration.withRevision prims logId.index engineRevision definition with
    | error error => exact returns_reject _
    | ok generation =>
      dsimp only
      rw [hs.searchIndex_eq, ok_bind]
      refine returns_unless fun hroom ↦ ?_
      cases hexisting : (view s.state).searchIndex name with
      | none =>
        cases isUpdate with
        | true => exact returns_reject _
        | false =>
          refine returns_ok (buildGeneration_decides hs logId hcmd hcluster' hname hgeneration
            (.inl ⟨rfl, hexisting, ?_, rfl⟩))
          obtain ⟨records, hscan, hcatalog⟩ := hs.catalog_returns
          rw [hcatalog.ncard_indexNames]
          simpa [hexisting, hscan] using hroom
      | some record =>
        cases isUpdate with
        | false => exact returns_ite (fun _ ↦ returns_noOp) fun _ ↦ returns_reject _
        | true =>
          exact returns_ok (buildGeneration_decides hs logId hcmd hcluster' hname hgeneration
            (.inr ⟨rfl, hexisting⟩))

theorem reportSearchReady_returns (name : String) (observation : SearchIndexReady) :
    Returns (reportSearchReady prims s name observation)
      (Decides prims s (SearchEffect prims (view s.state) logId
        (.reportSearchIndexReady name observation))) := by
  unfold reportSearchReady
  rw [hs.searchIndex_eq, ok_bind]
  cases hrecord : (view s.state).searchIndex name with
  | none => exact returns_reject _
  | some record =>
    dsimp only
    cases hbuilding : record.building with
    | none => exact returns_reject _
    | some building =>
      refine returns_unless fun hidentity ↦ ?_
      simp only [not_or, not_not] at hidentity
      cases hgroup : observation.group with
      | «meta» => exact returns_reject _
      | data partition =>
        dsimp only
        rw [hs.cluster_eq, ok_bind]
        cases hcluster : (view s.state).cluster with
        | none => exact returns_reject _
        | some config =>
          refine returns_unless fun hbounds ↦ ?_
          rw [not_or, UInt16.not_le] at hbounds
          rw [hs.placement_eq, ok_bind]
          cases hplaced : (view s.state).placement (.data partition) with
          | none => exact returns_reject _
          | some placed =>
            refine returns_unless fun hvoter ↦ ?_
            simp only [not_or, not_not, List.contains_iff_mem] at hvoter
            rw [hs.ready_eq, ok_bind]
            have hstore : (∀ previous,
                (view s.state).ready name observation.generation observation.group
                  observation.nodeId = some previous → previous ≠ observation ∧
                  ¬(observation.projectionEpoch < previous.projectionEpoch ∨
                    (observation.projectionEpoch = previous.projectionEpoch ∧
                      observation.sourceLogId.index < previous.sourceLogId.index))) →
                Returns (pure (applied [put (metaSearchReadyKey name observation.generation
                  observation.group observation.nodeId) observation]) : Result _)
                  (Decides prims s (SearchEffect prims (view s.state) logId
                    (.reportSearchIndexReady name observation))) := by
              intro hnewer
              have hname := hs.indexName_valid hrecord
              refine returns_applied (hs.put (.ready name observation hname)) ?_
              exact view_put_ready s.state name observation ▸ .ready name observation
                record building
                partition config placed hrecord hbuilding hidentity.1 hidentity.2.1 hidentity.2.2
                hgroup hcluster hbounds.1 hbounds.2 (hgroup ▸ hplaced) (by simpa using hvoter.1)
                hvoter.2.1 hvoter.2.2 hnewer
            rw [hgroup] at hstore
            cases hprevious : (view s.state).ready name observation.generation (.data partition)
              observation.nodeId with
            | none => exact hstore fun previous hstored ↦ by simp [hprevious] at hstored
            | some previous =>
              refine returns_ite (fun _ ↦ returns_noOp) fun hdifferent ↦ ?_
              refine returns_unless fun holder ↦ ?_
              refine hstore fun stored hstored ↦ ?_
              obtain rfl := Option.some.inj (hprevious.symm.trans hstored)
              exact ⟨hdifferent, holder⟩

omit hs in
theorem notReady_returns (hs : WellFormed prims s.state) {name : String}
    {building : SearchIndexGeneration} {readiness : List SearchIndexReady}
    (hreadiness : ∀ ready, ready ∈ readiness ↔ ready.generation = building.id ∧
      (view s.state).ready name building.id ready.group ready.nodeId = some ready)
    (partition : ℕ) :
    Returns (notReady s readiness building partition) fun missing ↦ missing = false →
      ∃ placed, (view s.state).placement (.data (UInt16.ofNat partition)) = some placed ∧
        placed.move = none ∧ ∀ nodeId ∈ placed.voters,
          ReadyAt (view s.state) name building (.data (UInt16.ofNat partition)) placed nodeId := by
  unfold notReady
  dsimp only
  rw [hs.placement_eq, ok_bind]
  cases (view s.state).placement (.data (UInt16.ofNat partition)) with
  | none => exact returns_ok (by simp)
  | some placed =>
    refine returns_ite (fun _ ↦ returns_ok (by simp)) fun hmove ↦ returns_ok fun hmissing ↦ ?_
    refine ⟨placed, rfl, by simpa using hmove, fun nodeId hvoter ↦ ?_⟩
    have hreported := List.any_eq_false.mp hmissing nodeId hvoter
    rw [Bool.not_eq_true, Bool.not_eq_false', reportedReady, List.any_eq_true] at hreported
    obtain ⟨ready, hmem, hmatch⟩ := hreported
    simp only [Bool.and_eq_true, decide_eq_true_eq] at hmatch
    obtain ⟨⟨⟨⟨⟨-, hgroup⟩, hnode⟩, hlog⟩, hhash⟩, hrevision⟩ := hmatch
    have hstored := ((hreadiness ready).mp hmem).2
    rw [hgroup, hnode] at hstored
    exact ⟨ready, hstored, hlog, hhash, hrevision⟩

/-- Storing a record and deleting the readiness reports a scan lists clears the reports. -/
theorem view_store_clears {name : String} (hname : validateIndexName name = .ok ())
    (generation : SearchIndexGenerationId) (record : SearchIndexRecord) :
    view ((s.state.write (put (metaSearchIndexKey name) record)).writeAll
        (((scanPrefix s (metaSearchReadyPrefix name generation)).map Prod.fst).map .delete)) =
      { view s.state with
        searchIndex := update (view s.state).searchIndex name (some record) }.clearReady
          name generation := by
  have hview := view_put_searchIndex s.state name record
  have hready : (view (s.state.write (put (metaSearchIndexKey name) record))).ready =
      (view s.state).ready := (congrArg MetaView.ready hview :)
  rw [view_deletes_ready (hs.ready_of_mem_scan hname) fun group nodeId ↦ ?_]
  · exact congrArg (MetaView.clearReady · name generation) hview
  · rw [hready]
    exact mem_scan_of_ready group nodeId

theorem activateSearchGeneration_returns (name : String) (generation : SearchIndexGenerationId) :
    Returns (activateSearchGeneration prims s name generation)
      (Decides prims s (SearchEffect prims (view s.state) logId
        (.activateSearchIndexGeneration name generation))) := by
  unfold activateSearchGeneration
  rw [hs.searchIndex_eq, ok_bind]
  cases hrecord : (view s.state).searchIndex name with
  | none => exact returns_reject _
  | some record =>
    have hnamed := (hs.searchIndex_valid hrecord).1
    have hname := hs.indexName_valid hrecord
    refine returns_ite (fun _ ↦ returns_noOp) fun _ ↦ ?_
    cases hbuilding : record.building with
    | none => exact returns_reject _
    | some building =>
      refine returns_unless fun hid ↦ ?_
      obtain rfl := not_not.mp hid
      rw [hs.cluster_eq, ok_bind]
      cases hcluster : (view s.state).cluster with
      | none => exact returns_reject _
      | some config =>
        obtain ⟨readiness, hscan, hreadiness⟩ := hs.readiness_returns hname building.id
        have hmapM := mapM_decode_eq (fun ready : SearchIndexReady ↦
          metaSearchReadyKey name ready.generation ready.group ready.nodeId) readiness
        dsimp only
        rw [hscan]
        refine Returns.bind ⟨readiness, hmapM, rfl⟩ fun found hfound ↦ ?_
        subst hfound
        refine (returns_anyM fun partition _ ↦
          notReady_returns hs hreadiness partition).bind fun missing hready ↦ ?_
        refine returns_unless fun hall ↦ ?_
        refine returns_unless fun _ ↦ ?_
        rw [← hscan]
        have hdecides := storeIndex_decides (P := SearchEffect prims (view s.state) logId
            (.activateSearchIndexGeneration name building.id)) hs (activated record building)
          ((scanPrefix s (metaSearchReadyPrefix name building.id)).map Prod.fst)
          hnamed fun hnext ↦ by
            rw [view_store_clears hs hname]
            exact .activate name record building config hrecord hbuilding hcluster
              (fun partition hpartition ↦ hready (Bool.not_eq_true _ ▸ hall) partition
                (List.mem_range.mpr hpartition)) hnext
        rw [List.map_map] at hdecides
        exact returns_ok hdecides

theorem dropSearchIndex_returns (name : String) :
    Returns (dropSearchIndex prims s name)
      (Decides prims s (SearchEffect prims (view s.state) logId (.dropSearchIndex name))) := by
  unfold dropSearchIndex
  rw [hs.searchIndex_eq, ok_bind]
  cases hrecord : (view s.state).searchIndex name with
  | none => exact returns_noOp
  | some record =>
    have hnamed := (hs.searchIndex_valid hrecord).1
    have hname := hs.indexName_valid hrecord
    refine returns_ite (fun _ ↦ returns_noOp) fun hsome ↦ ?_
    refine returns_unless fun _ ↦ ?_
    have hsome' : record.active ≠ none ∨ record.building ≠ none := by
      rw [not_and_or] at hsome
      exact hsome.imp (fun h hnone ↦ h (by rw [hnone]; rfl)) fun h hnone ↦ h (by rw [hnone]; rfl)
    have hdecides := storeIndex_decides (P := SearchEffect prims (view s.state) logId
        (.dropSearchIndex name)) hs (dropped record)
      ((record.building.toList.flatMap fun building ↦
        scanPrefix s (metaSearchReadyPrefix name building.id)).map Prod.fst)
      hnamed fun hnext ↦ by
        have heffect : SearchEffect prims (view s.state) logId (.dropSearchIndex name) _ :=
          .drop name record hrecord hsome' hnext
        cases hbuilding : record.building with
        | none =>
          rw [hbuilding] at heffect
          exact view_put_searchIndex s.state name (dropped record) ▸ heffect
        | some building =>
          rw [hbuilding] at heffect
          simp only [Option.toList_some, List.flatMap_cons, List.flatMap_nil, List.append_nil]
          rw [view_store_clears hs hname]
          exact heffect
    rw [List.map_map] at hdecides
    exact returns_ok hdecides

theorem finalizeSearchDrop_returns (name : String) (generation : SearchIndexGenerationId) :
    Returns (finalizeSearchDrop prims s name generation)
      (Decides prims s (SearchEffect prims (view s.state) logId
        (.finalizeSearchIndexDrop name generation))) := by
  unfold finalizeSearchDrop
  rw [hs.searchIndex_eq, ok_bind]
  cases hrecord : (view s.state).searchIndex name with
  | none => exact returns_noOp
  | some record =>
    obtain ⟨hnamed, hvalid⟩ := hs.searchIndex_valid hrecord
    refine returns_ite (fun _ ↦ returns_noOp) fun hshorter ↦ ?_
    have hretiring : generation ∈ record.retiring := by
      by_contra habsent
      refine hshorter (congrArg List.length (List.filter_eq_self.mpr fun id hid ↦ ?_))
      simpa using ne_of_mem_of_not_mem hid habsent
    have heffect : SearchEffect prims (view s.state) logId
        (.finalizeSearchIndexDrop name generation) _ :=
      .finalizeDrop name generation record hrecord hretiring
    refine returns_ite (fun hlast ↦ ?_) fun hlast ↦ ?_
    · refine returns_applied (hs.delete _) ?_
      rw [if_pos (by simpa using hlast)] at heffect
      exact view_delete_searchIndex s.state name ▸ heffect
    · subst hnamed
      refine returns_applied (hs.put (.searchIndex _
        (SearchIndexRecord.validate_of_retiring_sublist hvalid List.filter_sublist))) ?_
      rw [if_neg (by simpa using hlast)] at heffect
      exact view_put_searchIndex s.state record.name _ ▸ heffect

/-! ### Maintenance -/

/-- The property a change of the maintenance record must have. -/
abbrev Maintains (prims : Primitives) (v : MetaView) (cmd : MetaCommand) (next : MetaView) : Prop :=
  ∃ record, MaintenanceEffect prims v cmd record ∧ next = { v with maintenance := some record }

omit hs in
/-- The participants a maintenance operation must have: every active node, ascending. -/
theorem mem_activeList {v : MetaView} {entries : List NodeDirectoryEntry} (h : v.Lists entries)
    (id : NodeId) :
    id ∈ ascending ((entries.filter fun entry ↦ entry.state = .active).map (·.nodeId)) ↔
      id ∈ v.active := by
  rw [mem_ascending, h.mem_active_iff]

theorem maintenanceBusy_returns {active : List NodeId}
    (hactive : ∀ id, id ∈ active ↔ id ∈ (view s.state).active) (group : GroupId) :
    Returns (maintenanceBusy s active group) fun reason ↦ reason = none →
      ∃ placed, (view s.state).placement group = some placed ∧ placed.move = none ∧
        ∀ voter ∈ placed.voters, voter ∈ (view s.state).active := by
  unfold maintenanceBusy
  rw [hs.placement_eq, ok_bind]
  cases (view s.state).placement group with
  | none => exact returns_ok (by simp)
  | some placed =>
    refine returns_ite (fun _ ↦ returns_ok (by simp)) fun hidle ↦ returns_ok fun _ ↦ ?_
    rw [not_or, Bool.not_eq_true, Bool.not_eq_true] at hidle
    refine ⟨placed, rfl, by simpa using hidle.1, fun voter hvoter ↦ (hactive voter).mp ?_⟩
    simpa using List.any_eq_false.mp hidle.2 voter hvoter

theorem searchIdle_returns :
    Returns ((scanPrefix s metaSearchIndexPrefix).anyM fun entry ↦ do
        let record ← decode SearchIndexRecord entry.2
        return record.building.isSome || !record.retiring.isEmpty) fun busy ↦ busy = false →
      ∀ name record, (view s.state).searchIndex name = some record →
        record.building = none ∧ record.retiring = [] := by
  obtain ⟨records, hscan, hcatalog⟩ := hs.catalog_returns
  refine Returns.mono (returns_anyM (Q := fun entry ↦ ∀ record : SearchIndexRecord,
    entry.2 = .searchIndex record → record.building = none ∧ record.retiring = []) ?_) ?_
  · rintro ⟨key, value⟩ hentry
    rw [hscan] at hentry
    obtain ⟨record, -, hrecord⟩ := List.mem_map.mp hentry
    obtain ⟨-, rfl⟩ := Prod.mk.inj hrecord
    refine returns_ok fun hidle other hother ↦ ?_
    cases hother
    simpa using hidle
  · intro busy hidle hnone name record hstored
    have hmem := ((hcatalog.searchIndex_eq_some_iff name record).mp hstored).1
    refine hidle hnone (metaSearchIndexKey record.name, .searchIndex record) ?_ record rfl
    rw [hscan]
    exact List.mem_map_of_mem hmem

theorem beginMaintenance_returns (operationId : BitVec 128) (generation : UInt64)
    (participants : List NodeId) :
    Returns (beginMaintenance s operationId generation participants)
      (Decides prims s (Maintains prims (view s.state)
        (.beginMaintenance operationId generation participants))) := by
  unfold beginMaintenance
  rw [hs.cluster_eq, ok_bind]
  cases hcluster : (view s.state).cluster with
  | none => exact returns_reject _
  | some config =>
    refine returns_unless fun hidentity ↦ ?_
    refine returns_unless fun hsorted ↦ ?_
    refine hs.directory_returns.bind fun entries hentries ↦ ?_
    refine returns_unless fun hactive ↦ ?_
    obtain rfl := not_not.mp hactive
    have hmem := mem_activeList hentries
    refine (returns_findSomeM? fun group _ ↦ maintenanceBusy_returns hs hmem group).bind
      fun reason hgroups ↦ ?_
    cases reason with
    | some reason => exact returns_reject _
    | none =>
      refine (searchIdle_returns hs).bind fun busy hsearch ↦ ?_
      refine returns_unless fun hidle ↦ ?_
      rw [hs.maintenance_eq, ok_bind]
      simp only [not_or] at hidentity
      have hstart : ((view s.state).maintenance = none ∧ generation = 1) ∨
          (∃ previous, (view s.state).maintenance = some previous ∧ previous.stage = .released ∧
            previous.operationId ≠ operationId ∧
              checkedSucc previous.generation = some generation) →
          Returns (pure (applied [put metaMaintenanceKey (begun operationId generation
            (ascending ((entries.filter fun entry ↦ entry.state = .active).map (·.nodeId))))]) :
              Result _)
            (Decides prims s (Maintains prims (view s.state)
              (.beginMaintenance operationId generation
                (ascending ((entries.filter fun entry ↦ entry.state = .active).map
                  (·.nodeId)))))) := by
        intro hprevious
        refine returns_put_maintenance hs ⟨_, ?_, rfl⟩
        exact .start operationId generation _ config hcluster hidentity.1 hidentity.2.1
          (by simpa using hidentity.2.2) (not_not.mp hsorted) hmem (hgroups rfl)
          (hsearch (Bool.not_eq_true _ ▸ hidle)) hprevious
      cases hprevious : (view s.state).maintenance with
      | some previous =>
        dsimp only
        refine returns_ite (fun _ ↦ returns_ite (fun _ ↦ returns_noOp) fun _ ↦ returns_reject _)
          fun hreleased ↦ ?_
        refine returns_unless fun hnext ↦ ?_
        rw [not_or, not_not] at hnext
        exact hstart (.inr ⟨previous, hprevious, not_not.mp hreleased, hnext.1, hnext.2⟩)
      | none =>
        refine returns_unless fun hfirst ↦ ?_
        exact hstart (.inl ⟨hprevious, not_not.mp hfirst⟩)

theorem livenessMismatch_returns (claim : NodeId × NodeId × UInt64) :
    Returns (livenessMismatch s claim) fun mismatch ↦ mismatch = false →
      claim.1 = claim.2.1 ∧ ∃ entry, (view s.state).node claim.1 = some entry ∧
        entry.state = .active ∧ entry.incarnation = claim.2.2 := by
  unfold livenessMismatch
  refine returns_ite (fun _ ↦ returns_ok (by simp)) fun hnode ↦ ?_
  rw [hs.node_eq, ok_bind]
  refine returns_ok fun hmatch ↦ ⟨not_not.mp hnode, ?_⟩
  rw [Bool.not_eq_false', Option.any_eq_true] at hmatch
  obtain ⟨entry, hentry, hlive⟩ := hmatch
  rw [Bool.and_eq_true, decide_eq_true_eq, decide_eq_true_eq] at hlive
  exact ⟨entry, hentry, hlive⟩

/-- A command of a maintenance operation is refused unless it names the stored one. -/
theorem returns_maintenance {operationId : BitVec 128} {generation : UInt64}
    {rest : MaintenanceRecord → Result (MetaApplyResult × List StateMutation)}
    (h : ∀ record, (view s.state).maintenance = some record → record.operationId = operationId →
      record.generation = generation → Returns (rest record) (Decides prims s P)) :
    Returns (do
      let some record ← maintenance s
        | return reject .maintenanceMismatch
      if record.operationId ≠ operationId ∨ record.generation ≠ generation then
        return reject .maintenanceMismatch
      rest record) (Decides prims s P) := by
  rw [hs.maintenance_eq, ok_bind]
  cases hrecord : (view s.state).maintenance with
  | none => exact returns_reject _
  | some record =>
    refine returns_unless fun hidentity ↦ ?_
    rw [not_or, not_not, not_not] at hidentity
    exact h record hrecord hidentity.1 hidentity.2

theorem releaseMaintenance_returns (operationId : BitVec 128) (generation : UInt64)
    (liveProcesses liveIncarnations : List (NodeId × UInt64)) (policyDigest : Digest32) :
    Returns (releaseMaintenance s operationId generation liveProcesses liveIncarnations
      policyDigest)
      (Decides prims s (Maintains prims (view s.state) (.releaseMaintenance operationId generation
        liveProcesses liveIncarnations policyDigest))) := by
  unfold releaseMaintenance
  refine returns_maintenance hs ?_
  rintro record hrecord rfl rfl
  have hrelease : (record.stage = .preparing ∨ record.stage = .verifying ∧
      Verified (view s.state) record liveProcesses liveIncarnations policyDigest) →
      Returns (pure (applied [put metaMaintenanceKey { record with stage := .released }]) :
        Result _)
        (Decides prims s (Maintains prims (view s.state) (.releaseMaintenance record.operationId
          record.generation liveProcesses liveIncarnations policyDigest))) := fun hstage ↦
    returns_put_maintenance hs
      ⟨_, .release record liveProcesses liveIncarnations policyDigest hrecord hstage, rfl⟩
  dsimp only
  cases hstage : record.stage with
  | released => exact returns_noOp
  | preparing => exact hrelease (.inl hstage)
  | quiesced => exact returns_reject _
  | verifying =>
    refine returns_ite (fun hrecovered ↦ ?_) fun _ ↦ returns_reject _
    refine returns_unless fun hpolicy ↦ ?_
    rw [hs.recoveryEpoch_eq, ok_bind]
    refine returns_unless fun hepoch ↦ ?_
    refine returns_unless fun hlive ↦ ?_
    refine returns_unless fun hlength ↦ ?_
    refine (returns_anyM fun claim _ ↦ livenessMismatch_returns hs claim).bind
      fun mismatch hincarnations ↦ ?_
    refine returns_unless fun hall ↦ ?_
    exact hrelease (.inr ⟨hstage, hrecovered.1, hrecovered.2, not_not.mp hpolicy,
      not_not.mp hepoch, not_not.mp hlive, not_not.mp hlength,
      hincarnations (Bool.not_eq_true _ ▸ hall)⟩)

theorem acknowledgeMaintenance_returns (operationId : BitVec 128) (generation : UInt64)
    (nodeId : NodeId) (incarnation : UInt64) :
    Returns (acknowledgeMaintenance s operationId generation nodeId incarnation)
      (Decides prims s (Maintains prims (view s.state)
        (.acknowledgeMaintenance operationId generation nodeId incarnation))) := by
  unfold acknowledgeMaintenance
  refine returns_maintenance hs ?_
  rintro record hrecord rfl rfl
  refine returns_unless fun hstage ↦ ?_
  refine returns_unless fun hparticipant ↦ ?_
  rw [hs.node_eq, ok_bind]
  cases hentry : (view s.state).node nodeId with
  | none => exact returns_reject _
  | some entry =>
    refine returns_unless fun hincarnation ↦ ?_
    refine returns_unless fun hactive ↦ ?_
    obtain rfl := not_not.mp hincarnation
    cases hindex : binarySearch nodeId record.acknowledged with
    | ok position => exact returns_noOp
    | error index =>
      refine returns_put_maintenance hs ⟨_, ?_, rfl⟩
      exact .acknowledge record nodeId entry index hrecord (not_not.mp hstage)
        (not_not.mp hparticipant) hentry (not_not.mp hactive) hindex

theorem quiesceMaintenance_returns (operationId : BitVec 128) (generation : UInt64) :
    Returns (quiesceMaintenance s operationId generation)
      (Decides prims s (Maintains prims (view s.state)
        (.quiesceMaintenance operationId generation))) := by
  unfold quiesceMaintenance
  refine returns_maintenance hs ?_
  rintro record hrecord rfl rfl
  refine returns_ite (fun _ ↦ returns_noOp) fun _ ↦ ?_
  refine returns_unless fun hready ↦ ?_
  rw [not_or, not_not, not_not] at hready
  exact returns_put_maintenance hs ⟨_, .quiesce record hrecord hready.1 hready.2, rfl⟩

theorem enterMaintenanceVerification_returns (operationId : BitVec 128) (generation : UInt64) :
    Returns (enterMaintenanceVerification s operationId generation)
      (Decides prims s (Maintains prims (view s.state)
        (.enterMaintenanceVerification operationId generation))) := by
  unfold enterMaintenanceVerification
  refine returns_maintenance hs ?_
  rintro record hrecord rfl rfl
  refine returns_ite (fun _ ↦ returns_noOp) fun _ ↦ ?_
  refine returns_unless fun hstage ↦ ?_
  exact returns_put_maintenance hs ⟨_, .verify record hrecord (not_not.mp hstage), rfl⟩

theorem hostedGroups_returns (nodeId : NodeId) (candidates : List GroupId) :
    Returns (hostedGroups s nodeId candidates) fun result ↦
      ∀ hosted, result = .ok hosted →
        hosted = (view s.state).hosted nodeId candidates ∧
          ∀ group ∈ candidates, ∃ placed, (view s.state).placement group = some placed ∧
            placed.move = none := by
  induction candidates with
  | nil =>
    refine returns_ok fun hosted hhosted ↦ ?_
    cases hhosted
    exact ⟨rfl, by simp⟩
  | cons group rest ih =>
    unfold hostedGroups
    rw [hs.placement_eq, ok_bind]
    cases hplaced : (view s.state).placement group with
    | none => exact returns_ok (by simp)
    | some placed =>
      refine returns_ite (fun _ ↦ returns_ok (by simp)) fun hmove ↦ ?_
      refine ih.bind fun result hrest ↦ ?_
      cases result with
      | error reason => exact returns_ok (by simp)
      | ok tail =>
        obtain ⟨rfl, hall⟩ := hrest tail rfl
        refine returns_ok fun hosted hhosted ↦ ?_
        cases hhosted
        refine ⟨?_, List.forall_mem_cons.mpr ⟨⟨placed, hplaced, by simpa using hmove⟩, hall⟩⟩
        unfold MetaView.hosted
        rw [List.filterMap_cons, hplaced]
        simp only [Option.bind_some]
        split_ifs <;> rfl

theorem acknowledgeMaintenanceRecovery_returns (operationId : BitVec 128) (generation : UInt64)
    (nodeId : NodeId) (incarnation processIncarnation : UInt64)
    (topologyDigest policyDigest : Digest32) (recoveryEpoch : BitVec 128) :
    Returns (acknowledgeMaintenanceRecovery prims s operationId generation nodeId incarnation
        processIncarnation topologyDigest policyDigest recoveryEpoch)
      (Decides prims s (Maintains prims (view s.state)
        (.acknowledgeMaintenanceRecovery operationId generation nodeId incarnation
          processIncarnation topologyDigest policyDigest recoveryEpoch))) := by
  unfold acknowledgeMaintenanceRecovery
  refine returns_maintenance hs ?_
  rintro record hrecord rfl rfl
  refine returns_unless fun hstage ↦ ?_
  refine returns_unless fun hparticipant ↦ ?_
  rw [hs.node_eq, ok_bind]
  cases hentry : (view s.state).node nodeId with
  | none => exact returns_reject _
  | some entry =>
    refine returns_unless fun hincarnation ↦ ?_
    refine returns_unless fun hactive ↦ ?_
    refine returns_unless fun hprocess ↦ ?_
    refine returns_unless fun hpolicy ↦ ?_
    rw [hs.recoveryEpoch_eq, ok_bind]
    refine returns_unless fun hepoch ↦ ?_
    obtain rfl := not_not.mp hincarnation
    obtain rfl := not_not.mp hepoch
    cases hanswered : answeredProcess record nodeId processIncarnation with
    | some answer =>
      refine returns_ok ?_
      unfold answeredProcess at hanswered
      split at hanswered
      · cases hanswered
      · dsimp only at hanswered
        split_ifs at hanswered <;> cases hanswered
        · exact decides_reject _
        · exact decides_noOp
    | none =>
      dsimp only
      rw [hs.cluster_eq, ok_bind]
      cases hcluster : (view s.state).cluster with
      | none => exact returns_reject _
      | some config =>
        refine (hostedGroups_returns hs nodeId (groups config.p)).bind fun result hhosted ↦ ?_
        cases result with
        | error reason => exact returns_reject _
        | ok hosted =>
          obtain ⟨rfl, hplaced⟩ := hhosted hosted rfl
          refine returns_unless fun htopology ↦ ?_
          refine returns_put_maintenance hs ⟨_, ?_, rfl⟩
          exact .recover record nodeId entry processIncarnation topologyDigest policyDigest config
            hrecord (not_not.mp hstage) (not_not.mp hparticipant) hentry (not_not.mp hactive)
            hprocess hpolicy hanswered hcluster hplaced (not_not.mp htopology)

/-! ### Deciding a command -/

/-- Assumes: a well-formed state without an open maintenance operation, or a command of one. -/
theorem dispatch_returns (cmd : MetaCommand)
    (hopen : cmd.isMaintenance = false → ¬(view s.state).Frozen) :
    Returns (dispatch prims s logId cmd)
      (Decides prims s (Effect prims s.identity (view s.state) logId cmd)) := by
  have hdirectory : cmd.isMaintenance = false → ∀ next,
      DirectoryEffect s.identity (view s.state) logId cmd next →
      Effect prims s.identity (view s.state) logId cmd next := fun hcmd next heffect ↦
    .directory cmd next (hopen hcmd) heffect
  have hplaces : cmd.isMaintenance = false → ∀ next, Places (view s.state) logId cmd next →
      Effect prims s.identity (view s.state) logId cmd next := by
    rintro hcmd next ⟨group, placed, heffect, rfl⟩
    exact .placement cmd group placed (hopen hcmd) heffect
  have hsearch : cmd.isMaintenance = false → ∀ next,
      SearchEffect prims (view s.state) logId cmd next →
      Effect prims s.identity (view s.state) logId cmd next := fun hcmd next heffect ↦
    .search cmd next (hopen hcmd) heffect
  have hmaintains : ∀ next, Maintains prims (view s.state) cmd next →
      Effect prims s.identity (view s.state) logId cmd next := by
    rintro next ⟨record, heffect, rfl⟩
    exact .maintenance cmd record heffect
  cases cmd with
  | clusterInit config metaVoters =>
    exact returns_mono (hdirectory rfl) (clusterInit_returns hs logId config metaVoters)
  | registerNode nodeId controlAddr bulkAddr =>
    exact returns_mono (hdirectory rfl) (registerNode_returns hs logId nodeId controlAddr bulkAddr)
  | setNodeState nodeId state incarnation =>
    exact returns_mono (hdirectory rfl) (setNodeState_returns hs logId nodeId state incarnation)
  | retireNode nodeId incarnation =>
    exact returns_mono (hdirectory rfl) (retireNode_returns hs logId nodeId incarnation)
  | seedPlacement group voters =>
    exact returns_mono (hplaces rfl) (seedPlacement_returns hs logId group voters)
  | createPlan group planId targetVoters =>
    exact returns_mono (hplaces rfl) (createPlan_returns hs logId group planId targetVoters)
  | markAborting group planId =>
    exact returns_mono (hplaces rfl) (markAborting_returns hs logId group planId)
  | finalizePlan group planId observation =>
    exact returns_mono (hplaces rfl) (finalizePlan_returns hs logId group planId observation false)
  | abortReport group planId observation =>
    exact returns_mono (hplaces rfl) (finalizePlan_returns hs logId group planId observation true)
  | createSearchIndex name definition | createSearchIndexGeneration name definition
  | createSearchIndexWithRevision name definition engineRevision
  | createSearchIndexGenerationWithRevision name definition engineRevision =>
    exact returns_mono (hsearch rfl) (createSearchIndex_returns hs logId rfl)
  | reportSearchIndexReady name observation =>
    exact returns_mono (hsearch rfl) (reportSearchReady_returns hs logId name observation)
  | activateSearchIndexGeneration name generation =>
    exact returns_mono (hsearch rfl) (activateSearchGeneration_returns hs logId name generation)
  | dropSearchIndex name =>
    exact returns_mono (hsearch rfl) (dropSearchIndex_returns hs logId name)
  | finalizeSearchIndexDrop name generation =>
    exact returns_mono (hsearch rfl) (finalizeSearchDrop_returns hs logId name generation)
  | beginMaintenance operationId generation participants =>
    exact returns_mono hmaintains (beginMaintenance_returns hs operationId generation participants)
  | releaseMaintenance operationId generation liveProcesses liveIncarnations policyDigest =>
    exact returns_mono hmaintains
      (releaseMaintenance_returns hs operationId generation liveProcesses liveIncarnations
      policyDigest)
  | acknowledgeMaintenance operationId generation nodeId incarnation =>
    exact returns_mono hmaintains
      (acknowledgeMaintenance_returns hs operationId generation nodeId incarnation)
  | quiesceMaintenance operationId generation =>
    exact returns_mono hmaintains (quiesceMaintenance_returns hs operationId generation)
  | enterMaintenanceVerification operationId generation =>
    exact returns_mono hmaintains (enterMaintenanceVerification_returns hs operationId generation)
  | acknowledgeMaintenanceRecovery operationId generation nodeId incarnation processIncarnation
      topologyDigest policyDigest recoveryEpoch =>
    exact returns_mono hmaintains
      (acknowledgeMaintenanceRecovery_returns hs operationId generation nodeId incarnation
      processIncarnation topologyDigest policyDigest recoveryEpoch)

/-- In a well-formed state a command is decided: it is refused or ignored without a mutation, or its
mutations are an effect of it. -/
theorem evaluate_returns (cmd : MetaCommand) :
    Returns (evaluate prims s cmd logId)
      (Decides prims s (Effect prims s.identity (view s.state) logId cmd)) := by
  unfold evaluate
  rw [hs.maintenance_eq, ok_bind]
  refine returns_unless fun hgate ↦ ?_
  refine dispatch_returns hs logId cmd fun hcmd ↦ ?_
  rintro ⟨record, hrecord, hstage⟩
  refine hgate ⟨?_, by rw [hcmd]; rfl⟩
  rw [hrecord]
  simpa using hstage

end DalService.Meta
