import DalService.Balancer.Propose
import DalService.Meta.PlacementShape
import DalService.Meta.Reconcile

/-!
# Every proposal is committable

The balancer, the replicated validation of plans and the gate of data-Raft leaders decide on their
own what a legal move is. They agree on every reachable state of the meta group
(`proposal_committable`): what the balancer proposes from a state, the state machine accepts as a
plan in that state, and a leader that has committed the old voters accepts the plan.
-/

set_option autoImplicit false

namespace DalService.Balancer

open Foundation Meta Meta.MetaStateMachine

/-! ### A legal plan is applied -/

section Plans

variable {prims : Primitives} {s : Storage} (hs : WellFormed prims s.state) {config : ClusterConfig}
  {group : GroupId} {current target : Finset NodeId} {logId : LogId}

include hs

theorem isActive_eq_of_active {id : NodeId} (h : id ∈ (view s.state).active) :
    isActive s id = .ok true := by
  obtain ⟨found, heq, hfound⟩ := isActive_returns hs id
  rw [heq, hfound.mpr h]

theorem illegalMove_eq_none (h : LegalMove (view s.state) config current target group) :
    illegalMove config group current target (eligibleCount s) = .ok none := by
  unfold illegalMove
  cases group with
  | data partition =>
    obtain ⟨hsize, hadded, hremoved, hactive⟩ := h
    obtain ⟨count, hcount, hncard⟩ := eligibleCount_returns hs
    dsimp only
    rw [if_neg (not_not.mpr hsize), if_neg (by simp [hadded, hremoved]), hcount, ok_bind,
      if_neg (by omega)]
    rfl
  | «meta» =>
    obtain ⟨hsize, hchange⟩ := h
    dsimp only
    rw [if_neg (not_lt.mpr hsize), if_neg (not_not.mpr hchange)]
    rfl

/-- Assumes: a group without a move, and a legal target whose new voters are active. A plan for it
is applied, unless maintenance is in progress, and recorded with the placement. -/
theorem exists_step_createPlan {placed : Placement} {targetVoters : List NodeId}
    (hfree : ¬(view s.state).Frozen) (hcluster : (view s.state).cluster = some config)
    (hplaced : (view s.state).placement group = some placed) (hmove : placed.move = none)
    (hdistinct : (voterSet targetVoters).card = targetVoters.length)
    (hlegal : LegalMove (view s.state) config (voterSet placed.voters)
      (voterSet targetVoters) group)
    (hactive : ∀ voter ∈ targetVoters, voter ∉ voterSet placed.voters →
      voter ∈ (view s.state).active) (logId : LogId) (planId : UInt64) :
    ∃ next, step prims s (logId, .createPlan group planId targetVoters) = .ok (.applied, next) ∧
      (view next.state).placement group = some { placed with
        move := some { planId := logId.index, targetVoters := ascending targetVoters,
                       aborting := false } } := by
  have hadded : ((ascending targetVoters).filter fun voter ↦ voter ∉ voterSet placed.voters).anyM
      (fun voter ↦ return !(← isActive s voter)) = .ok false := by
    refine anyM_eq_ok_false fun voter hvoter ↦ ?_
    obtain ⟨hmem, hnew⟩ := List.mem_filter.mp hvoter
    rw [isActive_eq_of_active hs (hactive voter (mem_ascending.mp hmem) (by simpa using hnew))]
    rfl
  have hplan : ∃ muts, createPlan s group targetVoters logId = .ok (.applied, muts) := by
    unfold createPlan
    rw [hs.cluster_eq, hcluster, ok_bind]
    simp only [hs.placement_eq, ok_bind, hplaced]
    rw [if_neg (by simp [hmove]), if_neg (not_not.mpr hdistinct), illegalMove_eq_none hs hlegal,
      ok_bind]
    dsimp only
    rw [hadded, ok_bind]
    exact ⟨_, rfl⟩
  have hopen : ((view s.state).maintenance.any fun record ↦ record.stage ≠ .released) = false := by
    rw [Bool.eq_false_iff]
    intro hany
    obtain ⟨record, hrecord, hstage⟩ := (Option.any_eq_true _ _).mp hany
    exact hfree ⟨record, hrecord, by simpa using hstage⟩
  obtain ⟨muts, hplan⟩ := hplan
  obtain ⟨result, next, hstep, -, -, hanswers⟩ :=
    exists_answer hs (logId, .createPlan group planId targetVoters)
  have hresult : result = .applied := by
    have heval : evaluate prims s (.createPlan group planId targetVoters) logId =
        .ok (.applied, muts) := by
      unfold evaluate
      rw [hs.maintenance_eq, ok_bind]
      dsimp only
      rw [hopen, if_neg fun hgated ↦ Bool.false_ne_true hgated.1]
      exact hplan
    rw [step, MetaStateMachine.apply, heval, ok_bind] at hstep
    exact (congrArg Prod.fst (Except.ok.inj hstep)).symm
  subst hresult
  refine ⟨next, hstep, ?_⟩
  generalize view s.state = v, view next.state = after at hanswers hplaced
  rcases hanswers with ⟨hother, -⟩ | ⟨-, heffect⟩
  · exact absurd rfl hother
  · cases heffect with
    | directory _ _ h => cases h
    | maintenance _ h => cases h
    | search _ _ h =>
      cases h with
      | build _ _ _ _ _ _ _ hcmd => cases hcmd
    | placement _ _ _ h =>
      cases h with
      | plan _ _ _ _ old _ hold =>
        obtain rfl := Option.some.inj (hplaced.symm.trans hold)
        exact Function.update_self _ _ _

end Plans

/-! ### The planner's reading of a state -/

/-- The placements of all partitions from the local state; nothing if one is missing. -/
def localPlacements (s : Storage) (partitionCount : UInt16) : Option PlacementMap :=
  (List.range partitionCount.toNat).foldlM (fun placements partition ↦
    match placement s (.data (UInt16.ofNat partition)) with
    | .ok (some placed) => some (placements.insert (UInt16.ofNat partition) placed)
    | _ => none) ∅

section Reading

variable {prims : Primitives} {s : Storage} (hs : WellFormed prims s.state) {p : UInt16}

include hs

/-- Assumes: every partition has a placement. The planner reads them all, and nothing else. -/
theorem localPlacements_eq_some
    (hall : ∀ partition < p, (view s.state).placement (.data partition) ≠ none) :
    ∃ placements, localPlacements s p = some placements ∧ ∀ partition : UInt16,
      placements[partition]? =
        if partition < p then (view s.state).placement (.data partition) else none := by
  -- the loop over the first `count` partitions
  have hloop : ∀ count ≤ p.toNat, ∃ placements : PlacementMap,
      (List.range count).foldlM (fun placements partition ↦
        match placement s (.data (UInt16.ofNat partition)) with
        | .ok (some placed) => some (placements.insert (UInt16.ofNat partition) placed)
        | _ => none) (∅ : PlacementMap) = some placements ∧
      ∀ partition : UInt16, placements[partition]? =
        if partition.toNat < count then (view s.state).placement (.data partition) else none := by
    intro count
    induction count with
    | zero => exact fun _ ↦ ⟨∅, rfl, by simp⟩
    | succ count ih =>
      intro hcount
      obtain ⟨placements, hfold, hread⟩ := ih (by omega)
      have hsmall : (UInt16.ofNat count).toNat = count :=
        UInt16.toNat_ofNat_of_lt (lt_of_lt_of_le hcount p.toNat_lt.le)
      obtain ⟨placed, hplaced⟩ := Option.ne_none_iff_exists'.mp
        (hall (UInt16.ofNat count) (by rw [UInt16.lt_iff_toNat_lt, hsmall]; omega))
      refine ⟨placements.insert (UInt16.ofNat count) placed, ?_, fun partition ↦ ?_⟩
      · rw [List.range_succ, List.foldlM_append, hfold]
        simp [hs.placement_eq, hplaced]
      · rw [Std.ExtTreeMap.getElem?_insert, hread]
        by_cases hsame : UInt16.ofNat count = partition
        · subst hsame
          simp [hsmall, hplaced]
        · have hne : partition.toNat ≠ count := by
            intro heq
            exact hsame (by rw [← heq, UInt16.ofNat_toNat])
          have hiff : partition.toNat < count + 1 ↔ partition.toNat < count := by omega
          simp [hsame, hiff]
  obtain ⟨placements, hfold, hread⟩ := hloop p.toNat le_rfl
  exact ⟨placements, hfold, fun partition ↦ by rw [hread]; simp [UInt16.lt_iff_toNat_lt]⟩

end Reading

variable (prims : Primitives) in
/-- Entries are applied from the empty state of a replica, and every partition has a placement. Of
what the planner reads from the state reached, a proposal is for a data group without a move; its
target is an ascending list of `R` voters that drops one current voter and adds one active node;
unless maintenance is in progress the plan that carries it is applied in that state, and the gate
accepts the placement it leaves if the committed voters are the old ones. -/
theorem proposal_committable (identity : Option Identity) (epoch : Option (BitVec 128))
    (entries : List Entry) :
    ∃ results s, run (step prims) (emptyStorage identity epoch) entries = .ok (results, s) ∧
      ∀ config, (view s.state).cluster = some config →
        (∀ partition < config.p, (view s.state).placement (.data partition) ≠ none) →
        ∃ directory placements, MetaStateMachine.directory s = .ok directory ∧
          localPlacements s config.p = some placements ∧
          ∀ proposal, propose directory placements config.r.toNat = some proposal →
            ∃ partition placed drop add, proposal.group = .data partition ∧
              (view s.state).placement proposal.group = some placed ∧ placed.move = none ∧
              proposal.targetVoters.Pairwise (· < ·) ∧
              proposal.targetVoters.length = config.r.toNat ∧
              drop ∈ voterSet placed.voters ∧ add ∉ voterSet placed.voters ∧
              add ∈ (view s.state).active ∧
              voterSet proposal.targetVoters = insert add ((voterSet placed.voters).erase drop) ∧
              (¬(view s.state).Frozen → ∀ logId planId, ∃ next moved,
                step prims s (logId, .createPlan proposal.group planId proposal.targetVoters) =
                  .ok (.applied, next) ∧
                (view next.state).placement proposal.group = some moved ∧
                moved.voters = placed.voters ∧
                gate moved (voterSet placed.voters) = .accept) := by
  obtain ⟨results, s, hrun, -, hs, htrace⟩ := exists_run prims identity epoch entries
  have hinv := PlacementInvariant.trace htrace
  refine ⟨results, s, hrun, fun config hcluster hall ↦ ?_⟩
  obtain ⟨directory, hdirectory, hlists⟩ := hs.directory_returns
  obtain ⟨placements, hplacements, hread⟩ := localPlacements_eq_some hs hall
  refine ⟨directory, placements, hdirectory, hplacements, fun proposal hproposal ↦ ?_⟩
  have hactive : ∀ {node}, node ∈ eligibleNodes directory ↔ node ∈ (view s.state).active := by
    intro node
    rw [eligibleNodes, mem_ascending, hlists.mem_active_iff]
  have hshape : ∀ {partition : UInt16} {placed : Placement}, placements[partition]? = some placed →
      (view s.state).placement (.data partition) = some placed ∧
        DataVoters (view s.state) config placed.voters := by
    intro partition placed hplaced
    rw [hread] at hplaced
    split_ifs at hplaced
    obtain ⟨config', hcluster', hshaped⟩ := hinv.shaped _ _ hplaced
    obtain rfl := Option.some.inj (hcluster.symm.trans hcluster')
    exact ⟨hplaced, hshaped.2.1⟩
  obtain ⟨heligible, hproposes⟩ := proposes_of_propose hproposal
  have hcount : config.r.toNat ≤ (view s.state).active.ncard := by
    rwa [ncard_eq_length (nodup_ascending _) fun _ ↦ hactive]
  -- both kinds of proposals replace a voter by an eligible node outside
  obtain ⟨partition, placed, drop, add, rfl, hplaced, hmove, hdrop, hadd, hnew⟩ :
      ∃ partition placed drop add,
        proposal = replacement (.data partition) placed.voters drop add ∧
        placements[partition]? = some placed ∧ placed.move = none ∧ drop ∈ placed.voters ∧
        add ∈ eligibleNodes directory ∧ add ∉ placed.voters := by
    cases hproposes with
    | evacuation partition placed drop dest hplaced hmove hdrop _ hdest hnew =>
      exact ⟨partition, placed, drop, dest, rfl, hplaced, hmove, hdrop, hdest, hnew⟩
    | rebalance partition placed source dest hplaced hmove _ hsource _ hdest hnew =>
      exact ⟨partition, placed, source, dest, rfl, hplaced, hmove, hsource, hdest, hnew⟩
  obtain ⟨hview, hvoters⟩ := hshape hplaced
  have hnodup : placed.voters.Nodup := hvoters.sorted.imp UInt64.ne_of_lt
  have hsorted := sorted_replacement (.data partition) drop hnodup hnew
  have hlength := (length_replacement (.data partition) add hnodup hdrop).trans hvoters.length_eq
  have hchange := card_sdiff_replacement (.data partition) hdrop hnew
  have hadded : ∀ voter ∈ (replacement (.data partition) placed.voters drop add).targetVoters,
      voter ∉ voterSet placed.voters → voter ∈ (view s.state).active := by
    intro voter hvoter hother
    have hmem := List.mem_toFinset.mpr hvoter
    rw [← voterSet, voterSet_replacement, Finset.mem_insert] at hmem
    rcases hmem with rfl | hmem
    · exact hactive.mp hadd
    · exact absurd (Finset.mem_of_mem_erase hmem) hother
  refine ⟨partition, placed, drop, add, rfl, hview, hmove, hsorted, hlength,
    List.mem_toFinset.mpr hdrop, fun h ↦ hnew (List.mem_toFinset.mp h), hactive.mp hadd,
    voterSet_replacement, fun hfree logId planId ↦ ?_⟩
  have hcard := (length_eq_card hsorted).symm
  obtain ⟨next, hstep, hmoved⟩ := exists_step_createPlan hs hfree hcluster hview hmove hcard
    ⟨hcard.trans hlength, hchange.1, hchange.2, hcount⟩ hadded logId planId
  refine ⟨next, _, hstep, hmoved, rfl, gate_eq_accept_iff.mpr ⟨_, rfl, rfl, rfl, ?_⟩⟩
  rw [voterSet_ascending]
  exact hchange

end DalService.Balancer
