import DalService.Foundation.Balance
import DalService.Types

/-!
# The placement balancer

The balancer is a function of the node directory and the placement map: it proposes at most one
replacement of one voter. A partition with a voter that has to leave sheds it to the eligible node
of least load that has no replica of it; once no voter has to leave, a slot goes from the most
loaded eligible voter of some partition to the least loaded eligible node outside of it, where the
loads are at least two apart.

A proposal is of one of these two kinds (`Proposes`, `proposes_of_propose`), and there is none
exactly if no partition offers a move of either kind (`propose_eq_none_iff`).
-/

set_option autoImplicit false

namespace DalService.Balancer

open Foundation

/-- The placements of the data partitions, iterated in ascending order. -/
abbrev PlacementMap := Std.ExtTreeMap UInt16 Placement

/-- A proposed replacement of one voter of a group. -/
structure PlanProposal where
  group : GroupId
  targetVoters : List NodeId
  deriving DecidableEq, Repr

/-- The nodes that may receive replicas, ascending. -/
def eligibleNodes (directory : List NodeDirectoryEntry) : List NodeId :=
  ascending ((directory.filter fun entry ↦ entry.state = .active).map (·.nodeId))

/-- The node has to be evacuated: it is down or draining, or the directory does not list it. A
suspect node is left where it is. -/
def isEvacuating (directory : List NodeDirectoryEntry) (voter : NodeId) : Bool :=
  match directory.find? fun entry ↦ entry.nodeId = voter with
  | some entry => entry.state = .down ∨ entry.state = .draining
  | none => true

def evacuatingVoters (directory : List NodeDirectoryEntry) (voters : List NodeId) : List NodeId :=
  ascending (voters.filter (isEvacuating directory))

/-- The voters whose capacity a placement takes up: a move that is not aborting has reserved its
target's. -/
def anticipatedVoters (placement : Placement) : List NodeId :=
  ((placement.move.filter fun plan ↦ !plan.aborting).map (·.targetVoters)).getD placement.voters

/-- Anticipated replica load per node. -/
def loadMap (placements : PlacementMap) : Std.ExtTreeMap NodeId ℕ :=
  placements.toList.foldl (fun load entry ↦
    (anticipatedVoters entry.2).foldl (fun load voter ↦ load.insert voter (load[voter]?.getD 0 + 1))
      load) ∅

/-- The load of a node; one that the map does not have carries none. -/
def loadOf (load : Std.ExtTreeMap NodeId ℕ) (node : NodeId) : ℕ := load[node]?.getD 0

/-- The eligible node outside the voters that carries the least load; ties go to the lowest id. -/
def leastLoadedNonReplica (eligible : List NodeId) (voters : Finset NodeId) (loadOf : NodeId → ℕ) :
    Option NodeId :=
  minBy (fun a b ↦ (compare (loadOf a) (loadOf b)).then (compare a b))
    (eligible.filter fun node ↦ node ∉ voters)

/-- The eligible voter that carries the most load; ties go to the lowest id. -/
def mostLoadedVoter (eligible voters : List NodeId) (loadOf : NodeId → ℕ) : Option NodeId :=
  maxBy (fun a b ↦ (compare (loadOf a) (loadOf b)).then (compare b a))
    (voters.filter fun voter ↦ voter ∈ eligible)

/-- Prefer the move with the more loaded source, then the lower partition, source and
destination. -/
def betterRebalance (cur cand : NodeId × NodeId × UInt16) (loadOf : NodeId → ℕ) :
    NodeId × NodeId × UInt16 :=
  let order := (compare (loadOf cur.1) (loadOf cand.1)).then <|
    (compare cand.2.2 cur.2.2).then <| (compare cand.1 cur.1).then (compare cand.2.1 cur.2.1)
  if order = .lt then cand else cur

/-- A voter list with one voter out and another in, ascending. -/
def replacement (group : GroupId) (voters : List NodeId) (drop add : NodeId) : PlanProposal where
  group := group
  targetVoters := sortUnstable (voters.filter (fun voter ↦ voter ≠ drop) ++ [add])

section Passes

variable (directory : List NodeDirectoryEntry) (eligible : List NodeId) (loadOf : NodeId → ℕ)

/-- First pass, one partition: evacuate its lowest voter that has to leave. -/
def drain (entry : UInt16 × Placement) : Option PlanProposal :=
  if entry.2.move.isSome then none
  else
    match (evacuatingVoters directory entry.2.voters).min?,
      leastLoadedNonReplica eligible (voterSet entry.2.voters) loadOf with
    | some drop, some dest => some (replacement (.data entry.1) entry.2.voters drop dest)
    | _, _ => none

/-- Second pass, one partition: the move that evens out its load the most, if it reduces the
spread. -/
def candidate (entry : UInt16 × Placement) : Option (NodeId × NodeId × UInt16) :=
  if entry.2.move.isSome then none
  else
    match mostLoadedVoter eligible entry.2.voters loadOf,
      leastLoadedNonReplica eligible (voterSet entry.2.voters) loadOf with
    | some source, some dest =>
      if loadOf source < loadOf dest + 2 then none else some (source, dest, entry.1)
    | _, _ => none

/-- Second pass: the best candidate so far. -/
def considerCandidate (best : Option (NodeId × NodeId × UInt16)) (entry : UInt16 × Placement) :
    Option (NodeId × NodeId × UInt16) :=
  match candidate eligible loadOf entry, best with
  | none, _ => best
  | some cand, none => some cand
  | some cand, some cur => some (betterRebalance cur cand loadOf)

end Passes

/-- The next single-voter move, or none if the cluster is balanced and placed on eligible nodes. -/
def propose (directory : List NodeDirectoryEntry) (placements : PlacementMap) (r : ℕ) :
    Option PlanProposal :=
  let eligible := eligibleNodes directory
  if eligible.length < r then none
  else if placements.toList.any fun entry ↦ entry.2.move.any (·.aborting) then none
  else
    let load := loadMap placements
    match placements.toList.findSome? (drain directory eligible (loadOf load)) with
    | some proposal => some proposal
    | none =>
      (placements.toList.foldl (considerCandidate eligible (loadOf load)) none).bind fun best ↦
        -- the partition comes from the map, so the index never fails (`propose_eq_none_iff`)
        placements[best.2.2]?.map fun placement ↦
          replacement (.data best.2.2) placement.voters best.1 best.2.1

/-! ### What the passes choose -/

section Choices

variable {directory : List NodeDirectoryEntry} {eligible voters : List NodeId} {load : NodeId → ℕ}
  {node : NodeId}

theorem mem_eligibleNodes : node ∈ eligibleNodes directory ↔
    ∃ entry ∈ directory, entry.state = .active ∧ entry.nodeId = node := by
  simp [eligibleNodes, mem_ascending, and_assoc]

theorem mem_evacuatingVoters : node ∈ evacuatingVoters directory voters ↔
    node ∈ voters ∧ isEvacuating directory node = true := by
  rw [evacuatingVoters, mem_ascending, List.mem_filter]

theorem le_of_then_eq_gt {a b : ℕ} {tie : Ordering} (h : (compare a b).then tie = .gt) : b ≤ a := by
  by_contra hlt
  rw [Nat.compare_eq_lt.mpr (not_le.mp hlt)] at h
  cases h

theorem le_of_then_ne_gt {a b : ℕ} {tie : Ordering} (h : (compare a b).then tie ≠ .gt) : a ≤ b := by
  by_contra hlt
  rw [Nat.compare_eq_gt.mpr (not_le.mp hlt)] at h
  exact h rfl

theorem leastLoadedNonReplica_eq_none_iff :
    leastLoadedNonReplica eligible (voterSet voters) load = none ↔
      ∀ other ∈ eligible, other ∈ voters := by
  simp [leastLoadedNonReplica, voterSet]

theorem leastLoadedNonReplica_eq_some
    (h : leastLoadedNonReplica eligible (voterSet voters) load = some node) :
    node ∈ eligible ∧ node ∉ voters ∧
      ∀ other ∈ eligible, other ∉ voters → load node ≤ load other := by
  have hmem := mem_of_minBy h
  have hleast := key_minBy_le load (fun _ _ ↦ le_of_then_eq_gt) (fun _ _ ↦ le_of_then_ne_gt) h
  simp only [List.mem_filter, voterSet, List.mem_toFinset, decide_eq_true_eq] at hmem hleast
  exact ⟨hmem.1, hmem.2, fun other hother hnew ↦ hleast other ⟨hother, hnew⟩⟩

theorem mostLoadedVoter_eq_none_iff :
    mostLoadedVoter eligible voters load = none ↔ ∀ other ∈ voters, other ∉ eligible := by
  simp [mostLoadedVoter]

theorem mostLoadedVoter_eq_some (h : mostLoadedVoter eligible voters load = some node) :
    node ∈ voters ∧ node ∈ eligible ∧ ∀ other ∈ voters, other ∈ eligible →
      load other ≤ load node := by
  have hmem := mem_of_maxBy h
  have hmost := le_key_maxBy load (fun _ _ ↦ le_of_then_eq_gt) (fun _ _ ↦ le_of_then_ne_gt) h
  simp only [List.mem_filter, decide_eq_true_eq] at hmem hmost
  exact ⟨hmem.1, hmem.2, fun other hother heligible ↦ hmost other ⟨hother, heligible⟩⟩

variable {entry : UInt16 × Placement} {proposal : PlanProposal}

theorem drain_eq_some (h : drain directory eligible load entry = some proposal) :
    ∃ drop dest, proposal = replacement (.data entry.1) entry.2.voters drop dest ∧
      entry.2.move = none ∧ drop ∈ entry.2.voters ∧ isEvacuating directory drop = true ∧
      dest ∈ eligible ∧ dest ∉ entry.2.voters := by
  unfold drain at h
  split_ifs at h with hmove
  split at h
  · rename_i drop dest hdrop hdest
    obtain ⟨hvoter, hgoes⟩ := mem_evacuatingVoters.mp (List.min?_mem hdrop)
    obtain ⟨heligible, hnew, -⟩ := leastLoadedNonReplica_eq_some hdest
    exact ⟨drop, dest, (Option.some.inj h).symm, by simpa using hmove, hvoter, hgoes,
      heligible, hnew⟩
  · cases h

/-- A partition with a voter that has to leave and a node to take its place is drained. -/
theorem drain_ne_none (hmove : entry.2.move = none) {voter : NodeId}
    (hvoter : voter ∈ entry.2.voters) (hgoes : isEvacuating directory voter = true)
    (hnode : node ∈ eligible) (hnew : node ∉ entry.2.voters) :
    drain directory eligible load entry ≠ none := by
  unfold drain
  rw [if_neg (by simp [hmove])]
  cases hdrop : (evacuatingVoters directory entry.2.voters).min? with
  | none =>
    rw [List.min?_eq_none_iff] at hdrop
    have hmem := mem_evacuatingVoters.mpr ⟨hvoter, hgoes⟩
    rw [hdrop] at hmem
    cases hmem
  | some drop =>
    cases hdest : leastLoadedNonReplica eligible (voterSet entry.2.voters) load with
    | none => exact absurd (leastLoadedNonReplica_eq_none_iff.mp hdest node hnode) hnew
    | some dest => simp

theorem candidate_eq_some {cand : NodeId × NodeId × UInt16}
    (h : candidate eligible load entry = some cand) :
    cand.2.2 = entry.1 ∧ entry.2.move = none ∧ cand.1 ∈ entry.2.voters ∧ cand.1 ∈ eligible ∧
      cand.2.1 ∈ eligible ∧ cand.2.1 ∉ entry.2.voters ∧ load cand.2.1 + 2 ≤ load cand.1 := by
  unfold candidate at h
  split_ifs at h with hmove
  split at h
  · rename_i source dest hsource hdest
    split_ifs at h with hgap
    obtain ⟨hvoter, hfrom, -⟩ := mostLoadedVoter_eq_some hsource
    obtain ⟨hto, hnew, -⟩ := leastLoadedNonReplica_eq_some hdest
    cases h
    exact ⟨rfl, by simpa using hmove, hvoter, hfrom, hto, hnew, not_lt.mp hgap⟩
  · cases h

/-- A partition offers a move if one of its eligible voters carries two more than an eligible node
outside: the most loaded voter carries no less, and the least loaded node no more. -/
theorem candidate_ne_none (hmove : entry.2.move = none) {voter : NodeId}
    (hvoter : voter ∈ entry.2.voters) (hfrom : voter ∈ eligible) (hto : node ∈ eligible)
    (hnew : node ∉ entry.2.voters) (hgap : load node + 2 ≤ load voter) :
    candidate eligible load entry ≠ none := by
  unfold candidate
  rw [if_neg (by simp [hmove])]
  cases hsource : mostLoadedVoter eligible entry.2.voters load with
  | none => exact absurd hfrom (mostLoadedVoter_eq_none_iff.mp hsource voter hvoter)
  | some source =>
    cases hdest : leastLoadedNonReplica eligible (voterSet entry.2.voters) load with
    | none => exact absurd (leastLoadedNonReplica_eq_none_iff.mp hdest node hto) hnew
    | some dest =>
      have hmost := (mostLoadedVoter_eq_some hsource).2.2 voter hvoter hfrom
      have hleast := (leastLoadedNonReplica_eq_some hdest).2.2 node hto hnew
      have hwide : ¬load source < load dest + 2 := by omega
      simp [hwide]

/-- The second pass ends with a candidate of a partition it went through, and with none only if no
partition has any. -/
theorem foldl_considerCandidate (entries : List (UInt16 × Placement))
    (best : Option (NodeId × NodeId × UInt16)) :
    (∀ cand, entries.foldl (considerCandidate eligible load) best = some cand →
      best = some cand ∨ ∃ entry ∈ entries, candidate eligible load entry = some cand) ∧
    (entries.foldl (considerCandidate eligible load) best = none →
      best = none ∧ ∀ entry ∈ entries, candidate eligible load entry = none) := by
  induction entries generalizing best with
  | nil => exact ⟨fun cand h ↦ .inl h, fun h ↦ ⟨h, by simp⟩⟩
  | cons first rest ih =>
    obtain ⟨hsome, hnone⟩ := ih (considerCandidate eligible load best first)
    rw [List.foldl_cons]
    refine ⟨fun cand h ↦ ?_, fun h ↦ ?_⟩
    · rcases hsome cand h with hfirst | ⟨entry, hentry, hcand⟩
      · unfold considerCandidate at hfirst
        split at hfirst
        · exact .inl hfirst
        · rename_i found hfound
          exact .inr ⟨first, List.mem_cons_self, hfound.trans hfirst⟩
        · rename_i found cur hfound
          rw [betterRebalance] at hfirst
          split_ifs at hfirst with hbetter
          · exact .inr ⟨first, List.mem_cons_self, hfound.trans hfirst⟩
          · exact .inl hfirst
      · exact .inr ⟨entry, List.mem_cons_of_mem _ hentry, hcand⟩
    · obtain ⟨hfirst, hrest⟩ := hnone h
      unfold considerCandidate at hfirst
      split at hfirst
      · rename_i hfound
        exact ⟨hfirst, List.forall_mem_cons.mpr ⟨hfound, hrest⟩⟩
      · cases hfirst
      · cases hfirst

end Choices

/-! ### Replacements -/

section Replacement

variable {group : GroupId} {voters : List NodeId} {drop add : NodeId}

theorem voterSet_replacement : voterSet (replacement group voters drop add).targetVoters =
    insert add ((voterSet voters).erase drop) := by
  rw [replacement, voterSet_sortUnstable]
  ext id
  simp [voterSet, and_comm]

variable (group drop) in
theorem sorted_replacement (hnodup : voters.Nodup) (hadd : add ∉ voters) :
    (replacement group voters drop add).targetVoters.Pairwise (· < ·) := by
  have hdistinct : (voters.filter (fun voter ↦ voter ≠ drop) ++ [add]).Nodup := by
    refine (hnodup.filter _).append (List.nodup_singleton add) fun id hid hsame ↦ hadd ?_
    rw [← List.mem_singleton.mp hsame]
    exact List.mem_of_mem_filter hid
  have hsorted : (replacement group voters drop add).targetVoters.Pairwise (· ≤ ·) :=
    List.pairwise_insertionSort _ _
  refine (hsorted.and ((List.perm_insertionSort _ _).nodup_iff.mpr hdistinct)).imp ?_
  exact fun ⟨hbelow, hne⟩ ↦ UInt64.lt_of_le_of_ne hbelow hne

variable (group add) in
theorem length_replacement (hnodup : voters.Nodup) (hdrop : drop ∈ voters) :
    (replacement group voters drop add).targetVoters.length = voters.length := by
  have hfilter : voters.filter (fun voter ↦ voter ≠ drop) = voters.erase drop := by
    rw [hnodup.erase_eq_filter]
    exact List.filter_congr fun voter _ ↦ by simp [bne, beq_eq_decide]
  rw [replacement, sortUnstable, List.length_insertionSort, List.length_append, hfilter,
    List.length_singleton, List.length_erase_add_one hdrop]

variable (group) in
/-- One voter is added and one is removed. -/
theorem card_sdiff_replacement (hdrop : drop ∈ voters) (hadd : add ∉ voters) :
    (voterSet (replacement group voters drop add).targetVoters \ voterSet voters).card = 1 ∧
      (voterSet voters \ voterSet (replacement group voters drop add).targetVoters).card = 1 := by
  have hne : drop ≠ add := fun hsame ↦ hadd (hsame ▸ hdrop)
  have hadded : voterSet (replacement group voters drop add).targetVoters \ voterSet voters =
      {add} := by
    ext id
    rw [voterSet_replacement]
    simp only [voterSet, Finset.mem_sdiff, Finset.mem_insert, Finset.mem_erase, List.mem_toFinset,
      Finset.mem_singleton]
    constructor
    · rintro ⟨rfl | ⟨-, hid⟩, hnew⟩
      · rfl
      · exact absurd hid hnew
    · rintro rfl
      exact ⟨.inl rfl, hadd⟩
  have hremoved : voterSet voters \ voterSet (replacement group voters drop add).targetVoters =
      {drop} := by
    ext id
    rw [voterSet_replacement]
    simp only [voterSet, Finset.mem_sdiff, Finset.mem_insert, Finset.mem_erase, List.mem_toFinset,
      Finset.mem_singleton, not_or, not_and]
    constructor
    · rintro ⟨hid, -, hkept⟩
      by_contra hother
      exact hkept hother hid
    · rintro rfl
      exact ⟨hdrop, hne, fun hself ↦ absurd rfl hself⟩
  rw [hadded, hremoved]
  exact ⟨Finset.card_singleton add, Finset.card_singleton drop⟩

end Replacement

/-! ### Proposals -/

/-- The kinds of proposals: a voter that has to leave is evacuated, or, where no partition can
evacuate one, a slot goes from an eligible voter to an eligible node with two less. -/
inductive Proposes (directory : List NodeDirectoryEntry) (placements : PlacementMap) :
    PlanProposal → Prop
  | evacuation (partition : UInt16) (placed : Placement) (drop dest : NodeId)
    (hplaced : placements[partition]? = some placed) (hmove : placed.move = none)
    (hdrop : drop ∈ placed.voters) (hgoes : isEvacuating directory drop = true)
    (hdest : dest ∈ eligibleNodes directory) (hnew : dest ∉ placed.voters) :
    Proposes directory placements (replacement (.data partition) placed.voters drop dest)
  | rebalance (partition : UInt16) (placed : Placement) (source dest : NodeId)
    (hplaced : placements[partition]? = some placed) (hmove : placed.move = none)
    (hdrained : ∀ entry ∈ placements.toList,
      drain directory (eligibleNodes directory) (loadOf (loadMap placements)) entry = none)
    (hsource : source ∈ placed.voters) (hfrom : source ∈ eligibleNodes directory)
    (hdest : dest ∈ eligibleNodes directory) (hnew : dest ∉ placed.voters)
    (hgap : loadOf (loadMap placements) dest + 2 ≤ loadOf (loadMap placements) source) :
    Proposes directory placements (replacement (.data partition) placed.voters source dest)

section Propose

variable {directory : List NodeDirectoryEntry} {placements : PlacementMap} {r : ℕ}
  {proposal : PlanProposal}

theorem proposes_of_propose (h : propose directory placements r = some proposal) :
    r ≤ (eligibleNodes directory).length ∧ Proposes directory placements proposal := by
  unfold propose at h
  dsimp only at h
  split_ifs at h with hfew haborting
  refine ⟨not_lt.mp hfew, ?_⟩
  split at h
  · rename_i found hfound
    obtain ⟨⟨partition, placed⟩, hentry, hdrain⟩ := List.exists_of_findSome?_eq_some hfound
    cases h
    obtain ⟨drop, dest, rfl, hmove, hdrop, hgoes, hdest, hnew⟩ := drain_eq_some hdrain
    exact .evacuation partition placed drop dest
      (Std.ExtTreeMap.mem_toList_iff_getElem?_eq_some.mp hentry) hmove hdrop hgoes hdest hnew
  · rename_i hdrained
    obtain ⟨⟨source, dest, partition⟩, hbest, hindex⟩ := Option.bind_eq_some_iff.mp h
    obtain ⟨placed, hplaced, rfl⟩ := Option.map_eq_some_iff.mp hindex
    rcases (foldl_considerCandidate _ none).1 _ hbest with hnone | ⟨entry, hentry, hcand⟩
    · cases hnone
    · obtain ⟨hpartition, hmove, hsource, hfrom, hdest, hnew, hgap⟩ := candidate_eq_some hcand
      obtain rfl : placed = entry.2 := by
        have hfound := Std.ExtTreeMap.mem_toList_iff_getElem?_eq_some.mp hentry
        rw [← hpartition] at hfound
        exact Option.some.inj (hplaced.symm.trans hfound)
      exact .rebalance partition _ source dest hplaced hmove
        (List.findSome?_eq_none_iff.mp hdrained) hsource hfrom hdest hnew hgap

/-- Assumes: no move is aborting, and there are enough eligible nodes. The balancer proposes nothing
exactly if no partition can evacuate a voter and none offers a move that evens out the load. -/
theorem propose_eq_none_iff (heligible : r ≤ (eligibleNodes directory).length)
    (hstable : ∀ entry ∈ placements.toList, entry.2.move = none) :
    propose directory placements r = none ↔ ∀ entry ∈ placements.toList,
      drain directory (eligibleNodes directory) (loadOf (loadMap placements)) entry = none ∧
      candidate (eligibleNodes directory) (loadOf (loadMap placements)) entry = none := by
  have haborting : (placements.toList.any fun entry ↦ entry.2.move.any (·.aborting)) = false := by
    rw [List.any_eq_false]
    intro entry hentry
    simp [hstable entry hentry]
  unfold propose
  dsimp only
  rw [if_neg (not_lt.mpr heligible), if_neg (by simp [haborting])]
  constructor
  · intro h
    split at h
    · cases h
    · rename_i hdrained
      cases hbest : placements.toList.foldl (considerCandidate (eligibleNodes directory)
          (loadOf (loadMap placements))) none with
      | none =>
        exact fun entry hentry ↦ ⟨List.findSome?_eq_none_iff.mp hdrained entry hentry,
          ((foldl_considerCandidate _ none).2 hbest).2 entry hentry⟩
      | some best =>
        -- a best candidate is of a partition of the map
        rcases (foldl_considerCandidate _ none).1 _ hbest with hnone | ⟨entry, hentry, hcand⟩
        · cases hnone
        · have hfound := Std.ExtTreeMap.mem_toList_iff_getElem?_eq_some.mp hentry
          rw [← (candidate_eq_some hcand).1] at hfound
          rw [hbest, Option.bind_some, hfound] at h
          cases h
  · intro h
    have hdrained : placements.toList.findSome? (drain directory (eligibleNodes directory)
        (loadOf (loadMap placements))) = none :=
      List.findSome?_eq_none_iff.mpr fun entry hentry ↦ (h entry hentry).1
    rw [hdrained]
    cases hbest : placements.toList.foldl (considerCandidate (eligibleNodes directory)
        (loadOf (loadMap placements))) none with
    | none => rfl
    | some best =>
      rcases (foldl_considerCandidate _ none).1 _ hbest with hnone | ⟨entry, hentry, hcand⟩
      · cases hnone
      · rw [(h entry hentry).2] at hcand
        cases hcand

end Propose

end DalService.Balancer
