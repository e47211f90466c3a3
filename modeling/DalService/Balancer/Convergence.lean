import DalService.Balancer.Propose
import DalService.Foundation.Run

/-!
# The balancer converges

Between moves, a placement map assigns each partition the set of its voters. A proposal is an
exchange of this assignment (`Rebalances.exchange`): it sheds a voter that has to leave, or, once
there is none, takes a slot between two active nodes whose loads are two or more apart.

So the balancer rests exactly in the good states (`propose_eq_none_iff_balanced`), where no voter
has to leave and the loads of any two active nodes differ by at most one; and it gets there
(`balancing_terminates`): the number of voters that have to leave, and then the sum of squared loads
of the active nodes, decrease with every step.
-/

set_option autoImplicit false

namespace DalService.Balancer

open Foundation

/-- No partition has a move, and each has `r` distinct voters. -/
def Steady (placements : PlacementMap) (r : ℕ) : Prop :=
  ∀ (partition : UInt16) (placed : Placement), placements[partition]? = some placed →
    placed.move = none ∧ placed.voters.Nodup ∧ placed.voters.length = r

instance (placements : PlacementMap) (r : ℕ) : Decidable (Steady placements r) :=
  decidable_of_iff (∀ entry ∈ placements.toList,
      entry.2.move = none ∧ entry.2.voters.Nodup ∧ entry.2.voters.length = r)
    ⟨fun h partition placed hplaced ↦
        h (partition, placed) (Std.ExtTreeMap.mem_toList_iff_getElem?_eq_some.mpr hplaced),
      fun h _ hentry ↦ h _ _ (Std.ExtTreeMap.mem_toList_iff_getElem?_eq_some.mp hentry)⟩

/-- The voters of each partition, as an assignment. -/
def assignment (placements : PlacementMap) : Assignment UInt16 NodeId where
  items := (placements.toList.map Prod.fst).toFinset
  holders partition := voterSet ((placements[partition]?.map (·.voters)).getD [])

section Assignment

variable {placements : PlacementMap} {r : ℕ}

theorem mem_items {partition : UInt16} : partition ∈ (assignment placements).items ↔
    ∃ placed, placements[partition]? = some placed := by
  simp only [assignment, List.mem_toFinset, List.mem_map, Prod.exists, exists_and_right,
    exists_eq_right, Std.ExtTreeMap.mem_toList_iff_getElem?_eq_some]

theorem mem_holders {partition : UInt16} {placed : Placement} {node : NodeId}
    (hplaced : placements[partition]? = some placed) :
    node ∈ (assignment placements).holders partition ↔ node ∈ placed.voters := by
  simp [assignment, hplaced, voterSet]

theorem loadOf_foldl_voters (voters : List NodeId) (load : Std.ExtTreeMap NodeId ℕ)
    (node : NodeId) :
    loadOf (voters.foldl (fun load voter ↦ load.insert voter (load[voter]?.getD 0 + 1)) load) node =
      loadOf load node + voters.count node := by
  induction voters generalizing load with
  | nil => rfl
  | cons voter voters ih =>
    rw [List.foldl_cons, ih, List.count_cons, loadOf, loadOf, Std.ExtTreeMap.getElem?_insert]
    by_cases hsame : voter = node
    · subst hsame
      simp
      omega
    · simp [hsame]

/-- Without moves, the load of a node is the number of partitions it votes in. -/
theorem loadOf_loadMap (hsteady : Steady placements r) (node : NodeId) :
    loadOf (loadMap placements) node = (assignment placements).load node := by
  -- the loop over the partitions counts those that have the node among their voters
  have hloop : ∀ (entries : List (UInt16 × Placement)) (load : Std.ExtTreeMap NodeId ℕ),
      (∀ entry ∈ entries, entry.2.move = none ∧ entry.2.voters.Nodup) →
      loadOf (entries.foldl (fun load entry ↦ (anticipatedVoters entry.2).foldl
          (fun load voter ↦ load.insert voter (load[voter]?.getD 0 + 1)) load) load) node =
        loadOf load node + (entries.filter fun entry ↦ node ∈ entry.2.voters).length := by
    intro entries
    induction entries with
    | nil => exact fun _ _ ↦ rfl
    | cons entry entries ih =>
      intro load hentries
      obtain ⟨⟨hmove, hnodup⟩, hrest⟩ := List.forall_mem_cons.mp hentries
      have hvoters : anticipatedVoters entry.2 = entry.2.voters := by
        simp [anticipatedVoters, hmove]
      rw [List.foldl_cons, ih _ hrest, hvoters, loadOf_foldl_voters, hnodup.count, List.filter_cons]
      by_cases hmem : node ∈ entry.2.voters
      · simp [hmem]
        omega
      · simp [hmem]
  have hkeys : (placements.toList.map Prod.fst).Nodup := by
    have hdistinct : placements.toList.Pairwise fun a b ↦ ¬compare a.1 b.1 = .eq :=
      Std.ExtTreeMap.distinct_keys_toList
    refine List.pairwise_map.mpr (hdistinct.imp fun {first second} hne heq ↦ hne ?_)
    rw [heq]
    exact Std.ReflCmp.compare_self
  rw [loadMap, hloop _ _ fun entry hentry ↦ ?_]
  · rw [Assignment.load, ← List.length_map Prod.fst,
      ← List.toFinset_card_of_nodup (hkeys.sublist (List.filter_sublist.map _))]
    have hset : ((placements.toList.filter fun entry ↦ node ∈ entry.2.voters).map
        Prod.fst).toFinset = {partition ∈ (assignment placements).items |
          node ∈ (assignment placements).holders partition} := by
      ext partition
      simp only [List.mem_toFinset, List.mem_map, List.mem_filter, decide_eq_true_eq, Prod.exists,
        Finset.mem_filter, mem_items, Std.ExtTreeMap.mem_toList_iff_getElem?_eq_some]
      constructor
      · rintro ⟨_, placed, ⟨hplaced, hvoter⟩, rfl⟩
        exact ⟨⟨placed, hplaced⟩, (mem_holders hplaced).mpr hvoter⟩
      · rintro ⟨⟨placed, hplaced⟩, hvoter⟩
        exact ⟨partition, placed, ⟨hplaced, (mem_holders hplaced).mp hvoter⟩, rfl⟩
    rw [hset, loadOf]
    simp
  · have hplaced := Std.ExtTreeMap.mem_toList_iff_getElem?_eq_some.mp hentry
    obtain ⟨hmove, hnodup, -⟩ := hsteady _ _ hplaced
    exact ⟨hmove, hnodup⟩

end Assignment

/-! ### The directory -/

section Directory

variable {directory : List NodeDirectoryEntry} (hnodup : (directory.map (·.nodeId)).Nodup)

include hnodup

theorem find?_eq_some_of_mem {entry : NodeDirectoryEntry} (hentry : entry ∈ directory) :
    (directory.find? fun other ↦ other.nodeId = entry.nodeId) = some entry := by
  cases hfound : directory.find? fun other ↦ other.nodeId = entry.nodeId with
  | none => simpa using List.find?_eq_none.mp hfound entry hentry
  | some found =>
    have hid : found.nodeId = entry.nodeId := by simpa using List.find?_some hfound
    rw [List.inj_on_of_nodup_map hnodup (List.mem_of_find?_eq_some hfound) hentry hid]

/-- A node has to leave exactly if it is not listed as active or suspect. -/
theorem isEvacuating_eq_false_iff {node : NodeId} : isEvacuating directory node = false ↔
    ∃ entry ∈ directory, entry.nodeId = node ∧ entry.state ≠ .down ∧ entry.state ≠ .draining := by
  unfold isEvacuating
  constructor
  · intro h
    split at h
    · rename_i entry hfound
      refine ⟨entry, List.mem_of_find?_eq_some hfound, by simpa using List.find?_some hfound, ?_⟩
      simpa [not_or] using h
    · cases h
  · rintro ⟨entry, hentry, rfl, hstate⟩
    rw [find?_eq_some_of_mem hnodup hentry]
    simpa [not_or] using hstate

theorem not_isEvacuating_of_eligible {node : NodeId} (h : node ∈ eligibleNodes directory) :
    isEvacuating directory node = false := by
  obtain ⟨entry, hentry, hactive, hid⟩ := mem_eligibleNodes.mp h
  exact (isEvacuating_eq_false_iff hnodup).mpr ⟨entry, hentry, hid, by simp [hactive]⟩

theorem length_eligibleNodes : (eligibleNodes directory).length =
    (directory.filter fun entry ↦ entry.state = .active).length := by
  have hactive : ((directory.filter fun entry ↦ entry.state = .active).map (·.nodeId)).Nodup :=
    hnodup.sublist (List.filter_sublist.map _)
  rw [eligibleNodes, length_ascending, voterSet, List.toFinset_card_of_nodup hactive,
    List.length_map]

/-- Assumes: as many eligible nodes as voters, one of which has to leave. Some eligible node is no
voter. -/
theorem exists_nonReplica {voters : List NodeId} {voter : NodeId}
    (hcount : voters.length ≤ (eligibleNodes directory).length) (hvoter : voter ∈ voters)
    (hgoes : isEvacuating directory voter = true) :
    ∃ node ∈ eligibleNodes directory, node ∉ voters := by
  by_contra hall
  push Not at hall
  have hsubset : (eligibleNodes directory).toFinset ⊆ voters.toFinset.erase voter := by
    intro node hnode
    rw [List.mem_toFinset] at hnode
    refine Finset.mem_erase.mpr ⟨?_, List.mem_toFinset.mpr (hall node hnode)⟩
    rintro rfl
    rw [not_isEvacuating_of_eligible hnodup hnode] at hgoes
    cases hgoes
  have hcard := Finset.card_le_card hsubset
  have hdistinct : (eligibleNodes directory).Nodup := nodup_ascending _
  rw [List.toFinset_card_of_nodup hdistinct,
    Finset.card_erase_of_mem (List.mem_toFinset.mpr hvoter)] at hcard
  have hpos : 0 < voters.toFinset.card := Finset.card_pos.mpr ⟨voter, List.mem_toFinset.mpr hvoter⟩
  have hle := List.toFinset_card_le voters
  omega

end Directory

/-! ### Where the balancer rests -/

section Rest

variable {directory : List NodeDirectoryEntry} {placements : PlacementMap} {r : ℕ}

theorem drain_ne_none_of_evacuating (hnodup : (directory.map (·.nodeId)).Nodup)
    (hsteady : Steady placements r) (heligible : r ≤ (eligibleNodes directory).length)
    {partition : UInt16} {placed : Placement} (hplaced : placements[partition]? = some placed)
    {voter : NodeId} (hvoter : voter ∈ placed.voters)
    (hgoes : isEvacuating directory voter = true) :
    drain directory (eligibleNodes directory) (loadOf (loadMap placements)) (partition, placed) ≠
      none := by
  obtain ⟨hmove, -, hlength⟩ := hsteady _ _ hplaced
  obtain ⟨node, hnode, hnew⟩ := exists_nonReplica hnodup (hlength.trans_le heligible) hvoter hgoes
  exact drain_ne_none hmove hvoter hgoes hnode hnew

/-- Assumes: a directory that lists each node once, a placement map without moves in which each
partition has `r` distinct voters, and at least `r` active nodes. The balancer proposes nothing
exactly if every voter is listed as active or suspect and the numbers of partitions that two active
nodes vote in differ by at most one. -/
theorem propose_eq_none_iff_balanced (directory : List NodeDirectoryEntry)
    (placements : PlacementMap) (r : ℕ) (hnodup : (directory.map (·.nodeId)).Nodup)
    (hsteady : Steady placements r)
    (hactive : r ≤ (directory.filter fun entry ↦ entry.state = .active).length) :
    propose directory placements r = none ↔
      (∀ (partition : UInt16) (placed : Placement), placements[partition]? = some placed →
        ∀ voter ∈ placed.voters, ∃ entry ∈ directory, entry.nodeId = voter ∧
          entry.state ≠ .down ∧ entry.state ≠ .draining) ∧
      ∀ first ∈ directory, ∀ second ∈ directory, first.state = .active → second.state = .active →
        (assignment placements).load first.nodeId ≤
          (assignment placements).load second.nodeId + 1 := by
  have heligible : r ≤ (eligibleNodes directory).length := by rwa [length_eligibleNodes hnodup]
  have hmoves : ∀ entry ∈ placements.toList, entry.2.move = none := fun entry hentry ↦
    (hsteady _ _ (Std.ExtTreeMap.mem_toList_iff_getElem?_eq_some.mp hentry)).1
  rw [propose_eq_none_iff heligible hmoves]
  constructor
  · refine fun hrest ↦ ⟨fun partition placed hplaced voter hvoter ↦ ?_,
      fun first hfirst second hsecond hfirst' hsecond' ↦ ?_⟩
    · rw [← isEvacuating_eq_false_iff hnodup, Bool.eq_false_iff]
      intro hgoes
      exact drain_ne_none_of_evacuating hnodup hsteady heligible hplaced hvoter hgoes
        (hrest _ (Std.ExtTreeMap.mem_toList_iff_getElem?_eq_some.mpr hplaced)).1
    · -- a wider gap surfaces in a partition that has the one node and not the other
      by_contra hgap
      have hlt : (assignment placements).load second.nodeId <
          (assignment placements).load first.nodeId := by omega
      obtain ⟨partition, hitem, hhigh, hlow⟩ := Assignment.exists_of_load_lt hlt
      obtain ⟨placed, hplaced⟩ := mem_items.mp hitem
      rw [mem_holders hplaced] at hhigh hlow
      have hnone := (hrest _ (Std.ExtTreeMap.mem_toList_iff_getElem?_eq_some.mpr hplaced)).2
      refine candidate_ne_none (hsteady _ _ hplaced).1 hhigh
        (mem_eligibleNodes.mpr ⟨first, hfirst, hfirst', rfl⟩)
        (mem_eligibleNodes.mpr ⟨second, hsecond, hsecond', rfl⟩) hlow ?_ hnone
      rw [loadOf_loadMap hsteady, loadOf_loadMap hsteady]
      omega
  · rintro ⟨hsettled, hbalanced⟩ ⟨partition, placed⟩ hentry
    have hplaced := Std.ExtTreeMap.mem_toList_iff_getElem?_eq_some.mp hentry
    refine ⟨?_, ?_⟩
    · cases hdrain : drain directory (eligibleNodes directory) (loadOf (loadMap placements))
          (partition, placed) with
      | none => rfl
      | some proposal =>
        obtain ⟨drop, -, -, -, hdrop, hgoes, -⟩ := drain_eq_some hdrain
        rw [(isEvacuating_eq_false_iff hnodup).mpr (hsettled _ _ hplaced drop hdrop)] at hgoes
        cases hgoes
    · cases hcand : candidate (eligibleNodes directory) (loadOf (loadMap placements))
          (partition, placed) with
      | none => rfl
      | some cand =>
        obtain ⟨-, -, -, hfrom, hto, -, hgap⟩ := candidate_eq_some hcand
        obtain ⟨first, hfirst, hfirst', hsource⟩ := mem_eligibleNodes.mp hfrom
        obtain ⟨second, hsecond, hsecond', hdest⟩ := mem_eligibleNodes.mp hto
        have hclose := hbalanced first hfirst second hsecond hfirst' hsecond'
        rw [loadOf_loadMap hsteady, loadOf_loadMap hsteady, ← hsource, ← hdest] at hgap
        omega

/-- Two partitions on two of three nodes, one of which is suspect. -/
theorem propose_eq_none_iff_balanced_suspect :
    let directory : List NodeDirectoryEntry :=
      [⟨1, "a1", "b1", .active, 1⟩, ⟨2, "a2", "b2", .suspect, 1⟩, ⟨3, "a3", "b3", .active, 1⟩]
    let placements : PlacementMap :=
      (Std.ExtTreeMap.insert ∅ 0 ⟨[1, 2], ⟨1, 1⟩, none⟩).insert 1 ⟨[2, 3], ⟨1, 2⟩, none⟩
    propose directory placements 2 = none ∧
      (assignment placements).load 1 ≤ (assignment placements).load 3 + 1 := by
  intro directory placements
  have hnone : propose directory placements 2 = none := by decide +kernel
  have hbalanced := (propose_eq_none_iff_balanced directory placements 2 (by decide)
    (by decide +kernel) (by decide)).mp hnone
  exact ⟨hnone, hbalanced.2 _ List.mem_cons_self ⟨3, "a3", "b3", .active, 1⟩ (by decide) rfl rfl⟩

end Rest

/-! ### How the balancer gets there -/

/-- The placement map after a proposal was carried out. -/
def carryOut (placements : PlacementMap) (proposal : PlanProposal) : PlacementMap :=
  match proposal.group with
  | .meta => placements
  | .data partition =>
    match placements[partition]? with
    | none => placements
    | some placed => placements.insert partition { placed with voters := proposal.targetVoters }

/-- One round of the balancer: a proposal, carried out. -/
def Rebalances (directory : List NodeDirectoryEntry) (r : ℕ) (placements next : PlacementMap) :
    Prop :=
  ∃ proposal, propose directory placements r = some proposal ∧ next = carryOut placements proposal

/-- The number of voters that are down, draining or unlisted, over all partitions. -/
def evacuees (directory : List NodeDirectoryEntry) (placements : PlacementMap) : ℕ :=
  (assignment placements).strays fun voter ↦ isEvacuating directory voter = true

/-- The sum of squared replica counts over the active nodes. -/
def imbalance (directory : List NodeDirectoryEntry) (placements : PlacementMap) : ℕ :=
  (assignment placements).spread (eligibleNodes directory).toFinset

section Rounds

variable {directory : List NodeDirectoryEntry} {placements next : PlacementMap} {r : ℕ}

/-- What one round does to the assignment: an exchange that sheds a voter that has to leave, or, if
no voter has to, one between active nodes whose loads are two or more apart. -/
inductive Exchanged (directory : List NodeDirectoryEntry) (a next : Assignment UInt16 NodeId) : Prop
  | evacuation (partition : UInt16) (drop dest : NodeId) (hitem : partition ∈ a.items)
    (hdrop : drop ∈ a.holders partition) (hdest : dest ∉ a.holders partition)
    (hgoes : isEvacuating directory drop = true) (hto : dest ∈ eligibleNodes directory)
    (hnext : next = a.exchange partition drop dest)
  | rebalance (partition : UInt16) (source dest : NodeId) (hitem : partition ∈ a.items)
    (hsource : source ∈ a.holders partition) (hdest : dest ∉ a.holders partition)
    (hfrom : source ∈ eligibleNodes directory) (hto : dest ∈ eligibleNodes directory)
    (hgap : a.load dest + 2 ≤ a.load source)
    (hsettled : a.strays (fun voter ↦ isEvacuating directory voter = true) = 0)
    (hnext : next = a.exchange partition source dest)

theorem carryOut_replacement {partition : UInt16} {placed : Placement}
    (hplaced : placements[partition]? = some placed) (drop add : NodeId) :
    carryOut placements (replacement (.data partition) placed.voters drop add) =
      placements.insert partition { placed with
        voters := (replacement (.data partition) placed.voters drop add).targetVoters } := by
  simp only [carryOut, replacement, hplaced]

theorem assignment_carryOut {partition : UInt16} {placed : Placement}
    (hplaced : placements[partition]? = some placed) (drop add : NodeId) :
    assignment (carryOut placements (replacement (.data partition) placed.voters drop add)) =
      (assignment placements).exchange partition drop add := by
  rw [carryOut_replacement hplaced]
  have hitems : ∀ {first second : Assignment UInt16 NodeId}, first.items = second.items →
      first.holders = second.holders → first = second := by
    rintro ⟨_, _⟩ ⟨_, _⟩ rfl rfl
    rfl
  refine hitems ?_ (funext fun other ↦ ?_)
  · ext other
    rw [Assignment.items_exchange, mem_items, mem_items, Std.ExtTreeMap.getElem?_insert]
    by_cases hsame : partition = other
    · subst hsame
      simp [hplaced]
    · simp [hsame]
  · by_cases hsame : other = partition
    · subst hsame
      rw [Assignment.holders_exchange_self]
      simp [assignment, hplaced, voterSet_replacement]
    · rw [Assignment.holders_exchange_of_ne hsame]
      simp [assignment, Std.ExtTreeMap.getElem?_insert, Ne.symm hsame]

/-- Assumes: a placement map the balancer can work on. One round leaves such a map, and
exchanges. -/
theorem Rebalances.exchanged (hnodup : (directory.map (·.nodeId)).Nodup)
    (hsteady : Steady placements r) (h : Rebalances directory r placements next) :
    Steady next r ∧ Exchanged directory (assignment placements) (assignment next) := by
  obtain ⟨proposal, hproposal, rfl⟩ := h
  obtain ⟨heligible, hproposes⟩ := proposes_of_propose hproposal
  have hkept : ∀ {partition : UInt16} {placed : Placement} {drop add : NodeId},
      placements[partition]? = some placed → drop ∈ placed.voters → add ∉ placed.voters →
      Steady (carryOut placements (replacement (.data partition) placed.voters drop add)) r := by
    intro partition placed drop add hplaced hdrop hadd other otherPlaced hother
    rw [carryOut_replacement hplaced, Std.ExtTreeMap.getElem?_insert] at hother
    by_cases hsame : partition = other
    · obtain ⟨hmove, hdistinct, hlength⟩ := hsteady _ _ hplaced
      simp only [hsame, Std.ReflCmp.compare_self, if_true, Option.some.injEq] at hother
      subst hother
      refine ⟨hmove, (sorted_replacement (.data partition) drop hdistinct hadd).imp UInt64.ne_of_lt,
        ?_⟩
      exact (length_replacement (.data partition) add hdistinct hdrop).trans hlength
    · simp only [Std.compare_eq_iff_eq, hsame, if_false] at hother
      exact hsteady _ _ hother
  cases hproposes with
  | evacuation partition placed drop dest hplaced hmove hdrop hgoes hto hnew =>
    refine ⟨hkept hplaced hdrop hnew, ?_⟩
    exact .evacuation partition drop dest (mem_items.mpr ⟨placed, hplaced⟩)
      ((mem_holders hplaced).mpr hdrop) (fun h ↦ hnew ((mem_holders hplaced).mp h)) hgoes hto
      (assignment_carryOut hplaced drop dest)
  | rebalance partition placed source dest hplaced hmove hdrained hsource hfrom hto hnew hgap =>
    refine ⟨hkept hplaced hsource hnew, ?_⟩
    rw [loadOf_loadMap hsteady, loadOf_loadMap hsteady] at hgap
    refine .rebalance partition source dest (mem_items.mpr ⟨placed, hplaced⟩)
      ((mem_holders hplaced).mpr hsource) (fun h ↦ hnew ((mem_holders hplaced).mp h)) hfrom hto hgap
      ?_ (assignment_carryOut hplaced source dest)
    -- a voter that has to leave would have been evacuated first
    by_contra hstray
    obtain ⟨other, hitem, voter, hvoter, hgoes⟩ :=
      Assignment.strays_pos_iff.mp (Nat.pos_of_ne_zero hstray)
    obtain ⟨otherPlaced, hother⟩ := mem_items.mp hitem
    exact drain_ne_none_of_evacuating hnodup hsteady heligible hother
      ((mem_holders hother).mp hvoter) hgoes
      (hdrained _ (Std.ExtTreeMap.mem_toList_iff_getElem?_eq_some.mpr hother))

/-- One round with a voter that has to leave takes one away; one without lowers the sum of squared
loads of the active nodes. -/
theorem Rebalances.decreases (hnodup : (directory.map (·.nodeId)).Nodup)
    (hsteady : Steady placements r) (h : Rebalances directory r placements next) :
    (0 < evacuees directory placements ∧
      evacuees directory next + 1 = evacuees directory placements) ∨
    (evacuees directory placements = 0 ∧ evacuees directory next = 0 ∧
      imbalance directory next < imbalance directory placements) := by
  have hstays : ∀ {node}, node ∈ eligibleNodes directory → ¬isEvacuating directory node = true := by
    intro node hnode
    rw [not_isEvacuating_of_eligible hnodup hnode]
    exact Bool.false_ne_true
  cases (h.exchanged hnodup hsteady).2 with
  | evacuation partition drop dest hitem hdrop hdest hgoes hto hnext =>
    refine .inl ⟨Assignment.strays_pos_iff.mpr ⟨partition, hitem, drop, hdrop, hgoes⟩, ?_⟩
    rw [evacuees, hnext]
    exact Assignment.strays_exchange_of_shed hitem hdrop hgoes (hstays hto)
  | rebalance partition source dest hitem hsource hdest hfrom hto hgap hsettled hnext =>
    refine .inr ⟨hsettled, ?_, ?_⟩
    · rw [evacuees, hnext, Assignment.strays_exchange_of_settled hitem (hstays hfrom) (hstays hto),
        hsettled]
    · rw [imbalance, hnext]
      exact Assignment.spread_exchange_lt hitem hsource hdest (List.mem_toFinset.mpr hfrom)
        (List.mem_toFinset.mpr hto) hgap

/-- Evacuees first, then imbalance. -/
def rank (directory : List NodeDirectoryEntry) (placements : PlacementMap) : ℕ ×ₗ ℕ :=
  toLex (evacuees directory placements, imbalance directory placements)

theorem Rebalances.rank_lt (hnodup : (directory.map (·.nodeId)).Nodup)
    (hsteady : Steady placements r) (h : Rebalances directory r placements next) :
    rank directory next < rank directory placements := by
  rw [rank, rank, Prod.Lex.toLex_lt_toLex]
  rcases h.decreases hnodup hsteady with ⟨-, hless⟩ | ⟨hnone, hnone', hless⟩
  · exact .inl (by dsimp only; omega)
  · exact .inr ⟨hnone'.trans hnone.symm, hless⟩

/-- Rounds keep the map one that the balancer can work on. -/
theorem steady_of_rounds (hnodup : (directory.map (·.nodeId)).Nodup) (hsteady : Steady placements r)
    (h : Relation.ReflTransGen (Rebalances directory r) placements next) : Steady next r :=
  invariant_of_reachable (P := fun mid ↦ Steady mid r) hsteady
    (fun hmid hround ↦ (hround.exchanged hnodup hmid).1) h

theorem rank_lt_of_rounds (hnodup : (directory.map (·.nodeId)).Nodup)
    (hsteady : Steady placements r)
    (h : Relation.TransGen (Rebalances directory r) placements next) :
    rank directory next < rank directory placements := by
  induction h with
  | single hround => exact hround.rank_lt hnodup hsteady
  | tail hrounds hround ih =>
    exact (hround.rank_lt hnodup (steady_of_rounds hnodup hsteady hrounds.to_reflTransGen)).trans ih

theorem exists_rounds (hnodup : (directory.map (·.nodeId)).Nodup) (hsteady : Steady placements r) :
    ∃ last, Relation.ReflTransGen (Rebalances directory r) placements last ∧
      propose directory last r = none := by
  induction placements using (InvImage.wf (rank directory) wellFounded_lt).induction with
  | _ placements ih =>
    cases hproposal : propose directory placements r with
    | none => exact ⟨placements, .refl, hproposal⟩
    | some proposal =>
      have hround : Rebalances directory r placements (carryOut placements proposal) :=
        ⟨proposal, hproposal, rfl⟩
      obtain ⟨last, hrounds, hnone⟩ := ih _ (hround.rank_lt hnodup hsteady)
        (hround.exchanged hnodup hsteady).1
      exact ⟨last, .head hround hrounds, hnone⟩

end Rounds

/-- Assumes: a directory that lists each node once, and a placement map without moves in which each
partition has `r` distinct voters. Rounds of the balancer end: one has nothing to propose. Along
them the number of voters that are down, draining or unlisted never increases; a round taken while
there are any takes one away, and every other round lowers the sum of squared replica counts of the
active nodes. No placement map comes back. With fewer than `r` active nodes there is no round at
all. -/
theorem balancing_terminates (directory : List NodeDirectoryEntry) (placements : PlacementMap)
    (r : ℕ) (hnodup : (directory.map (·.nodeId)).Nodup) (hsteady : Steady placements r) :
    (∃ last, Relation.ReflTransGen (Rebalances directory r) placements last ∧
      propose directory last r = none) ∧
    ∀ mid, Relation.ReflTransGen (Rebalances directory r) placements mid →
      (∀ next, Rebalances directory r mid next →
        evacuees directory next ≤ evacuees directory mid ∧
        (0 < evacuees directory mid → evacuees directory next + 1 = evacuees directory mid) ∧
        (evacuees directory mid = 0 → imbalance directory next < imbalance directory mid)) ∧
      ∀ later, Relation.TransGen (Rebalances directory r) mid later → later ≠ mid := by
  refine ⟨exists_rounds hnodup hsteady, fun mid hrounds ↦ ?_⟩
  have hmid := steady_of_rounds hnodup hsteady hrounds
  refine ⟨fun next hround ↦ ?_, fun later hlater hsame ↦ ?_⟩
  · rcases hround.decreases hnodup hmid with ⟨hsome, hless⟩ | ⟨hnone, hnone', hless⟩
    · exact ⟨by omega, fun _ ↦ hless, fun hnone ↦ by omega⟩
    · exact ⟨by omega, fun hsome ↦ by omega, fun _ ↦ hless⟩
  · have hlt := rank_lt_of_rounds hnodup hmid hlater
    rw [hsame] at hlt
    exact lt_irrefl _ hlt

/-- A partition sheds a node that is down to the node outside. -/
theorem balancing_terminates_down :
    let directory : List NodeDirectoryEntry :=
      [⟨1, "a1", "b1", .active, 1⟩, ⟨2, "a2", "b2", .down, 1⟩, ⟨3, "a3", "b3", .active, 1⟩]
    let placements : PlacementMap := Std.ExtTreeMap.insert ∅ 0 ⟨[1, 2], ⟨1, 1⟩, none⟩
    propose directory placements 2 = some ⟨.data 0, [1, 3]⟩ ∧
      ∃ last, Relation.ReflTransGen (Rebalances directory 2) placements last ∧
        propose directory last 2 = none := by
  intro directory placements
  exact ⟨by decide +kernel, (balancing_terminates directory placements 2 (by decide)
    (by decide +kernel)).1⟩

end DalService.Balancer
