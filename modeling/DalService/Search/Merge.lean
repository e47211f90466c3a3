import DalService.Foundation.Window
import DalService.Search.Coordinator

/-!
# Merging does not depend on the order of arrival

What the coordinator has merged after a round is a function of what each partition contributed, and
not of the order in which it arrived. Statistics are kept in key order, and a key holds the
saturating sum of everything that was contributed under it (`Tallies`), whether or not the lists of
the shards are sorted or repeat a key (`Tallies.mergeSum`). Hits are sorted and cut to the window
after every reply, which leaves the window of all hits (`gathered_eq`, by the rule `foldl_keep`).
`search_merge_order_independent` puts the parts together.

The order of scores is a parameter here: `consumeReplyWith (.addBy scores)` takes replies in with
any total order of scores, and is what the coordinator does for `totalCmp`
(`consumeReplyWith_totalCmp`).
-/

set_option autoImplicit false

namespace DalService.Search

open Foundation

/-! ### Saturating sums -/

/-- The saturating sum of a list of values. -/
def saturatingTotal (values : List UInt64) : UInt64 :=
  UInt64.ofNat (min (values.map UInt64.toNat).sum (UInt64.size - 1))

theorem toNat_saturatingSum (first second : UInt64) :
    (saturatingSum first second).toNat = min (first.toNat + second.toNat) (UInt64.size - 1) := by
  rw [saturatingSum, UInt64.toNat_ofNat']
  exact Nat.mod_eq_of_lt (lt_of_le_of_lt (min_le_right _ _) (by decide))

theorem toNat_saturatingTotal (values : List UInt64) :
    (saturatingTotal values).toNat = min (values.map UInt64.toNat).sum (UInt64.size - 1) := by
  rw [saturatingTotal, UInt64.toNat_ofNat']
  exact Nat.mod_eq_of_lt (lt_of_le_of_lt (min_le_right _ _) (by decide))

theorem saturatingTotal_eq_of_perm {first second : List UInt64} (h : first.Perm second) :
    saturatingTotal first = saturatingTotal second := by
  rw [saturatingTotal, saturatingTotal, (h.map UInt64.toNat).sum_eq]

theorem saturatingTotal_singleton (value : UInt64) : saturatingTotal [value] = value := by
  apply UInt64.toNat_inj.mp
  rw [toNat_saturatingTotal, List.map_singleton, List.sum_singleton]
  exact min_eq_left (Nat.le_sub_one_of_lt value.toNat_lt)

/-- Once saturated, a sum stays saturated, so it saturates wherever the cut is made. -/
theorem saturatingSum_total (values : List UInt64) (value : UInt64) :
    saturatingSum (saturatingTotal values) value = saturatingTotal (values ++ [value]) := by
  apply UInt64.toNat_inj.mp
  rw [toNat_saturatingSum, toNat_saturatingTotal, toNat_saturatingTotal, List.map_append,
    List.sum_append, List.map_singleton, List.sum_singleton]
  omega

/-! ### Statistics -/

section Tally

variable {K : Type} [Ord K]

/-- The values contributed under a key. -/
def valuesOf (key : K) (entries : List (K × UInt64)) : List UInt64 :=
  (entries.filter fun entry ↦ compare entry.1 key == .eq).map Prod.snd

/-- Sums in strict key order, with the saturating sum of every key that was contributed. -/
structure Tallies (sums entries : List (K × UInt64)) : Prop where
  ordered : sums.Pairwise fun first second ↦ compare first.1 second.1 = .lt
  sums : ∀ key value, (key, value) ∈ sums ↔
    valuesOf key entries ≠ [] ∧ value = saturatingTotal (valuesOf key entries)

theorem valuesOf_append (key : K) (first second : List (K × UInt64)) :
    valuesOf key (first ++ second) = valuesOf key first ++ valuesOf key second := by
  rw [valuesOf, List.filter_append, List.map_append]
  rfl

variable [Std.LawfulEqOrd K]

theorem valuesOf_singleton (key other : K) (value : UInt64) [Decidable (other = key)] :
    valuesOf key [(other, value)] = if other = key then [value] else [] := by
  by_cases hkey : other = key
  · simp [valuesOf, hkey]
  · have hcompare : compare other key ≠ .eq := fun h ↦ hkey (Std.compare_eq_iff_eq.mp h)
    simp [valuesOf, hkey, hcompare]

variable [Std.TransOrd K]

namespace Tallies

omit [Std.LawfulEqOrd K] [Std.TransOrd K] in
theorem nil : Tallies ([] : List (K × UInt64)) [] where
  ordered := List.Pairwise.nil
  sums := by simp [valuesOf]

/-- A contribution is added to what is under its key. -/
theorem mergeSum {sums entries : List (K × UInt64)} (h : Tallies sums entries)
    (entry : K × UInt64) : Tallies (Search.mergeSum entry.1 entry.2 sums) (entries ++ [entry]) where
  ordered := pairwise_insertWith h.ordered _ _ fun _ hkey ↦ hkey
  sums := fun key value ↦ by
    classical
    rw [valuesOf_append, valuesOf_singleton, Search.mergeSum, mem_insertWith h.ordered]
    by_cases hkey : entry.1 = key
    · subst hkey
      rw [if_pos rfl, ← saturatingSum_total]
      constructor
      · rintro (⟨old, hold, hkey, heq⟩ | ⟨hnone, heq⟩ | ⟨-, hne⟩)
        · obtain ⟨-, rfl⟩ := Prod.mk.inj heq
          obtain ⟨-, hsum⟩ := (h.sums entry.1 old.2).mp (hkey ▸ hold)
          exact ⟨by simp, by rw [hsum]⟩
        · obtain ⟨-, rfl⟩ := Prod.mk.inj heq
          have hempty : valuesOf entry.1 entries = [] := by
            by_contra hvalues
            exact hnone _ ((h.sums entry.1 _).mpr ⟨hvalues, rfl⟩) rfl
          rw [saturatingSum_total, hempty, List.nil_append, saturatingTotal_singleton]
          exact ⟨by simp, rfl⟩
        · exact absurd rfl hne
      · rintro ⟨-, rfl⟩
        by_cases hvalues : valuesOf entry.1 entries = []
        · refine .inr (.inl ⟨fun old hold heq ↦ ?_, ?_⟩)
          · exact ((h.sums entry.1 old.2).mp (heq ▸ hold)).1 hvalues
          · rw [saturatingSum_total, hvalues, List.nil_append, saturatingTotal_singleton]
        · exact .inl ⟨_, (h.sums entry.1 _).mpr ⟨hvalues, rfl⟩, rfl, rfl⟩
    · rw [if_neg hkey, List.append_nil, ← h.sums key value]
      have hne : ∀ old : K × UInt64, old.1 = entry.1 → key ≠ old.1 := fun old hold heq ↦
        hkey (hold.symm.trans heq.symm)
      grind

theorem mergeSums {sums entries : List (K × UInt64)} (h : Tallies sums entries)
    (added : List (K × UInt64)) : Tallies (Search.mergeSums sums added) (entries ++ added) := by
  induction added generalizing sums entries with
  | nil => rwa [List.append_nil]
  | cons entry added ih =>
    have hrest := ih (h.mergeSum entry)
    rwa [List.append_assoc] at hrest

/-- The order of the contributions does not matter. -/
theorem eq_of_perm {first second firstEntries secondEntries : List (K × UInt64)}
    (hfirst : Tallies first firstEntries) (hsecond : Tallies second secondEntries)
    (hperm : firstEntries.Perm secondEntries) : first = second := by
  have hvalues : ∀ key, (valuesOf key firstEntries).Perm (valuesOf key secondEntries) :=
    fun key ↦ (hperm.filter _).map _
  have hmem : ∀ entry, entry ∈ first ↔ entry ∈ second := by
    rintro ⟨key, value⟩
    rw [hfirst.sums, hsecond.sums, saturatingTotal_eq_of_perm (hvalues key), ne_eq, ne_eq,
      ← List.length_eq_zero_iff, ← List.length_eq_zero_iff, (hvalues key).length_eq]
  have hnodup : ∀ {list : List (K × UInt64)},
      list.Pairwise (fun first second ↦ compare first.1 second.1 = .lt) → list.Nodup := by
    intro list hlist
    refine hlist.imp fun hlt heq ↦ ?_
    rw [heq, Std.compare_self] at hlt
    cases hlt
  have hsame :=
    (List.perm_ext_iff_of_nodup (hnodup hfirst.ordered) (hnodup hsecond.ordered)).mpr hmem
  refine hsame.eq_of_pairwise (fun a b _ _ hlt hgt ↦ ?_) hfirst.ordered hsecond.ordered
  rw [Std.OrientedCmp.gt_of_lt hlt] at hgt
  cases hgt

end Tallies

end Tally

/-- The statistics that are merged in the first phase. -/
def statisticsOf : Contribution ShardPrepared → Option ShardStatistics
  | .value _ prepared =>
    match prepared.statistics.validate with
    | .ok () => some prepared.statistics
    | .error _ => none
  | .failed _ => none

theorem global_foldl_consumePrepared (contributions : List (Contribution ShardPrepared))
    (state : Preparing) :
    (contributions.foldl consumePrepared state).global =
      (contributions.filterMap statisticsOf).foldl ShardStatistics.merge state.global := by
  induction contributions generalizing state with
  | nil => rfl
  | cons contribution contributions ih =>
    rw [List.foldl_cons, ih, List.filterMap_cons]
    cases contribution with
    | failed failure => rfl
    | value partition prepared =>
      cases hvalid : prepared.statistics.validate <;> simp [consumePrepared, statisticsOf, hvalid]

/-- The merged statistics hold the saturating sum of all contributions. -/
structure ShardStatistics.Totals (sum : ShardStatistics)
    (shards : List ShardStatistics) : Prop where
  totalDocs : sum.totalDocs = saturatingTotal (shards.map (·.totalDocs))
  fieldTokens : Tallies sum.fieldTokens (shards.flatMap (·.fieldTokens))
  termDocFreq : Tallies sum.termDocFreq (shards.flatMap (·.termDocFreq))

theorem ShardStatistics.totals_foldl_merge (shards : List ShardStatistics) :
    (shards.foldl ShardStatistics.merge .default).Totals shards := by
  induction shards using List.reverseRecOn with
  | nil => exact ⟨rfl, Tallies.nil, Tallies.nil⟩
  | append_singleton shards shard ih =>
    rw [List.foldl_append, List.foldl_cons, List.foldl_nil]
    refine ⟨?_, ?_, ?_⟩
    · rw [ShardStatistics.merge, ih.totalDocs, saturatingSum_total, List.map_append]
      rfl
    · rw [List.flatMap_append, List.flatMap_singleton]
      exact ih.fieldTokens.mergeSums shard.fieldTokens
    · rw [List.flatMap_append, List.flatMap_singleton]
      exact ih.termDocFreq.mergeSums shard.termDocFreq

theorem ShardStatistics.Totals.eq_of_perm {first second : ShardStatistics}
    {firstShards secondShards : List ShardStatistics} (hfirst : first.Totals firstShards)
    (hsecond : second.Totals secondShards) (hperm : firstShards.Perm secondShards) :
    first = second := by
  have hdocs : first.totalDocs = second.totalDocs := by
    rw [hfirst.totalDocs, hsecond.totalDocs, saturatingTotal_eq_of_perm (hperm.map _)]
  have hfields := hfirst.fieldTokens.eq_of_perm hsecond.fieldTokens (hperm.flatMap_right _)
  have hterms := hfirst.termDocFreq.eq_of_perm hsecond.termDocFreq (hperm.flatMap_right _)
  cases first
  cases second
  simp_all

/-! ### Hits -/

section Hits

variable (scores : UInt32 → UInt32 → Ordering)

/-- `scoreDescending`, for any order of scores. -/
def scoreDescendingBy : Option UInt32 → Option UInt32 → Ordering
  | some left, some right => scores right left
  | some _, none => .lt
  | none, some _ => .gt
  | none, none => .eq

/-- `hitOrder`, for any order of scores. -/
def hitOrderBy (left right : SearchHit) : Ordering :=
  ((scoreDescendingBy scores left.score right.score).then
    (compare left.partition right.partition)).then (compare left.key right.key)

/-- The first hit does not come after the second. -/
def ranked (left right : SearchHit) : Bool := hitOrderBy scores left right ≠ .gt

/-- The hits by score, then partition, then key. -/
def sortHits (hits : List SearchHit) : List SearchHit := hits.mergeSort (ranked scores)

/-- `ReplyAccumulator.add`, for any order of scores. -/
def ReplyAccumulator.addBy (replies : ReplyAccumulator) (reply : SearchReply) : ReplyAccumulator :=
  { replies with
    totalHits := saturatingSum replies.totalHits reply.totalHits
    hits := (sortHits scores (replies.hits ++ reply.hits)).take replies.window }

/-- The coordinator compares scores by `f32::total_cmp`. -/
theorem addBy_totalCmp : ReplyAccumulator.addBy totalCmp = ReplyAccumulator.add := by
  have horder : hitOrderBy totalCmp = hitOrder := by
    funext left right
    rw [hitOrderBy, hitOrder]
    cases left.score <;> cases right.score <;> rfl
  funext replies reply
  rw [ReplyAccumulator.addBy, sortHits, ReplyAccumulator.add]
  unfold ranked
  rw [horder]

/-- Adding replies one after another keeps the window of the hits of each, in turn. -/
theorem foldl_addBy (replies : List SearchReply) (start : ReplyAccumulator) :
    replies.foldl (ReplyAccumulator.addBy scores) start =
      { window := start.window
        totalHits := (replies.map (·.totalHits)).foldl saturatingSum start.totalHits
        hits := (replies.map (·.hits)).foldl
          (keep (ranked scores) start.window) start.hits } := by
  induction replies generalizing start with
  | nil => rfl
  | cons reply replies ih => exact ih (start.addBy scores reply)

theorem ranked_iff {first second : SearchHit} :
    ranked scores first second = true ↔ (hitOrderBy scores first second).isLE = true := by
  rw [ranked, decide_eq_true_eq]
  exact Ordering.isLE_iff_ne_gt.symm

instance : Std.TransCmp totalCmp := by
  have hbits : Std.TransCmp fun left right : UInt32 ↦
      compare (totalCmp.key left.toBitVec).toInt (totalCmp.key right.toBitVec).toInt :=
    transCmp_comap fun bits : UInt32 ↦ (totalCmp.key bits.toBitVec).toInt
  exact hbits

variable [Std.TransCmp scores]

instance : Std.TransCmp (scoreDescendingBy scores) where
  eq_swap := by
    rintro (- | left) (- | right)
    · rfl
    · rfl
    · rfl
    · change scores right left = (scores left right).swap
      exact Std.OrientedCmp.eq_swap
  isLE_trans := by
    rintro (- | first) (- | second) (- | third) hfirst hsecond
    case some.some.some =>
      change (scores second first).isLE = true at hfirst
      change (scores third second).isLE = true at hsecond
      change (scores third first).isLE = true
      exact Std.TransCmp.isLE_trans hsecond hfirst
    all_goals first
      | rfl
      | exact absurd hfirst Bool.false_ne_true
      | exact absurd hsecond Bool.false_ne_true

instance : Std.TransCmp (hitOrderBy scores) := by
  have hscore : Std.TransCmp fun left right : SearchHit ↦
      scoreDescendingBy scores left.score right.score := transCmp_comap _
  have hpartition : Std.TransCmp fun left right : SearchHit ↦
      compare left.partition right.partition := transCmp_comap _
  have hkey : Std.TransCmp fun left right : SearchHit ↦ compare left.key right.key :=
    transCmp_comap _
  exact inferInstanceAs (Std.TransCmp (compareLex (compareLex _ _) _))

theorem ranked_trans (first second third : SearchHit) (hfirst : ranked scores first second = true)
    (hsecond : ranked scores second third = true) : ranked scores first third = true := by
  rw [ranked_iff] at *
  exact Std.TransCmp.isLE_trans hfirst hsecond

theorem hitOrderBy_swap (first second : SearchHit) :
    hitOrderBy scores second first = (hitOrderBy scores first second).swap :=
  Std.OrientedCmp.eq_swap

theorem ranked_total (first second : SearchHit) :
    (ranked scores first second || ranked scores second first) = true := by
  rw [ranked, ranked, hitOrderBy_swap scores first second]
  cases hitOrderBy scores first second <;> decide

/-- Assumes: hits with distinct partitions and keys. The order tells them apart. -/
theorem separates_hits {hits : List SearchHit}
    (hdistinct : (hits.map fun hit ↦ (hit.partition, hit.key)).Nodup) :
    Separates (ranked scores) hits := by
  intro first hfirst second hsecond hle hge
  have heq : hitOrderBy scores first second = .eq := by
    rw [ranked, hitOrderBy_swap scores first second] at hge
    rw [ranked] at hle
    cases horder : hitOrderBy scores first second with
    | eq => rfl
    | lt =>
      rw [horder] at hge
      cases hge
    | gt =>
      rw [horder] at hle
      cases hle
  rw [hitOrderBy, Ordering.then_eq_eq, Ordering.then_eq_eq] at heq
  have hplace : (first.partition, first.key) = (second.partition, second.key) :=
    Prod.ext (Std.compare_eq_iff_eq.mp heq.1.2) (Std.compare_eq_iff_eq.mp heq.2)
  exact List.inj_on_of_nodup_map hdistinct hfirst hsecond hplace

theorem foldl_saturatingSum (values : List UInt64) :
    values.foldl saturatingSum 0 = saturatingTotal values := by
  induction values using List.reverseRecOn with
  | nil => rfl
  | append_singleton values value ih =>
    rw [List.foldl_append, List.foldl_cons, List.foldl_nil, ih, saturatingSum_total]

end Hits

/-! ### The merge of a round -/

theorem consumeReplyWith_totalCmp (generation : SearchIndexGeneration) :
    consumeReplyWith generation (.addBy totalCmp) = consumeReply generation := by
  rw [addBy_totalCmp, consumeReplyWith_add]

/-- The hits of the replies that are merged. -/
def contributedHits (generation : SearchIndexGeneration)
    (contributions : List (Contribution SearchReply)) : List SearchHit :=
  (contributions.filterMap (mergedOf generation)).flatMap fun merged ↦ merged.2.hits

variable (scores : UInt32 → UInt32 → Ordering)

/-- Assumes: a total order of scores, and hits with distinct partitions and keys. Whatever the order
of arrival, the window kept at the end is that of all hits, and the total counts all of them. -/
theorem gathered_eq [Std.TransCmp scores] (generation : SearchIndexGeneration) (window : UInt32)
    {contributions arrived : List (Contribution SearchReply)}
    (harrived : arrived.Perm contributions)
    (hdistinct : ((contributedHits generation contributions).map fun hit ↦
      (hit.partition, hit.key)).Nodup) (failures : List PartitionFailure) :
    arrived.foldl (consumeReplyWith generation (.addBy scores)) (.new window, failures) =
      ({ window := window.toNat
         totalHits := saturatingTotal ((contributions.filterMap (mergedOf generation)).map
           fun merged ↦ merged.2.totalHits)
         hits := (sortHits scores (contributedHits generation contributions)).take window.toNat },
        failures ++ arrived.filterMap (failureOf generation)) := by
  have hmerged := harrived.filterMap (mergedOf generation)
  have hperm :
      (contributedHits generation arrived).Perm (contributedHits generation contributions) :=
    hmerged.flatMap_right _
  have hseparates := separates_hits scores ((hperm.map _).nodup_iff.mpr hdistinct)
  have hsorted : sortHits scores (contributedHits generation arrived) =
      sortHits scores (contributedHits generation contributions) :=
    mergeSort_eq_of_perm (ranked_trans scores) (ranked_total scores) hseparates hperm
  have hhits : (((arrived.filterMap (mergedOf generation)).map Prod.snd).map (·.hits)).foldl
      (keep (ranked scores) window.toNat) [] =
      (sortHits scores (contributedHits generation contributions)).take window.toNat := by
    rw [contributedHits, List.flatMap_def] at hseparates
    rw [List.map_map, ← hsorted, sortHits, contributedHits, List.flatMap_def]
    exact foldl_keep (ranked_trans scores) (ranked_total scores) window.toNat hseparates
  have htotal : (((arrived.filterMap (mergedOf generation)).map Prod.snd).map (·.totalHits)).foldl
      saturatingSum 0 = saturatingTotal ((contributions.filterMap (mergedOf generation)).map
        fun merged ↦ merged.2.totalHits) := by
    rw [foldl_saturatingSum, List.map_map]
    exact saturatingTotal_eq_of_perm (hmerged.map _)
  have hfold : (arrived.filterMap (mergedOf generation)).foldl
      (fun replies merged ↦ ReplyAccumulator.addBy scores replies merged.2) (.new window) =
      ((arrived.filterMap (mergedOf generation)).map Prod.snd).foldl (ReplyAccumulator.addBy scores)
        (.new window) := List.foldl_map.symm
  rw [foldl_consumeReplyWith, hfold, foldl_addBy]
  exact Prod.ext (by simp only [ReplyAccumulator.new, hhits, htotal]) rfl

theorem map_partition_failureOf (generation : SearchIndexGeneration)
    (contributions : List (Contribution SearchReply)) :
    ((contributions.filterMap (failureOf generation)).map (·.partition)).Sublist
      (contributions.map Contribution.partition) := by
  induction contributions with
  | nil => exact List.Sublist.refl _
  | cons contribution contributions ih =>
    rw [List.filterMap_cons]
    rcases mergedOf_or_failureOf contribution with
      ⟨_, -, hnone, -⟩ | ⟨failure, -, hsome, hpartition⟩
    · rw [hnone]
      exact ih.cons _
    · rw [hsome, List.map_cons, List.map_cons, hpartition]
      exact ih.cons_cons _

/-- Assumes: one failure for a partition. Failures are sorted by partition, whatever their order. -/
theorem sortFailures_eq {failures arrived : List PartitionFailure} (hperm : arrived.Perm failures)
    (honce : (failures.map (·.partition)).Nodup) :
    sortFailures arrived = sortFailures failures ∧
      (sortFailures failures).Pairwise fun left right ↦ left.partition < right.partition := by
  have htrans : ∀ a b c : PartitionFailure, decide (a.partition ≤ b.partition) = true →
      decide (b.partition ≤ c.partition) = true → decide (a.partition ≤ c.partition) = true := by
    intro a b c hab hbc
    exact decide_eq_true (UInt16.le_trans (of_decide_eq_true hab) (of_decide_eq_true hbc))
  have htotal : ∀ a b : PartitionFailure, (decide (a.partition ≤ b.partition) ||
      decide (b.partition ≤ a.partition)) = true := by
    intro a b
    rw [Bool.or_eq_true, decide_eq_true_eq, decide_eq_true_eq]
    exact UInt16.le_total _ _
  have hsame : ∀ a ∈ failures, ∀ b ∈ failures, a.partition = b.partition → a = b :=
    fun a ha b hb ↦ List.inj_on_of_nodup_map honce ha hb
  refine ⟨?_, ?_⟩
  · refine mergeSort_eq_of_perm htrans htotal (fun a ha b hb hab hba ↦ ?_) hperm
    exact hsame a (hperm.mem_iff.mp ha) b (hperm.mem_iff.mp hb)
      (UInt16.le_antisymm (of_decide_eq_true hab) (of_decide_eq_true hba))
  · have hsorted : (sortFailures failures).Pairwise fun left right ↦
        decide (left.partition ≤ right.partition) = true :=
      List.pairwise_mergeSort htrans htotal failures
    have hnodup : (sortFailures failures).Pairwise fun left right ↦
        left.partition ≠ right.partition :=
      List.pairwise_map.mp (((List.mergeSort_perm failures _).map _).nodup_iff.mpr honce)
    exact (hsorted.and hnodup).imp fun h ↦ UInt16.lt_of_le_of_ne (of_decide_eq_true h.1) h.2

/-- Assumes: a total order of scores; one outcome for each partition, and hits with distinct
partitions and keys; a window of offset and limit. Whatever the order in which the outcomes arrive:
the merged statistics are in key order and hold the saturating sums of all contributions; the hits
returned are the page of the full sort of all contributed hits; the total is the saturating sum; and
the failures are in ascending partition order. -/
theorem search_merge_order_independent [Std.TransCmp scores] (generation : SearchIndexGeneration)
    (request : SearchRequest) {window : UInt32}
    (hwindow : window.toNat = request.offset.toNat + request.limit.toNat)
    {prepared preparedArrived : List (Contribution ShardPrepared)}
    (hprepared : preparedArrived.Perm prepared)
    {replies arrived : List (Contribution SearchReply)} (harrived : arrived.Perm replies)
    {failed failedArrived : List PartitionFailure} (hfailed : failedArrived.Perm failed)
    (honce : (failed.map (·.partition) ++ replies.map Contribution.partition).Nodup)
    (hdistinct : ((contributedHits generation replies).map fun hit ↦
      (hit.partition, hit.key)).Nodup) :
    let start : Preparing :=
      { sessions := [], rejectedSessions := [], failures := [], global := .default }
    let global := (preparedArrived.foldl consumePrepared start).global
    let gathered := arrived.foldl (consumeReplyWith generation (.addBy scores))
      (.new window, failedArrived)
    let reply := mergedReply generation request gathered.1 gathered.2
    (global.Totals (prepared.filterMap statisticsOf) ∧
      global = (prepared.foldl consumePrepared start).global) ∧
    reply.hits = ((sortHits scores (contributedHits generation replies)).drop
      request.offset.toNat).take request.limit.toNat ∧
    reply.totalHits = saturatingTotal ((replies.filterMap (mergedOf generation)).map
      fun merged ↦ merged.2.totalHits) ∧
    (reply.failedPartitions.Pairwise fun left right ↦ left.partition < right.partition) ∧
    reply.failedPartitions = sortFailures (failed ++ replies.filterMap (failureOf generation)) := by
  intro start global gathered reply
  have hglobal : global = ((preparedArrived.filterMap statisticsOf)).foldl ShardStatistics.merge
      .default := global_foldl_consumePrepared preparedArrived start
  have hexpected : (prepared.foldl consumePrepared start).global =
      ((prepared.filterMap statisticsOf)).foldl ShardStatistics.merge .default :=
    global_foldl_consumePrepared prepared start
  have hsame : global = (prepared.foldl consumePrepared start).global := by
    rw [hglobal, hexpected]
    exact (ShardStatistics.totals_foldl_merge _).eq_of_perm (ShardStatistics.totals_foldl_merge _)
      (hprepared.filterMap statisticsOf)
  have hreply : reply = mergedReply generation request
      { window := window.toNat
        totalHits := saturatingTotal ((replies.filterMap (mergedOf generation)).map
          fun merged ↦ merged.2.totalHits)
        hits := (sortHits scores (contributedHits generation replies)).take window.toNat }
      (failedArrived ++ arrived.filterMap (failureOf generation)) := by
    change mergedReply generation request gathered.1 gathered.2 = _
    rw [show gathered = _ from
      gathered_eq scores generation window harrived hdistinct failedArrived]
  have hfailures : (failed ++ replies.filterMap (failureOf generation)).map (·.partition) =
      failed.map (·.partition) ++ (replies.filterMap (failureOf generation)).map (·.partition) :=
    List.map_append
  obtain ⟨hsort, hascending⟩ := sortFailures_eq
    (hfailed.append (harrived.filterMap (failureOf generation)))
    (hfailures ▸ honce.sublist ((map_partition_failureOf generation replies).append_left _))
  have hlisted : reply.failedPartitions =
      sortFailures (failed ++ replies.filterMap (failureOf generation)) := by
    rw [hreply]
    exact hsort
  refine ⟨⟨?_, hsame⟩, ?_, ?_, ?_, hlisted⟩
  · rw [hsame, hexpected]
    exact ShardStatistics.totals_foldl_merge _
  · have hhits : reply.hits = (((sortHits scores (contributedHits generation replies)).take
        window.toNat).drop request.offset.toNat).take request.limit.toNat := by rw [hreply]; rfl
    rw [hhits, hwindow, List.drop_take, List.take_take, Nat.add_sub_cancel_left, Nat.min_self]
  · rw [hreply]
    rfl
  · rw [hlisted]
    exact hascending

/-- A reply with one hit, of a partition. -/
def hitReply (partition : UInt16) (score : Option UInt32) : SearchReply :=
  { sampleReply with
    hits := [⟨partition, [107], 1, score, [], []⟩], totalHits := UInt64.ofNat (UInt64.size - 1) }

/-- Two partitions report statistics out of order, one with a field twice. They answer and a third
one fails; the page is the better hit, and the total saturates. -/
theorem search_merge_order_independent_three :
    let start : Preparing :=
      { sessions := [], rejectedSessions := [], failures := [], global := .default }
    let prepared : List (Contribution ShardPrepared) :=
      [.value 0 ⟨⟨1, 1⟩, 0, ⟨2, [("title", 3), ("body", 4), ("title", 5)], [([9], 1), ([8], 1)]⟩⟩,
        .value 1 ⟨⟨1, 2⟩, 0, ⟨1, [("title", 1), ("body", 2)], [([9], 1)]⟩⟩]
    let global := (prepared.reverse.foldl consumePrepared start).global
    let replies : List (Contribution SearchReply) :=
      [.value 0 (hitReply 0 none), .value 1 (hitReply 1 (some 5)), .failed ⟨2, "down"⟩]
    let request := { sampleRequest true with limit := 1 }
    let gathered := replies.reverse.foldl (consumeReplyWith sampleGeneration (.addBy totalCmp))
      (.new 1, [])
    let reply := mergedReply sampleGeneration request gathered.1 gathered.2
    global = ⟨3, [("body", 6), ("title", 9)], [([8], 1), ([9], 2)]⟩ ∧
      reply.hits = [⟨1, [107], 1, some 5, [], []⟩] ∧
      reply.totalHits = UInt64.ofNat (UInt64.size - 1) ∧
      reply.failedPartitions = [⟨2, "down"⟩] := by
  intro start prepared global replies request gathered reply
  obtain ⟨⟨-, hglobal⟩, hhits, htotal, -, hfailed⟩ :=
    search_merge_order_independent totalCmp sampleGeneration request
      (show (1 : UInt32).toNat = _ by decide) (List.reverse_perm prepared)
      (List.reverse_perm replies) (List.Perm.refl []) (by decide) (by decide +kernel)
  have hcontributed : contributedHits sampleGeneration replies =
      [⟨0, [107], 1, none, [], []⟩, ⟨1, [107], 1, some 5, [], []⟩] := by decide +kernel
  have hsorted : sortHits totalCmp (contributedHits sampleGeneration replies) =
      [⟨1, [107], 1, some 5, [], []⟩, ⟨0, [107], 1, none, [], []⟩] := by
    rw [hcontributed, sortHits, mergeSort_eq_of_perm (ranked_trans totalCmp) (ranked_total totalCmp)
      (separates_hits totalCmp (by decide)) (List.Perm.swap _ _ []),
      List.mergeSort_of_pairwise (by decide)]
  refine ⟨hglobal.trans (by decide +kernel), ?_, htotal.trans (by decide +kernel),
    hfailed.trans (List.mergeSort_singleton _)⟩
  rw [hhits, hsorted]
  rfl

end DalService.Search
