import DalService.Search.Query

/-!
# The search coordinator

`search/coordinator.rs`: a search asks every partition, in one round trip or in two phases, and
merges the replies. What the shards do is a `Phase` for each round: the calls that were answered, in
the order the answers came, and whether the deadline expired before all of them were. A search hands
sessions back with `release_all`; its budget of time does not change which sessions it is given.

What one round contributes is a list with one contribution for each partition asked
(`perm_contributions`), and each consumer splits that list into what it keeps and its failures
(`perm_filterMap`). The account over a whole search is `search_accounting`; a strict search that
fails in its first phase ends without a merge, and a healthy partition is then in neither list
(`prepared_but_not_merged`).
-/

set_option autoImplicit false

namespace DalService.Search

open Foundation

/-! ### One round -/

/-- What the shards did in one round: the answers in the order they came, and whether the deadline
expired before the last. -/
structure Phase (T : Type) where
  answers : List (UInt16 × Result T)
  expired : Bool

/-- A call is answered at most once, and only calls that were made are; without an expired deadline
all of them are. -/
structure Phase.Covers {T : Type} (phase : Phase T) (asked : List UInt16) : Prop where
  nodup : (phase.answers.map Prod.fst).Nodup
  subset : phase.answers.map Prod.fst ⊆ asked
  complete : phase.expired = false → asked ⊆ phase.answers.map Prod.fst

/-- What one partition contributed to a round. -/
inductive Contribution (T : Type)
  | value (partition : UInt16) (value : T)
  | failed (failure : PartitionFailure)

/-- The longest text of whole characters within a number of bytes. -/
def takeBytes (limit : ℕ) : List Char → List Char
  | [] => []
  | character :: rest =>
    if character.utf8Size ≤ limit then character :: takeBytes (limit - character.utf8Size) rest
    else []

def boundedFailureReason (reason : String) : String :=
  if reason.utf8ByteSize ≤ SEARCH_MAX_FAILURE_REASON_BYTES then reason
  else String.ofList (takeBytes (SEARCH_MAX_FAILURE_REASON_BYTES - 3) reason.toList) ++ "..."

section Round

variable {T A : Type}

def Contribution.partition : Contribution T → UInt16
  | .value partition _ => partition
  | .failed failure => failure.partition

def Contribution.ofAnswer (answer : UInt16 × Result T) : Contribution T :=
  match answer.2 with
  | .ok found => .value answer.1 found
  | .error error =>
    .failed { partition := answer.1, reason := boundedFailureReason error.text }

/-- The calls that were not answered, in the order of their partitions. -/
def Phase.outstanding (phase : Phase T) (asked : List UInt16) : List UInt16 :=
  (asked.dedup.filter fun partition ↦ partition ∉ phase.answers.map Prod.fst).mergeSort

/-- What the partitions asked contributed: answers as they came, and then the calls that ran out of
time. -/
def Phase.contributions (phase : Phase T) (asked : List UInt16) : List (Contribution T) :=
  phase.answers.map Contribution.ofAnswer ++
    if phase.expired then (phase.outstanding asked).map fun partition ↦
      .failed { partition := partition, reason := "search deadline exceeded" }
    else []

def fanOutOver (asked : List UInt16) (phase : Phase T) (state : A)
    (consume : A → Contribution T → A) : A :=
  (phase.contributions asked).foldl consume state

end Round

/-! ### Merging replies -/

structure ReplyAccumulator where
  window : ℕ
  totalHits : UInt64
  hits : List SearchHit

namespace ReplyAccumulator

def new (window : UInt32) : ReplyAccumulator where
  window := window.toNat
  totalHits := 0
  hits := []

/-- Keep the best hits of the window. -/
def add (replies : ReplyAccumulator) (reply : SearchReply) : ReplyAccumulator :=
  { replies with
    totalHits := saturatingSum replies.totalHits reply.totalHits
    hits := ((replies.hits ++ reply.hits).mergeSort fun left right ↦ hitOrder left right ≠ .gt).take
      replies.window }

end ReplyAccumulator

/-- The replies of the partitions, one added after the other. -/
def gather (window : UInt32) (contributed : List (UInt16 × SearchReply)) : ReplyAccumulator :=
  contributed.foldl (fun replies merged ↦ replies.add merged.2) (.new window)

def checkIdentity (generation : SearchIndexGeneration) (partition : UInt16) (reply : SearchReply) :
    Except PartitionFailure Unit :=
  if reply.generation = generation.id ∧ reply.definitionHash = generation.definitionHash then .ok ()
  else .error { partition := partition, reason := "shard index identity mismatch" }

/-- Take a reply in, or the failure of its partition. -/
def consumeReply (generation : SearchIndexGeneration)
    (state : ReplyAccumulator × List PartitionFailure) :
    Contribution SearchReply → ReplyAccumulator × List PartitionFailure
  | .value partition reply =>
    match checkIdentity generation partition reply with
    | .ok () => (state.1.add reply, state.2)
    | .error failure => (state.1, state.2 ++ [failure])
  | .failed failure => (state.1, state.2 ++ [failure])

/-- The sessions of the first phase: to be executed, and rejected for their statistics. -/
structure Preparing where
  sessions : List (UInt16 × SearchSessionId)
  rejectedSessions : List (UInt16 × SearchSessionId)
  failures : List PartitionFailure
  global : ShardStatistics

def consumePrepared (state : Preparing) : Contribution ShardPrepared → Preparing
  | .value partition prepared =>
    match prepared.statistics.validate with
    | .error error =>
      { state with
        rejectedSessions := state.rejectedSessions ++ [(partition, prepared.sessionId)]
        failures := state.failures ++
          [{ partition := partition, reason := boundedFailureReason error.text }] }
    | .ok () =>
      { state with
        global := state.global.merge prepared.statistics
        sessions := state.sessions ++ [(partition, prepared.sessionId)] }
  | .failed failure => { state with failures := state.failures ++ [failure] }

/-- As `consumeReply`, and the partitions whose session may still be held. -/
def consumeExecuted (generation : SearchIndexGeneration)
    (state : (ReplyAccumulator × List PartitionFailure) × List UInt16)
    (contribution : Contribution SearchReply) :
    (ReplyAccumulator × List PartitionFailure) × List UInt16 :=
  (consumeReply generation state.1 contribution,
    match contribution with
    | .value _ _ => state.2
    | .failed failure => failure.partition :: state.2)

/-! ### The search -/

/-- What the shards do in each round, for the requests they are sent. -/
structure Shards where
  search : SearchRequest → Phase SearchReply
  prepare : ShardPrepareRequest → Phase ShardPrepared
  execute : List (UInt16 × ShardExecuteRequest) → Phase SearchReply

/-- The partitions of a search. -/
def allPartitions (partitions : UInt16) : List UInt16 :=
  (List.range partitions.toNat).map UInt16.ofNat

/-- What a search answers, the sessions it handed to `release_all`, and what it sent in its second
phase. -/
structure Outcome (A : Type) where
  result : Result A
  released : List (UInt16 × SearchSessionId)
  executed : List (UInt16 × ShardExecuteRequest)

section Search

variable (prims : Primitives) (partitions : UInt16) (shards : Shards)
  (generation : SearchIndexGeneration) (request : SearchRequest)

/-- The text of the failures in an error. -/
def failuresText (failures : List PartitionFailure) : String :=
  "[" ++ ", ".intercalate (failures.map fun failure ↦
    "PartitionFailure \x7b partition: " ++ toString failure.partition.toNat ++ ", reason: " ++
      prims.debugText failure.reason ++ " \x7d") ++ "]"

/-- The failures by partition. -/
def sortFailures (failures : List PartitionFailure) : List PartitionFailure :=
  failures.mergeSort fun left right ↦ left.partition ≤ right.partition

def shardFailure (failures : List PartitionFailure) : Error :=
  .search (toString failures.length ++ " of " ++ toString partitions.toNat ++
    " partitions failed: " ++ failuresText prims (sortFailures failures))

def shardRequest (window : UInt32) : SearchRequest :=
  { request with generation := .exact generation.id, offset := 0, limit := window }

def fanOutOneShot (window : UInt32) : ReplyAccumulator × List PartitionFailure :=
  fanOutOver (allPartitions partitions) (shards.search (shardRequest generation request window))
    (ReplyAccumulator.new window, []) (consumeReply generation)

def prepareRequest (window : UInt32) : ShardPrepareRequest where
  index := request.index
  generation := generation.id
  definitionHash := generation.definitionHash
  query := request.query
  consistency := request.consistency
  window := window

/-- The first phase. -/
def prepareAll (window : UInt32) : Preparing :=
  fanOutOver (allPartitions partitions) (shards.prepare (prepareRequest generation request window))
    { sessions := [], rejectedSessions := [], failures := [], global := .default } consumePrepared

/-- The requests of the second phase: all with the same statistics. -/
def executeRequests (prepared : Preparing) : List (UInt16 × ShardExecuteRequest) :=
  prepared.sessions.map fun session ↦
    (session.1, { sessionId := session.2, statistics := prepared.global })

/-- The second phase. -/
def executeAll (window : UInt32) (prepared : Preparing) :
    (ReplyAccumulator × List PartitionFailure) × List UInt16 :=
  fanOutOver (prepared.sessions.map Prod.fst) (shards.execute (executeRequests prepared))
    ((ReplyAccumulator.new window, prepared.failures), []) (consumeExecuted generation)

def fanOutTwoPhase (window : UInt32) : Outcome (ReplyAccumulator × List PartitionFailure) :=
  let prepared := prepareAll partitions shards generation request window
  if prepared.failures ≠ [] ∧ ¬request.allowPartial then
    { result := .error (shardFailure prims partitions prepared.failures)
      released := prepared.rejectedSessions ++ prepared.sessions
      executed := [] }
  else
    let executed := executeAll shards generation window prepared
    let leftover := prepared.sessions.filter fun session ↦ session.1 ∈ executed.2
    { result := .ok executed.1
      released := prepared.rejectedSessions ++ leftover
      executed := executeRequests prepared }

/-- The reply of the merged hits. -/
def mergedReply (replies : ReplyAccumulator) (failures : List PartitionFailure) : SearchReply where
  generation := generation.id
  definitionHash := generation.definitionHash
  hits := (replies.hits.drop request.offset.toNat).take request.limit.toNat
  totalHits := replies.totalHits
  isPartial := !failures.isEmpty
  failedPartitions := sortFailures failures

def merge (replies : ReplyAccumulator) (failures : List PartitionFailure) : Result SearchReply := do
  throwIf (failures ≠ [] ∧ ¬request.allowPartial) (shardFailure prims partitions failures)
  let reply := mergedReply generation request replies failures
  reply.validateWireSize
  return reply

/-- The checks of a request, and the window every shard has to offer. -/
def validateRequest : Result UInt32 := do
  generation.validateIdentity prims
  throwIf (request.deadlineMs = 0 ∨ 60000 < request.deadlineMs)
    (.search "deadline_ms must be in 1..=60000")
  throwIf (¬request.sort.isEmpty) (.search "field sorting is not implemented")
  request.query.validate prims
  throwIf (SEARCH_MAX_LIMIT < request.limit ∨
      SEARCH_MAX_WINDOW.toNat < request.offset.toNat + request.limit.toNat)
    (.search ("search page exceeds limit " ++ toString SEARCH_MAX_LIMIT.toNat ++
      " or result window " ++ toString SEARCH_MAX_WINDOW.toNat))
  return request.offset + request.limit

def searchUntil : Outcome SearchReply :=
  match validateRequest prims generation request with
  | .error error => { result := .error error, released := [], executed := [] }
  | .ok window =>
    match request.scoring with
    | .localBm25 =>
      let gathered := fanOutOneShot partitions shards generation request window
      { result := merge prims partitions generation request gathered.1 gathered.2
        released := []
        executed := [] }
    | .globalBm25 =>
      let outcome := fanOutTwoPhase prims partitions shards generation request window
      { outcome with
        result := outcome.result.bind fun gathered ↦
          merge prims partitions generation request gathered.1 gathered.2 }

end Search

/-! ### The account of one round -/

section Account

variable {T A B : Type}

/-- Assumes: the calls that were made are covered. Each partition asked contributed once. -/
theorem perm_contributions {phase : Phase T} {asked : List UInt16} (h : phase.Covers asked)
    (hasked : asked.Nodup) :
    ((phase.contributions asked).map Contribution.partition).Perm asked := by
  have hanswers : (phase.answers.map Contribution.ofAnswer).map Contribution.partition =
      phase.answers.map Prod.fst := by
    rw [List.map_map]
    refine List.map_congr_left fun answer _ ↦ ?_
    obtain ⟨partition, value | error⟩ := answer <;> rfl
  have hsplit : (phase.answers.map Prod.fst ++ phase.outstanding asked).Perm asked := by
    refine (List.perm_ext_iff_of_nodup ?_ hasked).mpr fun partition ↦ ?_
    · refine List.nodup_append.mpr ⟨h.nodup, ?_, ?_⟩
      · exact (List.mergeSort_perm _ _).nodup_iff.mpr ((List.nodup_dedup asked).filter _)
      · rintro partition hanswered other hother rfl
        rw [Phase.outstanding, List.mem_mergeSort, List.mem_filter] at hother
        exact of_decide_eq_true hother.2 hanswered
    · rw [List.mem_append, Phase.outstanding, List.mem_mergeSort, List.mem_filter, List.mem_dedup,
        decide_eq_true_iff]
      constructor
      · rintro (hanswered | houtstanding)
        · exact h.subset hanswered
        · exact houtstanding.1
      · intro hmem
        by_cases hanswered : partition ∈ phase.answers.map Prod.fst
        · exact .inl hanswered
        · exact .inr ⟨hmem, hanswered⟩
  rw [Phase.contributions, List.map_append, hanswers]
  cases hexpired : phase.expired with
  | true =>
    rw [if_pos rfl, List.map_map]
    exact (List.map_id (phase.outstanding asked)).symm ▸ hsplit
  | false =>
    rw [if_neg Bool.false_ne_true, List.map_nil, List.append_nil]
    exact (List.perm_ext_iff_of_nodup h.nodup hasked).mpr fun partition ↦
      ⟨fun hmem ↦ h.subset hmem, fun hmem ↦ h.complete hexpired hmem⟩

/-- Each element goes to one of two lists: together they have the keys of all. -/
theorem perm_filterMap {C K : Type} {kept : C → Option A} {lost : C → Option B} {key : C → K}
    (keptKey : A → K) (lostKey : B → K)
    (h : ∀ c, (∃ a, kept c = some a ∧ lost c = none ∧ keptKey a = key c) ∨
      (∃ b, kept c = none ∧ lost c = some b ∧ lostKey b = key c)) (list : List C) :
    ((list.filterMap kept).map keptKey ++ (list.filterMap lost).map lostKey).Perm
      (list.map key) := by
  induction list with
  | nil => exact .nil
  | cons c list ih =>
    rcases h c with ⟨a, hkept, hlost, hkey⟩ | ⟨b, hkept, hlost, hkey⟩
    · rw [List.filterMap_cons_some hkept, List.filterMap_cons_none hlost, List.map_cons,
        List.map_cons, List.cons_append, hkey]
      exact ih.cons _
    · rw [List.filterMap_cons_none hkept, List.filterMap_cons_some hlost, List.map_cons,
        List.map_cons, hkey]
      exact List.perm_middle.trans (ih.cons _)

/-- A value that a partition contributed is what it answered. -/
theorem value_mem_contributions {phase : Phase T} {asked : List UInt16} {partition : UInt16}
    {value : T} :
    .value partition value ∈ phase.contributions asked ↔
      (partition, .ok value) ∈ phase.answers := by
  have houtstanding : Contribution.value partition value ∉ (if phase.expired then
      (phase.outstanding asked).map fun partition ↦
        Contribution.failed { partition := partition, reason := "search deadline exceeded" }
      else []) := by
    split_ifs with hexpired
    · rw [List.mem_map]
      rintro ⟨other, -, hother⟩
      cases hother
    · exact List.not_mem_nil
  rw [Phase.contributions, List.mem_append, or_iff_left houtstanding, List.mem_map]
  constructor
  · rintro ⟨⟨other, found | error⟩, hanswer, hvalue⟩
    · cases hvalue
    · cases hvalue
      exact hanswer
  · exact fun hanswer ↦ ⟨_, hanswer, rfl⟩

/-- Assumes: the calls that were made are covered. A partition that was asked answered with a value,
or failed, and not both. -/
theorem value_xor_failed {phase : Phase T} {asked : List UInt16} (h : phase.Covers asked)
    (hasked : asked.Nodup) {partition : UInt16} (hpartition : partition ∈ asked) :
    Xor (∃ value, (partition, .ok value) ∈ phase.answers)
      (∃ failure, .failed failure ∈ phase.contributions asked ∧ failure.partition = partition) := by
  have hperm := perm_contributions h hasked
  have hunique {first second : Contribution T} (hfirst : first ∈ phase.contributions asked)
      (hsecond : second ∈ phase.contributions asked) (hsame : first.partition = second.partition) :
      first = second :=
    List.inj_on_of_nodup_map (hperm.nodup_iff.mpr hasked) hfirst hsecond hsame
  obtain ⟨contribution, hcontribution, hsame⟩ := List.mem_map.mp (hperm.mem_iff.mpr hpartition)
  cases contribution with
  | value other value =>
    obtain rfl : other = partition := hsame
    refine .inl ⟨⟨value, value_mem_contributions.mp hcontribution⟩, ?_⟩
    rintro ⟨failure, hfailure, hfailed⟩
    cases hunique hcontribution hfailure hfailed.symm
  | failed failure =>
    refine .inr ⟨⟨failure, hcontribution, hsame⟩, ?_⟩
    rintro ⟨value, hvalue⟩
    cases hunique hcontribution (value_mem_contributions.mpr hvalue) hsame

end Account

/-- A reply that is merged. -/
def mergedOf (generation : SearchIndexGeneration) :
    Contribution SearchReply → Option (UInt16 × SearchReply)
  | .value partition reply =>
    match checkIdentity generation partition reply with
    | .ok () => some (partition, reply)
    | .error _ => none
  | .failed _ => none

/-- The failure of a partition in the round that asks for replies. -/
def failureOf (generation : SearchIndexGeneration) :
    Contribution SearchReply → Option PartitionFailure
  | .value partition reply =>
    match checkIdentity generation partition reply with
    | .ok () => none
    | .error failure => some failure
  | .failed failure => some failure

variable {generation : SearchIndexGeneration}

theorem mergedOf_or_failureOf (contribution : Contribution SearchReply) :
    (∃ merged, mergedOf generation contribution = some merged ∧
      failureOf generation contribution = none ∧ merged.1 = contribution.partition) ∨
    (∃ failure, mergedOf generation contribution = none ∧
      failureOf generation contribution = some failure ∧
      failure.partition = contribution.partition) := by
  cases contribution with
  | failed failure => exact .inr ⟨failure, rfl, rfl, rfl⟩
  | value partition reply =>
    by_cases hidentity : reply.generation = generation.id ∧
        reply.definitionHash = generation.definitionHash
    · refine .inl ⟨(partition, reply), ?_, ?_, rfl⟩ <;>
        simp [mergedOf, failureOf, checkIdentity, hidentity]
    · refine .inr ⟨⟨partition, "shard index identity mismatch"⟩, ?_, ?_, rfl⟩ <;>
        simp [mergedOf, failureOf, checkIdentity, hidentity]

/-- The replies merged are those that a partition answered with the identity of the generation. -/
theorem mem_filterMap_mergedOf_iff {phase : Phase SearchReply} {asked : List UInt16}
    {merged : UInt16 × SearchReply} :
    merged ∈ (phase.contributions asked).filterMap (mergedOf generation) ↔
      checkIdentity generation merged.1 merged.2 = .ok () ∧
        (merged.1, .ok merged.2) ∈ phase.answers := by
  rw [List.mem_filterMap]
  constructor
  · rintro ⟨contribution, hcontribution, hmerged⟩
    cases contribution with
    | failed => cases hmerged
    | value partition reply =>
      cases hidentity : checkIdentity generation partition reply with
      | ok =>
        simp only [mergedOf, hidentity, Option.some.injEq] at hmerged
        subst hmerged
        exact ⟨hidentity, value_mem_contributions.mp hcontribution⟩
      | error => simp [mergedOf, hidentity] at hmerged
  · rintro ⟨hidentity, hanswer⟩
    exact ⟨_, value_mem_contributions.mpr hanswer, by simp [mergedOf, hidentity]⟩

variable (generation) in
/-- `consumeReply`, for any way of adding a reply. -/
def consumeReplyWith (add : ReplyAccumulator → SearchReply → ReplyAccumulator)
    (state : ReplyAccumulator × List PartitionFailure) :
    Contribution SearchReply → ReplyAccumulator × List PartitionFailure
  | .value partition reply =>
    match checkIdentity generation partition reply with
    | .ok () => (add state.1 reply, state.2)
    | .error failure => (state.1, state.2 ++ [failure])
  | .failed failure => (state.1, state.2 ++ [failure])

theorem consumeReplyWith_add : consumeReplyWith generation .add = consumeReply generation := by
  funext state contribution
  cases contribution <;> rfl

/-- The replies added in one round, and the failures after it. -/
theorem foldl_consumeReplyWith (add : ReplyAccumulator → SearchReply → ReplyAccumulator)
    (contributions : List (Contribution SearchReply))
    (state : ReplyAccumulator × List PartitionFailure) :
    contributions.foldl (consumeReplyWith generation add) state =
      ((contributions.filterMap (mergedOf generation)).foldl
          (fun replies merged ↦ add replies merged.2) state.1,
        state.2 ++ contributions.filterMap (failureOf generation)) := by
  induction contributions generalizing state with
  | nil => simp
  | cons contribution contributions ih =>
    rw [List.foldl_cons, ih, List.filterMap_cons, List.filterMap_cons]
    cases contribution with
    | failed failure => simp [consumeReplyWith, mergedOf, failureOf]
    | value partition reply =>
      cases hidentity : checkIdentity generation partition reply with
      | ok => simp [consumeReplyWith, mergedOf, failureOf, hidentity]
      | error failure => simp [consumeReplyWith, mergedOf, failureOf, hidentity]

/-- The replies merged in one round, and the failures after it. -/
theorem foldl_consumeReply (contributions : List (Contribution SearchReply))
    (state : ReplyAccumulator × List PartitionFailure) :
    contributions.foldl (consumeReply generation) state =
      ((contributions.filterMap (mergedOf generation)).foldl
          (fun replies merged ↦ replies.add merged.2) state.1,
        state.2 ++ contributions.filterMap (failureOf generation)) := by
  rw [← consumeReplyWith_add]
  exact foldl_consumeReplyWith .add contributions state

variable (generation) in
theorem foldl_consumeExecuted (contributions : List (Contribution SearchReply))
    (state : (ReplyAccumulator × List PartitionFailure) × List UInt16) :
    (contributions.foldl (consumeExecuted generation) state).1 =
        contributions.foldl (consumeReply generation) state.1 ∧
      ∀ partition, partition ∈ (contributions.foldl (consumeExecuted generation) state).2 ↔
        partition ∈ state.2 ∨ ∃ failure, .failed failure ∈ contributions ∧
          failure.partition = partition := by
  induction contributions generalizing state with
  | nil => simp
  | cons contribution contributions ih =>
    obtain ⟨hreplies, hfailed⟩ := ih (consumeExecuted generation state contribution)
    refine ⟨hreplies, fun partition ↦ ?_⟩
    rw [List.foldl_cons, hfailed]
    cases contribution with
    | value other reply => simp [consumeExecuted]
    | failed failure =>
      simp only [consumeExecuted, List.mem_cons, Contribution.failed.injEq]
      constructor
      · rintro ((rfl | hbefore) | ⟨other, hother, hpartition⟩)
        · exact .inr ⟨failure, .inl rfl, rfl⟩
        · exact .inl hbefore
        · exact .inr ⟨other, .inr hother, hpartition⟩
      · rintro (hbefore | ⟨other, rfl | hother, hpartition⟩)
        · exact .inl (.inr hbefore)
        · exact .inl (.inl hpartition.symm)
        · exact .inr ⟨other, hother, hpartition⟩

/-! ### The account of the first phase -/

/-- A session that is executed. -/
def sessionOf : Contribution ShardPrepared → Option (UInt16 × SearchSessionId)
  | .value partition prepared =>
    match prepared.statistics.validate with
    | .ok () => some (partition, prepared.sessionId)
    | .error _ => none
  | .failed _ => none

/-- A session that is rejected. -/
def rejectedOf : Contribution ShardPrepared → Option (UInt16 × SearchSessionId)
  | .value partition prepared =>
    match prepared.statistics.validate with
    | .ok () => none
    | .error _ => some (partition, prepared.sessionId)
  | .failed _ => none

def prepareFailureOf : Contribution ShardPrepared → Option PartitionFailure
  | .value partition prepared =>
    match prepared.statistics.validate with
    | .ok () => none
    | .error error => some { partition := partition, reason := boundedFailureReason error.text }
  | .failed failure => some failure

theorem sessionOf_or_prepareFailureOf (contribution : Contribution ShardPrepared) :
    (∃ session, sessionOf contribution = some session ∧ prepareFailureOf contribution = none ∧
      session.1 = contribution.partition) ∨
    (∃ failure, sessionOf contribution = none ∧ prepareFailureOf contribution = some failure ∧
      failure.partition = contribution.partition) := by
  cases contribution with
  | failed failure => exact .inr ⟨failure, rfl, rfl, rfl⟩
  | value partition prepared =>
    cases hvalid : prepared.statistics.validate with
    | ok =>
      refine .inl ⟨(partition, prepared.sessionId), ?_, ?_, rfl⟩ <;>
        simp [sessionOf, prepareFailureOf, hvalid]
    | error error =>
      refine .inr ⟨⟨partition, boundedFailureReason error.text⟩, ?_, ?_, rfl⟩ <;>
        simp [sessionOf, prepareFailureOf, hvalid]

theorem foldl_consumePrepared (contributions : List (Contribution ShardPrepared))
    (state : Preparing) :
    (contributions.foldl consumePrepared state).sessions =
        state.sessions ++ contributions.filterMap sessionOf ∧
      (contributions.foldl consumePrepared state).rejectedSessions =
        state.rejectedSessions ++ contributions.filterMap rejectedOf ∧
      (contributions.foldl consumePrepared state).failures =
        state.failures ++ contributions.filterMap prepareFailureOf := by
  induction contributions generalizing state with
  | nil => simp
  | cons contribution contributions ih =>
    obtain ⟨hsessions, hrejected, hfailures⟩ := ih (consumePrepared state contribution)
    rw [List.foldl_cons, hsessions, hrejected, hfailures, List.filterMap_cons, List.filterMap_cons,
      List.filterMap_cons]
    cases contribution with
    | failed failure => simp [consumePrepared, sessionOf, rejectedOf, prepareFailureOf]
    | value partition prepared =>
      cases hvalid : prepared.statistics.validate with
      | ok => simp [consumePrepared, sessionOf, rejectedOf, prepareFailureOf, hvalid]
      | error error => simp [consumePrepared, sessionOf, rejectedOf, prepareFailureOf, hvalid]

theorem nodup_allPartitions (partitions : UInt16) : (allPartitions partitions).Nodup := by
  refine List.Nodup.map_on (fun first hfirst second hsecond h ↦ ?_) List.nodup_range
  have hlt (index : ℕ) (hindex : index ∈ List.range partitions.toNat) : index < 2 ^ 16 :=
    (List.mem_range.mp hindex).trans partitions.toNat_lt
  have hnat := congrArg UInt16.toNat h
  rwa [UInt16.toNat_ofNat_of_lt' (hlt first hfirst), UInt16.toNat_ofNat_of_lt' (hlt second hsecond)]
    at hnat

/-- What the calls of each round answer. -/
structure Shards.Covers (shards : Shards) (partitions : UInt16) : Prop where
  search : ∀ request, (shards.search request).Covers (allPartitions partitions)
  prepare : ∀ request, (shards.prepare request).Covers (allPartitions partitions)
  execute : ∀ requests : List (UInt16 × ShardExecuteRequest), (requests.map Prod.fst).Nodup →
    (shards.execute requests).Covers (requests.map Prod.fst)

/-- The partition answered the first phase with a session whose statistics are valid. -/
def Prepared (phase : Phase ShardPrepared) (session : UInt16 × SearchSessionId) : Prop :=
  ∃ prepared, (session.1, .ok prepared) ∈ phase.answers ∧
    prepared.statistics.validate = .ok () ∧ prepared.sessionId = session.2

theorem mem_filterMap_sessionOf_iff {phase : Phase ShardPrepared} {asked : List UInt16}
    {session : UInt16 × SearchSessionId} :
    session ∈ (phase.contributions asked).filterMap sessionOf ↔ Prepared phase session := by
  rw [List.mem_filterMap]
  constructor
  · rintro ⟨contribution, hcontribution, hsession⟩
    cases contribution with
    | failed => cases hsession
    | value partition prepared =>
      cases hvalid : prepared.statistics.validate with
      | ok =>
        simp only [sessionOf, hvalid, Option.some.injEq] at hsession
        subst hsession
        exact ⟨prepared, value_mem_contributions.mp hcontribution, hvalid, rfl⟩
      | error => simp [sessionOf, hvalid] at hsession
  · rintro ⟨prepared, hanswer, hvalid, hsession⟩
    exact ⟨_, value_mem_contributions.mpr hanswer, by simp [sessionOf, hvalid, hsession]⟩

section FirstPhase

variable {partitions : UInt16} {shards : Shards} {request : SearchRequest} {window : UInt32}

variable (generation partitions shards request window) in
/-- What the first phase keeps of the contributions to it. -/
theorem prepareAll_eq :
    let preparing := prepareAll partitions shards generation request window
    let contributions := (shards.prepare (prepareRequest generation request window)).contributions
      (allPartitions partitions)
    preparing.sessions = contributions.filterMap sessionOf ∧
      preparing.rejectedSessions = contributions.filterMap rejectedOf ∧
      preparing.failures = contributions.filterMap prepareFailureOf :=
  foldl_consumePrepared _ ⟨[], [], [], .default⟩

variable (generation partitions shards request window) in
theorem mem_sessions_prepareAll_iff (session : UInt16 × SearchSessionId) :
    session ∈ (prepareAll partitions shards generation request window).sessions ↔
      Prepared (shards.prepare (prepareRequest generation request window)) session := by
  rw [(prepareAll_eq generation partitions shards request window).1]
  exact mem_filterMap_sessionOf_iff

variable (generation request window) in
/-- After the first phase each partition has a session or a failure. -/
theorem perm_prepareAll (hshards : shards.Covers partitions) :
    let preparing := prepareAll partitions shards generation request window
    (preparing.sessions.map Prod.fst ++ preparing.failures.map (·.partition)).Perm
      (allPartitions partitions) := by
  intro preparing
  obtain ⟨hsessions, -, hfailures⟩ := prepareAll_eq generation partitions shards request window
  rw [show preparing.sessions = _ from hsessions, show preparing.failures = _ from hfailures]
  exact (perm_filterMap Prod.fst PartitionFailure.partition sessionOf_or_prepareFailureOf _).trans
    (perm_contributions (hshards.prepare _) (nodup_allPartitions partitions))

variable (partitions) in
/-- A session that was received is executed or rejected, and a rejected one has a failure. -/
theorem received_prepareAll {partition : UInt16} {prepared : ShardPrepared}
    (h : (partition, .ok prepared) ∈
      (shards.prepare (prepareRequest generation request window)).answers) :
    let preparing := prepareAll partitions shards generation request window
    (partition, prepared.sessionId) ∈ preparing.sessions ∨
      ((partition, prepared.sessionId) ∈ preparing.rejectedSessions ∧
        partition ∈ preparing.failures.map (·.partition)) := by
  intro preparing
  obtain ⟨hsessions, hrejected, hfailures⟩ :=
    prepareAll_eq generation partitions shards request window
  have hmem : _ ∈ Phase.contributions _ (allPartitions partitions) :=
    value_mem_contributions.mpr h
  rw [show preparing.sessions = _ from hsessions,
    show preparing.rejectedSessions = _ from hrejected, show preparing.failures = _ from hfailures]
  cases hvalid : prepared.statistics.validate with
  | ok =>
    exact .inl (List.mem_filterMap.mpr ⟨_, hmem, by simp [sessionOf, hvalid]⟩)
  | error error =>
    refine .inr ⟨List.mem_filterMap.mpr ⟨_, hmem, by simp [rejectedOf, hvalid]⟩, ?_⟩
    exact List.mem_map.mpr ⟨⟨partition, boundedFailureReason error.text⟩,
      List.mem_filterMap.mpr ⟨_, hmem, by simp [prepareFailureOf, hvalid]⟩, rfl⟩

variable (partitions shards generation request window) in
/-- A rejected session is of a partition that failed. -/
theorem rejected_prepareAll (session : UInt16 × SearchSessionId)
    (h : session ∈ (prepareAll partitions shards generation request window).rejectedSessions) :
    session.1 ∈ (prepareAll partitions shards generation request window).failures.map
      (·.partition) := by
  obtain ⟨-, hrejected, hfailures⟩ := prepareAll_eq generation partitions shards request window
  rw [hrejected] at h
  rw [hfailures]
  obtain ⟨contribution, hcontribution, hsession⟩ := List.mem_filterMap.mp h
  cases contribution with
  | failed => cases hsession
  | value partition prepared =>
    cases hvalid : prepared.statistics.validate with
    | ok => simp [rejectedOf, hvalid] at hsession
    | error error =>
      simp only [rejectedOf, hvalid, Option.some.injEq] at hsession
      subst hsession
      exact List.mem_map.mpr ⟨⟨partition, boundedFailureReason error.text⟩,
        List.mem_filterMap.mpr ⟨_, hcontribution, by simp [prepareFailureOf, hvalid]⟩, rfl⟩

variable (generation request window) in
/-- A failure of the first phase is a partition without a valid session. -/
theorem failures_prepareAll_iff (hshards : shards.Covers partitions) :
    (prepareAll partitions shards generation request window).failures ≠ [] ↔
      ∃ partition ∈ allPartitions partitions, ∀ session,
        ¬Prepared (shards.prepare (prepareRequest generation request window))
          (partition, session) := by
  have hperm := perm_prepareAll generation request window hshards
  have hsessions := mem_sessions_prepareAll_iff generation partitions shards request window
  have hnodup := hperm.nodup_iff.mpr (nodup_allPartitions partitions)
  obtain ⟨-, -, hdisjoint⟩ := List.nodup_append.mp hnodup
  constructor
  · intro hfailures
    obtain ⟨failure, hfailure⟩ := List.exists_mem_of_ne_nil _ hfailures
    have hfailed := List.mem_map_of_mem (f := (·.partition)) hfailure
    refine ⟨failure.partition, hperm.mem_iff.mp (List.mem_append_right _ hfailed), ?_⟩
    intro session hprepared
    have hsession := List.mem_map_of_mem (f := Prod.fst) ((hsessions _).mpr hprepared)
    exact hdisjoint _ hsession _ hfailed rfl
  · rintro ⟨partition, hpartition, hnone⟩ hfailures
    dsimp only at hperm
    rw [hfailures, List.map_nil, List.append_nil] at hperm
    obtain ⟨session, hsession, rfl⟩ := List.mem_map.mp (hperm.mem_iff.mpr hpartition)
    exact hnone session.2 ((hsessions session).mp hsession)

end FirstPhase

/-! ### The account of the second phase -/

section SecondPhase

variable {partitions : UInt16} {shards : Shards} {request : SearchRequest} {window : UInt32}
  {prepared : Preparing}

theorem map_fst_executeRequests (prepared : Preparing) :
    (executeRequests prepared).map Prod.fst = prepared.sessions.map Prod.fst := by
  rw [executeRequests, List.map_map]
  rfl

theorem covers_execute (hshards : shards.Covers partitions)
    (hnodup : (prepared.sessions.map Prod.fst).Nodup) :
    (shards.execute (executeRequests prepared)).Covers (prepared.sessions.map Prod.fst) := by
  have hcovers := hshards.execute (executeRequests prepared)
  rw [map_fst_executeRequests] at hcovers
  exact hcovers hnodup

variable (generation window) in
/-- After the second phase each partition with a session has a reply or a failure, and the
partitions that failed before still do. -/
theorem executeAll_eq (hshards : shards.Covers partitions)
    (hnodup : (prepared.sessions.map Prod.fst).Nodup) :
    ∃ contributed : List (UInt16 × SearchReply), ∃ failures : List PartitionFailure,
      (executeAll shards generation window prepared).1 =
        (gather window contributed, prepared.failures ++ failures) ∧
      (contributed.map Prod.fst ++ failures.map (·.partition)).Perm
        (prepared.sessions.map Prod.fst) ∧
      ∀ merged, merged ∈ contributed ↔ checkIdentity generation merged.1 merged.2 = .ok () ∧
        (merged.1, .ok merged.2) ∈ (shards.execute (executeRequests prepared)).answers := by
  have hcovers := covers_execute hshards hnodup
  refine ⟨_, _, ((foldl_consumeExecuted _ _ _).1.trans (foldl_consumeReply _ _)), ?_, ?_⟩
  · exact (perm_filterMap Prod.fst PartitionFailure.partition mergedOf_or_failureOf _).trans
      (perm_contributions hcovers hnodup)
  · exact fun merged ↦ mem_filterMap_mergedOf_iff

/-- Assumes: a session that is executed. It gets a reply, or it is left over. -/
theorem replied_xor_leftover (hshards : shards.Covers partitions)
    (hnodup : (prepared.sessions.map Prod.fst).Nodup) {session : UInt16 × SearchSessionId}
    (hsession : session ∈ prepared.sessions) :
    Xor (∃ reply, (session.1, .ok reply) ∈ (shards.execute (executeRequests prepared)).answers)
      (session.1 ∈ (executeAll shards generation window prepared).2) := by
  have hasked : session.1 ∈ prepared.sessions.map Prod.fst := List.mem_map_of_mem hsession
  have hleft := (foldl_consumeExecuted generation
    ((shards.execute (executeRequests prepared)).contributions (prepared.sessions.map Prod.fst))
    ((ReplyAccumulator.new window, prepared.failures), [])).2 session.1
  rw [executeAll, fanOutOver, hleft, or_iff_right List.not_mem_nil]
  exact value_xor_failed (covers_execute hshards hnodup) hnodup hasked

end SecondPhase

/-! ### The account of a search -/

section Search

variable {prims : Primitives} {partitions : UInt16} {shards : Shards} {request : SearchRequest}
  {window : UInt32}

theorem merge_of_failures {replies : ReplyAccumulator} {failures : List PartitionFailure}
    (hfailures : failures ≠ []) (hstrict : request.allowPartial = false) :
    merge prims partitions generation request replies failures =
      .error (shardFailure prims partitions failures) := by
  have hcondition : failures ≠ [] ∧ ¬request.allowPartial := ⟨hfailures, by rw [hstrict]; decide⟩
  rw [merge, throwIf, if_pos hcondition]
  rfl

theorem budget_lt_of_merge_error {replies : ReplyAccumulator} {failures : List PartitionFailure}
    {error : Error} (hallow : request.allowPartial)
    (h : merge prims partitions generation request replies failures = .error error) :
    SEARCH_REPLY_BODY_BUDGET <
      Bincode.encodedLen (mergedReply generation request replies failures) := by
  by_contra hfits
  have hcondition : ¬(failures ≠ [] ∧ ¬request.allowPartial) := fun hboth ↦ hboth.2 hallow
  have hsize : (mergedReply generation request replies failures).validateWireSize = .ok () :=
    throwIf_of_not hfits
  have hmerge : merge prims partitions generation request replies failures =
      .ok (mergedReply generation request replies failures) := by
    simp only [merge, throwIf_of_not hcondition, ok_bind, hsize]
    rfl
  rw [hmerge] at h
  cases h

theorem merge_eq_ok {replies : ReplyAccumulator} {failures : List PartitionFailure}
    {reply : SearchReply}
    (h : merge prims partitions generation request replies failures = .ok reply) :
    reply = mergedReply generation request replies failures := by
  obtain ⟨_, -, hrest⟩ := bind_eq_ok_iff.mp h
  obtain ⟨_, -, hreply⟩ := bind_eq_ok_iff.mp hrest
  exact (Except.ok.inj hreply).symm

theorem searchUntil_local (hvalid : validateRequest prims generation request = .ok window)
    (hscoring : request.scoring = .localBm25) :
    searchUntil prims partitions shards generation request =
      { result := merge prims partitions generation request
          (fanOutOneShot partitions shards generation request window).1
          (fanOutOneShot partitions shards generation request window).2
        released := []
        executed := [] } := by
  rw [searchUntil, hvalid]
  dsimp only
  rw [hscoring]

variable (partitions shards) in
theorem searchUntil_global (hvalid : validateRequest prims generation request = .ok window)
    (hscoring : request.scoring = .globalBm25) :
    searchUntil prims partitions shards generation request =
      { fanOutTwoPhase prims partitions shards generation request window with
        result := (fanOutTwoPhase prims partitions shards generation request window).result.bind
          fun gathered ↦ merge prims partitions generation request gathered.1 gathered.2 } := by
  rw [searchUntil, hvalid]
  dsimp only
  rw [hscoring]

variable (generation request window) in
/-- A one-shot round has a merged reply or a failure of each partition. -/
theorem fanOutOneShot_eq (hshards : shards.Covers partitions) :
    ∃ contributed : List (UInt16 × SearchReply), ∃ failures : List PartitionFailure,
      fanOutOneShot partitions shards generation request window =
        (gather window contributed, failures) ∧
      (contributed.map Prod.fst ++ failures.map (·.partition)).Perm (allPartitions partitions) ∧
      ∀ merged, merged ∈ contributed ↔ checkIdentity generation merged.1 merged.2 = .ok () ∧
        (merged.1, .ok merged.2) ∈
          (shards.search (shardRequest generation request window)).answers :=
  ⟨_, _, foldl_consumeReply _ _,
    (perm_filterMap Prod.fst PartitionFailure.partition mergedOf_or_failureOf _).trans
      (perm_contributions (hshards.search _) (nodup_allPartitions partitions)),
    fun _ ↦ mem_filterMap_mergedOf_iff⟩

variable (prims partitions generation request) in
/-- What a merge answers for its failures. -/
theorem merge_account (replies : ReplyAccumulator) (failures : List PartitionFailure) :
    let result := merge prims partitions generation request replies failures
    (failures ≠ [] → request.allowPartial = false → ∃ error, result = .error error) ∧
    (request.allowPartial → ∀ error, result = .error error → SEARCH_REPLY_BODY_BUDGET <
      Bincode.encodedLen (mergedReply generation request replies failures)) ∧
    (∀ reply, result = .ok reply → reply.failedPartitions.Perm failures ∧
      (reply.isPartial ↔ reply.failedPartitions ≠ [])) := by
  refine ⟨fun hfailures hstrict ↦ ⟨_, merge_of_failures hfailures hstrict⟩,
    fun hallow error ↦ budget_lt_of_merge_error hallow, fun reply hreply ↦ ?_⟩
  rw [merge_eq_ok hreply]
  have hsort : (sortFailures failures).Perm failures := List.mergeSort_perm _ _
  refine ⟨hsort, ?_⟩
  change (!failures.isEmpty) = true ↔ sortFailures failures ≠ []
  rw [Bool.not_eq_true', List.isEmpty_eq_false_iff, Ne, Ne, ← List.length_eq_zero_iff,
    ← List.length_eq_zero_iff, hsort.length_eq]

/-- A session that the first phase received is executed and replied to, or released. -/
theorem replied_xor_released (hshards : shards.Covers partitions) {partition : UInt16}
    {prepared : ShardPrepared} (h : (partition, .ok prepared) ∈
      (shards.prepare (prepareRequest generation request window)).answers) :
    let outcome := fanOutTwoPhase prims partitions shards generation request window
    Xor (∃ reply, (partition, .ok reply) ∈ (shards.execute outcome.executed).answers)
      ((partition, prepared.sessionId) ∈ outcome.released) := by
  have hreceived := received_prepareAll partitions h
  have hperm := perm_prepareAll generation request window hshards
  have hrejected := rejected_prepareAll generation partitions shards request window
  dsimp only at hreceived hperm
  rw [fanOutTwoPhase]
  generalize prepareAll partitions shards generation request window = preparing
    at hreceived hperm hrejected
  have hnodup := hperm.nodup_iff.mpr (nodup_allPartitions partitions)
  obtain ⟨hsessions, -, hdisjoint⟩ := List.nodup_append.mp hnodup
  have hanswers := (covers_execute hshards hsessions).subset
  dsimp only
  split_ifs with hstrict
  -- A strict search that failed: nothing is executed, and every session is released.
  · refine .inr ⟨?_, ?_⟩
    · rcases hreceived with hsession | ⟨hsession, -⟩
      · exact List.mem_append_right _ hsession
      · exact List.mem_append_left _ hsession
    · rintro ⟨reply, hreply⟩
      have hnone := (hshards.execute [] List.nodup_nil).subset (List.mem_map_of_mem hreply)
      cases hnone
  · dsimp only
    rcases hreceived with hsession | ⟨hsession, hfailed⟩
    · have hreleased : (partition, prepared.sessionId) ∈ preparing.rejectedSessions ++
          preparing.sessions.filter (fun session ↦
            session.1 ∈ (executeAll shards generation window preparing).2) ↔
          partition ∈ (executeAll shards generation window preparing).2 := by
        rw [List.mem_append, List.mem_filter, decide_eq_true_iff]
        refine ⟨?_, fun hleft ↦ .inr ⟨hsession, hleft⟩⟩
        rintro (hrejects | ⟨-, hleft⟩)
        · exact absurd rfl (hdisjoint partition (List.mem_map_of_mem hsession) partition
            (hrejected _ hrejects))
        · exact hleft
      rw [hreleased]
      exact replied_xor_leftover hshards hsessions hsession
    · refine .inr ⟨List.mem_append_left _ hsession, ?_⟩
      rintro ⟨reply, hreply⟩
      exact hdisjoint partition (hanswers (List.mem_map_of_mem hreply)) partition hfailed rfl

/-- A strict global search in which some partition has no valid session after the first phase. -/
def FailsEarly (partitions : UInt16) (request : SearchRequest) (phase : Phase ShardPrepared) :
    Prop :=
  request.scoring = .globalBm25 ∧ request.allowPartial = false ∧
    ∃ partition ∈ allPartitions partitions, ∀ session, ¬Prepared phase (partition, session)

variable (generation prims window) in
/-- A global search fails after its first phase, or it has a merged reply or a failure of each
partition. -/
theorem fanOutTwoPhase_cases (hshards : shards.Covers partitions)
    (hscoring : request.scoring = .globalBm25) :
    let outcome := fanOutTwoPhase prims partitions shards generation request window
    let phase := shards.prepare (prepareRequest generation request window)
    (FailsEarly partitions request phase ∧
      ∃ (failures : List PartitionFailure) (sessions : List (UInt16 × SearchSessionId)),
        failures ≠ [] ∧ outcome.result = .error (shardFailure prims partitions failures) ∧
        outcome.executed = [] ∧ sessions ⊆ outcome.released ∧
        (∀ session, session ∈ sessions ↔ Prepared phase session) ∧
        (sessions.map Prod.fst ++ failures.map (·.partition)).Perm (allPartitions partitions)) ∨
    ¬FailsEarly partitions request phase ∧
      ∃ (contributed : List (UInt16 × SearchReply)) (failures : List PartitionFailure),
        outcome.result = .ok (gather window contributed, failures) ∧
        (∀ session, session ∈ outcome.executed.map (fun call ↦ (call.1, call.2.sessionId)) ↔
          Prepared phase session) ∧
        (contributed.map Prod.fst ++ failures.map (·.partition)).Perm (allPartitions partitions) ∧
        ∀ merged, merged ∈ contributed ↔ checkIdentity generation merged.1 merged.2 = .ok () ∧
          (merged.1, .ok merged.2) ∈ (shards.execute outcome.executed).answers := by
  have hperm := perm_prepareAll generation request window hshards
  have hfailures := failures_prepareAll_iff generation request window hshards
  have hprepared := mem_sessions_prepareAll_iff generation partitions shards request window
  dsimp only at hperm
  rw [fanOutTwoPhase]
  generalize prepareAll partitions shards generation request window = preparing
    at hperm hfailures hprepared
  have hnodup := hperm.nodup_iff.mpr (nodup_allPartitions partitions)
  dsimp only
  split_ifs with hstrict
  · exact .inl ⟨⟨hscoring, Bool.eq_false_iff.mpr hstrict.2, hfailures.mp hstrict.1⟩,
      preparing.failures, preparing.sessions, hstrict.1, rfl, rfl, List.subset_append_right _ _,
      hprepared, hperm⟩
  · obtain ⟨contributed, failures, hexecuted, hsessions, hanswered⟩ :=
      executeAll_eq generation window hshards (List.nodup_append.mp hnodup).1
    refine .inr ⟨fun hearly ↦ hstrict ⟨hfailures.mpr hearly.2.2, ?_⟩, contributed,
      preparing.failures ++ failures, ?_, fun session ↦ ?_, ?_, hanswered⟩
    · exact Bool.eq_false_iff.mp hearly.2.1
    · dsimp only
      rw [hexecuted]
    · rw [executeRequests, List.map_map]
      exact (List.map_id preparing.sessions).symm ▸ hprepared session
    -- The partitions of the sessions are split further; those of the first failures stay.
    · have hswap : (contributed.map Prod.fst ++
          (preparing.failures ++ failures).map (·.partition)).Perm
          ((contributed.map Prod.fst ++ failures.map (·.partition)) ++
            preparing.failures.map (·.partition)) := by
        rw [List.map_append, List.append_assoc]
        exact List.perm_append_comm.append_left _
      exact hswap.trans ((hsessions.append_right _).trans hperm)

/-- The shard answered the call for a session in the second phase. -/
def Replied (shards : Shards) {A : Type} (outcome : Outcome A) (partition : UInt16) : Prop :=
  ∃ reply, (partition, .ok reply) ∈ (shards.execute outcome.executed).answers

/-- In a search that passes its checks, whatever the shards do in each round and whenever the
deadline expires. A strict global search in which a partition has no valid session after the first
phase is the error of its failures: it asks for no replies, releases every valid session, and each
partition has one such session or one failure. Every other search reaches the merge: it has merged
one reply of a partition, the one answered in the last round with the identity of the generation, or
has one failure of it, never both; and a global one has asked for exactly the valid sessions. A
strict search with a failure is an error; a search that allows partial results is an error only if
the merged reply is too large; a reply is partial exactly if it lists failed partitions, and it
lists the failures. A session that was received got a reply in the second phase or was released, and
not both. -/
theorem search_accounting (hshards : shards.Covers partitions)
    (hvalid : validateRequest prims generation request = .ok window) :
    let outcome := searchUntil prims partitions shards generation request
    let phase := shards.prepare (prepareRequest generation request window)
    ∃ (contributed : List (UInt16 × SearchReply)) (failures : List PartitionFailure),
      (¬FailsEarly partitions request phase ∧
          outcome.result =
            merge prims partitions generation request (gather window contributed) failures ∧
          (contributed.map Prod.fst ++ failures.map (·.partition)).Perm (allPartitions partitions) ∧
          (∀ merged, merged ∈ contributed ↔ checkIdentity generation merged.1 merged.2 = .ok () ∧
            (merged.1, .ok merged.2) ∈ match request.scoring with
              | .localBm25 => (shards.search (shardRequest generation request window)).answers
              | .globalBm25 => (shards.execute outcome.executed).answers) ∧
          (request.scoring = .globalBm25 → ∀ session,
            session ∈ outcome.executed.map (fun call ↦ (call.1, call.2.sessionId)) ↔
              Prepared phase session) ∨
        FailsEarly partitions request phase ∧ failures ≠ [] ∧
          outcome.result = .error (shardFailure prims partitions failures) ∧
          outcome.executed = [] ∧ ∃ sessions : List (UInt16 × SearchSessionId),
            sessions ⊆ outcome.released ∧
            (∀ session, session ∈ sessions ↔ Prepared phase session) ∧
            (sessions.map Prod.fst ++ failures.map (·.partition)).Perm
              (allPartitions partitions)) ∧
      (failures ≠ [] → request.allowPartial = false → ∃ error, outcome.result = .error error) ∧
      (request.allowPartial → ∀ error, outcome.result = .error error →
        SEARCH_REPLY_BODY_BUDGET < Bincode.encodedLen
          (mergedReply generation request (gather window contributed) failures)) ∧
      (∀ reply, outcome.result = .ok reply → reply.failedPartitions.Perm failures ∧
        (reply.isPartial ↔ reply.failedPartitions ≠ [])) ∧
      (request.scoring = .globalBm25 → ∀ partition prepared,
        (partition, .ok prepared) ∈ phase.answers →
        Xor (Replied shards outcome partition)
          ((partition, prepared.sessionId) ∈ outcome.released)) := by
  intro outcome phase
  cases hscoring : request.scoring with
  | localBm25 =>
    have houtcome : outcome = _ := searchUntil_local hvalid hscoring
    obtain ⟨contributed, failures, hgathered, hperm, hanswered⟩ :=
      fanOutOneShot_eq generation request window hshards
    rw [houtcome, hgathered]
    obtain ⟨hstrict, hallow, hok⟩ := merge_account generation prims partitions request
      (gather window contributed) failures
    have hlate : ¬FailsEarly partitions request phase := fun hearly ↦ by
      rw [FailsEarly, hscoring] at hearly
      cases hearly.1
    exact ⟨contributed, failures, .inl ⟨hlate, rfl, hperm, hanswered, nofun⟩, hstrict, hallow, hok,
      nofun⟩
  | globalBm25 =>
    have houtcome : outcome = _ := searchUntil_global partitions shards hvalid hscoring
    rw [houtcome]
    rcases fanOutTwoPhase_cases generation prims window hshards hscoring with
      ⟨hearly, failures, sessions, hfailures, hresult, hexecuted, hreleased, hsessions, hperm⟩ |
      ⟨hlate, contributed, failures, hresult, hexecuted, hperm, hanswered⟩
    · have herror : ((fanOutTwoPhase prims partitions shards generation request window).result.bind
          fun gathered ↦ merge prims partitions generation request gathered.1 gathered.2) =
          .error (shardFailure prims partitions failures) := by
        rw [hresult]
        rfl
      refine ⟨[], failures, .inr ⟨hearly, hfailures, herror, hexecuted, sessions, hreleased,
          hsessions, hperm⟩, fun _ _ ↦ ⟨_, herror⟩, fun hallow ↦ ?_, fun reply hreply ↦ ?_,
        fun _ _ _ ↦ replied_xor_released hshards⟩
      · rw [hearly.2.1] at hallow
        cases hallow
      · cases herror.symm.trans hreply
    · have hmerge : ((fanOutTwoPhase prims partitions shards generation request window).result.bind
          fun gathered ↦ merge prims partitions generation request gathered.1 gathered.2) =
          merge prims partitions generation request (gather window contributed) failures := by
        rw [hresult]
        rfl
      obtain ⟨hstrict, hallow, hok⟩ := merge_account generation prims partitions request
        (gather window contributed) failures
      rw [hmerge]
      exact ⟨contributed, failures, .inl ⟨hlate, rfl, hperm, hanswered, fun _ ↦ hexecuted⟩, hstrict,
        hallow, hok, fun _ _ _ ↦ replied_xor_released hshards⟩

end Search

/-! Two partitions, of which the first fails whenever it is asked. -/

def samplePrimitives : Primitives := ⟨fun _ ↦ Vector.replicate 32 0, id⟩

def sampleGeneration : SearchIndexGeneration where
  id := 1
  definitionHash := Vector.replicate 32 0
  engineRevision := 2
  definition :=
    ⟨"note", [⟨"title", [.key "title"], .keyword, true, false, true, true, false⟩], ["title"]⟩

def sampleRequest (allowPartial : Bool) : SearchRequest where
  index := "notes"
  generation := .active
  query := .matchAll
  limit := 10
  offset := 0
  sort := []
  scoring := .globalBm25
  consistency := .strict
  allowPartial := allowPartial
  deadlineMs := 1000

def sampleReply : SearchReply where
  generation := 1
  definitionHash := Vector.replicate 32 0
  hits := []
  totalHits := 0
  isPartial := false
  failedPartitions := []

def sampleShards : Shards where
  search _ := { answers := [(0, .error (.raft "down")), (1, .ok sampleReply)], expired := false }
  prepare _ :=
    { answers := [(0, .error (.raft "down")), (1, .ok ⟨⟨1, 1⟩, 0, .default⟩)], expired := false }
  execute requests :=
    { answers := requests.map fun request ↦ (request.1, .ok sampleReply), expired := false }

theorem covers_sampleShards : sampleShards.Covers 2 := by
  have hall : allPartitions 2 = [0, 1] := rfl
  refine ⟨fun _ ↦ ?_, fun _ ↦ ?_, fun requests hnodup ↦ ?_⟩
  · rw [hall]
    exact ⟨by simp [sampleShards], List.Subset.refl _, fun _ ↦ List.Subset.refl _⟩
  · rw [hall]
    exact ⟨by simp [sampleShards], List.Subset.refl _, fun _ ↦ List.Subset.refl _⟩
  · have hasked : (sampleShards.execute requests).answers.map Prod.fst = requests.map Prod.fst := by
      simp [sampleShards]
    exact ⟨hasked ▸ hnodup, hasked ▸ List.Subset.refl _, fun _ ↦ hasked ▸ List.Subset.refl _⟩

theorem validateRequest_sampleRequest (allowPartial : Bool) :
    validateRequest samplePrimitives sampleGeneration (sampleRequest allowPartial) = .ok 10 := by
  cases allowPartial <;> decide +kernel

/-- The partial search merges the second partition, and its session is not released. -/
theorem search_accounting_partial :
    Xor (Replied sampleShards
        (searchUntil samplePrimitives 2 sampleShards sampleGeneration (sampleRequest true)) 1)
      ((1, ⟨1, 1⟩) ∈
        (searchUntil samplePrimitives 2 sampleShards sampleGeneration
          (sampleRequest true)).released) :=
  let ⟨_, _, _, _, _, _, hsessions⟩ :=
    search_accounting covers_sampleShards (validateRequest_sampleRequest true)
  hsessions rfl 1 ⟨⟨1, 1⟩, 0, .default⟩ (by simp [sampleShards])

/-- In the strict search the second partition has a valid session, it is not asked for a reply, and
it is not among the failures. -/
theorem prepared_but_not_merged :
    validateRequest samplePrimitives sampleGeneration (sampleRequest false) = .ok 10 ∧
      sampleShards.Covers 2 ∧ 1 ∈ allPartitions 2 ∧
      ∃ failures : List PartitionFailure,
        (searchUntil samplePrimitives 2 sampleShards sampleGeneration
          (sampleRequest false)).result = .error (shardFailure samplePrimitives 2 failures) ∧
        1 ∉ failures.map (·.partition) ∧
        (searchUntil samplePrimitives 2 sampleShards sampleGeneration
          (sampleRequest false)).executed = [] := by
  have hsearch := searchUntil_global 2 sampleShards (validateRequest_sampleRequest false) rfl
  refine ⟨validateRequest_sampleRequest false, covers_sampleShards, by decide,
    [⟨0, boundedFailureReason (Error.raft "down").text⟩], ?_, by decide, ?_⟩
  · rw [hsearch]
    rfl
  · rw [hsearch]
    rfl

end DalService.Search
