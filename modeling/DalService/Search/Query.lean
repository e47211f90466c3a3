import DalService.Foundation.SortedList
import DalService.Search.Definition

/-!
# Search requests, replies and shard statistics

What a search asks, what a shard and the coordinator answer, and the statistics that make the scores
of shards comparable, with the checks `search/definition.rs` makes on them. Scores and float values
are kept as their bits; `totalCmp` is the order of `f32::total_cmp` on them.
-/

set_option autoImplicit false

namespace DalService.Search

open Foundation Bincode

def SEARCH_MAX_LIMIT : UInt32 := 1000

def SEARCH_MAX_WINDOW : UInt32 := 1000

def SEARCH_MAX_QUERY_TERMS : ℕ := 1024

def SEARCH_MAX_TERM_KEY_BYTES : ℕ := 4 * 1024

def SEARCH_MAX_STATISTICS_BYTES : ℕ := 60 * 1024

def SEARCH_REPLY_BODY_BUDGET : ℕ := 31 * 1024 * 1024

def SEARCH_MAX_FAILURE_REASON_BYTES : ℕ := 512

/-- `u64::saturating_add`. -/
def saturatingSum (first second : UInt64) : UInt64 :=
  UInt64.ofNat (min (first.toNat + second.toNat) (UInt64.size - 1))

variable (prims : Primitives)

/-! ### Requests -/

inductive GenerationSelection
  | active
  | exact (generation : SearchIndexGenerationId)
  deriving DecidableEq, Repr

inductive SearchQuery
  | text (query : String) (fields : List String)
  | matchAll
  deriving DecidableEq, Repr

/-- The names of query fields are valid, and none is there twice. -/
def validateQueryFields (seen : List String) : List String → Result Unit
  | [] => pure ()
  | field :: rest => do
    validateName "query field" field
    throwIf (field ∈ seen) (.search ("duplicate query field " ++ prims.debugText field))
    validateQueryFields (field :: seen) rest

def SearchQuery.validate : SearchQuery → Result Unit
  | .matchAll => pure ()
  | .text query fields => do
    throwIf (query.isEmpty ∨ 4 * 1024 < query.utf8ByteSize)
      (.search "text query must be 1..=4096 bytes")
    throwIf (query.toList.any fun character ↦
        character ∈ ['*', '?', '~', '/', '[', ']', Char.ofNat 0x7b, Char.ofNat 0x7d, ':'])
      (.search "wildcard, fuzzy, regex, range, and field-override syntax is disabled")
    throwIf (SEARCH_MAX_FIELDS < fields.length)
      (.search ("query fields exceed the " ++ toString SEARCH_MAX_FIELDS ++ " field limit"))
    validateQueryFields prims [] fields

inductive ScoringMode
  | globalBm25
  | localBm25
  deriving DecidableEq, Repr

inductive SearchConsistency
  | strict
  | eventual
  deriving DecidableEq, Repr

structure SortField where
  field : String
  descending : Bool
  deriving DecidableEq, Repr

structure SearchRequest where
  index : String
  generation : GenerationSelection
  query : SearchQuery
  limit : UInt32
  offset : UInt32
  sort : List SortField
  scoring : ScoringMode
  consistency : SearchConsistency
  allowPartial : Bool
  deadlineMs : UInt32
  deriving DecidableEq, Repr

/-! ### Replies -/

inductive SortValue
  | u64 (value : UInt64)
  | i64 (bits : UInt64)
  | f64 (bits : UInt64)
  | bool (value : Bool)
  | string (value : String)
  deriving DecidableEq, Repr

structure StoredField where
  name : String
  values : List SortValue
  deriving DecidableEq, Repr

structure SearchHit where
  partition : UInt16
  key : Bytes
  version : UInt64
  score : Option UInt32
  sortValues : List SortValue
  storedFields : List StoredField
  deriving DecidableEq, Repr

structure PartitionFailure where
  partition : UInt16
  reason : String
  deriving DecidableEq, Repr

structure SearchReply where
  generation : SearchIndexGenerationId
  definitionHash : Digest32
  hits : List SearchHit
  totalHits : UInt64
  isPartial : Bool
  failedPartitions : List PartitionFailure
  deriving DecidableEq, Repr

instance : Bincode SortValue :=
  ⟨fun
    | .u64 value => encode (0 : UInt32) ++ encode value
    | .i64 bits => encode (1 : UInt32) ++ encode bits
    | .f64 bits => encode (2 : UInt32) ++ encode bits
    | .bool value => encode (3 : UInt32) ++ encode value
    | .string value => encode (4 : UInt32) ++ encode value⟩

instance : Bincode StoredField :=
  ⟨fun field ↦ encode field.name ++ encode field.values⟩

instance : Bincode SearchHit :=
  ⟨fun hit ↦ encode hit.partition ++ encode hit.key ++ encode hit.version ++
    encode hit.score ++ encode hit.sortValues ++ encode hit.storedFields⟩

instance : Bincode PartitionFailure :=
  ⟨fun failure ↦ encode failure.partition ++ encode failure.reason⟩

instance : Bincode SearchReply :=
  ⟨fun reply ↦ encode reply.generation ++ encode reply.definitionHash ++
    encode reply.hits ++ encode reply.totalHits ++ encode reply.isPartial ++
    encode reply.failedPartitions⟩

def SearchReply.validateWireSize (reply : SearchReply) : Result Unit :=
  throwIf (SEARCH_REPLY_BODY_BUDGET < encodedLen reply)
    (.search ("search reply requires " ++ toString (encodedLen reply) ++
      " bytes, exceeding the " ++ toString SEARCH_REPLY_BODY_BUDGET ++
      " byte response budget; reduce the result window or stored fields"))

/-- `f32::total_cmp`, on the bits of the two. -/
def totalCmp (left right : UInt32) : Ordering :=
  compare (key left.toBitVec).toInt (key right.toBitVec).toInt
where
  /-- Negative floats are ordered against their magnitude. -/
  key (bits : BitVec 32) : BitVec 32 := if bits.msb then bits ^^^ 0x7fffffff#32 else bits

/-- Scored hits first, by descending score. -/
def scoreDescending : Option UInt32 → Option UInt32 → Ordering
  | some left, some right => totalCmp right left
  | some _, none => .lt
  | none, some _ => .gt
  | none, none => .eq

def hitOrder (left right : SearchHit) : Ordering :=
  ((scoreDescending left.score right.score).then (compare left.partition right.partition)).then
    (compare left.key right.key)

/-! ### Statistics -/

/-- Add to the sum of a key, in key order. -/
def mergeSum {K : Type} [Ord K] (key : K) (value : UInt64) :
    List (K × UInt64) → List (K × UInt64) :=
  insertWith Prod.fst (fun entry ↦ (entry.1, saturatingSum entry.2 value)) (key, value)

def mergeSums {K : Type} [Ord K] (into from' : List (K × UInt64)) : List (K × UInt64) :=
  from'.foldl (fun sums entry ↦ mergeSum entry.1 entry.2 sums) into

structure ShardStatistics where
  totalDocs : UInt64
  fieldTokens : List (String × UInt64)
  termDocFreq : List (Bytes × UInt64)
  deriving DecidableEq, Repr

instance : Bincode ShardStatistics :=
  ⟨fun statistics ↦ encode statistics.totalDocs ++ encode statistics.fieldTokens ++
    encode statistics.termDocFreq⟩

namespace ShardStatistics

def default : ShardStatistics where
  totalDocs := 0
  fieldTokens := []
  termDocFreq := []

/-- The bounds on what a shard reports. -/
def validate (statistics : ShardStatistics) : Result Unit := do
  throwIf (SEARCH_MAX_QUERY_TERMS < statistics.termDocFreq.length ∨
      SEARCH_MAX_FIELDS + 3 < statistics.fieldTokens.length)
    (.search "shard statistics exceed the query term or field limit")
  statistics.fieldTokens.forM fun entry ↦ validateName "statistics field" entry.1
  statistics.termDocFreq.forM fun entry ↦
    throwIf (SEARCH_MAX_TERM_KEY_BYTES < entry.1.length) (.search "statistics term key is too long")
  throwIf (SEARCH_MAX_STATISTICS_BYTES < encodedLen statistics)
    (.search ("shard statistics require " ++ toString (encodedLen statistics) ++
      " bytes, exceeding the " ++ toString SEARCH_MAX_STATISTICS_BYTES ++ " byte limit"))

def merge (sum other : ShardStatistics) : ShardStatistics where
  totalDocs := saturatingSum sum.totalDocs other.totalDocs
  fieldTokens := mergeSums sum.fieldTokens other.fieldTokens
  termDocFreq := mergeSums sum.termDocFreq other.termDocFreq

end ShardStatistics

/-! ### The two phases of a global search -/

structure SearchSessionId where
  incarnation : UInt64
  sequence : UInt64
  deriving DecidableEq, Repr

structure ShardPrepareRequest where
  index : String
  generation : SearchIndexGenerationId
  definitionHash : Digest32
  query : SearchQuery
  consistency : SearchConsistency
  window : UInt32
  deriving DecidableEq, Repr

structure ShardPrepared where
  sessionId : SearchSessionId
  checkpointIndex : UInt64
  statistics : ShardStatistics
  deriving DecidableEq, Repr

structure ShardExecuteRequest where
  sessionId : SearchSessionId
  statistics : ShardStatistics
  deriving DecidableEq, Repr

end DalService.Search
