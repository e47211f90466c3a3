import DalService.Foundation.Run
import DalService.Foundation.SortedList
import DalService.Storage.ApplyDurability
import DalService.Storage.Disk

/-!
# The Raft log store

`RocksLogStore`: the log of a group in the byte keys of its column family. The vote, the purge
marker and the committed marker are under keys of their own, and an entry is under a prefix and its
big-endian index, so that the entries follow the markers in key order and are in index order among
themselves.

`Log` is the log as openraft sees it: a purge point and the entries after it. `Stores` says that a
column family holds a log; an operation of the store, as openraft makes it, keeps `Stores` for the
log that the operation leads to (`Stores.step`), and what the store reads is then what the log says
(`Stores.tryGetLogEntries_eq`, `Stores.getLogState_eq`). The result over whole runs is
`log_store_refines`.

The health check and the look-up of the column family come before all of it and change nothing; so
does the wait of `purge` for the state to be durable.
-/

set_option autoImplicit false

namespace DalService.Partition.LogStore

open Foundation Storage

variable {V P : Type}

/-! ### Keys -/

def keyVote : Bytes := [0x00, 118]

def keyPurged : Bytes := [0x00, 112]

def keyCommitted : Bytes := [0x00, 99]

def entryPrefix : UInt8 := 0x01

/-- One past the entry prefix. -/
def entryPrefixEnd : UInt8 := 0x02

def maxIndex : UInt64 := UInt64.ofNat (UInt64.size - 1)

def entryKey (index : UInt64) : Bytes := entryPrefix :: u64Be index

def entryIndex : Bytes → Option UInt64
  | [] => none
  | head :: rest =>
    if rest.length = 8 ∧ head = entryPrefix then some (UInt64.ofNat (beNat rest)) else none

@[simp] theorem entryIndex_entryKey (index : UInt64) :
    entryIndex (entryKey index) = some index := by
  rw [entryKey, entryIndex, if_pos ⟨length_u64Be index, rfl⟩, beNat_u64Be, UInt64.ofNat_toNat]

theorem compare_entryKey (first second : UInt64) :
    compare (entryKey first) (entryKey second) = compare first second := by
  rw [entryKey, entryKey, List.compare_cons_cons, Std.compare_self, Ordering.eq_then, compare_u64Be]

theorem compare_entryKey_eq_lt {first second : UInt64} :
    compare (entryKey first) (entryKey second) = .lt ↔ first < second := by
  rw [compare_entryKey, UInt64.compare_eq_toNat_compare_toNat, Nat.compare_eq_lt,
    UInt64.lt_iff_toNat_lt]

theorem entryKey_injective : Function.Injective entryKey := fun _ _ h ↦
  u64Be_injective (List.cons.inj h).2

/-- The keys that are not of entries. -/
def markers : List Bytes := [keyVote, keyPurged, keyCommitted]

theorem compare_of_mem_markers {key : Bytes} (h : key ∈ markers) (index : UInt64) :
    compare key (entryKey index) = .lt := by
  have hhead : compare (0x00 : UInt8) entryPrefix = .lt := by decide
  simp only [markers, List.mem_cons, List.not_mem_nil, or_false] at h
  rcases h with rfl | rfl | rfl <;>
    rw [entryKey] <;> exact List.compare_cons_cons.trans (by rw [hhead, Ordering.lt_then])

theorem isLE_compare_entryPrefixEnd {key : Bytes}
    (h : key ∈ markers ∨ ∃ index, key = entryKey index) : (compare key [entryPrefixEnd]).isLE := by
  have hzero : compare (0x00 : UInt8) entryPrefixEnd = .lt := by decide
  have hone : compare entryPrefix entryPrefixEnd = .lt := by decide
  rcases h with hmarker | ⟨index, rfl⟩
  · simp only [markers, List.mem_cons, List.not_mem_nil, or_false] at hmarker
    rcases hmarker with rfl | rfl | rfl <;>
      exact congrArg Ordering.isLE (List.compare_cons_cons.trans (by rw [hzero, Ordering.lt_then]))
  · exact congrArg Ordering.isLE (List.compare_cons_cons.trans (by rw [hone, Ordering.lt_then]))

theorem entryKey_notMem_markers (index : UInt64) : entryKey index ∉ markers := fun h ↦ by
  have hlt := compare_of_mem_markers h index
  rw [Std.compare_self] at hlt
  cases hlt

theorem entryIndex_of_mem_markers {key : Bytes} (h : key ∈ markers) : entryIndex key = none := by
  simp only [markers, List.mem_cons, List.not_mem_nil, or_false] at h
  rcases h with rfl | rfl | rfl <;> rfl

/-! ### What the store does -/

/-- One write of the store. -/
inductive LogWrite (V : Type)
  | batch (mutations : List (Mutation V))
  | deleteRange (first last : Bytes)

def LogWrite.write (cf : ColumnFamily V) : LogWrite V → ColumnFamily V
  | .batch mutations => cf.writeAll mutations
  | .deleteRange first last => cf.deleteRange first last

/-- An operation that changes the log. -/
inductive LogOp (P : Type)
  | append (entries : List (LogEntry P))
  | truncate (logId : RaftLogId)
  | purge (logId : RaftLogId)

section Store

variable [Record V RaftLogId] [Record V (LogEntry P)]

/-- The writes of an operation, in order. -/
def LogOp.writes : LogOp P → List (LogWrite V)
  | .append entries =>
    [.batch (entries.map fun entry ↦ .put (entryKey entry.logId.index) (Record.encode entry))]
  -- A range delete has an exclusive end: the last index is deleted on its own.
  | .truncate logId =>
    [.deleteRange (entryKey logId.index) (entryKey maxIndex), .batch [.delete (entryKey maxIndex)]]
  -- The purge marker comes first, so that recovery never reads purged entries again.
  | .purge logId =>
    [.batch [.put keyPurged (Record.encode logId)],
      .deleteRange (entryKey 0) (entryKey logId.index), .batch [.delete (entryKey logId.index)]]

def writeEach (cf : ColumnFamily V) (writes : List (LogWrite V)) : ColumnFamily V :=
  writes.foldl LogWrite.write cf

def LogOp.apply (cf : ColumnFamily V) (op : LogOp P) : ColumnFamily V := writeEach cf op.writes

/-- A bound of a range of indices. -/
inductive Bound
  | included (index : UInt64)
  | excluded (index : UInt64)
  | unbounded
  deriving DecidableEq, Repr

def Bound.start : Bound → UInt64
  | .included index => index
  | .excluded index => index + 1
  | .unbounded => 0

def Bound.stop : Bound → UInt64
  | .included index => index + 1
  | .excluded index => index
  | .unbounded => maxIndex

/-- The entries of the rows up to the first that is no entry or not below the end. -/
def collect (stop : UInt64) : List (Bytes × V) → Result (List (LogEntry P))
  | [] => .ok []
  | row :: rest =>
    match entryIndex row.1 with
    | none => .ok []
    | some index =>
      if index < stop then
        match Record.decode row.2 with
        | none => .error (.raft "Raft log entry decode failed")
        | some entry => (collect stop rest).map (entry :: ·)
      else .ok []

def tryGetLogEntries (cf : ColumnFamily V) (first last : Bound) : Result (List (LogEntry P)) :=
  collect last.stop (cf.seek (entryKey first.start))

variable (P) in
/-- The log id of the highest entry: the row before the end of the entry prefix, if it is an
entry. -/
def lastEntryId (cf : ColumnFamily V) : Result (Option RaftLogId) :=
  match cf.seekForPrev [entryPrefixEnd] with
  | none => .ok none
  | some row =>
    match entryIndex row.1 with
    | none => .ok none
    | some _ =>
      match (Record.decode row.2 : Option (LogEntry P)) with
      | none => .error (.raft "Raft last-log decode failed")
      | some entry => .ok (some entry.logId)

def readLogSingleton {T : Type} [Record V T] (cf : ColumnFamily V) (key : Bytes) :
    Result (Option T) :=
  match cf[key]? with
  | none => .ok none
  | some raw =>
    match Record.decode raw with
    | none => .error (.raft "Raft log singleton decode failed")
    | some value => .ok (some value)

structure LogState where
  lastPurgedLogId : Option RaftLogId
  lastLogId : Option RaftLogId
  deriving DecidableEq, Repr

variable (P) in
def getLogState (cf : ColumnFamily V) : Result LogState := do
  let lastPurged ← readLogSingleton cf keyPurged
  let last ← lastEntryId P cf
  return { lastPurgedLogId := lastPurged, lastLogId := last.or lastPurged }

end Store

/-! ### What the writes leave under a key -/

/-- What a write leaves under a key it touches. -/
def LogWrite.touch : LogWrite V → Bytes → Option (Option V)
  | .batch mutations, key => lastWrite mutations key
  | .deleteRange first last, key =>
    if (compare first key).isLE ∧ compare key last = .lt then some none else none

/-- What the last write to a key leaves there. -/
def lastTouch : List (LogWrite V) → Bytes → Option (Option V)
  | [], _ => none
  | write :: rest, key => (lastTouch rest key).or (write.touch key)

theorem getElem?_writeEach (cf : ColumnFamily V) (writes : List (LogWrite V)) (key : Bytes) :
    (writeEach cf writes)[key]? = (lastTouch writes key).getD cf[key]? := by
  have hone (cf : ColumnFamily V) (write : LogWrite V) :
      (write.write cf)[key]? = (write.touch key).getD cf[key]? := by
    cases write with
    | batch mutations => exact getElem?_writeAll cf mutations key
    | deleteRange first last =>
      rw [LogWrite.write, ColumnFamily.getElem?_deleteRange, LogWrite.touch]
      split_ifs <;> rfl
  induction writes generalizing cf with
  | nil => rfl
  | cons write writes ih =>
    change (writeEach (write.write cf) writes)[key]? = _
    rw [ih, hone, lastTouch]
    cases lastTouch writes key <;> rfl

theorem lastTouch_append (first second : List (LogWrite V)) (key : Bytes) :
    lastTouch (first ++ second) key = (lastTouch second key).or (lastTouch first key) := by
  induction first with
  | nil => rw [List.nil_append, lastTouch, Option.or_none]
  | cons write first ih => rw [List.cons_append, lastTouch, lastTouch, ih, Option.or_assoc]

/-- Writes that stopped anywhere and are issued again leave what they leave when issued once. -/
theorem writeEach_again (cf : ColumnFamily V) (done rest : List (LogWrite V)) :
    writeEach (writeEach cf done) (done ++ rest) = writeEach cf (done ++ rest) := by
  refine Std.ExtTreeMap.ext_getElem? fun key ↦ ?_
  rw [getElem?_writeEach, getElem?_writeEach, getElem?_writeEach, lastTouch_append]
  cases lastTouch rest key <;> cases lastTouch done key <;> rfl

theorem touch_deleteRange_marker {key : Bytes} (h : key ∈ markers) (first last : UInt64) :
    (LogWrite.deleteRange (entryKey first) (entryKey last) : LogWrite V).touch key = none := by
  refine if_neg fun hin ↦ ?_
  rw [Std.OrientedCmp.gt_of_lt (compare_of_mem_markers h first)] at hin
  exact Bool.noConfusion hin.1

theorem touch_deleteRange_entry (first last index : UInt64) :
    (LogWrite.deleteRange (entryKey first) (entryKey last) : LogWrite V).touch (entryKey index) =
      if first ≤ index ∧ index < last then some none else none := by
  have hfirst : (compare (entryKey first) (entryKey index)).isLE ↔ first ≤ index := by
    rw [compare_entryKey]
    exact Std.isLE_compare
  simp only [LogWrite.touch, hfirst, compare_entryKey_eq_lt]

theorem touch_put (written key : Bytes) (value : V) :
    (LogWrite.batch [.put written value]).touch key =
      if written = key then some (some value) else none := by
  rw [LogWrite.touch, lastWrite, lastWrite, Option.none_or]
  rfl

theorem touch_delete_marker {key : Bytes} (h : key ∈ markers) (deleted : UInt64) :
    (LogWrite.batch [.delete (entryKey deleted)] : LogWrite V).touch key = none := by
  have hne : entryKey deleted ≠ key := fun heq ↦ entryKey_notMem_markers deleted (heq ▸ h)
  simp [LogWrite.touch, lastWrite, hne]

theorem touch_delete_entry (deleted index : UInt64) :
    (LogWrite.batch [.delete (entryKey deleted)] : LogWrite V).touch (entryKey index) =
      if deleted = index then some none else none := by
  simp [LogWrite.touch, lastWrite, entryKey_injective.eq_iff]

/-! ### The log -/

/-- A purge point, and the entries after it in the order of their indices. -/
structure Log (P : Type) where
  purged : Option RaftLogId
  entries : List (LogEntry P)
  increasing : entries.Pairwise fun first second ↦ first.logId.index < second.logId.index

namespace Log

def empty : Log P := ⟨none, [], .nil⟩

/-- The last entry, or the purge point if there is none. -/
def lastLogId (log : Log P) : Option RaftLogId :=
  (log.entries.getLast?.map (·.logId)).or log.purged

/-- Entries with consecutive indices after the last one, or after the purge point. -/
def Follow (log : Log P) (entries : List (LogEntry P)) : Prop :=
  entries.map (·.logId.index.toNat) = List.range' (next log.lastLogId) entries.length

instance (log : Log P) (entries : List (LogEntry P)) : Decidable (log.Follow entries) :=
  inferInstanceAs (Decidable (entries.map (·.logId.index.toNat) = _))

theorem lt_next_lastLogId {log : Log P} {entry : LogEntry P} (h : entry ∈ log.entries) :
    entry.logId.index.toNat < next log.lastLogId := by
  rcases List.eq_nil_or_concat log.entries with hnil | ⟨before, last, hlast⟩
  · rw [hnil] at h
    cases h
  · rw [List.concat_eq_append] at hlast
    have hordered := log.increasing
    rw [hlast] at hordered h
    rw [lastLogId, hlast, List.getLast?_concat, Option.map_some, Option.some_or, next_some,
      Nat.lt_succ_iff]
    rcases List.mem_append.mp h with hbefore | hsame
    · have hlt :=
        (List.pairwise_append.mp hordered).2.2 entry hbefore last (List.mem_singleton_self _)
      exact (UInt64.lt_iff_toNat_lt.mp hlt).le
    · rw [List.mem_singleton.mp hsame]

theorem Follow.increasing {log : Log P} {entries : List (LogEntry P)} (h : log.Follow entries) :
    (log.entries ++ entries).Pairwise fun first second ↦
      first.logId.index < second.logId.index := by
  have hfirst : ∀ entry ∈ entries, next log.lastLogId ≤ entry.logId.index.toNat := by
    intro entry hentry
    have hmem := List.mem_map_of_mem (f := fun entry : LogEntry P ↦ entry.logId.index.toNat) hentry
    rw [h] at hmem
    exact (List.mem_range'_1.mp hmem).1
  refine List.pairwise_append.mpr ⟨log.increasing, ?_, fun old hold entry hentry ↦ ?_⟩
  · have hrange : (entries.map (·.logId.index.toNat)).Pairwise (· < ·) := by
      rw [h]
      exact List.pairwise_lt_range'
    exact (List.pairwise_map.mp hrange).imp UInt64.lt_iff_toNat_lt.mpr
  · refine UInt64.lt_iff_toNat_lt.mpr (lt_of_lt_of_le ?_ (hfirst entry hentry))
    exact lt_next_lastLogId hold

/-- Append the entries. -/
def append (log : Log P) (entries : List (LogEntry P)) (h : log.Follow entries) : Log P where
  purged := log.purged
  entries := log.entries ++ entries
  increasing := h.increasing

/-- Drop the entries from a log id on. -/
def truncate (log : Log P) (logId : RaftLogId) : Log P where
  purged := log.purged
  entries := log.entries.filter fun entry ↦ entry.logId.index < logId.index
  increasing := log.increasing.filter _

/-- Drop the entries up to a log id, which becomes the purge point. -/
def purge (log : Log P) (logId : RaftLogId) : Log P where
  purged := some logId
  entries := log.entries.filter fun entry ↦ logId.index < entry.logId.index
  increasing := log.increasing.filter _

/-- The operations that openraft makes. -/
inductive Step : Log P → LogOp P → Log P → Prop
  | append {log : Log P} {entries : List (LogEntry P)} (h : log.Follow entries) :
      Step log (.append entries) (log.append entries h)
  | truncate (log : Log P) (logId : RaftLogId) : Step log (.truncate logId) (log.truncate logId)
  | purge (log : Log P) (logId : RaftLogId) : Step log (.purge logId) (log.purge logId)

end Log

/-- An index is in a range. -/
def Bound.Starts (index : UInt64) : Bound → Prop
  | .included first => first ≤ index
  | .excluded first => first < index
  | .unbounded => True

def Bound.Stops (index : UInt64) : Bound → Prop
  | .included last => index ≤ last
  | .excluded last => index < last
  | .unbounded => True

instance (index : UInt64) : (bound : Bound) → Decidable (bound.Starts index)
  | .included first => inferInstanceAs (Decidable (first ≤ index))
  | .excluded first => inferInstanceAs (Decidable (first < index))
  | .unbounded => inferInstanceAs (Decidable True)

instance (index : UInt64) : (bound : Bound) → Decidable (bound.Stops index)
  | .included last => inferInstanceAs (Decidable (index ≤ last))
  | .excluded last => inferInstanceAs (Decidable (index < last))
  | .unbounded => inferInstanceAs (Decidable True)

/-- A finite bound below the highest index. -/
def Bound.Finite : Bound → Prop
  | .included index | .excluded index => index < maxIndex
  | .unbounded => False

instance : (bound : Bound) → Decidable bound.Finite
  | .included index | .excluded index => inferInstanceAs (Decidable (index < maxIndex))
  | .unbounded => inferInstanceAs (Decidable False)

theorem toNat_succ {index : UInt64} (h : index < maxIndex) :
    (index + 1).toNat = index.toNat + 1 := by
  have hlt : index.toNat < UInt64.size - 1 := UInt64.lt_iff_toNat_lt.mp h
  rw [UInt64.toNat_add]
  exact Nat.mod_eq_of_lt (Nat.add_lt_of_lt_sub hlt)

theorem Bound.Finite.start_le_iff {bound : Bound} (h : bound.Finite) {index : UInt64} :
    bound.start ≤ index ↔ bound.Starts index := by
  cases bound with
  | included first => exact Iff.rfl
  | excluded first =>
    rw [start, Starts, UInt64.le_iff_toNat_le, UInt64.lt_iff_toNat_lt, toNat_succ h]
    exact Nat.succ_le_iff
  | unbounded => exact h.elim

theorem Bound.Finite.lt_stop_iff {bound : Bound} (h : bound.Finite) {index : UInt64} :
    index < bound.stop ↔ bound.Stops index := by
  cases bound with
  | included last =>
    rw [stop, Stops, UInt64.lt_iff_toNat_lt, UInt64.le_iff_toNat_le, toNat_succ h]
    exact Nat.lt_succ_iff
  | excluded last => exact Iff.rfl
  | unbounded => exact h.elim

/-! ### A column family that holds a log -/

section Refinement

variable [Record V RaftLogId] [Record V (LogEntry P)]

/-- The column family holds the log, and nothing but it under the keys of entries. -/
structure Stores (cf : ColumnFamily V) (log : Log P) : Prop where
  purged : cf[keyPurged]? = log.purged.map Record.encode
  entries : ∀ index value, cf[entryKey index]? = some value ↔
    ∃ entry ∈ log.entries, entry.logId.index = index ∧ value = Record.encode entry
  others : ∀ key ∈ cf, key ∈ markers ∨ ∃ index, key = entryKey index

variable {cf : ColumnFamily V} {log after : Log P}

/-- The row of an entry. -/
def row (entry : LogEntry P) : Bytes × V := (entryKey entry.logId.index, Record.encode entry)

theorem Stores.toList_eq (h : Stores cf log) :
    ∃ singles : List (Bytes × V), (∀ single ∈ singles, single.1 ∈ markers) ∧
      cf.toList = singles ++ log.entries.map row := by
  refine ⟨cf.toList.filter fun found ↦ found.1 ∈ markers,
    fun single hsingle ↦ of_decide_eq_true (List.mem_filter.mp hsingle).2,
    ColumnFamily.toList_eq ?_ fun found ↦ ?_⟩
  · refine List.pairwise_append.mpr ⟨Std.ExtTreeMap.ordered_keys_toList.filter _, ?_, ?_⟩
    · refine List.pairwise_map.mpr (log.increasing.imp fun hlt ↦ ?_)
      exact compare_entryKey_eq_lt.mpr hlt
    · intro single hsingle stored hstored
      obtain ⟨entry, -, rfl⟩ := List.mem_map.mp hstored
      exact compare_of_mem_markers (of_decide_eq_true (List.mem_filter.mp hsingle).2) _
  · rw [List.mem_append, List.mem_filter, Std.ExtTreeMap.mem_toList_iff_getElem?_eq_some]
    constructor
    · rintro (⟨hfound, -⟩ | hrow)
      · exact hfound
      · obtain ⟨entry, hentry, rfl⟩ := List.mem_map.mp hrow
        exact (h.entries entry.logId.index _).mpr ⟨entry, hentry, rfl, rfl⟩
    · intro hfound
      have hmem : found.1 ∈ cf := Std.ExtTreeMap.mem_iff_isSome_getElem?.mpr (by rw [hfound]; rfl)
      rcases h.others found.1 hmem with hmarker | ⟨index, hindex⟩
      · exact .inl ⟨hfound, decide_eq_true hmarker⟩
      · rw [hindex] at hfound
        obtain ⟨entry, hentry, rfl, hvalue⟩ := (h.entries index found.2).mp hfound
        exact .inr (List.mem_map.mpr ⟨entry, hentry, Prod.ext hindex.symm hvalue.symm⟩)

omit [Record V RaftLogId] in
theorem collect_map_row (stop : UInt64) (entries : List (LogEntry P)) :
    collect stop (entries.map (row (V := V))) =
      .ok (entries.takeWhile fun entry ↦ entry.logId.index < stop) := by
  induction entries with
  | nil => rfl
  | cons entry entries ih =>
    rw [List.map_cons, collect, row, entryIndex_entryKey]
    dsimp only
    split_ifs with hlt
    · rw [Record.decode_encode, ih, List.takeWhile_cons_of_pos (by simpa using hlt)]
      rfl
    · rw [List.takeWhile_cons_of_neg (by simpa using hlt)]

/-- Reading a range gives the entries of the log in the range. -/
theorem Stores.tryGetLogEntries_eq (h : Stores cf log) {first last : Bound} (hfirst : first.Finite)
    (hlast : last.Finite) : tryGetLogEntries cf first last =
      .ok (log.entries.filter fun entry ↦
        first.Starts entry.logId.index ∧ last.Stops entry.logId.index) := by
  obtain ⟨singles, hsingles, hrows⟩ := h.toList_eq
  have hseek : cf.seek (entryKey first.start) =
      (log.entries.filter fun entry ↦ first.Starts entry.logId.index).map row := by
    rw [ColumnFamily.seek, hrows, List.dropWhile_append_of_pos fun single hsingle ↦
      beq_iff_eq.mpr (compare_of_mem_markers (hsingles single hsingle) _), List.dropWhile_map,
      dropWhile_eq_filter]
    · congr 1
      refine List.filter_congr fun entry _ ↦ ?_
      rw [Bool.eq_iff_iff, Bool.not_eq_true', Bool.eq_false_iff, Ne,
        Function.comp_apply, beq_iff_eq, decide_eq_true_iff, ← hfirst.start_le_iff, ← UInt64.not_lt]
      exact not_congr compare_entryKey_eq_lt
    · refine log.increasing.imp fun hlt hbefore ↦ ?_
      rw [Function.comp_apply, beq_iff_eq] at hbefore ⊢
      exact compare_entryKey_eq_lt.mpr (UInt64.lt_trans hlt (compare_entryKey_eq_lt.mp hbefore))
  rw [tryGetLogEntries, hseek, collect_map_row, takeWhile_eq_filter, List.filter_filter]
  · congr 1
    refine List.filter_congr fun entry _ ↦ ?_
    rw [← Bool.decide_and]
    exact decide_eq_decide.mpr ((and_congr_left' hlast.lt_stop_iff).trans and_comm)
  · refine (log.increasing.filter _).imp fun hlt hstop ↦ ?_
    exact decide_eq_true (UInt64.lt_trans hlt (of_decide_eq_true hstop))

theorem Stores.lastEntryId_eq (h : Stores cf log) :
    lastEntryId P cf = .ok (log.entries.getLast?.map (·.logId)) := by
  obtain ⟨singles, hsingles, hrows⟩ := h.toList_eq
  have hall : (cf.toList.filter fun found ↦ (compare found.1 [entryPrefixEnd]).isLE) =
      cf.toList := by
    refine List.filter_eq_self.mpr fun found hfound ↦ ?_
    rw [hrows] at hfound
    rcases List.mem_append.mp hfound with hsingle | hrow
    · exact isLE_compare_entryPrefixEnd (.inl (hsingles found hsingle))
    · obtain ⟨entry, -, rfl⟩ := List.mem_map.mp hrow
      exact isLE_compare_entryPrefixEnd (.inr ⟨entry.logId.index, rfl⟩)
  rw [lastEntryId, ColumnFamily.seekForPrev, hall, hrows]
  rcases List.eq_nil_or_concat log.entries with hnil | ⟨before, last, hlast⟩
  · rw [hnil, List.map_nil, List.append_nil]
    cases hsingle : singles.getLast? with
    | none => rfl
    | some single =>
      have hmarker := hsingles single (List.mem_of_getLast? hsingle)
      dsimp only
      rw [entryIndex_of_mem_markers hmarker]
      rfl
  · rw [hlast, List.concat_eq_append, List.map_append, List.map_singleton, ← List.append_assoc,
      List.getLast?_concat, List.getLast?_concat]
    dsimp only
    rw [row, entryIndex_entryKey]
    dsimp only
    rw [Record.decode_encode]
    rfl

/-- The log state is the purge point, and the last entry or the purge point if there is none. -/
theorem Stores.getLogState_eq (h : Stores cf log) :
    getLogState P cf = .ok { lastPurgedLogId := log.purged, lastLogId := log.lastLogId } := by
  have hpurged : readLogSingleton cf keyPurged = .ok log.purged := by
    rw [readLogSingleton, h.purged]
    cases log.purged with
    | none => rfl
    | some logId => simp
  rw [getLogState, hpurged, h.lastEntryId_eq]
  rfl

/-! ### The operations -/

/-- No operation touches a marker, but for `purge`, which writes the purge marker. -/
theorem lastTouch_marker (op : LogOp P) {key : Bytes} (h : key ∈ markers) :
    lastTouch (op.writes (V := V)) key =
      match op with
      | .purge logId => if keyPurged = key then some (some (Record.encode logId)) else none
      | _ => none := by
  cases op with
  | append entries =>
    rw [LogOp.writes, lastTouch, lastTouch, Option.none_or, LogWrite.touch, lastWrite_eq_none_iff,
      List.map_map]
    intro hmem
    obtain ⟨entry, -, rfl⟩ := List.mem_map.mp hmem
    exact entryKey_notMem_markers _ h
  | truncate logId =>
    simp [LogOp.writes, lastTouch, touch_deleteRange_marker h, touch_delete_marker h]
  | purge logId =>
    simp [LogOp.writes, lastTouch, touch_deleteRange_marker h, touch_delete_marker h, touch_put]

theorem le_maxIndex (index : UInt64) : index ≤ maxIndex :=
  UInt64.le_iff_toNat_le.mpr (Nat.le_pred_of_lt index.toNat_lt)

theorem lastTouch_truncate (logId : RaftLogId) (index : UInt64) :
    lastTouch ((LogOp.truncate logId : LogOp P).writes (V := V)) (entryKey index) =
      if index < logId.index then none else some none := by
  rw [LogOp.writes, lastTouch, lastTouch, lastTouch, touch_deleteRange_entry, touch_delete_entry,
    Option.none_or]
  by_cases hmax : maxIndex = index
  · have hnot : ¬index < logId.index := UInt64.not_lt.mpr (hmax ▸ le_maxIndex logId.index)
    rw [if_pos hmax, Option.some_or, if_neg hnot]
  · have hlt : index < maxIndex := UInt64.lt_of_le_of_ne (le_maxIndex index) (Ne.symm hmax)
    by_cases hkept : index < logId.index
    · simp [hmax, hkept, UInt64.not_le.mpr hkept]
    · simp [hmax, hkept, hlt, UInt64.not_lt.mp hkept]

theorem lastTouch_purge (logId : RaftLogId) (index : UInt64) :
    lastTouch ((LogOp.purge logId : LogOp P).writes (V := V)) (entryKey index) =
      if logId.index < index then none else some none := by
  have hne : keyPurged ≠ entryKey index := fun heq ↦
    entryKey_notMem_markers index (heq ▸ by decide)
  rw [LogOp.writes, lastTouch, lastTouch, lastTouch, lastTouch, touch_deleteRange_entry,
    touch_delete_entry, touch_put, if_neg hne, Option.none_or, Option.or_none]
  by_cases hsame : logId.index = index
  · rw [if_pos hsame, Option.some_or, if_neg (hsame ▸ UInt64.lt_irrefl _)]
  · by_cases hkept : logId.index < index
    · simp [hsame, hkept, UInt64.not_lt.mpr (UInt64.le_of_lt hkept)]
    · have hlt : index < logId.index :=
        UInt64.lt_of_le_of_ne (UInt64.not_lt.mp hkept) (Ne.symm hsame)
      simp [hsame, hkept, hlt]

/-- Assumes: entries with different indices. Appending leaves each of them under its key. -/
theorem lastTouch_append_entry {entries : List (LogEntry P)} {entry : LogEntry P}
    (hincreasing : entries.Pairwise fun first second ↦ first.logId.index < second.logId.index)
    (hentry : entry ∈ entries) :
    lastTouch ((LogOp.append entries).writes (V := V)) (entryKey entry.logId.index) =
      some (some (Record.encode entry)) := by
  rw [LogOp.writes, lastTouch, lastTouch, Option.none_or, LogWrite.touch]
  refine lastWrite_of_mem (m := .put (entryKey entry.logId.index) (Record.encode entry)) ?_
    (List.mem_map_of_mem hentry)
  rw [List.map_map, List.Nodup, List.pairwise_map]
  refine hincreasing.imp fun hlt heq ↦ ?_
  rw [entryKey_injective heq] at hlt
  exact UInt64.lt_irrefl _ hlt

theorem lastTouch_append_of_forall_ne {entries : List (LogEntry P)} {index : UInt64}
    (h : ∀ entry ∈ entries, entry.logId.index ≠ index) :
    lastTouch ((LogOp.append entries).writes (V := V)) (entryKey index) = none := by
  rw [LogOp.writes, lastTouch, lastTouch, Option.none_or, LogWrite.touch, lastWrite_eq_none_iff,
    List.map_map]
  intro hmem
  obtain ⟨entry, hentry, heq⟩ := List.mem_map.mp hmem
  exact h entry hentry (entryKey_injective heq)

/-- What an operation writes is under a marker or an entry's key. -/
theorem keys_of_lastTouch {op : LogOp P} {key : Bytes} {value : V}
    (h : lastTouch op.writes key = some (some value)) :
    key ∈ markers ∨ ∃ index, key = entryKey index := by
  by_contra hother
  push Not at hother
  have hpurged : keyPurged ≠ key := fun heq ↦ hother.1 (heq ▸ by decide)
  cases op with
  | append entries =>
    have hnone : lastWrite (entries.map fun entry ↦ Mutation.put (entryKey entry.logId.index)
        (Record.encode entry : V)) key = none := by
      rw [lastWrite_eq_none_iff, List.map_map]
      intro hmem
      obtain ⟨entry, -, heq⟩ := List.mem_map.mp hmem
      exact hother.2 entry.logId.index heq.symm
    rw [LogOp.writes, lastTouch, lastTouch, Option.none_or, LogWrite.touch, hnone] at h
    cases h
  | truncate logId =>
    have hmax : entryKey maxIndex ≠ key := fun heq ↦ hother.2 _ heq.symm
    simp [LogOp.writes, lastTouch, LogWrite.touch, lastWrite, hmax] at h
  | purge logId =>
    have hlast : entryKey logId.index ≠ key := fun heq ↦ hother.2 _ heq.symm
    simp only [LogOp.writes, lastTouch, touch_put, if_neg hpurged] at h
    simp [LogWrite.touch, lastWrite, hlast] at h

theorem eq_of_index {entries : List (LogEntry P)} {first second : LogEntry P}
    (h : entries.Pairwise fun first second ↦ first.logId.index < second.logId.index)
    (hfirst : first ∈ entries) (hsecond : second ∈ entries)
    (hindex : first.logId.index = second.logId.index) : first = second := by
  have hnodup : (entries.map (·.logId.index)).Nodup :=
    List.pairwise_map.mpr (h.imp fun hlt ↦ UInt64.ne_of_lt hlt)
  exact List.inj_on_of_nodup_map hnodup hfirst hsecond hindex

/-- An operation that deletes the entries of some indices leaves the others. -/
theorem Stores.filter_iff (h : Stores cf log) (kept : UInt64 → Bool) (index : UInt64) (value : V) :
    (if kept index then none else some none : Option (Option V)).getD cf[entryKey index]? =
        some value ↔
      ∃ entry ∈ log.entries.filter (fun entry ↦ kept entry.logId.index),
        entry.logId.index = index ∧ value = Record.encode entry := by
  split_ifs with hkept
  · rw [Option.getD_none, h.entries]
    refine exists_congr fun entry ↦ and_congr_left fun hentry ↦ ?_
    rw [List.mem_filter, hentry.1]
    exact ⟨fun hmem ↦ ⟨hmem, hkept⟩, And.left⟩
  · refine ⟨fun hnone ↦ (by cases hnone), ?_⟩
    rintro ⟨entry, hentry, rfl, -⟩
    exact absurd (List.mem_filter.mp hentry).2 hkept

/-- An operation that openraft makes leads to the column family of the log it leads to. -/
theorem Stores.step (h : Stores cf log) {op : LogOp P} (hstep : log.Step op after) :
    Stores (op.apply cf) after := by
  have hread (key : Bytes) : (op.apply cf)[key]? = (lastTouch op.writes key).getD cf[key]? :=
    getElem?_writeEach cf op.writes key
  refine ⟨?_, fun index value ↦ ?_, fun key hkey ↦ ?_⟩
  · rw [hread, lastTouch_marker op (by decide), h.purged]
    cases hstep with
    | append => rfl
    | truncate => rfl
    | purge logId => exact congrArg (Option.getD · _) (if_pos rfl)
  · rw [hread]
    cases hstep with
    | @append entries hfollow =>
      have hincreasing := hfollow.increasing
      by_cases hnew : ∃ entry ∈ entries, entry.logId.index = index
      · obtain ⟨entry, hentry, rfl⟩ := hnew
        rw [lastTouch_append_entry (List.pairwise_append.mp hincreasing).2.1 hentry,
          Option.getD_some, Option.some.injEq]
        constructor
        · rintro rfl
          exact ⟨entry, List.mem_append_right _ hentry, rfl, rfl⟩
        · rintro ⟨other, hother, hindex, rfl⟩
          rw [eq_of_index hincreasing hother (List.mem_append_right _ hentry) hindex]
      · push Not at hnew
        rw [lastTouch_append_of_forall_ne hnew, Option.getD_none, h.entries]
        refine exists_congr fun entry ↦ and_congr_left fun hentry ↦ ?_
        exact ⟨List.mem_append_left _, fun hmem ↦ (List.mem_append.mp hmem).resolve_right fun hin ↦
          hnew entry hin hentry.1⟩
    | truncate logId =>
      rw [lastTouch_truncate]
      simpa [Log.truncate] using h.filter_iff (fun index ↦ index < logId.index) index value
    | purge logId =>
      rw [lastTouch_purge]
      simpa [Log.purge] using h.filter_iff (fun index ↦ logId.index < index) index value
  · have hsome : ((lastTouch (op.writes (V := V)) key).getD cf[key]?).isSome := by
      rw [← hread]
      exact Std.ExtTreeMap.mem_iff_isSome_getElem?.mp hkey
    cases hwritten : lastTouch (op.writes (V := V)) key with
    | none =>
      rw [hwritten] at hsome
      exact h.others key (Std.ExtTreeMap.mem_iff_isSome_getElem?.mpr hsome)
    | some value =>
      rw [hwritten] at hsome
      obtain ⟨found, rfl⟩ := Option.isSome_iff_exists.mp hsome
      exact keys_of_lastTouch hwritten

theorem getElem?_apply_of_ne_purged (op : LogOp P) {key : Bytes} (hmarker : key ∈ markers)
    (hne : keyPurged ≠ key) : (op.apply cf)[key]? = cf[key]? := by
  rw [LogOp.apply, getElem?_writeEach, lastTouch_marker op hmarker]
  cases op with
  | append => rfl
  | truncate => rfl
  | purge logId => exact congrArg (Option.getD · _) (if_neg hne)

/-- A run keeps the log, and leaves the vote and the committed marker alone. -/
theorem Stores.run {ops : List (LogOp P)} (h : Stores cf log)
    (hrun : Trace Log.Step log ops after) :
    Stores (ops.foldl LogOp.apply cf) after ∧ ∀ key ∈ markers, keyPurged ≠ key →
      (ops.foldl LogOp.apply cf)[key]? = cf[key]? := by
  refine hrun.invariant (P := fun done log ↦ Stores (done.foldl LogOp.apply cf) log ∧
    ∀ key ∈ markers, keyPurged ≠ key → (done.foldl LogOp.apply cf)[key]? = cf[key]?)
    ⟨h, fun _ _ _ ↦ rfl⟩ ?_
  rintro done op mid after - ⟨hstores, hkept⟩ hstep
  rw [List.foldl_concat]
  exact ⟨hstores.step hstep, fun key hmarker hne ↦
    (getElem?_apply_of_ne_purged op hmarker hne).trans (hkept key hmarker hne)⟩

/-- After every sequence of operations that openraft makes: reading a range with finite bounds gives
the entries of the log in the range, in index order; the log state is the purge point and the last
entry, or the purge point if there is none; the vote and the committed marker are as they were; and
an operation that stopped after any of its writes and is issued again leads to what it leads to when
issued once. -/
theorem log_store_refines {ops : List (LogOp P)} (h : Stores cf log)
    (hrun : Trace Log.Step log ops after) :
    let stored := ops.foldl LogOp.apply cf
    (∀ first last : Bound, first.Finite → last.Finite → tryGetLogEntries stored first last =
      .ok (after.entries.filter fun entry ↦
        first.Starts entry.logId.index ∧ last.Stops entry.logId.index)) ∧
    (after.entries.Pairwise fun first second ↦ first.logId.index < second.logId.index) ∧
    getLogState P stored = .ok { lastPurgedLogId := after.purged, lastLogId := after.lastLogId } ∧
    stored[keyVote]? = cf[keyVote]? ∧ stored[keyCommitted]? = cf[keyCommitted]? ∧
    ∀ (op : LogOp P) (count : ℕ),
      op.apply (writeEach stored (op.writes.take count)) = op.apply stored := by
  obtain ⟨hstores, hkept⟩ := h.run hrun
  refine ⟨fun first last hfirst hlast ↦ hstores.tryGetLogEntries_eq hfirst hlast, after.increasing,
    hstores.getLogState_eq, hkept keyVote (by decide) (by decide),
    hkept keyCommitted (by decide) (by decide), fun op count ↦ ?_⟩
  have hagain := writeEach_again (ops.foldl LogOp.apply cf) ((op.writes (V := V)).take count)
    (op.writes.drop count)
  rwa [List.take_append_drop] at hagain

theorem stores_empty : Stores (∅ : ColumnFamily V) (Log.empty : Log P) where
  purged := Std.ExtTreeMap.getElem?_empty
  entries index value := by simp [Log.empty]
  others key hkey := absurd hkey Std.ExtTreeMap.not_mem_empty

end Refinement

/-! A log of three entries loses its first to a purge and its last to a truncation. -/

/-- What the store keeps under a key. -/
inductive LogValue (P : Type)
  | logId (logId : RaftLogId)
  | entry (entry : LogEntry P)

instance : Record (LogValue P) RaftLogId where
  encode := .logId
  decode
    | .logId logId => some logId
    | .entry _ => none
  decode_encode _ := rfl

instance : Record (LogValue P) (LogEntry P) where
  encode := .entry
  decode
    | .entry entry => some entry
    | .logId _ => none
  decode_encode _ := rfl

def entryAt (index : UInt64) : LogEntry Unit := ⟨⟨⟨1, 1⟩, index⟩, ()⟩

def threeOps : List (LogOp Unit) :=
  [.append [entryAt 0, entryAt 1, entryAt 2], .purge (entryAt 0).logId, .truncate (entryAt 2).logId]

theorem follow_empty : (Log.empty : Log Unit).Follow [entryAt 0, entryAt 1, entryAt 2] := by decide

/-- The middle entry is left. -/
theorem log_store_refines_three_ops :
    tryGetLogEntries (threeOps.foldl LogOp.apply (∅ : ColumnFamily (LogValue Unit))) (.included 0)
      (.excluded 9) = .ok [entryAt 1] := by
  have hrun : Trace Log.Step (Log.empty : Log Unit) threeOps
      (((Log.empty.append _ follow_empty).purge (entryAt 0).logId).truncate (entryAt 2).logId) :=
    .concat (.concat (.concat .nil (.append follow_empty)) (.purge _ _)) (.truncate _ _)
  exact (log_store_refines stores_empty hrun).1 (.included 0) (.excluded 9) (by decide) (by decide)

end DalService.Partition.LogStore
