import DalService.Foundation.ByteString
import DalService.Foundation.SortedList

/-!
# Column families, atomic batches and write overlays

A column family maps byte keys to values and iterates them in key order. A batch is a list of puts
and deletes, written in order (`writeAll`). What a batch does to one key is its last write to that
key (`lastWrite`, `getElem?_writeAll`).

An overlay stages batches over a base column family without writing them. Reading through it is
reading the base after every staged batch (`Overlay.read_stage_new`), and writing one mutation per
staged key, in any order the hash map hands them out, leaves the column family that writing every
staged mutation in turn leaves (`Overlay.writeAll_intoMutations`).

`Record` is a type of records kept in a column family whose values are shared with other types:
encoding succeeds, and decoding what was encoded gives the record back.
-/

set_option autoImplicit false

namespace DalService.Foundation

/-! ### Records by name -/

section Update

variable {K T : Type} [DecidableEq K] {f : K → Option T} {name other : K} {found : T}

/-- A record that stands after one was put is that record, or stood before under another name. -/
theorem update_eq_some {record : T} (h : Function.update f name (some record) other = some found) :
    (other = name ∧ record = found) ∨ (other ≠ name ∧ f other = some found) := by
  by_cases hother : other = name
  · rw [hother, Function.update_self] at h
    exact .inl ⟨hother, Option.some.inj h⟩
  · rw [Function.update_of_ne hother] at h
    exact .inr ⟨hother, h⟩

/-- A record that stands after one was deleted stood before, under another name. -/
theorem update_none_eq_some (h : Function.update f name none other = some found) :
    other ≠ name ∧ f other = some found := by
  by_cases hother : other = name
  · rw [hother, Function.update_self] at h
    cases h
  · exact ⟨hother, by rwa [Function.update_of_ne hother] at h⟩

theorem ne_none_of_update {record : T} (h : f other ≠ none) :
    Function.update f name (some record) other ≠ none := by
  by_cases hother : other = name
  · simp [hother]
  · rwa [Function.update_of_ne hother]

end Update

/-! ### Column families and batches -/

/-- A column family: byte keys to values, iterated in key order. -/
abbrev ColumnFamily (V : Type) := Std.ExtTreeMap Bytes V

/-- One write of a batch. -/
inductive Mutation (V : Type)
  | put (key : Bytes) (value : V)
  | delete (key : Bytes)
  deriving DecidableEq, Repr

variable {V : Type}

namespace Mutation

/-- The key a mutation writes. -/
def key : Mutation V → Bytes
  | .put key _ => key
  | .delete key => key

/-- What a mutation leaves under its key. -/
def value : Mutation V → Option V
  | .put _ value => some value
  | .delete _ => none

@[simp] theorem key_put (key : Bytes) (value : V) : (put key value).key = key := rfl

@[simp] theorem key_delete (key : Bytes) : (delete key : Mutation V).key = key := rfl

@[simp] theorem value_put (key : Bytes) (value : V) : (put key value).value = some value := rfl

@[simp] theorem value_delete (key : Bytes) : (delete key : Mutation V).value = none := rfl

end Mutation

/-! ### Writing a batch -/

namespace ColumnFamily

/-- Apply one mutation. -/
def write (cf : ColumnFamily V) : Mutation V → ColumnFamily V
  | .put key value => cf.insert key value
  | .delete key => cf.erase key

/-- Apply a batch, in order. -/
def writeAll (cf : ColumnFamily V) (batch : List (Mutation V)) : ColumnFamily V :=
  batch.foldl write cf

@[simp] theorem writeAll_nil (cf : ColumnFamily V) : writeAll cf [] = cf := rfl

@[simp] theorem writeAll_cons (cf : ColumnFamily V) (m : Mutation V) (batch : List (Mutation V)) :
    writeAll cf (m :: batch) = writeAll (write cf m) batch := rfl

theorem writeAll_append (cf : ColumnFamily V) (first second : List (Mutation V)) :
    writeAll cf (first ++ second) = writeAll (writeAll cf first) second :=
  List.foldl_append

theorem getElem?_write (cf : ColumnFamily V) (m : Mutation V) (k : Bytes) :
    (write cf m)[k]? = if m.key = k then m.value else cf[k]? := by
  cases m with
  | put key value =>
    rw [write, Std.ExtTreeMap.getElem?_insert]
    by_cases hkey : key = k <;> simp [hkey]
  | delete key =>
    rw [write, Std.ExtTreeMap.getElem?_erase]
    by_cases hkey : key = k <;> simp [hkey]

/-- Delete the keys from `first` up to but without `last`. -/
def deleteRange (cf : ColumnFamily V) (first last : Bytes) : ColumnFamily V :=
  cf.filter fun key _ ↦ !((compare first key).isLE && compare key last == .lt)

theorem getElem?_deleteRange (cf : ColumnFamily V) (first last key : Bytes) :
    (deleteRange cf first last)[key]? =
      if (compare first key).isLE ∧ compare key last = .lt then none else cf[key]? := by
  rw [deleteRange, Std.ExtTreeMap.getElem?_filter']
  split_ifs with h
  · cases cf[key]? <;> simp [h]
  · cases cf[key]? with
    | none => rfl
    | some value =>
      have hkept : (!((compare first key).isLE && compare key last == .lt)) = true := by
        rw [Bool.not_eq_true', Bool.eq_false_iff]
        intro hin
        rw [Bool.and_eq_true, beq_iff_eq] at hin
        exact h hin
      exact if_pos hkept

/-! ### Iterating -/

/-- The rows from a key on, in key order. -/
def seek (cf : ColumnFamily V) (key : Bytes) : List (Bytes × V) :=
  cf.toList.dropWhile fun row ↦ compare row.1 key == .lt

/-- The row with the highest key at or below a key. -/
def seekForPrev (cf : ColumnFamily V) (key : Bytes) : Option (Bytes × V) :=
  (cf.toList.filter fun row ↦ (compare row.1 key).isLE).getLast?

/-- Assumes: rows in strict key order. They are the iteration of the column family that holds
them. -/
theorem toList_eq {cf : ColumnFamily V} {rows : List (Bytes × V)}
    (hordered : rows.Pairwise fun first second ↦ compare first.1 second.1 = .lt)
    (hrows : ∀ row, row ∈ rows ↔ cf[row.1]? = some row.2) : cf.toList = rows := by
  have hnodup : ∀ {list : List (Bytes × V)},
      list.Pairwise (fun first second ↦ compare first.1 second.1 = .lt) → list.Nodup := by
    intro list hlist
    refine hlist.imp fun hlt heq ↦ ?_
    rw [heq, Std.compare_self] at hlt
    cases hlt
  have hkeys := Std.ExtTreeMap.ordered_keys_toList (t := cf)
  have hperm : cf.toList.Perm rows :=
    (List.perm_ext_iff_of_nodup (hnodup hkeys) (hnodup hordered)).mpr fun row ↦
      Std.ExtTreeMap.mem_toList_iff_getElem?_eq_some.trans (hrows row).symm
  refine hperm.eq_of_pairwise (fun first second _ _ hlt hgt ↦ ?_) hkeys hordered
  rw [Std.OrientedCmp.gt_of_lt hlt] at hgt
  cases hgt

/-- The rows under a key prefix: from the prefix on, up to the first key that does not start with
it. -/
def scan (cf : ColumnFamily V) (front : Bytes) : List (Bytes × V) :=
  (cf.seek front).takeWhile fun row ↦ front.isPrefixOf row.1

theorem scan_eq_filter (cf : ColumnFamily V) (front : Bytes) :
    cf.scan front = cf.toList.filter fun row ↦ front.isPrefixOf row.1 := by
  have hordered : cf.toList.Pairwise fun first second ↦ compare first.1 second.1 = .lt :=
    Std.ExtTreeMap.ordered_keys_toList
  have hseek : cf.seek front = cf.toList.filter fun row ↦ !(compare row.1 front == .lt) := by
    refine dropWhile_eq_filter (hordered.imp fun {first second} hlt hsecond ↦ ?_)
    rw [beq_iff_eq] at hsecond ⊢
    exact Std.TransCmp.lt_trans hlt hsecond
  have hbefore {row : Bytes × V} (hrow : front.isPrefixOf row.1 = true) :
      compare row.1 front ≠ .lt := by
    obtain ⟨rest, hrest⟩ := List.isPrefixOf_iff_prefix.mp hrow
    rw [← hrest]
    have hsplit := compare_append (rfl : front.length = front.length) rest []
    rw [List.append_nil, Std.compare_self, Ordering.eq_then] at hsplit
    rw [hsplit]
    cases rest <;> simp
  rw [scan, takeWhile_eq_filter, hseek, List.filter_filter]
  · refine List.filter_congr fun row _ ↦ ?_
    cases hrow : front.isPrefixOf row.1 with
    | false => rfl
    | true => simp [hbefore hrow]
  · rw [hseek]
    refine (hordered.sublist List.filter_sublist).imp_of_mem
      fun {first second} hfirst _ hlt hsecond ↦ ?_
    by_contra hnot
    have hafter := (List.mem_filter.mp hfirst).2
    have hgt := compare_eq_lt_of_isPrefix (List.isPrefixOf_iff_prefix.mp hsecond)
      (fun h ↦ hnot (List.isPrefixOf_iff_prefix.mpr h)) (by simpa using hafter)
    rw [Std.OrientedCmp.gt_of_lt hgt] at hlt
    cases hlt

theorem mem_scan {cf : ColumnFamily V} {front : Bytes} {row : Bytes × V} :
    row ∈ cf.scan front ↔ cf[row.1]? = some row.2 ∧ front <+: row.1 := by
  rw [scan_eq_filter, List.mem_filter, Std.ExtTreeMap.mem_toList_iff_getElem?_eq_some,
    List.isPrefixOf_iff_prefix]

/-- The rows under a prefix come in key order. -/
theorem pairwise_scan (cf : ColumnFamily V) (front : Bytes) :
    (cf.scan front).Pairwise fun first second ↦ compare first.1 second.1 = .lt := by
  rw [scan_eq_filter]
  exact Std.ExtTreeMap.ordered_keys_toList.sublist List.filter_sublist

end ColumnFamily

/-- The last write of a batch to a key: absent if the batch leaves the key alone. -/
def lastWrite : List (Mutation V) → Bytes → Option (Option V)
  | [], _ => none
  | m :: batch, k => (lastWrite batch k).or (if m.key = k then some m.value else none)

theorem lastWrite_append (first second : List (Mutation V)) (k : Bytes) :
    lastWrite (first ++ second) k = (lastWrite second k).or (lastWrite first k) := by
  induction first with
  | nil => rw [List.nil_append, lastWrite, Option.or_none]
  | cons m first ih => rw [List.cons_append, lastWrite, lastWrite, ih, Option.or_assoc]

/-- A batch changes a key to its last write, and leaves the other keys alone. -/
theorem getElem?_writeAll (cf : ColumnFamily V) (batch : List (Mutation V)) (k : Bytes) :
    (cf.writeAll batch)[k]? = (lastWrite batch k).getD cf[k]? := by
  induction batch generalizing cf with
  | nil => rfl
  | cons m batch ih =>
    rw [ColumnFamily.writeAll_cons, ih, lastWrite, ColumnFamily.getElem?_write]
    cases lastWrite batch k with
    | some written => rfl
    | none => split_ifs <;> rfl

/-- A batch of deletes leaves the other keys alone. -/
theorem getElem?_deleteAll (cf : ColumnFamily V) (keys : List Bytes) (k : Bytes) :
    (cf.writeAll (keys.map .delete))[k]? = if k ∈ keys then none else cf[k]? := by
  induction keys generalizing cf with
  | nil => simp
  | cons key keys ih =>
    rw [List.map_cons, ColumnFamily.writeAll_cons, ih, ColumnFamily.getElem?_write]
    by_cases hkey : key = k
    · simp [hkey]
    · simp [hkey, Ne.symm hkey]

/-- A batch of deletes leaves the other rows in their order. -/
theorem toList_deleteAll (cf : ColumnFamily V) (keys : List Bytes) :
    (cf.writeAll (keys.map .delete)).toList = cf.toList.filter fun row ↦ decide (row.1 ∉ keys) := by
  refine ColumnFamily.toList_eq
    (Std.ExtTreeMap.ordered_keys_toList.sublist List.filter_sublist) fun row ↦ ?_
  rw [List.mem_filter, Std.ExtTreeMap.mem_toList_iff_getElem?_eq_some, getElem?_deleteAll]
  by_cases hkey : row.1 ∈ keys
  · simp [hkey]
  · simp [hkey]

/-- A write is without effect before a later write to the same key. -/
theorem writeAll_cons_of_overwritten (cf : ColumnFamily V) {m last : Mutation V}
    (hkey : m.key = last.key) (batch : List (Mutation V)) :
    cf.writeAll (m :: (batch ++ [last])) = cf.writeAll (batch ++ [last]) := by
  refine Std.ExtTreeMap.ext_getElem? fun k ↦ ?_
  rw [getElem?_writeAll, getElem?_writeAll, lastWrite, lastWrite_append]
  by_cases hk : last.key = k
  · simp [lastWrite, hk]
  · rw [if_neg (hkey ▸ hk), Option.or_none]

theorem lastWrite_eq_none_iff {batch : List (Mutation V)} {k : Bytes} :
    lastWrite batch k = none ↔ k ∉ batch.map Mutation.key := by
  induction batch with
  | nil => simp [lastWrite]
  | cons m batch ih =>
    rw [lastWrite, Option.or_eq_none_iff, ih, List.map_cons, List.mem_cons, not_or, and_comm,
      eq_comm (a := k)]
    simp

/-- Assumes: a batch that writes each key once. A mutation of the batch is the last write to its
key. -/
theorem lastWrite_of_mem {batch : List (Mutation V)} (hdistinct : (batch.map Mutation.key).Nodup)
    {m : Mutation V} (hm : m ∈ batch) : lastWrite batch m.key = some m.value := by
  induction batch with
  | nil => simp at hm
  | cons head batch ih =>
    rw [List.map_cons, List.nodup_cons] at hdistinct
    rw [lastWrite]
    rcases List.mem_cons.mp hm with rfl | htail
    · rw [lastWrite_eq_none_iff.mpr hdistinct.1, Option.none_or, if_pos rfl]
    · rw [ih hdistinct.2 htail, Option.some_or]

/-- The last write to a key is one of the batch. -/
theorem mem_of_lastWrite {batch : List (Mutation V)} {m : Mutation V}
    (h : lastWrite batch m.key = some m.value) : m ∈ batch := by
  induction batch with
  | nil => simp [lastWrite] at h
  | cons head batch ih =>
    rw [lastWrite, Option.or_eq_some_iff] at h
    rcases h with htail | ⟨-, hhead⟩
    · exact List.mem_cons_of_mem head (ih htail)
    · split_ifs at hhead with hkey
      have hsame : head = m := by
        cases head <;> cases m <;> simp_all [Mutation.key, Mutation.value]
      exact hsame ▸ List.mem_cons_self

/-! ### Write overlays -/

/-- The order in which a hash map hands out its entries: each of them once, in an order of its
own. -/
structure HashOrder (V : Type) where
  entries : Std.ExtTreeMap Bytes (Option V) → List (Bytes × Option V)
  perm : ∀ pending, (entries pending).Perm pending.toList

/-- Handing the entries out in key order. -/
def HashOrder.ascending (V : Type) : HashOrder V where
  entries := fun pending ↦ pending.toList
  perm := fun _ ↦ List.Perm.rfl

/-- Writes staged over a base column family: the last write to each key touched so far. -/
structure Overlay (V : Type) where
  base : ColumnFamily V
  pending : Std.ExtTreeMap Bytes (Option V)

namespace Overlay

/-- An overlay with nothing staged. -/
def new (base : ColumnFamily V) : Overlay V where
  base := base
  pending := ∅

/-- Stage one mutation: the last write to a key wins. -/
def stageOne (overlay : Overlay V) (m : Mutation V) : Overlay V :=
  { overlay with pending := overlay.pending.insert m.key m.value }

/-- Stage a batch, in order. -/
def stage (overlay : Overlay V) (batch : List (Mutation V)) : Overlay V :=
  batch.foldl stageOne overlay

/-- Read a key: a staged write if there is one, else the base. -/
def read (overlay : Overlay V) (k : Bytes) : Option V :=
  match overlay.pending[k]? with
  | some staged => staged
  | none => overlay.base[k]?

/-- One mutation per staged key, in the order the hash map hands them out. -/
def intoMutations (order : HashOrder V) (overlay : Overlay V) : List (Mutation V) :=
  (order.entries overlay.pending).map fun entry ↦
    match entry.2 with
    | some value => .put entry.1 value
    | none => .delete entry.1

@[simp] theorem base_stage (overlay : Overlay V) (batch : List (Mutation V)) :
    (overlay.stage batch).base = overlay.base := by
  induction batch generalizing overlay with
  | nil => rfl
  | cons m batch ih => exact ih _

/-- What is staged under a key is the last write to it. -/
theorem pending_stage (overlay : Overlay V) (batch : List (Mutation V)) (k : Bytes) :
    (overlay.stage batch).pending[k]? = (lastWrite batch k).or overlay.pending[k]? := by
  induction batch generalizing overlay with
  | nil => rw [lastWrite, Option.none_or]; rfl
  | cons m batch ih =>
    change ((overlay.stageOne m).stage batch).pending[k]? = _
    rw [ih, lastWrite, Option.or_assoc]
    congr 1
    change (overlay.pending.insert m.key m.value)[k]? = _
    rw [Std.ExtTreeMap.getElem?_insert]
    simp only [Std.compare_eq_iff_eq]
    split_ifs <;> rfl

theorem stage_append (overlay : Overlay V) (first second : List (Mutation V)) :
    overlay.stage (first ++ second) = (overlay.stage first).stage second :=
  List.foldl_append

/-- Reading through an overlay is reading the base after every staged batch. -/
theorem read_stage_new (base : ColumnFamily V) (batch : List (Mutation V)) (k : Bytes) :
    ((new base).stage batch).read k = (base.writeAll batch)[k]? := by
  have hempty : (new base).pending[k]? = none := Std.ExtTreeMap.getElem?_empty
  rw [getElem?_writeAll, read, pending_stage, hempty, Option.or_none, base_stage]
  cases lastWrite batch k <;> rfl

theorem key_intoMutations (order : HashOrder V) (overlay : Overlay V) :
    (overlay.intoMutations order).map Mutation.key =
    (order.entries overlay.pending).map Prod.fst := by
  rw [intoMutations, List.map_map]
  refine List.map_congr_left fun entry _ ↦ ?_
  rcases entry with ⟨key, _ | value⟩ <;> rfl

theorem nodup_key_intoMutations (order : HashOrder V) (overlay : Overlay V) :
    ((overlay.intoMutations order).map Mutation.key).Nodup := by
  rw [key_intoMutations]
  refine ((order.perm overlay.pending).map Prod.fst).nodup_iff.mpr ?_
  have hdistinct := Std.ExtTreeMap.distinct_keys_toList (t := overlay.pending)
  rw [List.Nodup, List.pairwise_map]
  exact hdistinct.imp fun hne heq ↦ hne (Std.compare_eq_iff_eq.mpr heq)

/-- The collapsed batch writes to each key what is staged under it. -/
theorem lastWrite_intoMutations (order : HashOrder V) (overlay : Overlay V) (k : Bytes) :
    lastWrite (overlay.intoMutations order) k = overlay.pending[k]? := by
  cases hstaged : overlay.pending[k]? with
  | none =>
    rw [lastWrite_eq_none_iff, key_intoMutations]
    intro hmem
    obtain ⟨⟨key, written⟩, hentry, rfl⟩ := List.mem_map.mp hmem
    have hlookup := Std.ExtTreeMap.mem_toList_iff_getElem?_eq_some.mp
      ((order.perm overlay.pending).mem_iff.mp hentry)
    rw [hstaged] at hlookup
    simp at hlookup
  | some written =>
    have hentry : (k, written) ∈ order.entries overlay.pending :=
      (order.perm overlay.pending).mem_iff.mpr
        (Std.ExtTreeMap.mem_toList_iff_getElem?_eq_some.mpr hstaged)
    have hmem := List.mem_map_of_mem (f := fun entry : Bytes × Option V ↦
      match entry.2 with
      | some value => Mutation.put entry.1 value
      | none => Mutation.delete entry.1) hentry
    have hlast := lastWrite_of_mem (overlay.nodup_key_intoMutations order) hmem
    cases written <;> exact hlast

/-- Writing one mutation per staged key, in any order, leaves what writing every staged mutation in
turn leaves. -/
theorem writeAll_intoMutations (order : HashOrder V) (base : ColumnFamily V)
    (batch : List (Mutation V)) :
    base.writeAll (((new base).stage batch).intoMutations order) = base.writeAll batch := by
  refine Std.ExtTreeMap.ext_getElem? fun k ↦ ?_
  have hempty : (new base).pending[k]? = none := Std.ExtTreeMap.getElem?_empty
  rw [getElem?_writeAll, getElem?_writeAll, lastWrite_intoMutations, pending_stage, hempty,
    Option.or_none]

/-- The collapsed batch writes the keys that were staged. -/
theorem mem_key_intoMutations (order : HashOrder V) (base : ColumnFamily V)
    (batch : List (Mutation V)) (k : Bytes) :
    k ∈ (((new base).stage batch).intoMutations order).map Mutation.key ↔
      k ∈ batch.map Mutation.key := by
  have hempty : (new base).pending[k]? = none := Std.ExtTreeMap.getElem?_empty
  rw [← not_iff_not, ← lastWrite_eq_none_iff, ← lastWrite_eq_none_iff, lastWrite_intoMutations,
    pending_stage, hempty, Option.or_none]

/-- The collapsed batch is made of staged mutations, each taken at most once. -/
theorem subperm_intoMutations (order : HashOrder V) (base : ColumnFamily V)
    (batch : List (Mutation V)) :
    (((new base).stage batch).intoMutations order).Subperm batch := by
  refine List.subperm_of_subset
    (List.Nodup.of_map Mutation.key (nodup_key_intoMutations order _)) fun m hm ↦ ?_
  have hempty : (new base).pending[m.key]? = none := Std.ExtTreeMap.getElem?_empty
  have hlast := lastWrite_of_mem (nodup_key_intoMutations order _) hm
  rw [lastWrite_intoMutations, pending_stage, hempty, Option.or_none] at hlast
  exact mem_of_lastWrite hlast

end Overlay

/-! ### Typed records -/

/-- Records of a type `T` among the values `V` of a column family. -/
class Record (V T : Type) where
  encode : T → V
  decode : V → Option T
  decode_encode : ∀ record, decode (encode record) = some record

attribute [simp] Record.decode_encode

end DalService.Foundation
