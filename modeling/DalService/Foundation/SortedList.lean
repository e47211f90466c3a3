import Mathlib

/-!
# Keyed search in a sorted list

`binarySearchBy` is what a binary search of a list sorted by a key returns: the position of the
element with the key, or the position where such an element would keep the list sorted. `insertWith`
changes the element with a key, or inserts one at its place; `upsert` sets it. The keys stay sorted
(`pairwise_insertWith`), and only what is under the key changes (`mem_insertWith`).
-/

set_option autoImplicit false

namespace DalService.Foundation

section Search

variable {T K : Type} [Ord K]

/-- Search a list sorted by a key: the position of the element with the key, or else the first
position whose key is above. -/
def binarySearchBy (key : T → K) (target : K) (items : List T) : Except ℕ (Fin items.length) :=
  let position := items.findIdx fun item ↦ (compare (key item) target).isGE
  if hposition : position < items.length then
    if compare (key items[position]) target = .eq then .ok ⟨position, hposition⟩
    else .error position
  else .error position

/-- Search a sorted list of keys. -/
def binarySearch (target : K) (items : List K) : Except ℕ (Fin items.length) :=
  binarySearchBy id target items

/-- Change the element with the key of the new one, or insert the new one at its place. -/
def insertWith (key : T → K) (change : T → T) (item : T) (items : List T) : List T :=
  match binarySearchBy key (key item) items with
  | .ok position => items.modify position change
  | .error position => items.insertIdx position item

/-- Set the element with the key of the new one, or insert it at its place. -/
def upsert (key : T → K) (item : T) (items : List T) : List T :=
  match binarySearchBy key (key item) items with
  | .ok position => items.set position item
  | .error position => items.insertIdx position item

theorem upsert_eq_insertWith (key : T → K) (item : T) (items : List T) :
    upsert key item items = insertWith key (fun _ ↦ item) item items := by
  unfold upsert insertWith
  cases binarySearchBy key (key item) items with
  | ok position => exact List.set_eq_modify ..
  | error position => rfl

theorem le_length_of_binarySearchBy_error {key : T → K} {target : K} {items : List T}
    {position : ℕ} (h : binarySearchBy key target items = .error position) :
    position ≤ items.length := by
  unfold binarySearchBy at h
  simp only at h
  split_ifs at h <;> cases h <;> exact List.findIdx_le_length

/-- An insertion changes a list. -/
theorem insertIdx_ne_self {items : List T} {position : ℕ} (h : position ≤ items.length) (item : T) :
    items.insertIdx position item ≠ items := by
  intro heq
  have hlength := congrArg List.length heq
  rw [List.length_insertIdx_of_le_length h] at hlength
  omega

theorem binarySearchBy_cons (key : T → K) (target : K) (item : T) (items : List T) :
    binarySearchBy key target (item :: items) =
      match compare (key item) target with
      | .gt => .error 0
      | .eq => .ok ⟨0, Nat.zero_lt_succ _⟩
      | .lt =>
        match binarySearchBy key target items with
        | .ok position => .ok position.succ
        | .error position => .error (position + 1) := by
  unfold binarySearchBy
  cases hcompare : compare (key item) target with
  | gt | eq => simp [List.findIdx_cons, hcompare]
  | lt =>
    simp only [List.findIdx_cons, hcompare, Ordering.isGE_lt, cond_false, List.length_cons,
      Nat.add_lt_add_iff_right, List.getElem_cons_succ]
    split_ifs <;> rfl

@[simp] theorem insertWith_nil (key : T → K) (change : T → T) (item : T) :
    insertWith key change item [] = [item] := rfl

theorem insertWith_cons (key : T → K) (change : T → T) (item first : T) (items : List T) :
    insertWith key change item (first :: items) =
      match compare (key first) (key item) with
      | .lt => first :: insertWith key change item items
      | .eq => change first :: items
      | .gt => item :: first :: items := by
  unfold insertWith
  rw [binarySearchBy_cons]
  cases compare (key first) (key item) with
  | lt => cases binarySearchBy key (key item) items <;> rfl
  | eq => rfl
  | gt => rfl

end Search

/-! ### Sorted lists -/

section Sorted

variable {T K : Type} [Ord K] [Std.LawfulEqOrd K] [Std.TransOrd K] {key : T → K} {items : List T}

/-- Assumes: a list sorted by its keys. The element with the key of the new one is changed, or the
new one is added; the rest is as it was. -/
theorem mem_insertWith (hsorted : items.Pairwise fun a b ↦ compare (key a) (key b) = .lt)
    (change : T → T) (item other : T) :
    other ∈ insertWith key change item items ↔
      (∃ old ∈ items, key old = key item ∧ other = change old) ∨
      ((∀ old ∈ items, key old ≠ key item) ∧ other = item) ∨
      (other ∈ items ∧ key other ≠ key item) := by
  induction items with
  | nil => simp
  | cons first items ih =>
    obtain ⟨habove, hsorted⟩ := List.pairwise_cons.mp hsorted
    rw [insertWith_cons]
    cases hcompare : compare (key first) (key item) with
    | lt =>
      have hne : key first ≠ key item := fun heq ↦ by simp [heq] at hcompare
      rw [List.mem_cons, ih hsorted]
      grind
    | eq =>
      have hkey : key first = key item := Std.compare_eq_iff_eq.mp hcompare
      have hlater : ∀ later ∈ items, key later ≠ key item := fun later hlater heq ↦ by
        have hlt := habove later hlater
        simp [hkey, heq] at hlt
      grind
    | gt =>
      have hlater : ∀ later ∈ first :: items, key later ≠ key item := by
        intro later hlater heq
        have hlt : compare (key item) (key first) = .lt := Std.OrientedCmp.lt_of_gt hcompare
        rcases List.mem_cons.mp hlater with rfl | hlater
        · simp [heq] at hlt
        · have := Std.TransCmp.lt_trans hlt (habove later hlater)
          simp [heq] at this
      grind

/-- The keys stay sorted. -/
theorem pairwise_insertWith (hsorted : items.Pairwise fun a b ↦ compare (key a) (key b) = .lt)
    (change : T → T) (item : T)
    (hchange : ∀ old, key old = key item → key (change old) = key item) :
    (insertWith key change item items).Pairwise fun a b ↦ compare (key a) (key b) = .lt := by
  induction items with
  | nil => simp
  | cons first items ih =>
    obtain ⟨habove, htail⟩ := List.pairwise_cons.mp hsorted
    rw [insertWith_cons]
    cases hcompare : compare (key first) (key item) with
    | lt =>
      refine List.pairwise_cons.mpr ⟨fun later hlater ↦ ?_, ih htail⟩
      rcases (mem_insertWith htail change item later).mp hlater with
        ⟨old, hold, hkey, rfl⟩ | ⟨-, rfl⟩ | ⟨hlater, -⟩
      · rwa [hchange old hkey]
      · exact hcompare
      · exact habove later hlater
    | eq =>
      have hkey : key first = key item := Std.compare_eq_iff_eq.mp hcompare
      refine List.pairwise_cons.mpr ⟨fun later hlater ↦ ?_, htail⟩
      rw [hchange first hkey, ← hkey]
      exact habove later hlater
    | gt =>
      have hlt : compare (key item) (key first) = .lt := Std.OrientedCmp.lt_of_gt hcompare
      refine List.pairwise_cons.mpr ⟨fun later hlater ↦ ?_, hsorted⟩
      rcases List.mem_cons.mp hlater with rfl | hlater
      · exact hlt
      · exact Std.TransCmp.lt_trans hlt (habove later hlater)

end Sorted

/-! ### Lists of numbers -/

variable {T : Type}

theorem pairwise_compare_iff {key : T → UInt64} {items : List T} :
    (items.Pairwise fun a b ↦ compare (key a) (key b) = .lt) ↔
    (items.map key).Pairwise (· < ·) := by
  simp only [List.pairwise_map, Std.compare_eq_lt]

/-- Inserting a key where it is missing is setting it. -/
theorem upsert_id (target : UInt64) (keys : List UInt64) :
    upsert id target keys =
      match binarySearch target keys with
      | .ok _ => keys
      | .error position => keys.insertIdx position target := by
  unfold upsert binarySearch
  simp only [id]
  cases hsearch : binarySearchBy id target keys with
  | error position => rfl
  | ok position =>
    have hfound : keys[position] = target := by
      unfold binarySearchBy at hsearch
      simp only at hsearch
      split_ifs at hsearch with hlt heq
      cases hsearch
      exact Std.compare_eq_iff_eq.mp heq
    exact hfound ▸ List.set_getElem_self position.isLt

/-- The keys of a list do not depend on what is set under a key. -/
theorem map_upsert (key : T → UInt64) (item : T) (items : List T) :
    (upsert key item items).map key = upsert id (key item) (items.map key) := by
  simp only [upsert_eq_insertWith]
  induction items with
  | nil => rfl
  | cons first items ih =>
    rw [insertWith_cons, List.map_cons, insertWith_cons, id, id]
    cases compare (key first) (key item) with
    | lt => exact congrArg (key first :: ·) ih
    | eq => rfl
    | gt => rfl

/-- Assumes: a list sorted by its keys. The new element takes the place of the one with its key. -/
theorem mem_upsert {key : T → UInt64} {items : List T}
    (hsorted : (items.map key).Pairwise (· < ·)) (item other : T) :
    other ∈ upsert key item items ↔ other = item ∨ (other ∈ items ∧ key other ≠ key item) := by
  rw [upsert_eq_insertWith, mem_insertWith (pairwise_compare_iff.mpr hsorted)]
  by_cases hfound : ∃ old ∈ items, key old = key item
  · obtain ⟨old, hold, hkey⟩ := hfound
    grind
  · grind

/-- The keys stay sorted. -/
theorem pairwise_upsert {keys : List UInt64} (hsorted : keys.Pairwise (· < ·)) (target : UInt64) :
    (upsert id target keys).Pairwise (· < ·) := by
  have hkeys := pairwise_insertWith (pairwise_compare_iff.mpr ((List.map_id keys).symm ▸ hsorted))
    (fun _ ↦ target) target fun _ _ ↦ rfl
  rw [pairwise_compare_iff, List.map_id] at hkeys
  rwa [upsert_eq_insertWith]

/-- Searching a sorted list finds the keys it has. -/
theorem isOk_binarySearch_iff {keys : List UInt64} (hsorted : keys.Pairwise (· < ·))
    (target : UInt64) : (binarySearch target keys).isOk ↔ target ∈ keys := by
  unfold binarySearch
  induction keys with
  | nil => simp [binarySearchBy, Except.isOk, Except.toBool]
  | cons first keys ih =>
    obtain ⟨habove, htail⟩ := List.pairwise_cons.mp hsorted
    rw [binarySearchBy_cons, List.mem_cons, id]
    cases hcompare : compare first target with
    | gt =>
      have hlt : target < first := Std.compare_eq_gt.mp hcompare
      have hnot : target ∉ keys := fun hmem ↦
        UInt64.lt_irrefl target (UInt64.lt_trans hlt (habove target hmem))
      simp [hnot, UInt64.ne_of_lt hlt, Except.isOk, Except.toBool]
    | eq => simp [Std.compare_eq_iff_eq.mp hcompare, Except.isOk, Except.toBool]
    | lt =>
      have hne : target ≠ first := (UInt64.ne_of_lt (Std.compare_eq_lt.mp hcompare)).symm
      rw [← ih htail]
      cases binarySearchBy id target keys <;> simp [hne, Except.isOk, Except.toBool]

/-- Assumes: two sorted lists, the first within the second. It is a sublist. -/
theorem sublist_of_sorted {first second : List UInt64} (hfirst : first.Pairwise (· < ·))
    (hsecond : second.Pairwise (· < ·)) (hsubset : first ⊆ second) : first.Sublist second := by
  have hnodup : first.Nodup := hfirst.imp fun {left right} hlt heq ↦ by
    rw [heq] at hlt
    exact UInt64.lt_irrefl right hlt
  refine List.sublist_of_subperm_of_pairwise (List.subperm_of_subset hnodup hsubset)
    (hfirst.imp UInt64.le_of_lt) (hsecond.imp UInt64.le_of_lt)

/-! ### A condition that holds up to some point of the list -/

theorem takeWhile_eq_filter {p : T → Bool} {list : List T}
    (h : list.Pairwise fun first second ↦ p second → p first) :
    list.takeWhile p = list.filter p := by
  induction h with
  | nil => rfl
  | @cons head tail hhead _ ih =>
    cases hp : p head with
    | true => rw [List.takeWhile_cons_of_pos hp, List.filter_cons_of_pos hp, ih]
    | false =>
      have hnone : tail.filter p = [] := List.filter_eq_nil_iff.mpr fun other hother hpother ↦
        Bool.noConfusion (hp.symm.trans (hhead other hother hpother))
      rw [List.takeWhile_cons_of_neg (by simp [hp]), List.filter_cons_of_neg (by simp [hp]), hnone]

theorem dropWhile_eq_filter {p : T → Bool} {list : List T}
    (h : list.Pairwise fun first second ↦ p second → p first) :
    list.dropWhile p = list.filter fun item ↦ !p item := by
  induction h with
  | nil => rfl
  | @cons head tail hhead _ ih =>
    cases hp : p head with
    | true => rw [List.dropWhile_cons_of_pos hp, List.filter_cons_of_neg (by simp [hp]), ih]
    | false =>
      have hall : tail.filter (fun item ↦ !p item) = tail :=
        List.filter_eq_self.mpr fun other hother ↦ by
        rw [Bool.not_eq_true', Bool.eq_false_iff]
        exact fun hpother ↦ Bool.noConfusion (hp.symm.trans (hhead other hother hpother))
      rw [List.dropWhile_cons_of_neg (by simp [hp]), List.filter_cons_of_pos (by simp [hp]), hall]

end DalService.Foundation
