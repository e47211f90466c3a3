import Mathlib

/-!
# The best window of what arrives

A consumer of batches that sorts what it holds with each batch and keeps the first `window` elements
(`keep`) ends with the first `window` elements of everything, sorted (`foldl_keep`): merging looks
no further into a sorted list than the window it fills (`take_merge_take`). The order is a total
preorder that tells the elements in question apart (`Separates`), so that they have one sorted list,
whatever order they are given in (`mergeSort_eq_of_perm`).
-/

set_option autoImplicit false

namespace DalService.Foundation

variable {T : Type} {le : T → T → Bool}

/-- What a window of a merge holds is decided by as much of the first list. -/
theorem take_merge_take (le : T → T → Bool) {window count : ℕ} (h : window ≤ count)
    (first second : List T) :
    ((first.take count).merge second le).take window = (first.merge second le).take window := by
  -- Induction on the window and on both lists: each element taken comes off one of them.
  induction window generalizing first second count with
  | zero => rw [List.take_zero, List.take_zero]
  | succ window ih =>
    cases first with
    | nil => rw [List.take_nil]
    | cons head first =>
      obtain ⟨count, rfl⟩ : ∃ less, count = less + 1 := ⟨count - 1, by omega⟩
      rw [List.take_succ_cons]
      cases second with
      | nil =>
        rw [List.merge_right, List.merge_right, ← List.take_succ_cons, List.take_take,
          Nat.min_eq_left h]
      | cons other second =>
        rw [List.cons_merge_cons, List.cons_merge_cons]
        split_ifs with hle
        · rw [List.take_succ_cons, List.take_succ_cons, ih (Nat.le_of_succ_le_succ h)]
        · have hrest := ih (Nat.le_of_succ_le h) (head :: first) second
          rw [List.take_succ_cons] at hrest
          rw [List.take_succ_cons, List.take_succ_cons, hrest]

/-- Comparing by a key is transitive. -/
theorem transCmp_comap {K : Type} {cmp : K → K → Ordering} [Std.TransCmp cmp] (key : T → K) :
    Std.TransCmp fun first second ↦ cmp (key first) (key second) where
  eq_swap := Std.OrientedCmp.eq_swap
  isLE_trans := Std.TransCmp.isLE_trans

/-- The order tells the elements of a list apart. -/
def Separates (le : T → T → Bool) (items : List T) : Prop :=
  ∀ a ∈ items, ∀ b ∈ items, le a b = true → le b a = true → a = b

theorem Separates.mono {some all : List T} (h : Separates le all) (hsome : some ⊆ all) :
    Separates le some :=
  fun a ha b hb ↦ h a (hsome ha) b (hsome hb)

section Sorting

variable (htrans : ∀ a b c, le a b = true → le b c = true → le a c = true)
  (htotal : ∀ a b, (le a b || le b a) = true)

include htrans htotal

/-- Assumes: a total preorder that tells the elements apart. They have one sorted list. -/
theorem mergeSort_eq_of_perm {first second : List T} (hseparates : Separates le first)
    (hperm : first.Perm second) : first.mergeSort le = second.mergeSort le := by
  have hsorted := ((List.mergeSort_perm first le).trans hperm).trans
    (List.mergeSort_perm second le).symm
  refine hsorted.eq_of_pairwise (fun a b ha hb ↦ ?_) (List.pairwise_mergeSort htrans htotal first)
    (List.pairwise_mergeSort htrans htotal second)
  exact hseparates a (List.mem_mergeSort.mp ha) b
    (hperm.mem_iff.mpr (List.mem_mergeSort.mp hb))

/-- Assumes: a total preorder that tells the elements apart. -/
theorem mergeSort_append {first second : List T} (hseparates : Separates le (first ++ second)) :
    (first ++ second).mergeSort le = (first.mergeSort le).merge (second.mergeSort le) le := by
  have hperm : ((first ++ second).mergeSort le).Perm
      ((first.mergeSort le).merge (second.mergeSort le) le) :=
    (List.mergeSort_perm _ le).trans
      (((List.mergeSort_perm first le).append (List.mergeSort_perm second le)).symm.trans
        (List.merge_perm_append le).symm)
  refine hperm.eq_of_pairwise (fun a b ha hb ↦ ?_) (List.pairwise_mergeSort htrans htotal _)
    (List.pairwise_merge htrans htotal _ _ (List.pairwise_mergeSort htrans htotal first)
      (List.pairwise_mergeSort htrans htotal second))
  exact hseparates a (List.mem_mergeSort.mp ha) b
    (List.mem_mergeSort.mp (hperm.mem_iff.mpr hb))

end Sorting

/-- Take a batch in, and keep the first elements. -/
def keep (le : T → T → Bool) (window : ℕ) (kept batch : List T) : List T :=
  ((kept ++ batch).mergeSort le).take window

/-- Assumes: a total preorder that tells the elements apart. Keeping a window after each batch keeps
the window of all of them. -/
theorem foldl_keep (htrans : ∀ a b c, le a b = true → le b c = true → le a c = true)
    (htotal : ∀ a b, (le a b || le b a) = true) (window : ℕ) {batches : List (List T)}
    (hseparates : Separates le batches.flatten) :
    batches.foldl (keep le window) [] = (batches.flatten.mergeSort le).take window := by
  induction batches using List.reverseRecOn with
  | nil => simp
  | append_singleton batches batch ih =>
    rw [List.flatten_append, List.flatten_singleton] at hseparates ⊢
    have hkept := ih (hseparates.mono (List.subset_append_left _ _))
    have hwindow :
        ((batches.flatten.mergeSort le).take window).Sublist (batches.flatten.mergeSort le) :=
      List.take_sublist window _
    have hsorted : ((batches.flatten.mergeSort le).take window).mergeSort le =
        (batches.flatten.mergeSort le).take window :=
      List.mergeSort_of_pairwise
        ((List.pairwise_mergeSort htrans htotal batches.flatten).sublist hwindow)
    have hpart : Separates le ((batches.flatten.mergeSort le).take window ++ batch) := by
      refine hseparates.mono fun item hitem ↦ List.mem_append.mpr ?_
      exact (List.mem_append.mp hitem).imp_left fun hkept ↦
        List.mem_mergeSort.mp (hwindow.subset hkept)
    calc (batches ++ [batch]).foldl (keep le window) []
        = keep le window ((batches.flatten.mergeSort le).take window) batch := by
          rw [List.foldl_append, List.foldl_cons, List.foldl_nil, hkept]
      _ = (((batches.flatten.mergeSort le).take window).merge (batch.mergeSort le) le).take
            window := by
          rw [keep, mergeSort_append htrans htotal hpart, hsorted]
      _ = ((batches.flatten.mergeSort le).merge (batch.mergeSort le) le).take window :=
          take_merge_take le (Nat.le_refl window) _ _
      _ = ((batches.flatten ++ batch).mergeSort le).take window := by
          rw [mergeSort_append htrans htotal hseparates]

end DalService.Foundation
