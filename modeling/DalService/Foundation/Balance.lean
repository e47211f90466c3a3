import Mathlib

/-!
# Balancing an assignment

An assignment gives each of finitely many items the set of its holders; the load of a holder is the
number of items it holds. One exchange lets an item go from one holder to another.

Two measures tell how far an assignment is from a good one: how many places are held by holders that
must go (`strays`), and the sum of squared loads (`spread`). An exchange that sheds a stray lowers
the first by one (`strays_exchange_of_shed`), and an exchange between two settled holders whose
loads are two or more apart keeps it and lowers the second (`spread_exchange_lt`). Wherever loads
differ there is an item to exchange (`exists_of_load_lt`).

`minBy` and `maxBy` take the least and the greatest element of a list by a comparison, as iterators
do: of equal elements the first and the last.
-/

set_option autoImplicit false

namespace DalService.Foundation

/-! ### Extremal elements of a list -/

section Extremal

variable {A : Type}

/-- The first least element by a comparison. -/
def minBy (cmp : A → A → Ordering) : List A → Option A
  | [] => none
  | first :: rest => some (rest.foldl (fun best a ↦ if cmp best a = .gt then a else best) first)

/-- The last greatest element by a comparison. -/
def maxBy (cmp : A → A → Ordering) : List A → Option A
  | [] => none
  | first :: rest => some (rest.foldl (fun best a ↦ if cmp best a = .gt then best else a) first)

/-- A fold that keeps its accumulator or takes the next element ends in one of them. -/
theorem foldl_choice_mem {choose : A → A → A} (hchoose : ∀ best a, choose best a = best ∨
    choose best a = a) (rest : List A) (first : A) : rest.foldl choose first ∈ first :: rest := by
  induction rest generalizing first with
  | nil => exact List.mem_cons_self
  | cons a rest ih =>
    rw [List.foldl_cons]
    rcases hchoose first a with h | h
    · rcases List.mem_cons.mp (ih first) with hsame | hrest
      · rw [h, hsame]
        exact List.mem_cons_self
      · rw [h]
        exact List.mem_cons_of_mem _ (List.mem_cons_of_mem _ hrest)
    · rw [h]
      exact List.mem_cons_of_mem _ (ih a)

/-- A fold whose choice is related to both of its arguments ends in an element related to all. -/
theorem foldl_choice_rel {choose : A → A → A} {r : A → A → Prop} (hrefl : ∀ a, r a a)
    (htrans : ∀ {a b c}, r a b → r b c → r a c)
    (hchoose : ∀ best a, r (choose best a) best ∧ r (choose best a) a) (rest : List A) (first : A) :
    ∀ a ∈ first :: rest, r (rest.foldl choose first) a := by
  induction rest generalizing first with
  | nil =>
    intro a ha
    rw [List.mem_singleton.mp ha]
    exact hrefl first
  | cons next rest ih =>
    have hall := ih (choose first next)
    have hkept := hall _ List.mem_cons_self
    intro a ha
    rw [List.foldl_cons]
    rcases List.mem_cons.mp ha with rfl | ha
    · exact htrans hkept (hchoose a next).1
    · rcases List.mem_cons.mp ha with rfl | ha
      · exact htrans hkept (hchoose first a).2
      · exact hall a (List.mem_cons_of_mem _ ha)

variable {cmp : A → A → Ordering} {items : List A} {found : A}

@[simp] theorem minBy_eq_none_iff : minBy cmp items = none ↔ items = [] := by
  cases items <;> simp [minBy]

@[simp] theorem maxBy_eq_none_iff : maxBy cmp items = none ↔ items = [] := by
  cases items <;> simp [maxBy]

theorem mem_of_minBy (h : minBy cmp items = some found) : found ∈ items := by
  cases items with
  | nil => cases h
  | cons first rest =>
    rw [← Option.some.inj h]
    exact foldl_choice_mem (fun _ _ ↦ (ite_eq_or_eq _ _ _).symm) rest first

theorem mem_of_maxBy (h : maxBy cmp items = some found) : found ∈ items := by
  cases items with
  | nil => cases h
  | cons first rest =>
    rw [← Option.some.inj h]
    exact foldl_choice_mem (fun _ _ ↦ ite_eq_or_eq _ _ _) rest first

/-- Assumes: the comparison orders by a key first. The least element has the least key. -/
theorem key_minBy_le (key : A → ℕ) (hcmp : ∀ a b, cmp a b = .gt → key b ≤ key a)
    (hcmp' : ∀ a b, cmp a b ≠ .gt → key a ≤ key b) (h : minBy cmp items = some found) :
    ∀ a ∈ items, key found ≤ key a := by
  cases items with
  | nil => cases h
  | cons first rest =>
    rw [← Option.some.inj h]
    refine foldl_choice_rel (r := fun a b ↦ key a ≤ key b) (fun _ ↦ le_rfl) le_trans
      (fun best a ↦ ?_) rest first
    split_ifs with hgt
    · exact ⟨hcmp best a hgt, le_rfl⟩
    · exact ⟨le_rfl, hcmp' best a hgt⟩

/-- Assumes: the comparison orders by a key first. The greatest element has the greatest key. -/
theorem le_key_maxBy (key : A → ℕ) (hcmp : ∀ a b, cmp a b = .gt → key b ≤ key a)
    (hcmp' : ∀ a b, cmp a b ≠ .gt → key a ≤ key b) (h : maxBy cmp items = some found) :
    ∀ a ∈ items, key a ≤ key found := by
  cases items with
  | nil => cases h
  | cons first rest =>
    rw [← Option.some.inj h]
    refine foldl_choice_rel (r := fun a b ↦ key b ≤ key a) (fun _ ↦ le_rfl)
      (fun hfirst hsecond ↦ le_trans hsecond hfirst) (fun best a ↦ ?_) rest first
    split_ifs with hgt
    · exact ⟨le_rfl, hcmp best a hgt⟩
    · exact ⟨hcmp' best a hgt, le_rfl⟩

end Extremal

/-! ### Assignments and their loads -/

/-- Which holders each of finitely many items has. -/
structure Assignment (I H : Type) where
  items : Finset I
  holders : I → Finset H

namespace Assignment

variable {I H : Type} [DecidableEq I] [DecidableEq H] (a : Assignment I H)

/-- The number of items a holder has. -/
def load (h : H) : ℕ := {i ∈ a.items | h ∈ a.holders i}.card

/-- The number of places held by holders that must go. -/
def strays (goes : H → Prop) [DecidablePred goes] : ℕ :=
  ∑ i ∈ a.items, {h ∈ a.holders i | goes h}.card

/-- The sum of squared loads over some holders. -/
def spread (among : Finset H) : ℕ := ∑ h ∈ among, a.load h ^ 2

/-- One item goes from a holder to another. -/
def exchange (i : I) (source dest : H) : Assignment I H where
  items := a.items
  holders := Function.update a.holders i (insert dest ((a.holders i).erase source))

variable {a}

omit [DecidableEq I] in
/-- Of two holders, the one with the greater load has an item that the other has not. -/
theorem exists_of_load_lt {low high : H} (hlt : a.load low < a.load high) :
    ∃ i ∈ a.items, high ∈ a.holders i ∧ low ∉ a.holders i := by
  obtain ⟨i, hhigh, hlow⟩ := Finset.exists_mem_notMem_of_card_lt_card hlt
  rw [Finset.mem_filter] at hhigh hlow
  exact ⟨i, hhigh.1, hhigh.2, fun hmem ↦ hlow ⟨hhigh.1, hmem⟩⟩

omit [DecidableEq I] [DecidableEq H] in
theorem strays_pos_iff {goes : H → Prop} [DecidablePred goes] :
    0 < a.strays goes ↔ ∃ i ∈ a.items, ∃ h ∈ a.holders i, goes h := by
  rw [strays, Finset.sum_pos_iff]
  simp only [Finset.card_pos, Finset.Nonempty, Finset.mem_filter]

section Exchange

variable {i : I} {source dest : H} (hitem : i ∈ a.items) (hsource : source ∈ a.holders i)
  (hdest : dest ∉ a.holders i)

omit [DecidableEq I] [DecidableEq H] in
include hsource hdest in
theorem ne_of_exchange : source ≠ dest := fun hsame ↦ hdest (hsame ▸ hsource)

theorem items_exchange : (a.exchange i source dest).items = a.items := rfl

theorem holders_exchange_self : (a.exchange i source dest).holders i =
    insert dest ((a.holders i).erase source) := Function.update_self _ _ _

theorem holders_exchange_of_ne {j : I} (hj : j ≠ i) :
    (a.exchange i source dest).holders j = a.holders j := Function.update_of_ne hj _ _

theorem mem_exchange_iff {h : H} {j : I} : h ∈ (a.exchange i source dest).holders j ↔
    (j = i ∧ (h = dest ∨ (h ≠ source ∧ h ∈ a.holders i))) ∨ (j ≠ i ∧ h ∈ a.holders j) := by
  by_cases hj : j = i
  · subst hj
    simp [holders_exchange_self]
  · simp [holders_exchange_of_ne hj, hj]

include hitem hsource hdest in
theorem load_exchange_source : (a.exchange i source dest).load source + 1 = a.load source := by
  have hne := ne_of_exchange hsource hdest
  have hmem : i ∈ {j ∈ a.items | source ∈ a.holders j} := Finset.mem_filter.mpr ⟨hitem, hsource⟩
  have hset : {j ∈ (a.exchange i source dest).items | source ∈
      (a.exchange i source dest).holders j} = {j ∈ a.items | source ∈ a.holders j}.erase i := by
    ext j
    rw [Finset.mem_erase, Finset.mem_filter, Finset.mem_filter, mem_exchange_iff]
    by_cases hj : j = i
    · simp [hj, hne]
    · simp [hj, items_exchange]
  rw [load, hset, load, Finset.card_erase_add_one hmem]

include hitem hdest in
theorem load_exchange_dest : (a.exchange i source dest).load dest = a.load dest + 1 := by
  have hmem : i ∉ {j ∈ a.items | dest ∈ a.holders j} := fun h ↦ hdest (Finset.mem_filter.mp h).2
  have hset : {j ∈ (a.exchange i source dest).items | dest ∈
      (a.exchange i source dest).holders j} = insert i {j ∈ a.items | dest ∈ a.holders j} := by
    ext j
    rw [Finset.mem_insert, Finset.mem_filter, Finset.mem_filter, mem_exchange_iff]
    by_cases hj : j = i
    · simp [hj, hitem, items_exchange]
    · simp [hj, items_exchange]
  rw [load, hset, load, Finset.card_insert_of_notMem hmem]

theorem load_exchange_of_ne {h : H} (hsource : h ≠ source) (hdest : h ≠ dest) :
    (a.exchange i source dest).load h = a.load h := by
  rw [load, load]
  congr 1
  ext j
  rw [Finset.mem_filter, Finset.mem_filter, mem_exchange_iff]
  by_cases hj : j = i
  · simp [hj, hsource, hdest, items_exchange]
  · simp [hj, items_exchange]

include hitem hsource hdest in
/-- Assumes: the exchange is among settled holders, from one whose load is at least two above the
other's. The sum of squared loads falls. -/
theorem spread_exchange_lt {among : Finset H} (hfrom : source ∈ among) (hto : dest ∈ among)
    (hgap : a.load dest + 2 ≤ a.load source) :
    (a.exchange i source dest).spread among < a.spread among := by
  have hne := ne_of_exchange hsource hdest
  have hto' : dest ∈ among.erase source := Finset.mem_erase.mpr ⟨hne.symm, hto⟩
  have hrest : ∑ h ∈ (among.erase source).erase dest, (a.exchange i source dest).load h ^ 2 =
      ∑ h ∈ (among.erase source).erase dest, a.load h ^ 2 := by
    refine Finset.sum_congr rfl fun h hmem ↦ ?_
    obtain ⟨hdest', hmem⟩ := Finset.mem_erase.mp hmem
    rw [load_exchange_of_ne (Finset.ne_of_mem_erase hmem) hdest']
  rw [spread, spread, ← Finset.add_sum_erase _ _ hfrom, ← Finset.add_sum_erase _ _ hto',
    ← Finset.add_sum_erase among (fun h ↦ a.load h ^ 2) hfrom,
    ← Finset.add_sum_erase _ (fun h ↦ a.load h ^ 2) hto', hrest,
    load_exchange_dest hitem hdest, ← load_exchange_source hitem hsource hdest]
  have hsource' := load_exchange_source hitem hsource hdest
  have hlt : a.load dest < (a.exchange i source dest).load source := by omega
  nlinarith

variable {goes : H → Prop} [DecidablePred goes]

omit [DecidableEq H] in
include hitem in
theorem strays_eq_add : a.strays goes = {h ∈ a.holders i | goes h}.card +
    ∑ j ∈ a.items.erase i, {h ∈ a.holders j | goes h}.card :=
  (Finset.add_sum_erase _ _ hitem).symm

include hitem in
theorem strays_exchange_eq_add : (a.exchange i source dest).strays goes =
    {h ∈ insert dest ((a.holders i).erase source) | goes h}.card +
      ∑ j ∈ a.items.erase i, {h ∈ a.holders j | goes h}.card := by
  rw [strays_eq_add (a := a.exchange i source dest) hitem, holders_exchange_self, items_exchange]
  have hrest : ∑ j ∈ a.items.erase i, {h ∈ (a.exchange i source dest).holders j | goes h}.card =
      ∑ j ∈ a.items.erase i, {h ∈ a.holders j | goes h}.card := by
    refine Finset.sum_congr rfl fun j hj ↦ ?_
    rw [holders_exchange_of_ne (Finset.ne_of_mem_erase hj)]
  rw [hrest]

include hitem hsource in
/-- Assumes: the source must go and the destination need not. One stray less is left. -/
theorem strays_exchange_of_shed (hgoes : goes source) (hstays : ¬goes dest) :
    (a.exchange i source dest).strays goes + 1 = a.strays goes := by
  have hmem : source ∈ {h ∈ a.holders i | goes h} := Finset.mem_filter.mpr ⟨hsource, hgoes⟩
  rw [strays_exchange_eq_add hitem, strays_eq_add hitem, Finset.filter_insert, if_neg hstays,
    Finset.filter_erase, add_right_comm, Finset.card_erase_add_one hmem]

include hitem in
/-- Assumes: neither the source nor the destination must go. The strays are those of before. -/
theorem strays_exchange_of_settled (hsource : ¬goes source) (hstays : ¬goes dest) :
    (a.exchange i source dest).strays goes = a.strays goes := by
  have hmem : source ∉ {h ∈ a.holders i | goes h} := fun h ↦ hsource (Finset.mem_filter.mp h).2
  rw [strays_exchange_eq_add hitem, strays_eq_add hitem, Finset.filter_insert, if_neg hstays,
    Finset.filter_erase, Finset.erase_eq_of_notMem hmem]

end Exchange

end Assignment

end DalService.Foundation
