import Mathlib

/-!
# Exploring from seeds

A search keeps what it has tried and the attempts that are still out. An attempt that completes
names more to try (`expand`); what was tried before is not tried again (`Exploration.add`). Attempts
complete in any order: `Explored` relates the completions so far to where the search stands.

Whatever the order, each attempt is made once and only of what the seeds lead to (`Explored.spec`),
and a search with nothing out has completed all of it (`Explored.exhausted`). A search over finitely
many therefore ends (`Explored.length_le`).
-/

set_option autoImplicit false

namespace DalService.Foundation

variable {A : Type} [DecidableEq A]

structure Exploration (A : Type) where
  tried : List A
  attempts : List A
  deriving DecidableEq, Repr

namespace Exploration

/-- Try what was not tried before. -/
def add (search : Exploration A) (a : A) : Exploration A :=
  if a ∈ search.tried then search
  else { tried := a :: search.tried, attempts := a :: search.attempts }

def start (seeds : List A) : Exploration A := seeds.foldl add ⟨[], []⟩

/-- An attempt completes and names more. -/
def complete (search : Exploration A) (a : A) (more : List A) : Exploration A :=
  more.foldl add { search with attempts := search.attempts.erase a }

/-- What was tried has completed or is out. -/
def Accounts (search : Exploration A) (completed : List A) : Prop :=
  search.tried.Nodup ∧ (completed ++ search.attempts).Perm search.tried

theorem Accounts.add {search : Exploration A} {completed : List A} (h : search.Accounts completed)
    (a : A) : (search.add a).Accounts completed := by
  unfold Exploration.add
  split
  · exact h
  · next hnew => exact ⟨List.nodup_cons.mpr ⟨hnew, h.1⟩, List.perm_middle.trans (h.2.cons a)⟩

theorem Accounts.foldl_add {search : Exploration A} {completed : List A}
    (h : search.Accounts completed) (more : List A) :
    (more.foldl Exploration.add search).Accounts completed := by
  induction more generalizing search with
  | nil => exact h
  | cons a more ih => exact ih (h.add a)

theorem mem_tried_foldl_add {search : Exploration A} {more : List A} {a : A} :
    a ∈ (more.foldl add search).tried ↔ a ∈ search.tried ∨ a ∈ more := by
  induction more generalizing search with
  | nil => simp
  | cons b more ih =>
    rw [List.foldl_cons, ih, add]
    split
    · next hb =>
      constructor
      · rintro (h | h)
        · exact .inl h
        · exact .inr (List.mem_cons_of_mem b h)
      · rintro (h | h)
        · exact .inl h
        · rcases List.mem_cons.mp h with rfl | h
          · exact .inl hb
          · exact .inr h
    · simp only [List.mem_cons]
      tauto

end Exploration

open Exploration

/-- What the seeds lead to. -/
inductive Leads (expand : A → List A) (seeds : List A) : A → Prop
  | seed {a : A} (ha : a ∈ seeds) : Leads expand seeds a
  | expand {a b : A} (hb : Leads expand seeds b) (ha : a ∈ expand b) : Leads expand seeds a

/-- The search after the attempts in the list completed, in that order. -/
inductive Explored (expand : A → List A) (seeds : List A) : List A → Exploration A → Prop
  | start : Explored expand seeds [] (.start seeds)
  | complete {completed : List A} {search : Exploration A} {a : A}
      (h : Explored expand seeds completed search) (ha : a ∈ search.attempts) :
    Explored expand seeds (completed ++ [a]) (search.complete a (expand a))

namespace Explored

variable {expand : A → List A} {seeds completed : List A} {search : Exploration A}

theorem accounts (h : Explored expand seeds completed search) : search.Accounts completed := by
  induction h with
  | start => exact Accounts.foldl_add ⟨List.nodup_nil, .nil⟩ seeds
  | @complete completed search a _ ha ih =>
    have hmove :
        (completed ++ [a] ++ search.attempts.erase a).Perm (completed ++ search.attempts) := by
      rw [List.append_assoc, List.singleton_append]
      exact (List.perm_cons_erase ha).symm.append_left completed
    have hout : Accounts { search with attempts := search.attempts.erase a } (completed ++ [a]) :=
      ⟨ih.1, hmove.trans ih.2⟩
    exact hout.foldl_add (expand a)

theorem mem_tried (h : Explored expand seeds completed search) {a : A} :
    a ∈ search.tried ↔ a ∈ seeds ∨ ∃ b ∈ completed, a ∈ expand b := by
  induction h with
  | start =>
    rw [Exploration.start, mem_tried_foldl_add]
    simp
  | @complete completed search b _ hb ih =>
    rw [Exploration.complete, mem_tried_foldl_add]
    have hmore : (∃ c ∈ completed ++ [b], a ∈ expand c) ↔
        (∃ c ∈ completed, a ∈ expand c) ∨ a ∈ expand b := by
      simp [or_and_right, exists_or]
    rw [hmore, ← or_assoc, ← ih]

/-- Each attempt is made once, and only of what the seeds lead to. -/
theorem spec (h : Explored expand seeds completed search) :
    (completed ++ search.attempts).Nodup ∧
      ∀ a ∈ completed ++ search.attempts, Leads expand seeds a := by
  refine ⟨h.accounts.2.nodup_iff.mpr h.accounts.1, ?_⟩
  suffices htried : ∀ a ∈ search.tried, Leads expand seeds a from
    fun a ha ↦ htried a (h.accounts.2.mem_iff.mp ha)
  induction h with
  | start =>
    intro a ha
    rw [Exploration.start, mem_tried_foldl_add] at ha
    exact .seed (ha.resolve_left List.not_mem_nil)
  | @complete completed search b hbefore hb ih =>
    intro a ha
    rw [Exploration.complete, mem_tried_foldl_add] at ha
    rcases ha with ha | ha
    · exact ih a ha
    · exact .expand (ih b (hbefore.accounts.2.mem_iff.mp (List.mem_append_right _ hb))) ha

/-- Assumes: nothing is out. The search has completed what the seeds lead to. -/
theorem exhausted (h : Explored expand seeds completed search) (hout : search.attempts = [])
    (a : A) : a ∈ completed ↔ Leads expand seeds a := by
  have hperm := h.accounts.2
  rw [hout, List.append_nil] at hperm
  constructor
  · intro ha
    exact h.spec.2 a (List.mem_append_left _ ha)
  · intro ha
    induction ha with
    | seed ha => exact hperm.mem_iff.mpr (h.mem_tried.mpr (.inl ha))
    | expand _ ha ih => exact hperm.mem_iff.mpr (h.mem_tried.mpr (.inr ⟨_, ih, ha⟩))

/-- Assumes: the seeds lead into a finite set. A search makes no more attempts than it has
elements. -/
theorem length_le (h : Explored expand seeds completed search) {within : Finset A}
    (hwithin : ∀ a, Leads expand seeds a → a ∈ within) : completed.length ≤ within.card := by
  have hnodup := (List.nodup_append.mp h.spec.1).1
  rw [← List.toFinset_card_of_nodup hnodup]
  refine Finset.card_le_card fun a ha ↦ hwithin a (h.spec.2 a ?_)
  exact List.mem_append_left _ (List.mem_toFinset.mp ha)

end Explored

end DalService.Foundation
