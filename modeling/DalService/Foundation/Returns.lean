import Mathlib

/-!
# Computations that return

A fallible computation returns when it ends in a value and not in an error. `Returns c Q` says that
`c` returns a value with the property `Q`: the total-correctness triple of a computation without
state. A sequence of computations returns when each of them does on what the one before returned
(`Returns.bind`), and a conditional when the branch taken does (`returns_ite`). Read backwards, a
sequence that returned went through its first computation (`bind_eq_ok_iff`), and a check that
returned did not throw (`throwIf_eq_ok_iff`). A loop whose steps all return does so too, and shows
of every element what the steps show of each (`mapM_eq_ok`, `anyM_eq_ok_false`, `returns_anyM`,
`returns_findSomeM?`).
-/

set_option autoImplicit false

namespace DalService.Foundation

variable {E A B : Type}

@[simp] theorem ok_bind (a : A) (f : A → Except E B) : (Except.ok a >>= f) = f a := rfl

@[simp] theorem error_bind (e : E) (f : A → Except E B) : (Except.error e >>= f) = .error e := rfl

theorem bind_eq_ok_iff {c : Except E A} {f : A → Except E B} {b : B} :
    (c >>= f) = .ok b ↔ ∃ a, c = .ok a ∧ f a = .ok b := by
  cases c with
  | error e => simp
  | ok a => simp

theorem map_eq_ok_iff {c : Except E A} {f : A → B} {b : B} :
    c.map f = .ok b ↔ ∃ a, c = .ok a ∧ f a = b := by
  cases c with
  | error e => simp [Except.map]
  | ok a => simp [Except.map]

theorem toOption_eq_some_iff {c : Except E A} {a : A} : c.toOption = some a ↔ c = .ok a := by
  cases c with
  | error e => simp [Except.toOption]
  | ok found => simp [Except.toOption]

/-- Fail with an error if a condition holds. -/
def throwIf (c : Prop) [Decidable c] (e : E) : Except E Unit := if c then .error e else .ok ()

@[simp] theorem throwIf_eq_ok_iff {c : Prop} [Decidable c] {e : E} {u : Unit} :
    throwIf c e = .ok u ↔ ¬c := by
  unfold throwIf
  split_ifs with hc
  · simp [hc]
  · simp [hc]

theorem throwIf_of_not {c : Prop} [Decidable c] {e : E} (h : ¬c) : throwIf c e = .ok () :=
  throwIf_eq_ok_iff.mpr h

/-- The computation returns a value with the property. -/
def Returns (c : Except E A) (Q : A → Prop) : Prop := ∃ a, c = .ok a ∧ Q a

theorem returns_ok {a : A} {Q : A → Prop} (h : Q a) : Returns (.ok a : Except E A) Q := ⟨a, rfl, h⟩

theorem Returns.bind {c : Except E A} {f : A → Except E B} {P : A → Prop} {Q : B → Prop}
    (hfirst : Returns c P) (hrest : ∀ a, P a → Returns (f a) Q) : Returns (c >>= f) Q := by
  obtain ⟨a, rfl, ha⟩ := hfirst
  exact hrest a ha

theorem Returns.mono {c : Except E A} {P Q : A → Prop} (h : Returns c P) (hpq : ∀ a, P a → Q a) :
    Returns c Q := by
  obtain ⟨a, rfl, ha⟩ := h
  exact ⟨a, rfl, hpq a ha⟩

theorem returns_ite {c : Prop} [Decidable c] {first second : Except E A} {Q : A → Prop}
    (hfirst : c → Returns first Q) (hsecond : ¬c → Returns second Q) :
    Returns (if c then first else second) Q := by
  split_ifs with hc
  · exact hfirst hc
  · exact hsecond hc

/-! ### Loops over a list -/

section Loops

variable {T : Type} {items : List T}

theorem mapM_eq_ok {f : T → Except E A} {g : T → A} (h : ∀ item ∈ items, f item = .ok (g item)) :
    items.mapM f = .ok (items.map g) := by
  induction items with
  | nil => rfl
  | cons item items ih =>
    rw [List.mapM_cons, h item List.mem_cons_self,
      ih fun other hother ↦ h other (List.mem_cons_of_mem item hother)]
    rfl

/-- What a loop collects has the result of each item. -/
theorem exists_of_mapM_eq_ok {f : T → Except E A} {outs : List A} (h : items.mapM f = .ok outs)
    {item : T} (hitem : item ∈ items) : ∃ out ∈ outs, f item = .ok out := by
  induction items generalizing outs with
  | nil => cases hitem
  | cons first rest ih =>
    rw [List.mapM_cons] at h
    obtain ⟨out, hout, h⟩ := bind_eq_ok_iff.mp h
    obtain ⟨others, hothers, h⟩ := bind_eq_ok_iff.mp h
    cases h
    rcases List.mem_cons.mp hitem with rfl | hitem
    · exact ⟨out, List.mem_cons_self, hout⟩
    · obtain ⟨other, hother, hf⟩ := ih hothers hitem
      exact ⟨other, List.mem_cons_of_mem out hother, hf⟩

/-- A loop that returns has returned at each item. -/
theorem forM_eq_ok {f : T → Except E Unit} (h : items.forM f = .ok ()) {item : T}
    (hitem : item ∈ items) : f item = .ok () := by
  induction items with
  | nil => cases hitem
  | cons first rest ih =>
    obtain ⟨⟨⟩, hfirst, hrest⟩ := bind_eq_ok_iff.mp h
    rcases List.mem_cons.mp hitem with rfl | hitem
    · exact hfirst
    · exact ih hrest hitem

/-- Assumes: each test returns, and one that fails shows a fact. So does the loop, and if no test
succeeds it shows the fact of every element. -/
theorem returns_anyM {f : T → Except E Bool} {Q : T → Prop}
    (h : ∀ item ∈ items, Returns (f item) fun found ↦ found = false → Q item) :
    Returns (items.anyM f) fun found ↦ found = false → ∀ item ∈ items, Q item := by
  induction items with
  | nil => exact returns_ok (by simp)
  | cons item items ih =>
    rw [List.anyM]
    refine (h item List.mem_cons_self).bind fun found hitem ↦ ?_
    cases found with
    | true => exact returns_ok (by simp)
    | false =>
      refine (ih fun other hother ↦ h other (List.mem_cons_of_mem item hother)).mono
        fun rest hrest hnone ↦ ?_
      exact List.forall_mem_cons.mpr ⟨hitem rfl, hrest hnone⟩

theorem anyM_eq_ok_false {f : T → Except E Bool} (h : ∀ item ∈ items, f item = .ok false) :
    items.anyM f = .ok false := by
  induction items with
  | nil => rfl
  | cons item items ih =>
    rw [List.anyM, h item List.mem_cons_self]
    exact ih fun other hother ↦ h other (List.mem_cons_of_mem item hother)

/-- Assumes: each search returns, and one that finds nothing shows a fact. So does the loop, and if
nothing is found it shows the fact of every element. -/
theorem returns_findSomeM? {f : T → Except E (Option A)} {Q : T → Prop}
    (h : ∀ item ∈ items, Returns (f item) fun found ↦ found = none → Q item) :
    Returns (items.findSomeM? f) fun found ↦ found = none → ∀ item ∈ items, Q item := by
  induction items with
  | nil => exact returns_ok (by simp)
  | cons item items ih =>
    rw [List.findSomeM?]
    refine (h item List.mem_cons_self).bind fun found hitem ↦ ?_
    cases found with
    | some result => exact returns_ok (by simp)
    | none =>
      refine (ih fun other hother ↦ h other (List.mem_cons_of_mem item hother)).mono
        fun rest hrest hnone ↦ ?_
      exact List.forall_mem_cons.mpr ⟨hitem rfl, hrest hnone⟩

end Loops

/-- A loop that returned kept what each of its steps keeps, of the items done and the state. -/
theorem foldlM_ok_invariant {S I : Type} {step : S → I → Except E S} {P : List I → S → Prop}
    (hstep : ∀ {done s i t}, P done s → step s i = .ok t → P (done ++ [i]) t) {inputs : List I}
    {s t : S} (hs : P [] s) (h : inputs.foldlM step s = .ok t) : P inputs t := by
  induction inputs using List.reverseRecOn generalizing t with
  | nil => exact Except.ok.inj h ▸ hs
  | append_singleton inputs i ih =>
    rw [List.foldlM_append] at h
    obtain ⟨mid, hmid, hlast⟩ := bind_eq_ok_iff.mp h
    rw [List.foldlM_cons] at hlast
    obtain ⟨last, hstep', hnil⟩ := bind_eq_ok_iff.mp hlast
    exact Except.ok.inj hnil ▸ hstep (ih hmid) hstep'

end DalService.Foundation
