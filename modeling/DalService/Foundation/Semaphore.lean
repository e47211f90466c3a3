import Mathlib.Algebra.BigOperators.Pi
import Mathlib.Tactic.Abel

/-!
# Counting semaphores

A family of counting semaphores, one for each budget of a type `ι`. A request takes permits of
several budgets one after the other (`Acquiring.take`) and gives all of them back when one of them
is refused (`Acquiring.drop`). A pool has the permits that are available and the holders of the
others; taking and releasing move permits between the two, and their sum is what it was
(`Acquiring.Keeps`, `Pool.total_grant`, `Pool.total_release`).
-/

set_option autoImplicit false

namespace DalService.Foundation

/-- A number of permits of each budget. -/
abbrev Permits (ι : Type*) := ι → ℕ

section Acquiring

variable {ι : Type*}

/-- A request on its way: the permits still available and those it already holds. -/
structure Acquiring (ι : Type*) where
  available : Permits ι
  held : Permits ι

namespace Acquiring

def start (available : Permits ι) : Acquiring ι := ⟨available, 0⟩

/-- The permits available after the request is dropped with all it holds. -/
def drop (request : Acquiring ι) : Permits ι := request.available + request.held

@[simp] theorem drop_start (available : Permits ι) : (start available).drop = available :=
  add_zero available

/-- A part of a request that is left out when `skip` holds. -/
def unlessSkipped (skip : Bool) (request : Acquiring ι)
    (result : Except (Permits ι) (Acquiring ι)) : Except (Permits ι) (Acquiring ι) :=
  if skip then .ok request else result

variable [DecidableEq ι] {request taken : Acquiring ι}

/-- Take permits of one budget, if it has as many. -/
def take (request : Acquiring ι) (budget : ι) (count : ℕ) : Option (Acquiring ι) :=
  if count ≤ request.available budget then
    some ⟨request.available - Pi.single budget count, request.held + Pi.single budget count⟩
  else none

theorem take_eq_some_iff {budget : ι} {count : ℕ} :
    request.take budget count = some taken ↔ count ≤ request.available budget ∧
      taken = ⟨request.available - Pi.single budget count,
        request.held + Pi.single budget count⟩ := by
  unfold take
  split_ifs with h
  · simp [h, eq_comm]
  · simp [h]

theorem held_take {budget : ι} {count : ℕ} (h : request.take budget count = some taken) :
    taken.held = request.held + Pi.single budget count := by
  rw [(take_eq_some_iff.mp h).2]

theorem drop_take {budget : ι} {count : ℕ}
    (h : request.take budget count = some taken) : taken.drop = request.drop := by
  obtain ⟨hcount, rfl⟩ := take_eq_some_iff.mp h
  funext other
  by_cases hother : other = budget
  · subst hother
    simp only [drop, Pi.add_apply, Pi.sub_apply, Pi.single_eq_same]
    omega
  · simp [drop, Pi.single_eq_of_ne hother]

/-- Take permits of one budget, or give up: the request is dropped and its permits go back. -/
def tryTake (request : Acquiring ι) (budget : ι) (count : ℕ) : Except (Permits ι) (Acquiring ι) :=
  match request.take budget count with
  | some taken => .ok taken
  | none => .error request.drop

theorem tryTake_of_take {budget : ι} {count : ℕ}
    (h : request.take budget count = some taken) : request.tryTake budget count = .ok taken := by
  rw [tryTake, h]

/-- What another budget has is not touched. -/
theorem available_take_of_ne {budget other : ι} {count : ℕ}
    (h : request.take budget count = some taken) (hne : other ≠ budget) :
    taken.available other = request.available other := by
  rw [(take_eq_some_iff.mp h).2]
  simp [Pi.single_eq_of_ne hne]

/-! ### Requests that lose nothing -/

/-- A request that found these permits available lost none of them: given up it left them all, and
going on it has what `P` says of it taken out of them. -/
def Keeps (available : Permits ι) (P : Acquiring ι → Prop) :
    Except (Permits ι) (Acquiring ι) → Prop
  | .error left => left = available
  | .ok request => request.drop = available ∧ P request

omit [DecidableEq ι] in
theorem keeps_bind {available : Permits ι} {P Q : Acquiring ι → Prop}
    {result : Except (Permits ι) (Acquiring ι)}
    {next : Acquiring ι → Except (Permits ι) (Acquiring ι)} (hresult : Keeps available P result)
    (hnext : ∀ request, request.drop = available → P request → Keeps available Q (next request)) :
    Keeps available Q (result >>= next) := by
  cases result with
  | error left => exact hresult
  | ok request => exact hnext request hresult.1 hresult.2

omit [DecidableEq ι] in
theorem keeps_mono {available : Permits ι} {P Q : Acquiring ι → Prop}
    {result : Except (Permits ι) (Acquiring ι)} (hresult : Keeps available P result)
    (h : ∀ request, P request → Q request) : Keeps available Q result := by
  cases result with
  | error left => exact hresult
  | ok request => exact ⟨hresult.1, h request hresult.2⟩

omit [DecidableEq ι] in
theorem keeps_unlessSkipped {available : Permits ι} {P : Acquiring ι → Prop}
    {result : Except (Permits ι) (Acquiring ι)} (skip : Bool)
    (hdrop : request.drop = available) (hresult : Keeps available P result) :
    Keeps available (fun taken ↦ if skip then taken = request else P taken)
      (unlessSkipped skip request result) := by
  cases skip with
  | true => exact ⟨hdrop, rfl⟩
  | false => exact hresult

theorem keeps_tryTake {available : Permits ι}
    (hdrop : request.drop = available) (budget : ι) (count : ℕ) :
    Keeps available (fun taken ↦ taken.held = request.held + Pi.single budget count)
      (request.tryTake budget count) := by
  unfold tryTake
  cases htake : request.take budget count with
  | none => exact hdrop
  | some taken => exact ⟨(drop_take htake).trans hdrop, held_take htake⟩

end Acquiring

end Acquiring

section Pool

variable {ι κ : Type*}

/-- The permits available and the holders, with what each of them holds. -/
structure Pool (ι κ : Type*) where
  available : Permits ι
  held : List (κ × Permits ι)

namespace Pool

/-- The permits all holders have together. -/
def inUse (pool : Pool ι κ) : Permits ι := (pool.held.map Prod.snd).sum

/-- All permits, available or held. -/
def total (pool : Pool ι κ) : Permits ι := pool.available + pool.inUse

/-- A request is let in with what it acquired. -/
def grant (pool : Pool ι κ) (holder : κ) (acquired : Acquiring ι) : Pool ι κ :=
  ⟨acquired.available, pool.held ++ [(holder, acquired.held)]⟩

/-- A holder is dropped and its permits go back. -/
def release (pool : Pool ι κ) (position : ℕ) : Pool ι κ :=
  match pool.held[position]? with
  | some entry => ⟨pool.available + entry.2, pool.held.eraseIdx position⟩
  | none => pool

theorem inUse_le_total (pool : Pool ι κ) (budget : ι) : pool.inUse budget ≤ pool.total budget :=
  Nat.le_add_left _ _

theorem total_grant (pool : Pool ι κ) (holder : κ) {acquired : Acquiring ι}
    (h : acquired.drop = pool.available) : (pool.grant holder acquired).total = pool.total := by
  have hsum : (pool.grant holder acquired).inUse = pool.inUse + acquired.held := by
    simp [inUse, grant]
  calc (pool.grant holder acquired).total
      = acquired.available + (pool.inUse + acquired.held) := by rw [total, hsum]; rfl
    _ = acquired.drop + pool.inUse := by rw [Acquiring.drop]; abel
    _ = pool.total := by rw [h, total]

theorem total_release (pool : Pool ι κ) (position : ℕ) :
    (pool.release position).total = pool.total := by
  unfold release
  split
  · rename_i entry hentry
    obtain ⟨hposition, hget⟩ := List.getElem?_eq_some_iff.mp hentry
    have hperm := (List.getElem_cons_eraseIdx_perm hposition).map Prod.snd
    have hsum : entry.2 + ((pool.held.eraseIdx position).map Prod.snd).sum = pool.inUse := by
      rw [inUse, ← hperm.sum_eq, List.map_cons, List.sum_cons, hget]
    calc pool.available + entry.2 + ((pool.held.eraseIdx position).map Prod.snd).sum
        = pool.available + (entry.2 + ((pool.held.eraseIdx position).map Prod.snd).sum) := by
          abel
      _ = pool.total := by rw [hsum, total]
  · rfl

theorem mem_held_of_release {pool : Pool ι κ} {position : ℕ} {entry : κ × Permits ι}
    (h : entry ∈ (pool.release position).held) : entry ∈ pool.held := by
  unfold release at h
  split at h
  · exact List.mem_of_mem_eraseIdx h
  · exact h

/-- A budget is in use as much as another when every holder has as much of the one as of the
other. -/
theorem inUse_congr {pool : Pool ι κ} {budget other : ι}
    (h : ∀ entry ∈ pool.held, entry.2 budget = entry.2 other) :
    pool.inUse budget = pool.inUse other := by
  have happly (b : ι) : pool.inUse b = (pool.held.map fun entry ↦ entry.2 b).sum := by
    rw [inUse, Pi.list_sum_apply, List.map_map]
    rfl
  rw [happly, happly, List.map_congr_left h]

end Pool

end Pool

end DalService.Foundation
