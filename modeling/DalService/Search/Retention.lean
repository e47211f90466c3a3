import DalService.Foundation.Run
import DalService.Search.Outbox

/-!
# Outbox retention

The journal of a data group under applies, installs and every operation on its consumers. A
consumer's pass takes a source view and writes a floor or a checkpoint that quotes it (`Pass`).

`Keeps` says what the journal still holds for one consumer that holds retention: every row above its
watermark, or every row written since it was registered or last began a rebuild if it has none. A
watermark is the checkpoint of the current epoch, or the floor of the current epoch that was
recorded since then. Each event keeps this (`Keeps.applied`, `Keeps.pruned` and so on), so every run
does (`outbox_retention`).

A floor that an earlier rebuild left is no watermark: a rebuild starts with it in place, and rows
above it have been pruned by then (`stale_floor_has_lost_rows`). And a pass quotes its latest view:
a checkpoint that quotes an earlier one moves the watermark back below rows that have been pruned
(`older_view_has_lost_rows`).
-/

set_option autoImplicit false

namespace DalService.Search

open Foundation Keyspace DalService.Partition
open Function (update update_of_ne update_self)

/-! ### Batches, passes and what the journal keeps -/

/-- A batch of the current epoch: the user keys it journals, and the entries that changed them. -/
structure Batch where
  logId : RaftLogId
  keys : List Bytes
  changes : List (UInt64 × Bytes)
  deriving DecidableEq, Repr

/-- The current pass of a consumer: the batches of the epoch before it was registered or last began
a rebuild, the latest source view taken since, and whether a floor was recorded since. -/
structure Pass where
  since : ℕ
  view : Option (UInt64 × Option RaftLogId)
  fresh : Bool
  deriving DecidableEq, Repr

/-- The index that an applied position quotes. -/
def quoted (applied : Option RaftLogId) : UInt64 := (applied.map (·.index)).getD 0

/-- The watermark of a consumer. -/
def watermark (epoch : UInt64) (state : SearchConsumerState) (pass : Pass) : Option UInt64 :=
  if state.checkpoint.isSome ∨ pass.fresh then state.mark epoch else none

/-- The consumer has quoted a view of the epoch. -/
def HasQuoted (epoch : UInt64) (state : SearchConsumerState) (pass : Pass) : Prop :=
  (∃ checkpoint, state.checkpoint = some checkpoint ∧ checkpoint.projectionEpoch = epoch) ∨
    pass.fresh ∧ ∃ floor, state.retentionFloor = some (epoch, floor)

/-- What the journal keeps for a consumer. `present` says of a batch and a key whether their row is
there; `through` is the applied index. -/
structure Keeps (epoch through : UInt64) (batches : List Batch) (present : Batch → Bytes → Prop)
    (state : SearchConsumerState) (pass : Pass) : Prop where
  since_le : pass.since ≤ batches.length
  checkpoint_le : ∀ checkpoint, state.checkpoint = some checkpoint →
    checkpoint.projectionEpoch ≤ epoch ∧
      (checkpoint.projectionEpoch = epoch → quoted checkpoint.sourceLogId ≤ through)
  floor_le : ∀ floorEpoch floor, state.retentionFloor = some (floorEpoch, floor) →
    floorEpoch ≤ epoch ∧ (floorEpoch = epoch → floor ≤ through)
  view_le : ∀ viewEpoch source, pass.view = some (viewEpoch, source) →
    viewEpoch ≤ epoch ∧ (viewEpoch = epoch → quoted source ≤ through)
  viewed : HasQuoted epoch state pass → ∃ source, pass.view = some (epoch, source)
  view_mark : state.holdsRetention → ∀ source, pass.view = some (epoch, source) →
    ∀ mark, state.mark epoch = some mark → mark ≤ quoted source
  view_rows : state.holdsRetention → ∀ source, pass.view = some (epoch, source) →
    ∀ batch ∈ batches, quoted source < batch.logId.index → ∀ key ∈ batch.keys, present batch key
  marked : state.holdsRetention → ∀ mark, watermark epoch state pass = some mark →
    ∀ batch ∈ batches, mark < batch.logId.index → ∀ key ∈ batch.keys, present batch key
  unmarked : state.holdsRetention → watermark epoch state pass = none →
    ∀ batch ∈ batches.drop pass.since, ∀ key ∈ batch.keys, present batch key
  unpassed : state.holdsRetention → watermark epoch state pass = none →
    ∀ batch ∈ batches.drop pass.since, batch.keys ≠ [] → ∀ mark, state.mark epoch = some mark →
      mark < batch.logId.index

/-- The batches of the epoch are in the applied prefix, and a user entry has a positive index. -/
def Within (through : UInt64) (batches : List Batch) : Prop :=
  ∀ batch ∈ batches, batch.keys ≠ [] → batch.logId.index ≤ through ∧ 0 < batch.logId.index

namespace Keeps

variable {epoch through : UInt64} {batches : List Batch} {present later : Batch → Bytes → Prop}
  {state : SearchConsumerState} {pass : Pass}

/-- What a consumer has passed is in the applied prefix. -/
theorem mark_le (h : Keeps epoch through batches present state pass) {mark : UInt64}
    (hmark : state.mark epoch = some mark) : mark ≤ through := by
  rcases SearchConsumerState.mark_eq_some_iff.mp hmark with
    ⟨checkpoint, id, hcheckpoint, hepoch, hid, rfl⟩ | ⟨-, hfloor⟩
  · have hle := (h.checkpoint_le checkpoint hcheckpoint).2 hepoch
    rwa [hid] at hle
  · exact (h.floor_le epoch mark hfloor).2 rfl

theorem mark_of_watermark {mark : UInt64} (hmark : watermark epoch state pass = some mark) :
    state.mark epoch = some mark := by
  rw [watermark] at hmark
  split_ifs at hmark
  exact hmark

/-- A consumer with a watermark has quoted a view of the epoch. -/
theorem hasQuoted {mark : UInt64} (hmark : watermark epoch state pass = some mark) :
    HasQuoted epoch state pass := by
  rw [watermark] at hmark
  split_ifs at hmark with hset
  rcases SearchConsumerState.mark_eq_some_iff.mp hmark with
    ⟨checkpoint, id, hcheckpoint, hepoch, -⟩ | ⟨hnone, hfloor⟩
  · exact .inl ⟨checkpoint, hcheckpoint, hepoch⟩
  · rw [hnone] at hset
    exact .inr ⟨hset.resolve_left Bool.false_ne_true, mark, hfloor⟩

/-- Rows are pruned that the consumer has passed, if it holds retention. -/
theorem pruned (h : Keeps epoch through batches present state pass)
    (hlater : ∀ batch key, present batch key → state.holdsRetention →
      (∀ mark, state.mark epoch = some mark → mark < batch.logId.index) → later batch key) :
    Keeps epoch through batches later state pass where
  since_le := h.since_le
  checkpoint_le := h.checkpoint_le
  floor_le := h.floor_le
  view_le := h.view_le
  viewed := h.viewed
  view_mark := h.view_mark
  view_rows := fun hholds source hview batch hbatch hlt key hkey ↦
    hlater batch key (h.view_rows hholds source hview batch hbatch hlt key hkey) hholds
      fun mark hmark ↦ UInt64.lt_of_le_of_lt (h.view_mark hholds source hview mark hmark) hlt
  marked := fun hholds mark hmark batch hbatch hlt key hkey ↦
    hlater batch key (h.marked hholds mark hmark batch hbatch hlt key hkey) hholds
      fun other hother ↦ by
        obtain rfl := Option.some.inj ((mark_of_watermark hmark).symm.trans hother)
        exact hlt
  unmarked := fun hholds hnone batch hbatch key hkey ↦
    hlater batch key (h.unmarked hholds hnone batch hbatch key hkey) hholds
      (h.unpassed hholds hnone batch hbatch (List.ne_nil_of_mem hkey))
  unpassed := h.unpassed

/-- A batch is applied: its rows are written, and those that were there stay. -/
theorem applied (h : Keeps epoch through batches present state pass) {batch : Batch} {next : UInt64}
    (hle : through ≤ next) (habove : batch.keys ≠ [] → through < batch.logId.index)
    (hkept : ∀ batch key, present batch key → later batch key)
    (hnew : ∀ key ∈ batch.keys, later batch key) :
    Keeps epoch next (batches ++ [batch]) later state pass := by
  have hdrop : (batches ++ [batch]).drop pass.since = batches.drop pass.since ++ [batch] :=
    List.drop_append_of_le_length h.since_le
  have hrows : ∀ {earlier : List Batch} {P : Batch → Prop},
      (∀ old ∈ earlier, P old → ∀ key ∈ old.keys, present old key) →
      ∀ old ∈ earlier ++ [batch], P old → ∀ key ∈ old.keys, later old key := by
    intro earlier P hearlier old hold hP key hkey
    rcases List.mem_append.mp hold with hold | hold
    · exact hkept old key (hearlier old hold hP key hkey)
    · obtain rfl := List.mem_singleton.mp hold
      exact hnew key hkey
  constructor
  case since_le =>
    rw [List.length_append]
    exact h.since_le.trans (Nat.le_add_right _ _)
  case checkpoint_le =>
    intro checkpoint hcheckpoint
    obtain ⟨hepoch, hquoted⟩ := h.checkpoint_le checkpoint hcheckpoint
    exact ⟨hepoch, fun hsame ↦ UInt64.le_trans (hquoted hsame) hle⟩
  case floor_le =>
    intro floorEpoch floor hfloor
    obtain ⟨hepoch, hquoted⟩ := h.floor_le floorEpoch floor hfloor
    exact ⟨hepoch, fun hsame ↦ UInt64.le_trans (hquoted hsame) hle⟩
  case view_le =>
    intro viewEpoch source hview
    obtain ⟨hepoch, hquoted⟩ := h.view_le viewEpoch source hview
    exact ⟨hepoch, fun hsame ↦ UInt64.le_trans (hquoted hsame) hle⟩
  case viewed => exact h.viewed
  case view_mark => exact h.view_mark
  case view_rows => exact fun hholds source hview ↦ hrows (h.view_rows hholds source hview)
  case marked => exact fun hholds mark hmark ↦ hrows (h.marked hholds mark hmark)
  case unmarked =>
    intro hholds hnone old hold
    rw [hdrop] at hold
    exact hrows (P := fun _ ↦ True) (fun old hold _ ↦ h.unmarked hholds hnone old hold)
      old hold trivial
  case unpassed =>
    intro hholds hnone old hold hkeys mark hmark
    rw [hdrop] at hold
    rcases List.mem_append.mp hold with hold | hold
    · exact h.unpassed hholds hnone old hold hkeys mark hmark
    · obtain rfl := List.mem_singleton.mp hold
      exact UInt64.lt_of_le_of_lt (h.mark_le hmark) (habove hkeys)

/-- The epoch changes, and what was quoted of an earlier one is void. -/
theorem installed (h : Keeps epoch through batches present state pass) {next after : UInt64}
    (hnext : epoch < next) : Keeps next after [] later state { pass with since := 0 } := by
  have hvoid : ∀ earlier, earlier ≤ epoch → earlier ≠ next := by
    rintro earlier hle rfl
    exact UInt64.lt_irrefl _ (UInt64.lt_of_lt_of_le hnext hle)
  have hnone : ∀ mark, state.mark next ≠ some mark := by
    intro mark hmark
    rcases SearchConsumerState.mark_eq_some_iff.mp hmark with
      ⟨checkpoint, id, hcheckpoint, hepoch, -⟩ | ⟨-, hfloor⟩
    · exact hvoid _ (h.checkpoint_le checkpoint hcheckpoint).1 hepoch
    · exact hvoid _ (h.floor_le _ _ hfloor).1 rfl
  constructor
  case since_le => exact Nat.le_refl 0
  case checkpoint_le =>
    intro checkpoint hcheckpoint
    have hle := (h.checkpoint_le checkpoint hcheckpoint).1
    exact ⟨UInt64.le_trans hle (UInt64.le_of_lt hnext), fun hsame ↦ absurd hsame (hvoid _ hle)⟩
  case floor_le =>
    intro floorEpoch floor hfloor
    have hle := (h.floor_le floorEpoch floor hfloor).1
    exact ⟨UInt64.le_trans hle (UInt64.le_of_lt hnext), fun hsame ↦ absurd hsame (hvoid _ hle)⟩
  case view_le =>
    intro viewEpoch source hview
    have hle := (h.view_le viewEpoch source hview).1
    exact ⟨UInt64.le_trans hle (UInt64.le_of_lt hnext), fun hsame ↦ absurd hsame (hvoid _ hle)⟩
  case viewed =>
    rintro (⟨checkpoint, hcheckpoint, hepoch⟩ | ⟨-, floor, hfloor⟩)
    · exact absurd hepoch (hvoid _ (h.checkpoint_le checkpoint hcheckpoint).1)
    · exact absurd rfl (hvoid _ (h.floor_le _ _ hfloor).1)
  case view_mark => exact fun _ _ _ mark hmark ↦ absurd hmark (hnone mark)
  case view_rows => exact fun _ _ _ batch hbatch ↦ absurd hbatch List.not_mem_nil
  case marked => exact fun _ _ _ batch hbatch ↦ absurd hbatch List.not_mem_nil
  case unmarked => exact fun _ _ batch hbatch ↦ absurd hbatch List.not_mem_nil
  case unpassed => exact fun _ _ batch hbatch ↦ absurd hbatch List.not_mem_nil

/-- A consumer without a checkpoint starts: nothing has been written since. -/
theorem started (hstate : state.checkpoint = none)
    (hfloor : ∀ floorEpoch floor, state.retentionFloor = some (floorEpoch, floor) →
      floorEpoch ≤ epoch ∧ (floorEpoch = epoch → floor ≤ through)) :
    Keeps epoch through batches present state
      { since := batches.length, view := none, fresh := false } := by
  have hdrop : ∀ batch, batch ∉ batches.drop batches.length := by simp
  constructor
  case since_le => exact Nat.le_refl _
  case checkpoint_le =>
    intro checkpoint hcheckpoint
    rw [hstate] at hcheckpoint
    cases hcheckpoint
  case floor_le => exact hfloor
  case view_le => exact nofun
  case viewed =>
    rintro (⟨checkpoint, hcheckpoint, -⟩ | ⟨hfresh, -⟩)
    · rw [hstate] at hcheckpoint
      cases hcheckpoint
    · cases hfresh
  case view_mark => exact nofun
  case view_rows => exact nofun
  case marked =>
    intro _ mark hmark
    simp [watermark, hstate] at hmark
  case unmarked => exact fun _ _ batch hbatch ↦ absurd hbatch (hdrop batch)
  case unpassed => exact fun _ _ batch hbatch ↦ absurd hbatch (hdrop batch)

/-- A source view is taken: no batch is above it yet. -/
theorem viewing (h : Keeps epoch through batches present state pass)
    (hwithin : Within through batches) {source : Option RaftLogId}
    (hsource : quoted source = through) :
    Keeps epoch through batches present state { pass with view := some (epoch, source) } where
  since_le := h.since_le
  checkpoint_le := h.checkpoint_le
  floor_le := h.floor_le
  view_le := fun viewEpoch other hview ↦ by
    cases hview
    exact ⟨UInt64.le_refl _, fun _ ↦ hsource ▸ UInt64.le_refl _⟩
  viewed := fun _ ↦ ⟨source, rfl⟩
  view_mark := fun _ other hview mark hmark ↦ by
    cases hview
    exact hsource ▸ h.mark_le hmark
  view_rows := fun _ other hview batch hbatch hlt key hkey ↦ by
    cases hview
    rw [hsource] at hlt
    exact absurd (UInt64.lt_of_lt_of_le hlt (hwithin batch hbatch (List.ne_nil_of_mem hkey)).1)
      (UInt64.lt_irrefl _)
  marked := h.marked
  unmarked := h.unmarked
  unpassed := h.unpassed

/-- A floor that quotes the view is recorded. -/
theorem floored (h : Keeps epoch through batches present state pass) {viewEpoch : UInt64}
    {source : Option RaftLogId} (hview : pass.view = some (viewEpoch, source)) :
    Keeps epoch through batches present
      { state with retentionFloor := some (viewEpoch, quoted source) }
      { pass with fresh := true } := by
  generalize hnew : { state with retentionFloor := some (viewEpoch, quoted source) } = new
  have hcheckpoint : new.checkpoint = state.checkpoint := by rw [← hnew]
  have hholds : new.holdsRetention = state.holdsRetention := by rw [← hnew]; rfl
  have hfloor : new.retentionFloor = some (viewEpoch, quoted source) := by rw [← hnew]
  -- With a checkpoint the mark is that of the checkpoint, and without one it is the view.
  have hmark : ∀ mark, new.mark epoch = some mark →
      state.checkpoint.isSome ∧ state.mark epoch = some mark ∨
        viewEpoch = epoch ∧ mark = quoted source := by
    intro mark hmark
    rcases SearchConsumerState.mark_eq_some_iff.mp hmark with
      ⟨checkpoint, id, hsome, hrest⟩ | ⟨-, hmine⟩
    · rw [hcheckpoint] at hsome
      exact .inl ⟨by rw [hsome]; rfl,
        SearchConsumerState.mark_eq_some_iff.mpr (.inl ⟨checkpoint, id, hsome, hrest⟩)⟩
    · rw [hfloor] at hmine
      cases hmine
      exact .inr ⟨rfl, rfl⟩
  have hnone : watermark epoch new { pass with fresh := true } = none →
      watermark epoch state pass = none := by
    intro hnone
    by_contra hsome
    obtain ⟨mark, hsome⟩ := Option.ne_none_iff_exists'.mp hsome
    rw [watermark, if_pos (.inr rfl)] at hnone
    rcases SearchConsumerState.mark_eq_some_iff.mp (mark_of_watermark hsome) with
      ⟨checkpoint, id, hown, hrest⟩ | ⟨hempty, -⟩
    · rw [SearchConsumerState.mark_eq_some_iff.mpr
        (.inl ⟨checkpoint, id, hcheckpoint.trans hown, hrest⟩)] at hnone
      cases hnone
    · obtain ⟨other, hother⟩ := h.viewed (hasQuoted hsome)
      obtain ⟨rfl, -⟩ := Prod.mk.inj (Option.some.inj (hview.symm.trans hother))
      rw [SearchConsumerState.mark_eq_some_iff.mpr
        (.inr ⟨hcheckpoint.trans hempty, hfloor⟩)] at hnone
      cases hnone
  constructor
  case since_le => exact h.since_le
  case checkpoint_le => exact hcheckpoint ▸ h.checkpoint_le
  case floor_le =>
    intro floorEpoch floor hmine
    rw [hfloor] at hmine
    cases hmine
    exact h.view_le viewEpoch source hview
  case view_le => exact h.view_le
  case viewed =>
    rintro (⟨checkpoint, hown, hepoch⟩ | ⟨-, floor, hmine⟩)
    · exact h.viewed (.inl ⟨checkpoint, hcheckpoint ▸ hown, hepoch⟩)
    · rw [hfloor] at hmine
      cases hmine
      exact ⟨source, hview⟩
  case view_mark =>
    intro hnew other hother mark hmine
    rcases hmark mark hmine with ⟨-, hold⟩ | ⟨rfl, rfl⟩
    · exact h.view_mark (hholds ▸ hnew) other hother mark hold
    · obtain ⟨-, rfl⟩ := Prod.mk.inj (Option.some.inj (hview.symm.trans hother))
      exact UInt64.le_refl _
  case view_rows => exact hholds ▸ h.view_rows
  case marked =>
    intro hnew mark hmine
    rw [watermark, if_pos (.inr rfl)] at hmine
    rcases hmark mark hmine with ⟨hset, hold⟩ | ⟨rfl, rfl⟩
    · exact h.marked (hholds ▸ hnew) mark (by rw [watermark, if_pos (.inl hset)]; exact hold)
    · exact h.view_rows (hholds ▸ hnew) source hview
  case unmarked => exact fun hnew hmine ↦ h.unmarked (hholds ▸ hnew) (hnone hmine)
  case unpassed =>
    intro _ hmine batch _ _ mark hsome
    rw [watermark, if_pos (.inr rfl), hsome] at hmine
    cases hmine

/-- A checkpoint that quotes the view is recorded, by a consumer that was not released since. -/
theorem checkpointed (h : Keeps epoch through batches present state pass)
    (hholds : state.holdsRetention) (hwithin : Within through batches)
    {checkpoint : IndexCheckpoint}
    (hview : pass.view = some (checkpoint.projectionEpoch, checkpoint.sourceLogId)) :
    Keeps epoch through batches present
      { state with checkpoint := some checkpoint, needsRebuild := false } pass := by
  generalize hnew : { state with checkpoint := some checkpoint, needsRebuild := false } = new
  have hown : new.checkpoint = some checkpoint := by rw [← hnew]
  have hfloor : new.retentionFloor = state.retentionFloor := by rw [← hnew]
  have hmark : ∀ mark, new.mark epoch = some mark →
      checkpoint.projectionEpoch = epoch ∧ mark = quoted checkpoint.sourceLogId := by
    intro mark hmark
    rcases SearchConsumerState.mark_eq_some_iff.mp hmark with
      ⟨other, id, hother, hepoch, hid, rfl⟩ | ⟨hnone, -⟩
    · obtain rfl := Option.some.inj (hown.symm.trans hother)
      exact ⟨hepoch, by rw [quoted, hid]; rfl⟩
    · rw [hown] at hnone
      cases hnone
  have hwatermark : watermark epoch new pass = new.mark epoch := by
    rw [watermark, if_pos (.inl (by rw [hown]; rfl))]
  constructor
  case since_le => exact h.since_le
  case checkpoint_le =>
    intro other hother
    obtain rfl := Option.some.inj (hown.symm.trans hother)
    exact h.view_le _ _ hview
  case floor_le => exact hfloor ▸ h.floor_le
  case view_le => exact h.view_le
  case viewed =>
    rintro (⟨other, hother, rfl⟩ | ⟨hfresh, floor, hmine⟩)
    · obtain rfl := Option.some.inj (hown.symm.trans hother)
      exact ⟨_, hview⟩
    · exact h.viewed (.inr ⟨hfresh, floor, hfloor ▸ hmine⟩)
  case view_mark =>
    intro _ other hother mark hmine
    obtain ⟨rfl, rfl⟩ := hmark mark hmine
    obtain ⟨-, rfl⟩ := Prod.mk.inj (Option.some.inj (hview.symm.trans hother))
    exact UInt64.le_refl _
  case view_rows => exact fun _ ↦ h.view_rows hholds
  case marked =>
    intro _ mark hmine
    rw [hwatermark] at hmine
    obtain ⟨rfl, rfl⟩ := hmark mark hmine
    exact h.view_rows hholds _ hview
  case unmarked =>
    intro _ hnone batch hbatch key hkey
    by_cases hepoch : checkpoint.projectionEpoch = epoch
    · -- The view saw no entry at all, and every row is above it.
      have hsource : checkpoint.sourceLogId = none := by
        cases hid : checkpoint.sourceLogId with
        | none => rfl
        | some id =>
          rw [hwatermark, SearchConsumerState.mark_eq_some_iff.mpr
            (.inl ⟨checkpoint, id, hown, hepoch, hid, rfl⟩)] at hnone
          cases hnone
      have hmem := List.mem_of_mem_drop hbatch
      refine h.view_rows hholds none (by rw [hview, hepoch, hsource]) batch hmem ?_ key hkey
      exact (hwithin batch hmem (List.ne_nil_of_mem hkey)).2
    · refine h.unmarked hholds ?_ batch hbatch key hkey
      by_contra hsome
      obtain ⟨mark, hsome⟩ := Option.ne_none_iff_exists'.mp hsome
      obtain ⟨other, hother⟩ := h.viewed (hasQuoted hsome)
      exact hepoch (Prod.mk.inj (Option.some.inj (hview.symm.trans hother))).1
  case unpassed =>
    intro _ hnone batch _ _ mark hsome
    rw [hwatermark, hsome] at hnone
    cases hnone

/-- A consumer that does not hold retention is owed no rows. -/
theorem released (h : Keeps epoch through batches present state pass) :
    Keeps epoch through batches present
      { state with needsRebuild := true, checkpoint := none, retentionFloor := none } pass where
  since_le := h.since_le
  checkpoint_le := nofun
  floor_le := nofun
  view_le := h.view_le
  viewed := by
    rintro (⟨checkpoint, hcheckpoint, -⟩ | ⟨-, floor, hfloor⟩)
    · cases hcheckpoint
    · cases hfloor
  view_mark := nofun
  view_rows := nofun
  marked := nofun
  unmarked := nofun
  unpassed := nofun

end Keeps

/-! ### The group and its consumers -/

/-- A data group, its batches since the epoch began, and the pass of each consumer. -/
structure Group where
  store : SearchStore
  batches : List Batch
  pass : Bytes → Pass

inductive RetentionEvent
  | apply (mutations : List StateMutation) (batch : Batch) (membership : StoredMembership)
    (appliedEntries : ℕ)
  | install (records : DataState) (applied : Applied)
  | register (name : String) (generation : SearchIndexGeneration)
  | unregister (name : String) (generation : UInt64)
  | beginRebuild (name : String) (generation : SearchIndexGeneration)
  | view (name : String) (generation : UInt64)
  | recordFloor (name : String) (generation : UInt64)
  | recordCheckpoint (name : String) (generation : SearchIndexGeneration)
  | release
  | prune

namespace Group

variable (prims : Primitives) (partition : UInt16) (g : Group)

abbrev epoch : UInt64 := g.store.searchProjectionEpoch

/-- The applied index. -/
def through : UInt64 :=
  match readApplied g.store.store.state with
  | .ok applied => quoted applied.logId
  | .error _ => 0

/-- The batch comes next: it journals the user keys of its mutations, its entries are not above its
log id, and the log id is above the applied one. The first entry of a log is its membership. -/
def Next (mutations : List StateMutation) (batch : Batch) : Prop :=
  batch.keys = mutations.filterMap (fun mutation ↦ stripUserTag mutation.key) ∧
    (∀ change ∈ batch.changes, change.2 ∈ batch.keys ∧ change.1 ≤ batch.logId.index) ∧
    (batch.logId.index = 0 → batch.keys = [] ∧ g.through = 0) ∧
    (batch.logId.index ≠ 0 → g.through < batch.logId.index)

instance (mutations : List StateMutation) (batch : Batch) : Decidable (g.Next mutations batch) :=
  inferInstanceAs (Decidable (_ ∧ _ ∧ _ ∧ _))

/-- A group that has applied nothing, with no consumer. -/
def empty : Group where
  store := { store := ⟨∅, none, none, ∅⟩, consumers := ∅ }
  batches := []
  pass := fun _ ↦ { since := 0, view := none, fresh := false }

/-- A pass that starts: nothing has been written since. -/
def startPass (key : Bytes) : Bytes → Pass :=
  update g.pass key { since := g.batches.length, view := none, fresh := false }

/-- One operation. An operation that is refused does not happen. -/
def step : RetentionEvent → Option Group
  | .apply mutations batch membership appliedEntries =>
    if g.Next mutations batch then do
      let store ← (g.store.applyRaft partition mutations batch.logId
        { logId := some batch.logId, membership := membership } appliedEntries).toOption
      return { g with store := store, batches := g.batches ++ [batch] }
    else none
  | .install records applied => do
    let store ← g.store.installState records applied
    return { store := store, batches := [], pass := fun key ↦ { g.pass key with since := 0 } }
  | .register name generation => do
    let (registration, store) ←
        (g.store.registerSearchConsumer prims partition name generation).toOption
    return { g with
      store := store
      pass := if registration.created then
        g.startPass (SearchStore.consumerKey partition name generation.id) else g.pass }
  | .unregister name generation =>
    let key := SearchStore.consumerKey partition name generation
    some { g with store := { g.store with consumers := g.store.consumers.erase key } }
  | .beginRebuild name generation => do
    let store ← (g.store.beginSearchConsumerRebuild partition name generation).toOption
    return { g with
      store := store, pass := g.startPass (SearchStore.consumerKey partition name generation.id) }
  | .view name generation => do
    let view ← g.store.searchSourceView.toOption
    let key := SearchStore.consumerKey partition name generation
    return { g with pass := update g.pass key { g.pass key with view := some view } }
  | .recordFloor name generation => do
    let key := SearchStore.consumerKey partition name generation
    let (viewEpoch, source) ← (g.pass key).view
    return { g with
      store := g.store.recordSearchConsumerRetentionFloor partition name generation
        (viewEpoch, quoted source)
      pass := update g.pass key { g.pass key with fresh := true } }
  | .recordCheckpoint name generation => do
    let (viewEpoch, source) ← (g.pass (SearchStore.consumerKey partition name generation.id)).view
    let store ← (g.store.recordSearchConsumerCheckpoint partition name generation.id
      { projectionEpoch := viewEpoch, definitionHash := generation.definitionHash
        engineRevision := generation.engineRevision, sourceLogId := source }).toOption
    return { g with store := store }
  | .release => do
    let (_, store) ← g.store.releaseLaggard
    return { g with store := store }
  | .prune => do
    let (_, store) ← (g.store.pruneSearchOutbox partition).toOption
    return { g with store := store }

variable {partition} {g} {store : SearchStore} in
/-- An unregistration is followed by a prune. -/
theorem step_unregister {name : String} {generation : UInt64}
    (h : g.store.unregisterSearchConsumer partition name generation = .ok store) :
    [.unregister name generation, .prune].foldlM (step prims partition) g =
      some { g with store := store } := by
  obtain ⟨⟨deleted, pruned⟩, hprune, hstore⟩ := bind_eq_ok_iff.mp h
  cases hstore
  simp [List.foldlM, step, hprune, Except.toOption]

variable {partition} {g} {store : SearchStore} in
/-- A journal over its bounds releases a consumer and is pruned. -/
theorem step_enforce {maxEntries maxBytes : UInt64} {released : Option (String × UInt64)}
    (h : g.store.enforceSearchOutboxBounds partition maxEntries maxBytes = .ok (released, store)) :
    store = g.store ∨ [.release, .prune].foldlM (step prims partition) g =
      some { g with store := store } := by
  simp only [SearchStore.enforceSearchOutboxBounds] at h
  split_ifs at h
  · cases h
    exact .inl rfl
  · cases hlaggard : g.store.releaseLaggard with
    | none =>
      rw [hlaggard] at h
      cases h
      exact .inl rfl
    | some laggard =>
      rw [hlaggard] at h
      dsimp only at h
      obtain ⟨_, -, h⟩ := bind_eq_ok_iff.mp h
      obtain ⟨⟨deleted, pruned⟩, hprune, hstore⟩ := bind_eq_ok_iff.mp h
      cases hstore
      exact .inr (by simp [List.foldlM, step, hlaggard, hprune, Except.toOption])

/-- The row of a key that a batch journalled is there. -/
def Present (batch : Batch) (key : Bytes) : Prop :=
  ∃ row, decodeOutboxKey (.data partition) row = .ok ⟨g.epoch, batch.logId, key⟩ ∧
    g.store.store.outbox[row]? = some ()

/-- What every run of the group keeps. -/
structure Retaining : Prop where
  decodes : ∃ applied, readApplied g.store.store.state = .ok applied
  within : Within g.through g.batches
  changed : ∀ batch ∈ g.batches, ∀ change ∈ batch.changes,
    change.2 ∈ batch.keys ∧ change.1 ≤ batch.logId.index
  keeps : ∀ key state, g.store.consumers[key]? = some state →
    Keeps g.epoch g.through g.batches (g.Present partition) state (g.pass key)

variable {partition} {g} {store : SearchStore}

namespace Retaining

/-- Assumes: each consumer of a changed set is one of before, or is kept what it is owed. -/
theorem replace (h : g.Retaining partition) (consumers : ColumnFamily SearchConsumerState)
    (pass : Bytes → Pass)
    (hconsumers : ∀ key state, consumers[key]? = some state →
      (g.store.consumers[key]? = some state ∧ pass key = g.pass key) ∨
        Keeps g.epoch g.through g.batches (g.Present partition) state (pass key)) :
    Retaining partition
      { g with store := { g.store with consumers := consumers }, pass := pass } where
  decodes := h.decodes
  within := h.within
  changed := h.changed
  keeps := fun key state hstate ↦ by
    rcases hconsumers key state hstate with ⟨hold, hpass⟩ | hkeeps
    · change Keeps g.epoch g.through g.batches (g.Present partition) state (pass key)
      rw [hpass]
      exact h.keeps key state hold
    · exact hkeeps

/-- Assumes: a record for one consumer, and what it is owed under its pass. -/
theorem put (h : g.Retaining partition) (key : Bytes) {state : SearchConsumerState} {own : Pass}
    (hown : Keeps g.epoch g.through g.batches (g.Present partition) state own) :
    Retaining partition
      { g with store := g.store.putConsumer key state, pass := update g.pass key own } := by
  refine h.replace _ _ fun other found hfound ↦ ?_
  by_cases hother : other = key
  · subst hother
    rw [Std.ExtTreeMap.getElem?_insert_self] at hfound
    cases hfound
    rw [update_self]
    exact .inr hown
  · rw [Std.ExtTreeMap.getElem?_insert,
      if_neg fun heq ↦ hother (Std.compare_eq_iff_eq.mp heq).symm] at hfound
    exact .inl ⟨hfound, update_of_ne hother _ _⟩

/-- Assumes: what the consumer of a key is owed under a changed pass, if there is one. -/
theorem repass (h : g.Retaining partition) {key : Bytes} {own : Pass}
    (hown : ∀ state, g.store.consumers[key]? = some state →
      Keeps g.epoch g.through g.batches (g.Present partition) state own) :
    Retaining partition { g with pass := update g.pass key own } := by
  refine h.replace g.store.consumers _ fun other found hfound ↦ ?_
  by_cases hother : other = key
  · subst hother
    rw [update_self]
    exact .inr (hown found hfound)
  · exact .inl ⟨hfound, update_of_ne hother _ _⟩

theorem through_eq {applied : Applied} (h : readApplied g.store.store.state = .ok applied) :
    g.through = quoted applied.logId := by
  rw [Group.through, h]

/-- Assumes: a batch that comes next. It is journalled, and the prune at its end deletes what every
holder has passed. -/
theorem apply (h : g.Retaining partition) {mutations : List StateMutation} {batch : Batch}
    {membership : StoredMembership} {appliedEntries : ℕ} (hnext : g.Next mutations batch)
    (hstore : g.store.applyRaft partition mutations batch.logId
      { logId := some batch.logId, membership := membership } appliedEntries = .ok store) :
    Retaining partition { g with store := store, batches := g.batches ++ [batch] } := by
  obtain ⟨hconsumers, hepoch, happlied, written, hwritten, hkept, hnew⟩ :=
    SearchStore.applyRaft_eq_ok hstore
  obtain ⟨hkeys, hchanges, hzero, habove⟩ := hnext
  have hthrough : Group.through { g with store := store, batches := g.batches ++ [batch] } =
      batch.logId.index :=
    through_eq (g := { g with store := store, batches := g.batches ++ [batch] }) happlied
  have hle : g.through ≤ batch.logId.index := by
    by_cases hindex : batch.logId.index = 0
    · rw [(hzero hindex).2, hindex]
      exact UInt64.le_refl _
    · exact UInt64.le_of_lt (habove hindex)
  have hpositive : batch.keys ≠ [] → batch.logId.index ≠ 0 := fun hsome hindex ↦
    hsome (hzero hindex).1
  refine ⟨⟨_, happlied⟩, ?_, ?_, ?_⟩
  · intro old hold hsome
    rw [hthrough]
    rcases List.mem_append.mp hold with hold | hold
    · obtain ⟨hin, hpos⟩ := h.within old hold hsome
      exact ⟨UInt64.le_trans hin hle, hpos⟩
    · obtain rfl := List.mem_singleton.mp hold
      exact ⟨UInt64.le_refl _, UInt64.pos_iff_ne_zero.mpr (hpositive hsome)⟩
  · intro old hold
    rcases List.mem_append.mp hold with hold | hold
    · exact h.changed old hold
    · obtain rfl := List.mem_singleton.mp hold
      exact hchanges
  · intro key state hstate
    have hmine : g.store.consumers[key]? = some state := hconsumers ▸ hstate
    have hstay : ∀ old name, g.Present partition old name →
        ∃ row : Bytes, decodeOutboxKey (.data partition) row = .ok ⟨g.epoch, old.logId, name⟩ ∧
          written[row]? = some () := fun old name ⟨row, hrow, hin⟩ ↦ ⟨row, hrow, hkept row hin⟩
    have hrows := (h.keeps key state hmine).applied hle (fun hsome ↦ habove (hpositive hsome)) hstay
      (fun name hname ↦ hnew name (hkeys ▸ hname))
    rw [hthrough]
    change Keeps store.searchProjectionEpoch _ _ _ _ _
    rw [hepoch]
    refine hrows.pruned fun old name ⟨row, hrow, hin⟩ hholds hmark ↦ ?_
    have hcurrent : decodeOutboxKey (.data partition) row =
        .ok ⟨store.searchProjectionEpoch, old.logId, name⟩ := by
      rw [hepoch]
      exact hrow
    refine ⟨row, hcurrent, ?_⟩
    rcases hwritten with hall | hpruned
    · exact hall ▸ hin
    · change store.store.outbox[row]? = _
      rw [hpruned]
      exact SearchStore.prunedOutbox_keeps (SearchStore.mem_holders hmine hholds) hin hrow rfl hmark

/-- An install starts the next epoch, without batches. -/
theorem install (h : g.Retaining partition) {records : DataState} {applied : Applied}
    (hstore : g.store.installState records applied = some store) :
    Retaining partition
      { store := store, batches := [], pass := fun key ↦ { g.pass key with since := 0 } } := by
  obtain ⟨epoch, hepoch, rfl⟩ := Option.map_eq_some_iff.mp hstore
  have hread : readApplied (records.insert raftAppliedKey (.raftApplied applied)) = .ok applied :=
    readApplied_writeAll records [] applied
  refine ⟨⟨applied, hread⟩, fun batch hbatch ↦ absurd hbatch List.not_mem_nil,
    fun batch hbatch ↦ absurd hbatch List.not_mem_nil, fun key state hstate ↦ ?_⟩
  have hlater : g.epoch < epoch := by
    rw [UInt64.lt_iff_toNat_lt, toNat_checkedSucc hepoch]
    exact Nat.lt_succ_self _
  exact (h.keeps key state hstate).installed hlater

/-- A prune deletes what every holder has passed. -/
theorem prune (h : g.Retaining partition) {deleted : ℕ}
    (hstore : g.store.pruneSearchOutbox partition = .ok (deleted, store)) :
    Retaining partition { g with store := store } := by
  have hkeeps : ∀ {state}, state ∈ g.store.holders → ∀ {row entry},
      g.store.store.outbox[row]? = some () → decodeOutboxKey (.data partition) row = .ok entry →
      entry.epoch = g.epoch →
      (∀ mark, state.mark g.epoch = some mark → mark < entry.sourceLogId.index) →
      store.store.outbox[row]? = some () := fun hstate _ _ hrow hentry hepoch hmark ↦
    SearchStore.pruneSearchOutbox_keeps hstore hstate hrow hentry hepoch hmark
  obtain ⟨outbox, rfl⟩ := SearchStore.pruneSearchOutbox_eq hstore
  refine ⟨h.decodes, h.within, h.changed, fun key state hstate ↦ ?_⟩
  refine (h.keeps key state hstate).pruned fun batch name ⟨row, hrow, hin⟩ hholds hmark ↦ ?_
  exact ⟨row, hrow, hkeeps (SearchStore.mem_holders hstate hholds) hin hrow rfl hmark⟩

theorem register (h : g.Retaining partition) {name : String} {generation : SearchIndexGeneration}
    {registration : SearchConsumerRegistration}
    (hstore : g.store.registerSearchConsumer prims partition name generation =
      .ok (registration, store)) :
    Retaining partition { g with
      store := store
      pass := if registration.created then
        g.startPass (SearchStore.consumerKey partition name generation.id) else g.pass } := by
  obtain ⟨-, -, hstore⟩ := bind_eq_ok_iff.mp hstore
  obtain ⟨-, -, hstore⟩ := bind_eq_ok_iff.mp hstore
  cases hfound : g.store.consumers[SearchStore.consumerKey partition name generation.id]? with
  | some existing =>
    simp only [hfound] at hstore
    obtain ⟨-, -, hstore⟩ := bind_eq_ok_iff.mp hstore
    cases hstore
    exact h
  | none =>
    simp only [hfound] at hstore
    cases hstore
    exact h.put _ (.started rfl fun _ _ hfloor ↦ by cases hfloor)

theorem unregister (h : g.Retaining partition) (key : Bytes) :
    Retaining partition
      { g with store := { g.store with consumers := g.store.consumers.erase key } } := by
  refine h.replace _ g.pass fun other state hstate ↦ .inl ⟨?_, rfl⟩
  rw [Std.ExtTreeMap.getElem?_erase] at hstate
  split_ifs at hstate
  exact hstate

theorem beginRebuild (h : g.Retaining partition) {name : String}
    {generation : SearchIndexGeneration}
    (hstore : g.store.beginSearchConsumerRebuild partition name generation = .ok store) :
    Retaining partition { g with
      store := store
      pass := g.startPass (SearchStore.consumerKey partition name generation.id) } := by
  rw [SearchStore.beginSearchConsumerRebuild] at hstore
  cases hfound : g.store.consumers[SearchStore.consumerKey partition name generation.id]? with
  | none =>
    rw [hfound] at hstore
    cases hstore
  | some state =>
    rw [hfound] at hstore
    obtain ⟨-, -, hstore⟩ := bind_eq_ok_iff.mp hstore
    cases hstore
    exact h.put _ (.started rfl (h.keeps _ state hfound).floor_le)

theorem view (h : g.Retaining partition) {key : Bytes} {view : UInt64 × Option RaftLogId}
    (hview : g.store.searchSourceView = .ok view) :
    Retaining partition
      { g with pass := update g.pass key { g.pass key with view := some view } } := by
  obtain ⟨applied, happlied, hview⟩ := bind_eq_ok_iff.mp hview
  cases hview
  refine h.repass fun state hstate ↦ ?_
  exact (h.keeps key state hstate).viewing h.within (through_eq happlied).symm

theorem recordFloor (h : g.Retaining partition) {name : String} {generation : UInt64}
    {viewEpoch : UInt64} {source : Option RaftLogId}
    (hview : (g.pass (SearchStore.consumerKey partition name generation)).view =
      some (viewEpoch, source)) :
    Retaining partition { g with
      store := g.store.recordSearchConsumerRetentionFloor partition name generation
        (viewEpoch, quoted source)
      pass := update g.pass (SearchStore.consumerKey partition name generation)
        { g.pass (SearchStore.consumerKey partition name generation) with fresh := true } } := by
  rw [SearchStore.recordSearchConsumerRetentionFloor]
  cases hfound : g.store.consumers[SearchStore.consumerKey partition name generation]? with
  | none =>
    refine h.repass fun state hstate ↦ ?_
    rw [hfound] at hstate
    cases hstate
  | some state => exact h.put _ ((h.keeps _ state hfound).floored hview)

theorem recordCheckpoint (h : g.Retaining partition) {name : String} {generation : UInt64}
    {checkpoint : IndexCheckpoint}
    (hview : (g.pass (SearchStore.consumerKey partition name generation)).view =
      some (checkpoint.projectionEpoch, checkpoint.sourceLogId))
    (hstore : g.store.recordSearchConsumerCheckpoint partition name generation checkpoint =
      .ok store) : Retaining partition { g with store := store } := by
  rw [SearchStore.recordSearchConsumerCheckpoint] at hstore
  cases hfound : g.store.consumers[SearchStore.consumerKey partition name generation]? with
  | none =>
    rw [hfound] at hstore
    cases hstore
  | some state =>
    rw [hfound] at hstore
    obtain ⟨-, -, hstore⟩ := bind_eq_ok_iff.mp hstore
    obtain ⟨_, hholds, hstore⟩ := bind_eq_ok_iff.mp hstore
    cases hstore
    rw [throwIf_eq_ok_iff] at hholds
    have hputs := h.put (SearchStore.consumerKey partition name generation)
      ((h.keeps _ state hfound).checkpointed
        (by simpa [SearchConsumerState.holdsRetention] using hholds) h.within hview)
    rwa [Function.update_eq_self] at hputs

/-- The laggard is one of the consumers. -/
theorem mem_of_slower {epoch : UInt64} {consumers : List (Bytes × SearchConsumerState)}
    {laggard : Option (Bytes × SearchConsumerState)} {found : Bytes × SearchConsumerState}
    (h : consumers.foldl (SearchStore.slower epoch) laggard = some found) :
    found ∈ consumers ∨ laggard = some found := by
  induction consumers generalizing laggard with
  | nil => exact .inr h
  | cons first rest ih =>
    rcases ih h with hrest | hfirst
    · exact .inl (List.mem_cons_of_mem first hrest)
    · unfold SearchStore.slower at hfirst
      split_ifs at hfirst
      · exact .inr hfirst
      · cases laggard with
        | none =>
          cases hfirst
          exact .inl List.mem_cons_self
        | some slowest =>
          simp only at hfirst
          split_ifs at hfirst
          · cases hfirst
            exact .inl List.mem_cons_self
          · exact .inr hfirst

theorem release (h : g.Retaining partition) {key : Bytes}
    (hstore : g.store.releaseLaggard = some (key, store)) :
    Retaining partition { g with store := store } := by
  obtain ⟨⟨found, state⟩, hfound, hstore⟩ := Option.map_eq_some_iff.mp hstore
  cases hstore
  have hmem := (mem_of_slower hfound).resolve_right (by simp)
  have hstate := Std.ExtTreeMap.mem_toList_iff_getElem?_eq_some.mp hmem
  have hputs := h.put key (h.keeps key state hstate).released
  rwa [Function.update_eq_self] at hputs

/-- Every operation keeps what each consumer is owed. -/
theorem step (h : g.Retaining partition) {event : RetentionEvent} {after : Group}
    (hstep : g.step prims partition event = some after) : after.Retaining partition := by
  cases event with
  | apply mutations batch membership appliedEntries =>
    rw [Group.step] at hstep
    split_ifs at hstep with hnext
    obtain ⟨store, hstore, hafter⟩ := Option.bind_eq_some_iff.mp hstep
    cases hafter
    exact h.apply hnext (toOption_eq_some_iff.mp hstore)
  | install records applied =>
    obtain ⟨store, hstore, hafter⟩ := Option.bind_eq_some_iff.mp hstep
    cases hafter
    exact h.install hstore
  | register name generation =>
    obtain ⟨⟨registration, store⟩, hstore, hafter⟩ := Option.bind_eq_some_iff.mp hstep
    cases hafter
    exact h.register prims (toOption_eq_some_iff.mp hstore)
  | unregister name generation =>
    cases hstep
    exact h.unregister _
  | beginRebuild name generation =>
    obtain ⟨store, hstore, hafter⟩ := Option.bind_eq_some_iff.mp hstep
    cases hafter
    exact h.beginRebuild (toOption_eq_some_iff.mp hstore)
  | view name generation =>
    obtain ⟨view, hview, hafter⟩ := Option.bind_eq_some_iff.mp hstep
    cases hafter
    exact h.view (toOption_eq_some_iff.mp hview)
  | recordFloor name generation =>
    obtain ⟨⟨viewEpoch, source⟩, hview, hafter⟩ := Option.bind_eq_some_iff.mp hstep
    cases hafter
    exact h.recordFloor hview
  | recordCheckpoint name generation =>
    obtain ⟨⟨viewEpoch, source⟩, hview, hstep⟩ := Option.bind_eq_some_iff.mp hstep
    obtain ⟨store, hstore, hafter⟩ := Option.bind_eq_some_iff.mp hstep
    cases hafter
    exact h.recordCheckpoint hview (toOption_eq_some_iff.mp hstore)
  | release =>
    obtain ⟨⟨key, store⟩, hstore, hafter⟩ := Option.bind_eq_some_iff.mp hstep
    cases hafter
    exact h.release hstore
  | prune =>
    obtain ⟨⟨deleted, store⟩, hstore, hafter⟩ := Option.bind_eq_some_iff.mp hstep
    cases hafter
    exact h.prune (toOption_eq_some_iff.mp hstore)

theorem empty (partition : UInt16) : Group.empty.Retaining partition where
  decodes := ⟨_, rfl⟩
  within := fun batch hbatch ↦ absurd hbatch List.not_mem_nil
  changed := fun batch hbatch ↦ absurd hbatch List.not_mem_nil
  keeps := fun key state hstate ↦ by
    rw [Group.empty, Std.ExtTreeMap.getElem?_empty] at hstate
    cases hstate

end Retaining

end Group

/-- Whatever happens to a data group: a registered consumer that holds retention and has a watermark
finds, for every user key an entry above the watermark changed in the current epoch, a row of the
epoch above the watermark; one without a watermark finds every row of the epoch written since it was
registered or last began a rebuild. -/
theorem outbox_retention (prims : Primitives) (partition : UInt16) {events : List RetentionEvent}
    {g : Group} (hrun : events.foldlM (Group.step prims partition) Group.empty = some g)
    {key : Bytes} {state : SearchConsumerState} (hstate : g.store.consumers[key]? = some state)
    (hholds : state.holdsRetention) :
    (∀ mark, watermark g.epoch state (g.pass key) = some mark →
      ∀ batch ∈ g.batches, ∀ change ∈ batch.changes, mark < change.1 →
        ∃ row entry, decodeOutboxKey (.data partition) row = .ok entry ∧
          g.store.store.outbox[row]? = some () ∧ entry.epoch = g.epoch ∧
          entry.userKey = change.2 ∧ mark < entry.sourceLogId.index) ∧
    (watermark g.epoch state (g.pass key) = none →
      ∀ batch ∈ g.batches.drop (g.pass key).since, ∀ name ∈ batch.keys,
        ∃ row, decodeOutboxKey (.data partition) row = .ok ⟨g.epoch, batch.logId, name⟩ ∧
          g.store.store.outbox[row]? = some ()) := by
  have h : g.Retaining partition := foldlM_invariant (P := fun g ↦ g.Retaining partition)
    (fun hbefore hstep ↦ hbefore.step prims hstep) hrun (.empty partition)
  have hkeeps := h.keeps key state hstate
  refine ⟨fun mark hmark batch hbatch change hchange hlt ↦ ?_, hkeeps.unmarked hholds⟩
  obtain ⟨hname, hle⟩ := h.changed batch hbatch change hchange
  have habove : mark < batch.logId.index := UInt64.lt_of_lt_of_le hlt hle
  obtain ⟨row, hrow, hin⟩ := hkeeps.marked hholds mark hmark batch hbatch habove change.2 hname
  exact ⟨row, _, hrow, hin, rfl, rfl, habove⟩

/-! An index is registered and built over one write, follows a second one, and is built again. -/

def sampleBuild (name : String) : SearchIndexGeneration where
  id := 1
  definitionHash := Vector.replicate 32 0
  engineRevision := 2
  definition :=
    ⟨name, [⟨"title", [.key "title"], .keyword, true, false, true, true, false⟩], ["title"]⟩

def sampleWrite (index : UInt64) (key : Bytes) : RetentionEvent :=
  .apply [.put (userKey key) (.user ⟨index, []⟩)]
    ⟨⟨⟨1, 1⟩, index⟩, [key], [(index, key)]⟩ .default 1

def sampleEvents : List RetentionEvent :=
  [.register "notes" (sampleBuild "note"), sampleWrite 1 [1],
    .beginRebuild "notes" (sampleBuild "note"),
    .view "notes" 1, .recordFloor "notes" 1, .recordCheckpoint "notes" (sampleBuild "note"),
    sampleWrite 2 [2], .view "notes" 1, .recordCheckpoint "notes" (sampleBuild "note"), .prune]

def sampleRun (events : List RetentionEvent) : Option Group :=
  events.foldlM (Group.step ⟨fun _ ↦ Vector.replicate 32 0, id⟩ 0) Group.empty

theorem exists_of_any_sampleRun (events : List RetentionEvent)
    (p : Group → SearchConsumerState → Bool)
    (h : (sampleRun events).any (fun g ↦
      g.store.consumers[SearchStore.consumerKey 0 "notes" 1]?.any (p g)) = true) :
    ∃ g state, sampleRun events = some g ∧
      g.store.consumers[SearchStore.consumerKey 0 "notes" 1]? = some state ∧ p g state = true := by
  obtain ⟨g, hrun, hany⟩ := (Option.any_eq_true _ _).mp h
  obtain ⟨state, hstate, hp⟩ := (Option.any_eq_true _ _).mp hany
  exact ⟨g, state, hrun, hstate, hp⟩

/-- With its checkpoint at the first write, the consumer finds the row of the second. -/
theorem outbox_retention_second_write :
    ∃ g state, sampleRun (sampleEvents.take 7) = some g ∧
      g.store.consumers[SearchStore.consumerKey 0 "notes" 1]? = some state ∧
      g.batches.any (fun batch ↦ batch.changes.contains (2, [2])) = true ∧
      ∀ batch ∈ g.batches, ∀ change ∈ batch.changes, 1 < change.1 →
        ∃ row entry, decodeOutboxKey (.data 0) row = .ok entry ∧
          g.store.store.outbox[row]? = some () ∧ entry.epoch = g.epoch ∧
          entry.userKey = change.2 ∧ 1 < entry.sourceLogId.index := by
  obtain ⟨g, state, hrun, hstate, hp⟩ := exists_of_any_sampleRun (sampleEvents.take 7)
    (fun g state ↦ state.holdsRetention &&
      (decide (watermark g.epoch state (g.pass (SearchStore.consumerKey 0 "notes" 1)) = some 1) &&
        g.batches.any (fun batch ↦ batch.changes.contains (2, [2])))) (by decide +kernel)
  rw [Bool.and_eq_true, Bool.and_eq_true, decide_eq_true_eq] at hp
  exact ⟨g, state, hrun, hstate, hp.2.2, (outbox_retention _ 0 hrun hstate hp.1).1 1 hp.2.1⟩

/-- Built again, the consumer holds retention with the floor of its first build, at the first write,
and the row of the second write is gone. -/
theorem stale_floor_has_lost_rows :
    ∃ g state, sampleRun (sampleEvents ++ [.beginRebuild "notes" (sampleBuild "note")]) = some g ∧
      g.store.consumers[SearchStore.consumerKey 0 "notes" 1]? = some state ∧
      state.holdsRetention = true ∧ state.checkpoint = none ∧
      state.retentionFloor = some (g.epoch, 1) ∧
      g.batches.any (fun batch ↦ batch.changes.contains (2, [2])) = true ∧
      g.store.store.outbox.isEmpty = true := by
  obtain ⟨g, state, hrun, hstate, hp⟩ :=
    exists_of_any_sampleRun (sampleEvents ++ [.beginRebuild "notes" (sampleBuild "note")])
      (fun g state ↦ state.holdsRetention && (decide (state.checkpoint = none) &&
        (decide (state.retentionFloor = some (g.epoch, 1)) &&
          (g.batches.any (fun batch ↦ batch.changes.contains (2, [2])) &&
            g.store.store.outbox.isEmpty)))) (by decide +kernel)
  simp only [Bool.and_eq_true, decide_eq_true_eq] at hp
  exact ⟨g, state, hrun, hstate, hp⟩

/-- After the prune, a checkpoint that quotes the first view of the build is recorded: the consumer
holds retention at the first write, and the row of the second write is gone. -/
theorem older_view_has_lost_rows :
    let key := SearchStore.consumerKey 0 "notes" 1
    let view : UInt64 × Option RaftLogId := (1, some ⟨⟨1, 1⟩, 1⟩)
    (sampleRun (sampleEvents.take 4)).map (fun g ↦ (g.pass key).view) = some (some view) ∧
    ((sampleRun sampleEvents).bind fun g ↦
      (g.store.recordSearchConsumerCheckpoint 0 "notes" 1
        ⟨view.1, Vector.replicate 32 0, 2, view.2⟩).toOption.bind fun store ↦
          store.consumers[key]?.map fun state ↦ (state.holdsRetention, state.mark g.epoch,
            g.batches.any (·.changes.contains (2, [2])), store.store.outbox.isEmpty)) =
      some (true, some 1, true, true) := by
  decide +kernel

end DalService.Search
