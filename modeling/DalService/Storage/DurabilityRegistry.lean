import DalService.Foundation.Run
import DalService.Storage.ApplyDurability

/-!
# The durability registry of a database

`ApplyDurabilityRegistry`: one tracker for each group, and a failure that is recorded for the whole
database. A call takes one lock after another: it reads the recorded failure, looks its tracker up,
fails the tracker if the database had failed, works on the tracker, and where that went wrong
records a failure and fails every tracker. Calls of any number of threads interleave at those points
(`System.step`); the watchdog for old batches is one more caller of `failAll`.

What holds of a tracker at every point is `Accounted`, and what it keeps as time goes on is
`Advances`: a watermark stays, or rises to a higher index. A thread's own promises (`ThreadOk`)
survive what other threads do (`ThreadOk.advance`), so one step of one thread is all there is to
check (`Sound.step`). The result for all interleavings is `durability_registry`. A snapshot
installed at a log id that conflicts with the visible watermark alone still becomes the durable
watermark (`install_adopted_by_durable`).
-/

set_option autoImplicit false

namespace DalService.Storage

open Foundation DalService.Partition

variable {logIdText : RaftLogId → String} {current : Option RaftLogId} {logId target : RaftLogId}

/-! ### One tracker -/

/-- A watermark stays, or rises to a higher index. -/
def Raised (before after : Option RaftLogId) : Prop := after = before ∨ next before < next after

theorem Raised.refl (current : Option RaftLogId) : Raised current current := .inl rfl

theorem Raised.next_le {before after : Option RaftLogId} (h : Raised before after) :
    next before ≤ next after := by
  rcases h with rfl | hlt
  · exact le_refl _
  · exact hlt.le

theorem Raised.trans {first second third : Option RaftLogId} (h : Raised first second)
    (h' : Raised second third) : Raised first third := by
  rcases h with rfl | hlt
  · exact h'
  · exact .inr (lt_of_lt_of_le hlt h'.next_le)

/-- The log id has the index of the watermark and is another. -/
def Conflicts (current : Option RaftLogId) (logId : RaftLogId) : Prop :=
  ∃ previous, current = some previous ∧ previous.index = logId.index ∧ previous ≠ logId

instance (current : Option RaftLogId) (logId : RaftLogId) : Decidable (Conflicts current logId) :=
  decidable_of_iff (current.any fun previous ↦ previous.index = logId.index ∧ previous ≠ logId) (by
    simp [Conflicts, Option.any_eq_true])

theorem raised_advance {after : Option RaftLogId}
    (h : advance logIdText current logId = .ok after) : Raised current after := by
  cases current with
  | none =>
    cases h
    exact .inr (Nat.succ_pos _)
  | some previous =>
    simp only [advance] at h
    split_ifs at h with hconflict hbehind hsame
    · exact .inl (Except.ok.inj h).symm
    · exact .inl (Except.ok.inj h).symm
    · cases h
      have hle := not_lt.mp (mt UInt64.lt_iff_toNat_lt.mpr hbehind)
      have hne : previous.index.toNat ≠ logId.index.toNat := fun heq ↦
        hconflict ⟨UInt64.toNat_inj.mp heq, hsame⟩
      exact .inr (Nat.succ_lt_succ (lt_of_le_of_ne hle hne))

variable (logIdText) in
theorem advance_of_conflicts
    (h : Conflicts current logId) : ∃ error, advance logIdText current logId = .error error := by
  obtain ⟨previous, rfl, hindex, hne⟩ := h
  exact ⟨_, if_pos ⟨hindex, hne⟩⟩

variable (logIdText) in
theorem reaches_of_conflicts (h : Conflicts current target) :
    ∃ record detail, reaches logIdText current target = .error (.corrupt record detail) := by
  obtain ⟨previous, rfl, hindex, hne⟩ := h
  have hbehind : ¬previous.index < target.index := hindex ▸ UInt64.lt_irrefl _
  exact ⟨_, _, (if_neg hbehind).trans (if_pos ⟨hindex, hne⟩)⟩

/-- A watermark that reaches a target is above it, or is the target. -/
theorem exists_of_reaches (h : reaches logIdText current target = .ok true) :
    ∃ previous, current = some previous ∧ (target.index < previous.index ∨ previous = target) := by
  cases current with
  | none => cases h
  | some previous =>
    simp only [reaches] at h
    split_ifs at h with hbehind hconflict
    · cases h
    · refine ⟨previous, rfl, ?_⟩
      by_cases hsame : previous = target
      · exact .inr hsame
      · have hne : target.index ≠ previous.index := fun hindex ↦ hconflict ⟨hindex.symm, hsame⟩
        exact .inl (UInt64.lt_of_le_of_ne (UInt64.not_lt.mp hbehind) hne)

theorem next_of_advance_error {error : Error} (h : advance logIdText current logId = .error error) :
    next current = logId.index.toNat + 1 := by
  cases current with
  | none => cases h
  | some previous =>
    simp only [advance] at h
    split_ifs at h with hconflict
    rw [next_some, hconflict.1]

/-- What a tracker keeps as time goes on. -/
structure Advances (st after : GroupState) : Prop where
  visible : Raised st.visible after.visible
  durable : Raised st.durable after.durable
  failed : st.failed ≠ none → after.failed ≠ none

theorem Advances.refl (st : GroupState) : Advances st st := ⟨.refl _, .refl _, id⟩

theorem Advances.trans {first second third : GroupState} (h : Advances first second)
    (h' : Advances second third) : Advances first third :=
  ⟨h.visible.trans h'.visible, h.durable.trans h'.durable, h'.failed ∘ h.failed⟩

/-- The counters are the sums over the queue, within the limits, and what is durable is visible. -/
structure Accounted (limits : ApplyDurabilityLimits) (st : GroupState) : Prop where
  entries : st.pendingEntries = (st.pending.map (·.entries)).sum
  bytes : st.pendingBytes = (st.pending.map (·.bytes)).sum
  entries_le : st.pendingEntries ≤ limits.maxPendingEntries
  bytes_le : st.pendingBytes ≤ limits.maxPendingBytes
  durable_le : next st.durable ≤ next st.visible

namespace GroupState

variable {limits : ApplyDurabilityLimits} {st after : GroupState}

theorem accounted_new (limits : ApplyDurabilityLimits) (recovered : Option RaftLogId) (ready : Bool)
    (epoch : UInt64) : Accounted limits (new recovered ready epoch) :=
  ⟨rfl, rfl, Nat.zero_le _, Nat.zero_le _, le_refl _⟩

theorem accounted_fail (h : Accounted limits st) (error : String) :
    Accounted limits (st.fail error) :=
  ⟨h.entries, h.bytes, h.entries_le, h.bytes_le, h.durable_le⟩

theorem advances_fail (error : String) : Advances st (st.fail error) :=
  ⟨.refl _, .refl _, fun _ ↦ failed_fail error⟩

theorem sum_eraseP {items : List PendingApply} {p : PendingApply → Bool} {found : PendingApply}
    (hfind : items.find? p = some found) (f : PendingApply → ℕ) :
    (items.map f).sum = f found + ((items.eraseP p).map f).sum := by
  induction items with
  | nil => cases hfind
  | cons first rest ih =>
    by_cases hp : p first
    · rw [List.find?_cons_of_pos hp] at hfind
      cases hfind
      rw [List.eraseP_cons_of_pos hp]
      simp
    · rw [List.find?_cons_of_neg hp] at hfind
      rw [List.eraseP_cons_of_neg hp, List.map_cons, List.map_cons, List.sum_cons, List.sum_cons,
        ih hfind]
      omega

theorem accounted_release (h : Accounted limits st) (logId : RaftLogId) :
    Accounted limits (st.release logId) := by
  unfold release
  split
  · exact h
  · next found hfound =>
    have hentries := sum_eraseP hfound (·.entries)
    have hbytes := sum_eraseP hfound (·.bytes)
    refine ⟨?_, ?_, (Nat.sub_le _ _).trans h.entries_le, (Nat.sub_le _ _).trans h.bytes_le,
      h.durable_le⟩
    · rw [h.entries, hentries, Nat.add_sub_cancel_left]
    · rw [h.bytes, hbytes, Nat.add_sub_cancel_left]

theorem advances_release (logId : RaftLogId) : Advances st (st.release logId) :=
  ⟨.inl visible_release, .inl durable_release, by rw [failed_release]; exact id⟩

theorem accounted_begin {entries bytes : ℕ} (h : Accounted limits st)
    (hbegin : st.begin limits logId entries bytes = .ok (some after)) :
    Accounted limits after ∧ Advances st after := by
  obtain ⟨hfailed, hvisible, hdurable, -⟩ := begin_eq_some hbegin
  refine ⟨?_, .inl hvisible, .inl hdurable, fun hne ↦ absurd hfailed hne⟩
  unfold GroupState.begin at hbegin
  rw [hfailed] at hbegin
  dsimp only at hbegin
  split_ifs at hbegin with hclosing hlarge hfits
  · cases hbegin
    refine ⟨?_, ?_, hfits.1, hfits.2, h.durable_le⟩
    · simp [h.entries]
    · simp [h.bytes]
  · cases hbegin

theorem accounted_visibleAt (h : Accounted limits st) :
    Accounted limits (st.visibleAt logIdText logId) ∧
      Advances st (st.visibleAt logIdText logId) := by
  unfold visibleAt
  split
  · next visible hadvance =>
    have hraised := raised_advance hadvance
    exact ⟨⟨h.entries, h.bytes, h.entries_le, h.bytes_le, h.durable_le.trans hraised.next_le⟩,
      hraised, .refl _, id⟩
  · exact ⟨accounted_fail h _, advances_fail _⟩

/-- After a log id is made visible, the visible watermark is at its index or above. -/
theorem lt_next_visibleAt : logId.index.toNat < next (st.visibleAt logIdText logId).visible := by
  unfold visibleAt
  split
  · next visible hadvance =>
    dsimp only
    rw [next_advance hadvance]
    exact lt_of_lt_of_le (Nat.lt_succ_self _) (le_max_right _ _)
  · next error hadvance =>
    rw [visible_fail, next_of_advance_error hadvance]
    exact Nat.lt_succ_self _

theorem accounted_durableAt (h : Accounted limits st)
    (hvisible : logId.index.toNat < next st.visible) :
    Accounted limits (st.durableAt logIdText logId) ∧
      Advances st (st.durableAt logIdText logId) := by
  unfold durableAt
  split
  · next durable hadvance =>
    have hraised : Accounted limits { st with durable := durable } := by
      refine ⟨h.entries, h.bytes, h.entries_le, h.bytes_le, ?_⟩
      dsimp only
      rw [next_advance hadvance]
      exact max_le h.durable_le hvisible
    have hstep : Advances st { st with durable := durable } :=
      ⟨.refl _, raised_advance hadvance, id⟩
    exact ⟨accounted_release hraised logId, hstep.trans (advances_release logId)⟩
  · exact ⟨accounted_release (accounted_fail h _) logId,
      (advances_fail _).trans (advances_release logId)⟩

variable (logIdText) in
theorem accounted_installed (h : Accounted limits st) (target : Option RaftLogId)
    (requiresFence : Bool) (epoch : UInt64) :
    Accounted limits (st.installed logIdText target requiresFence epoch) ∧
      Advances st (st.installed logIdText target requiresFence epoch) := by
  cases target with
  | none =>
    exact ⟨⟨h.entries, h.bytes, h.entries_le, h.bytes_le, h.durable_le⟩, .refl _, .refl _, id⟩
  | some target =>
    unfold GroupState.installed
    dsimp only
    split
    · next visible durable hvisible hdurable =>
      refine ⟨⟨h.entries, h.bytes, h.entries_le, h.bytes_le, ?_⟩, raised_advance hvisible,
        raised_advance hdurable, id⟩
      dsimp only
      rw [next_advance hvisible, next_advance hdurable]
      exact max_le_max_right _ h.durable_le
    · next visible error hvisible hdurable =>
      refine ⟨⟨h.entries, h.bytes, h.entries_le, h.bytes_le, ?_⟩, raised_advance hvisible, .refl _,
        fun _ ↦ failed_fail _⟩
      exact h.durable_le.trans (raised_advance hvisible).next_le
    · next error durable hvisible hdurable =>
      refine ⟨⟨h.entries, h.bytes, h.entries_le, h.bytes_le, ?_⟩, .refl _, raised_advance hdurable,
        fun _ ↦ failed_fail _⟩
      -- the visible watermark is at the index of the log id it conflicts with
      change next durable ≤ next st.visible
      rw [next_advance hdurable]
      exact max_le h.durable_le (next_of_advance_error hvisible).ge
    · exact ⟨⟨h.entries, h.bytes, h.entries_le, h.bytes_le, h.durable_le⟩, .refl _, .refl _,
        fun _ ↦ failed_fail _⟩

theorem markRecoveryReady_eq_ok {epoch : UInt64} {target : Option RaftLogId}
    (h : st.markRecoveryReady logIdText epoch target = .ok after) :
    after = { st with recoveryReady := true, recoveryTarget := target } := by
  unfold GroupState.markRecoveryReady at h
  simp only [bind, Except.bind, pure, Except.pure, throw, throwThe, MonadExceptOf.throw] at h
  split_ifs at h
  cases hfailed : st.failed with
  | some error =>
    rw [hfailed] at h
    cases h
  | none =>
    rw [hfailed] at h
    dsimp only at h
    cases target with
    | none => exact (Except.ok.inj h).symm
    | some target =>
      dsimp only at h
      split at h
      · cases h
      · split_ifs at h
        exact (Except.ok.inj h).symm

theorem accounted_markRecoveryReady (h : Accounted limits st) {epoch : UInt64}
    {target : Option RaftLogId} (hready : st.markRecoveryReady logIdText epoch target = .ok after) :
    Accounted limits after ∧ Advances st after := by
  rw [markRecoveryReady_eq_ok hready]
  exact ⟨⟨h.entries, h.bytes, h.entries_le, h.bytes_le, h.durable_le⟩, .refl _, .refl _, id⟩

/-! ### A tracker that failed refuses -/

theorem begin_of_failed (hfailed : st.failed ≠ none) (limits : ApplyDurabilityLimits)
    (logId : RaftLogId) (entries bytes : ℕ) :
    ∃ error, st.begin limits logId entries bytes = .error error := by
  obtain ⟨error, herror⟩ := Option.ne_none_iff_exists'.mp hfailed
  rw [GroupState.begin, herror]
  exact ⟨_, rfl⟩

variable (logIdText) in
theorem markRecoveryReady_of_failed (hfailed : st.failed ≠ none) (epoch : UInt64)
    (target : Option RaftLogId) :
    ∃ error, st.markRecoveryReady logIdText epoch target = .error error ∧
      ∀ record detail, error ≠ .corrupt record detail := by
  obtain ⟨error, herror⟩ := Option.ne_none_iff_exists'.mp hfailed
  unfold GroupState.markRecoveryReady
  simp only [bind, Except.bind, pure, Except.pure, throw, throwThe, MonadExceptOf.throw]
  split_ifs
  · exact ⟨_, rfl, fun _ _ h ↦ by cases h⟩
  · rw [herror]
    exact ⟨_, rfl, fun _ _ h ↦ by cases h⟩

variable (logIdText) in
theorem validateInstall_of_failed (hfailed : st.failed ≠ none) (target : Option RaftLogId) :
    ∃ message, st.validateInstall logIdText target = .error (.io message) := by
  obtain ⟨error, herror⟩ := Option.ne_none_iff_exists'.mp hfailed
  rw [validateInstall, herror]
  exact ⟨_, rfl⟩

/-- A log id that conflicts with a watermark fails the tracker. -/
theorem failed_visibleAt (h : Conflicts st.visible logId) :
    (st.visibleAt logIdText logId).failed ≠ none := by
  obtain ⟨error, herror⟩ := advance_of_conflicts logIdText h
  rw [visibleAt, herror]
  exact failed_fail _

theorem failed_durableAt (h : Conflicts st.durable logId) :
    (st.durableAt logIdText logId).failed ≠ none := by
  obtain ⟨error, herror⟩ := advance_of_conflicts logIdText h
  rw [durableAt, herror, failed_release]
  exact failed_fail _

theorem failed_installed (h : Conflicts st.visible logId ∨ Conflicts st.durable logId)
    (requiresFence : Bool) (epoch : UInt64) :
    (st.installed logIdText (some logId) requiresFence epoch).failed ≠ none := by
  unfold GroupState.installed
  dsimp only
  split
  · next visible durable hvisible hdurable =>
    rcases h with hconflict | hconflict
    · obtain ⟨error, herror⟩ := advance_of_conflicts logIdText hconflict
      rw [herror] at hvisible
      cases hvisible
    · obtain ⟨error, herror⟩ := advance_of_conflicts logIdText hconflict
      rw [herror] at hdurable
      cases hdurable
  all_goals exact failed_fail _

variable (logIdText) in
theorem markRecoveryReady_of_conflicts {epoch : UInt64} (hepoch : st.recoveryEpoch = epoch)
    (hclosing : st.closing = false) (hfailed : st.failed = none) (h : Conflicts st.visible target) :
    ∃ record detail, st.markRecoveryReady logIdText epoch (some target) =
      .error (.corrupt record detail) := by
  obtain ⟨record, detail, herror⟩ := reaches_of_conflicts logIdText h
  refine ⟨record, detail, ?_⟩
  unfold GroupState.markRecoveryReady
  simp [bind, Except.bind, hepoch, hclosing, hfailed, herror]

variable (logIdText) in
theorem installConflict_of_conflicts (name : String) (h : Conflicts current target) :
    ∃ record detail, installConflict logIdText name current (some target) =
      some (.corrupt record detail) := by
  obtain ⟨previous, rfl, hindex, hne⟩ := h
  have hbehind : ¬target.index < previous.index := hindex ▸ UInt64.lt_irrefl _
  exact ⟨_, _, (if_neg hbehind).trans (if_pos ⟨hindex.symm, hne.symm⟩)⟩

theorem corrupt_of_installConflict {name : String} {target : Option RaftLogId} {error : Error}
    (h : installConflict logIdText name current target = some error) :
    ∃ record detail, error = .corrupt record detail := by
  unfold installConflict at h
  split at h
  · cases h
  · exact ⟨_, _, (Option.some.inj h).symm⟩
  · split_ifs at h
    all_goals exact ⟨_, _, (Option.some.inj h).symm⟩

variable (logIdText) in
theorem validateInstall_of_conflicts (hfailed : st.failed = none)
    (h : Conflicts st.visible target ∨ Conflicts st.durable target) :
    ∃ record detail,
      st.validateInstall logIdText (some target) = .error (.corrupt record detail) := by
  rw [validateInstall, hfailed]
  dsimp only
  split
  · next error herror =>
    obtain ⟨record, detail, rfl⟩ := corrupt_of_installConflict herror
    exact ⟨record, detail, rfl⟩
  · next hvisible =>
    rcases h with h | h
    · obtain ⟨record, detail, herror⟩ :=
        installConflict_of_conflicts logIdText "visible" h
      rw [herror] at hvisible
      cases hvisible
    · obtain ⟨record, detail, herror⟩ :=
        installConflict_of_conflicts logIdText "durable" h
      rw [herror]
      exact ⟨record, detail, rfl⟩

end GroupState

/-! ### The registry and the calls of its threads -/

/-- The trackers of a database and its recorded failure. -/
structure Registry where
  limits : ApplyDurabilityLimits
  failed : Option String
  groups : List GroupId
  tracker : GroupId → Option GroupState
  nextEpoch : UInt64

/-- A call of the registry. -/
inductive Call
  | register (group : GroupId) (recovered : Option RaftLogId)
  | begin (group : GroupId) (logId : RaftLogId) (entries bytes : ℕ)
  | visible (group : GroupId) (logId : RaftLogId)
  | durable (group : GroupId) (logId : RaftLogId)
  | cancel (group : GroupId) (logId : RaftLogId) (error : String)
  | installed (group : GroupId) (logId : Option RaftLogId)
  | failAll (error : String)
  | beginClose (group : GroupId)
  | waitDurable (group : GroupId) (target : RaftLogId)
  | waitVisible (group : GroupId) (target : RaftLogId)
  | markRecoveryReady (group : GroupId) (epoch : UInt64) (target : Option RaftLogId)
  | validateInstall (group : GroupId) (target : Option RaftLogId)

namespace Call

/-- The group of a call, if it is about one. -/
def group : Call → Option GroupId
  | .register group _ | .begin group _ _ _ | .visible group _ | .durable group _ | .cancel group _ _
  | .installed group _ | .beginClose group | .waitDurable group _ | .waitVisible group _
  | .markRecoveryReady group _ _ | .validateInstall group _ => some group
  | .failAll _ => none

/-- The position a tracker that a call creates starts at. -/
def recovered : Call → Option RaftLogId
  | .register _ recovered => recovered
  | _ => none

/-- The calls that have to fail once the database has. -/
def fallible : Call → Bool
  | .begin _ _ _ _ | .waitDurable _ _ | .waitVisible _ _ | .markRecoveryReady _ _ _
  | .validateInstall _ _ => true
  | _ => false

/-- The call compares its log id with a watermark of its tracker, and the two conflict. -/
def conflicts (st : GroupState) : Call → Bool
  | .visible _ logId => Conflicts st.visible logId
  | .durable _ logId => Conflicts st.durable logId
  | .installed _ (some logId) => Conflicts st.visible logId ∨ Conflicts st.durable logId
  | .waitDurable _ target => st.failed = none ∧ Conflicts st.durable target
  | .waitVisible _ target => st.failed = none ∧ Conflicts st.visible target
  | .markRecoveryReady _ epoch (some target) =>
    st.recoveryEpoch = epoch ∧ !st.closing ∧ st.failed = none ∧ Conflicts st.visible target
  | .validateInstall _ (some target) =>
    st.failed = none ∧ (Conflicts st.visible target ∨ Conflicts st.durable target)
  | _ => false

end Call

/-- What a call does next, at the lock it takes next. -/
inductive Pc
  /-- Read the recorded failure. -/
  | lookup
  /-- Look the tracker up, creating it. -/
  | insert (failure : Option String)
  /-- Fail the tracker with the failure read before. -/
  | mark (error : String)
  /-- Work on the tracker. -/
  | act
  /-- Read the failure of the tracker. -/
  | check
  /-- `fail_all`: record the failure, list the trackers, and fail one after the other. -/
  | record (error : String) (result : Result Unit)
  | collect (error : String) (result : Result Unit)
  | failEach (error : String) (groups : List GroupId) (result : Result Unit)
  | done (result : Result Unit)

/-- Where a call starts. -/
def Call.entry : Call → Pc
  | .failAll error => .record error (.ok ())
  | _ => .lookup

/-- `fail_on_corruption`. -/
def failOnCorruption (result : Result Unit) : Pc :=
  match result with
  | .error (.corrupt record detail) => .record (Error.corrupt record detail).text result
  | _ => .done result

/-- One look of a waiting call at a watermark. -/
def waits (logIdText : RaftLogId → String) (st : GroupState) (current : Option RaftLogId)
    (target : RaftLogId) : Pc :=
  match st.failed with
  | some error => .done (.error (.io error))
  | none =>
    match reaches logIdText current target with
    | .error error => failOnCorruption (.error error)
    | .ok true => .done (.ok ())
    | .ok false => .act

namespace Registry

/-- A database without trackers. -/
def new (limits : ApplyDurabilityLimits) : Registry where
  limits := limits
  failed := none
  groups := []
  tracker := fun _ ↦ none
  nextEpoch := 1

def setTracker (r : Registry) (group : GroupId) (st : GroupState) : Registry :=
  { r with tracker := Function.update r.tracker group (some st) }

/-- The tracker of a group, created if there is none. -/
def insert (r : Registry) (group : GroupId) (recovered : Option RaftLogId) : Registry :=
  match r.tracker group with
  | some _ => r
  | none =>
    { r with
      groups := r.groups ++ [group]
      tracker := Function.update r.tracker group
        (some (GroupState.new recovered (group = GroupId.meta) r.nextEpoch))
      nextEpoch := r.nextEpoch + 1 }

def failTracker (r : Registry) (group : GroupId) (error : String) : Registry :=
  match r.tracker group with
  | some st => r.setTracker group (st.fail error)
  | none => r

/-- The work of a call on its tracker. -/
def act (logIdText : RaftLogId → String) (r : Registry) (group : GroupId) (st : GroupState) :
    Call → Registry × Pc
  | .begin _ logId entries bytes =>
    match st.begin r.limits logId entries bytes with
    | .error error => (r, .done (.error error))
    | .ok (some after) => (r.setTracker group after, .done (.ok ()))
    | .ok none => (r, .act)
  | .visible _ logId => (r.setTracker group (st.visibleAt logIdText logId), .check)
  | .durable _ logId => (r.setTracker group (st.durableAt logIdText logId), .check)
  | .cancel _ logId error => (r.setTracker group (st.cancel logId error), .record error (.ok ()))
  | .installed _ logId =>
    ({ r with nextEpoch := r.nextEpoch + 1 }.setTracker group
      (st.installed logIdText logId (group ≠ GroupId.meta) r.nextEpoch), .check)
  | .beginClose _ => (r.setTracker group st.beginClose, .done (.ok ()))
  | .waitDurable _ target => (r, waits logIdText st st.durable target)
  | .waitVisible _ target => (r, waits logIdText st st.visible target)
  | .markRecoveryReady _ epoch target =>
    match st.markRecoveryReady logIdText epoch target with
    | .error error => (r, failOnCorruption (.error error))
    | .ok after => (r.setTracker group after, .done (.ok ()))
  | .validateInstall _ target => (r, failOnCorruption (st.validateInstall logIdText target))
  | .register _ _ | .failAll _ => (r, .done (.ok ()))

/-- One step of a call on its group: what it does under the lock it takes next. -/
def stepGroup (logIdText : RaftLogId → String) (r : Registry) (call : Call) (group : GroupId) :
    Pc → Registry × Pc
  | .lookup => (r, .insert r.failed)
  | .insert none => (r.insert group call.recovered, .act)
  | .insert (some error) => (r.insert group call.recovered, .mark error)
  | .mark error => (r.failTracker group error, .act)
  | .act =>
    match r.tracker group with
    | none => (r, .act)
    | some st => r.act logIdText group st call
  | .check =>
    match (r.tracker group).bind (·.failed) with
    | some error => (r, .record error (.ok ()))
    | none => (r, .done (.ok ()))
  | pc => (r, pc)

/-- One step of a call. -/
def step (logIdText : RaftLogId → String) (r : Registry) (call : Call) : Pc → Registry × Pc
  | .record error result =>
    ({ r with failed := some (r.failed.getD error) }, .collect error result)
  | .collect error result => (r, .failEach error r.groups result)
  | .failEach error (group :: rest) result =>
    (r.failTracker group error, .failEach error rest result)
  | .failEach _ [] result => (r, .done result)
  | pc =>
    match call.group with
    | none => (r, pc)
    | some group => r.stepGroup logIdText call group pc

/-! ### What a registry keeps as time goes on -/

/-- Trackers stay and advance, and a recorded failure stays. -/
structure Grows (r after : Registry) : Prop where
  limits : after.limits = r.limits
  failed : r.failed ≠ none → after.failed ≠ none
  tracker : ∀ group st, r.tracker group = some st →
    ∃ st', after.tracker group = some st' ∧ Advances st st'

theorem Grows.refl (r : Registry) : Grows r r :=
  ⟨rfl, id, fun _ st h ↦ ⟨st, h, Advances.refl st⟩⟩

theorem Grows.trans {first second third : Registry} (h : Grows first second)
    (h' : Grows second third) : Grows first third := by
  refine ⟨h'.limits.trans h.limits, h'.failed ∘ h.failed, fun group st hst ↦ ?_⟩
  obtain ⟨mid, hmid, hfirst⟩ := h.tracker group st hst
  obtain ⟨last, hlast, hsecond⟩ := h'.tracker group mid hmid
  exact ⟨last, hlast, hfirst.trans hsecond⟩

/-- All trackers are accounted for. -/
def AllAccounted (r : Registry) : Prop :=
  ∀ group st, r.tracker group = some st → Accounted r.limits st

variable {r : Registry} {group : GroupId} {st after : GroupState}

/-- The tracker of one group is replaced by one that it advances to. -/
theorem grows_setTracker (h : AllAccounted r) (hst : r.tracker group = some st)
    (hafter : Accounted r.limits after ∧ Advances st after) :
    AllAccounted (r.setTracker group after) ∧ Grows r (r.setTracker group after) := by
  refine ⟨fun other found hfound ↦ ?_, rfl, id, fun other found hfound ↦ ?_⟩
  · rcases update_eq_some hfound with ⟨rfl, rfl⟩ | ⟨-, hold⟩
    · exact hafter.1
    · exact h other found hold
  · by_cases hother : other = group
    · subst hother
      obtain rfl := Option.some.inj (hst.symm.trans hfound)
      exact ⟨after, by simp [setTracker], hafter.2⟩
    · exact ⟨found, by simpa [setTracker, Function.update_of_ne hother] using hfound,
        Advances.refl found⟩

theorem grows_failTracker (h : AllAccounted r) (group : GroupId) (error : String) :
    AllAccounted (r.failTracker group error) ∧ Grows r (r.failTracker group error) := by
  unfold failTracker
  split
  · next st hst =>
    exact grows_setTracker h hst ⟨GroupState.accounted_fail (h group st hst) error,
      GroupState.advances_fail error⟩
  · exact ⟨h, Grows.refl r⟩

theorem grows_insert (h : AllAccounted r) (group : GroupId) (recovered : Option RaftLogId) :
    AllAccounted (r.insert group recovered) ∧ Grows r (r.insert group recovered) := by
  unfold insert
  split
  · exact ⟨h, Grows.refl r⟩
  · next hnone =>
    refine ⟨fun other found hfound ↦ ?_, rfl, id, fun other found hfound ↦ ?_⟩
    · rcases update_eq_some hfound with ⟨rfl, rfl⟩ | ⟨-, hold⟩
      · exact GroupState.accounted_new _ _ _ _
      · exact h other found hold
    · have hother : other ≠ group := by
        rintro rfl
        rw [hnone] at hfound
        cases hfound
      exact ⟨found, by simpa [Function.update_of_ne hother] using hfound, Advances.refl found⟩

theorem tracker_insert (group : GroupId) (recovered : Option RaftLogId) :
    ∃ st, (r.insert group recovered).tracker group = some st := by
  unfold insert
  split
  · next st hst => exact ⟨st, hst⟩
  · exact ⟨_, Function.update_self _ _ _⟩

/-- The work of a call keeps the registry, if a call that makes a log id durable finds it
visible. -/
theorem grows_act (h : AllAccounted r) (hst : r.tracker group = some st) (call : Call)
    (hdurable : ∀ logId, call = .durable group logId → logId.index.toNat < next st.visible)
    (hgroup : call.group = some group) :
    AllAccounted (r.act logIdText group st call).1 ∧ Grows r (r.act logIdText group st call).1 := by
  have haccounted := h group st hst
  cases call with
  | register | failAll | waitDurable | waitVisible | validateInstall => exact ⟨h, Grows.refl r⟩
  | begin _ logId entries bytes =>
    unfold act
    dsimp only
    split
    · exact ⟨h, Grows.refl r⟩
    · next after hbegin =>
        exact grows_setTracker h hst (GroupState.accounted_begin haccounted hbegin)
    · exact ⟨h, Grows.refl r⟩
  | visible _ logId => exact grows_setTracker h hst (GroupState.accounted_visibleAt haccounted)
  | durable other logId =>
    cases hgroup
    exact grows_setTracker h hst
      (GroupState.accounted_durableAt haccounted (hdurable logId rfl))
  | cancel _ logId error =>
    exact grows_setTracker h hst
      ⟨GroupState.accounted_fail (GroupState.accounted_release haccounted logId) error,
        (GroupState.advances_release logId).trans (GroupState.advances_fail error)⟩
  | installed _ logId =>
    have hafter := GroupState.accounted_installed logIdText haccounted logId
      (group ≠ GroupId.meta) r.nextEpoch
    have hset := grows_setTracker (r := { r with nextEpoch := r.nextEpoch + 1 }) h hst hafter
    exact ⟨hset.1, hset.2.limits, hset.2.failed, hset.2.tracker⟩
  | beginClose =>
    exact grows_setTracker h hst ⟨⟨haccounted.entries, haccounted.bytes, haccounted.entries_le,
      haccounted.bytes_le, haccounted.durable_le⟩, .refl _, .refl _, id⟩
  | markRecoveryReady _ epoch target =>
    unfold act
    dsimp only
    split
    · exact ⟨h, Grows.refl r⟩
    · next after hready =>
      exact grows_setTracker h hst (GroupState.accounted_markRecoveryReady haccounted hready)

variable (logIdText) in
/-- Every step of a call keeps the registry. -/
theorem grows_step (h : AllAccounted r) (call : Call) (pc : Pc)
    (hdurable : ∀ group logId st, call = .durable group logId → r.tracker group = some st →
      logId.index.toNat < next st.visible) :
    AllAccounted (r.step logIdText call pc).1 ∧ Grows r (r.step logIdText call pc).1 := by
  have hgroup : ∀ group, call.group = some group →
      AllAccounted (r.stepGroup logIdText call group pc).1 ∧
        Grows r (r.stepGroup logIdText call group pc).1 := by
    intro group hcall
    cases pc with
    | insert failure => cases failure <;> exact grows_insert h group _
    | mark error => exact grows_failTracker h group error
    | act =>
      unfold stepGroup
      dsimp only
      split
      · exact ⟨h, Grows.refl r⟩
      · next st hst =>
        refine grows_act h hst call (fun logId hlog ↦ ?_) hcall
        exact hdurable group logId st hlog hst
    | check =>
      unfold stepGroup
      dsimp only
      split <;> exact ⟨h, Grows.refl r⟩
    | _ => exact ⟨h, Grows.refl r⟩
  cases pc with
  | record error result => exact ⟨h, rfl, fun _ ↦ Option.some_ne_none _, (Grows.refl r).tracker⟩
  | collect => exact ⟨h, Grows.refl r⟩
  | failEach error groups result =>
    cases groups with
    | nil => exact ⟨h, Grows.refl r⟩
    | cons group rest => exact grows_failTracker h group error
  | _ =>
    unfold step
    dsimp only
    split
    · exact ⟨h, Grows.refl r⟩
    · next group hcall => exact hgroup group hcall

end Registry

/-! ### What a call promises at each of its points -/

/-- The group of the call has a tracker with the property. -/
def TrackedAt (P : GroupState → Prop) (r : Registry) (call : Call) : Prop :=
  ∃ group st, call.group = some group ∧ r.tracker group = some st ∧ P st

/-- Its tracker has failed. -/
abbrev FailedAt : Registry → Call → Prop := TrackedAt fun st ↦ st.failed ≠ none

/-- The watermark a call waits for is at its target or above. -/
def Reached (r : Registry) : Call → Prop
  | .waitDurable group target => ∃ st current, r.tracker group = some st ∧
      st.durable = some current ∧ (target.index < current.index ∨ current = target)
  | .waitVisible group target => ∃ st current, r.tracker group = some st ∧
      st.visible = some current ∧ (target.index < current.index ∨ current = target)
  | _ => True

/-- A waiting call that settled on success has reached its target. -/
def Settled (r : Registry) (call : Call) : Pc → Prop
  | .check => Reached r call
  | .record _ result | .collect _ result | .failEach _ _ result | .done result =>
    result = .ok () → Reached r call
  | _ => True

/-- A call that has to fail, and started after the failure was recorded, is on its way to an
error. -/
def Late (r : Registry) (call : Call) (steps : ℕ) : Pc → Prop
  | .lookup => r.failed ≠ none ∧ steps = 0
  | .insert failure => failure ≠ none ∧ steps = 1
  | .mark _ => TrackedAt (fun _ ↦ True) r call ∧ steps = 2
  | .act => FailedAt r call ∧ steps = 3
  | .done result => ∃ error, result = .error error
  | _ => False

/-- A call that met a conflict `steps` steps ago is on its way to record a failure. -/
def Recording (r : Registry) (call : Call) (steps : ℕ) (pc : Pc) : Prop :=
  r.failed ≠ none ∨ (pc = .check ∧ steps = 0 ∧ FailedAt r call) ∨
    (steps ≤ 1 ∧ ∃ error result, pc = .record error result)

section Growing

variable {r after : Registry} {call : Call} {pc : Pc} {steps : ℕ}

theorem TrackedAt.grows {P : GroupState → Prop} (h : TrackedAt P r call) (hgrows : r.Grows after)
    (hP : ∀ {st st'}, Advances st st' → P st → P st') : TrackedAt P after call := by
  obtain ⟨group, st, hcall, hst, hp⟩ := h
  obtain ⟨st', hst', hadvances⟩ := hgrows.tracker group st hst
  exact ⟨group, st', hcall, hst', hP hadvances hp⟩

theorem FailedAt.grows (h : FailedAt r call) (hgrows : r.Grows after) : FailedAt after call :=
  TrackedAt.grows h hgrows fun hadvances ↦ hadvances.failed

theorem exists_of_raised {before : Option RaftLogId} {previous : RaftLogId}
    (h : Raised before current) (hbefore : before = some previous)
    (hreached : target.index < previous.index ∨ previous = target) :
    ∃ later, current = some later ∧ (target.index < later.index ∨ later = target) := by
  rcases h with rfl | hlt
  · exact ⟨previous, hbefore, hreached⟩
  · subst hbefore
    cases current with
    | none => cases hlt
    | some later =>
      have hindex : previous.index.toNat < later.index.toNat := Nat.lt_of_succ_lt_succ hlt
      refine ⟨later, rfl, .inl (UInt64.lt_iff_toNat_lt.mpr ?_)⟩
      rcases hreached with habove | rfl
      · exact (UInt64.lt_iff_toNat_lt.mp habove).trans hindex
      · exact hindex

theorem Reached.grows (h : Reached r call) (hgrows : r.Grows after) : Reached after call := by
  cases call with
  | waitDurable group target =>
    obtain ⟨st, current, hst, hcurrent, hreached⟩ := h
    obtain ⟨st', hst', hadvances⟩ := hgrows.tracker group st hst
    obtain ⟨later, hlater⟩ := exists_of_raised hadvances.durable hcurrent hreached
    exact ⟨st', later, hst', hlater⟩
  | waitVisible group target =>
    obtain ⟨st, current, hst, hcurrent, hreached⟩ := h
    obtain ⟨st', hst', hadvances⟩ := hgrows.tracker group st hst
    obtain ⟨later, hlater⟩ := exists_of_raised hadvances.visible hcurrent hreached
    exact ⟨st', later, hst', hlater⟩
  | _ => trivial

theorem Settled.grows (h : Settled r call pc) (hgrows : r.Grows after) : Settled after call pc := by
  cases pc with
  | check => exact Reached.grows h hgrows
  | record | collect | failEach | done => exact fun hok ↦ Reached.grows (h hok) hgrows
  | _ => trivial

theorem Late.grows (h : Late r call steps pc) (hgrows : r.Grows after) :
    Late after call steps pc := by
  cases pc with
  | lookup => exact ⟨hgrows.failed h.1, h.2⟩
  | mark => exact ⟨h.1.grows hgrows fun _ ↦ id, h.2⟩
  | act => exact ⟨FailedAt.grows h.1 hgrows, h.2⟩
  | _ => exact h

theorem Recording.grows (h : Recording r call steps pc) (hgrows : r.Grows after) :
    Recording after call steps pc := by
  rcases h with hfailed | ⟨hpc, hsteps, hfailed⟩ | hrecord
  · exact .inl (hgrows.failed hfailed)
  · exact .inr (.inl ⟨hpc, hsteps, FailedAt.grows hfailed hgrows⟩)
  · exact .inr (.inr hrecord)

end Growing

/-! ### One step of a call keeps its promises -/

section OwnStep

variable {r : Registry} {group : GroupId} {st : GroupState} {call : Call} {pc : Pc} {steps : ℕ}

theorem tracker_setTracker (r : Registry) (group : GroupId) (st : GroupState) :
    (r.setTracker group st).tracker group = some st := by
  simp [Registry.setTracker]

theorem failOnCorruption_of_ne {error : Error}
    (h : ∀ record detail, error ≠ .corrupt record detail) :
    failOnCorruption (.error error) = .done (.error error) := by
  cases error with
  | corrupt record detail => exact absurd rfl (h record detail)
  | _ => rfl

variable (logIdText r group) in
theorem act_of_failed (hfailed : st.failed ≠ none) (hfallible : call.fallible) :
    ∃ error, (r.act logIdText group st call).2 = .done (.error error) := by
  have hwaits :
      ∀ current target, ∃ error, waits logIdText st current target = .done (.error error) := by
    intro current target
    obtain ⟨error, herror⟩ := Option.ne_none_iff_exists'.mp hfailed
    exact ⟨.io error, by rw [waits, herror]⟩
  cases call with
  | begin _ logId entries bytes =>
    obtain ⟨error, herror⟩ := GroupState.begin_of_failed hfailed r.limits logId entries bytes
    exact ⟨error, by rw [Registry.act, herror]⟩
  | waitDurable _ target => exact hwaits st.durable target
  | waitVisible _ target => exact hwaits st.visible target
  | markRecoveryReady _ epoch target =>
    obtain ⟨error, herror, hne⟩ :=
      GroupState.markRecoveryReady_of_failed logIdText hfailed epoch target
    exact ⟨error, by rw [Registry.act, herror]; exact failOnCorruption_of_ne hne⟩
  | validateInstall _ target =>
    obtain ⟨message, herror⟩ :=
      GroupState.validateInstall_of_failed logIdText hfailed target
    exact ⟨.io message, by rw [Registry.act, herror]; rfl⟩
  | _ => cases hfallible

/-- A call that has to fail is at its error after four steps of its own. -/
theorem Late.step (h : Late r call steps pc) (hfallible : call.fallible) :
    Late (r.step logIdText call pc).1 call (steps + 1) (r.step logIdText call pc).2 := by
  obtain ⟨group, hgroup⟩ : ∃ group, call.group = some group := by
    cases call with
    | failAll => cases hfallible
    | _ => exact ⟨_, rfl⟩
  cases pc with
  | lookup =>
    simp only [Registry.step, hgroup, Registry.stepGroup]
    exact ⟨h.1, congrArg (· + 1) h.2⟩
  | insert failure =>
    obtain ⟨error, rfl⟩ := Option.ne_none_iff_exists'.mp h.1
    simp only [Registry.step, hgroup, Registry.stepGroup]
    obtain ⟨st, hst⟩ := Registry.tracker_insert (r := r) group call.recovered
    exact ⟨⟨group, st, hgroup, hst, trivial⟩, congrArg (· + 1) h.2⟩
  | mark error =>
    obtain ⟨⟨other, st, hother, hst, -⟩, hsteps⟩ := h
    obtain rfl := Option.some.inj (hgroup.symm.trans hother)
    simp only [Registry.step, hgroup, Registry.stepGroup, Registry.failTracker, hst]
    exact ⟨⟨group, st.fail error, hgroup, tracker_setTracker r group _, GroupState.failed_fail _⟩,
      congrArg (· + 1) hsteps⟩
  | act =>
    obtain ⟨⟨other, st, hother, hst, hfailed⟩, hsteps⟩ := h
    obtain rfl := Option.some.inj (hgroup.symm.trans hother)
    obtain ⟨error, herror⟩ :=
      act_of_failed logIdText r group hfailed hfallible
    simp only [Registry.step, hgroup, Registry.stepGroup, hst, herror]
    exact ⟨error, rfl⟩
  | done result =>
    simp only [Registry.step, hgroup, Registry.stepGroup]
    exact h
  | _ => exact h.elim

theorem Late.ended (h : Late r call steps pc) (hended : 4 ≤ steps ∨ ∃ result, pc = .done result) :
    ∃ error, pc = .done (.error error) := by
  cases pc with
  | done result =>
    obtain ⟨error, rfl⟩ := h
    exact ⟨error, rfl⟩
  | lookup | insert | mark | act =>
    rcases hended with hsteps | ⟨_, hdone⟩
    · exact absurd (h.2 ▸ hsteps) (by decide)
    · cases hdone
  | _ => exact h.elim

/-- A call that met a conflict records a failure in its next step or the one after. -/
theorem Recording.step (h : Recording r call steps pc)
    (hgrows : r.Grows (r.step logIdText call pc).1) :
    Recording (r.step logIdText call pc).1 call (steps + 1) (r.step logIdText call pc).2 := by
  rcases h with hfailed | ⟨rfl, rfl, group, st, hgroup, hst, hfailed⟩ | ⟨-, error, result, rfl⟩
  · exact .inl (hgrows.failed hfailed)
  · obtain ⟨error, herror⟩ := Option.ne_none_iff_exists'.mp hfailed
    refine .inr (.inr ⟨le_refl 1, error, .ok (), ?_⟩)
    simp [Registry.step, hgroup, Registry.stepGroup, hst, herror]
  · exact .inl (Option.some_ne_none _)

/-- Where the log id conflicts, the tracker fails or the failure is recorded next. -/
theorem recording_act (hgroup : call.group = some group) (h : call.conflicts st) :
    Recording (r.act logIdText group st call).1 call 0 (r.act logIdText group st call).2 := by
  have hcheck : ∀ after : GroupState, ∀ r : Registry, after.failed ≠ none →
      Recording (r.setTracker group after) call 0 .check := fun after r hfailed ↦
    .inr (.inl ⟨rfl, rfl, group, after, hgroup, tracker_setTracker r group after, hfailed⟩)
  have hcorrupt : ∀ record detail, Recording r call 0
      (failOnCorruption (.error (.corrupt record detail))) := fun record detail ↦
    .inr (.inr ⟨Nat.zero_le 1, _, _, rfl⟩)
  have hwaits : ∀ current target, st.failed = none → Conflicts current target →
      Recording r call 0 (waits logIdText st current target) := by
    intro current target hfailed hconflict
    obtain ⟨record, detail, herror⟩ := reaches_of_conflicts logIdText hconflict
    rw [waits, hfailed]
    dsimp only
    rw [herror]
    exact hcorrupt record detail
  cases call with
  | visible _ logId => exact hcheck _ r (GroupState.failed_visibleAt (of_decide_eq_true h))
  | durable _ logId => exact hcheck _ r (GroupState.failed_durableAt (of_decide_eq_true h))
  | installed _ logId =>
    cases logId with
    | none => cases h
    | some logId => exact hcheck _ _ (GroupState.failed_installed (of_decide_eq_true h) _ _)
  | waitDurable _ target =>
    have hboth := of_decide_eq_true h
    exact hwaits st.durable target hboth.1 hboth.2
  | waitVisible _ target =>
    have hboth := of_decide_eq_true h
    exact hwaits st.visible target hboth.1 hboth.2
  | markRecoveryReady _ epoch target =>
    cases target with
    | none => cases h
    | some target =>
      obtain ⟨hepoch, hclosing, hfailed, hconflict⟩ := of_decide_eq_true h
      obtain ⟨record, detail, herror⟩ := GroupState.markRecoveryReady_of_conflicts logIdText
        hepoch (by simpa using hclosing) hfailed hconflict
      rw [Registry.act, herror]
      exact hcorrupt record detail
  | validateInstall _ target =>
    cases target with
    | none => cases h
    | some target =>
      obtain ⟨hfailed, hconflict⟩ := of_decide_eq_true h
      obtain ⟨record, detail, herror⟩ := GroupState.validateInstall_of_conflicts logIdText
        hfailed hconflict
      rw [Registry.act, herror]
      exact hcorrupt record detail
  | _ => cases h

theorem settled_of_reached (h : Reached r call) (pc : Pc) : Settled r call pc := by
  cases pc with
  | check => exact h
  | record | collect | failEach | done => exact fun _ ↦ h
  | _ => trivial

theorem settled_failOnCorruption (error : Error) :
    Settled r call (failOnCorruption (.error error)) := by
  cases error <;> exact fun hok ↦ nomatch hok

theorem settled_waits
    (h : ∀ previous, current = some previous →
      (target.index < previous.index ∨ previous = target) → Reached r call) :
    Settled r call (waits logIdText st current target) := by
  unfold waits
  split
  · exact fun hok ↦ nomatch hok
  · split
    · exact settled_failOnCorruption _
    · next hreaches =>
      obtain ⟨previous, hprevious, hreached⟩ := exists_of_reaches hreaches
      exact fun _ ↦ h previous hprevious hreached
    · trivial

theorem settled_act (hgroup : call.group = some group) (hst : r.tracker group = some st) :
    Settled (r.act logIdText group st call).1 call (r.act logIdText group st call).2 := by
  cases call with
  | waitDurable _ target | waitVisible _ target =>
    cases hgroup
    exact settled_waits fun previous hprevious hreached ↦ ⟨st, previous, hst, hprevious, hreached⟩
  | _ =>
    apply settled_of_reached
    trivial

theorem Settled.step (h : Settled r call pc) (hgrows : r.Grows (r.step logIdText call pc).1) :
    Settled (r.step logIdText call pc).1 call (r.step logIdText call pc).2 := by
  have hgroup : ∀ group, call.group = some group → Settled (r.stepGroup logIdText call group pc).1
      call (r.stepGroup logIdText call group pc).2 := by
    intro group hcall
    cases pc with
    | insert failure => cases failure <;> trivial
    | act =>
      unfold Registry.stepGroup
      dsimp only
      split
      · trivial
      · next st hst => exact settled_act hcall hst
    | check =>
      unfold Registry.stepGroup
      dsimp only
      split <;> exact fun _ ↦ h
    | _ => exact h
  cases pc with
  | record error result => exact h.grows hgrows
  | collect error result => exact h
  | failEach error groups result =>
    cases groups with
    | nil => exact h
    | cons => exact h.grows hgrows
  | _ =>
    unfold Registry.step
    dsimp only
    split
    · exact h
    · next group hcall => exact hgroup group hcall

end OwnStep

/-! ### Threads -/

/-- A call in progress. The last three fields record how it came here: whether a failure was
recorded when it started, its steps so far, and its steps since it met a conflict. -/
structure Thread where
  call : Call
  pc : Pc
  late : Bool
  steps : ℕ
  conflict : Option ℕ

/-- A database and its threads. The last field records the log ids that were made visible. -/
structure System where
  registry : Registry
  thread : ℕ → Option Thread
  seen : List (GroupId × RaftLogId)

/-- A thread starts a call, or takes its next step. -/
inductive RegistryEvent
  | start (id : ℕ) (call : Call)
  | run (id : ℕ)

namespace Thread

def start (r : Registry) (call : Call) : Thread where
  call := call
  pc := call.entry
  late := r.failed.isSome
  steps := 0
  conflict := none

/-- The next step compares log ids that conflict. -/
def meets (r : Registry) (t : Thread) : Bool :=
  match t.pc, t.call.group with
  | .act, some group => (r.tracker group).any t.call.conflicts
  | _, _ => false

/-- The thread after its next step, which leads to `pc`. -/
def next (r : Registry) (t : Thread) (pc : Pc) : Thread :=
  { t with
    pc := pc
    steps := t.steps + 1
    conflict := if t.meets r then some 0 else t.conflict.map (· + 1) }

end Thread

namespace System

def new (limits : ApplyDurabilityLimits) : System where
  registry := Registry.new limits
  thread := fun _ ↦ none
  seen := []

/-- A log id is made durable only after it was made visible. -/
def startable (w : System) : Call → Bool
  | .durable group logId => (group, logId) ∈ w.seen
  | _ => true

/-- The log id that a step to `pc` made visible. -/
def shown (call : Call) (pc : Pc) : List (GroupId × RaftLogId) :=
  match call, pc with
  | .visible group logId, .check => [(group, logId)]
  | _, _ => []

def step (logIdText : RaftLogId → String) (w : System) : RegistryEvent → Option System
  | .start id call =>
    if (w.thread id).isNone ∧ w.startable call then
      some { w with thread := Function.update w.thread id (some (.start w.registry call)) }
    else none
  | .run id =>
    match w.thread id with
    | none => none
    | some t =>
      let (registry, pc) := w.registry.step logIdText t.call t.pc
      some {
        registry := registry
        thread := Function.update w.thread id (some (t.next w.registry pc))
        seen := shown t.call pc ++ w.seen }

/-! ### The invariant of all interleavings -/

/-- What a thread promises. -/
structure ThreadOk (r : Registry) (seen : List (GroupId × RaftLogId)) (t : Thread) : Prop where
  late : t.late → t.call.fallible → Late r t.call t.steps t.pc
  conflict : ∀ steps, t.conflict = some steps → Recording r t.call steps t.pc
  settled : Settled r t.call t.pc
  durable : ∀ group logId, t.call = .durable group logId → (group, logId) ∈ seen

/-- What holds of a database and its threads at every point. -/
structure Sound (w : System) : Prop where
  accounted : w.registry.AllAccounted
  seen : ∀ group logId, (group, logId) ∈ w.seen → ∃ st, w.registry.tracker group = some st ∧
    logId.index.toNat < Storage.next st.visible
  threads : ∀ id t, w.thread id = some t → ThreadOk w.registry w.seen t

variable {r after : Registry} {seen later : List (GroupId × RaftLogId)} {t : Thread}

/-- What other threads do does not break a promise. -/
theorem ThreadOk.advance (h : ThreadOk r seen t) (hgrows : r.Grows after) (hseen : seen ⊆ later) :
    ThreadOk after later t where
  late hlate hfallible := (h.late hlate hfallible).grows hgrows
  conflict steps hsteps := (h.conflict steps hsteps).grows hgrows
  settled := h.settled.grows hgrows
  durable group logId hcall := hseen (h.durable group logId hcall)

theorem recording_of_meets (h : t.meets r) :
    Recording (r.step logIdText t.call t.pc).1 t.call 0 (r.step logIdText t.call t.pc).2 := by
  unfold Thread.meets at h
  split at h
  · next group hpc hgroup =>
    obtain ⟨st, hst, hconflicts⟩ := (Option.any_eq_true _ _).mp h
    rw [hpc]
    simp only [Registry.step, hgroup, Registry.stepGroup, hst]
    exact recording_act hgroup hconflicts
  · cases h

/-- A thread keeps its promises with a step of its own. -/
theorem ThreadOk.step (h : ThreadOk r seen t) (hgrows : r.Grows (r.step logIdText t.call t.pc).1)
    (hseen : seen ⊆ later) :
    ThreadOk (r.step logIdText t.call t.pc).1 later
      (t.next r (r.step logIdText t.call t.pc).2) where
  late hlate hfallible := (h.late hlate hfallible).step hfallible
  conflict steps hsteps := by
    simp only [Thread.next] at hsteps
    split_ifs at hsteps with hmeets
    · cases hsteps
      exact recording_of_meets hmeets
    · obtain ⟨before, hbefore, rfl⟩ := Option.map_eq_some_iff.mp hsteps
      exact (h.conflict before hbefore).step hgrows
  settled := h.settled.step hgrows
  durable group logId hcall := hseen (h.durable group logId hcall)

theorem ThreadOk.start (r : Registry) {call : Call}
    (hdurable : ∀ group logId, call = .durable group logId → (group, logId) ∈ seen) :
    ThreadOk r seen (Thread.start r call) where
  late hlate hfallible := by
    have hfailed : r.failed ≠ none := Option.isSome_iff_ne_none.mp hlate
    cases call with
    | failAll => cases hfallible
    | _ => exact ⟨hfailed, rfl⟩
  conflict _ hsteps := nomatch hsteps
  settled := by
    cases call with
    | failAll => exact fun _ ↦ trivial
    | _ => trivial
  durable := hdurable

/-- A log id that a step shows is below the visible watermark. -/
theorem lt_next_of_shown {call : Call} {pc : Pc} {group : GroupId}
    (h : (group, logId) ∈ System.shown call (r.step logIdText call pc).2) :
    ∃ st, (r.step logIdText call pc).1.tracker group = some st ∧
      logId.index.toNat < Storage.next st.visible := by
  unfold System.shown at h
  split at h
  · next other shown hcheck =>
    obtain ⟨rfl, rfl⟩ := Prod.mk.inj (List.mem_singleton.mp h)
    cases pc with
    | act =>
      cases hst : r.tracker group with
      | none => simp [Registry.step, Call.group, Registry.stepGroup, hst] at hcheck
      | some st =>
        refine ⟨st.visibleAt logIdText logId, ?_, GroupState.lt_next_visibleAt⟩
        simp [Registry.step, Call.group, Registry.stepGroup, hst, Registry.act, tracker_setTracker]
    | check =>
      simp only [Registry.step, Call.group, Registry.stepGroup] at hcheck
      split at hcheck <;> cases hcheck
    | insert failure => cases failure <;> cases hcheck
    | failEach error groups result => cases groups <;> cases hcheck
    | _ => cases hcheck
  · cases h

variable {w mid : System} {event : RegistryEvent}

/-- A step of the system is a step of one thread, and the registry grows with it. -/
theorem Sound.step (h : Sound w) (hstep : w.step logIdText event = some mid) :
    Sound mid ∧ w.registry.Grows mid.registry := by
  cases event with
  | start id call =>
    simp only [System.step] at hstep
    split_ifs at hstep with hstart
    cases hstep
    refine ⟨⟨h.accounted, h.seen, fun other t ht ↦ ?_⟩, Registry.Grows.refl _⟩
    rcases update_eq_some ht with ⟨rfl, rfl⟩ | ⟨-, hold⟩
    · refine ThreadOk.start _ fun group logId hcall ↦ ?_
      subst hcall
      exact of_decide_eq_true hstart.2
    · exact h.threads other t hold
  | run id =>
    simp only [System.step] at hstep
    split at hstep
    · cases hstep
    · next t ht =>
      cases hstep
      have hok := h.threads id t ht
      have hgrows := Registry.grows_step logIdText h.accounted t.call t.pc
        fun group logId st hcall hst ↦ by
          obtain ⟨st', hst', hlt⟩ := h.seen group logId (hok.durable group logId hcall)
          obtain rfl := Option.some.inj (hst.symm.trans hst')
          exact hlt
      have hseen := List.subset_append_right
        (System.shown t.call (w.registry.step logIdText t.call t.pc).2) w.seen
      refine ⟨⟨hgrows.1, fun group logId hmem ↦ ?_, fun other u hu ↦ ?_⟩, hgrows.2⟩
      · rcases List.mem_append.mp hmem with hshown | hbefore
        · exact lt_next_of_shown hshown
        · obtain ⟨st, hst, hlt⟩ := h.seen group logId hbefore
          obtain ⟨st', hst', hadvances⟩ := hgrows.2.tracker group st hst
          exact ⟨st', hst', lt_of_lt_of_le hlt hadvances.visible.next_le⟩
      · rcases update_eq_some hu with ⟨rfl, rfl⟩ | ⟨-, hold⟩
        · exact hok.step hgrows.2 hseen
        · exact (h.threads other u hold).advance hgrows.2 hseen

theorem sound_new (limits : ApplyDurabilityLimits) : Sound (System.new limits) where
  accounted _ _ hst := nomatch hst
  seen _ _ hmem := nomatch hmem
  threads _ _ ht := nomatch ht

/-- The steps of all threads, in some order. -/
def Interleaves (logIdText : RaftLogId → String) : System → List RegistryEvent → System → Prop :=
  Trace fun w event after ↦ w.step logIdText event = some after

theorem Sound.interleaves {events : List RegistryEvent} (h : Sound w)
    (htrace : Interleaves logIdText w events mid) : Sound mid ∧ w.registry.Grows mid.registry :=
  Trace.stable (P := fun mid ↦ Sound mid ∧ w.registry.Grows mid.registry)
    (fun hstep hmid ↦ ⟨(hmid.1.step hstep).1, hmid.2.trans (hmid.1.step hstep).2⟩) htrace
    ⟨h, Registry.Grows.refl _⟩

theorem ne_of_raised {before : Option RaftLogId}
    (h : Raised before current) (hconflict : Conflicts before logId) : current ≠ some logId := by
  obtain ⟨previous, rfl, hindex, hne⟩ := hconflict
  rintro rfl
  rcases h with hsame | hlt
  · exact hne (Option.some.inj hsame).symm
  · rw [next_some, next_some, hindex] at hlt
    exact lt_irrefl _ hlt

/-- In every interleaving of the calls of any number of threads on any number of groups: the pending
totals are the sums over the queue and within the limits; watermarks never fall, and durable is
never above visible; a watermark never becomes a log id it conflicts with; a wait that succeeded has
its target; a call that met a conflict has recorded a failure of the database within two more steps;
a recorded failure stays; and a call that started after it is over, with an error, after four steps.

Assumes: a log id is made durable by a call that starts after the log id was made visible. -/
theorem durability_registry (logIdText : RaftLogId → String) (limits : ApplyDurabilityLimits)
    {early late : List RegistryEvent} (hearly : Interleaves logIdText (System.new limits) early mid)
    (hlate : Interleaves logIdText mid late w) :
    (∀ group st, w.registry.tracker group = some st →
      st.pendingEntries = (st.pending.map (·.entries)).sum ∧
      st.pendingBytes = (st.pending.map (·.bytes)).sum ∧
      st.pendingEntries ≤ limits.maxPendingEntries ∧ st.pendingBytes ≤ limits.maxPendingBytes ∧
      Storage.next st.durable ≤ Storage.next st.visible) ∧
    (∀ group st, mid.registry.tracker group = some st → ∃ st', w.registry.tracker group = some st' ∧
      Storage.next st.visible ≤ Storage.next st'.visible ∧
      Storage.next st.durable ≤ Storage.next st'.durable ∧
      (∀ logId, Conflicts st.visible logId → st'.visible ≠ some logId) ∧
      (∀ logId, Conflicts st.durable logId → st'.durable ≠ some logId)) ∧
    (∀ id t, w.thread id = some t → t.pc = .done (.ok ()) → Reached w.registry t.call) ∧
    (∀ id t steps, w.thread id = some t → t.conflict = some steps →
      (2 ≤ steps ∨ ∃ result, t.pc = .done result) → w.registry.failed ≠ none) ∧
    (mid.registry.failed ≠ none → w.registry.failed ≠ none) ∧
    (∀ id t, w.thread id = some t → t.late → t.call.fallible →
      (4 ≤ t.steps ∨ ∃ result, t.pc = .done result) → ∃ error, t.pc = .done (.error error)) := by
  obtain ⟨hmid, hstart⟩ := (sound_new limits).interleaves hearly
  obtain ⟨hw, hgrows⟩ := hmid.interleaves hlate
  have hlimits : w.registry.limits = limits := hgrows.limits.trans hstart.limits
  refine ⟨fun group st hst ↦ ?_, fun group st hst ↦ ?_, fun id t ht hdone ↦ ?_,
    fun id t steps ht hconflict hended ↦ ?_, hgrows.failed,
    fun id t ht hafter hfallible hended ↦ ?_⟩
  · have hst := hlimits ▸ hw.accounted group st hst
    exact ⟨hst.entries, hst.bytes, hst.entries_le, hst.bytes_le, hst.durable_le⟩
  · obtain ⟨st', hst', hadvances⟩ := hgrows.tracker group st hst
    exact ⟨st', hst', hadvances.visible.next_le, hadvances.durable.next_le,
      fun _ ↦ ne_of_raised hadvances.visible, fun _ ↦ ne_of_raised hadvances.durable⟩
  · have hsettled := (hw.threads id t ht).settled
    rw [hdone] at hsettled
    exact hsettled rfl
  · rcases (hw.threads id t ht).conflict steps hconflict with
      hfailed | ⟨hpc, rfl, -⟩ | ⟨hsteps, error, result, hpc⟩
    · exact hfailed
    · rcases hended with hsteps | ⟨result, hdone⟩
      · omega
      · cases hpc.symm.trans hdone
    · rcases hended with hmore | ⟨result, hdone⟩
      · omega
      · cases hpc.symm.trans hdone
  · exact ((hw.threads id t ht).late hafter hfallible).ended hended

/-! A snapshot is installed at a log id that the visible watermark conflicts with, and then a group
that has no tracker yet is waited for. -/

def visibleId : RaftLogId := ⟨⟨1, 1⟩, 5⟩

def installedId : RaftLogId := ⟨⟨2, 2⟩, 5⟩

/-- The log id becomes visible. -/
def shows : List RegistryEvent :=
  [.start 0 (.begin (.data 0) visibleId 1 10), .run 0, .run 0, .run 0,
    .start 1 (.visible (.data 0) visibleId), .run 1, .run 1, .run 1, .run 1]

/-- The snapshot is installed, and a later call waits in another group. -/
def installs : List RegistryEvent :=
  [.start 2 (.installed (.data 0) (some installedId)), .run 2, .run 2, .run 2, .run 2, .run 2,
    .start 3 (.waitDurable (.data 1) installedId), .run 3, .run 3, .run 3, .run 3]

def shown0 : System :=
  (shows.foldlM (System.step fun _ ↦ "") (System.new .default)).getD (System.new .default)

def installed0 : System :=
  (installs.foldlM (System.step fun _ ↦ "") shown0).getD (System.new .default)

theorem interleaves_shows : Interleaves (fun _ ↦ "") (System.new .default) shows shown0 :=
  trace_of_foldlM rfl

theorem interleaves_installs : Interleaves (fun _ ↦ "") shown0 installs installed0 :=
  trace_of_foldlM rfl

/-- A later call in a group without a tracker fails. -/
theorem durability_registry_later_group :
    ∃ t error, installed0.thread 3 = some t ∧ t.late ∧ t.pc = .done (.error error) := by
  obtain ⟨-, -, -, -, -, hlate⟩ :=
    durability_registry (fun _ ↦ "") .default interleaves_shows interleaves_installs
  obtain ⟨error, herror⟩ := hlate 3 _ rfl rfl rfl (.inl (by decide))
  exact ⟨_, error, rfl, rfl, herror⟩

/-- The installed log id conflicts with the visible watermark, and becomes the durable watermark. -/
theorem install_adopted_by_durable :
    ∃ st st', Interleaves (fun _ ↦ "") (System.new .default) shows shown0 ∧
      Interleaves (fun _ ↦ "") shown0 installs installed0 ∧
      shown0.registry.tracker (.data 0) = some st ∧ Conflicts st.visible installedId ∧
      installed0.registry.tracker (.data 0) = some st' ∧ st'.durable = some installedId :=
  ⟨_, _, interleaves_shows, interleaves_installs, rfl, ⟨visibleId, rfl, rfl, by decide⟩, rfl, rfl⟩

end System

end DalService.Storage
