import DalService.Storage.ReplayGap

/-!
# Snapshots are exact, and their install is atomic

A snapshot captured under the view lock holds exactly the records of the state in use, and its
metadata is the applied record of that same state. An install, cut off by a crash at any write or
failing at any step, leaves after the next start either the state from before, at an applied index
that is not below the durable watermark and with the projection epoch from before, or exactly the
records of the snapshot with the applied record of its metadata, and for a data group the next
projection epoch. No other state column family of the group is left, and what is stored for the
other groups is untouched (`snapshot_transfer`).

The argument follows what each event does to the state in use (`Framed`): only the batch of an apply
and the switch of an install change it, and the switch leaves no image from before.
-/

set_option autoImplicit false

namespace DalService.Storage

open Foundation Keyspace DalService.Partition

variable {V P : Type}

/-! ### What an install may change -/

/-- Two images agree on the state in use and the projection epoch of a group, and where `others`
holds on everything stored for the other groups. -/
structure Like (group : GroupId) (others : Prop) (first second : Disk V P) : Prop where
  active : (first.group group).activeState = (second.group group).activeState
  epoch : (first.group group).searchProjectionEpoch = (second.group group).searchProjectionEpoch
  others : others → ∀ other ≠ group, first.group other = second.group other

namespace Like

variable {group : GroupId} {others : Prop} {first second third : Disk V P}

theorem refl (d : Disk V P) : Like group others d d := ⟨rfl, rfl, fun _ _ _ ↦ rfl⟩

theorem trans (h : Like group others first second) (h' : Like group others second third) :
    Like group others first third :=
  ⟨h.active.trans h'.active, h.epoch.trans h'.epoch,
    fun ho other hne ↦ (h.others ho other hne).trans (h'.others ho other hne)⟩

theorem of_write {w : Write V P}
    (hactive : ((first.group group).write w).activeState = (first.group group).activeState)
    (hepoch : ((first.group group).write w).searchProjectionEpoch =
      (first.group group).searchProjectionEpoch) :
    Like group others (first.write group w) first where
  active := by rw [Disk.group_write, hactive]
  epoch := by rw [Disk.group_write, hepoch]
  others := fun _ _ hne ↦ Disk.group_write_of_ne hne

theorem of_change {c : Change}
    (hactive : ((first.group group).change c).activeState = (first.group group).activeState)
    (hepoch : ((first.group group).change c).searchProjectionEpoch =
      (first.group group).searchProjectionEpoch) :
    Like group others (first.change group c) first where
  active := by rw [Disk.group_change, hactive]
  epoch := by rw [Disk.group_change, hepoch]
  others := fun _ _ hne ↦ Disk.group_change_of_ne hne

end Like

/-- The images of one database are like images of another, and so is what is read. -/
structure Framed (group : GroupId) (others : Prop) (before after : Database V P) : Prop where
  current : Like group others after.current before.current
  images : ∀ d, after.Survives d → ∃ d', before.Survives d' ∧ Like group others d d'

namespace Framed

variable {group : GroupId} {others : Prop} {before after : Database V P} {S : Disk V P → Prop}

theorem refl (j : Database V P) : Framed group others j j :=
  ⟨.refl _, fun d hd ↦ ⟨d, hd, .refl d⟩⟩

theorem sync (h : before.All S) : Framed group others before before.sync :=
  ⟨.refl _, fun _ hd ↦ ⟨_, h.survives_current, Journal.survives_sync_iff.mp hd ▸ .refl _⟩⟩

theorem write_of (h : before.All S) {target : GroupId} {w : Write V P}
    (hlike : Like group others (before.current.write target w) before.current) :
    Framed group others before (before.write (target, w)) := by
  refine ⟨by rw [Journal.current_write]; exact hlike, fun d hd ↦ ?_⟩
  rcases (Journal.survives_write_iff h.synced_le).mp hd with hold | rfl
  · exact ⟨d, hold, .refl d⟩
  · exact ⟨_, h.survives_current, hlike⟩

theorem writeSynced_of (h : before.All S) {target : GroupId} {w : Write V P}
    (hlike : Like group others (before.current.write target w) before.current) :
    Framed group others before (before.write (target, w)).sync := by
  refine ⟨by rw [Journal.current_sync, Journal.current_write]; exact hlike, fun d hd ↦ ?_⟩
  rw [Journal.survives_sync_iff, Journal.current_write] at hd
  subst hd
  exact ⟨_, h.survives_current, hlike⟩

theorem change_of (h : before.All S) {target : GroupId} {c : Change}
    (hlike : ∀ d, S d → Like group others (d.change target c) d) :
    Framed group others before (before.change (target, c)) := by
  refine ⟨by rw [Journal.current_change]; exact hlike _ h.current, fun d hd ↦ ?_⟩
  obtain ⟨d', hd', rfl⟩ := Journal.survives_change_iff.mp hd
  exact ⟨d', hd', hlike d' (h.holds d' hd')⟩

end Framed

/-! ### What each event does to the state in use -/

namespace Event

/-- The event does not change the state in use. -/
def keepsState : Event V P → Bool
  | .applyWrite | .switch | .crash _ _ => false
  | _ => true

/-- The event is part of one install, or happens beside it without a state batch. -/
def withinInstall : Event V P → Bool
  | .applyWrite | .install _ | .crash _ _ => false
  | _ => true

/-- The event starts an install. -/
def startsInstall : Event V P → Bool
  | .install _ => true
  | _ => false

/-- The event is one of another group. -/
def isForeign : Event V P → Bool
  | .foreign _ _ | .foreignChange _ _ => true
  | _ => false

end Event

/-- The snapshot being staged: its generation is not in use yet. -/
def stagedSnapshot : StateTask V P → Option (Snapshot V)
  | .numbered snapshot _ => some snapshot
  | .staging snapshot _ _ _ _ => some snapshot
  | .staged snapshot _ => some snapshot
  | .flushed snapshot _ => some snapshot
  | _ => none

section Step

variable [Record V Applied] [Record V (BitVec 128)] {group : GroupId} {others : Prop}
  {limits : ApplyDurabilityLimits} {logIdText : RaftLogId → String} {s after : Host V P}

omit [Record V (BitVec 128)] in
/-- A batch staged in a generation that is not in use. -/
theorem Good.framed_stage (h : Good False group s) {generation : UInt64}
    {mutations : List (Mutation V)} (hdoomed : some generation ∈ taskDoomed s.stateTask) :
    Framed group others s.database (s.database.write (group, .stage generation mutations)) := by
  have hne : (s.disk group).pointer ≠ some generation := fun hsame ↦
    h.current.unused (hsame ▸ hdoomed)
  exact .write_of h.images (.of_write (Function.update_of_ne hne _ _) rfl)

omit [Record V (BitVec 128)] in
/-- A generation that is not in use is created or dropped. -/
theorem Good.framed_change (h : Good False group s) {generation : Option UInt64} {c : Change}
    (hdoomed : generation ∈ taskDoomed s.stateTask)
    (hc : c = .createState generation ∨ c = .dropState generation) :
    Framed group others s.database (s.database.change (group, c)) := by
  refine .change_of h.images fun d hd ↦ ?_
  have hne : (d.group group).pointer ≠ generation := fun hsame ↦ hd.unused (hsame ▸ hdoomed)
  rcases hc with rfl | rfl
  · exact .of_change (Function.update_of_ne hne _ _) rfl
  · exact .of_change (Function.update_of_ne hne _ _) rfl

/-- Every event but an apply, a switch and a crash keeps the state in use, and only the event that
starts an install stages another snapshot. -/
theorem Good.framed (h : Good False group s) {event : Event V P} (hkeeps : event.keepsState)
    (hothers : others → ¬event.isForeign)
    (hstep : s.step group limits logIdText event = some after) :
    Framed group others s.database after.database ∧ (event.startsInstall ∨
      stagedSnapshot after.stateTask = none ∨
      stagedSnapshot after.stateTask = stagedSnapshot s.stateTask) := by
  cases event with
  | saveVote | appendSynced | purge =>
    simp only [Host.step, Host.saveVote, Host.appendSynced, Host.purge] at hstep
    split_ifs at hstep
    cases hstep
    exact ⟨.writeSynced_of h.images (.of_write rfl rfl), .inr (.inr rfl)⟩
  | append | truncate =>
    simp only [Host.step, Host.append, Host.truncate] at hstep
    split_ifs at hstep
    cases hstep
    exact ⟨.write_of h.images (.of_write rfl rfl), .inr (.inr rfl)⟩
  | truncateLast | purgeLast =>
    simp only [Host.step, Host.truncateLast, Host.purgeLast] at hstep
    split at hstep
    · cases hstep
      exact ⟨.writeSynced_of h.images (.of_write rfl rfl), .inr (.inr rfl)⟩
    · cases hstep
  | purgeRange =>
    rw [Host.step, Host.purgeRange] at hstep
    split at hstep
    · cases hstep
      exact ⟨.write_of h.images (.of_write rfl rfl), .inr (.inr rfl)⟩
    · cases hstep
  | flush =>
    rw [Host.step, Host.flush] at hstep
    split_ifs at hstep
    cases hstep
    exact ⟨.sync h.images, .inr (.inr rfl)⟩
  | complete =>
    rw [Host.step, Host.complete] at hstep
    split at hstep
    · cases hstep
    · cases hstep
      exact ⟨.refl _, .inr (.inr rfl)⟩
    · cases hstep
      exact ⟨.refl _, .inr (.inr rfl)⟩
  | fail error => exact Option.some.inj hstep ▸ ⟨.refl _, .inr (.inr rfl)⟩
  | applyBegin logId membership mutations outbox entries bytes =>
    rw [Host.step, Host.applyBegin] at hstep
    split at hstep
    · split at hstep
      · split_ifs at hstep
        cases hstep
        exact ⟨.refl _, .inr (.inl rfl)⟩
      · cases hstep
    · cases hstep
  | applyWrite => cases hkeeps
  | buildBegin =>
    rw [Host.step, Host.buildBegin] at hstep
    split at hstep
    · split at hstep
      · cases hstep
        exact ⟨.refl _, .inr (.inl rfl)⟩
      · cases hstep
    · cases hstep
  | buildCapture =>
    rw [Host.step, Host.buildCapture] at hstep
    split at hstep
    · split_ifs at hstep
      cases hstep
      exact ⟨.refl _, .inr (.inl rfl)⟩
    · cases hstep
  | install snapshot =>
    rw [Host.step, Host.install] at hstep
    split at hstep
    · dsimp only at hstep
      split_ifs at hstep
      cases hstep
      exact ⟨.writeSynced_of h.images (.of_write rfl rfl), .inl rfl⟩
    · cases hstep
  | createStaging =>
    rw [Host.step, Host.createStaging] at hstep
    split at hstep
    · rename_i htask
      split_ifs at hstep
      cases hstep
      exact ⟨h.framed_change (by simp [htask, taskDoomed]) (.inl rfl),
        .inr (.inr (by rw [htask]; rfl))⟩
    · cases hstep
  | put =>
    rw [Host.step, Host.put] at hstep
    split at hstep
    · rename_i htask
      split_ifs at hstep
      cases hstep
      exact ⟨.refl _, .inr (.inr (by rw [htask]; rfl))⟩
    · cases hstep
  | flushBatch | finish =>
    simp only [Host.step, Host.flushBatch, Host.finish] at hstep
    split at hstep
    · rename_i htask
      cases hstep
      exact ⟨h.framed_stage (by simp [htask, taskDoomed]), .inr (.inr (by rw [htask]; rfl))⟩
    · cases hstep
  | flushWal =>
    rw [Host.step, Host.flushWal] at hstep
    split at hstep
    · rename_i htask
      cases hstep
      exact ⟨.sync h.images, .inr (.inr (by rw [htask]; rfl))⟩
    · cases hstep
  | switch => cases hkeeps
  | retire dropped =>
    rw [Host.step, Host.retire] at hstep
    split at hstep
    · rename_i htask
      cases hstep
      cases dropped with
      | true => exact ⟨h.framed_change (by simp [htask, taskDoomed]) (.inr rfl), .inr (.inl rfl)⟩
      | false => exact ⟨.refl _, .inr (.inl rfl)⟩
    · cases hstep
  | recordInstalled epoch =>
    rw [Host.step, Host.recordInstalled] at hstep
    split at hstep
    · cases hstep
      exact ⟨.refl _, .inr (.inl rfl)⟩
    · cases hstep
  | abandon error dropped =>
    rw [Host.step, Host.abandon] at hstep
    cases hstaged : Host.stagedGeneration s.stateTask with
    | none =>
      simp only [hstaged] at hstep
      split_ifs at hstep
      exact Option.some.inj hstep ▸ ⟨.refl _, .inr (.inl rfl)⟩
    | some generation =>
      have hdoomed : some generation ∈ taskDoomed s.stateTask := by
        cases htask : s.stateTask <;> simp_all [Host.stagedGeneration, taskDoomed]
      cases dropped with
      | true =>
        simp only [hstaged, if_true] at hstep
        split_ifs at hstep
        exact Option.some.inj hstep ▸ ⟨h.framed_change hdoomed (.inr rfl), .inr (.inl rfl)⟩
      | false =>
        simp only [hstaged, Bool.false_eq_true, if_false] at hstep
        split_ifs at hstep
        exact Option.some.inj hstep ▸ ⟨.refl _, .inr (.inl rfl)⟩
  | consumer mutation | prune rows =>
    exact Option.some.inj hstep ▸ ⟨.write_of h.images (.of_write rfl rfl), .inr (.inr rfl)⟩
  | sync => exact Option.some.inj hstep ▸ ⟨.sync h.images, .inr (.inr rfl)⟩
  | foreign other w =>
    rw [Host.step] at hstep
    split_ifs at hstep with hother
    cases hstep
    have hsame : (s.database.current.write other w).group group = s.database.current.group group :=
      Disk.group_write_of_ne hother.symm
    exact ⟨.write_of h.images ⟨by rw [hsame], by rw [hsame], fun ho ↦ absurd rfl (hothers ho)⟩,
      .inr (.inr rfl)⟩
  | foreignChange other c =>
    rw [Host.step] at hstep
    split_ifs at hstep with hother
    cases hstep
    refine ⟨.change_of h.images fun d _ ↦ ?_, .inr (.inr rfl)⟩
    have hsame : (d.change other c).group group = d.group group :=
      Disk.group_change_of_ne hother.symm
    exact ⟨by rw [hsame], by rw [hsame], fun ho ↦ absurd rfl (hothers ho)⟩
  | crash kept epoch => cases hkeeps

/-! ### One install -/

/-- The projection epoch after an install: the next one for a data group. -/
def EpochAfterInstall (group : GroupId) (old new : UInt64) : Prop :=
  match group with
  | .meta => new = old
  | .data _ => new.toNat = old.toNat + 1

omit [Record V (BitVec 128)]

/-- The state in use is the snapshot's, and the projection epoch follows the one before. -/
structure Installed (group : GroupId) (snapshot : Snapshot V) (old : UInt64) (d : GroupDisk V P) :
    Prop where
  active : d.activeState = some snapshot.state
  ascend : KeysAscend snapshot.records
  epoch : EpochAfterInstall group old d.searchProjectionEpoch

/-- While a snapshot is being installed from `start` on, every image has the state in use of an
image from before, or the snapshot's. -/
structure Installing (group : GroupId) (others : Prop) (snapshot : Snapshot V)
    (start s : Host V P) :
    Prop where
  images : ∀ d, s.database.Survives d → ∃ d', start.database.Survives d' ∧
    (Like group others d d' ∨
      Installed group snapshot (start.disk group).searchProjectionEpoch (d.group group) ∧
        (others → ∀ other ≠ group, d.group other = d'.group other))
  task : stagedSnapshot s.stateTask = none ∨ stagedSnapshot s.stateTask = some snapshot ∧
    Like group others s.database.current start.database.current

namespace Installing

variable {start : Host V P} {snapshot : Snapshot V}

theorem of_install (h : Good False group start)
    (hstep : start.install group logIdText snapshot = some s) :
    Installing group others snapshot start s := by
  rw [Host.install] at hstep
  split at hstep
  · dsimp only at hstep
    split_ifs at hstep
    cases hstep
    have hframed : Framed group others start.database (start.database.write
        (group, .generation ((start.disk group).generation.getD 0 + 1))).sync :=
      .writeSynced_of h.images (.of_write rfl rfl)
    refine ⟨fun d hd ↦ ?_, .inr ⟨rfl, hframed.current⟩⟩
    obtain ⟨d', hd', hlike⟩ := hframed.images d hd
    exact ⟨d', hd', .inl hlike⟩
  · cases hstep

/-- An event that keeps the state in use. -/
theorem framed (h : Installing group others snapshot start s)
    (hframed : Framed group others s.database after.database)
    (htask : stagedSnapshot after.stateTask = none ∨
      stagedSnapshot after.stateTask = stagedSnapshot s.stateTask) :
    Installing group others snapshot start after := by
  refine ⟨fun d hd ↦ ?_, ?_⟩
  · obtain ⟨d', hd', hlike⟩ := hframed.images d hd
    obtain ⟨d'', hd'', hold | ⟨hnew, hothers⟩⟩ := h.images d' hd'
    · exact ⟨d'', hd'', .inl (hlike.trans hold)⟩
    · refine ⟨d'', hd'',
        .inr ⟨⟨hlike.active.trans hnew.active, hnew.ascend, ?_⟩, fun ho other hne ↦ ?_⟩⟩
      · rw [hlike.epoch]
        exact hnew.epoch
      · exact (hlike.others ho other hne).trans (hothers ho other hne)
  · rcases htask with hnone | hsame
    · exact .inl hnone
    · rw [hsame]
      exact h.task.imp id fun hstaged ↦ ⟨hstaged.1, hframed.current.trans hstaged.2⟩

omit [Record V Applied] in
theorem epochAfterInstall_of {d : GroupDisk V P} {searchEpoch : Option UInt64}
    (h : Host.nextSearchEpoch group d = some searchEpoch) :
    EpochAfterInstall group d.searchProjectionEpoch ((searchEpoch.or d.searchEpoch).getD 1) := by
  cases group with
  | «meta» =>
    cases h
    rfl
  | data partition =>
    rw [Host.nextSearchEpoch] at h
    split_ifs at h with hroom
    cases h
    rw [EpochAfterInstall, Option.some_or, Option.getD_some, UInt64.toNat_add]
    exact Nat.mod_eq_of_lt hroom

variable [Record V (BitVec 128)]

/-- The switch leaves no image from before. -/
theorem switch (h : Installing group others snapshot start s) (hgood : Good False group s)
    (hstart : Good False group start) (hstep : s.switch group = some after) :
    Installing group others snapshot start after := by
  rw [Host.switch] at hstep
  split at hstep
  · rename_i staged generation hflushed
    simp only [Option.bind_eq_bind, Option.bind_eq_some_iff] at hstep
    obtain ⟨cf, hcf, epoch, -, searchEpoch, hepoch, hstep⟩ := hstep
    split_ifs at hstep
    cases hstep
    have htask := hgood.stateTask
    rw [hflushed] at htask
    obtain ⟨-, hstaged, hascend⟩ := htask
    obtain ⟨hsame, hlike⟩ := h.task.resolve_left (by simp [hflushed, stagedSnapshot])
    obtain rfl : staged = snapshot := by
      rw [hflushed] at hsame
      exact Option.some.inj hsame
    refine ⟨fun d hd ↦
      ⟨_, hstart.images.survives_current, .inr ⟨⟨?_, hascend, ?_⟩, fun ho other hne ↦ ?_⟩⟩,
      .inl rfl⟩
    all_goals
      rw [Host.writeSynced, Journal.survives_sync_iff, Journal.current_write] at hd
      subst hd
    · rw [Disk.group_write]
      exact hstaged
    · have hnext := epochAfterInstall_of hepoch
      rw [Disk.group_write]
      rw [show (start.disk group).searchProjectionEpoch = (s.disk group).searchProjectionEpoch from
        hlike.epoch.symm]
      exact hnext
    · rw [Disk.group_write_of_ne hne]
      exact hlike.others ho other hne
  · cases hstep

/-- The events of one install, cut off anywhere, with what happens beside it. -/
theorem run (h : Installing group others snapshot start s) (hgood : Good False group s)
    (hstart : Good False group start) {events : List (Event V P)}
    (hevents : ∀ event ∈ events, event.withinInstall)
    (hothers : others → ∀ event ∈ events, ¬event.isForeign)
    (hrun : s.run group limits logIdText events = some after) :
    Installing group others snapshot start after := by
  induction events generalizing s with
  | nil => exact Option.some.inj hrun ▸ h
  | cons event rest ih =>
    rw [Host.run, List.foldlM_cons] at hrun
    obtain ⟨mid, hstep, hrest⟩ := Option.bind_eq_some_iff.mp hrun
    have hwithin := hevents event (List.mem_cons_self ..)
    have hmid : Installing group others snapshot start mid := by
      by_cases hswitch : event.keepsState
      · obtain ⟨hframed, hinstall | htask⟩ := hgood.framed hswitch
          (fun ho ↦ hothers ho event (List.mem_cons_self ..)) hstep
        · cases event <;> cases hinstall
          cases hwithin
        · exact h.framed hframed htask
      · cases event with
        | switch => exact h.switch hgood hstart hstep
        | applyWrite => cases hwithin
        | crash kept epoch => cases hwithin
        | _ => exact absurd rfl hswitch
    exact ih hmid (hgood.step False.elim hstep)
      (fun event hevent ↦ hevents event (List.mem_cons_of_mem _ hevent))
      (fun ho event hevent ↦ hothers ho event (List.mem_cons_of_mem _ hevent)) hrest

end Installing

end Step

/-! ### The projection epoch -/

section Epoch

variable {group : GroupId} {limits : ApplyDurabilityLimits} {logIdText : RaftLogId → String}
  {s after : Host V P}

/-- Every image has the projection epoch that is read. -/
def Steady (group : GroupId) (s : Host V P) : Prop :=
  ∀ d, s.database.Survives d →
    (d.group group).searchProjectionEpoch = (s.disk group).searchProjectionEpoch

theorem Steady.of_sync {j : Database V P} (hdatabase : after.database = j.sync) :
    Steady group after := by
  intro d hd
  rw [hdatabase, Journal.survives_sync_iff] at hd
  rw [hd, Host.disk, hdatabase, Journal.current_sync]

variable [Record V Applied]

theorem Host.database_opened {d : Disk V P} {epoch : UInt64} {acknowledged : List (LogEntry P)}
    {built : List (Snapshot V)}
    (hopened : Host.opened group d epoch acknowledged built = some after) :
    after.database = .opened d := by
  rw [Host.opened] at hopened
  split at hopened
  · split at hopened
    · exact Option.some.inj hopened ▸ rfl
    · cases hopened
  · cases hopened

theorem Steady.of_opened {d : Disk V P} {epoch : UInt64} {acknowledged : List (LogEntry P)}
    {built : List (Snapshot V)}
    (hopened : Host.opened group d epoch acknowledged built = some after) : Steady group after := by
  have hdatabase := Host.database_opened hopened
  intro found hfound
  rw [hdatabase] at hfound
  rw [Host.disk, hdatabase, Journal.survives_opened_iff.mp hfound]
  rfl

variable [Record V (BitVec 128)]

theorem Steady.step (h : Steady group s) (hgood : Good False group s) {event : Event V P}
    (hstep : s.step group limits logIdText event = some after) : Steady group after := by
  by_cases hkeeps : event.keepsState
  · obtain ⟨hframed, -⟩ := hgood.framed hkeeps False.elim hstep
    intro d hd
    obtain ⟨d', hd', hlike⟩ := hframed.images d hd
    exact hlike.epoch.trans ((h d' hd').trans hframed.current.epoch.symm)
  · cases event with
    | switch =>
      rw [Host.step, Host.switch] at hstep
      split at hstep
      · simp only [Option.bind_eq_bind, Option.bind_eq_some_iff] at hstep
        obtain ⟨cf, -, epoch, -, searchEpoch, -, hstep⟩ := hstep
        split_ifs at hstep
        cases hstep
        exact .of_sync rfl
      · cases hstep
    | applyWrite =>
      rw [Host.step, Host.applyWrite] at hstep
      split at hstep
      · rename_i logId batch hbatch
        split_ifs at hstep
        cases hstep
        have htask := hgood.stateTask
        rw [hbatch] at htask
        obtain ⟨-, -, membership, mutations, searchEpoch, outbox, rfl, hepoch⟩ := htask
        have hsame : ((s.disk group).write (.apply (s.disk group).pointer (mutations ++ [putApplied
            { logId := some logId, membership := membership }]) logId searchEpoch
            outbox)).searchProjectionEpoch = (s.disk group).searchProjectionEpoch := by
          rcases hepoch with rfl | ⟨rfl, hone⟩
          · rfl
          · exact hone.symm
        intro d hd
        rw [Host.disk, Host.write, Journal.current_write, Disk.group_write]
        rcases (Journal.survives_write_iff hgood.images.synced_le).mp hd with hold | rfl
        · exact (h d hold).trans hsame.symm
        · rw [Disk.group_write]
      · cases hstep
    | crash kept epoch =>
      rw [Host.step, Host.crash] at hstep
      split_ifs at hstep
      exact .of_opened hstep
    | _ => exact absurd rfl hkeeps

theorem Steady.run (h : Steady group s) (hgood : Good False group s) {events : List (Event V P)}
    (hrun : s.run group limits logIdText events = some after) : Steady group after := by
  induction events generalizing s with
  | nil => exact Option.some.inj hrun ▸ h
  | cons event rest ih =>
    rw [Host.run, List.foldlM_cons] at hrun
    obtain ⟨mid, hstep, hrest⟩ := Option.bind_eq_some_iff.mp hrun
    exact ih (h.step hgood hstep) (hgood.step False.elim hstep) hrest

end Epoch

/-! ### The records of a snapshot -/

section Records

theorem exists_of_lastWrite {records : List (Bytes × V)} {key : Bytes} {found : Option V}
    (h : lastWrite (putAll records) key = some found) : ∃ record ∈ records, record.1 = key := by
  induction records with
  | nil => cases h
  | cons record rest ih =>
    have hcons : lastWrite (putAll (record :: rest)) key =
        (lastWrite (putAll rest) key).or (if record.1 = key then some (some record.2) else none) :=
          rfl
    rw [hcons] at h
    cases hlast : lastWrite (putAll rest) key with
    | some found' =>
      obtain ⟨other, hother, hkey⟩ := ih (hlast.trans (by rw [hlast, Option.some_or] at h; exact h))
      exact ⟨other, List.mem_cons_of_mem _ hother, hkey⟩
    | none =>
      rw [hlast, Option.none_or] at h
      split_ifs at h with hkey
      exact ⟨record, List.mem_cons_self .., hkey⟩

/-- Staging records with ascending keys writes each of them, and nothing else. -/
theorem lastWrite_putAll {records : List (Bytes × V)} (h : KeysAscend records) {key : Bytes}
    {value : V} :
    (lastWrite (putAll records) key).getD none = some value ↔ (key, value) ∈ records := by
  induction records with
  | nil => simp [putAll, lastWrite]
  | cons record rest ih =>
    obtain ⟨hfirst, hrest⟩ := List.pairwise_cons.mp h
    have hrest := ih hrest
    have hlater : ∀ other ∈ rest, record.1 ≠ other.1 := fun other hother hsame ↦ by
      have hlt := hfirst other hother
      have heq : compare other.1 other.1 = .eq := Std.ReflCmp.compare_self
      rw [hsame, heq] at hlt
      exact absurd hlt (by decide)
    have hcons : lastWrite (putAll (record :: rest)) key =
        (lastWrite (putAll rest) key).or (if record.1 = key then some (some record.2) else none) :=
          rfl
    rw [hcons, List.mem_cons]
    cases hlast : lastWrite (putAll rest) key with
    | some found =>
      rw [hlast, Option.getD_some] at hrest
      rw [Option.some_or, Option.getD_some, hrest]
      refine ⟨.inr, fun hin ↦ hin.resolve_left fun hsame ↦ ?_⟩
      subst hsame
      -- A later put to the key would be of a record with the same key.
      obtain ⟨other, hother, hkey⟩ := exists_of_lastWrite hlast
      exact hlater other hother hkey.symm
    | none =>
      rw [hlast, Option.getD_none] at hrest
      rw [Option.none_or]
      have hout : (key, value) ∉ rest := fun hin ↦ by cases hrest.mpr hin
      split_ifs with hkey
      · subst hkey
        simp [hout, Prod.ext_iff, eq_comm]
      · simp only [Option.getD_none, reduceCtorEq, hout, or_false, false_iff]
        rintro rfl
        exact hkey rfl

variable [Record V Applied]

/-- The state a snapshot installs holds its metadata in the applied record. -/
theorem Snapshot.applied_state (snapshot : Snapshot V) :
    snapshot.state[raftAppliedKey]? = some (Record.encode snapshot.applied) := by
  rw [Snapshot.state, getElem?_writeAll, lastWrite_append]
  simp [lastWrite, putApplied]

/-- Under every other key it holds the snapshot's record, if there is one. -/
theorem Snapshot.state_eq_some_iff {snapshot : Snapshot V} (h : KeysAscend snapshot.records)
    {key : Bytes} (hkey : key ≠ raftAppliedKey) {value : V} :
    snapshot.state[key]? = some value ↔ (key, value) ∈ snapshot.records := by
  rw [← lastWrite_putAll h, Snapshot.state, getElem?_writeAll, lastWrite_append]
  simp [lastWrite, putApplied, hkey.symm]

end Records

/-! ### The transfer -/

section Transfer

variable [Record V Applied] {group : GroupId} {limits : ApplyDurabilityLimits}
  {logIdText : RaftLogId → String}

/-- What is captured is the state in use, with the applied record of that state. -/
theorem Good.captured {s after : Host V P} (h : Good False group s)
    (hstep : s.buildCapture group logIdText = some after) :
    ∃ cf snapshot, after.built = s.built ++ [snapshot] ∧ (s.disk group).activeState = some cf ∧
      snapshot.records = cf.toList ∧ readApplied cf = .ok snapshot.applied := by
  rw [Host.buildCapture] at hstep
  split at hstep
  · rename_i applied cf hbuilding hcf
    split_ifs at hstep
    cases hstep
    have htask := h.stateTask
    rw [hbuilding] at htask
    obtain ⟨-, cf', hcf', happlied⟩ := htask
    obtain rfl : cf = cf' := Option.some.inj (hcf.symm.trans hcf')
    exact ⟨cf, _, rfl, hcf, rfl, happlied⟩
  · cases hstep

/-- What the next start finds of a group after an install of a snapshot was cut off: the state of an
image from before, or the snapshot's, and nothing else of the group's state. -/
structure AtomicInstall (group : GroupId) (others : Prop) (snapshot : Snapshot V) (start : Host V P)
    (found : Disk V P) : Prop where
  swept : ∀ generation ≠ (found.group group).pointer, (found.group group).state generation = none
  state : ∃ d, start.database.Survives d ∧
    ((found.group group).activeState = (d.group group).activeState ∧
        (found.group group).searchProjectionEpoch = (start.disk group).searchProjectionEpoch ∨
      ∃ cf, (found.group group).activeState = some cf ∧
        cf[raftAppliedKey]? = some (Record.encode snapshot.applied) ∧
        (∀ key ≠ raftAppliedKey, ∀ value, cf[key]? = some value ↔ (key, value) ∈ snapshot.records) ∧
        EpochAfterInstall group (start.disk group).searchProjectionEpoch
          (found.group group).searchProjectionEpoch) ∧
    (others → ∀ other ≠ group, found.group other = (d.group other).cleanupSnapshotCfs other)

theorem Installing.atomicInstall {others : Prop} {snapshot : Snapshot V} {start s : Host V P}
    (h : Installing group others snapshot start s) (hgood : Good False group s)
    (hsteady : Steady group start) {left : Disk V P} (hleft : s.database.Survives left) :
    AtomicInstall group others snapshot start left.cleanupSnapshotCfs := by
  obtain ⟨log, cf, applied, -, hcf, -, -⟩ := (hgood.images.holds left hleft).replayable
  have hsome : (left.group group).activeState.isSome := Option.isSome_iff_exists.mpr ⟨cf, hcf⟩
  have hactive :
      (left.cleanupSnapshotCfs.group group).activeState = (left.group group).activeState :=
    GroupDisk.activeState_cleanupSnapshotCfs hsome
  have hepoch : (left.cleanupSnapshotCfs.group group).searchProjectionEpoch =
      (left.group group).searchProjectionEpoch := by
    change ((left.group group).cleanupSnapshotCfs group).searchProjectionEpoch = _
    rw [GroupDisk.cleanupSnapshotCfs_of_isSome hsome]
    rfl
  refine ⟨fun generation hne ↦ GroupDisk.state_cleanupSnapshotCfs_of_ne hne, ?_⟩
  obtain ⟨d, hd, hlike | ⟨hinstalled, hothers⟩⟩ := h.images left hleft
  · refine ⟨d, hd, .inl ⟨hactive.trans hlike.active, ?_⟩, fun ho other hne ↦ ?_⟩
    · exact hepoch.trans (hlike.epoch.trans (hsteady d hd))
    · exact congrArg (GroupDisk.cleanupSnapshotCfs other) (hlike.others ho other hne)
  · refine ⟨d, hd, .inr ⟨snapshot.state, hactive.trans hinstalled.active, snapshot.applied_state,
      fun key hkey value ↦ Snapshot.state_eq_some_iff hinstalled.ascend hkey, ?_⟩,
      fun ho other hne ↦ congrArg (GroupDisk.cleanupSnapshotCfs other) (hothers ho other hne)⟩
    rw [hepoch]
    exact hinstalled.epoch

variable [Record V (BitVec 128)]

/-- In every run: what is captured is exactly the state in use with its own metadata; and an
install, cut off anywhere by a crash or a failure, is found after the next start to have happened
completely or not at all. -/
theorem snapshot_transfer {d : Disk V P} (hfresh : Fresh group d) {start s : Host V P}
    {first : UInt64} (hstart : Host.opened group d first [] [] = some start)
    {events : List (Event V P)} (hrun : start.run group limits logIdText events = some s) :
    (∀ after, s.step group limits logIdText .buildCapture = some after →
      ∃ cf snapshot, after.built = s.built ++ [snapshot] ∧ (s.disk group).activeState = some cf ∧
        snapshot.records = cf.toList ∧ readApplied cf = .ok snapshot.applied) ∧
    ∀ (snapshot : Snapshot V) (installing last : Host V P) (rest : List (Event V P)),
      s.step group limits logIdText (.install snapshot) = some installing →
      (∀ event ∈ rest, event.withinInstall) →
      installing.run group limits logIdText rest = some last →
      ∀ (kept : ℕ) (epoch : UInt64), last.database.synced ≤ kept →
        kept ≤ Journal.writes last.database.taken →
        ∃ after, last.crash group kept epoch = some after ∧
          next last.tracker.durable ≤ (after.disk group).appliedNext ∧
          AtomicInstall group (∀ event ∈ rest, ¬event.isForeign) snapshot s
            after.database.current := by
  have hgood : Good False group s := (hfresh.good hstart).run False.elim hrun
  have hsteady := (Steady.of_opened hstart).run (hfresh.good hstart) hrun
  refine ⟨fun after hstep ↦ hgood.captured hstep, ?_⟩
  intro snapshot installing last rest hinstall hrest hlast kept epoch hsynced hkept
  have hnow := hgood.step False.elim hinstall
  have hinstalling := (Installing.of_install hgood hinstall).run hnow hgood hrest id hlast
  have hend := hnow.run False.elim hlast
  have hleft :
      last.database.Survives (Journal.replay last.database.base last.database.taken kept) :=
    ⟨kept, hsynced, hkept, rfl⟩
  have hatomic := hinstalling.atomicInstall hend hsteady hleft
  let left := (Journal.replay last.database.base last.database.taken kept).cleanupSnapshotCfs
  have hsound : Sound False last.promise (left.group group) :=
    (hend.images.holds _ hleft).cleanupSnapshotCfs group
  obtain ⟨after, hopened, hdisk⟩ := hsound.exists_opened epoch last.acknowledged last.built
  have hcurrent := congrArg Journal.current (Host.database_opened hopened)
  refine ⟨after, ?_, ?_, hcurrent ▸ hatomic⟩
  · rw [Host.crash, if_pos ⟨hsynced, hkept⟩]
    exact hopened
  · obtain ⟨log, cf, applied, -, hcf, happlied, hmarks, -⟩ := hsound.replayable
    have hmark := hmarks _ (List.mem_cons_self ..)
    rw [hdisk]
    exact hmark.trans_eq (GroupDisk.appliedNext_eq hcf happlied).symm

end Transfer

/-- A snapshot of the next entries: two values, and an applied record that the install replaces. -/
def laterSnapshot : Snapshot DataValue where
  applied := { logId := some (firstTerm 5), membership := StoredMembership.default }
  records :=
    [(raftAppliedKey, .raftApplied { logId := some (firstTerm 4), membership := .default }),
    (userKey [1], .user ⟨4, [10]⟩), (userKey [2], .user ⟨5, [20]⟩)]

/-- An install up to the switch, in two batches. -/
def installUpToSwitch : List (Event DataValue Unit) :=
  [.createStaging, .put, .put, .flushBatch, .put, .finish, .flushWal, .switch]

/-- The node stops after the switch of an install, before the old family is dropped: the next start
finds the snapshot. -/
theorem snapshot_transfer_cut_off :
    ∃ s installing last after : Host DataValue Unit, newRun appendAndApply = some s ∧
      s.step (.data 0) .default (fun _ ↦ "") (.install laterSnapshot) = some installing ∧
      installing.run (.data 0) .default (fun _ ↦ "") installUpToSwitch = some last ∧
      last.crash (.data 0) last.database.synced 1 = some after ∧
      (after.disk (.data 0)).pointer = some 1 ∧
      AtomicInstall (.data 0) (∀ event ∈ installUpToSwitch, ¬event.isForeign) laterSnapshot s
        after.database.current := by
  obtain ⟨start, hstart⟩ : ∃ start, Host.opened (.data 0) newDisk 1 [] [] = some start :=
    Option.isSome_iff_exists.mp (by decide +kernel)
  have hpointer : ((newRun (appendAndApply ++ .install laterSnapshot :: installUpToSwitch)).bind
      fun last ↦ (last.crash (.data 0) last.database.synced 1).map fun after ↦
        (after.disk (.data 0)).pointer) = some (some 1) := by decide +kernel
  obtain ⟨last, hlast, hpointer⟩ := Option.bind_eq_some_iff.mp hpointer
  have hfresh : Fresh (.data 0) newDisk := ⟨rfl, rfl, rfl⟩
  simp only [newRun, hstart, Host.run, List.foldlM_append, List.foldlM_cons, Option.bind_eq_bind,
    Option.bind_some, Option.bind_eq_some_iff] at hlast
  obtain ⟨s, hs, installing, hinstall, hrest⟩ := hlast
  have hgood : Good False (.data 0) s := (hfresh.good hstart).run False.elim hs
  have hend := (hgood.step False.elim hinstall).run False.elim hrest
  obtain ⟨after, hafter, -, hatomic⟩ := (snapshot_transfer hfresh hstart hs).2
    laterSnapshot installing last installUpToSwitch hinstall (by decide) hrest
    last.database.synced 1 le_rfl hend.images.synced_le
  rw [hafter] at hpointer
  exact ⟨s, installing, last, after, by rw [newRun, hstart]; exact hs, hinstall, hrest, hafter,
    Option.some.inj hpointer, hatomic⟩

end DalService.Storage
