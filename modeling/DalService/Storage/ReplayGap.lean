import DalService.Storage.HostStep

/-!
# No replay gap after a crash

A group starts empty and takes any interleaving of the events of a running node. Whatever a crash
then leaves of the write-ahead log, the group opens on it again, and what it finds has no gap
(`ReplaysWithoutGap`): the purge marker and the committed marker are not above the applied index,
the entries above the purge marker are consecutive, so are those above the applied index, and every
entry whose append was reported and that was not truncated later is there or applied
(`no_replay_gap`).

The caller of the log store has to purge in order. The marker is written as it is given, so a purge
below an earlier one leaves a gap between the marker and the first entry kept
(`backward_purge_leaves_gap`). Nor may it use the highest index of all: a truncation deletes it by a
write of its own, and a crash before that write leaves it alone in the log
(`truncation_at_last_index_leaves_gap`).
-/

set_option autoImplicit false

namespace DalService.Storage

open Foundation Keyspace DalService.Partition

section

variable {V P : Type} [Record V Applied]

/-- What is found after a restart can be replayed: the markers are not above the applied index, and
no entry is missing between the markers and the last entry, nor any of the acknowledged ones. -/
def ReplaysWithoutGap (acknowledged : List (LogEntry P)) (d : GroupDisk V P) : Prop :=
  ∃ log cf applied, d.log = some log ∧ d.activeState = some cf ∧ readApplied cf = .ok applied ∧
    next log.purged ≤ next applied.logId ∧ next log.committed ≤ next applied.logId ∧
    ConsecutiveAbove (next log.purged) log.entries ∧
    ConsecutiveAbove (next applied.logId) log.entries ∧
    ∀ entry ∈ acknowledged, next applied.logId ≤ entry.logId.index.toNat →
      log.entries[entry.logId.index]? = some entry

theorem Sound.replaysWithoutGap {promise : Promise P} {d : GroupDisk V P} (h : Sound True promise d)
    {acknowledged : List (LogEntry P)} (hentries : acknowledged ⊆ promise.entries) :
    ReplaysWithoutGap acknowledged d := by
  obtain ⟨log, cf, applied, hlog, hcf, happlied, -, hreplay⟩ := h.replayable
  replace hreplay := hreplay trivial
  refine ⟨log, cf, applied, hlog, hcf, happlied, hreplay.purged_le, hreplay.committed_le,
    hreplay.consecutive, fun index hin below hbelow ↦ ?_, fun entry hentry ↦ ?_⟩
  · exact hreplay.consecutive index hin below (hreplay.purged_le.trans hbelow)
  · exact hreplay.kept entry (hentries hentry)

/-- The group opens on what can be replayed. -/
theorem Sound.exists_opened {ordered : Prop} {group : GroupId} {promise : Promise P} {d : Disk V P}
    (h : Sound ordered promise (d.group group)) (epoch : UInt64) (acknowledged : List (LogEntry P))
    (built : List (Snapshot V)) :
    ∃ s, Host.opened group d epoch acknowledged built = some s ∧ s.disk group = d.group group := by
  obtain ⟨log, cf, applied, hlog, hcf, happlied, -⟩ := h.replayable
  simp only [Host.opened, hlog, hcf, happlied]
  exact ⟨_, rfl, rfl⟩

/-- What `ensure_group` leaves for a group that has nothing stored: an empty log and an empty base
family. -/
def Fresh (group : GroupId) (d : Disk V P) : Prop :=
  (d.group group).log = some .empty ∧ (d.group group).state none = some ∅ ∧
    (d.group group).pointer = none

theorem Fresh.good {ordered : Prop} {group : GroupId} {d : Disk V P} (h : Fresh group d)
    {epoch : UInt64} {s : Host V P} (hopened : Host.opened group d epoch [] [] = some s) :
    Good ordered group s := by
  obtain ⟨hlog, hstate, hpointer⟩ := h
  have hsound : Sound ordered { marks := [], entries := [], doomed := [] } (d.group group) := by
    refine ⟨⟨.empty, ∅, _, hlog, ?_, readApplied_empty, by simp, fun _ ↦ .empty⟩, by simp, ?_⟩
    · rw [GroupDisk.activeState, hpointer, hstate]
    · simp [hpointer]
  exact Good.opened hsound (List.Subset.refl _) hopened

end

section Run

variable {V P : Type} [Record V Applied] [Record V (BitVec 128)] (group : GroupId)
  (limits : ApplyDurabilityLimits) (logIdText : RaftLogId → String)

/-- Events one after the other. -/
def Host.run (s : Host V P) (events : List (Event V P)) : Option (Host V P) :=
  events.foldlM (fun s event ↦ s.step group limits logIdText event) s

/-- The caller keeps to `Admissible` at every event of a run. -/
def AdmissibleRun : Host V P → List (Event V P) → Prop
  | _, [] => True
  | s, event :: rest => Admissible group s event ∧
      ∀ after, s.step group limits logIdText event = some after → AdmissibleRun after rest

variable {group limits logIdText}

/-- A run of admissible events keeps the invariant. -/
theorem Good.run {ordered : Prop} {s after : Host V P} {events : List (Event V P)}
    (h : Good ordered group s)
    (hadmissible : ordered → AdmissibleRun group limits logIdText s events)
    (hrun : s.run group limits logIdText events = some after) : Good ordered group after := by
  induction events generalizing s with
  | nil => exact Option.some.inj hrun ▸ h
  | cons event rest ih =>
    rw [Host.run, List.foldlM_cons] at hrun
    obtain ⟨mid, hstep, hrest⟩ := Option.bind_eq_some_iff.mp hrun
    exact ih (h.step (fun ho ↦ (hadmissible ho).1) hstep)
      (fun ho ↦ (hadmissible ho).2 mid hstep) hrest

/-- After any run of admissible events on a new group, and any crash, the group opens again and
replays without a gap. -/
theorem no_replay_gap {d : Disk V P} (hfresh : Fresh group d) {start s : Host V P} {first : UInt64}
    (hstart : Host.opened group d first [] [] = some start) {events : List (Event V P)}
    (hadmissible : AdmissibleRun group limits logIdText start events)
    (hrun : start.run group limits logIdText events = some s) {kept : ℕ}
    (hsynced : s.database.synced ≤ kept) (hkept : kept ≤ Journal.writes s.database.taken)
    (epoch : UInt64) :
    ∃ after, s.crash group kept epoch = some after ∧
      ReplaysWithoutGap s.acknowledged (after.disk group) := by
  have hgood : Good True group s := (hfresh.good hstart).run (fun _ ↦ hadmissible) hrun
  let left := (Journal.replay s.database.base s.database.taken kept).cleanupSnapshotCfs
  have hsound : Sound True s.promise (left.group group) :=
    (hgood.images.holds _ ⟨kept, hsynced, hkept, rfl⟩).cleanupSnapshotCfs group
  obtain ⟨after, hopened, hdisk⟩ := hsound.exists_opened epoch s.acknowledged s.built
  refine ⟨after, ?_, hdisk ▸ hsound.replaysWithoutGap (List.subset_append_left _ _)⟩
  rw [Host.crash, if_pos ⟨hsynced, hkept⟩]
  exact hopened

/-- Events that are admissible in every state. -/
theorem AdmissibleRun.of_forall {s : Host V P} {events : List (Event V P)}
    (h : ∀ event ∈ events, ∀ t : Host V P, Admissible group t event) :
    AdmissibleRun group limits logIdText s events := by
  induction events generalizing s with
  | nil => trivial
  | cons event rest ih =>
    exact ⟨h event (List.mem_cons_self ..) s, fun after _ ↦
      ih fun other hother ↦ h other (List.mem_cons_of_mem _ hother)⟩

end Run

/-! ### Two runs -/

/-- A log id of the first term. -/
def firstTerm (index : UInt64) : RaftLogId where
  leaderId := { term := 1, nodeId := 1 }
  index := index

/-- A node whose groups are all new. -/
def newDisk : Disk DataValue Unit where
  group := fun _ ↦ { (GroupDisk.empty : GroupDisk DataValue Unit) with
    log := some .empty
    state := fun generation ↦ if generation = none then some ∅ else none }
  recoveryEpoch := none
  identity := none

/-- A run of the first data group of a new node. -/
def newRun (events : List (Event DataValue Unit)) : Option (Host DataValue Unit) := do
  let start ← Host.opened (.data 0) newDisk 1 [] []
  start.run (.data 0) .default (fun _ ↦ "") events

/-- Three entries are appended and reported, and applied in one batch. -/
def appendAndApply : List (Event DataValue Unit) :=
  [.append [⟨firstTerm 0, ()⟩, ⟨firstTerm 1, ()⟩, ⟨firstTerm 2, ()⟩], .flush, .complete,
    .applyBegin (firstTerm 2) StoredMembership.default [] [] 3 64, .applyWrite]

/-- The batch that applies the entries is lost in a crash: the entries are replayed. -/
theorem no_replay_gap_lost_apply :
    ∃ s after : Host DataValue Unit, newRun appendAndApply = some s ∧ s.acknowledged.length = 3 ∧
      s.crash (.data 0) s.database.synced 1 = some after ∧
      ReplaysWithoutGap s.acknowledged (after.disk (.data 0)) := by
  obtain ⟨start, hstart⟩ : ∃ start, Host.opened (.data 0) newDisk 1 [] [] = some start :=
    Option.isSome_iff_exists.mp (by decide +kernel)
  obtain ⟨s, hs⟩ : ∃ s, newRun appendAndApply = some s :=
    Option.isSome_iff_exists.mp (by decide +kernel)
  have hfresh : Fresh (.data 0) newDisk := ⟨rfl, rfl, rfl⟩
  have hrun : start.run (.data 0) .default (fun _ ↦ "") appendAndApply = some s := by
    rwa [newRun, hstart] at hs
  have hadmissible : AdmissibleRun (.data 0) .default (fun _ ↦ "") start appendAndApply := by
    refine .of_forall fun event hevent t ↦ ?_
    simp only [appendAndApply, List.mem_cons, List.not_mem_nil, or_false] at hevent
    rcases hevent with rfl | rfl | rfl | rfl | rfl
    · simp only [Admissible]
      decide
    all_goals trivial
  have hgood : Good False (.data 0) s := (hfresh.good hstart).run False.elim hrun
  obtain ⟨after, hafter, hgap⟩ :=
    no_replay_gap hfresh hstart hadmissible hrun le_rfl hgood.images.synced_le 1
  have hlength : (newRun appendAndApply).map (fun s ↦ s.acknowledged.length) = some 3 := by
    decide +kernel
  rw [hs] at hlength
  exact ⟨s, after, hs, Option.some.inj hlength, hafter, hgap⟩

/-- A purge at the first entry after a purge at the second. -/
def backwardPurge : List (Event DataValue Unit) :=
  appendAndApply ++ [.flush, .complete, .purge (firstTerm 1), .purgeRange, .purgeLast,
    .purge (firstTerm 0)]

/-- What the next start finds of the log where nothing of the write-ahead log is lost: the purge
marker, and whether two indices are stored. -/
def foundLog (events : List (Event DataValue Unit)) (below index : UInt64) :
    Option (Option RaftLogId × Bool × Bool) := do
  let s ← newRun events
  let after ← s.crash (.data 0) (Journal.writes s.database.taken) 1
  let log ← (after.disk (.data 0)).log
  return (log.purged, log.entries.contains below, log.entries.contains index)

/-- An entry above the purge marker is missing below one that is stored. -/
theorem gap_of_foundLog {events : List (Event DataValue Unit)} {below index : UInt64}
    {purged : Option RaftLogId} (hfound : foundLog events below index = some (purged, false, true))
    (hpurged : next purged ≤ below.toNat) (hbelow : below ≤ index) :
    ∃ s after : Host DataValue Unit, newRun events = some s ∧
      s.crash (.data 0) (Journal.writes s.database.taken) 1 = some after ∧
      ¬ReplaysWithoutGap s.acknowledged (after.disk (.data 0)) := by
  simp only [foundLog, Option.bind_eq_bind, Option.bind_eq_some_iff, Option.pure_def,
    Option.some.injEq, Prod.mk.injEq] at hfound
  obtain ⟨s, hs, after, hafter, log, hlog, rfl, hout, hin⟩ := hfound
  refine ⟨s, after, hs, hafter, ?_⟩
  rintro ⟨log', cf, applied, hlog', -, -, -, -, hconsecutive, -⟩
  obtain rfl : log = log' := Option.some.inj (hlog.symm.trans hlog')
  have hmem := hconsecutive index (Std.ExtTreeMap.mem_iff_contains.mpr hin) below hpurged hbelow
  rw [Std.ExtTreeMap.mem_iff_contains, hout] at hmem
  cases hmem

/-- Both log ids are applied, and the log is left with a gap after the marker of the second
purge. -/
theorem backward_purge_leaves_gap :
    ∃ s after : Host DataValue Unit, newRun backwardPurge = some s ∧
      s.crash (.data 0) (Journal.writes s.database.taken) 1 = some after ∧
      ¬ReplaysWithoutGap s.acknowledged (after.disk (.data 0)) := by
  have hfound : foundLog backwardPurge 1 2 = some (some (firstTerm 0), false, true) := by
    decide +kernel
  exact gap_of_foundLog hfound (by decide) (by decide)

/-- A snapshot brings the group to the third highest index, the last two are appended, and a
truncation at the first of them stops after its range delete. -/
def truncatedAtEnd : List (Event DataValue Unit) :=
  let last := firstTerm (lastIndex - 2)
  [.install ⟨{ logId := some last, membership := .default }, []⟩, .createStaging,
    .finish, .flushWal,
    .switch, .retire true, .recordInstalled 1, .purge last, .purgeRange, .purgeLast,
    .append [⟨firstTerm (lastIndex - 1), ()⟩, ⟨firstTerm lastIndex, ()⟩],
    .truncate (firstTerm (lastIndex - 1))]

/-- The range delete of the truncation has left the entry with the highest index of all. -/
theorem truncation_at_last_index_leaves_gap :
    ∃ s after : Host DataValue Unit, newRun truncatedAtEnd = some s ∧
      s.crash (.data 0) (Journal.writes s.database.taken) 1 = some after ∧
      ¬ReplaysWithoutGap s.acknowledged (after.disk (.data 0)) := by
  have hfound : foundLog truncatedAtEnd (lastIndex - 1) lastIndex =
      some (some (firstTerm (lastIndex - 2)), false, true) := by decide +kernel
  exact gap_of_foundLog hfound (by decide) (by decide)

end DalService.Storage
