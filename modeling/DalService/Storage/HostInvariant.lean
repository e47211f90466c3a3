import DalService.Storage.LogRecovery

/-!
# What every image of the database satisfies

Whatever a crash leaves of the database, the group can go on from it (`Sound`): its log and the
state in use are there, the log can be replayed over the state, and the state in use is none of the
generations that an install is about to write or drop. What is owed grows only as the worker's
flushes and the install's syncs allow it: `promise` is what every image has to keep, and `owed` what
the image that is read has to keep as well, namely the batches written and not yet flushed.

`Good` is the invariant of a group on a running node, and each event keeps it (`Good.step`). That
the log can be replayed is promised only where the calls of the log store are `ordered`, under the
two conditions that `Admissible` states: no entry has the highest index of all, and a purge is not
below the one before it. The rest holds whatever the caller does.
-/

set_option autoImplicit false

namespace DalService.Storage

open Foundation Keyspace DalService.Partition

variable {V P : Type}

/-! ### What is owed -/

/-- The indices at which a list of batches makes the state durable. -/
def requestMarks (requests : List (Request P)) : List ℕ :=
  (requests.filterMap Request.stateId).map fun logId ↦ next (some logId)

/-- The entries a list of batches appends. -/
def requestEntries (requests : List (Request P)) : List (LogEntry P) :=
  requests.flatMap Request.entries

@[simp] theorem requestMarks_nil : requestMarks ([] : List (Request P)) = [] := rfl

@[simp] theorem requestMarks_cons_log (entries : List (LogEntry P)) (rest : List (Request P)) :
    requestMarks (.log entries :: rest) = requestMarks rest := rfl

@[simp] theorem requestMarks_cons_state (logId : RaftLogId) (rest : List (Request P)) :
    requestMarks (.state logId :: rest) = next (some logId) :: requestMarks rest := rfl

@[simp] theorem requestEntries_nil : requestEntries ([] : List (Request P)) = [] := rfl

@[simp] theorem requestEntries_cons_log (entries : List (LogEntry P)) (rest : List (Request P)) :
    requestEntries (.log entries :: rest) = entries ++ requestEntries rest := rfl

@[simp] theorem requestEntries_cons_state (logId : RaftLogId) (rest : List (Request P)) :
    requestEntries (.state logId :: rest) = requestEntries rest := rfl

@[simp] theorem requestMarks_append_log (requests : List (Request P))
    (entries : List (LogEntry P)) :
    requestMarks (requests ++ [.log entries]) = requestMarks requests := by
  simp [requestMarks, Request.stateId, List.filterMap_append]

@[simp] theorem requestMarks_append_state (requests : List (Request P)) (logId : RaftLogId) :
    requestMarks (requests ++ [.state logId]) = requestMarks requests ++ [next (some logId)] := by
  simp [requestMarks, Request.stateId, List.filterMap_append]

@[simp] theorem requestEntries_append_log (requests : List (Request P))
    (entries : List (LogEntry P)) :
    requestEntries (requests ++ [.log entries]) = requestEntries requests ++ entries := by
  simp [requestEntries, Request.entries]

@[simp] theorem requestEntries_append_state (requests : List (Request P)) (logId : RaftLogId) :
    requestEntries (requests ++ [.state logId]) = requestEntries requests := by
  simp [requestEntries, Request.entries]

/-- The applied index an install has made durable. -/
def taskMarks : StateTask V P → List ℕ
  | .switched snapshot _ => [next snapshot.applied.logId]
  | .retired snapshot => [next snapshot.applied.logId]
  | _ => []

/-- The generation an install writes or drops. -/
def taskDoomed : StateTask V P → List (Option UInt64)
  | .numbered _ generation => [some generation]
  | .staging _ generation _ _ _ => [some generation]
  | .staged _ generation => [some generation]
  | .flushed _ generation => [some generation]
  | .switched _ old => [old]
  | _ => []

/-- What every image has to keep. -/
def Host.promise (s : Host V P) : Promise P where
  marks := next s.tracker.durable :: (requestMarks s.completing ++ taskMarks s.stateTask)
  entries := s.acknowledged ++ requestEntries s.completing
  doomed := taskDoomed s.stateTask

/-- What the image that is read has to keep. -/
def Host.owed (s : Host V P) : Promise P where
  marks := s.promise.marks ++ requestMarks s.unflushed
  entries := s.promise.entries ++ requestEntries s.unflushed
  doomed := taskDoomed s.stateTask

theorem Host.promise_le_owed (s : Host V P) : s.promise.Le s.owed where
  marks := .of_subset (List.subset_append_left _ _)
  entries := List.subset_append_left _ _
  doomed := List.Subset.refl _

theorem Dominated.append {first second first' second' : List ℕ} (hfirst : Dominated first first')
    (hsecond : Dominated second second') : Dominated (first ++ second) (first' ++ second') := by
  intro mark hmark
  rcases List.mem_append.mp hmark with hin | hin
  · obtain ⟨above, habove, hle⟩ := hfirst mark hin
    exact ⟨above, List.mem_append_left _ habove, hle⟩
  · obtain ⟨above, habove, hle⟩ := hsecond mark hin
    exact ⟨above, List.mem_append_right _ habove, hle⟩

section Compare

variable {s after : Host V P}

/-- Only the tracker and the view lock change, and they ask for no more. -/
theorem Host.promise_le (hcompleting : after.completing = s.completing)
    (hacknowledged : after.acknowledged = s.acknowledged)
    (hmarks : Dominated (next after.tracker.durable :: taskMarks after.stateTask)
      (next s.tracker.durable :: taskMarks s.stateTask))
    (hdoomed : taskDoomed after.stateTask ⊆ taskDoomed s.stateTask) :
    after.promise.Le s.promise := by
  refine ⟨fun mark hmark ↦ ?_, ?_, hdoomed⟩
  · have hcases : mark ∈ requestMarks s.completing ∨
        mark ∈ next after.tracker.durable :: taskMarks after.stateTask := by
      simp only [Host.promise, hcompleting, List.mem_cons, List.mem_append] at hmark ⊢
      tauto
    rcases hcases with hin | hin
    · exact ⟨mark, by simp [Host.promise, hin], le_rfl⟩
    · obtain ⟨above, habove, hle⟩ := hmarks mark hin
      refine ⟨above, ?_, hle⟩
      simp only [Host.promise, List.mem_cons, List.mem_append] at habove ⊢
      tauto
  · simp [Host.promise, hcompleting, hacknowledged]

theorem Host.owed_le (hpromise : after.promise.Le s.promise)
    (hunflushed : after.unflushed = s.unflushed) : after.owed.Le s.owed := by
  refine ⟨?_, ?_, hpromise.doomed⟩
  · simp only [Host.owed, hunflushed]
    exact hpromise.marks.append (.refl _)
  · simp only [Host.owed, hunflushed]
    exact List.append_subset.mpr ⟨List.Subset.trans hpromise.entries (List.subset_append_left _ _),
      List.subset_append_right _ _⟩

end Compare

/-! ### One image -/

variable [Record V Applied]

omit [Record V Applied] in
/-- The state moves forward, and what is owed moves at most as far. -/
theorem marks_le_of_raise {weak strong : List ℕ} {applied applied' : ℕ}
    (h : ∀ mark ∈ strong, mark ≤ applied) (hle : applied ≤ applied')
    (hmarks : ∀ mark ∈ weak, (∃ above ∈ strong, mark ≤ above) ∨ mark ≤ applied') :
    ∀ mark ∈ weak, mark ≤ applied' := by
  intro mark hmark
  rcases hmarks mark hmark with ⟨above, habove, hmark⟩ | hnew
  · exact hmark.trans ((h above habove).trans hle)
  · exact hnew

/-- The group can go on from what is stored for it; its log can be replayed where the calls of the
log store were `ordered`. -/
structure Sound (ordered : Prop) (promise : Promise P) (d : GroupDisk V P) : Prop where
  replayable : ∃ log cf applied, d.log = some log ∧ d.activeState = some cf ∧
    readApplied cf = .ok applied ∧ (∀ mark ∈ promise.marks, mark ≤ next applied.logId) ∧
    (ordered → Replayable promise.entries log (next applied.logId))
  unused : d.pointer ∉ promise.doomed
  numbered : ∀ generation, d.pointer = some generation → generation ≤ d.generation.getD 0

/-- The index after the applied one. -/
def GroupDisk.appliedNext (d : GroupDisk V P) : ℕ :=
  match d.activeState with
  | none => 0
  | some cf =>
    match readApplied cf with
    | .ok applied => next applied.logId
    | .error _ => 0

variable {d after : GroupDisk V P}

theorem GroupDisk.appliedNext_eq {cf : ColumnFamily V} {applied : Applied}
    (hcf : d.activeState = some cf) (happlied : readApplied cf = .ok applied) :
    d.appliedNext = next applied.logId := by
  rw [appliedNext, hcf]
  simp only [happlied]

theorem GroupDisk.appliedNext_congr
    (h : after.activeState = d.activeState) : after.appliedNext = d.appliedNext := by
  rw [appliedNext, appliedNext, h]

namespace Sound

variable {ordered : Prop} {promise weak : Promise P}

theorem mono (h : Sound ordered promise d) (hle : weak.Le promise) : Sound ordered weak d := by
  obtain ⟨log, cf, applied, hlog, hcf, happlied, hmarks, hreplay⟩ := h.replayable
  exact ⟨⟨log, cf, applied, hlog, hcf, happlied, hle.marks.le hmarks,
    fun ho ↦ (hreplay ho).mono hle.entries⟩, fun hin ↦ h.unused (hle.doomed hin), h.numbered⟩

/-- Only the log changes. -/
theorem mapLog (h : Sound ordered promise d) {f : LogCf P → LogCf P}
    (hmarks : Dominated weak.marks promise.marks)
    (hf : ordered → ∀ log applied, d.log = some log → (∀ mark ∈ promise.marks, mark ≤ applied) →
      Replayable promise.entries log applied → Replayable weak.entries (f log) applied)
    (hdoomed : weak.doomed ⊆ promise.doomed) :
    Sound ordered weak { d with log := d.log.map f } := by
  obtain ⟨log, cf, applied, hlog, hcf, happlied, hle, hreplay⟩ := h.replayable
  refine ⟨⟨f log, cf, applied, ?_, hcf, happlied, hmarks.le hle,
    fun ho ↦ hf ho log _ hlog hle (hreplay ho)⟩, fun hin ↦ h.unused (hdoomed hin), h.numbered⟩
  simp [hlog]

/-- Neither the log nor the state in use changes. -/
theorem of_eq (h : Sound ordered promise d) (hlog : after.log = d.log)
    (hactive : after.activeState = d.activeState) (hpointer : after.pointer = d.pointer)
    (hgeneration : after.generation = d.generation) : Sound ordered promise after := by
  obtain ⟨log, cf, applied, hlog', hcf, happlied, hreplay⟩ := h.replayable
  refine ⟨⟨log, cf, applied, hlog.trans hlog', hactive.trans hcf, happlied, hreplay⟩, ?_, ?_⟩
  · rw [hpointer]
    exact h.unused
  · rw [hpointer, hgeneration]
    exact h.numbered

/-- The cleanup at the next start keeps the log and the state in use. -/
theorem cleanupSnapshotCfs (h : Sound ordered promise d) (group : GroupId) :
    Sound ordered promise (d.cleanupSnapshotCfs group) := by
  obtain ⟨log, cf, applied, -, hcf, -⟩ := h.replayable
  have hsome : d.activeState.isSome := Option.isSome_iff_exists.mpr ⟨cf, hcf⟩
  rw [GroupDisk.cleanupSnapshotCfs_of_isSome hsome]
  refine h.of_eq rfl ?_ rfl rfl
  simp [GroupDisk.activeState]

/-- A batch to a state column family that may not be in use. -/
theorem writeState (h : Sound ordered promise d) {generation : Option UInt64}
    (hdoomed : generation ∈ promise.doomed) (mutations : List (Mutation V)) :
    Sound ordered promise (d.writeState generation mutations) := by
  have hne : d.pointer ≠ generation := fun hsame ↦ h.unused (hsame ▸ hdoomed)
  refine h.of_eq rfl ?_ rfl rfl
  rw [GroupDisk.activeState, GroupDisk.activeState, GroupDisk.writeState]
  exact Function.update_of_ne hne _ _

/-- A state column family that may not be in use is created or dropped. -/
theorem updateState (h : Sound ordered promise d) {generation : Option UInt64}
    (hdoomed : generation ∈ promise.doomed) (cf : Option (ColumnFamily V)) :
    Sound ordered promise { d with state := Function.update d.state generation cf } := by
  have hne : d.pointer ≠ generation := fun hsame ↦ h.unused (hsame ▸ hdoomed)
  exact h.of_eq rfl (Function.update_of_ne hne _ _) rfl rfl

/-- A state batch is written to the state in use, in log order. -/
theorem apply (h : Sound ordered promise d) {logId : RaftLogId} {membership : StoredMembership}
    {mutations : List (Mutation V)} {searchEpoch : Option UInt64} {outbox : List Bytes}
    (horder : d.appliedNext ≤ logId.index.toNat)
    (hmarks : ∀ mark ∈ weak.marks,
      (∃ above ∈ promise.marks, mark ≤ above) ∨ mark ≤ logId.index.toNat + 1)
    (hentries : weak.entries ⊆ promise.entries) (hdoomed : weak.doomed ⊆ promise.doomed) :
    Sound ordered weak (d.write (.apply d.pointer
      (mutations ++ [putApplied { logId := some logId, membership := membership }])
        logId searchEpoch
      outbox)) := by
  obtain ⟨log, cf, applied, hlog, hcf, happlied, hle, hreplay⟩ := h.replayable
  rw [GroupDisk.appliedNext_eq hcf happlied] at horder
  have hforward : next applied.logId ≤ logId.index.toNat + 1 := horder.trans (Nat.le_succ _)
  refine ⟨⟨{ log with committed := some logId }, _,
    { logId := some logId, membership := membership },
    ?_, ?_, readApplied_writeAll cf mutations _, marks_le_of_raise hle hforward hmarks,
    fun ho ↦ (hreplay ho).raise hforward le_rfl hentries⟩,
    fun hin ↦ h.unused (hdoomed hin), h.numbered⟩
  · simp [GroupDisk.write, hlog]
  · rw [GroupDisk.activeState] at hcf ⊢
    simp [GroupDisk.write, GroupDisk.writeState, hcf]

/-- The next generation is numbered: it is not in use. -/
theorem numberNext (h : Sound ordered promise d) {generation : UInt64}
    (hnext : generation = d.generation.getD 0 + 1)
    (hroom : (d.generation.getD 0).toNat + 1 < 2 ^ 64) (hmarks : Dominated weak.marks promise.marks)
    (hentries : weak.entries ⊆ promise.entries)
    (hdoomed : weak.doomed ⊆ some generation :: promise.doomed) :
    Sound ordered weak (d.write (.generation generation)) := by
  obtain ⟨log, cf, applied, hlog, hcf, happlied, hle, hreplay⟩ := h.replayable
  have hvalue : generation.toNat = (d.generation.getD 0).toNat + 1 := by
    rw [hnext, UInt64.toNat_add]
    exact Nat.mod_eq_of_lt hroom
  refine ⟨⟨log, cf, applied, hlog, hcf, happlied, hmarks.le hle,
    fun ho ↦ (hreplay ho).mono hentries⟩, fun hin ↦ ?_, fun used hused ↦ ?_⟩
  · rcases List.mem_cons.mp (hdoomed hin) with hsame | hold
    · have := UInt64.le_iff_toNat_le.mp (h.numbered generation hsame)
      omega
    · exact h.unused hold
  · have := UInt64.le_iff_toNat_le.mp (h.numbered used hused)
    exact UInt64.le_iff_toNat_le.mpr (by simp only [GroupDisk.write, Option.getD_some]; omega)

end Sound

/-- The state a snapshot installs: its records, with the applied record of its metadata. -/
def Snapshot.state (snapshot : Snapshot V) : ColumnFamily V :=
  (∅ : ColumnFamily V).writeAll (putAll snapshot.records ++ [putApplied snapshot.applied])

/-- The state in use is switched to an installed snapshot, which is not behind it. -/
theorem Sound.switch {ordered : Prop} {promise weak : Promise P} (h : Sound ordered promise d)
    {snapshot : Snapshot V} {generation : UInt64} {epoch : BitVec 128} {searchEpoch : Option UInt64}
    (hstaged : d.state (some generation) = some snapshot.state)
    (hforward : d.appliedNext ≤ next snapshot.applied.logId)
    (hgeneration : generation ≤ d.generation.getD 0)
    (hmarks : ∀ mark ∈ weak.marks,
      (∃ above ∈ promise.marks, mark ≤ above) ∨ mark ≤ next snapshot.applied.logId)
    (hentries : weak.entries ⊆ promise.entries) (hunused : some generation ∉ weak.doomed) :
    Sound ordered weak (d.write (.switch epoch generation searchEpoch)) := by
  obtain ⟨log, cf, applied, hlog, hcf, happlied, hle, hreplay⟩ := h.replayable
  rw [GroupDisk.appliedNext_eq hcf happlied] at hforward
  refine ⟨⟨log, snapshot.state, snapshot.applied, hlog, hstaged, readApplied_writeAll _ _ _,
    marks_le_of_raise hle hforward hmarks, fun ho ↦ (hreplay ho).raise hforward
      ((hreplay ho).committed_le.trans hforward) hentries⟩, hunused, fun used hused ↦ ?_⟩
  cases hused
  exact hgeneration

/-! ### The invariant -/

/-- The keys of the records are strictly increasing. -/
def KeysAscend (records : List (Bytes × V)) : Prop :=
  records.Pairwise fun first second ↦ compare first.1 second.1 = .lt

omit [Record V Applied] in
/-- A record whose key is above the last one is added. -/
theorem KeysAscend.concat {records : List (Bytes × V)} (h : KeysAscend records) {key : Bytes}
    {value : V}
    (hlast : (records.getLast?.map Prod.fst).all fun previous ↦ compare previous key = .lt) :
    KeysAscend (records ++ [(key, value)]) := by
  refine List.pairwise_append.mpr
    ⟨h, List.pairwise_singleton _ _, fun record hrecord other hother ↦ ?_⟩
  cases List.mem_singleton.mp hother
  obtain ⟨before, last, rfl⟩ :=
    (List.eq_nil_or_concat' records).resolve_left (List.ne_nil_of_mem hrecord)
  have hlt : compare last.1 key = .lt := by simpa using hlast
  rcases List.mem_append.mp hrecord with hin | hin
  · exact Std.TransCmp.lt_trans
      ((List.pairwise_append.mp h).2.2 _ hin _ (List.mem_singleton_self _)) hlt
  · cases List.mem_singleton.mp hin
    exact hlt

/-- The visible watermark of a tracker that has not failed is the applied index. -/
def Tracks (tracker : GroupState) (d : GroupDisk V P) : Prop :=
  tracker.failed = none → next tracker.visible = d.appliedNext

/-- The visible watermark of a tracker that has not failed is not above a snapshot. -/
def Precedes (tracker : GroupState) (snapshot : Snapshot V) : Prop :=
  tracker.failed = none → next tracker.visible ≤ next snapshot.applied.logId

/-- A snapshot is being staged in the generation numbered last, and is not behind the state. -/
def Staging (tracker : GroupState) (d : GroupDisk V P) (snapshot : Snapshot V)
    (generation : UInt64) : Prop :=
  Precedes tracker snapshot ∧ d.appliedNext ≤ next snapshot.applied.logId ∧
    d.generation = some generation

theorem Staging.of_eq {tracker : GroupState} {snapshot : Snapshot V} {generation : UInt64}
    (h : Staging tracker d snapshot generation) (hactive : after.activeState = d.activeState)
    (hgeneration : after.generation = d.generation) : Staging tracker after snapshot generation :=
  ⟨h.1, (GroupDisk.appliedNext_congr hactive).trans_le h.2.1, hgeneration.trans h.2.2⟩

/-- What holds while the view lock is held. -/
def TaskOk (tracker : GroupState) (d : GroupDisk V P) : StateTask V P → Prop
  | .idle => Tracks tracker d
  | .applying logId batch => Tracks tracker d ∧ d.appliedNext ≤ logId.index.toNat ∧
      ∃ membership mutations searchEpoch outbox, batch = .apply d.pointer
        (mutations ++ [putApplied { logId := some logId, membership := membership }]) logId
        searchEpoch outbox ∧
          (searchEpoch = none ∨ searchEpoch = some 1 ∧ d.searchProjectionEpoch = 1)
  | .building applied =>
    Tracks tracker d ∧ ∃ cf, d.activeState = some cf ∧ readApplied cf = .ok applied
  | .numbered snapshot generation => Staging tracker d snapshot generation
  | .staging snapshot generation buffer left lastKey => Staging tracker d snapshot generation ∧
      ∃ consumed written, snapshot.records = consumed ++ left ∧
        written ++ buffer = putAll consumed ∧
        KeysAscend consumed ∧ lastKey = consumed.getLast?.map Prod.fst ∧
        d.state (some generation) = some ((∅ : ColumnFamily V).writeAll written)
  | .staged snapshot generation => Staging tracker d snapshot generation ∧
      d.state (some generation) = some snapshot.state ∧ KeysAscend snapshot.records
  | .flushed snapshot generation => Staging tracker d snapshot generation ∧
      d.state (some generation) = some snapshot.state ∧ KeysAscend snapshot.records
  | .switched snapshot _ => Precedes tracker snapshot ∧ d.activeState = some snapshot.state ∧
      KeysAscend snapshot.records
  | .retired snapshot => Precedes tracker snapshot ∧ d.activeState = some snapshot.state ∧
      KeysAscend snapshot.records
  | .failed => tracker.failed ≠ none

/-- A purge under way has set its marker. -/
def LogTaskOk (d : GroupDisk V P) : LogTask → Prop
  | .marked logId => ∃ log, d.log = some log ∧ log.purged = some logId
  | .swept logId => ∃ log, d.log = some log ∧ log.purged = some logId
  | _ => True

/-- The invariant of a group on a running node. -/
structure Good (ordered : Prop) (group : GroupId) (s : Host V P) : Prop where
  images : s.database.All fun d ↦ Sound ordered s.promise (d.group group)
  current : Sound ordered s.owed (s.disk group)
  logTask : LogTaskOk (s.disk group) s.logTask
  stateTask : TaskOk s.tracker (s.disk group) s.stateTask

theorem TaskOk.of_eq {tracker : GroupState} {task : StateTask V P} (h : TaskOk tracker d task)
    (hstate : after.state = d.state) (hpointer : after.pointer = d.pointer)
    (hgeneration : after.generation = d.generation)
    (hepoch : after.searchProjectionEpoch = d.searchProjectionEpoch) :
    TaskOk tracker after task := by
  have hactive : after.activeState = d.activeState := by
    rw [GroupDisk.activeState, GroupDisk.activeState, hstate, hpointer]
  have hnext := GroupDisk.appliedNext_congr hactive
  cases task <;>
    simpa only [TaskOk, Tracks, Staging, hnext, hactive, hstate, hpointer, hgeneration,
      hepoch] using h

/-- Nothing depends on the durable watermark, nor on the visible one of a tracker that has
failed. -/
theorem TaskOk.of_tracker {tracker after : GroupState} {task : StateTask V P}
    (h : TaskOk tracker d task)
    (hsame : after.failed = none → tracker.failed = none ∧ after.visible = tracker.visible) :
    TaskOk after d task := by
  have htracks : Tracks tracker d → Tracks after d := fun ht hok ↦ by
    rw [(hsame hok).2]
    exact ht (hsame hok).1
  have hprecedes : ∀ {snapshot : Snapshot V}, Precedes tracker snapshot → Precedes after snapshot :=
    fun hp hok ↦ by
      rw [(hsame hok).2]
      exact hp (hsame hok).1
  cases task with
  | idle => exact htracks h
  | applying logId batch => exact ⟨htracks h.1, h.2⟩
  | building applied => exact ⟨htracks h.1, h.2⟩
  | numbered snapshot generation | switched snapshot old | retired snapshot =>
    exact ⟨hprecedes h.1, h.2⟩
  | staging snapshot generation buffer left lastKey | staged snapshot generation
  | flushed snapshot generation => exact ⟨⟨hprecedes h.1.1, h.1.2⟩, h.2⟩
  | failed => exact fun hok ↦ h (hsame hok).1

omit [Record V Applied] in
theorem LogTaskOk.of_eq {task : LogTask} (h : LogTaskOk d task)
    (hlog : after.log = d.log) : LogTaskOk after task := by
  cases task with
  | marked logId | swept logId =>
    obtain ⟨log, hstored, hpurged⟩ := h
    exact ⟨log, hlog.trans hstored, hpurged⟩
  | _ => trivial

omit [Record V Applied] in
theorem LogTaskOk.mapLog {task : LogTask} (h : LogTaskOk d task)
    {f : LogCf P → LogCf P} (hf : ∀ log, (f log).purged = log.purged)
    (hafter : after.log = d.log.map f) : LogTaskOk after task := by
  cases task with
  | marked logId | swept logId =>
    obtain ⟨log, hstored, hpurged⟩ := h
    exact ⟨f log, by simp [hafter, hstored], (hf log).trans hpurged⟩
  | _ => trivial

/-! ### Rules for one event -/

namespace Good

variable {ordered : Prop} {group : GroupId} {s after : Host V P} {w : Write V P} {c : Change}

/-- A batch is written, and every image keeps what it owed. -/
theorem write (h : Good ordered group s) (hdatabase : after.database = s.database.write (group, w))
    (hpromise : after.promise.Le s.promise)
    (hcurrent : Sound ordered after.owed ((s.disk group).write w))
    (hlogTask : LogTaskOk ((s.disk group).write w) after.logTask)
    (hstateTask : TaskOk after.tracker ((s.disk group).write w) after.stateTask) :
    Good ordered group after := by
  have hdisk : after.disk group = (s.disk group).write w := by
    rw [Host.disk, hdatabase, Journal.current_write]
    exact Disk.group_write
  refine ⟨?_, hdisk ▸ hcurrent, hdisk ▸ hlogTask, hdisk ▸ hstateTask⟩
  rw [hdatabase]
  refine (h.images.mono fun d hd ↦ hd.mono hpromise).write ?_
  rw [show (Journaled.write (GroupId × Change) s.database.current (group, w)).group group =
    (s.disk group).write w from Disk.group_write]
  exact hcurrent.mono after.promise_le_owed

/-- A batch is written and synced: the image that is read is the only one left. -/
theorem writeSynced (hdatabase : after.database = (s.database.write (group, w)).sync)
    (hcurrent : Sound ordered after.owed ((s.disk group).write w))
    (hlogTask : LogTaskOk ((s.disk group).write w) after.logTask)
    (hstateTask : TaskOk after.tracker ((s.disk group).write w) after.stateTask) :
    Good ordered group after := by
  have hdisk : after.disk group = (s.disk group).write w := by
    rw [Host.disk, hdatabase, Journal.current_sync, Journal.current_write]
    exact Disk.group_write
  refine ⟨?_, hdisk ▸ hcurrent, hdisk ▸ hlogTask, hdisk ▸ hstateTask⟩
  rw [hdatabase]
  refine Journal.All.of_sync ?_
  rw [Journal.current_write, show (Journaled.write (GroupId × Change) s.database.current
    (group, w)).group group = (s.disk group).write w from Disk.group_write]
  exact hcurrent.mono after.promise_le_owed

/-- A column family is created or dropped, in every image. -/
theorem change (h : Good ordered group s)
    (hdatabase : after.database = s.database.change (group, c))
    (himages : ∀ d : GroupDisk V P, Sound ordered s.promise d →
      Sound ordered after.promise (d.change c))
    (hcurrent : Sound ordered after.owed ((s.disk group).change c))
    (hlogTask : LogTaskOk ((s.disk group).change c) after.logTask)
    (hstateTask : TaskOk after.tracker ((s.disk group).change c) after.stateTask) :
    Good ordered group after := by
  have hdisk : after.disk group = (s.disk group).change c := by
    rw [Host.disk, hdatabase, Journal.current_change]
    exact Disk.group_change
  refine ⟨?_, hdisk ▸ hcurrent, hdisk ▸ hlogTask, hdisk ▸ hstateTask⟩
  rw [hdatabase]
  refine h.images.change fun d _ hd ↦ ?_
  rw [show (Journaled.change (GroupId × Write V P) d (group, c)).group group =
    (d.group group).change c from Disk.group_change]
  exact himages _ hd

/-- Nothing is written. -/
theorem keep (h : Good ordered group s) (hdatabase : after.database = s.database)
    (hpromise : after.promise.Le s.promise) (hcurrent : Sound ordered after.owed (s.disk group))
    (hlogTask : LogTaskOk (s.disk group) after.logTask)
    (hstateTask : TaskOk after.tracker (s.disk group) after.stateTask) :
    Good ordered group after := by
  have hdisk : after.disk group = s.disk group := by rw [Host.disk, Host.disk, hdatabase]
  refine ⟨?_, hdisk ▸ hcurrent, hdisk ▸ hlogTask, hdisk ▸ hstateTask⟩
  rw [hdatabase]
  exact h.images.mono fun d hd ↦ hd.mono hpromise

/-- Only the tracker, the view lock and the snapshots built change. -/
theorem retask (h : Good ordered group s) {tracker : GroupState} {task : StateTask V P}
    {built : List (Snapshot V)}
    (hmarks : Dominated (next tracker.durable :: taskMarks task)
      (next s.tracker.durable :: taskMarks s.stateTask))
    (hdoomed : taskDoomed task ⊆ taskDoomed s.stateTask)
    (htask : TaskOk tracker (s.disk group) task) :
    Good ordered group { s with tracker := tracker, stateTask := task, built := built } := by
  have hpromise :
      Host.promise { s with tracker := tracker, stateTask := task, built := built } |>.Le
      s.promise := Host.promise_le rfl rfl hmarks hdoomed
  exact h.keep rfl hpromise (h.current.mono (Host.owed_le hpromise rfl)) h.logTask htask

/-- The log is synced. -/
theorem synced (hdatabase : after.database = s.database.sync)
    (hcurrent : Sound ordered after.owed (s.disk group))
    (hlogTask : LogTaskOk (s.disk group) after.logTask)
    (hstateTask : TaskOk after.tracker (s.disk group) after.stateTask) :
    Good ordered group after := by
  have hdisk : after.disk group = s.disk group := by
    rw [Host.disk, Host.disk, hdatabase, Journal.current_sync]
  refine ⟨?_, hdisk ▸ hcurrent, hdisk ▸ hlogTask, hdisk ▸ hstateTask⟩
  rw [hdatabase]
  exact Journal.All.of_sync (hcurrent.mono after.promise_le_owed)

end Good

end DalService.Storage
