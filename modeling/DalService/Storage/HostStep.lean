import DalService.Foundation.Returns
import DalService.Storage.HostInvariant

/-!
# Every event keeps the invariant

One lemma per event of a group on a running node, and from them `Good.step`. For the replay of the
log its caller is bound by `Admissible`: no entry has the highest index of all, whose delete is a
write of its own, and a purge is not below the marker of the one before it.
-/

set_option autoImplicit false

namespace DalService.Storage

open Foundation Keyspace DalService.Partition

variable {V P : Type} [Record V Applied] [Record V (BitVec 128)] {ordered : Prop} {group : GroupId}
  {limits : ApplyDurabilityLimits} {logIdText : RaftLogId → String} {s after : Host V P}

/-- What the caller of the log store keeps to. -/
def Admissible (group : GroupId) (s : Host V P) : Event V P → Prop
  | .append entries => ∀ entry ∈ entries, entry.logId.index ≠ lastIndex
  | .appendSynced entries => ∀ entry ∈ entries, entry.logId.index ≠ lastIndex
  | .purge logId => ∀ log ∈ (s.disk group).log, next log.purged ≤ next (some logId)
  | _ => True

omit [Record V Applied] [Record V (BitVec 128)] in
theorem Host.logReady_iff : s.logReady ↔ s.tracker.failed = none ∧ s.logTask = .idle := by
  simp [Host.logReady, Host.healthy]

omit [Record V Applied] [Record V (BitVec 128)] in
theorem Host.follows_iff {entries : List (LogEntry P)} :
    s.follows group entries ↔
      ∃ log, (s.disk group).log = some log ∧ IndicesFrom (next log.lastLogId) entries := by
  rw [Host.follows]
  cases (s.disk group).log <;> simp

omit [Record V Applied] [Record V (BitVec 128)] in
/-- A data group without a projection epoch stores the implicit one. -/
theorem missingSearchEpoch_cases {d : GroupDisk V P} :
    missingSearchEpoch group d.searchEpoch = none ∨
      missingSearchEpoch group d.searchEpoch = some 1 ∧ d.searchProjectionEpoch = 1 := by
  cases group with
  | «meta» => exact .inl rfl
  | data partition =>
    cases hstored : d.searchEpoch with
    | none => exact .inr ⟨rfl, by simp [GroupDisk.searchProjectionEpoch, hstored]⟩
    | some epoch => exact .inl rfl

namespace Good

/-! ### The log store -/

omit [Record V (BitVec 128)]

theorem saveVote (h : Good ordered group s) {vote : Vote}
    (hstep : s.saveVote group vote = some after) : Good ordered group after := by
  rw [Host.saveVote] at hstep
  split_ifs at hstep with hready
  cases hstep
  obtain ⟨-, hidle⟩ := Host.logReady_iff.mp hready
  refine writeSynced rfl (h.current.mapLog (.refl _) (fun _ log applied _ _ hreplay ↦ ?_)
    (List.Subset.refl _)) (hidle ▸ trivial) (h.stateTask.of_eq rfl rfl rfl rfl)
  exact ⟨hreplay.keyed, hreplay.bounded, hreplay.consecutive, hreplay.purged_le,
    hreplay.committed_le, hreplay.kept⟩

theorem append (h : Good ordered group s) {entries : List (LogEntry P)}
    (hbound : ordered → ∀ entry ∈ entries, entry.logId.index ≠ lastIndex)
    (hstep : s.append group entries = some after) : Good ordered group after := by
  rw [Host.append] at hstep
  split_ifs at hstep with hguard
  cases hstep
  obtain ⟨hready, hfollows⟩ := Bool.and_eq_true_iff.mp hguard
  obtain ⟨-, hidle⟩ := Host.logReady_iff.mp hready
  obtain ⟨log, hlog, hindices⟩ := Host.follows_iff.mp hfollows
  refine h.write rfl ⟨.refl _, List.Subset.refl _, List.Subset.refl _⟩
    (h.current.mapLog (.of_subset ?_) (fun ho log' applied hlog' _ hreplay ↦ ?_)
      (List.Subset.refl _)) (hidle ▸ trivial) (h.stateTask.of_eq rfl rfl rfl rfl)
  · simp [Host.owed, Host.promise, Host.write]
  · obtain rfl : log = log' := Option.some.inj (hlog.symm.trans hlog')
    refine (hreplay.put hindices (hbound ho)).mono ?_
    simp [Host.owed, Host.promise, Host.write]

theorem appendSynced (h : Good ordered group s) {entries : List (LogEntry P)}
    (hbound : ordered → ∀ entry ∈ entries, entry.logId.index ≠ lastIndex)
    (hstep : s.appendSynced group entries = some after) : Good ordered group after := by
  rw [Host.appendSynced] at hstep
  split_ifs at hstep with hguard
  cases hstep
  obtain ⟨hready, hfollows⟩ := Bool.and_eq_true_iff.mp hguard
  obtain ⟨-, hidle⟩ := Host.logReady_iff.mp hready
  obtain ⟨log, hlog, hindices⟩ := Host.follows_iff.mp hfollows
  refine writeSynced rfl (h.current.mapLog (.refl _) (fun ho log' applied hlog' _ hreplay ↦ ?_)
    (List.Subset.refl _)) (hidle ▸ trivial) (h.stateTask.of_eq rfl rfl rfl rfl)
  obtain rfl : log = log' := Option.some.inj (hlog.symm.trans hlog')
  refine (hreplay.put hindices (hbound ho)).mono fun entry hentry ↦ ?_
  simp only [Host.owed, Host.promise, Host.writeSynced, List.mem_append] at hentry ⊢
  tauto

theorem truncate (h : Good ordered group s) {logId : RaftLogId}
    (hstep : s.truncate group logId = some after) : Good ordered group after := by
  rw [Host.truncate] at hstep
  split_ifs at hstep with hready
  cases hstep
  have hmarks : ∀ requests : List (Request P),
      requestMarks (requests.map (Request.truncate logId.index)) = requestMarks requests := by
    intro requests
    rw [requestMarks, requestMarks, List.filterMap_map]
    congr 2
    funext request
    cases request <;> rfl
  have hentries : ∀ (requests : List (Request P)) entry,
      entry ∈ requestEntries (requests.map (Request.truncate logId.index)) →
      entry ∈ requestEntries requests ∧ entry.logId.index < logId.index := by
    intro requests entry hentry
    simp only [requestEntries, List.mem_flatMap, List.mem_map] at hentry ⊢
    obtain ⟨_, ⟨request, hrequest, rfl⟩, hin⟩ := hentry
    cases request with
    | log entries =>
      obtain ⟨hold, hlt⟩ := List.mem_filter.mp hin
      exact ⟨⟨_, hrequest, hold⟩, of_decide_eq_true hlt⟩
    | state logId => cases hin
  have hacknowledged :
      ∀ entry, entry ∈ s.acknowledged.filter (fun e ↦ e.logId.index < logId.index) →
      entry ∈ s.acknowledged ∧ entry.logId.index < logId.index := by
    intro entry hentry
    obtain ⟨hold, hlt⟩ := List.mem_filter.mp hentry
    exact ⟨hold, of_decide_eq_true hlt⟩
  refine h.write rfl ⟨?_, fun entry hentry ↦ ?_, List.Subset.refl _⟩
    (h.current.mapLog (.of_subset ?_)
      (fun _ log applied _ _ hreplay ↦ hreplay.deleteRange fun entry hentry ↦ ?_)
      (List.Subset.refl _)) trivial (h.stateTask.of_eq rfl rfl rfl rfl)
  · exact .of_subset (by simp [Host.promise, hmarks, Host.write])
  · simp only [Host.promise, List.mem_append] at hentry ⊢
    exact hentry.imp (fun hin ↦ (hacknowledged entry hin).1) fun hin ↦ (hentries _ entry hin).1
  · simp [Host.owed, Host.promise, hmarks, Host.write]
  · simp only [Host.owed, Host.promise, List.mem_append] at hentry ⊢
    rcases hentry with (hin | hin) | hin
    · exact ⟨.inl (.inl (hacknowledged entry hin).1), (hacknowledged entry hin).2⟩
    · exact ⟨.inl (.inr (hentries _ entry hin).1), (hentries _ entry hin).2⟩
    · exact ⟨.inr (hentries _ entry hin).1, (hentries _ entry hin).2⟩

theorem truncateLast (h : Good ordered group s) (hstep : s.truncateLast group = some after) :
    Good ordered group after := by
  rw [Host.truncateLast] at hstep
  split at hstep
  · cases hstep
    exact writeSynced rfl (h.current.mapLog (.refl _)
      (fun _ log applied _ _ hreplay ↦ hreplay.delete_lastIndex) (List.Subset.refl _)) trivial
        (h.stateTask.of_eq rfl rfl rfl rfl)
  · cases hstep

theorem purge (h : Good ordered group s) {logId : RaftLogId}
    (hmonotone : ordered → ∀ log ∈ (s.disk group).log, next log.purged ≤ next (some logId))
    (hstep : s.purge group logIdText logId = some after) : Good ordered group after := by
  rw [Host.purge] at hstep
  split_ifs at hstep with hguard
  cases hstep
  obtain ⟨-, hreaches⟩ := Bool.and_eq_true_iff.mp hguard
  have hdurable : reaches logIdText s.tracker.durable logId = .ok true :=
    toOption_eq_some_iff.mp (of_decide_eq_true hreaches)
  obtain ⟨log, cf, applied, hlog, -⟩ := h.current.replayable
  refine writeSynced rfl (h.current.mapLog (.refl _) (fun ho log' applied hlog' hmarks hreplay ↦
    hreplay.purge (hmonotone ho log' hlog') ?_) (List.Subset.refl _)) ⟨_, by
      rw [GroupDisk.write, hlog]; rfl, rfl⟩ (h.stateTask.of_eq rfl rfl rfl rfl)
  have hmark := hmarks (next s.tracker.durable) (by simp [Host.owed, Host.promise])
  exact (lt_next_of_reaches hdurable).trans_le hmark

theorem purgeRange (h : Good ordered group s) (hstep : s.purgeRange group = some after) :
    Good ordered group after := by
  rw [Host.purgeRange] at hstep
  split at hstep
  · rename_i logId htask
    cases hstep
    have hmarked := h.logTask
    rw [htask] at hmarked
    obtain ⟨log, hlog, hpurged⟩ := hmarked
    refine h.write rfl ⟨.refl _, List.Subset.refl _, List.Subset.refl _⟩
      (h.current.mapLog (.refl _) (fun _ log' applied hlog' _ hreplay ↦ ?_) (List.Subset.refl _))
      ⟨log.deleteRange 0 logId.index, by rw [GroupDisk.write, hlog]; rfl, hpurged⟩
      (h.stateTask.of_eq rfl rfl rfl rfl)
    obtain rfl : log = log' := Option.some.inj (hlog.symm.trans hlog')
    exact hreplay.sweep hpurged
  · cases hstep

theorem purgeLast (h : Good ordered group s) (hstep : s.purgeLast group = some after) :
    Good ordered group after := by
  rw [Host.purgeLast] at hstep
  split at hstep
  · rename_i logId htask
    cases hstep
    have hmarked := h.logTask
    rw [htask] at hmarked
    obtain ⟨log, hlog, hpurged⟩ := hmarked
    refine writeSynced rfl (h.current.mapLog (.refl _) (fun _ log' applied hlog' _ hreplay ↦ ?_)
      (List.Subset.refl _)) trivial (h.stateTask.of_eq rfl rfl rfl rfl)
    obtain rfl : log = log' := Option.some.inj (hlog.symm.trans hlog')
    exact hreplay.delete_marked hpurged
  · cases hstep

/-! ### The worker -/

theorem flush (h : Good ordered group s) (hstep : s.flush = some after) :
    Good ordered group after := by
  rw [Host.flush] at hstep
  split_ifs at hstep with hguard
  cases hstep
  have hempty : s.completing = [] := by simpa using (Bool.and_eq_true_iff.mp hguard).2
  refine synced rfl (h.current.mono ⟨.of_subset ?_, ?_, List.Subset.refl _⟩) h.logTask h.stateTask
  · intro mark hmark
    simp only [Host.owed, Host.promise, hempty, requestMarks_nil, List.nil_append, List.append_nil,
      List.mem_cons, List.mem_append] at hmark ⊢
    tauto
  · simp [Host.owed, Host.promise, hempty]

theorem complete (h : Good ordered group s) (hstep : s.complete logIdText = some after) :
    Good ordered group after := by
  rw [Host.complete] at hstep
  split at hstep
  · cases hstep
  · rename_i entries rest hcompleting
    cases hstep
    refine h.keep rfl ⟨.of_subset ?_, ?_, List.Subset.refl _⟩
      (h.current.mono ⟨.of_subset ?_, ?_, List.Subset.refl _⟩) h.logTask h.stateTask
    all_goals simp [Host.owed, Host.promise, hcompleting]
  · rename_i logId rest hcompleting
    cases hstep
    have hdurable : next (s.tracker.durableAt logIdText logId).durable ≤
        max (next s.tracker.durable) (next (some logId)) := GroupState.next_durable_durableAt
    have hmarks : Dominated
        (next (s.tracker.durableAt logIdText logId).durable ::
          (requestMarks rest ++ taskMarks s.stateTask)) s.promise.marks := by
      intro mark hmark
      rcases List.mem_cons.mp hmark with rfl | hold
      · rcases le_max_iff.mp hdurable with hle | hle
        · exact ⟨_, List.mem_cons_self .., hle⟩
        · exact ⟨_, by simp [Host.promise, hcompleting], hle⟩
      · refine ⟨mark, ?_, le_rfl⟩
        simp only [Host.promise, hcompleting, requestMarks_cons_state, List.cons_append,
          List.mem_cons, List.mem_append] at hold ⊢
        tauto
    refine h.keep rfl ⟨hmarks, ?_, List.Subset.refl _⟩
      (h.current.mono ⟨fun mark hmark ↦ ?_, ?_, List.Subset.refl _⟩) h.logTask
      (h.stateTask.of_tracker fun hok ↦ ⟨GroupState.failed_of_durableAt hok, by simp⟩)
    · simp [Host.promise, hcompleting]
    · rcases List.mem_append.mp hmark with hin | hin
      · obtain ⟨above, habove, hle⟩ := hmarks mark hin
        exact ⟨above, List.mem_append_left _ habove, hle⟩
      · exact ⟨mark, List.mem_append_right _ hin, le_rfl⟩
    · simp [Host.owed, Host.promise, hcompleting]

omit [Record V Applied] in
theorem durable_cancelled (error : String) (tracker : GroupState) (requests : List (Request P)) :
    (Host.cancelled tracker error requests).durable = tracker.durable := by
  induction requests generalizing tracker with
  | nil => rfl
  | cons request rest ih =>
    cases request with
    | log entries => exact ih tracker
    | state logId => exact (ih _).trans (by simp [GroupState.cancel])

/-- What a failure leaves, whatever else it does to the view lock. -/
theorem fail_of (h : Good ordered group s) {error : String} {task : StateTask V P}
    (hmarks : taskMarks task ⊆ taskMarks s.stateTask)
    (hdoomed : taskDoomed task ⊆ taskDoomed s.stateTask)
    (htask : ∀ tracker : GroupState, tracker.failed ≠ none → TaskOk tracker (s.disk group) task) :
    Good ordered group { s.fail error with stateTask := task } := by
  have hdurable : next ((Host.cancelled s.tracker error s.unflushed).fail error).durable =
      next s.tracker.durable := by
    rw [GroupState.durable_fail, durable_cancelled]
  refine h.keep rfl ⟨.of_subset ?_, List.Subset.refl _, hdoomed⟩
    (h.current.mono ⟨.of_subset ?_, ?_, hdoomed⟩) h.logTask (htask _ (GroupState.failed_fail _))
  · intro mark hmark
    simp only [Host.promise, Host.fail, hdurable, List.mem_cons, List.mem_append] at hmark ⊢
    rcases hmark with hin | hin | hin
    · exact .inl hin
    · exact .inr (.inl hin)
    · exact .inr (.inr (hmarks hin))
  · intro mark hmark
    simp only [Host.owed, Host.promise, Host.fail, hdurable, requestMarks_nil, List.append_nil,
      List.mem_cons, List.mem_append] at hmark ⊢
    rcases hmark with hin | hin | hin
    · exact .inl (.inl hin)
    · exact .inl (.inr (.inl hin))
    · exact .inl (.inr (.inr (hmarks hin)))
  · simp [Host.owed, Host.promise, Host.fail]

theorem fail (h : Good ordered group s) (error : String) : Good ordered group (s.fail error) :=
  h.fail_of (List.Subset.refl _) (List.Subset.refl _) fun _ hfailed ↦
    h.stateTask.of_tracker fun hok ↦ absurd hok hfailed

/-! ### Applying and building -/

theorem applyBegin (h : Good ordered group s) {logId : RaftLogId} {membership : StoredMembership}
    {mutations : List (Mutation V)} {outbox : List Bytes} {entries bytes : ℕ}
    (hstep : s.applyBegin group limits logId membership mutations outbox entries bytes =
      some after) :
    Good ordered group after := by
  rw [Host.applyBegin] at hstep
  split at hstep
  · rename_i hidle
    split at hstep
    · rename_i tracker hbegin
      split_ifs at hstep with horder
      cases hstep
      obtain ⟨hfailed, hvisible, hdurable, -⟩ := GroupState.begin_eq_some hbegin
      have htracks := h.stateTask
      rw [hidle] at htracks
      refine h.retask (.of_subset ?_) (List.nil_subset _) ⟨fun _ ↦ ?_, ?_, _, _, _, _, rfl, ?_⟩
      · simp [hdurable, taskMarks]
      · rw [hvisible]
        exact htracks hfailed
      · exact (htracks hfailed).symm.trans_le horder
      · exact missingSearchEpoch_cases
    · cases hstep
  · cases hstep

theorem applyWrite (h : Good ordered group s) (hstep : s.applyWrite group logIdText = some after) :
    Good ordered group after := by
  rw [Host.applyWrite] at hstep
  split at hstep
  · rename_i logId batch hbatch
    split_ifs at hstep with hhealthy
    cases hstep
    have hfailed : s.tracker.failed = none := by simpa [Host.healthy] using hhealthy
    have htask := h.stateTask
    rw [hbatch] at htask
    obtain ⟨htracks, horder, membership, mutations, searchEpoch, outbox, rfl, -⟩ := htask
    have hvisible : (s.tracker.visibleAt logIdText logId).visible = some logId :=
      GroupState.visible_visibleAt ((htracks hfailed).trans_le horder)
    obtain ⟨log, cf, applied, hlog, hcf, happlied, -⟩ := h.current.replayable
    refine h.write rfl (Host.promise_le rfl rfl (.of_subset ?_) (List.nil_subset _))
      (h.current.apply horder (fun mark hmark ↦ ?_) ?_ (List.nil_subset _))
      (h.logTask.mapLog (f := fun log ↦ { log with committed := some logId }) (fun _ ↦ rfl) rfl)
      fun _ ↦ ?_
    · simp [hbatch, taskMarks]
    · simp only [Host.owed, Host.promise, Host.write, requestMarks_append_state, taskMarks, hbatch,
        GroupState.durable_visibleAt, List.mem_append, List.mem_singleton] at hmark ⊢
      rcases hmark with hin | hin | rfl
      · exact .inl ⟨mark, .inl hin, le_rfl⟩
      · exact .inl ⟨mark, .inr hin, le_rfl⟩
      · exact .inr le_rfl
    · simp [Host.owed, Host.promise, Host.write]
    · have hstate : (s.disk group).state (s.disk group).pointer = some cf := hcf
      have hactive : ((s.disk group).write (.apply (s.disk group).pointer (mutations ++ [putApplied
          { logId := some logId, membership := membership }]) logId searchEpoch
            outbox)).activeState =
          some (cf.writeAll (mutations ++ [putApplied
            { logId := some logId, membership := membership }])) := by
        simp [GroupDisk.activeState, GroupDisk.write, GroupDisk.writeState, hstate]
      rw [GroupDisk.appliedNext_eq hactive (readApplied_writeAll cf mutations _)]
      exact congrArg next hvisible
  · cases hstep

theorem buildBegin (h : Good ordered group s) (hstep : s.buildBegin group = some after) :
    Good ordered group after := by
  rw [Host.buildBegin] at hstep
  split at hstep
  · rename_i cf hidle hcf
    split at hstep
    · rename_i applied happlied
      cases hstep
      have htracks := h.stateTask
      rw [hidle] at htracks
      refine h.retask (.of_subset ?_) (List.nil_subset _) ⟨htracks, cf, hcf, happlied⟩
      simp [taskMarks]
    · cases hstep
  · cases hstep

theorem buildCapture (h : Good ordered group s)
    (hstep : s.buildCapture group logIdText = some after) : Good ordered group after := by
  rw [Host.buildCapture] at hstep
  split at hstep
  · rename_i applied cf hbuilding hcf
    split_ifs at hstep
    cases hstep
    have htask := h.stateTask
    rw [hbuilding] at htask
    refine h.retask (.of_subset ?_) (List.nil_subset _) htask.1
    simp [taskMarks]
  · cases hstep

/-! ### Installing -/

theorem install (h : Good ordered group s) {snapshot : Snapshot V}
    (hstep : s.install group logIdText snapshot = some after) : Good ordered group after := by
  rw [Host.install] at hstep
  split at hstep
  · rename_i hidle
    dsimp only at hstep
    split_ifs at hstep with hguard
    cases hstep
    obtain ⟨hvalid, hroom⟩ := hguard
    obtain ⟨hfailed, hvisible, -⟩ :=
      GroupState.next_le_of_validateInstall (toOption_eq_some_iff.mp hvalid)
    have htracks := h.stateTask
    rw [hidle] at htracks
    refine writeSynced rfl (h.current.numberNext rfl hroom (.of_subset ?_) (List.Subset.refl _) ?_)
      (h.logTask.of_eq rfl) ⟨fun _ ↦ hvisible, ?_, rfl⟩
    · simp [Host.owed, Host.promise, Host.writeSynced, taskMarks, hidle]
    · simp [Host.owed, taskDoomed]
    · exact (GroupDisk.appliedNext_congr rfl).trans_le ((htracks hfailed).symm.trans_le hvisible)
  · cases hstep

theorem createStaging (h : Good ordered group s) (hstep : s.createStaging group = some after) :
    Good ordered group after := by
  rw [Host.createStaging] at hstep
  split at hstep
  · rename_i snapshot generation hnumbered
    split_ifs at hstep
    cases hstep
    have hdoomed : taskDoomed s.stateTask = [some generation] := by rw [hnumbered]; rfl
    have hmarks : taskMarks s.stateTask = [] := by rw [hnumbered]; rfl
    have hmem : some generation ∈ s.owed.doomed := by simp [Host.owed, hdoomed]
    have htask := h.stateTask
    rw [hnumbered] at htask
    have hpromise : Host.promise { s.change group (.createState (some generation)) with
        stateTask := .staging snapshot generation [] snapshot.records none } |>.Le s.promise :=
      Host.promise_le rfl rfl (.of_subset (hmarks ▸ List.Subset.refl _))
        (hdoomed ▸ List.Subset.refl _)
    have hunused : (s.disk group).pointer ≠ some generation := fun hsame ↦
      h.current.unused (hsame ▸ hmem)
    refine h.change rfl
      (fun d hd ↦ (hd.updateState (by simp [Host.promise, hdoomed]) _).mono hpromise)
      ((h.current.updateState hmem _).mono (Host.owed_le hpromise rfl)) (h.logTask.of_eq rfl)
      ⟨⟨htask.1, ?_, htask.2.2⟩, [], [], rfl, rfl, .nil, rfl, ?_⟩
    · refine (GroupDisk.appliedNext_congr ?_).trans_le htask.2.1
      exact Function.update_of_ne hunused _ _
    · exact Function.update_self _ _ _
  · cases hstep

theorem put (h : Good ordered group s) (hstep : s.put = some after) : Good ordered group after := by
  rw [Host.put] at hstep
  split at hstep
  · rename_i snapshot generation buffer key value left lastKey hstaging
    split_ifs at hstep with hlast
    cases hstep
    have htask := h.stateTask
    rw [hstaging] at htask
    obtain ⟨hahead, consumed, written, hrecords, hwritten, hascend, hlastKey, hstate⟩ := htask
    refine h.retask (.of_subset ?_) ?_
      ⟨hahead, consumed ++ [(key, value)], written, ?_, ?_, ?_, ?_, hstate⟩
    · rw [hstaging]
      exact List.Subset.refl _
    · rw [hstaging]
      exact List.Subset.refl _
    · simpa using hrecords
    · rw [← List.append_assoc, hwritten]
      simp [putAll]
    · subst hlastKey
      exact hascend.concat hlast
    · simp
  · cases hstep

/-- A batch is staged in a generation, which is not in use. -/
theorem stage_of (h : Good ordered group s) {generation : UInt64} {mutations : List (Mutation V)}
    {task : StateTask V P} (hdoomed : taskDoomed s.stateTask = [some generation])
    (hmarks : taskMarks task ⊆ taskMarks s.stateTask)
    (hdoomed' : taskDoomed task = [some generation])
    (htask : ∀ d : GroupDisk V P, d.activeState = (s.disk group).activeState →
      d.generation = (s.disk group).generation → d.state (some generation) =
        ((s.disk group).state (some generation)).map (fun cf ↦ cf.writeAll mutations) →
      TaskOk s.tracker d task) :
    Good ordered group { s.write group (.stage generation mutations) with stateTask := task } := by
  have hmem : some generation ∈ s.owed.doomed := by simp [Host.owed, hdoomed]
  have hunused : (s.disk group).pointer ≠ some generation := fun hsame ↦
    h.current.unused (hsame ▸ hmem)
  have hpromise :
      Host.promise { s.write group (.stage generation mutations) with stateTask := task }
      |>.Le s.promise := by
    refine Host.promise_le rfl rfl (.of_subset (List.cons_subset_cons _ hmarks)) ?_
    rw [hdoomed]
    exact hdoomed' ▸ List.Subset.refl _
  exact h.write rfl hpromise ((h.current.writeState hmem _).mono (Host.owed_le hpromise rfl))
    (h.logTask.of_eq rfl)
      (htask _ (Function.update_of_ne hunused _ _) rfl (Function.update_self ..))

theorem flushBatch (h : Good ordered group s) (hstep : s.flushBatch group = some after) :
    Good ordered group after := by
  rw [Host.flushBatch] at hstep
  split at hstep
  · rename_i snapshot generation buffer left lastKey hstaging
    cases hstep
    have htask := h.stateTask
    rw [hstaging] at htask
    obtain ⟨hahead, consumed, written, hrecords, hwritten, hascend, hlastKey, hstate⟩ := htask
    refine h.stage_of (by rw [hstaging]; rfl) (List.nil_subset _) rfl
      fun d hactive hgeneration hcf ↦
        ⟨hahead.of_eq hactive hgeneration, consumed, written ++ buffer,
        hrecords, ?_, hascend, hlastKey, ?_⟩
    · rw [List.append_nil, hwritten]
    · rw [hcf, hstate, Option.map_some, ColumnFamily.writeAll_append]
  · cases hstep

theorem finish (h : Good ordered group s) (hstep : s.finish group = some after) :
    Good ordered group after := by
  rw [Host.finish] at hstep
  split at hstep
  · rename_i snapshot generation buffer lastKey hstaging
    cases hstep
    have htask := h.stateTask
    rw [hstaging] at htask
    obtain ⟨hahead, consumed, written, hrecords, hwritten, hascend, -, hstate⟩ := htask
    rw [List.append_nil] at hrecords
    subst hrecords
    refine h.stage_of (by rw [hstaging]; rfl) (List.nil_subset _) rfl
      fun d hactive hgeneration hcf ↦ ⟨hahead.of_eq hactive hgeneration, ?_, hascend⟩
    rw [hcf, hstate, Option.map_some, Snapshot.state, ← hwritten, List.append_assoc,
      ← ColumnFamily.writeAll_append]
  · cases hstep

theorem flushWal (h : Good ordered group s) (hstep : s.flushWal = some after) :
    Good ordered group after := by
  rw [Host.flushWal] at hstep
  split at hstep
  · rename_i snapshot generation hstaged
    cases hstep
    have htask := h.stateTask
    rw [hstaged] at htask
    have hpromise : Host.promise { s with
        database := s.database.sync, stateTask := .flushed snapshot generation } |>.Le s.promise :=
      Host.promise_le rfl rfl (.of_subset (by rw [hstaged]; exact List.Subset.refl _))
        (by rw [hstaged]; exact List.Subset.refl _)
    exact synced rfl (h.current.mono (Host.owed_le hpromise rfl)) h.logTask htask
  · cases hstep

variable [Record V (BitVec 128)]

theorem switch (h : Good ordered group s) (hstep : s.switch group = some after) :
    Good ordered group after := by
  rw [Host.switch] at hstep
  split at hstep
  · rename_i snapshot generation hflushed
    simp only [Option.bind_eq_bind, Option.bind_eq_some_iff] at hstep
    obtain ⟨cf, hcf, epoch, -, searchEpoch, -, hstep⟩ := hstep
    split_ifs at hstep
    cases hstep
    have htask := h.stateTask
    rw [hflushed] at htask
    obtain ⟨⟨hprecedes, hforward, hgeneration⟩, hstaged, hascend⟩ := htask
    have hunused : (s.disk group).pointer ≠ some generation := fun hsame ↦
      h.current.unused (by simp [Host.owed, hflushed, taskDoomed, hsame])
    refine writeSynced rfl (h.current.switch hstaged hforward (by simp [hgeneration])
      (fun mark hmark ↦ ?_) (List.Subset.refl _) ?_) (h.logTask.of_eq rfl)
      ⟨hprecedes, hstaged, hascend⟩
    · simp only [Host.owed, Host.promise, Host.writeSynced, taskMarks, hflushed, List.mem_cons,
        List.mem_append, List.append_nil] at hmark ⊢
      rcases hmark with (hin | hin | hin) | hin
      · exact .inl ⟨mark, .inl (.inl hin), le_rfl⟩
      · exact .inl ⟨mark, .inl (.inr hin), le_rfl⟩
      · rcases hin with rfl | hin
        · exact .inr le_rfl
        · cases hin
      · exact .inl ⟨mark, .inr hin, le_rfl⟩
    · simp only [Host.owed, taskDoomed, List.mem_singleton]
      exact hunused.symm
  · cases hstep

omit [Record V (BitVec 128)]

/-- A generation that an install may drop is dropped. -/
theorem drop_of (h : Good ordered group s) {generation : Option UInt64} {task : StateTask V P}
    (hdoomed : generation ∈ taskDoomed s.stateTask)
    (hmarks : taskMarks task ⊆ taskMarks s.stateTask) (hdoomed' : taskDoomed task = [])
    (htask : ∀ d : GroupDisk V P, d.activeState = (s.disk group).activeState →
      TaskOk s.tracker d task) :
    Good ordered group { s.change group (.dropState generation) with stateTask := task } := by
  have hunused : (s.disk group).pointer ≠ generation := fun hsame ↦
    h.current.unused (hsame ▸ hdoomed)
  have hpromise : Host.promise { s.change group (.dropState generation) with stateTask := task }
      |>.Le s.promise := by
    refine Host.promise_le rfl rfl (.of_subset (List.cons_subset_cons _ hmarks)) ?_
    exact hdoomed' ▸ List.nil_subset _
  exact h.change rfl (fun d hd ↦ (hd.updateState hdoomed _).mono hpromise)
    ((h.current.updateState hdoomed _).mono (Host.owed_le hpromise rfl)) (h.logTask.of_eq rfl)
    (htask _ (Function.update_of_ne hunused _ _))

theorem retire (h : Good ordered group s) {dropped : Bool}
    (hstep : s.retire group dropped = some after) : Good ordered group after := by
  rw [Host.retire] at hstep
  split at hstep
  · rename_i snapshot old hswitched
    cases hstep
    have htask := h.stateTask
    rw [hswitched] at htask
    have hmarks : taskMarks (.retired snapshot : StateTask V P) ⊆ taskMarks s.stateTask := by
      rw [hswitched]
      exact List.Subset.refl _
    cases dropped with
    | true =>
      exact h.drop_of (by simp [hswitched, taskDoomed]) hmarks rfl
        fun d hactive ↦ ⟨htask.1, hactive.trans htask.2.1, htask.2.2⟩
    | false =>
      exact h.retask (.of_subset (List.cons_subset_cons _ hmarks)) (List.nil_subset _) htask
  · cases hstep

theorem recordInstalled (h : Good ordered group s) {epoch : UInt64}
    (hstep : s.recordInstalled group logIdText epoch = some after) : Good ordered group after := by
  rw [Host.recordInstalled] at hstep
  split at hstep
  · rename_i snapshot hretired
    cases hstep
    have htask := h.stateTask
    rw [hretired] at htask
    obtain ⟨hprecedes, hactive, -⟩ := htask
    refine h.retask (fun mark hmark ↦ ?_) (List.nil_subset _) fun hok ↦ ?_
    · simp only [taskMarks, List.mem_singleton] at hmark
      subst hmark
      have hdurable : next (s.tracker.installed logIdText snapshot.applied.logId (group != .meta)
          epoch).durable ≤ max (next s.tracker.durable) (next snapshot.applied.logId) :=
        GroupState.next_durable_installed
      rcases le_max_iff.mp hdurable with hle | hle
      · exact ⟨_, List.mem_cons_self .., hle⟩
      · exact ⟨_, by simp [hretired, taskMarks], hle⟩
    · obtain ⟨hfailed, hvisible⟩ := GroupState.next_visible_installed hok
      have happlied := GroupDisk.appliedNext_eq hactive (readApplied_writeAll _ _ snapshot.applied)
      rw [hvisible, happlied]
      exact max_eq_right (hprecedes hfailed)
  · cases hstep

theorem abandon (h : Good ordered group s) {error : String} {dropped : Bool}
    (hstep : s.abandon group error dropped = some after) : Good ordered group after := by
  have hkept : Good ordered group { s.fail error with stateTask := .failed } :=
    h.fail_of (List.nil_subset _) (List.nil_subset _) fun _ hfailed ↦ hfailed
  have hdropped : ∀ generation, Host.stagedGeneration s.stateTask = some generation →
      Good ordered group { (s.change group (.dropState (some generation))).fail error with
        stateTask := .failed } := by
    intro generation hstaged
    have hdoomed : some generation ∈ taskDoomed s.stateTask := by
      cases htask : s.stateTask <;> simp_all [Host.stagedGeneration, taskDoomed]
    exact (h.fail error).drop_of hdoomed (List.nil_subset _) rfl fun _ _ ↦ GroupState.failed_fail _
  rw [Host.abandon] at hstep
  cases hstaged : Host.stagedGeneration s.stateTask with
  | none =>
    simp only [hstaged] at hstep
    split_ifs at hstep
    exact Option.some.inj hstep ▸ hkept
  | some generation =>
    cases dropped with
    | true =>
      simp only [hstaged, if_true] at hstep
      split_ifs at hstep
      exact Option.some.inj hstep ▸ hdropped generation hstaged
    | false =>
      simp only [hstaged, Bool.false_eq_true, if_false] at hstep
      split_ifs at hstep
      exact Option.some.inj hstep ▸ hkept

/-! ### The rest -/

theorem write_of_eq (h : Good ordered group s) {w : Write V P}
    (hlog : ((s.disk group).write w).log = (s.disk group).log)
    (hstate : ((s.disk group).write w).state = (s.disk group).state)
    (hpointer : ((s.disk group).write w).pointer = (s.disk group).pointer)
    (hgeneration : ((s.disk group).write w).generation = (s.disk group).generation)
    (hepoch : ((s.disk group).write w).searchProjectionEpoch =
      (s.disk group).searchProjectionEpoch) :
    Good ordered group (s.write group w) := by
  refine h.write rfl ⟨.refl _, List.Subset.refl _, List.Subset.refl _⟩ ?_ (h.logTask.of_eq hlog)
    (h.stateTask.of_eq hstate hpointer hgeneration hepoch)
  refine h.current.of_eq hlog ?_ hpointer hgeneration
  rw [GroupDisk.activeState, GroupDisk.activeState, hstate, hpointer]

theorem foreign (h : Good ordered group s) {other : GroupId} (hother : other ≠ group)
    (w : Write V P) : Good ordered group (s.write other w) := by
  have hdisk : (s.write other w).disk group = s.disk group := by
    rw [Host.disk, Host.write, Journal.current_write]
    exact Disk.group_write_of_ne hother.symm
  refine ⟨h.images.write ?_, hdisk ▸ h.current, hdisk ▸ h.logTask, hdisk ▸ h.stateTask⟩
  rw [show (Journaled.write (GroupId × Change) s.database.current (other, w)).group group =
    s.database.current.group group from Disk.group_write_of_ne hother.symm]
  exact h.images.current

theorem foreignChange (h : Good ordered group s) {other : GroupId} (hother : other ≠ group)
    (c : Change) : Good ordered group (s.change other c) := by
  have hdisk : (s.change other c).disk group = s.disk group := by
    rw [Host.disk, Host.change, Journal.current_change]
    exact Disk.group_change_of_ne hother.symm
  refine ⟨h.images.change fun d _ hd ↦ ?_, hdisk ▸ h.current, hdisk ▸ h.logTask,
    hdisk ▸ h.stateTask⟩
  rw [show (Journaled.change (GroupId × Write V P) d (other, c)).group group = d.group group
    from Disk.group_change_of_ne hother.symm]
  exact hd

/-- A group is opened on what is stored for it, where its log can be replayed. -/
theorem opened {d : Disk V P} {epoch : UInt64} {acknowledged : List (LogEntry P)}
    {built : List (Snapshot V)} {promise : Promise P}
    (hsound : Sound ordered promise (d.group group)) (hentries : acknowledged ⊆ promise.entries)
    (hopened : Host.opened group d epoch acknowledged built = some after) :
    Good ordered group after := by
  obtain ⟨log, cf, applied, hlog, hcf, happlied, -, hreplay⟩ := hsound.replayable
  simp only [Host.opened, hlog, hcf, happlied, Option.some.injEq] at hopened
  subst hopened
  have hnow : ∀ weak : Promise P, (∀ mark ∈ weak.marks, mark ≤ next applied.logId) →
      weak.entries ⊆ acknowledged → weak.doomed = [] → Sound ordered weak (d.group group) := by
    intro weak hmarks hkept hdoomed
    exact ⟨⟨log, cf, applied, hlog, hcf, happlied, hmarks,
      fun ho ↦ (hreplay ho).mono (List.Subset.trans hkept hentries)⟩, by simp [hdoomed],
      hsound.numbered⟩
  refine ⟨Journal.All.opened (hnow _ ?_ ?_ rfl), hnow _ ?_ ?_ rfl, trivial, fun _ ↦ ?_⟩
  · simp [Host.promise, GroupState.new, taskMarks]
  · simp [Host.promise]
  · simp [Host.owed, Host.promise, GroupState.new, taskMarks]
  · simp [Host.owed, Host.promise]
  · exact (GroupDisk.appliedNext_eq hcf happlied).symm

theorem crash (h : Good ordered group s) {kept : ℕ} {epoch : UInt64}
    (hstep : s.crash group kept epoch = some after) : Good ordered group after := by
  rw [Host.crash] at hstep
  split_ifs at hstep with hkept
  have hsound := h.images.holds _ ⟨kept, hkept.1, hkept.2, rfl⟩
  exact opened (hsound.cleanupSnapshotCfs group) (List.subset_append_left _ _) hstep

variable [Record V (BitVec 128)]

/-- Every event keeps the invariant. -/
theorem step (h : Good ordered group s) {event : Event V P}
    (hadmissible : ordered → Admissible group s event)
    (hstep : s.step group limits logIdText event = some after) : Good ordered group after := by
  cases event with
  | saveVote vote => exact h.saveVote hstep
  | append entries => exact h.append hadmissible hstep
  | appendSynced entries => exact h.appendSynced hadmissible hstep
  | truncate logId => exact h.truncate hstep
  | truncateLast => exact h.truncateLast hstep
  | purge logId => exact h.purge hadmissible hstep
  | purgeRange => exact h.purgeRange hstep
  | purgeLast => exact h.purgeLast hstep
  | flush => exact h.flush hstep
  | complete => exact h.complete hstep
  | fail error => exact Option.some.inj hstep ▸ h.fail error
  | applyBegin logId membership mutations outbox entries bytes => exact h.applyBegin hstep
  | applyWrite => exact h.applyWrite hstep
  | buildBegin => exact h.buildBegin hstep
  | buildCapture => exact h.buildCapture hstep
  | install snapshot => exact h.install hstep
  | createStaging => exact h.createStaging hstep
  | put => exact h.put hstep
  | flushBatch => exact h.flushBatch hstep
  | finish => exact h.finish hstep
  | flushWal => exact h.flushWal hstep
  | switch => exact h.switch hstep
  | retire dropped => exact h.retire hstep
  | recordInstalled epoch => exact h.recordInstalled hstep
  | abandon error dropped => exact h.abandon hstep
  | consumer mutation | prune rows =>
    exact Option.some.inj hstep ▸ h.write_of_eq rfl rfl rfl rfl rfl
  | sync => exact Option.some.inj hstep ▸ synced rfl h.current h.logTask h.stateTask
  | foreign other w =>
    rw [Host.step] at hstep
    split_ifs at hstep with hother
    exact Option.some.inj hstep ▸ h.foreign hother w
  | foreignChange other c =>
    rw [Host.step] at hstep
    split_ifs at hstep with hother
    exact Option.some.inj hstep ▸ h.foreignChange hother c
  | crash kept epoch => exact h.crash hstep

end Good

end DalService.Storage
