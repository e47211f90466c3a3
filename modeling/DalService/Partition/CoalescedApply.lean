import DalService.Partition.Apply

/-!
# Coalesced apply refines per-entry apply

`replay` is what a list of entries does to the records: the results, the mutations one after
another, and the membership at the end. `applyAtOnce` is the abstract apply: it replays the entries
and writes every mutation with the last applied position, or refuses them when a user key is too
long for the outbox. Outbox rows are left out of it (`GroupStore.withoutOutbox`): a chunk stamps
them with its last log id.

Applying two lists one after the other is applying them together (`applyAtOnce_append`). Both paths
of the code are the abstract apply: writing after every entry (`applyPerEntry_eq_applyAtOnce`),
deciding a chunk against an overlay and writing once (`applyCoalescedChunk_eq_applyAtOnce`), and
cutting the entries into chunks (`applyCoalesced_eq_applyAtOnce`). `coalesced_refines_per_entry`
puts them together, also for entries delivered again after a stop.
-/

set_option autoImplicit false

namespace DalService.Partition

open Foundation Keyspace DataStateMachine

/-! ### Records that evaluation reads -/

/-- The records of two column families agree but for the applied position. -/
def SameRecords (first second : DataState) : Prop :=
  ∀ key, key ≠ raftAppliedKey → first[key]? = second[key]?

namespace SameRecords

variable {first second : DataState}

theorem writeAll (h : SameRecords first second) (batch : List StateMutation) :
    SameRecords (first.writeAll batch) (second.writeAll batch) := by
  intro key hkey
  rw [getElem?_writeAll, getElem?_writeAll, h key hkey]

theorem put_applied (cf : DataState) (applied : Applied) :
    SameRecords (cf.writeAll [.put raftAppliedKey (.raftApplied applied)]) cf := by
  intro key hkey
  rw [getElem?_writeAll]
  simp [lastWrite, hkey.symm]

theorem user (h : SameRecords first second) (key : Bytes) : first.user key = second.user key := by
  rw [DataState.user, h _ (userKey_ne_internal key _)]
  rfl

theorem seq (h : SameRecords first second) (clientId : ClientId) :
    first.seq clientId = second.seq clientId := by
  rw [DataState.seq, h _ (seqKey_ne_internal clientId _)]
  rfl

theorem recoveryEpoch (h : SameRecords first second) :
    first.recoveryEpoch = second.recoveryEpoch := by
  rw [DataState.recoveryEpoch, h _ (by decide)]
  rfl

end SameRecords

variable (xxh3 : Bytes → BitVec 128) {store mid : GroupStore} {membership : StoredMembership}
  {entries first : List Entry} {results : List ApplyResult}

theorem outcome_congr {first second : DataState} (h : SameRecords first second) (req : DataRequest)
    (logIndex : UInt64) : outcome xxh3 first req logIndex = outcome xxh3 second req logIndex := by
  unfold outcome
  rw [h.recoveryEpoch, h.seq, h.user]

/-! ### Replaying entries -/

/-- The result of one entry, its mutations and the membership after it. -/
def replayEntry (cf : DataState) (membership : StoredMembership) (entry : Entry) :
    ApplyResult × List StateMutation × StoredMembership :=
  match entry.payload with
  | .blank => (.noOp, [], membership)
  | .normal req =>
    ((outcome xxh3 cf req entry.logId.index).1,
      (outcome xxh3 cf req entry.logId.index).2, membership)
  | .membership m => (.noOp, [], { logId := some entry.logId, membership := m })

/-- What a list of entries does: each result, every mutation in order, and the last membership. -/
structure Replay where
  results : List ApplyResult
  mutations : List StateMutation
  membership : StoredMembership

def replay (cf : DataState) (membership : StoredMembership) : List Entry → Replay
  | [] => { results := [], mutations := [], membership := membership }
  | entry :: rest =>
    let (result, mutations, next) := replayEntry xxh3 cf membership entry
    let tail := replay (cf.writeAll mutations) next rest
    { results := result :: tail.results, mutations := mutations ++ tail.mutations,
      membership := tail.membership }

theorem length_results_replay (cf : DataState) (membership : StoredMembership)
    (entries : List Entry) :
    (replay xxh3 cf membership entries).results.length = entries.length := by
  induction entries generalizing cf membership with
  | nil => rfl
  | cons entry rest ih => exact congrArg Nat.succ (ih _ _)

theorem evaluateEntry_eq {cf : DataState} (hcf : WellTyped cf) (membership : StoredMembership)
    (entry : Entry) :
    evaluateEntry xxh3 cf.reader membership entry = .ok (replayEntry xxh3 cf membership entry) := by
  unfold evaluateEntry replayEntry
  cases entry.payload with
  | blank | membership => rfl
  | normal req =>
    simp only
    rw [evaluate_eq xxh3 hcf]
    rfl

theorem keyed_replayEntry {cf : DataState} {entry : Entry}
    {m : StateMutation} (hm : m ∈ (replayEntry xxh3 cf membership entry).2.1) {value : DataValue}
    (hvalue : m.value = some value) : Keyed m.key value := by
  unfold replayEntry at hm
  cases hpayload : entry.payload with
  | blank | membership => simp [hpayload] at hm
  | normal req =>
    simp only [hpayload] at hm
    exact keyed_outcome xxh3 hm hvalue

theorem keyed_replay {cf : DataState}
    {m : StateMutation} (hm : m ∈ (replay xxh3 cf membership entries).mutations)
    {value : DataValue} (hvalue : m.value = some value) : Keyed m.key value := by
  induction entries generalizing cf membership with
  | nil => simp [replay] at hm
  | cons entry rest ih =>
    rcases List.mem_append.mp hm with hfirst | hrest
    · exact keyed_replayEntry xxh3 hfirst hvalue
    · exact ih hrest

theorem wellTyped_replay {cf : DataState} (hcf : WellTyped cf) (membership : StoredMembership)
    (entries : List Entry) :
    WellTyped (cf.writeAll (replay xxh3 cf membership entries).mutations) :=
  hcf.writeAll fun _ hm _ hvalue ↦ keyed_replay xxh3 hm hvalue

theorem replay_congr {first second : DataState} (h : SameRecords first second)
    (membership : StoredMembership) (entries : List Entry) :
    replay xxh3 first membership entries = replay xxh3 second membership entries := by
  induction entries generalizing first second membership with
  | nil => rfl
  | cons entry rest ih =>
    have hentry : replayEntry xxh3 first membership entry =
        replayEntry xxh3 second membership entry := by
      unfold replayEntry
      cases entry.payload with
      | blank | membership => rfl
      | normal req => simp only [outcome_congr xxh3 h]
    simp only [replay, hentry, ih (h.writeAll _)]

theorem replay_append (cf : DataState) (membership : StoredMembership) (first second : List Entry) :
    replay xxh3 cf membership (first ++ second) =
      { results := (replay xxh3 cf membership first).results ++
          (replay xxh3 (cf.writeAll (replay xxh3 cf membership first).mutations)
            (replay xxh3 cf membership first).membership second).results
        mutations := (replay xxh3 cf membership first).mutations ++
          (replay xxh3 (cf.writeAll (replay xxh3 cf membership first).mutations)
            (replay xxh3 cf membership first).membership second).mutations
        membership := (replay xxh3 (cf.writeAll (replay xxh3 cf membership first).mutations)
          (replay xxh3 cf membership first).membership second).membership } := by
  induction first generalizing cf membership with
  | nil => rfl
  | cons entry rest ih =>
    simp only [List.cons_append, replay, ih, ColumnFamily.writeAll_append, List.append_assoc]

/-! ### The abstract apply -/

/-- The store without its outbox rows. -/
def GroupStore.withoutOutbox (store : GroupStore) : GroupStore := { store with outbox := ∅ }

/-- Every user key of a batch fits an outbox row. -/
def fits (mutations : List StateMutation) : Bool :=
  mutations.all fun m ↦ (stripUserTag m.key).all (·.length < 2 ^ 32)

theorem fits_append (first second : List StateMutation) :
    fits (first ++ second) = (fits first && fits second) := List.all_append

/-- The applied record of a column family. -/
def appliedOf (cf : DataState) : Applied :=
  (cf[raftAppliedKey]?.bind Record.decode).getD
    { logId := none, membership := StoredMembership.default }

theorem readApplied_eq {cf : DataState} (hcf : WellTyped cf) :
    readApplied cf = .ok (appliedOf cf) := by
  unfold readApplied
  rw [readState_eq fun value h ↦ by
    obtain ⟨applied, rfl⟩ := hcf.raftApplied_decode h
    exact ⟨applied, rfl⟩]
  rfl

theorem appliedOf_writeAll (cf : DataState) (batch : List StateMutation) (applied : Applied) :
    appliedOf (cf.writeAll (batch ++ [.put raftAppliedKey (.raftApplied applied)])) = applied := by
  rw [appliedOf, getElem?_writeAll, lastWrite_append]
  simp [lastWrite, Record.decode]

/-- The last log id of a list of entries. -/
def lastLogId (entries : List Entry) : Option RaftLogId := entries.getLast?.map Entry.logId

/-- Write a batch with the applied position, if there is one. -/
def commit (store : GroupStore) (mutations : List StateMutation) (membership : StoredMembership) :
    Option RaftLogId → GroupStore
  | none => store.withoutOutbox
  | some logId =>
    { state := store.state.writeAll (mutations ++
        [.put raftAppliedKey (.raftApplied { logId := some logId, membership := membership })])
      committed := some logId
      searchEpoch := some (store.searchEpoch.getD 1)
      outbox := ∅ }

/-- Replay entries from a membership and write every mutation at once. -/
def applyFrom (store : GroupStore) (membership : StoredMembership) (entries : List Entry) :
    Result (List ApplyResult × GroupStore) :=
  let replayed := replay xxh3 store.state membership entries
  if fits replayed.mutations then
    .ok (replayed.results,
      commit store replayed.mutations replayed.membership (lastLogId entries))
  else .error (.search "user key is too large for search outbox")

/-- The abstract apply of a list of entries. -/
def applyAtOnce (store : GroupStore) (entries : List Entry) :
    Result (List ApplyResult × GroupStore) :=
  applyFrom xxh3 store (appliedOf store.state).membership entries

theorem lastLogId_append (first second : List Entry) :
    lastLogId (first ++ second) = (lastLogId second).or (lastLogId first) := by
  rw [lastLogId, List.getLast?_append, Option.map_or]
  rfl

theorem lastLogId_cons_ne_none (entry : Entry) (rest : List Entry) :
    lastLogId (entry :: rest) ≠ none := by
  rw [lastLogId, Ne, Option.map_eq_none_iff, List.getLast?_eq_none_iff]
  exact List.cons_ne_nil entry rest

/-- Committing the replay of some entries leaves the records their mutations leave. -/
theorem sameRecords_commit (store : GroupStore) (membership : StoredMembership)
    (entries : List Entry) :
    SameRecords
      (commit store (replay xxh3 store.state membership entries).mutations
        (replay xxh3 store.state membership entries).membership (lastLogId entries)).state
      (store.state.writeAll (replay xxh3 store.state membership entries).mutations) := by
  cases hlast : lastLogId entries with
  | none =>
    cases entries with
    | nil => exact fun _ _ ↦ rfl
    | cons entry rest => exact absurd hlast (lastLogId_cons_ne_none entry rest)
  | some logId =>
    rw [commit, ColumnFamily.writeAll_append]
    exact SameRecords.put_applied _ _

/-- Two commits one after the other are one commit. -/
theorem commit_commit (store : GroupStore) (membership : StoredMembership)
    (first second : List Entry) :
    let one := replay xxh3 store.state membership first
    let two := replay xxh3 (store.state.writeAll one.mutations) one.membership second
    commit (commit store one.mutations one.membership (lastLogId first)) two.mutations
        two.membership (lastLogId second) =
      commit store (one.mutations ++ two.mutations) two.membership
        (lastLogId (first ++ second)) := by
  intro one two
  rw [lastLogId_append]
  cases hfirst : lastLogId first with
  | none =>
    have hnil : first = [] := by
      cases first with
      | nil => rfl
      | cons entry rest => exact absurd hfirst (lastLogId_cons_ne_none entry rest)
    subst hnil
    cases lastLogId second <;> rfl
  | some firstId =>
    cases hsecond : lastLogId second with
    | none =>
      have hnil : second = [] := by
        cases second with
        | nil => rfl
        | cons entry rest => exact absurd hsecond (lastLogId_cons_ne_none entry rest)
      subst hnil
      simp only [two, replay, List.append_nil, Option.none_or]
      rfl
    | some secondId =>
      simp only [commit, Option.some_or, Option.getD_some, ← ColumnFamily.writeAll_append,
        List.append_assoc, List.cons_append, List.nil_append]
      rw [ColumnFamily.writeAll_append, writeAll_cons_of_overwritten,
        ← ColumnFamily.writeAll_append]
      rfl

/-- Assumes: the first entries are applied. Applying the others from there is applying all of them
together. -/
theorem applyFrom_append
    (hfirst : applyFrom xxh3 store membership first = .ok (results, mid)) (second : List Entry) :
    applyFrom xxh3 store membership (first ++ second) =
      (applyFrom xxh3 mid (replay xxh3 store.state membership first).membership second).map
        fun result ↦ (results ++ result.1, result.2) := by
  simp only [applyFrom] at hfirst
  split_ifs at hfirst with hfits
  cases hfirst
  simp only [applyFrom]
  rw [replay_congr xxh3 (sameRecords_commit xxh3 store membership first), replay_append,
    commit_commit xxh3 store membership first second]
  simp only [fits_append, hfits, Bool.true_and]
  split_ifs <;> rfl

theorem applyFrom_append_of_error {e : Error}
    (hfirst : applyFrom xxh3 store membership first = .error e) (second : List Entry) :
    applyFrom xxh3 store membership (first ++ second) = .error e := by
  simp only [applyFrom] at hfirst
  split_ifs at hfirst with hfits
  cases hfirst
  simp only [applyFrom, replay_append, fits_append]
  rw [if_neg (by simp [hfits])]

/-- The applied record after some entries names their last log id and membership. -/
theorem appliedOf_applyFrom
    (happly : applyFrom xxh3 store membership entries = .ok (results, mid)) (hne : entries ≠ []) :
    appliedOf mid.state =
      { logId := lastLogId entries
        membership := (replay xxh3 store.state membership entries).membership } := by
  simp only [applyFrom] at happly
  split_ifs at happly with hfits
  cases happly
  cases hlast : lastLogId entries with
  | none =>
    obtain ⟨entry, rest, rfl⟩ := List.exists_cons_of_ne_nil hne
    exact absurd hlast (lastLogId_cons_ne_none entry rest)
  | some logId => exact appliedOf_writeAll _ _ _

theorem wellTyped_applyFrom (hstore : WellTyped store.state)
    (happly : applyFrom xxh3 store membership entries = .ok (results, mid)) :
    WellTyped mid.state := by
  simp only [applyFrom] at happly
  split_ifs at happly with hfits
  cases happly
  cases lastLogId entries with
  | none => exact hstore
  | some logId =>
    rw [commit, ColumnFamily.writeAll_append]
    refine (wellTyped_replay xxh3 hstore membership entries).writeAll fun m hm value hvalue ↦ ?_
    rw [List.mem_singleton] at hm
    subst hm
    rw [← Option.some.inj hvalue]
    exact Keyed.raftApplied _

/-- Applying two lists one after the other is applying them together. -/
theorem applyAtOnce_append
    (hfirst : applyAtOnce xxh3 store first = .ok (results, mid)) (second : List Entry) :
    applyAtOnce xxh3 store (first ++ second) =
      (applyAtOnce xxh3 mid second).map fun result ↦ (results ++ result.1, result.2) := by
  unfold applyAtOnce at hfirst ⊢
  rw [applyFrom_append xxh3 hfirst]
  cases first with
  | nil =>
    cases hfirst
    rfl
  | cons entry rest => rw [appliedOf_applyFrom xxh3 hfirst (List.cons_ne_nil entry rest)]

/-- The outbox rows of the store have no part in it. -/
theorem applyAtOnce_withoutOutbox (store : GroupStore) (entries : List Entry) :
    applyAtOnce xxh3 store.withoutOutbox entries = applyAtOnce xxh3 store entries := by
  unfold applyAtOnce applyFrom
  cases lastLogId entries <;> rfl

/-! ### The two paths of the code -/

section Paths

variable (partition : UInt16) (prune : ColumnFamily Unit → ColumnFamily Unit)
  (order : RaftLogId → HashOrder DataValue)

/-- The results and the store, without its outbox rows. -/
def withoutOutbox (answered : List ApplyResult × GroupStore) : List ApplyResult × GroupStore :=
  (answered.1, answered.2.withoutOutbox)

/-- The rows of a batch are written exactly when its keys fit. -/
theorem outboxRows_eq (epoch : UInt64) (logId : RaftLogId) (mutations : List StateMutation) :
    if fits mutations then ∃ rows, outboxRows partition epoch logId mutations = .ok rows
    else outboxRows partition epoch logId mutations =
      .error (.search "user key is too large for search outbox") := by
  induction mutations with
  | nil => exact ⟨[], rfl⟩
  | cons m rest ih =>
    have hcons : fits (m :: rest) =
        ((stripUserTag m.key).all (·.length < 2 ^ 32) && fits rest) := rfl
    rw [hcons]
    unfold outboxRows at ih ⊢
    cases hstrip : stripUserTag m.key with
    | none => simpa [hstrip] using ih
    | some key =>
      simp only [hstrip, List.filterMap_cons, List.mapM_cons, Option.all_some, encodeOutboxKey]
      by_cases hkey : key.length < 2 ^ 32
      · simp only [hkey, decide_true, Bool.true_and, if_true]
        by_cases hrest : fits rest = true
        · rw [if_pos hrest] at ih ⊢
          obtain ⟨rows, hrows⟩ := ih
          rw [hrows]
          exact ⟨_, rfl⟩
        · rw [if_neg hrest] at ih ⊢
          rw [ih]
          rfl
      · simp only [hkey, decide_false, Bool.false_and, if_false]
        rfl

theorem applyRaft_eq (store : GroupStore) (mutations : List StateMutation) (logId : RaftLogId)
    (membership : StoredMembership) (appliedEntries : ℕ) :
    (applyRaft partition prune store mutations logId
        { logId := some logId, membership := membership } appliedEntries).map
      GroupStore.withoutOutbox =
      if fits mutations then .ok (commit store mutations membership (some logId))
      else .error (.search "user key is too large for search outbox") := by
  have hrows := outboxRows_eq partition (store.searchEpoch.getD 1) logId mutations
  unfold applyRaft
  by_cases hfits : fits mutations = true
  · rw [if_pos hfits] at hrows ⊢
    obtain ⟨rows, hrows⟩ := hrows
    simp only [hrows]
    rfl
  · rw [if_neg hfits] at hrows ⊢
    simp only [hrows]
    rfl

theorem applyFrom_withoutOutbox (store : GroupStore) (membership : StoredMembership)
    (entries : List Entry) :
    applyFrom xxh3 store.withoutOutbox membership entries =
      applyFrom xxh3 store membership entries := by
  unfold applyFrom
  cases lastLogId entries <;> rfl

/-- Writing the mutations of one entry is applying it. -/
theorem applyFrom_singleton (store : GroupStore) (membership : StoredMembership) (entry : Entry) :
    applyFrom xxh3 store membership [entry] =
      (applyRaft partition prune store
        (replayEntry xxh3 store.state membership entry).2.1 entry.logId
        { logId := some entry.logId
          membership := (replayEntry xxh3 store.state membership entry).2.2 } 1).map
        fun next ↦ ([(replayEntry xxh3 store.state membership entry).1], next.withoutOutbox) := by
  have hraft := applyRaft_eq partition prune store
    (replayEntry xxh3 store.state membership entry).2.1 entry.logId
    (replayEntry xxh3 store.state membership entry).2.2 1
  have hsplit : ∀ x : Result GroupStore, (x.map fun next ↦
      ([(replayEntry xxh3 store.state membership entry).1], next.withoutOutbox)) =
      (x.map GroupStore.withoutOutbox).map fun next ↦
        ([(replayEntry xxh3 store.state membership entry).1], next) := by
    intro x
    cases x <;> rfl
  rw [hsplit, hraft]
  simp only [applyFrom, replay, List.append_nil]
  split_ifs <;> rfl

theorem replay_singleton (cf : DataState) (membership : StoredMembership) (entry : Entry) :
    (replay xxh3 cf membership [entry]).membership =
      (replayEntry xxh3 cf membership entry).2.2 := rfl

/-- Assumes: a well-typed store. Writing after every entry is the abstract apply. -/
theorem run_perEntryStep (hstore : WellTyped store.state)
    (membership : StoredMembership) (entries : List Entry) :
    (run (perEntryStep xxh3 partition prune) (membership, store) entries).map
        (fun answered ↦ withoutOutbox (answered.1, answered.2.2)) =
      applyFrom xxh3 store membership entries := by
  induction entries generalizing store membership with
  | nil => rfl
  | cons entry rest ih =>
    have hone := applyFrom_singleton xxh3 partition prune store membership entry
    have hstep : perEntryStep xxh3 partition prune (membership, store) entry =
        (applyRaft partition prune store (replayEntry xxh3 store.state membership entry).2.1
          entry.logId { logId := some entry.logId
                        membership := (replayEntry xxh3 store.state membership entry).2.2 } 1).map
          fun next ↦ ((replayEntry xxh3 store.state membership entry).1,
            (replayEntry xxh3 store.state membership entry).2.2, next) := by
      unfold perEntryStep
      rw [evaluateEntry_eq xxh3 hstore]
      rfl
    rw [← List.singleton_append]
    cases hraft : applyRaft partition prune store
        (replayEntry xxh3 store.state membership entry).2.1 entry.logId
        { logId := some entry.logId
          membership := (replayEntry xxh3 store.state membership entry).2.2 } 1 with
    | error e =>
      rw [hraft] at hone hstep
      rw [applyFrom_append_of_error xxh3 hone, List.singleton_append, run, hstep]
      rfl
    | ok next =>
      rw [hraft] at hone hstep
      have hnext : WellTyped next.state := by
        have htyped : WellTyped next.withoutOutbox.state := wellTyped_applyFrom xxh3 hstore hone
        exact htyped
      rw [applyFrom_append xxh3 hone, applyFrom_withoutOutbox, List.singleton_append,
        run_cons_of_ok hstep, replay_singleton, ← ih hnext]
      cases run (perEntryStep xxh3 partition prune)
        ((replayEntry xxh3 store.state membership entry).2.2, next) rest <;> rfl

theorem applyPerEntry_eq_applyAtOnce (hstore : WellTyped store.state) (entries : List Entry) :
    (applyPerEntry xxh3 partition prune store entries).map withoutOutbox =
      applyAtOnce xxh3 store entries := by
  unfold applyPerEntry applyAtOnce
  rw [readApplied_eq hstore, ← run_perEntryStep xxh3 partition prune hstore]
  change (Except.map _ (Except.bind (run _ _ entries) _)) = _
  cases run (perEntryStep xxh3 partition prune) ((appliedOf store.state).membership, store)
    entries <;> rfl

/-- Assumes: the records under the overlay and what is staged are well typed. Deciding a chunk
against the overlay stages the mutations of its replay. -/
theorem run_chunkStep (base : DataState) (staged : List StateMutation)
    (hstaged : WellTyped (base.writeAll staged)) (membership : StoredMembership)
    (last : Option RaftLogId) (entries : List Entry) :
    run (chunkStep xxh3)
        { membership := membership, overlay := (Overlay.new base).stage staged, lastLogId := last }
        entries =
      .ok ((replay xxh3 (base.writeAll staged) membership entries).results,
        { membership := (replay xxh3 (base.writeAll staged) membership entries).membership
          overlay := (Overlay.new base).stage
            (staged ++ (replay xxh3 (base.writeAll staged) membership entries).mutations)
          lastLogId := (lastLogId entries).or last }) := by
  induction entries generalizing staged membership last with
  | nil => simp [replay, lastLogId]
  | cons entry rest ih =>
    have hread : ((Overlay.new base).stage staged).read =
        DataState.reader (base.writeAll staged) :=
      funext fun k ↦ Overlay.read_stage_new base staged k
    have hstep : chunkStep xxh3 { membership := membership
                                  overlay := (Overlay.new base).stage staged
                                  lastLogId := last } entry =
        .ok ((replayEntry xxh3 (base.writeAll staged) membership entry).1,
          { membership := (replayEntry xxh3 (base.writeAll staged) membership entry).2.2
            overlay := (Overlay.new base).stage
              (staged ++ (replayEntry xxh3 (base.writeAll staged) membership entry).2.1)
            lastLogId := some entry.logId }) := by
      unfold chunkStep
      rw [hread, evaluateEntry_eq xxh3 hstaged, Overlay.stage_append]
      rfl
    have hnext : WellTyped (base.writeAll
        (staged ++ (replayEntry xxh3 (base.writeAll staged) membership entry).2.1)) := by
      rw [ColumnFamily.writeAll_append]
      exact hstaged.writeAll fun m hm value hvalue ↦ keyed_replayEntry xxh3 hm hvalue
    rw [run_cons_of_ok hstep, ih _ hnext]
    have hlast : (lastLogId rest).or (some entry.logId) = (lastLogId (entry :: rest)).or last := by
      rw [← List.singleton_append, lastLogId_append, Option.or_assoc]
      rfl
    simp only [Except.map, hlast, replay, ColumnFamily.writeAll_append, List.append_assoc]

theorem fits_eq_true_iff {mutations : List StateMutation} :
    fits mutations = true ↔
      ∀ key ∈ mutations.map Mutation.key, (stripUserTag key).all (·.length < 2 ^ 32) = true := by
  simp [fits]

/-- A collapsed batch fits exactly when what was staged fits. -/
theorem fits_intoMutations (hash : HashOrder DataValue) (base : DataState)
    (mutations : List StateMutation) :
    fits (((Overlay.new base).stage mutations).intoMutations hash) = fits mutations := by
  rw [Bool.eq_iff_iff, fits_eq_true_iff, fits_eq_true_iff]
  exact forall_congr' fun key ↦ by rw [Overlay.mem_key_intoMutations]

/-- Writing a collapsed chunk commits what was staged. -/
theorem commit_intoMutations (hash : HashOrder DataValue) (store : GroupStore)
    (mutations : List StateMutation) (membership : StoredMembership) (logId : RaftLogId) :
    commit store (((Overlay.new store.state).stage mutations).intoMutations hash) membership
        (some logId) =
      commit store mutations membership (some logId) := by
  simp only [commit, ColumnFamily.writeAll_append, Overlay.writeAll_intoMutations]

/-- Assumes: a well-typed store. Writing a chunk once is the abstract apply. -/
theorem applyCoalescedChunk_eq_applyAtOnce (hstore : WellTyped store.state) (entries : List Entry) :
    (applyCoalescedChunk xxh3 partition prune order store entries).map withoutOutbox =
      applyAtOnce xxh3 store entries := by
  have hrun :=
    run_chunkStep xxh3 store.state [] hstore (appliedOf store.state).membership none entries
  rw [List.nil_append, Option.or_none, ColumnFamily.writeAll_nil] at hrun
  change run (chunkStep xxh3) { membership := (appliedOf store.state).membership
                                overlay := .new store.state
                                lastLogId := none } entries = _ at hrun
  unfold applyCoalescedChunk applyAtOnce applyFrom
  rw [readApplied_eq hstore]
  simp only [bind, Except.bind, hrun]
  cases hlast : lastLogId entries with
  | none =>
    cases entries with
    | nil => rfl
    | cons entry rest => exact absurd hlast (lastLogId_cons_ne_none entry rest)
  | some logId =>
    generalize replay xxh3 store.state (appliedOf store.state).membership entries = replayed
    have hraft := applyRaft_eq partition prune store
      (((Overlay.new store.state).stage replayed.mutations).intoMutations (order logId)) logId
      replayed.membership replayed.results.length
    rw [fits_intoMutations, commit_intoMutations] at hraft
    simp only
    cases happly : applyRaft partition prune store
        (((Overlay.new store.state).stage replayed.mutations).intoMutations (order logId)) logId
        { logId := some logId, membership := replayed.membership } replayed.results.length with
    | error e =>
      rw [happly] at hraft
      split_ifs at hraft ⊢
      · cases hraft
      · cases hraft
        rfl
    | ok next =>
      rw [happly] at hraft
      split_ifs at hraft ⊢
      · rw [← Except.ok.inj hraft]
        rfl
      · cases hraft

/-- Assumes: a computation that is the abstract apply of some entries. Applying others after it is
applying them together. -/
theorem applyAtOnce_append_of_applied {answered : Result (List ApplyResult × GroupStore)}
    (hanswered : answered.map withoutOutbox = applyAtOnce xxh3 store first) (second : List Entry) :
    applyAtOnce xxh3 store (first ++ second) =
      answered.bind fun result ↦ (applyAtOnce xxh3 result.2 second).map fun tail ↦
        (result.1 ++ tail.1, tail.2) := by
  cases answered with
  | error e => exact applyFrom_append_of_error xxh3 hanswered.symm second
  | ok result =>
    have hfirst : applyAtOnce xxh3 store first = .ok (result.1, result.2.withoutOutbox) :=
      hanswered.symm
    rw [applyAtOnce_append xxh3 hfirst, applyAtOnce_withoutOutbox]
    rfl

theorem wellTyped_of_applied (hstore : WellTyped store.state)
    {answered : Result (List ApplyResult × GroupStore)}
    (hanswered : answered.map withoutOutbox = applyAtOnce xxh3 store first)
    (hok : answered = .ok (results, mid)) : WellTyped mid.state := by
  rw [hok] at hanswered
  have htyped : WellTyped mid.withoutOutbox.state :=
    wellTyped_applyFrom xxh3 hstore hanswered.symm
  exact htyped

/-- Apply the open chunk at the end, if there is one. -/
def CutState.finish (cut : CutState) : Result (List ApplyResult × GroupStore) := do
  let cut ← if !cut.chunk.isEmpty then cut.flush xxh3 partition prune order else pure cut
  return (cut.results, cut.store)

theorem cutStep_of_room {cut : CutState} {entry : Entry}
    (hroom : cut.wouldExceed (Bincode.encodedLen entry) = false) :
    ∃ next, cutStep xxh3 partition prune order cut entry = .ok next ∧ next.results = cut.results ∧
      next.store = cut.store ∧ next.chunk = cut.chunk ++ [entry] := by
  unfold cutStep
  simp only [hroom]
  exact ⟨_, rfl, rfl, rfl, rfl⟩

theorem cutStep_of_full {cut : CutState} {entry : Entry}
    (hfull : cut.wouldExceed (Bincode.encodedLen entry) = true) :
    cutStep xxh3 partition prune order cut entry =
      (applyCoalescedChunk xxh3 partition prune order cut.store cut.chunk).map fun result ↦
        { results := cut.results ++ result.1, store := result.2, chunk := [entry]
          chunkBytes := saturatingAdd 0 (Bincode.encodedLen entry) } := by
  unfold cutStep CutState.flush
  simp only [hfull]
  cases applyCoalescedChunk xxh3 partition prune order cut.store cut.chunk <;> rfl

/-- Assumes: a well-typed store. From any cut, the rest of the entries are applied after the open
chunk, and the answers come after those given already. -/
theorem finish_foldlM_cutStep {cut : CutState} (hstore : WellTyped cut.store.state)
    (entries : List Entry) :
    ((entries.foldlM (cutStep xxh3 partition prune order) cut).bind
        (CutState.finish xxh3 partition prune order)).map withoutOutbox =
      (applyAtOnce xxh3 cut.store (cut.chunk ++ entries)).map fun result ↦
        (cut.results ++ result.1, result.2) := by
  have hchunk := applyCoalescedChunk_eq_applyAtOnce xxh3 partition prune order hstore cut.chunk
  induction entries generalizing cut with
  | nil =>
    rw [List.append_nil, ← hchunk]
    change (CutState.finish xxh3 partition prune order cut).map withoutOutbox = _
    unfold CutState.finish CutState.flush
    cases hempty : cut.chunk.isEmpty with
    | true =>
      rw [List.isEmpty_iff.mp hempty] at hchunk ⊢
      rw [hchunk]
      change Except.ok _ = Except.ok (cut.results ++ [], _)
      rw [List.append_nil]
      rfl
    | false =>
      cases applyCoalescedChunk xxh3 partition prune order cut.store cut.chunk <;> rfl
  | cons entry rest ih =>
    rw [List.foldlM_cons]
    cases hexceeds : cut.wouldExceed (Bincode.encodedLen entry) with
    | false =>
      obtain ⟨next, hstep, hresults, hsame, hopen⟩ :=
        cutStep_of_room xxh3 partition prune order hexceeds
      rw [hstep, ← hsame, ← hresults, ← List.singleton_append, ← List.append_assoc, ← hopen]
      rw [← hsame] at hstore
      exact ih hstore (applyCoalescedChunk_eq_applyAtOnce xxh3 partition prune order hstore _)
    | true =>
      rw [applyAtOnce_append_of_applied xxh3 hchunk,
        cutStep_of_full xxh3 partition prune order hexceeds]
      cases happly : applyCoalescedChunk xxh3 partition prune order cut.store cut.chunk with
      | error e => rfl
      | ok result =>
        have hnext := wellTyped_of_applied xxh3 hstore hchunk happly
        refine (ih hnext
          (applyCoalescedChunk_eq_applyAtOnce xxh3 partition prune order hnext _)).trans ?_
        simp only [List.singleton_append, Except.bind]
        cases applyAtOnce xxh3 result.2 (entry :: rest) with
        | error e => rfl
        | ok tail => simp [Except.map]

/-- Assumes: a well-typed store. Cutting the entries into bounded chunks is the abstract apply. -/
theorem applyCoalesced_eq_applyAtOnce (hstore : WellTyped store.state) (entries : List Entry) :
    (applyCoalesced xxh3 partition prune order store entries).map withoutOutbox =
      applyAtOnce xxh3 store entries := by
  have hopen : WellTyped (CutState.store
      { results := [], store := store, chunk := [], chunkBytes := 0 }).state := hstore
  refine (finish_foldlM_cutStep xxh3 partition prune order hopen entries).trans ?_
  rw [List.nil_append]
  cases applyAtOnce xxh3 store entries <;> rfl

/-- Hand over chunks of entries one after another. -/
def applyChunks (store : GroupStore) (chunks : List (List Entry)) :
    Result (List ApplyResult × GroupStore) := do
  let (results, last) ← run (applyCoalesced xxh3 partition prune order) store chunks
  return (results.flatten, last)

theorem applyChunks_eq_applyAtOnce (hstore : WellTyped store.state) (chunks : List (List Entry)) :
    (applyChunks xxh3 partition prune order store chunks).map withoutOutbox =
      applyAtOnce xxh3 store chunks.flatten := by
  induction chunks generalizing store with
  | nil => rfl
  | cons chunk rest ih =>
    have hchunk := applyCoalesced_eq_applyAtOnce xxh3 partition prune order hstore chunk
    rw [List.flatten_cons, applyAtOnce_append_of_applied xxh3 hchunk]
    unfold applyChunks at ih ⊢
    cases happly : applyCoalesced xxh3 partition prune order store chunk with
    | error e =>
      rw [run, happly]
      rfl
    | ok result =>
      have hnext := wellTyped_of_applied xxh3 hstore hchunk happly
      simp only [Except.bind]
      rw [run_cons_of_ok happly, ← ih hnext]
      cases run (applyCoalesced xxh3 partition prune order) result.2 rest <;> rfl

/-! ### Delivering entries again -/

/-- The entries above the applied position of a store: those Raft delivers again. -/
def remaining (store : GroupStore) (entries : List Entry) : List Entry :=
  entries.filter fun entry ↦ (appliedOf store.state).logId.all (·.index < entry.logId.index)

/-- Assumes: entries in log order. Above the last of the first ones stand exactly the others. -/
theorem filter_above_last {second : List Entry} {logId : RaftLogId}
    (hincreasing : (first ++ second).Pairwise fun one two ↦ one.logId.index < two.logId.index)
    (hlast : lastLogId first = some logId) :
    (first ++ second).filter (fun entry ↦ decide (logId.index < entry.logId.index)) = second := by
  obtain ⟨entry, hentry, rfl⟩ := Option.map_eq_some_iff.mp hlast
  obtain ⟨front, rfl⟩ := List.getLast?_eq_some_iff.mp hentry
  obtain ⟨hfirst, -, hcross⟩ := List.pairwise_append.mp hincreasing
  rw [List.filter_append, List.filter_eq_nil_iff.mpr, List.filter_eq_self.mpr, List.nil_append]
  · intro other hother
    exact decide_eq_true (hcross entry (by simp) other hother)
  · intro other hother
    rw [decide_eq_true_eq]
    intro hbelow
    rcases List.mem_append.mp hother with hfront | hsame
    · have habove := (List.pairwise_append.mp hfirst).2.2 other hfront entry List.mem_cons_self
      exact UInt64.lt_irrefl _ (UInt64.lt_trans habove hbelow)
    · rw [List.mem_singleton] at hsame
      rw [hsame] at hbelow
      exact UInt64.lt_irrefl _ hbelow

/-- Assumes: entries in log order, above the applied position. After a first part is applied, the
others remain. -/
theorem remaining_of_applied {second : List Entry}
    (hincreasing : (first ++ second).Pairwise fun one two ↦ one.logId.index < two.logId.index)
    (habove : remaining store (first ++ second) = first ++ second)
    (hfirst : applyAtOnce xxh3 store first = .ok (results, mid)) :
    remaining mid (first ++ second) = second := by
  cases hempty : first with
  | nil =>
    subst hempty
    cases hfirst
    exact habove
  | cons entry rest =>
    have hne : first ≠ [] := by
      rw [hempty]
      exact List.cons_ne_nil entry rest
    rw [← hempty]
    unfold remaining
    rw [appliedOf_applyFrom xxh3 hfirst hne]
    cases hlast : lastLogId first with
    | none =>
      rw [hempty] at hlast
      exact absurd hlast (lastLogId_cons_ne_none entry rest)
    | some logId => exact filter_above_last hincreasing hlast

/-- The mutations of a request fit when its key does. -/
theorem fits_outcome {cf : DataState} {req : DataRequest} (hkey : req.op.key.length < 2 ^ 32)
    (logIndex : UInt64) : fits (outcome xxh3 cf req logIndex).2 = true := by
  unfold outcome
  cases gate xxh3 cf.recoveryEpoch (cf.seq req.clientId) req with
  | some answer => rfl
  | none =>
    simp only [fits_append, Bool.and_eq_true]
    refine ⟨?_, by simp [fits]⟩
    cases hmutation : keyMutation (cf.user req.op.key) req.op logIndex with
    | none => rfl
    | some m => simpa [fits, (keyMutation_eq_some hmutation).1] using hkey

theorem fits_replay
    (hkeys : ∀ entry ∈ entries, ∀ req, entry.payload = .normal req → req.op.key.length < 2 ^ 32)
    (cf : DataState) (membership : StoredMembership) :
    fits (replay xxh3 cf membership entries).mutations = true := by
  induction entries generalizing cf membership with
  | nil => rfl
  | cons entry rest ih =>
    have hrest := ih fun other hother ↦ hkeys other (List.mem_cons_of_mem entry hother)
    simp only [replay, fits_append, hrest, Bool.and_true]
    unfold replayEntry
    cases hpayload : entry.payload with
    | blank | membership => rfl
    | normal req => exact fits_outcome xxh3 (hkeys entry List.mem_cons_self req hpayload) _

/-- Assumes: a store whose records have the types of their keys, and entries in log order above its
applied position. However the entries are cut into chunks, applying the chunks coalesced answers
what applying the entries one at a time answers, and leaves the same store but for outbox rows: the
same user records, sequence records, applied log id and membership. After a stop behind any chunks,
delivering what remains above the recorded position again, in whatever chunks, completes to the same
answers and the same store. Every entry is applied when the user keys are shorter than 4 GiB. -/
theorem coalesced_refines_per_entry (hstore : WellTyped store.state)
    (hincreasing : entries.Pairwise fun one two ↦ one.logId.index < two.logId.index)
    (habove : remaining store entries = entries) :
    (∀ chunks : List (List Entry), chunks.flatten = entries →
      (applyChunks xxh3 partition prune order store chunks).map withoutOutbox =
        (applyPerEntry xxh3 partition prune store entries).map withoutOutbox) ∧
    (∀ (first : List (List Entry)) (results : List ApplyResult) (mid : GroupStore),
      first.flatten <+: entries →
      applyChunks xxh3 partition prune order store first = .ok (results, mid) →
      ∀ chunks : List (List Entry), chunks.flatten = remaining mid entries →
        ((applyChunks xxh3 partition prune order mid chunks).map withoutOutbox).map
            (fun answered ↦ (results ++ answered.1, answered.2)) =
          (applyPerEntry xxh3 partition prune store entries).map withoutOutbox) ∧
    ((∀ entry ∈ entries, ∀ req, entry.payload = .normal req → req.op.key.length < 2 ^ 32) →
      ∃ results last, applyPerEntry xxh3 partition prune store entries = .ok (results, last)) := by
  have hspec := applyPerEntry_eq_applyAtOnce xxh3 partition prune hstore entries
  refine ⟨?_, ?_, ?_⟩
  · rintro chunks rfl
    rw [hspec, applyChunks_eq_applyAtOnce xxh3 partition prune order hstore]
  · rintro first results mid ⟨rest, rfl⟩ hfirst chunks hchunks
    have happlied := applyChunks_eq_applyAtOnce xxh3 partition prune order hstore first
    have hmid := wellTyped_of_applied xxh3 hstore happlied hfirst
    have hremaining : remaining mid (first.flatten ++ rest) = rest := by
      rw [hfirst] at happlied
      have htail : remaining mid.withoutOutbox (first.flatten ++ rest) = rest :=
        remaining_of_applied xxh3 hincreasing habove happlied.symm
      exact htail
    rw [hspec, applyAtOnce_append_of_applied xxh3 happlied, hfirst,
      applyChunks_eq_applyAtOnce xxh3 partition prune order hmid, hchunks, hremaining]
    rfl
  · intro hkeys
    have hok : applyAtOnce xxh3 store entries = .ok _ := if_pos (fits_replay xxh3 hkeys _ _)
    rw [hok] at hspec
    cases happly : applyPerEntry xxh3 partition prune store entries with
    | error e =>
      rw [happly] at hspec
      cases hspec
    | ok answered => exact ⟨answered.1, answered.2, rfl⟩

end Paths

/-- A membership and two writes of one key, handed over in two chunks. -/
theorem coalesced_refines_per_entry_two_chunks :
    let write (index : UInt64) (sequence : Sequence) : Entry :=
      ⟨⟨⟨1, 1⟩, index⟩, .normal ⟨0, 7, sequence, .put [107] [1] none⟩⟩
    let change : Entry := ⟨⟨⟨1, 1⟩, 1⟩, .membership ⟨[[1, 2, 3]], []⟩⟩
    let store : GroupStore := ⟨∅, none, none, ∅⟩
    (applyChunks (fun _ ↦ 0) 0 id (fun _ ↦ .ascending _) store
        [[change, write 2 1], [write 3 2]]).map withoutOutbox =
      (applyPerEntry (fun _ ↦ 0) 0 id store [change, write 2 1, write 3 2]).map withoutOutbox := by
  intro write change store
  have hstore : WellTyped store.state := WellTyped.empty
  have habove : remaining store [change, write 2 1, write 3 2] =
      [change, write 2 1, write 3 2] := by decide
  exact (coalesced_refines_per_entry (fun _ ↦ 0) 0 id (fun _ ↦ .ascending _) hstore (by decide)
    habove).1 [[change, write 2 1], [write 3 2]] rfl

end DalService.Partition
