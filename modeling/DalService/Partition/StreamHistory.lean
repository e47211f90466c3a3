import DalService.Foundation.Run
import DalService.Partition.Outcome

/-!
# Exactly-once client streams

A run applies committed requests one after another to the records of a data group and keeps every
answer with the mutations it wrote (`answer`, `run`). The decisions a run took for one client are
the client's stream (`stream`).

`StreamInvariant` ties the streams to the sequence records, for every client without a record at the
start of the run: the decisions of a client carry the sequences `1, 2, …` in order, the record of
the client is that of its last decision, a replayed answer repeats the decision of its sequence, and
an answer that is not a decision wrote nothing. Each request keeps it (`StreamInvariant.answer`), so
it holds after every run (`exists_run_of_invariant`), and `exactly_once_streams` reads it off at the
end of any run from an empty group.
-/

set_option autoImplicit false

namespace DalService.Partition

open Foundation Keyspace DataStateMachine

/-! ### Runs and their answers -/

/-- One answered request of a run. -/
structure Answer where
  index : UInt64
  request : DataRequest
  result : ApplyResult
  mutations : List StateMutation
  deriving DecidableEq, Repr

/-- The committed entry an answer answers. -/
def Answer.entry (a : Answer) : UInt64 × DataRequest := (a.index, a.request)

/-- The records of a group before its first entry: at most a recovery epoch. -/
def emptyState : Option (BitVec 128) → DataState
  | none => ∅
  | some epoch => (∅ : DataState).insert recoveryEpochKey (.epoch epoch)

variable (xxh3 : Bytes → BitVec 128)

/-- Evaluate a request at its log index and write what it implies. -/
def answer (cf : DataState) (entry : UInt64 × DataRequest) : Result (Answer × DataState) := do
  let (result, muts) ← evaluate xxh3 cf.reader entry.2 entry.1
  return ({ index := entry.1, request := entry.2, result := result, mutations := muts },
    applyState cf muts { term := 0, index := entry.1 })

/-- The answer is the one `apply` gives, and the state the one it leaves. -/
theorem apply_eq_answer (cf : DataState) (req : DataRequest) (logIndex : UInt64) :
    apply xxh3 cf req logIndex =
      (answer xxh3 cf (logIndex, req)).map fun result ↦ (result.1.result, result.2) := by
  unfold apply answer
  cases evaluate xxh3 cf.reader req logIndex <;> rfl

theorem answer_eq {cf : DataState} (hcf : WellTyped cf) (entry : UInt64 × DataRequest) :
    answer xxh3 cf entry =
      .ok ({ index := entry.1, request := entry.2, result := (outcome xxh3 cf entry.2 entry.1).1,
             mutations := (outcome xxh3 cf entry.2 entry.1).2 },
        advance xxh3 cf entry.2 entry.1) := by
  unfold answer
  rw [evaluate_eq xxh3 hcf]
  rfl

/-- An answer is the answer of its entry. -/
theorem entry_of_answer {cf next : DataState} {entry : UInt64 × DataRequest} {a : Answer}
    (hanswer : answer xxh3 cf entry = .ok (a, next)) : a.entry = entry := by
  unfold answer at hanswer
  cases hevaluate : evaluate xxh3 cf.reader entry.2 entry.1 with
  | error e => simp [hevaluate, bind, Except.bind] at hanswer
  | ok evaluated =>
    rw [hevaluate] at hanswer
    cases hanswer
    rfl

theorem wellTyped_emptyState (epoch : Option (BitVec 128)) : WellTyped (emptyState epoch) := by
  cases epoch with
  | none => exact WellTyped.empty
  | some epoch =>
    refine WellTyped.empty.write (m := .put recoveryEpochKey (.epoch epoch)) fun value hvalue ↦ ?_
    rw [← Option.some.inj hvalue]
    exact Keyed.epoch epoch

/-- An empty group holds nothing but its recovery epoch. -/
theorem getElem?_emptyState (epoch : Option (BitVec 128)) {key : Bytes}
    (hkey : key ≠ recoveryEpochKey) : (emptyState epoch)[key]? = none := by
  cases epoch with
  | none => exact Std.ExtTreeMap.getElem?_empty
  | some epoch =>
    change (ColumnFamily.write ∅ (.put recoveryEpochKey (DataValue.epoch epoch)))[key]? = none
    rw [ColumnFamily.getElem?_write, if_neg (by simpa using hkey.symm)]
    exact Std.ExtTreeMap.getElem?_empty

theorem seq_emptyState (epoch : Option (BitVec 128)) (clientId : ClientId) :
    (emptyState epoch).seq clientId = none := by
  rw [DataState.seq, getElem?_emptyState epoch (seqKey_ne_internal clientId _)]
  rfl

/-- Assumes: a property of the answers and the records that holds before the first request, and that
every request keeps while being answered. It holds at the end of every run, and every run answers
each of its requests. -/
theorem exists_run_of_invariant {Inv : List Answer → DataState → Prop} {cf : DataState}
    (hinit : Inv [] cf)
    (hstep : ∀ {history mid}, Inv history mid → ∀ entry, ∃ a next,
      answer xxh3 mid entry = .ok (a, next) ∧ a.entry = entry ∧ Inv (history ++ [a]) next)
    (entries : List (UInt64 × DataRequest)) :
    ∃ history last, run (answer xxh3) cf entries = .ok (history, last) ∧
      history.map Answer.entry = entries ∧ Inv history last := by
  refine run_of_invariant
    (P := fun done history mid ↦ history.map Answer.entry = done ∧ Inv history mid)
    ⟨rfl, hinit⟩ ?_
  rintro done entry history mid - ⟨hdone, hinv⟩
  obtain ⟨a, next, hanswer, hentry, hnext⟩ := hstep hinv entry
  exact ⟨a, next, hanswer, by rw [List.map_append, hdone, List.map_singleton, hentry], hnext⟩

/-! ### Streams of decisions -/

/-- A request that was decided, at its index and with its result. -/
structure Decision where
  index : UInt64
  request : DataRequest
  result : MutationResult
  deriving DecidableEq, Repr

/-- The decision an answer reports, if it reports one. -/
def Answer.decision (a : Answer) : Option Decision :=
  match a.result with
  | .decided result => some { index := a.index, request := a.request, result := result }
  | _ => none

/-- The sequence record a decision leaves for its client. -/
def Decision.record (d : Decision) : SeqRecord where
  highest := d.request.sequence
  digest := digest xxh3 d.request.op
  result := d.result

/-- The decisions of a run, in order. -/
def decisions (history : List Answer) : List Decision := history.filterMap Answer.decision

/-- The decisions of a run for one client, in order. -/
def stream (clientId : ClientId) (history : List Answer) : List Decision :=
  (decisions history).filter fun d ↦ d.request.clientId = clientId

theorem stream_append (clientId : ClientId) (first second : List Answer) :
    stream clientId (first ++ second) = stream clientId first ++ stream clientId second := by
  rw [stream, decisions, List.filterMap_append, List.filter_append]
  rfl

theorem stream_singleton_of_none {a : Answer} (ha : a.decision = none) (clientId : ClientId) :
    stream clientId [a] = [] := by
  simp [stream, decisions, ha]

theorem stream_singleton_of_some {a : Answer} {d : Decision} (ha : a.decision = some d)
    (clientId : ClientId) :
    stream clientId [a] = if d.request.clientId = clientId then [d] else [] := by
  simp [stream, decisions, ha, List.filter_singleton]

theorem stream_singleton_of_ne {a : Answer} {clientId : ClientId}
    (hclient : a.request.clientId ≠ clientId) : stream clientId [a] = [] := by
  cases hdecision : a.decision with
  | none => exact stream_singleton_of_none hdecision clientId
  | some d =>
    have hrequest : d.request = a.request := by
      unfold Answer.decision at hdecision
      split at hdecision
      · cases hdecision
        rfl
      · cases hdecision
    rw [stream_singleton_of_some hdecision, if_neg (by rw [hrequest]; exact hclient)]

theorem mem_stream_of_decided {history : List Answer} {a : Answer} (ha : a ∈ history)
    {result : MutationResult} (hdecided : a.result = .decided result) {clientId : ClientId}
    (hclient : a.request.clientId = clientId) :
    { index := a.index, request := a.request, result := result } ∈ stream clientId history := by
  rw [stream, List.mem_filter, decisions, List.mem_filterMap]
  refine ⟨⟨a, ha, ?_⟩, by simpa using hclient⟩
  rw [Answer.decision, hdecided]

/-! ### The invariant of a run -/

/-- What the answers of a run from some records say about the records it leaves, for the clients
that had no sequence record at its start. -/
structure StreamInvariant (base : DataState) (history : List Answer) (cf : DataState) : Prop where
  wellTyped : WellTyped cf
  recoveryEpoch : cf.recoveryEpoch = base.recoveryEpoch
  sequences : ∀ clientId, base.seq clientId = none →
    (stream clientId history).map (·.request.sequence.toNat) =
      List.range' 1 (stream clientId history).length
  record : ∀ clientId, base.seq clientId = none →
    cf.seq clientId = (stream clientId history).getLast?.map (Decision.record xxh3)
  replayed : ∀ a ∈ history, base.seq a.request.clientId = none → ∀ result,
    a.result = .replayed result →
    ∃ d ∈ stream a.request.clientId history, d.request.sequence = a.request.sequence ∧
      d.result = result ∧ digest xxh3 d.request.op = digest xxh3 a.request.op
  silent : ∀ a ∈ history, a.decision = none → a.mutations = []

namespace StreamInvariant

variable {xxh3} {base : DataState} {history : List Answer} {cf : DataState}

theorem init (hbase : WellTyped base) : StreamInvariant xxh3 base [] base where
  wellTyped := hbase
  recoveryEpoch := rfl
  sequences := fun _ _ ↦ rfl
  record := fun _ hfresh ↦ hfresh
  replayed := fun _ ha ↦ absurd ha List.not_mem_nil
  silent := fun _ ha ↦ absurd ha List.not_mem_nil

/-- The highest decided sequence of a client counts its decisions. -/
theorem highest_eq_length (h : StreamInvariant xxh3 base history cf) {clientId : ClientId}
    (hfresh : base.seq clientId = none) :
    (highest (cf.seq clientId)).toNat = (stream clientId history).length := by
  have hseq := h.sequences clientId hfresh
  rw [h.record clientId hfresh]
  rcases List.eq_nil_or_concat (stream clientId history) with hnil | ⟨front, d, hlast⟩
  · rw [hnil]
    rfl
  · rw [hlast, List.concat_eq_append] at hseq ⊢
    rw [List.map_append, List.length_append, List.length_singleton, List.range'_concat] at hseq
    have hd := (List.append_inj' hseq rfl).2
    simp only [List.map_cons, List.map_nil, List.cons.injEq, and_true] at hd
    simp only [List.getLast?_concat, Option.map_some, highest, Decision.record, Option.getD_some,
      List.length_append, List.length_singleton]
    omega

/-- Assumes: a request answered at the gate. It is in no stream and changes no record. -/
theorem answer_of_gate (h : StreamInvariant xxh3 base history cf) {a : Answer}
    (hgate : gate xxh3 cf.recoveryEpoch (cf.seq a.request.clientId) a.request = some a.result)
    (hmuts : a.mutations = []) :
    StreamInvariant xxh3 base (history ++ [a]) (advance xxh3 cf a.request a.index) := by
  have htold := gate_eq_some xxh3 hgate
  have hnone : a.decision = none := by
    unfold Answer.decision
    rcases htold with ⟨reason, htold⟩ | ⟨record, -, -, -, htold⟩ <;> rw [htold]
  have hstream : ∀ clientId, stream clientId (history ++ [a]) = stream clientId history := by
    intro clientId
    rw [stream_append, stream_singleton_of_none hnone, List.append_nil]
  refine ⟨wellTyped_advance xxh3 h.wellTyped _ _, ?_, fun clientId hfresh ↦ ?_,
    fun clientId hfresh ↦ ?_, ?_, ?_⟩
  · rw [recoveryEpoch_advance xxh3 h.wellTyped, h.recoveryEpoch]
  · rw [hstream]
    exact h.sequences clientId hfresh
  · rw [hstream, seq_advance xxh3 h.wellTyped, if_neg (by simp [hgate])]
    exact h.record clientId hfresh
  · intro b hb hfresh result hresult
    rw [hstream]
    rcases List.mem_append.mp hb with hold | hnew
    · exact h.replayed b hold hfresh result hresult
    · rw [List.mem_singleton] at hnew
      subst hnew
      rcases htold with ⟨reason, htold⟩ | ⟨record, hrecord, hsequence, hdigest, htold⟩
      · rw [htold] at hresult
        cases hresult
      · rw [htold] at hresult
        cases hresult
        rw [h.record _ hfresh, Option.map_eq_some_iff] at hrecord
        obtain ⟨d, hlast, rfl⟩ := hrecord
        exact ⟨d, List.mem_of_getLast? hlast, hsequence, rfl, hdigest⟩
  · intro b hb hdecision
    rcases List.mem_append.mp hb with hold | hnew
    · exact h.silent b hold hdecision
    · rw [List.mem_singleton] at hnew
      rw [hnew, hmuts]

/-- Assumes: a request that passes the gate. It extends the stream of its client by one sequence. -/
theorem answer_of_decided (h : StreamInvariant xxh3 base history cf) {a : Answer}
    (hgate : gate xxh3 cf.recoveryEpoch (cf.seq a.request.clientId) a.request = none)
    (hresult : a.result = .decided (decision (cf.user a.request.op.key) a.request.op a.index)) :
    StreamInvariant xxh3 base (history ++ [a]) (advance xxh3 cf a.request a.index) := by
  obtain ⟨d, hd⟩ : ∃ d, a.decision = some d := by
    rw [Answer.decision, hresult]
    exact ⟨_, rfl⟩
  have hdecision := hd
  rw [Answer.decision, hresult] at hdecision
  have hstream : ∀ clientId, stream clientId (history ++ [a]) =
      stream clientId history ++ if a.request.clientId = clientId then [d] else [] := by
    intro clientId
    rw [stream_append, stream_singleton_of_some hd]
    cases hdecision
    rfl
  refine ⟨wellTyped_advance xxh3 h.wellTyped _ _, ?_, fun clientId hfresh ↦ ?_,
    fun clientId hfresh ↦ ?_, ?_, ?_⟩
  · rw [recoveryEpoch_advance xxh3 h.wellTyped, h.recoveryEpoch]
  · rw [hstream]
    split_ifs with hclient
    · have hnext := ((gate_eq_none_iff xxh3).mp hgate).2.2
      rw [hclient, h.highest_eq_length hfresh] at hnext
      rw [List.map_append, List.length_append, List.length_singleton, List.range'_concat,
        h.sequences clientId hfresh]
      cases hdecision
      simp only [List.map_cons, List.map_nil, one_mul, hnext, Nat.add_comm]
    · rw [List.append_nil]
      exact h.sequences clientId hfresh
  · rw [hstream, seq_advance xxh3 h.wellTyped]
    split_ifs with hpass hclient hclient
    · rw [List.getLast?_concat]
      cases hdecision
      rfl
    · exact absurd hpass.2.symm hclient
    · exact absurd ⟨hgate, hclient.symm⟩ hpass
    · rw [List.append_nil]
      exact h.record clientId hfresh
  · intro b hb hfresh result hreplayed
    rcases List.mem_append.mp hb with hold | hnew
    · obtain ⟨e, he, hrest⟩ := h.replayed b hold hfresh result hreplayed
      refine ⟨e, ?_, hrest⟩
      rw [hstream]
      exact List.mem_append_left _ he
    · rw [List.mem_singleton] at hnew
      rw [hnew, hresult] at hreplayed
      cases hreplayed
  · intro b hb hnone
    rcases List.mem_append.mp hb with hold | hnew
    · exact h.silent b hold hnone
    · rw [List.mem_singleton] at hnew
      rw [hnew, hd] at hnone
      cases hnone

/-- A sequence of a client is decided once. -/
theorem eq_of_sequence_eq (h : StreamInvariant xxh3 base history cf) {clientId : ClientId}
    (hfresh : base.seq clientId = none) {d e : Decision} (hd : d ∈ stream clientId history)
    (he : e ∈ stream clientId history) (hsequence : d.request.sequence = e.request.sequence) :
    d = e := by
  have hnodup : ((stream clientId history).map (·.request.sequence.toNat)).Nodup := by
    rw [h.sequences clientId hfresh]
    exact List.nodup_range'
  exact List.inj_on_of_nodup_map hnodup hd he (by rw [hsequence])

/-- The sequences decided for a client are no higher than their number. -/
theorem sequence_le (h : StreamInvariant xxh3 base history cf) {clientId : ClientId}
    (hfresh : base.seq clientId = none) {d : Decision} (hd : d ∈ stream clientId history) :
    d.request.sequence.toNat ≤ (stream clientId history).length := by
  have hmem := List.mem_map_of_mem (f := fun d : Decision ↦ d.request.sequence.toNat) hd
  rw [h.sequences clientId hfresh, List.mem_range'_1] at hmem
  omega

/-- Each request is answered and keeps the invariant. -/
theorem answer (h : StreamInvariant xxh3 base history cf) (entry : UInt64 × DataRequest) :
    ∃ a next, Partition.answer xxh3 cf entry = .ok (a, next) ∧ a.entry = entry ∧
      StreamInvariant xxh3 base (history ++ [a]) next := by
  refine ⟨_, _, answer_eq xxh3 h.wellTyped entry, rfl, ?_⟩
  cases hgate : gate xxh3 cf.recoveryEpoch (cf.seq entry.2.clientId) entry.2 with
  | some told =>
    refine h.answer_of_gate ?_ ?_
    · simp only [outcome, hgate]
    · simp only [outcome, hgate]
  | none =>
    refine h.answer_of_decided hgate ?_
    simp only [outcome, hgate]

variable (xxh3) in
/-- Every run from well-typed records answers its requests and ends in the invariant. -/
theorem exists_run (hbase : WellTyped base) (entries : List (UInt64 × DataRequest)) :
    ∃ history cf, run (Partition.answer xxh3) base entries = .ok (history, cf) ∧
      history.map Answer.entry = entries ∧ StreamInvariant xxh3 base history cf :=
  exists_run_of_invariant xxh3 (init hbase) (fun hinv ↦ hinv.answer) entries

end StreamInvariant

/-- Every run of requests from an empty group, at whatever recovery epoch, answers every request.
The decisions of each client carry the sequences `1` to `n` in order; its record is that of the
`n`-th decision, and there is none exactly when `n = 0`. A replayed answer is the result of the one
decision of its client and sequence, whose operation has the same digest. A request that was not
decided wrote nothing. -/
theorem exactly_once_streams (epoch : Option (BitVec 128))
    (entries : List (UInt64 × DataRequest)) :
    ∃ history cf, run (answer xxh3) (emptyState epoch) entries = .ok (history, cf) ∧
      history.map Answer.entry = entries ∧
      (∀ clientId,
        (stream clientId history).map (·.request.sequence.toNat) =
          List.range' 1 (stream clientId history).length ∧
        (cf[seqKey clientId]? = none ↔ stream clientId history = []) ∧
        ∀ d, (stream clientId history).getLast? = some d →
          d.request.sequence.toNat = (stream clientId history).length ∧
          cf[seqKey clientId]? = some (.seq (d.record xxh3))) ∧
      (∀ a ∈ history, ∀ result, a.result = .replayed result →
        ∃ d ∈ stream a.request.clientId history, d.request.sequence = a.request.sequence ∧
          d.result = result ∧ digest xxh3 d.request.op = digest xxh3 a.request.op ∧
          ∀ e ∈ stream a.request.clientId history,
            e.request.sequence = a.request.sequence → e = d) ∧
      ∀ a ∈ history, (∀ result, a.result ≠ .decided result) → a.mutations = [] := by
  obtain ⟨history, cf, hrun, hentries, h⟩ :=
    StreamInvariant.exists_run xxh3 (wellTyped_emptyState epoch) entries
  have hfresh := seq_emptyState epoch
  refine ⟨history, cf, hrun, hentries, fun clientId ↦
    ⟨h.sequences clientId (hfresh clientId), ?_, ?_⟩, ?_, ?_⟩
  · rw [h.wellTyped.getElem?_seqKey, h.record clientId (hfresh clientId), Option.map_eq_none_iff,
      Option.map_eq_none_iff, List.getLast?_eq_none_iff]
  · intro d hd
    have hlength := h.highest_eq_length (hfresh clientId)
    rw [h.wellTyped.getElem?_seqKey, h.record clientId (hfresh clientId), hd] at *
    exact ⟨hlength, rfl⟩
  · intro a ha result hresult
    have hclient := hfresh a.request.clientId
    obtain ⟨d, hd, hsequence, hdecided, hdigest⟩ := h.replayed a ha hclient result hresult
    exact ⟨d, hd, hsequence, hdecided, hdigest, fun e he hsame ↦
      h.eq_of_sequence_eq hclient he hd (hsame.trans hsequence.symm)⟩
  · intro a ha hundecided
    refine h.silent a ha ?_
    unfold Answer.decision
    split
    · exact absurd ‹_› (hundecided _)
    · rfl

end DalService.Partition
