import DalService.Partition.StateMachine

/-!
# What a committed request does

A column family holds records of several types. `Keyed` says which type stands under which key, and
`WellTyped` that a column family holds nothing else; reads of a well-typed column family succeed
(`keyRecord_eq`, `seqRecord_eq`, `recoveryEpoch_eq`).

`evaluate_eq` says once what evaluating a request in such a state can do: it is answered at the gate
without a mutation, or it is decided and writes the sequence record of its client after at most one
mutation of its key (`outcome`). `gate_eq_none_iff` and `gate_eq_some` say which requests pass the
gate and what the others are told; `user_advance` and `seq_advance` say what a request leaves under
each key and for each client. Later modules use these and never unfold `evaluate`.
-/

set_option autoImplicit false

namespace DalService.Partition

open Foundation Keyspace

/-! ### Well-typed states -/

/-- The record types a data group keeps under its keys. -/
inductive Keyed : Bytes → DataValue → Prop
  | user (key : Bytes) (record : KeyRecord) : Keyed (userKey key) (.user record)
  | seq (clientId : ClientId) (record : SeqRecord) : Keyed (seqKey clientId) (.seq record)
  | epoch (epoch : BitVec 128) : Keyed recoveryEpochKey (.epoch epoch)
  | lastApplied (logId : LogId) : Keyed lastAppliedKey (.lastApplied logId)
  | raftApplied (applied : Applied) : Keyed raftAppliedKey (.raftApplied applied)

/-- Every record of the column family has the type its key names. -/
def WellTyped (cf : DataState) : Prop := ∀ key value, cf[key]? = some value → Keyed key value

variable {cf : DataState}

theorem WellTyped.empty : WellTyped ∅ := by
  intro key value h
  rw [Std.ExtTreeMap.getElem?_empty] at h
  simp at h

/-- Assumes: a well-typed state, and a mutation that puts a record of the type its key names. -/
theorem WellTyped.write (hcf : WellTyped cf) {m : StateMutation}
    (hm : ∀ value, m.value = some value → Keyed m.key value) :
    WellTyped (ColumnFamily.write cf m) := by
  intro key value h
  rw [ColumnFamily.getElem?_write] at h
  split_ifs at h with hkey
  · exact hkey ▸ hm value h
  · exact hcf key value h

theorem WellTyped.writeAll (hcf : WellTyped cf) {batch : List StateMutation}
    (hbatch : ∀ m ∈ batch, ∀ value, m.value = some value → Keyed m.key value) :
    WellTyped (cf.writeAll batch) := by
  induction batch generalizing cf with
  | nil => exact hcf
  | cons m batch ih =>
    exact ih (hcf.write (hbatch m List.mem_cons_self)) fun m' hm' ↦
      hbatch m' (List.mem_cons_of_mem m hm')

namespace DataState

/-- The record of a user key. -/
def user (cf : DataState) (key : Bytes) : Option KeyRecord :=
  cf[userKey key]?.bind Record.decode

/-- The sequence record of a client. -/
def seq (cf : DataState) (clientId : ClientId) : Option SeqRecord :=
  cf[seqKey clientId]?.bind Record.decode

/-- The recovery epoch: zero where none is recorded. -/
def recoveryEpoch (cf : DataState) : BitVec 128 :=
  (cf[recoveryEpochKey]?.bind Record.decode).getD 0

end DataState

theorem readState_eq {T : Type} [Record DataValue T] {key : Bytes}
    (h : ∀ value, cf[key]? = some value → ∃ record : T, Record.decode value = some record) :
    readState T cf.reader key = .ok (cf[key]?.bind Record.decode) := by
  unfold readState DataState.reader
  cases hread : cf[key]? with
  | none => rfl
  | some value =>
    obtain ⟨record, hrecord⟩ := h value hread
    simp only [Option.bind_some, hrecord]

theorem WellTyped.user_decode (hcf : WellTyped cf) {key : Bytes}
    {value : DataValue} (h : cf[userKey key]? = some value) : ∃ record, value = .user record := by
  have hkeyed := hcf _ _ h
  generalize huser : userKey key = full at hkeyed
  cases hkeyed with
  | user other record => exact ⟨record, rfl⟩
  | seq => simp at huser
  | epoch | lastApplied | raftApplied =>
    simp [recoveryEpochKey, lastAppliedKey, raftAppliedKey] at huser

theorem WellTyped.seq_decode (hcf : WellTyped cf) {clientId : ClientId} {value : DataValue}
    (h : cf[seqKey clientId]? = some value) : ∃ record, value = .seq record := by
  have hkeyed := hcf _ _ h
  generalize hseq : seqKey clientId = full at hkeyed
  cases hkeyed with
  | user => simp at hseq
  | seq other record => exact ⟨record, rfl⟩
  | epoch | lastApplied | raftApplied =>
    simp [recoveryEpochKey, lastAppliedKey, raftAppliedKey] at hseq

theorem WellTyped.epoch_decode (hcf : WellTyped cf) {value : DataValue}
    (h : cf[recoveryEpochKey]? = some value) : ∃ epoch, value = .epoch epoch := by
  have hkeyed := hcf _ _ h
  generalize hepoch : recoveryEpochKey = full at hkeyed
  cases hkeyed with
  | user | seq => simp [recoveryEpochKey] at hepoch
  | epoch epoch => exact ⟨epoch, rfl⟩
  | lastApplied | raftApplied => exact absurd hepoch (by decide)

theorem WellTyped.raftApplied_decode (hcf : WellTyped cf) {value : DataValue}
    (h : cf[raftAppliedKey]? = some value) : ∃ applied, value = .raftApplied applied := by
  have hkeyed := hcf _ _ h
  generalize happlied : raftAppliedKey = full at hkeyed
  cases hkeyed with
  | user | seq => simp [raftAppliedKey] at happlied
  | epoch | lastApplied => exact absurd happlied (by decide)
  | raftApplied applied => exact ⟨applied, rfl⟩

/-- The record of a user key is all that is stored under it. -/
theorem WellTyped.getElem?_userKey (hcf : WellTyped cf) (key : Bytes) :
    cf[userKey key]? = (cf.user key).map DataValue.user := by
  unfold DataState.user
  cases hread : cf[userKey key]? with
  | none => rfl
  | some value =>
    obtain ⟨record, rfl⟩ := hcf.user_decode hread
    rfl

/-- The sequence record of a client is all that is stored under its key. -/
theorem WellTyped.getElem?_seqKey (hcf : WellTyped cf) (clientId : ClientId) :
    cf[seqKey clientId]? = (cf.seq clientId).map DataValue.seq := by
  unfold DataState.seq
  cases hread : cf[seqKey clientId]? with
  | none => rfl
  | some value =>
    obtain ⟨record, rfl⟩ := hcf.seq_decode hread
    rfl

namespace DataStateMachine

theorem keyRecord_eq (hcf : WellTyped cf) (key : Bytes) :
    keyRecord cf.reader key = .ok (cf.user key) :=
  readState_eq fun value h ↦ by
    obtain ⟨record, rfl⟩ := hcf.user_decode h
    exact ⟨record, rfl⟩

theorem seqRecord_eq (hcf : WellTyped cf) (clientId : ClientId) :
    seqRecord cf.reader clientId = .ok (cf.seq clientId) :=
  readState_eq fun value h ↦ by
    obtain ⟨record, rfl⟩ := hcf.seq_decode h
    exact ⟨record, rfl⟩

theorem recoveryEpoch_eq (hcf : WellTyped cf) : recoveryEpoch cf.reader = .ok cf.recoveryEpoch := by
  unfold recoveryEpoch
  rw [readState_eq fun value h ↦ by
    obtain ⟨epoch, rfl⟩ := hcf.epoch_decode h
    exact ⟨epoch, rfl⟩]
  rfl

/-! ### What evaluating a request can do -/

variable (xxh3 : Bytes → BitVec 128)

/-- The answer of a request that is not decided, from the recovery epoch and the sequence record of
its client; a request that passes is at the next sequence. -/
def gate (epoch : BitVec 128) (seq : Option SeqRecord) (req : DataRequest) : Option ApplyResult :=
  if req.recoveryEpoch ≠ epoch then
    some (.rejected (.recoveryEpochMismatch epoch req.recoveryEpoch))
  else if malformed req.op then some (.rejected .malformed)
  else if req.sequence = highest seq then
    match seq with
    | some record =>
      if record.digest = digest xxh3 req.op then some (.replayed record.result)
      else some (.rejected .sequenceMismatch)
    | none => some (.rejected (.staleSequence (highest seq) req.sequence))
  else if req.sequence < highest seq then
    some (.rejected (.staleSequence (highest seq) req.sequence))
  else
    match checkedSucc (highest seq) with
    | none => some (.rejected .sequenceExhausted)
    | some expected =>
      if expected < req.sequence then some (.rejected (.sequenceGap expected req.sequence))
      else none

/-- The result of deciding an operation on the current record of its key. -/
def decision (current : Option KeyRecord) (op : DataOp) (logIndex : UInt64) : MutationResult :=
  if conditionHolds op current then .applied logIndex else .conditionFailed (presence current)

/-- The record an operation leaves under its key. -/
def nextRecord (current : Option KeyRecord) (op : DataOp) (logIndex : UInt64) : Option KeyRecord :=
  if conditionHolds op current then
    match op with
    | .put _ value _ => some { version := logIndex, value := value }
    | .delete _ _ => none
  else current

/-- The mutation of the key an operation implies. -/
def keyMutation (current : Option KeyRecord) (op : DataOp) (logIndex : UInt64) :
    Option StateMutation :=
  if conditionHolds op current then
    match op with
    | .put key value _ => some (.put (userKey key) (.user { version := logIndex, value := value }))
    | .delete key _ => if current.isSome then some (.delete (userKey key)) else none
  else none

/-- The sequence record a decided request leaves for its client. -/
def nextSeq (current : Option KeyRecord) (req : DataRequest) (logIndex : UInt64) : SeqRecord where
  highest := req.sequence
  digest := digest xxh3 req.op
  result := decision current req.op logIndex

/-- The answer and the mutations of a request, from the records it reads. -/
def outcome (cf : DataState) (req : DataRequest) (logIndex : UInt64) :
    ApplyResult × List StateMutation :=
  match gate xxh3 cf.recoveryEpoch (cf.seq req.clientId) req with
  | some answer => (answer, [])
  | none =>
    let current := cf.user req.op.key
    (.decided (decision current req.op logIndex),
      (keyMutation current req.op logIndex).toList ++
        [.put (seqKey req.clientId) (.seq (nextSeq xxh3 current req logIndex))])

theorem decide_eq (hcf : WellTyped cf) (op : DataOp) (logIndex : UInt64) :
    DataStateMachine.decide cf.reader op logIndex =
      .ok (decision (cf.user op.key) op logIndex, keyMutation (cf.user op.key) op logIndex) := by
  unfold DataStateMachine.decide decision keyMutation
  rw [keyRecord_eq hcf]
  cases hholds : conditionHolds op (cf.user op.key) with
  | false => simp [hholds, bind, Except.bind, pure, Except.pure]
  | true => cases op <;> simp [hholds, bind, Except.bind, pure, Except.pure]

/-- Assumes: a well-typed state. Evaluating a request succeeds, with the answer of the gate or the
decision of the operation. -/
theorem evaluate_eq (hcf : WellTyped cf) (req : DataRequest) (logIndex : UInt64) :
    evaluate xxh3 cf.reader req logIndex = .ok (outcome xxh3 cf req logIndex) := by
  unfold evaluate outcome gate
  rw [recoveryEpoch_eq hcf, seqRecord_eq hcf, decide_eq hcf]
  simp only [bind, Except.bind, pure, Except.pure]
  by_cases hepoch : req.recoveryEpoch ≠ cf.recoveryEpoch
  · simp only [if_pos hepoch]
  simp only [if_neg hepoch]
  by_cases hmalformed : malformed req.op = true
  · simp only [if_pos hmalformed]
  simp only [if_neg hmalformed]
  by_cases hsame : req.sequence = highest (cf.seq req.clientId)
  · simp only [if_pos hsame]
    cases cf.seq req.clientId with
    | none => rfl
    | some record =>
      simp only
      split_ifs <;> rfl
  simp only [if_neg hsame]
  by_cases hbelow : req.sequence < highest (cf.seq req.clientId)
  · simp only [if_pos hbelow]
  simp only [if_neg hbelow]
  cases checkedSucc (highest (cf.seq req.clientId)) with
  | none => rfl
  | some expected =>
    simp only
    by_cases hgap : expected < req.sequence
    · simp only [if_pos hgap]
    · simp only [if_neg hgap, nextSeq]

/-- The state after a request: its mutations and the applied position. -/
def advance (cf : DataState) (req : DataRequest) (logIndex : UInt64) : DataState :=
  applyState cf (outcome xxh3 cf req logIndex).2 { term := 0, index := logIndex }

/-- A key mutation writes the record the operation leaves, under its key. -/
theorem keyMutation_eq_some {current : Option KeyRecord} {op : DataOp} {logIndex : UInt64}
    {m : StateMutation} (hm : keyMutation current op logIndex = some m) :
    m.key = userKey op.key ∧ m.value = (nextRecord current op logIndex).map DataValue.user := by
  unfold keyMutation at hm
  unfold nextRecord
  by_cases hholds : conditionHolds op current
  · rw [if_pos hholds] at hm ⊢
    cases op with
    | put key value ifVersion =>
      cases hm
      exact ⟨rfl, rfl⟩
    | delete key ifVersion =>
      simp only [Option.ite_none_right_eq_some] at hm
      cases hm.2
      exact ⟨rfl, rfl⟩
  · rw [if_neg hholds] at hm
    cases hm

/-- An operation without a key mutation leaves the record as it is. -/
theorem nextRecord_of_keyMutation_eq_none {current : Option KeyRecord} {op : DataOp}
    {logIndex : UInt64} (hm : keyMutation current op logIndex = none) :
    nextRecord current op logIndex = current := by
  unfold keyMutation at hm
  unfold nextRecord
  by_cases hholds : conditionHolds op current
  · rw [if_pos hholds] at hm ⊢
    cases op with
    | put key value ifVersion => cases hm
    | delete key ifVersion => cases current <;> simp_all
  · rw [if_neg hholds]

theorem keyed_outcome {req : DataRequest} {logIndex : UInt64}
    {m : StateMutation} (hm : m ∈ (outcome xxh3 cf req logIndex).2) {value : DataValue}
    (hvalue : m.value = some value) : Keyed m.key value := by
  unfold outcome at hm
  cases hgate : gate xxh3 cf.recoveryEpoch (cf.seq req.clientId) req with
  | some answer => simp [hgate] at hm
  | none =>
    simp only [hgate, List.mem_append, Option.mem_toList, List.mem_singleton] at hm
    rcases hm with hkey | rfl
    · obtain ⟨hname, hwritten⟩ := keyMutation_eq_some hkey
      rw [hwritten, Option.map_eq_some_iff] at hvalue
      obtain ⟨record, -, rfl⟩ := hvalue
      rw [hname]
      exact Keyed.user req.op.key record
    · rw [← Option.some.inj hvalue]
      exact Keyed.seq req.clientId _

theorem wellTyped_advance (hcf : WellTyped cf) (req : DataRequest)
    (logIndex : UInt64) : WellTyped (advance xxh3 cf req logIndex) := by
  refine hcf.writeAll fun m hm value hvalue ↦ ?_
  rcases List.mem_append.mp hm with hout | hlast
  · exact keyed_outcome xxh3 hout hvalue
  · rw [List.mem_singleton] at hlast
    subst hlast
    rw [← Option.some.inj hvalue]
    exact Keyed.lastApplied _

/-- A request answered at the gate changes no record but the applied position. -/
theorem getElem?_advance_of_gate {req : DataRequest} {logIndex : UInt64} {answer : ApplyResult}
    (hgate : gate xxh3 cf.recoveryEpoch (cf.seq req.clientId) req = some answer) {key : Bytes}
    (hkey : key ≠ lastAppliedKey) : (advance xxh3 cf req logIndex)[key]? = cf[key]? := by
  unfold advance applyState outcome
  rw [hgate, getElem?_writeAll]
  simp [lastWrite, hkey.symm]

/-- A decided request writes its key mutation and the sequence record of its client. -/
theorem getElem?_advance_of_decided (hcf : WellTyped cf) {req : DataRequest}
    {logIndex : UInt64} (hgate : gate xxh3 cf.recoveryEpoch (cf.seq req.clientId) req = none)
    {key : Bytes} (hkey : key ≠ lastAppliedKey) :
    (advance xxh3 cf req logIndex)[key]? =
      if key = seqKey req.clientId then
        some (.seq (nextSeq xxh3 (cf.user req.op.key) req logIndex))
      else if key = userKey req.op.key then
        (nextRecord (cf.user req.op.key) req.op logIndex).map DataValue.user
      else cf[key]? := by
  unfold advance applyState outcome
  rw [hgate, getElem?_writeAll]
  simp only [lastWrite_append]
  have hlast : lastWrite [Mutation.put lastAppliedKey
      (DataValue.lastApplied { term := 0, index := logIndex })] key = none := by
    simp [lastWrite, hkey.symm]
  rw [hlast, Option.none_or]
  by_cases hseq : key = seqKey req.clientId
  · subst hseq
    simp [lastWrite]
  have hother : lastWrite [Mutation.put (seqKey req.clientId)
      (DataValue.seq (nextSeq xxh3 (cf.user req.op.key) req logIndex))] key = none := by
    simp [lastWrite, Ne.symm hseq]
  rw [hother, Option.none_or, if_neg hseq]
  cases hmutation : keyMutation (cf.user req.op.key) req.op logIndex with
  | none =>
    rw [nextRecord_of_keyMutation_eq_none hmutation, ← hcf.getElem?_userKey]
    by_cases huser : key = userKey req.op.key <;> simp [lastWrite, huser]
  | some m =>
    obtain ⟨hname, hwritten⟩ := keyMutation_eq_some hmutation
    by_cases huser : key = userKey req.op.key
    · simp [lastWrite, hname, hwritten, huser]
    · simp [lastWrite, hname, huser, Ne.symm huser]

/-! ### The records a request leaves -/

theorem user_advance (hcf : WellTyped cf) (req : DataRequest) (logIndex : UInt64) (key : Bytes) :
    (advance xxh3 cf req logIndex).user key =
      if gate xxh3 cf.recoveryEpoch (cf.seq req.clientId) req = none ∧ key = req.op.key then
        nextRecord (cf.user key) req.op logIndex
      else cf.user key := by
  have hlast : userKey key ≠ lastAppliedKey := userKey_ne_internal key _
  cases hgate : gate xxh3 cf.recoveryEpoch (cf.seq req.clientId) req with
  | some answer =>
    rw [if_neg (by simp), DataState.user, getElem?_advance_of_gate xxh3 hgate hlast]
    rfl
  | none =>
    rw [DataState.user, getElem?_advance_of_decided xxh3 hcf hgate hlast,
      if_neg (userKey_ne_seqKey key _)]
    by_cases hkey : key = req.op.key
    · subst hkey
      rw [if_pos rfl, if_pos ⟨rfl, rfl⟩]
      cases nextRecord (cf.user req.op.key) req.op logIndex <;> rfl
    · rw [if_neg (by simpa using hkey), if_neg (by simpa using hkey)]
      rfl

theorem seq_advance (hcf : WellTyped cf) (req : DataRequest) (logIndex : UInt64)
    (clientId : ClientId) :
    (advance xxh3 cf req logIndex).seq clientId =
      if gate xxh3 cf.recoveryEpoch (cf.seq req.clientId) req = none ∧ clientId = req.clientId then
        some (nextSeq xxh3 (cf.user req.op.key) req logIndex)
      else cf.seq clientId := by
  have hlast : seqKey clientId ≠ lastAppliedKey := seqKey_ne_internal clientId _
  cases hgate : gate xxh3 cf.recoveryEpoch (cf.seq req.clientId) req with
  | some answer =>
    rw [if_neg (by simp), DataState.seq, getElem?_advance_of_gate xxh3 hgate hlast]
    rfl
  | none =>
    rw [DataState.seq, getElem?_advance_of_decided xxh3 hcf hgate hlast]
    by_cases hclient : clientId = req.clientId
    · subst hclient
      rw [if_pos rfl, if_pos ⟨rfl, rfl⟩]
      rfl
    · rw [if_neg (by simpa using hclient), if_neg (seqKey_ne_userKey _ _),
        if_neg (by simpa using hclient)]
      rfl

@[simp] theorem recoveryEpoch_advance (hcf : WellTyped cf) (req : DataRequest)
    (logIndex : UInt64) : (advance xxh3 cf req logIndex).recoveryEpoch = cf.recoveryEpoch := by
  have hlast : recoveryEpochKey ≠ lastAppliedKey := by decide
  unfold DataState.recoveryEpoch
  cases hgate : gate xxh3 cf.recoveryEpoch (cf.seq req.clientId) req with
  | some answer => rw [getElem?_advance_of_gate xxh3 hgate hlast]
  | none =>
    have hseq : recoveryEpochKey ≠ seqKey req.clientId := internal_ne_seqKey _ _
    have huser : recoveryEpochKey ≠ userKey req.op.key := internal_ne_userKey _ _
    rw [getElem?_advance_of_decided xxh3 hcf hgate hlast, if_neg hseq, if_neg huser]

/-! ### What the gate lets through -/

/-- A request passes the gate exactly at the next sequence of its client, in the epoch of the group,
with a well-formed operation. -/
theorem gate_eq_none_iff {epoch : BitVec 128} {seq : Option SeqRecord} {req : DataRequest} :
    gate xxh3 epoch seq req = none ↔
      req.recoveryEpoch = epoch ∧ malformed req.op = false ∧
        req.sequence.toNat = (highest seq).toNat + 1 := by
  unfold gate
  split_ifs with hepoch hmalformed hsame hbelow
  · simp [hepoch]
  · simp [hmalformed]
  · rw [hsame]
    cases seq with
    | none => simp
    | some record =>
      simp only
      split_ifs <;> simp
  · have hlt := UInt64.lt_iff_toNat_lt.mp hbelow
    simp only [false_iff]
    omega
  · have habove : (highest seq).toNat < req.sequence.toNat := by
      have hne : req.sequence.toNat ≠ (highest seq).toNat := fun h ↦ hsame (UInt64.toNat_inj.mp h)
      have hnlt : ¬ req.sequence.toNat < (highest seq).toNat := fun h ↦
        hbelow (UInt64.lt_iff_toNat_lt.mpr h)
      omega
    cases hnext : checkedSucc (highest seq) with
    | none =>
      have hmax := checkedSucc_eq_none_iff.mp hnext
      have hbound := req.sequence.toNat_lt
      simp only [reduceCtorEq, false_iff, UInt64.size] at hmax ⊢
      omega
    | some expected =>
      have hexpected := toNat_checkedSucc hnext
      simp only
      split_ifs with hgap
      · have hlt := UInt64.lt_iff_toNat_lt.mp hgap
        simp only [false_iff]
        omega
      · have hnlt : ¬ expected.toNat < req.sequence.toNat := fun h ↦
          hgap (UInt64.lt_iff_toNat_lt.mpr h)
        have hepochs : req.recoveryEpoch = epoch := not_not.mp hepoch
        simp only [true_iff]
        exact ⟨hepochs, by simpa using hmalformed, by omega⟩

/-- Assumes: a well-formed request in the epoch of the group, at the highest sequence of its client
and with the digest recorded there. The gate replays the recorded result. -/
theorem gate_of_same {epoch : BitVec 128} {record : SeqRecord} {req : DataRequest}
    (hepoch : req.recoveryEpoch = epoch) (hmalformed : malformed req.op = false)
    (hsequence : record.highest = req.sequence) (hdigest : record.digest = digest xxh3 req.op) :
    gate xxh3 epoch (some record) req = some (.replayed record.result) := by
  simp [gate, highest, hepoch, hmalformed, hsequence, hdigest]

/-- The gate rejects, or replays the decision of the highest sequence for an operation of its
digest. -/
theorem gate_eq_some {epoch : BitVec 128} {seq : Option SeqRecord} {req : DataRequest}
    {answer : ApplyResult} (h : gate xxh3 epoch seq req = some answer) :
    (∃ reason, answer = .rejected reason) ∨
      ∃ record, seq = some record ∧ record.highest = req.sequence ∧
        record.digest = digest xxh3 req.op ∧ answer = .replayed record.result := by
  unfold gate at h
  split_ifs at h with hepoch hmalformed hsame hbelow
  · exact .inl ⟨_, (Option.some.inj h).symm⟩
  · exact .inl ⟨_, (Option.some.inj h).symm⟩
  · cases seq with
    | none => exact .inl ⟨_, (Option.some.inj h).symm⟩
    | some record =>
      simp only at h
      split_ifs at h with hdigest
      · exact .inr ⟨record, rfl, hsame.symm, hdigest, (Option.some.inj h).symm⟩
      · exact .inl ⟨_, (Option.some.inj h).symm⟩
  · exact .inl ⟨_, (Option.some.inj h).symm⟩
  · cases hnext : checkedSucc (highest seq) with
    | none =>
      rw [hnext] at h
      exact .inl ⟨_, (Option.some.inj h).symm⟩
    | some expected =>
      simp only [hnext, Option.ite_none_right_eq_some] at h
      exact .inl ⟨_, (Option.some.inj h.2).symm⟩

end DataStateMachine

end DalService.Partition
