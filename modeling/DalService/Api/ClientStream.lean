import DalService.Api.Client
import DalService.Partition.StreamHistory

/-!
# End-to-end client streams

One client's mutation path for a partition, composed with the replicated state machine of the
partition. `World` holds the client's stream and the call that holds its lock, the requests the
network may deliver (any number of times, at any later moment, or never), the committed log, how far
each replica has applied it, and the replies that were given. `Step` says what can happen: a call
starts, sends an attempt, receives a reply or is abandoned; the gateway refuses a request or answers
it in some other way; Raft commits a request; a replica applies the next entry of the log and
answers. Assumed of Raft: the replicas apply one log in order.

`Agreement` ties the client's volatile state to what the log decided: an attempt that can still be
decided is the pending operation at the sequence after the highest decided one. Every step keeps it
(`Agreement.step`). `end_to_end_stream` draws the conclusions for every reachable world.
-/

set_option autoImplicit false

namespace DalService.Api

open DalService.Foundation DalService.Partition DalService.Partition.DataStateMachine
open DalService.Transport (MsgType)

/-! ### The composed system -/

/-- A client, the network, the log of a partition and its replicas. `submitted` and `returned`
record the operations that were given a sequence and the calls that ended with an outcome. -/
structure World (R : Type) where
  stream : MutationStream
  call : Option PendingMutation
  submitted : List PendingMutation
  sent : List DataRequest
  log : List (UInt64 × DataRequest)
  replicas : R → ℕ × DataState
  replies : List (DataRequest × ClientReply)
  returned : List (PendingMutation × WriteReply)

/-- A new client, and replicas that hold the same records and have applied nothing yet. -/
def World.init (R : Type) (base : DataState) : World R where
  stream := .new
  call := none
  submitted := []
  sent := []
  log := []
  replicas := fun _ ↦ (0, base)
  replies := []
  returned := []

/-- The parameters of the composition: the hashes, the constants of the cluster, the client, and the
debug text of replies. -/
structure Setting where
  xxh3 : Bytes → BitVec 128
  xxh64 : Bytes → UInt64 → UInt64
  hashSpec : HashSpec
  p : UInt16
  client : ClientIdentity
  debug : ClientReply → String

/-- Why the gateways refuse a request to the client's partition. -/
def Setting.refusal (setting : Setting) (request : DataRequest) : Option String :=
  Api.refusal setting.xxh64 setting.hashSpec setting.p setting.client.partition request

/-- The replies that carry neither a result of the log nor a refusal. -/
def ClientReply.inconclusive : ClientReply → Bool
  | .mutation _ => false
  | .refused _ => false
  | _ => true

inductive Step {R : Type} [DecidableEq R] (setting : Setting) : World R → World R → Prop
  | start {w : World R} {op : DataOp} {mutation : PendingMutation} {next : MutationStream}
      (hidle : w.call = none)
      (hstart : setting.client.startMutation w.stream op = (.ok mutation, next)) :
      Step setting w { w with
        stream := next
        call := some mutation
        submitted := if w.stream.pending = none then w.submitted ++ [mutation] else w.submitted }
  | startFails {w : World R} {op : DataOp} {e : Error} {next : MutationStream}
      (hidle : w.call = none)
      (hstart : setting.client.startMutation w.stream op = (.error e, next)) :
      Step setting w { w with stream := next }
  | send {w : World R} {mutation : PendingMutation} (hcall : w.call = some mutation) :
      Step setting w { w with sent := w.sent ++ [setting.client.request mutation] }
  | commit {w : World R} {index : UInt64} {request : DataRequest}
      (hrequest : (request ∈ w.sent ∧ setting.refusal request = none) ∨
        request.clientId ≠ setting.client.clientId) :
      Step setting w { w with log := w.log ++ [(index, request)] }
  | apply {w : World R} {replica : R} {entry : UInt64 × DataRequest} {a : Answer} {next : DataState}
      (hentry : w.log[(w.replicas replica).1]? = some entry)
      (hanswer : answer setting.xxh3 (w.replicas replica).2 entry = .ok (a, next)) :
      Step setting w { w with
        replicas := Function.update w.replicas replica ((w.replicas replica).1 + 1, next)
        replies := w.replies ++ [(entry.2, .mutation (.fromApply a.result))] }
  | refuse {w : World R} {request : DataRequest} {message : String} (hsent : request ∈ w.sent)
      (hrefusal : setting.refusal request = some message) :
      Step setting w { w with replies := w.replies ++ [(request, .refused message)] }
  | reply {w : World R} {request : DataRequest} {reply : ClientReply} (hsent : request ∈ w.sent)
      (hreply : reply.inconclusive = true) :
      Step setting w { w with replies := w.replies ++ [(request, reply)] }
  | receive {w : World R} {mutation : PendingMutation} {reply : ClientReply}
      {result : Result WriteReply} {next : MutationStream} (hcall : w.call = some mutation)
      (hreply : (setting.client.request mutation, reply) ∈ w.replies)
      (hreturned : reply.returned = true)
      (hfinish : ClientIdentity.finishMutation setting.debug w.stream mutation.sequence reply =
        (result, next)) :
      Step setting w { w with
        stream := next
        call := none
        returned := w.returned ++ (result.toOption.map fun write ↦ (mutation, write)).toList }
  | abandon {w : World R} {mutation : PendingMutation} (hcall : w.call = some mutation) :
      Step setting w { w with call := none }

/-- The worlds a new client can reach. -/
def Reachable {R : Type} [DecidableEq R] (setting : Setting) (base : DataState) (w : World R) :
    Prop :=
  Relation.ReflTransGen (Step setting) (World.init R base) w

/-! ### What a call does to the stream -/

variable {op : DataOp} {mutation : PendingMutation} {next : MutationStream}

/-- The sequence of an operation is that of the pending operation, or the next one. -/
theorem MutationStream.nextMutationSequence_eq_ok {partition : UInt16}
    {stream reserved : MutationStream} {sequence : Sequence}
    (hsequence : stream.nextMutationSequence partition op = .ok (sequence, reserved)) :
    (stream.pending = some { sequence := sequence, op := op } ∧ reserved = stream) ∨
      (stream.pending = none ∧ stream.exhausted = false ∧ sequence = stream.nextSeq.getD 1 ∧
        reserved = { stream with nextSeq := some (stream.nextSeq.getD 1) }) := by
  unfold nextMutationSequence at hsequence
  cases hpending : stream.pending with
  | some existing =>
    rw [hpending] at hsequence
    by_cases hop : existing.op = op
    · simp only [if_pos hop, Except.ok.injEq, Prod.mk.injEq] at hsequence
      obtain ⟨rfl, rfl⟩ := hsequence
      exact .inl ⟨by rw [← hop], rfl⟩
    · simp [hop] at hsequence
  | none =>
    rw [hpending] at hsequence
    cases hexhausted : stream.exhausted with
    | true => simp [hexhausted] at hsequence
    | false =>
      simp only [hexhausted, Bool.false_eq_true, if_false, Except.ok.injEq, reserveSequence,
        Prod.mk.injEq] at hsequence
      obtain ⟨rfl, rfl⟩ := hsequence
      exact .inr ⟨rfl, rfl, rfl, by rw [hpending]⟩

namespace ClientIdentity

variable {client : ClientIdentity} {stream : MutationStream}

/-- A call that starts takes up the pending operation, or gives its own the next sequence. -/
theorem startMutation_eq_ok (hstart : client.startMutation stream op = (.ok mutation, next)) :
    mutation.op = op ∧
      (mutatePayload (client.request mutation)).length ≤ MsgType.clientOp.maxPayload ∧
      ((stream.pending = some mutation ∧ next = stream) ∨
        (stream.pending = none ∧ stream.exhausted = false ∧
          mutation.sequence = stream.nextSeq.getD 1 ∧
          next = { stream with nextSeq := some mutation.sequence, pending := some mutation })) := by
  unfold startMutation at hstart
  cases hsequence : stream.nextMutationSequence client.partition op with
  | error e => simp [hsequence] at hstart
  | ok reservation =>
    obtain ⟨sequence, reserved⟩ := reservation
    simp only [hsequence] at hstart
    split_ifs at hstart with hfits
    · simp at hstart
    · simp only [Prod.mk.injEq, Except.ok.injEq] at hstart
      obtain ⟨rfl, rfl⟩ := hstart
      refine ⟨rfl, Nat.le_of_not_lt hfits, ?_⟩
      rcases MutationStream.nextMutationSequence_eq_ok hsequence with
        ⟨hpending, rfl⟩ | ⟨hpending, hexhausted, rfl, rfl⟩
      · exact .inl ⟨hpending, by rw [hpending, Option.getD_some, ← hpending]⟩
      · exact .inr ⟨hpending, hexhausted, rfl, by rw [hpending, Option.getD_none]⟩

/-- A call that fails to start leaves the stream, or only notes its next sequence. -/
theorem startMutation_eq_error {e : Error}
    (hstart : client.startMutation stream op = (.error e, next)) :
    next = stream ∨
      (stream.pending = none ∧ next = { stream with nextSeq := some (stream.nextSeq.getD 1) }) := by
  unfold startMutation at hstart
  cases hsequence : stream.nextMutationSequence client.partition op with
  | error e =>
    simp only [hsequence, Prod.mk.injEq] at hstart
    exact .inl hstart.2.symm
  | ok reservation =>
    obtain ⟨sequence, reserved⟩ := reservation
    simp only [hsequence] at hstart
    split_ifs at hstart with hfits
    · simp only [Prod.mk.injEq] at hstart
      obtain ⟨-, rfl⟩ := hstart
      rcases MutationStream.nextMutationSequence_eq_ok hsequence with
        ⟨-, rfl⟩ | ⟨hpending, -, -, rfl⟩
      · exact .inl rfl
      · exact .inr ⟨hpending, rfl⟩
    · simp at hstart

/-- What a call makes of its reply: a decided outcome, the end of the pending operation, or an error
that leaves the stream. -/
theorem finishMutation_cases {debug : ClientReply → String} {sequence : Sequence}
    {reply : ClientReply} {result : Result WriteReply}
    (hfinish : finishMutation debug stream sequence reply = (result, next)) :
    (∃ outcome, reply = .mutation (.ofResult outcome) ∧ result = .ok (.ofResult outcome) ∧
        next = { stream.commitSequence sequence with pending := none }) ∨
      (∃ reason, reply = .mutation (.rejected reason)) ∨
      (∃ message e, reply = .refused message ∧ result = .error e ∧
        next = { stream with pending := none }) ∨
      ∃ e, result = .error e ∧ next = stream := by
  cases reply with
  | mutation write =>
    cases write with
    | applied version =>
      simp only [finishMutation, Prod.mk.injEq] at hfinish
      exact .inl ⟨.applied version, rfl, hfinish.1.symm, hfinish.2.symm⟩
    | conditionFailed current =>
      simp only [finishMutation, Prod.mk.injEq] at hfinish
      exact .inl ⟨.conditionFailed current, rfl, hfinish.1.symm, hfinish.2.symm⟩
    | rejected reason => exact .inr (.inl ⟨reason, rfl⟩)
  | refused message =>
    simp only [finishMutation, Prod.mk.injEq] at hfinish
    exact .inr (.inr (.inl ⟨message, _, rfl, hfinish.1.symm, hfinish.2.symm⟩))
  | recoveryEpochMismatch | value | redirect | recovering | error | unavailable | denied =>
    simp only [finishMutation, Prod.mk.injEq] at hfinish
    exact .inr (.inr (.inr ⟨_, hfinish.1.symm, hfinish.2.symm⟩))

theorem finishMutation_ofResult (debug : ClientReply → String) (stream : MutationStream)
    (sequence : Sequence) (outcome : MutationResult) :
    finishMutation debug stream sequence (.mutation (.ofResult outcome)) =
      (.ok (.ofResult outcome), { stream.commitSequence sequence with pending := none }) := by
  cases outcome <;> rfl

end ClientIdentity

/-- Assumes: the next sequence of the stream is decided. The stream moves on, or is exhausted after
the last sequence there is. -/
theorem MutationStream.commitSequence_eq {stream : MutationStream} {decided : Sequence}
    (hnext : stream.nextSeq = some decided) :
    (∃ next, next.toNat = decided.toNat + 1 ∧
        stream.commitSequence decided = { stream with nextSeq := some next }) ∨
      (decided.toNat = 2 ^ 64 - 1 ∧
        stream.commitSequence decided = { stream with nextSeq := none, exhausted := true }) := by
  unfold commitSequence
  rw [hnext, Option.getD_some]
  simp only [UInt64.le_refl, if_true]
  cases hsucc : checkedSucc decided with
  | some next => exact .inl ⟨next, toNat_checkedSucc hsucc, rfl⟩
  | none => exact .inr ⟨checkedSucc_eq_none_iff.mp hsucc, rfl⟩

/-- The gateways let no malformed operation pass. -/
theorem malformed_of_refusal {setting : Setting} {request : DataRequest}
    (hrefusal : setting.refusal request = none) : malformed request.op = false := by
  unfold Setting.refusal refusal at hrefusal
  simp only at hrefusal
  split_ifs at hrefusal with hoversized habsent
  cases hop : request.op with
  | put key value condition => simpa [hop, oversized, malformed] using hoversized
  | delete key condition =>
    rw [hop] at habsent
    rcases condition with _ | _ | _ <;> simp_all [absentDelete, malformed]

/-! ### What the client and the log agree on -/

variable {R : Type} {setting : Setting} {base : DataState} {w : World R} {history : List Answer}
  {cf : DataState}

/-- The client's stream and what the log decided for it. An attempt the gateways let pass is decided
already, or it is the pending operation (`undecided`), whose sequence follows the highest decided
one or was decided last, for that operation (`pending`). -/
structure Agreement (setting : Setting) (base : DataState) (w : World R) (history : List Answer)
    (cf : DataState) : Prop where
  run_eq : run (answer setting.xxh3) base w.log = .ok (history, cf)
  streams : StreamInvariant setting.xxh3 base history cf
  replicas : ∀ replica, (w.replicas replica).1 ≤ w.log.length ∧
    ∃ applied, run (answer setting.xxh3) base (w.log.take (w.replicas replica).1) =
      .ok (applied, (w.replicas replica).2)
  sent : ∀ request ∈ w.sent, ∃ mutation ∈ w.submitted, request = setting.client.request mutation
  undecided : ∀ request ∈ w.sent, setting.refusal request = none →
    (∃ d ∈ stream setting.client.clientId history, d.request = request) ∨
      ∃ mutation, w.stream.pending = some mutation ∧ request = setting.client.request mutation
  pending : ∀ mutation, w.stream.pending = some mutation →
    mutation ∈ w.submitted ∧
      (mutatePayload (setting.client.request mutation)).length ≤ MsgType.clientOp.maxPayload ∧
      w.stream.nextSeq = some mutation.sequence ∧ w.stream.exhausted = false ∧
      (mutation.sequence.toNat = (stream setting.client.clientId history).length + 1 ∨
        (mutation.sequence.toNat = (stream setting.client.clientId history).length ∧
          ∃ d ∈ stream setting.client.clientId history,
            d.request = setting.client.request mutation))
  idle : w.stream.pending = none →
    (w.stream.exhausted = true ∧
      (stream setting.client.clientId history).length = 2 ^ 64 - 1) ∨
    (w.stream.exhausted = false ∧
      (w.stream.nextSeq.getD 1).toNat = (stream setting.client.clientId history).length + 1)
  call : ∀ mutation, w.call = some mutation → w.stream.pending = some mutation
  decided : ∀ d ∈ stream setting.client.clientId history, setting.refusal d.request = none ∧
    ∃ mutation ∈ w.submitted, d.request = setting.client.request mutation
  answered : ∀ a ∈ history, a.request.clientId = setting.client.clientId →
    (∃ result, a.result = .decided result ∨ a.result = .replayed result) ∨
      a.request.sequence.toNat < (stream setting.client.clientId history).length
  mutated : ∀ request write, (request, ClientReply.mutation write) ∈ w.replies →
    ∃ a ∈ history, a.request = request ∧ write = .fromApply a.result
  refused : ∀ request message, (request, ClientReply.refused message) ∈ w.replies →
    setting.refusal request ≠ none
  returned : ∀ mutation write, (mutation, write) ∈ w.returned →
    ∃ d ∈ stream setting.client.clientId history,
      d.request = setting.client.request mutation ∧ write = .ofResult d.result

/-- The records a client starts from: it has no sequence record yet, and the group is in the
client's recovery epoch. -/
structure Fresh (setting : Setting) (base : DataState) : Prop where
  wellTyped : WellTyped base
  seq : base.seq setting.client.clientId = none
  recoveryEpoch : base.recoveryEpoch = setting.client.recoveryEpoch

namespace Agreement

theorem init (hfresh : Fresh setting base) :
    Agreement setting base (World.init R base) [] base where
  run_eq := rfl
  streams := StreamInvariant.init hfresh.wellTyped
  replicas := fun _ ↦ ⟨Nat.zero_le _, [], rfl⟩
  sent := by simp [World.init]
  undecided := by simp [World.init]
  pending := by simp [World.init, MutationStream.new]
  idle := fun _ ↦ .inr ⟨rfl, rfl⟩
  call := by simp [World.init]
  decided := by simp [stream, decisions]
  answered := by simp
  mutated := by simp [World.init]
  refused := by simp [World.init]
  returned := by simp [World.init]

/-! #### Steps of the client and the network -/

theorem start (h : Agreement setting base w history cf)
    (hstart : setting.client.startMutation w.stream op = (.ok mutation, next)) :
    Agreement setting base { w with
      stream := next
      call := some mutation
      submitted := if w.stream.pending = none then w.submitted ++ [mutation] else w.submitted }
      history cf := by
  obtain ⟨-, hfits, ⟨hpending, rfl⟩ | ⟨hpending, hexhausted, hsequence, rfl⟩⟩ :=
    ClientIdentity.startMutation_eq_ok hstart
  · rw [if_neg (by simp [hpending])]
    exact { h with call := fun other hother ↦ by rw [← Option.some.inj hother, hpending] }
  · rw [if_pos hpending]
    have hmember : ∀ {other}, other ∈ w.submitted → other ∈ w.submitted ++ [mutation] :=
      fun hother ↦ List.mem_append_left _ hother
    refine { h with
      sent := fun request hrequest ↦ ?_, undecided := fun request hrequest hrefusal ↦ ?_,
      pending := fun other hother ↦ ?_, idle := fun hnone ↦ absurd hnone (by simp),
      call := fun other hother ↦ hother, decided := fun d hd ↦ ?_ }
    · obtain ⟨other, hother, heq⟩ := h.sent request hrequest
      exact ⟨other, hmember hother, heq⟩
    · rcases h.undecided request hrequest hrefusal with hdecided | ⟨other, hother, -⟩
      · exact .inl hdecided
      · rw [hpending] at hother
        cases hother
    · cases hother
      refine ⟨List.mem_append_right _ List.mem_cons_self, hfits, rfl, hexhausted, .inl ?_⟩
      rcases h.idle hpending with ⟨htrue, -⟩ | ⟨-, hcount⟩
      · rw [hexhausted] at htrue
        cases htrue
      · rw [hsequence, hcount]
    · obtain ⟨hrefusal, other, hother, heq⟩ := h.decided d hd
      exact ⟨hrefusal, other, hmember hother, heq⟩

theorem startFails (h : Agreement setting base w history cf) {e : Error}
    (hstart : setting.client.startMutation w.stream op = (.error e, next)) :
    Agreement setting base { w with stream := next } history cf := by
  rcases ClientIdentity.startMutation_eq_error hstart with rfl | ⟨hpending, rfl⟩
  · exact h
  · exact { h with
      pending := fun other hother ↦ by
        change w.stream.pending = some other at hother
        rw [hpending] at hother
        cases hother
      idle := fun _ ↦ h.idle hpending }

theorem send (h : Agreement setting base w history cf) (hcall : w.call = some mutation) :
    Agreement setting base { w with sent := w.sent ++ [setting.client.request mutation] }
      history cf := by
  have hpending := h.call mutation hcall
  refine { h with
    sent := fun request hrequest ↦ ?_, undecided := fun request hrequest hrefusal ↦ ?_ }
  · rcases List.mem_append.mp hrequest with hold | hnew
    · exact h.sent request hold
    · rw [List.mem_singleton] at hnew
      exact ⟨mutation, (h.pending mutation hpending).1, hnew⟩
  · rcases List.mem_append.mp hrequest with hold | hnew
    · exact h.undecided request hold hrefusal
    · rw [List.mem_singleton] at hnew
      exact .inr ⟨mutation, hpending, hnew⟩

theorem abandon (h : Agreement setting base w history cf) :
    Agreement setting base { w with call := none } history cf :=
  { h with call := fun mutation hcall ↦ by cases hcall }

theorem refuse (h : Agreement setting base w history cf) {request : DataRequest}
    {message : String} (hrefusal : setting.refusal request = some message) :
    Agreement setting base { w with replies := w.replies ++ [(request, .refused message)] }
      history cf := by
  refine { h with
    mutated := fun other write hreply ↦ ?_, refused := fun other text hreply ↦ ?_ }
  · rcases List.mem_append.mp hreply with hold | hnew
    · exact h.mutated other write hold
    · simp at hnew
  · rcases List.mem_append.mp hreply with hold | hnew
    · exact h.refused other text hold
    · rw [List.mem_singleton, Prod.mk.injEq] at hnew
      rw [hnew.1, hrefusal]
      simp

theorem reply (h : Agreement setting base w history cf) {request : DataRequest}
    {reply : ClientReply} (hreply : reply.inconclusive = true) :
    Agreement setting base { w with replies := w.replies ++ [(request, reply)] } history cf := by
  refine { h with
    mutated := fun other write hmem ↦ ?_, refused := fun other text hmem ↦ ?_ }
  · rcases List.mem_append.mp hmem with hold | hnew
    · exact h.mutated other write hold
    · rw [List.mem_singleton, Prod.mk.injEq] at hnew
      rw [← hnew.2] at hreply
      cases hreply
  · rcases List.mem_append.mp hmem with hold | hnew
    · exact h.refused other text hold
    · rw [List.mem_singleton, Prod.mk.injEq] at hnew
      rw [← hnew.2] at hreply
      cases hreply

/-- Assumes: a result of the log for the pending operation. It is the decision of that operation,
and the sequence of the operation is the highest decided one. -/
theorem decision_of_reply (h : Agreement setting base w history cf) (hfresh : Fresh setting base)
    {write : WriteReply} (hpending : w.stream.pending = some mutation)
    (hreply : (setting.client.request mutation, ClientReply.mutation write) ∈ w.replies) :
    ∃ d ∈ stream setting.client.clientId history, d.request = setting.client.request mutation ∧
      write = .ofResult d.result ∧
      mutation.sequence.toNat = (stream setting.client.clientId history).length := by
  obtain ⟨a, ha, hrequest, rfl⟩ := h.mutated _ _ hreply
  have hclient : a.request.clientId = setting.client.clientId := by rw [hrequest]; rfl
  have hsequence : a.request.sequence = mutation.sequence := by rw [hrequest]; rfl
  obtain ⟨-, -, -, -, hposition⟩ := h.pending mutation hpending
  have hdecision : ∃ d ∈ stream setting.client.clientId history,
      d.request.sequence = mutation.sequence ∧
        WriteReply.fromApply a.result = .ofResult d.result := by
    rcases h.answered a ha hclient with ⟨result, hdecided | hreplayed⟩ | hstale
    · refine ⟨{ index := a.index, request := a.request, result := result }, ?_, hsequence,
        by rw [hdecided]; rfl⟩
      exact mem_stream_of_decided ha hdecided hclient
    · obtain ⟨d, hd, hsame, hresult, -⟩ := h.streams.replayed a ha (by rw [hclient, hfresh.seq])
        result hreplayed
      rw [hclient] at hd
      exact ⟨d, hd, hsame.trans hsequence, by rw [hreplayed, hresult]; rfl⟩
    · rw [hsequence] at hstale
      omega
  obtain ⟨d, hd, hsame, hwrite⟩ := hdecision
  have hbound := h.streams.sequence_le hfresh.seq hd
  rw [hsame] at hbound
  rcases hposition with hnext | ⟨hlast, e, he, hrecorded⟩
  · omega
  · have heq : e = d := h.streams.eq_of_sequence_eq hfresh.seq he hd (by rw [hrecorded, hsame]; rfl)
    exact ⟨d, hd, heq ▸ hrecorded, hwrite, hlast⟩

theorem receive (h : Agreement setting base w history cf) (hfresh : Fresh setting base)
    {reply : ClientReply} {result : Result WriteReply} (hcall : w.call = some mutation)
    (hreply : (setting.client.request mutation, reply) ∈ w.replies)
    (hfinish : ClientIdentity.finishMutation setting.debug w.stream mutation.sequence reply =
      (result, next)) :
    Agreement setting base { w with
      stream := next
      call := none
      returned := w.returned ++ (result.toOption.map fun write ↦ (mutation, write)).toList }
      history cf := by
  have hpending := h.call mutation hcall
  obtain ⟨-, -, hnext, hexhausted, hposition⟩ := h.pending mutation hpending
  rcases ClientIdentity.finishMutation_cases hfinish with ⟨outcome, rfl, rfl, rfl⟩ |
    ⟨reason, rfl⟩ | ⟨message, e, rfl, rfl, rfl⟩ | ⟨e, rfl, rfl⟩
  · obtain ⟨d, hd, hrequest, hwrite, hlast⟩ := h.decision_of_reply hfresh hpending hreply
    refine { h with
      undecided := fun request hrequest' hrefusal ↦ ?_
      pending := fun _ hother ↦ by cases hother
      idle := fun _ ↦ ?_
      call := fun _ hother ↦ by cases hother
      returned := fun other write hreturned ↦ ?_ }
    · rcases h.undecided request hrequest' hrefusal with hdecided | ⟨other, hother, hsame⟩
      · exact .inl hdecided
      · rw [hpending] at hother
        cases hother
        exact .inl ⟨d, hd, hrequest.trans hsame.symm⟩
    · rcases MutationStream.commitSequence_eq hnext with ⟨following, hfollowing, heq⟩ | ⟨hmax, heq⟩
      · rw [heq]
        refine .inr ⟨hexhausted, ?_⟩
        simp only [Option.getD_some]
        omega
      · rw [heq]
        exact .inl ⟨rfl, by omega⟩
    · rcases List.mem_append.mp hreturned with hold | hnew
      · exact h.returned other write hold
      · simp only [Except.toOption, Option.map_some, Option.toList_some, List.mem_singleton,
          Prod.mk.injEq] at hnew
        obtain ⟨rfl, rfl⟩ := hnew
        exact ⟨d, hd, hrequest, hwrite⟩
  · obtain ⟨d, -, -, hwrite, -⟩ := h.decision_of_reply hfresh hpending hreply
    cases hd : d.result <;> simp [hd, WriteReply.ofResult] at hwrite
  · have hrefused := h.refused _ _ hreply
    have hfollows : mutation.sequence.toNat =
        (stream setting.client.clientId history).length + 1 := by
      rcases hposition with hfollows | ⟨-, d, hd, hrequest⟩
      · exact hfollows
      · rw [← hrequest] at hrefused
        exact absurd (h.decided d hd).1 hrefused
    refine { h with
      undecided := fun request hrequest hrefusal ↦ ?_
      pending := fun _ hother ↦ by cases hother
      idle := fun _ ↦ .inr ⟨hexhausted, by simp [hnext, hfollows]⟩
      call := fun _ hother ↦ by cases hother
      returned := fun other write hreturned ↦ by
        simp only [Except.toOption, Option.map_none, Option.toList_none, List.append_nil]
          at hreturned
        exact h.returned other write hreturned }
    rcases h.undecided request hrequest hrefusal with hdecided | ⟨other, hother, rfl⟩
    · exact .inl hdecided
    · rw [hpending] at hother
      cases hother
      exact absurd hrefusal hrefused
  · exact { h with
      call := fun _ hother ↦ by cases hother
      returned := fun other write hreturned ↦ by
        simp only [Except.toOption, Option.map_none, Option.toList_none, List.append_nil]
          at hreturned
        exact h.returned other write hreturned }

/-! #### Steps of the log and the replicas -/

/-- Assumes: a request whose answer extends the history without a decision for the client. -/
theorem extend_of_undecided (h : Agreement setting base w history cf) {entry : UInt64 × DataRequest}
    {a : Answer} {next : DataState} (hanswer : answer setting.xxh3 cf entry = .ok (a, next))
    (hstreams : StreamInvariant setting.xxh3 base (history ++ [a]) next)
    (hsame : stream setting.client.clientId (history ++ [a]) =
      stream setting.client.clientId history)
    (hanswered : a.request.clientId = setting.client.clientId →
      (∃ result, a.result = .decided result ∨ a.result = .replayed result) ∨
        a.request.sequence.toNat < (stream setting.client.clientId history).length) :
    Agreement setting base { w with log := w.log ++ [entry] } (history ++ [a]) next where
  run_eq := run_concat h.run_eq hanswer
  streams := hstreams
  replicas := fun replica ↦ by
    obtain ⟨hle, applied, hrun⟩ := h.replicas replica
    refine ⟨by rw [List.length_append]; exact Nat.le_add_right_of_le hle, applied, ?_⟩
    rw [List.take_append_of_le_length hle]
    exact hrun
  sent := h.sent
  undecided := by rw [hsame]; exact h.undecided
  pending := by rw [hsame]; exact h.pending
  idle := by rw [hsame]; exact h.idle
  call := h.call
  decided := by rw [hsame]; exact h.decided
  answered := fun b hb hclient ↦ by
    rw [hsame]
    rcases List.mem_append.mp hb with hold | hnew
    · exact h.answered b hold hclient
    · rw [List.mem_singleton] at hnew
      subst hnew
      exact hanswered hclient
  mutated := fun request write hreply ↦ by
    obtain ⟨b, hb, hrest⟩ := h.mutated request write hreply
    exact ⟨b, List.mem_append_left _ hb, hrest⟩
  refused := h.refused
  returned := by rw [hsame]; exact h.returned

/-- Assumes: the pending operation, at the sequence after the highest, is decided. -/
theorem extend_of_decided (h : Agreement setting base w history cf)
    {entry : UInt64 × DataRequest} {a : Answer} {next : DataState} {d : Decision}
    (hanswer : answer setting.xxh3 cf entry = .ok (a, next))
    (hstreams : StreamInvariant setting.xxh3 base (history ++ [a]) next)
    (hpending : w.stream.pending = some mutation)
    (hsequence : mutation.sequence.toNat = (stream setting.client.clientId history).length + 1)
    (hrefusal : setting.refusal (setting.client.request mutation) = none)
    (hrequest : d.request = setting.client.request mutation)
    (hextended : stream setting.client.clientId (history ++ [a]) =
      stream setting.client.clientId history ++ [d])
    (hanswered : ∃ result, a.result = .decided result) :
    Agreement setting base { w with log := w.log ++ [entry] } (history ++ [a]) next := by
  have hd : d ∈ stream setting.client.clientId (history ++ [a]) := by
    rw [hextended]
    exact List.mem_append_right _ List.mem_cons_self
  have hlength : (stream setting.client.clientId (history ++ [a])).length =
      (stream setting.client.clientId history).length + 1 := by
    rw [hextended, List.length_append, List.length_singleton]
  have hkeep : ∀ {e}, e ∈ stream setting.client.clientId history →
      e ∈ stream setting.client.clientId (history ++ [a]) := by
    intro e he
    rw [hextended]
    exact List.mem_append_left _ he
  obtain ⟨hsubmitted, hfits, hnext, hexhausted, -⟩ := h.pending mutation hpending
  refine ⟨run_concat h.run_eq hanswer, hstreams,
    fun replica ↦ ?_, h.sent, ?_, ?_, ?_, h.call, ?_, ?_, ?_, h.refused, ?_⟩
  · obtain ⟨hle, applied, hrun⟩ := h.replicas replica
    refine ⟨by rw [List.length_append]; exact Nat.le_add_right_of_le hle, applied, ?_⟩
    rw [List.take_append_of_le_length hle]
    exact hrun
  · intro request hsent hpasses
    rcases h.undecided request hsent hpasses with ⟨e, he, heq⟩ | hwaiting
    · exact .inl ⟨e, hkeep he, heq⟩
    · exact .inr hwaiting
  · intro other hother
    change w.stream.pending = some other at hother
    rw [hpending] at hother
    cases hother
    exact ⟨hsubmitted, hfits, hnext, hexhausted,
      .inr ⟨by rw [hlength, hsequence], d, hd, hrequest⟩⟩
  · intro hnone
    change w.stream.pending = none at hnone
    rw [hpending] at hnone
    cases hnone
  · intro e he
    rw [hextended] at he
    rcases List.mem_append.mp he with hold | hnew
    · exact h.decided e hold
    · rw [List.mem_singleton] at hnew
      subst hnew
      exact ⟨by rw [hrequest]; exact hrefusal, mutation, hsubmitted, hrequest⟩
  · intro b hb hclient
    rcases List.mem_append.mp hb with hold | hnew
    · rcases h.answered b hold hclient with hfine | hstale
      · exact .inl hfine
      · exact .inr (by omega)
    · rw [List.mem_singleton] at hnew
      subst hnew
      obtain ⟨result, hresult⟩ := hanswered
      exact .inl ⟨result, .inl hresult⟩
  · intro request write hreply
    obtain ⟨b, hb, hrest⟩ := h.mutated request write hreply
    exact ⟨b, List.mem_append_left _ hb, hrest⟩
  · intro other write hreturned
    obtain ⟨e, he, hrest⟩ := h.returned other write hreturned
    exact ⟨e, hkeep he, hrest⟩

/-- Assumes: a request of the client that the gateways let pass. At the sequence after the highest
it is decided. -/
theorem decided_of_next (h : Agreement setting base w history cf) (hfresh : Fresh setting base)
    (hrefusal : setting.refusal (setting.client.request mutation) = none)
    (hsequence : mutation.sequence.toNat = (stream setting.client.clientId history).length + 1) :
    gate setting.xxh3 cf.recoveryEpoch (cf.seq setting.client.clientId)
      (setting.client.request mutation) = none := by
  rw [gate_eq_none_iff]
  refine ⟨?_, malformed_of_refusal hrefusal, ?_⟩
  · rw [h.streams.recoveryEpoch, hfresh.recoveryEpoch]
    rfl
  · rw [h.streams.highest_eq_length hfresh.seq]
    exact hsequence

/-- Assumes: a request of the client whose sequence was decided for it. It is replayed, or stale. -/
theorem answered_of_decided (h : Agreement setting base w history cf) (hfresh : Fresh setting base)
    {d : Decision} (hd : d ∈ stream setting.client.clientId history) :
    ∃ told, gate setting.xxh3 cf.recoveryEpoch (cf.seq setting.client.clientId) d.request =
        some told ∧
      ((∃ result, told = .replayed result) ∨
        d.request.sequence.toNat < (stream setting.client.clientId history).length) := by
  obtain ⟨hrefusal, mutation, -, hrequest⟩ := h.decided d hd
  have hbound := h.streams.sequence_le hfresh.seq hd
  rcases Nat.lt_or_eq_of_le hbound with hstale | hlast
  · cases hgate : gate setting.xxh3 cf.recoveryEpoch (cf.seq setting.client.clientId) d.request with
    | some told => exact ⟨told, rfl, .inr hstale⟩
    | none =>
      have hnext := ((gate_eq_none_iff setting.xxh3).mp hgate).2.2
      rw [h.streams.highest_eq_length hfresh.seq] at hnext
      omega
  · obtain ⟨e, he⟩ : ∃ e, (stream setting.client.clientId history).getLast? = some e := by
      cases hempty : (stream setting.client.clientId history).getLast? with
      | some e => exact ⟨e, rfl⟩
      | none =>
        rw [List.getLast?_eq_none_iff] at hempty
        rw [hempty] at hd
        cases hd
    have hhighest := h.streams.highest_eq_length hfresh.seq
    rw [h.streams.record _ hfresh.seq, he] at hhighest ⊢
    have hsame : e.request.sequence = d.request.sequence :=
      UInt64.toNat_inj.mp (hhighest.trans hlast.symm)
    have heq : e = d := h.streams.eq_of_sequence_eq hfresh.seq (List.mem_of_getLast? he) hd hsame
    refine ⟨.replayed e.result, ?_, .inl ⟨e.result, rfl⟩⟩
    refine gate_of_same setting.xxh3 ?_ (malformed_of_refusal hrefusal) hsame (by rw [heq]; rfl)
    rw [h.streams.recoveryEpoch, hfresh.recoveryEpoch, hrequest]
    rfl

theorem commit (h : Agreement setting base w history cf) (hfresh : Fresh setting base)
    (index : UInt64) {request : DataRequest}
    (hrequest : (request ∈ w.sent ∧ setting.refusal request = none) ∨
      request.clientId ≠ setting.client.clientId) :
    ∃ a next, Agreement setting base { w with log := w.log ++ [(index, request)] }
      (history ++ [a]) next := by
  obtain ⟨a, next, hanswer, -, hstreams⟩ := h.streams.answer (index, request)
  refine ⟨a, next, ?_⟩
  have hanswer' := hanswer
  rw [answer_eq setting.xxh3 h.streams.wellTyped] at hanswer'
  simp only [Except.ok.injEq, Prod.mk.injEq] at hanswer'
  obtain ⟨ha, -⟩ := hanswer'
  have hown : a.request = request := by rw [← ha]
  -- A request of the client whose sequence was decided for it leaves its stream alone.
  have hrepeat : ∀ d ∈ stream setting.client.clientId history, d.request = request →
      Agreement setting base { w with log := w.log ++ [(index, request)] }
        (history ++ [a]) next := by
    rintro d hd rfl
    obtain ⟨told, hgate, htold⟩ := h.answered_of_decided hfresh hd
    obtain ⟨-, mutation, -, hmutation⟩ := h.decided d hd
    have hclient : d.request.clientId = setting.client.clientId := by rw [hmutation]; rfl
    have hresult : a.result = told := by
      rw [← ha]
      simp only [outcome, hclient, hgate]
    refine h.extend_of_undecided hanswer hstreams ?_ fun _ ↦ ?_
    · rw [stream_append, stream_singleton_of_none, List.append_nil]
      unfold Answer.decision
      rw [hresult]
      rcases gate_eq_some setting.xxh3 hgate with ⟨reason, rfl⟩ | ⟨record, -, -, -, rfl⟩ <;> rfl
    · rw [hresult, hown]
      rcases htold with ⟨result, rfl⟩ | hstale
      · exact .inl ⟨result, .inr rfl⟩
      · exact .inr hstale
  rcases hrequest with ⟨hsent, hrefusal⟩ | hother
  · rcases h.undecided request hsent hrefusal with ⟨d, hd, hsame⟩ | ⟨mutation, hpending, rfl⟩
    · exact hrepeat d hd hsame
    · rcases (h.pending mutation hpending).2.2.2.2 with hfollows | ⟨-, d, hd, hsame⟩
      · have hgate := h.decided_of_next hfresh hrefusal hfollows
        have hresult : a.result = .decided (decision
            (cf.user (setting.client.request mutation).op.key) (setting.client.request mutation).op
            index) := by
          rw [← ha]
          simp only [outcome, ClientIdentity.request] at hgate ⊢
          rw [hgate]
        obtain ⟨d, hd, hdecided⟩ : ∃ d, a.decision = some d ∧ d.request = a.request := by
          rw [Answer.decision, hresult]
          exact ⟨_, rfl, rfl⟩
        refine h.extend_of_decided hanswer hstreams hpending hfollows hrefusal
          (hdecided.trans hown) ?_ ⟨_, hresult⟩
        rw [stream_append, stream_singleton_of_some hd, if_pos (by rw [hdecided, hown]; rfl)]
      · exact hrepeat d hd hsame
  · refine h.extend_of_undecided hanswer hstreams ?_ fun hclient ↦ ?_
    · rw [stream_append, stream_singleton_of_ne (by rw [hown]; exact hother), List.append_nil]
    · rw [hown] at hclient
      exact absurd hclient hother

theorem apply [DecidableEq R] (h : Agreement setting base w history cf) {replica : R}
    {entry : UInt64 × DataRequest} {a : Answer} {next : DataState}
    (hentry : w.log[(w.replicas replica).1]? = some entry)
    (hanswer : answer setting.xxh3 (w.replicas replica).2 entry = .ok (a, next)) :
    Agreement setting base { w with
      replicas := Function.update w.replicas replica ((w.replicas replica).1 + 1, next)
      replies := w.replies ++ [(entry.2, .mutation (.fromApply a.result))] } history cf := by
  obtain ⟨-, applied, hrun⟩ := h.replicas replica
  have hnext := run_concat hrun hanswer
  have htake : w.log.take (w.replicas replica).1 ++ [entry] =
      w.log.take ((w.replicas replica).1 + 1) := by
    rw [List.take_add_one, hentry]
    rfl
  rw [htake] at hnext
  have hmem : a ∈ history := by
    have hwhole := run_append hnext (w.log.drop ((w.replicas replica).1 + 1))
    rw [List.take_append_drop, h.run_eq] at hwhole
    cases hrest : run (answer setting.xxh3) next (w.log.drop ((w.replicas replica).1 + 1)) with
    | error e =>
      rw [hrest] at hwhole
      cases hwhole
    | ok rest =>
      rw [hrest] at hwhole
      cases hwhole
      simp
  refine { h with
    replicas := fun other ↦ ?_
    mutated := fun request write hreply ↦ ?_
    refused := fun request message hreply ↦ ?_ }
  · by_cases hother : other = replica
    · subst hother
      simp only [Function.update_self]
      exact ⟨(List.getElem?_eq_some_iff.mp hentry).1, applied ++ [a], hnext⟩
    · simp only [Function.update_of_ne hother]
      exact h.replicas other
  · rcases List.mem_append.mp hreply with hold | hnew
    · exact h.mutated request write hold
    · simp only [List.mem_singleton, Prod.mk.injEq, ClientReply.mutation.injEq] at hnew
      refine ⟨a, hmem, ?_, hnew.2⟩
      rw [hnew.1, ← entry_of_answer setting.xxh3 hanswer]
      rfl
  · rcases List.mem_append.mp hreply with hold | hnew
    · exact h.refused request message hold
    · simp at hnew

/-- Every step keeps the agreement. -/
theorem step [DecidableEq R] {w' : World R} (h : Agreement setting base w history cf)
    (hfresh : Fresh setting base) (hstep : Step setting w w') :
    ∃ history' cf', Agreement setting base w' history' cf' := by
  cases hstep with
  | start _ hstart => exact ⟨_, _, h.start hstart⟩
  | startFails _ hstart => exact ⟨_, _, h.startFails hstart⟩
  | send hcall => exact ⟨_, _, h.send hcall⟩
  | commit hrequest =>
    obtain ⟨a, next, hnext⟩ := h.commit hfresh _ hrequest
    exact ⟨_, _, hnext⟩
  | apply hentry hanswer => exact ⟨_, _, h.apply hentry hanswer⟩
  | refuse _ hrefusal => exact ⟨_, _, h.refuse hrefusal⟩
  | reply _ hreply => exact ⟨_, _, h.reply hreply⟩
  | receive hcall hreply _ hfinish => exact ⟨_, _, h.receive hfresh hcall hreply hfinish⟩
  | abandon _ => exact ⟨_, _, h.abandon⟩

end Agreement

/-- Wherever the steps lead, client and log agree. -/
theorem exists_agreement_of_steps [DecidableEq R] {setting : Setting} {base : DataState}
    {w w' : World R} (hfresh : Fresh setting base)
    (h : Agreement setting base w history cf) (hsteps : Relation.ReflTransGen (Step setting) w w') :
    ∃ history' cf', Agreement setting base w' history' cf' :=
  invariant_of_reachable (P := fun w ↦ ∃ history cf, Agreement setting base w history cf)
    ⟨history, cf, h⟩ (fun ⟨_, _, h⟩ hstep ↦ h.step hfresh hstep) hsteps

/-! ### The stream never wedges -/

/-- The sequence the next attempt carries: the pending one, else the next unused one. -/
def MutationStream.candidate (stream : MutationStream) : Sequence :=
  match stream.pending with
  | some mutation => mutation.sequence
  | none => stream.nextSeq.getD 1

/-- Assumes: the pending operation is submitted again, or nothing is pending and the request fits a
frame. The call starts at the candidate sequence. -/
theorem ClientIdentity.exists_startMutation {client : ClientIdentity} {stream : MutationStream}
    (hexhausted : stream.exhausted = false)
    (hsame : ∀ mutation, stream.pending = some mutation → mutation.op = op)
    (hfits : (mutatePayload (client.request { sequence := stream.candidate, op := op })).length ≤
      MsgType.clientOp.maxPayload) :
    ∃ next, client.startMutation stream op =
      (.ok { sequence := stream.candidate, op := op }, next) := by
  unfold startMutation MutationStream.nextMutationSequence
  unfold MutationStream.candidate at hfits ⊢
  cases hpending : stream.pending with
  | some existing =>
    simp only [hpending, hsame existing hpending, if_true] at hfits ⊢
    rw [if_neg (Nat.not_lt.mpr hfits)]
    exact ⟨_, rfl⟩
  | none =>
    simp only [hpending, hexhausted, Bool.false_eq_true, if_false,
      MutationStream.reserveSequence] at hfits ⊢
    rw [if_neg (Nat.not_lt.mpr hfits)]
    exact ⟨_, rfl⟩

section Progress

variable [DecidableEq R]

open Relation

/-- A replica can apply the rest of the log, and then every entry it had not applied is answered. -/
theorem exists_catchUp (hfresh : Fresh setting base)
    (h : Agreement setting base w history cf) (replica : R) :
    ∃ w', ReflTransGen (Step setting) w w' ∧ w'.stream = w.stream ∧ w'.call = w.call ∧
      w'.returned = w.returned ∧ (∀ reply ∈ w.replies, reply ∈ w'.replies) ∧
      ∀ k entry, (w.replicas replica).1 ≤ k → w.log[k]? = some entry →
        ∃ write, (entry.2, ClientReply.mutation write) ∈ w'.replies := by
  obtain ⟨gap, hgap⟩ := Nat.exists_eq_add_of_le (h.replicas replica).1
  induction gap generalizing w with
  | zero =>
    refine ⟨w, ReflTransGen.refl, rfl, rfl, rfl, fun _ hreply ↦ hreply, fun k entry hk hentry ↦ ?_⟩
    have hlt := (List.getElem?_eq_some_iff.mp hentry).1
    omega
  | succ gap ih =>
    obtain ⟨entry, hentry⟩ : ∃ entry, w.log[(w.replicas replica).1]? = some entry :=
      ⟨_, List.getElem?_eq_getElem (by omega)⟩
    obtain ⟨-, applied, hrun⟩ := h.replicas replica
    obtain ⟨history', cf', hrun', -, hinv⟩ := StreamInvariant.exists_run setting.xxh3
      hfresh.wellTyped (w.log.take (w.replicas replica).1)
    rw [hrun] at hrun'
    cases hrun'
    have hanswer := answer_eq setting.xxh3 hinv.wellTyped entry
    obtain ⟨w', hsteps, hstream, hcall, hreturned, hkept, hreplies⟩ :=
      ih (h.apply hentry hanswer) (by
        simp only [Function.update_self]
        omega)
    simp only [Function.update_self] at hreplies
    refine ⟨w', ReflTransGen.head (Step.apply hentry hanswer) hsteps, hstream, hcall, hreturned,
      fun reply hreply ↦ hkept reply (List.mem_append_left _ hreply), fun k other hk hother ↦ ?_⟩
    rcases Nat.lt_or_eq_of_le hk with habove | rfl
    · exact hreplies k other habove hother
    · rw [hentry] at hother
      cases hother
      exact ⟨_, hkept _ (List.mem_append_right _ List.mem_cons_self)⟩

/-- From every world with an agreement, a call can start over: an active call may be abandoned. -/
theorem exists_sent (h : Agreement setting base w history cf)
    (hstart : setting.client.startMutation w.stream op = (.ok mutation, next)) :
    ∃ w', ReflTransGen (Step setting) w w' ∧ Agreement setting base w' history cf ∧
      w'.call = some mutation ∧ setting.client.request mutation ∈ w'.sent ∧
      w'.returned = w.returned := by
  have hidle : ReflTransGen (Step setting) w { w with call := none } := by
    cases hcall : w.call with
    | none =>
      have hsame : ({ w with call := none } : World R) = w := by rw [← hcall]
      rw [hsame]
    | some active => exact ReflTransGen.single (Step.abandon hcall)
  have hstarted := h.abandon.start hstart
  exact ⟨_, (hidle.tail (Step.start rfl hstart)).tail (Step.send rfl), hstarted.send rfl, rfl,
    List.mem_append_right _ List.mem_cons_self, rfl⟩

/-- An operation the gateways let pass can be carried to its decision. -/
theorem exists_returned (hfresh : Fresh setting base) (h : Agreement setting base w history cf)
    (replica : R) (hstart : setting.client.startMutation w.stream op = (.ok mutation, next))
    (hrefusal : setting.refusal (setting.client.request mutation) = none) :
    ∃ w' result, ReflTransGen (Step setting) w w' ∧
      w'.returned = w.returned ++ [(mutation, .ofResult result)] := by
  obtain ⟨sent, hsent, hagree, hcall, hmem, hreturned⟩ := exists_sent h hstart
  have hcommit : (setting.client.request mutation ∈ sent.sent ∧
      setting.refusal (setting.client.request mutation) = none) ∨
      (setting.client.request mutation).clientId ≠ setting.client.clientId := .inl ⟨hmem, hrefusal⟩
  obtain ⟨a, cf', hcommitted⟩ := hagree.commit hfresh 0 hcommit
  obtain ⟨applied, happlied, hstream, hcall', hreturned', -, hreplies⟩ :=
    exists_catchUp hfresh hcommitted replica
  obtain ⟨write, hwrite⟩ := hreplies sent.log.length (0, setting.client.request mutation)
    (hagree.replicas replica).1 (by simp)
  have hsteps : ReflTransGen (Step setting) w applied :=
    (hsent.tail (Step.commit hcommit)).trans happlied
  obtain ⟨history', cf'', hlast⟩ := exists_agreement_of_steps hfresh hcommitted happlied
  have hcalled : applied.call = some mutation := hcall'.trans hcall
  obtain ⟨d, -, -, rfl, -⟩ :=
    hlast.decision_of_reply hfresh (hlast.call mutation hcalled) hwrite
  have hfinish := ClientIdentity.finishMutation_ofResult setting.debug applied.stream
    mutation.sequence d.result
  refine ⟨_, d.result, hsteps.tail (Step.receive hcalled hwrite rfl hfinish), ?_⟩
  change applied.returned ++ [(mutation, WriteReply.ofResult d.result)] = _
  rw [hreturned', ← hreturned]

/-- An operation the gateways refuse can be released. -/
theorem exists_released (h : Agreement setting base w history cf)
    (hstart : setting.client.startMutation w.stream op = (.ok mutation, next)) {message : String}
    (hrefusal : setting.refusal (setting.client.request mutation) = some message) :
    ∃ w', ReflTransGen (Step setting) w w' ∧ w'.stream.pending = none := by
  obtain ⟨sent, hsent, -, hcall, hmem, -⟩ := exists_sent h hstart
  exact ⟨_, (hsent.tail (Step.refuse hmem hrefusal)).tail
    (Step.receive hcall (List.mem_append_right _ List.mem_cons_self) rfl rfl), rfl⟩

end Progress

/-- An operation is decided at most as often as it was submitted. -/
theorem Agreement.decided_le_submitted {setting : Setting} {base : DataState} {w : World R}
    (h : Agreement setting base w history cf) (hfresh : Fresh setting base) (op : DataOp) :
    ((stream setting.client.clientId history).filter fun d ↦ d.request.op = op).length ≤
      (w.submitted.filter fun mutation ↦ mutation.op = op).length := by
  let carried : Decision → PendingMutation := fun d ↦
    { sequence := d.request.sequence, op := d.request.op }
  have hnodup : (((stream setting.client.clientId history).filter fun d ↦
      d.request.op = op).map carried).Nodup := by
    refine List.Nodup.of_map (fun mutation ↦ mutation.sequence.toNat) ?_
    rw [List.map_map]
    have hsequences : ((stream setting.client.clientId history).map fun d ↦
        d.request.sequence.toNat).Nodup := by
      rw [h.streams.sequences _ hfresh.seq]
      exact List.nodup_range'
    exact hsequences.sublist (List.filter_sublist.map _)
  have hsubset : (((stream setting.client.clientId history).filter fun d ↦
      d.request.op = op).map carried) ⊆ w.submitted.filter fun mutation ↦ mutation.op = op := by
    intro mutation hmutation
    obtain ⟨d, hd, rfl⟩ := List.mem_map.mp hmutation
    obtain ⟨hd, hop⟩ := List.mem_filter.mp hd
    obtain ⟨-, submitted, hsubmitted, hrequest⟩ := h.decided d hd
    have hsame : carried d = submitted := by
      simp only [carried, hrequest]
      rfl
    exact List.mem_filter.mpr ⟨hsame ▸ hsubmitted, hop⟩
  have hlength := (hnodup.subperm hsubset).length_le
  rwa [List.length_map] at hlength

/-- Assumes: a client identity without a sequence record, in the recovery epoch of the group, and a
world its one client can reach. A call that ended with an outcome returned the recorded decision of
an entry carrying exactly its request, and no operation is decided more often than it was submitted.
The candidate sequence follows the highest decided one, or equals it while an operation is pending;
a stream is exhausted only after the last sequence. From every such world the pending operation, or
any operation that fits a frame when none is pending, can be carried to its decision, or released if
the gateways refuse it. -/
theorem end_to_end_stream [DecidableEq R] {setting : Setting} {base : DataState} {w : World R}
    (hfresh : Fresh setting base) (hreach : Reachable setting base w) (replica : R) :
    ∃ history cf, run (answer setting.xxh3) base w.log = .ok (history, cf) ∧
      (∀ mutation write, (mutation, write) ∈ w.returned →
        ∃ d ∈ stream setting.client.clientId history,
          d.request = setting.client.request mutation ∧ write = .ofResult d.result) ∧
      (∀ op, ((stream setting.client.clientId history).filter fun d ↦ d.request.op = op).length ≤
        (w.submitted.filter fun mutation ↦ mutation.op = op).length) ∧
      (w.stream.exhausted = false →
        w.stream.candidate.toNat = (highest (cf.seq setting.client.clientId)).toNat + 1 ∨
        (w.stream.pending.isSome = true ∧
          w.stream.candidate = highest (cf.seq setting.client.clientId))) ∧
      (w.stream.exhausted = true →
        (highest (cf.seq setting.client.clientId)).toNat = 2 ^ 64 - 1 ∧ w.stream.pending = none) ∧
      ∀ op, w.stream.exhausted = false →
        (∀ mutation, w.stream.pending = some mutation → mutation.op = op) →
        (w.stream.pending = none → (mutatePayload (setting.client.request
          { sequence := w.stream.candidate, op := op })).length ≤ MsgType.clientOp.maxPayload) →
        (setting.refusal
            (setting.client.request { sequence := w.stream.candidate, op := op }) = none →
          ∃ w' result, Relation.ReflTransGen (Step setting) w w' ∧
            w'.returned = w.returned ++
              [({ sequence := w.stream.candidate, op := op }, .ofResult result)]) ∧
        (setting.refusal
            (setting.client.request { sequence := w.stream.candidate, op := op }) ≠ none →
          ∃ w', Relation.ReflTransGen (Step setting) w w' ∧ w'.stream.pending = none) := by
  obtain ⟨history, cf, h⟩ := exists_agreement_of_steps hfresh (Agreement.init hfresh) hreach
  have hcount := h.streams.highest_eq_length hfresh.seq
  refine ⟨history, cf, h.run_eq, h.returned, h.decided_le_submitted hfresh, ?_, ?_, ?_⟩
  · intro hexhausted
    unfold MutationStream.candidate
    cases hpending : w.stream.pending with
    | some mutation =>
      rcases (h.pending mutation hpending).2.2.2.2 with hfollows | ⟨hlast, -⟩
      · exact .inl (by rw [hcount]; exact hfollows)
      · exact .inr ⟨rfl, UInt64.toNat_inj.mp (by rw [hcount]; exact hlast)⟩
    | none =>
      rcases h.idle hpending with ⟨htrue, -⟩ | ⟨-, hfollows⟩
      · rw [hexhausted] at htrue
        cases htrue
      · exact .inl (by rw [hcount]; exact hfollows)
  · intro hexhausted
    cases hpending : w.stream.pending with
    | some mutation =>
      have hfalse := (h.pending mutation hpending).2.2.2.1
      rw [hexhausted] at hfalse
      cases hfalse
    | none =>
      rcases h.idle hpending with ⟨-, hlast⟩ | ⟨hfalse, -⟩
      · exact ⟨by rw [hcount]; exact hlast, rfl⟩
      · rw [hexhausted] at hfalse
        cases hfalse
  · intro op hexhausted hsame hpayload
    have hfits : (mutatePayload (setting.client.request
        { sequence := w.stream.candidate, op := op })).length ≤ MsgType.clientOp.maxPayload := by
      cases hpending : w.stream.pending with
      | none => exact hpayload hpending
      | some mutation =>
        have hcandidate : w.stream.candidate = mutation.sequence := by
          rw [MutationStream.candidate, hpending]
        rw [hcandidate, ← hsame mutation hpending]
        exact (h.pending mutation hpending).2.1
    obtain ⟨next, hstart⟩ := ClientIdentity.exists_startMutation hexhausted hsame hfits
    refine ⟨fun hpasses ↦ exists_returned hfresh h replica hstart hpasses, fun hrefused ↦ ?_⟩
    obtain ⟨message, hmessage⟩ := Option.ne_none_iff_exists'.mp hrefused
    exact exists_released h hstart hmessage

/-- A client's first put is committed at index 1 and applied, but its reply is lost and the call is
abandoned. The put stays pending, the log has decided it once, and it can be carried to that
outcome. -/
theorem end_to_end_stream_lost_reply :
    let setting : Setting := ⟨fun _ ↦ 0, fun _ _ ↦ 0, .CANONICAL, 1, ⟨7, 0, 0⟩, fun _ ↦ ""⟩
    let put : PendingMutation := { sequence := 1, op := .put [107] [1] none }
    ∃ (w : World Unit) (history : List Answer) (cf : DataState), Reachable setting ∅ w ∧
      w.stream.pending = some put ∧ w.call = none ∧ w.returned = [] ∧ (w.replicas ()).1 = 1 ∧
      w.log = [(1, setting.client.request put)] ∧
      run (answer setting.xxh3) ∅ w.log = .ok (history, cf) ∧
      ((stream 7 history).filter fun d ↦ d.request.op = put.op).length ≤ 1 ∧
      ∃ w' result, Relation.ReflTransGen (Step setting) w w' ∧
        w'.returned = [(put, .ofResult result)] := by
  intro setting put
  have hfresh : Fresh setting ∅ := ⟨WellTyped.empty, rfl, rfl⟩
  have hinit : Reachable setting ∅ (World.init Unit ∅) := .refl
  have hstarted := hinit.tail
    (.start rfl (show setting.client.startMutation _ put.op = (.ok put, _) from rfl))
  have hsent := hstarted.tail (.send rfl)
  have hcommitted := hsent.tail (@Step.commit Unit _ setting _ 1 (setting.client.request put)
    (.inl ⟨List.mem_singleton_self _, by decide⟩))
  have happlied := hcommitted.tail
    (@Step.apply Unit _ setting _ () _ _ _ rfl (answer_eq _ WellTyped.empty _))
  have hlost := happlied.tail (.abandon rfl)
  obtain ⟨history, cf, hrun, -, hdecided, -, -, hprogress⟩ := end_to_end_stream hfresh hlost ()
  obtain ⟨hcarried, -⟩ := hprogress put.op rfl (fun _ hsame ↦ by cases hsame; rfl) nofun
  exact ⟨_, history, cf, hlost, rfl, rfl, rfl, rfl, rfl, hrun, hdecided put.op,
    hcarried (by decide)⟩

end DalService.Api
