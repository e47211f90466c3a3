import DalService.Partition.StreamHistory
import DalService.Verify.Linearizability

/-!
# The data state machine is a register

A run of a data group, seen at one key: committed requests are applied, and between them the key is
read (`Happening`). Each decided put of the key and each read of it is one operation with an
interval around the instant at which it happened (`observe`); a replayed or a rejected request is
none.

The order in which the operations happened is a legal one. Each decision has the outcome that the
register has at this point (`apply_decision`), because versions are log indices and those increase
(`RegisterInvariant`), and an operation that happened before another was called before the other
returned. `accepted_by_linearize` says that the checker therefore accepts the history, in whatever
order it lists the operations.
-/

set_option autoImplicit false

namespace DalService.Verify

open Foundation DalService.Partition DataStateMachine

/-! ### Operations of a run -/

inductive Event
  | apply (index : UInt64) (request : DataRequest)
  | read
  deriving DecidableEq, Repr

/-- Something that happens at an instant, and the interval in which its client waits for it. -/
structure Happening (T : Type) where
  instant : T
  call : UInt64
  ret : UInt64
  event : Event

/-- An operation and the instant at which it happened. -/
structure Observed (T : Type) where
  instant : T
  op : Op
  deriving DecidableEq, Repr

/-- What the checker calls the presence of a key. -/
def present : KeyPresence → Option UInt64
  | .absent => none
  | .present version => some version

def outcomeOf : MutationResult → Outcome
  | .applied version => .applied version
  | .conditionFailed current => .conditionFailed (present current)

variable {T : Type} (xxh3 : Bytes → BitVec 128) (key : Bytes)

/-- The operation on the key that an answered request is: one if the answer decides a put of it. -/
def operation (happening : Happening T) (a : Answer) : Option (Observed T) :=
  match a.result, a.request.op with
  | .decided result, .put put value ifVersion =>
    if put = key then
      some { instant := happening.instant
             op := { call := happening.call, ret := happening.ret, inv := .put value ifVersion
                     out := outcomeOf result } }
    else none
  | _, _ => none

def observe (cf : DataState) (happening : Happening T) : Result (Option (Observed T) × DataState) :=
  match happening.event with
  | .apply index request => do
    let (a, next) ← answer xxh3 cf (index, request)
    return (operation key happening a, next)
  | .read => do
    let value ← get cf.reader key
    return (some { instant := happening.instant
                   op := { call := happening.call, ret := happening.ret, inv := .read
                           out := .value value } }, cf)

/-- The register that the state holds under a key. -/
def register (current : Option KeyRecord) : State :=
  current.map fun record ↦ (record.version, record.value)

/-- A decision on a put has the outcome that the register gives it. -/
theorem apply_decision {current : Option KeyRecord} {value : Bytes} {ifVersion : Option IfVersion}
    {index call ret : UInt64} (hbelow : ∀ record ∈ current, record.version < index)
    (hindex : 0 < index) :
    apply (register current)
        { call := call, ret := ret, inv := .put value ifVersion
          out := outcomeOf (decision current (.put key value ifVersion) index) } =
      some (register (nextRecord current (.put key value ifVersion) index)) := by
  cases current with
  | none =>
    rcases ifVersion with _ | expected | _ <;>
      simp [apply, register, decision, nextRecord, conditionHolds, outcomeOf, presence, present,
        versionOf, hindex]
  | some record =>
    have hlt := hbelow record rfl
    rcases ifVersion with _ | expected | _
    · simp [apply, register, decision, nextRecord, conditionHolds, outcomeOf, versionOf, hlt]
    · by_cases hversion : record.version = expected
      · subst hversion
        simp [apply, register, decision, nextRecord, conditionHolds, outcomeOf, hlt]
      · simp [apply, register, decision, nextRecord, conditionHolds, outcomeOf, presence, present,
          hversion]
    · simp [apply, register, decision, nextRecord, conditionHolds, outcomeOf, presence, present]

/-! ### The invariant of a run -/

/-- The log index of a happening that applies a request. -/
def Event.index : Event → Option UInt64
  | .apply index _ => some index
  | .read => none

/-- The operations of a run, in the order in which they happened. -/
def operations (outs : List (Option (Observed T))) : List Op := outs.reduceOption.map Observed.op

/-- What the operations so far say about the record of the key: the register takes them one after
the other and holds that record then, whose version is the index of a request applied so far. -/
structure RegisterInvariant [LE T] (done : List (Happening T)) (outs : List (Option (Observed T)))
    (cf : DataState) : Prop where
  wellTyped : WellTyped cf
  taken : (operations outs).foldlM apply none = some (register (cf.user key))
  version : ∀ record ∈ cf.user key, ∃ happening ∈ done, happening.event.index = some record.version
  instants : outs.reduceOption.Pairwise fun first second ↦ first.instant ≤ second.instant
  instant : ∀ observed ∈ outs.reduceOption, ∃ happening ∈ done, observed.instant = happening.instant

variable {xxh3} {key}

namespace RegisterInvariant

variable [LE T] {done : List (Happening T)} {outs : List (Option (Observed T))}
  {cf next : DataState} {happening : Happening T}

/-- Nothing is observed, and the record of the key stays. -/
theorem unobserved (h : RegisterInvariant key done outs cf) (hnext : WellTyped next)
    (huser : next.user key = cf.user key) :
    RegisterInvariant key (done ++ [happening]) (outs ++ [none]) next where
  wellTyped := hnext
  taken := by
    rw [operations, List.reduceOption_append]
    simpa [operations, huser] using h.taken
  version := fun record hrecord ↦ by
    obtain ⟨earlier, hearlier, hindex⟩ := h.version record (huser ▸ hrecord)
    exact ⟨earlier, List.mem_append_left _ hearlier, hindex⟩
  instants := by
    rw [List.reduceOption_append]
    simpa using h.instants
  instant := fun observed hobserved ↦ by
    rw [List.reduceOption_append] at hobserved
    obtain ⟨earlier, hearlier, hinstant⟩ := h.instant observed (by simpa using hobserved)
    exact ⟨earlier, List.mem_append_left _ hearlier, hinstant⟩

/-- An operation is observed that the register takes. -/
theorem observed (h : RegisterInvariant key done outs cf) {op : Op} (hnext : WellTyped next)
    (hinstants : ∀ earlier ∈ done, earlier.instant ≤ happening.instant)
    (htaken : apply (register (cf.user key)) op = some (register (next.user key)))
    (hversion : ∀ record ∈ next.user key, record ∈ cf.user key ∨
      happening.event.index = some record.version) :
    RegisterInvariant key (done ++ [happening])
      (outs ++ [some { instant := happening.instant, op := op }]) next where
  wellTyped := hnext
  taken := by
    have hrun := h.taken
    rw [operations] at hrun ⊢
    rw [List.reduceOption_append, List.map_append, List.foldlM_append, hrun]
    simpa [List.reduceOption] using htaken
  version := fun record hrecord ↦ by
    rcases hversion record hrecord with hold | hnew
    · obtain ⟨earlier, hearlier, hindex⟩ := h.version record hold
      exact ⟨earlier, List.mem_append_left _ hearlier, hindex⟩
    · exact ⟨happening, by simp, hnew⟩
  instants := by
    rw [List.reduceOption_append, List.pairwise_append]
    refine ⟨h.instants, by simp [List.reduceOption], fun first hfirst second hsecond ↦ ?_⟩
    obtain ⟨earlier, hearlier, hinstant⟩ := h.instant first hfirst
    obtain rfl : second = { instant := happening.instant, op := op } := by
      simpa [List.reduceOption] using hsecond
    rw [hinstant]
    exact hinstants earlier hearlier
  instant := fun other hother ↦ by
    rw [List.reduceOption_append, List.mem_append] at hother
    rcases hother with hother | hother
    · obtain ⟨earlier, hearlier, hinstant⟩ := h.instant other hother
      exact ⟨earlier, List.mem_append_left _ hearlier, hinstant⟩
    · obtain rfl : other = { instant := happening.instant, op := op } := by
        simpa [List.reduceOption] using hother
      exact ⟨happening, by simp, rfl⟩

/-- A read is taken by the register, which stays. -/
theorem read (h : RegisterInvariant key done outs cf) (hevent : happening.event = .read)
    (hinstants : ∀ earlier ∈ done, earlier.instant ≤ happening.instant) :
    ∃ out last, observe xxh3 key cf happening = .ok (out, last) ∧
      RegisterInvariant key (done ++ [happening]) (outs ++ [out]) last := by
  refine ⟨some { instant := happening.instant
                 op := { call := happening.call, ret := happening.ret, inv := .read
                         out := .value (register (cf.user key)) } }, cf, ?_, ?_⟩
  · simp only [observe, hevent, DataStateMachine.get, keyRecord_eq h.wellTyped]
    rfl
  · exact h.observed h.wellTyped hinstants (by simp [apply]) fun record hrecord ↦ .inl hrecord

/-- A request that decides a put of the key is taken by the register; another one leaves it. -/
theorem applied (h : RegisterInvariant key done outs cf) {index : UInt64} {request : DataRequest}
    (hevent : happening.event = .apply index request)
    (hinstants : ∀ earlier ∈ done, earlier.instant ≤ happening.instant)
    (hindices : ∀ earlier ∈ done, ∀ other, earlier.event.index = some other → other < index)
    (hindex : 0 < index) (hput : ∀ condition, request.op ≠ .delete key condition) :
    ∃ out last, observe xxh3 key cf happening = .ok (out, last) ∧
      RegisterInvariant key (done ++ [happening]) (outs ++ [out]) last := by
  have hobserve : observe xxh3 key cf happening =
      .ok (operation key happening ⟨index, request, (outcome xxh3 cf request index).1,
        (outcome xxh3 cf request index).2⟩, advance xxh3 cf request index) := by
    simp only [observe, hevent, answer_eq xxh3 h.wellTyped]
    rfl
  refine ⟨_, _, hobserve, ?_⟩
  have hnext := wellTyped_advance xxh3 h.wellTyped request index
  have huser := user_advance xxh3 h.wellTyped request index key
  cases hgate : gate xxh3 cf.recoveryEpoch (cf.seq request.clientId) request with
  | some told =>
    rw [if_neg (by simp [hgate])] at huser
    have hnone : operation key happening ⟨index, request, (outcome xxh3 cf request index).1,
        (outcome xxh3 cf request index).2⟩ = none := by
      rcases gate_eq_some xxh3 hgate with ⟨reason, rfl⟩ | ⟨record, -, -, -, rfl⟩ <;>
        simp [operation, outcome, hgate]
    rw [hnone]
    exact h.unobserved hnext huser
  | none =>
    by_cases hkey : key = request.op.key
    · rw [if_pos ⟨hgate, hkey⟩] at huser
      cases hop : request.op with
      | delete other condition =>
        rw [hop] at hkey
        exact absurd (hkey ▸ hop) (hput condition)
      | put other value ifVersion =>
        obtain rfl : key = other := by rw [hkey, hop]; rfl
        rw [hop] at huser
        have hobserved : operation key happening ⟨index, request, (outcome xxh3 cf request index).1,
            (outcome xxh3 cf request index).2⟩ =
            some { instant := happening.instant
                   op := { call := happening.call, ret := happening.ret, inv := .put value ifVersion
                           out := outcomeOf (decision (cf.user key) (.put key value ifVersion)
                             index) } } := by
          simp [operation, outcome, hgate, hop, DataOp.key]
        rw [hobserved]
        refine h.observed hnext hinstants ?_ fun record hrecord ↦ ?_
        · rw [huser]
          refine apply_decision key (fun record hrecord ↦ ?_) hindex
          obtain ⟨earlier, hearlier, hversion⟩ := h.version record hrecord
          exact hindices earlier hearlier _ hversion
        · rw [huser, nextRecord] at hrecord
          split_ifs at hrecord
          · obtain rfl := Option.some.inj hrecord
            exact .inr (by rw [hevent]; rfl)
          · exact .inl hrecord
    · rw [if_neg fun hboth ↦ hkey hboth.2] at huser
      have hnone : operation key happening ⟨index, request, (outcome xxh3 cf request index).1,
          (outcome xxh3 cf request index).2⟩ = none := by
        cases hop : request.op with
        | delete other condition => simp [operation, outcome, hgate, hop]
        | put other value ifVersion =>
          have hother : other ≠ key := fun hsame ↦ hkey (by rw [hop, ← hsame]; rfl)
          simp [operation, outcome, hgate, hop, hother]
      rw [hnone]
      exact h.unobserved hnext huser

end RegisterInvariant

/-! ### Acceptance -/

/-- Assumes: each instant is in the interval of its operation, and the instants are in order. The
operations in the order in which they happened are a legal order. -/
theorem legal_of_instants [Preorder T] {clock : UInt64 → T} {observed : List (Observed T)}
    (hclock : ∀ first second, clock first ≤ clock second → first ≤ second)
    (hinterval : ∀ o ∈ observed, clock o.op.call ≤ o.instant ∧ o.instant ≤ clock o.op.ret)
    (hinstants : observed.Pairwise fun first second ↦ first.instant ≤ second.instant)
    (htaken : ((observed.map Observed.op).foldlM apply none).isSome) :
    Legal none (observed.map Observed.op) where
  self := fun op hop ↦ by
    obtain ⟨o, ho, rfl⟩ := List.mem_map.mp hop
    exact hclock _ _ ((hinterval o ho).1.trans (hinterval o ho).2)
  realTime := by
    rw [List.pairwise_map]
    refine hinstants.imp_of_mem fun {first second} hfirst hsecond hle ↦ ?_
    exact hclock _ _ ((hinterval first hfirst).1.trans (hle.trans (hinterval second hsecond).2))
  taken := htaken

/-- Assumes: requests at increasing log indices from one on, none of which deletes the key; what
happens at the key comes in the order of its instants; the key has no record at the start. The run
ends, and the checker accepts the history of the key, if the intervals contain the instants. -/
theorem accepted_by_linearize [Preorder T] (xxh3 : Bytes → BitVec 128) (key : Bytes)
    (clock : UInt64 → T) (hclock : ∀ first second, clock first ≤ clock second → first ≤ second)
    {cf : DataState} (hcf : WellTyped cf) (habsent : cf.user key = none)
    (happenings : List (Happening T))
    (hindices : (happenings.filterMap fun happening ↦ happening.event.index).Pairwise (· < ·))
    (hpositive : ∀ happening ∈ happenings, ∀ index, happening.event.index = some index → 1 ≤ index)
    (hput : ∀ happening ∈ happenings, ∀ index request condition,
      happening.event = .apply index request → request.op ≠ .delete key condition)
    (hinstants : happenings.Pairwise fun first second ↦ first.instant ≤ second.instant) :
    ∃ outs last, run (observe xxh3 key) cf happenings = .ok (outs, last) ∧
      ((∀ o ∈ outs.reduceOption, clock o.op.call ≤ o.instant ∧ o.instant ≤ clock o.op.ret) →
        ∀ ops : List Op, ops.Perm (operations outs) → (linearize ops).isSome) := by
  have hinit : RegisterInvariant key ([] : List (Happening T)) [] cf :=
    ⟨hcf, by rw [habsent]; rfl, by simp [habsent], .nil, by simp⟩
  have hstep : ∀ (done : List (Happening T)) (happening : Happening T)
      (outs : List (Option (Observed T))) (mid : DataState), (done ++ [happening]) <+: happenings →
      RegisterInvariant key done outs mid →
        ∃ out next, observe xxh3 key mid happening = .ok (out, next) ∧
        RegisterInvariant key (done ++ [happening]) (outs ++ [out]) next := by
    intro done happening outs mid hbefore h
    have hmem : happening ∈ happenings := hbefore.subset (by simp)
    have hafter : ∀ earlier ∈ done, earlier.instant ≤ happening.instant := fun earlier hearlier ↦
      (List.pairwise_append.mp (hinstants.sublist hbefore.sublist)).2.2 earlier hearlier happening
        (by simp)
    cases hevent : happening.event with
    | read => exact h.read hevent hafter
    | apply index request =>
      have hindex : happening.event.index = some index := by rw [hevent]; rfl
      refine h.applied hevent hafter (fun earlier hearlier other hother ↦ ?_) ?_
        (hput happening hmem index request · hevent)
      · have hbelow := hindices.sublist (hbefore.sublist.filterMap _)
        rw [List.filterMap_append, List.pairwise_append] at hbelow
        exact hbelow.2.2 other (List.mem_filterMap.mpr ⟨earlier, hearlier, hother⟩) index
          (by simp [hindex])
      · exact UInt64.lt_of_lt_of_le (by decide) (hpositive happening hmem index hindex)
  obtain ⟨outs, last, hrun, hlast⟩ := run_of_invariant hinit hstep
  refine ⟨outs, last, hrun, fun hinterval ops hperm ↦ ?_⟩
  exact linearize_isSome hperm.symm
    (legal_of_instants hclock hinterval hlast.instants (by rw [← operations, hlast.taken]; rfl))

/-- A put, its replay, a read and a put under a condition that fails. -/
def retriedPut : List (Happening ℕ) :=
  [⟨1, 0, 4, .apply 2 ⟨0, 7, 1, .put [107] [1] none⟩⟩,
    ⟨2, 0, 4, .apply 3 ⟨0, 7, 1, .put [107] [1] none⟩⟩,
    ⟨3, 3, 5, .read⟩, ⟨6, 5, 7, .apply 5 ⟨0, 7, 2, .put [107] [2] (some (.number 1))⟩⟩]

/-- The replay is no operation of its own, and the history lists the others in another order than
that in which they happened. -/
theorem accepted_by_linearize_retried :
    ∃ outs last, run (observe (fun _ ↦ 0) [107]) ∅ retriedPut = .ok (outs, last) ∧
      (operations outs).reverse = [⟨5, 7, .put [2] (some (.number 1)), .conditionFailed (some 2)⟩,
        ⟨3, 5, .read, .value (some (2, [1]))⟩, ⟨0, 4, .put [1] none, .applied 2⟩] ∧
      (linearize (operations outs).reverse).isSome := by
  have hput : ∀ happening ∈ retriedPut, ∀ index request condition,
      happening.event = .apply index request → request.op ≠ .delete [107] condition := by
    intro happening hmem index request condition hevent
    simp only [retriedPut, List.mem_cons, List.not_mem_nil, or_false] at hmem
    rcases hmem with rfl | rfl | rfl | rfl <;> cases hevent <;> exact nofun
  obtain ⟨outs, last, hrun, haccepted⟩ := accepted_by_linearize (fun _ ↦ 0) [107] UInt64.toNat
    (fun _ _ h ↦ h) .empty (by decide +kernel) retriedPut (by decide +kernel)
    (by simp [retriedPut, Event.index]) hput (by decide +kernel)
  have houts : (run (observe (fun _ ↦ 0) [107]) ∅ retriedPut).toOption.map Prod.fst =
      some [some ⟨1, 0, 4, .put [1] none, .applied 2⟩, none,
        some ⟨3, 3, 5, .read, .value (some (2, [1]))⟩,
        some ⟨6, 5, 7, .put [2] (some (.number 1)), .conditionFailed (some 2)⟩] := by
    decide +kernel
  rw [hrun] at houts
  cases houts
  refine ⟨_, last, hrun, rfl, haccepted (by decide) _ (List.reverse_perm _)⟩

end DalService.Verify
