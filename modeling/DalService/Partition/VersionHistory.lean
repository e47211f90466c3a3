import DalService.Partition.StreamHistory

/-!
# Versions never repeat

The record of a key is what the last effective decision on the key left (`lastEffective`,
`Decision.leaves`): the value of a put with the put's log index as its version, and nothing at all
after a delete. Each request keeps this (`VersionInvariant.answer`), so it holds after every run
(`VersionInvariant.exists_run`).

A decision inside a run is therefore the decision on the record its predecessors left
(`result_eq_decision`). `versions_never_repeat` reads off what that says about conditions: a
condition on a version holds exactly while the put that made the version is the last effective
decision on the key, so a version that was overwritten or deleted satisfies no condition again, also
after the key is created anew.
-/

set_option autoImplicit false

namespace DalService.Partition

open Foundation Keyspace DataStateMachine

/-- The condition of an operation. -/
def ifVersion : DataOp → Option IfVersion
  | .put _ _ condition => condition
  | .delete _ condition => condition

/-- The decision took effect: it put or deleted its key. -/
def Decision.applied (d : Decision) : Bool :=
  match d.result with
  | .applied _ => true
  | .conditionFailed _ => false

/-- The decision took effect on a key. -/
def Decision.effectiveOn (key : Bytes) (d : Decision) : Bool :=
  d.request.op.key = key && d.applied

/-- What an effective decision leaves under its key: the value of a put at the put's log index, and
nothing after a delete. -/
def Decision.leaves (d : Decision) : Option KeyRecord :=
  match d.request.op with
  | .put _ value _ => some { version := d.index, value := value }
  | .delete _ _ => none

/-- The effective decisions on a key, in order. -/
def effective (key : Bytes) (history : List Answer) : List Decision :=
  (decisions history).filter (Decision.effectiveOn key)

/-- The last effective decision on a key. -/
def lastEffective (key : Bytes) (history : List Answer) : Option Decision :=
  (effective key history).getLast?

/-- The record the last effective decision on a key left. -/
def currentRecord (key : Bytes) (history : List Answer) : Option KeyRecord :=
  (lastEffective key history).bind Decision.leaves

theorem effective_append (key : Bytes) (first second : List Answer) :
    effective key (first ++ second) = effective key first ++ effective key second := by
  rw [effective, decisions, List.filterMap_append, List.filter_append]
  rfl

theorem effective_singleton (key : Bytes) (a : Answer) :
    effective key [a] = a.decision.toList.filter (Decision.effectiveOn key) := by
  rw [effective, decisions]
  cases hd : a.decision <;> simp [hd]

/-! ### The invariant of a run -/

variable (xxh3 : Bytes → BitVec 128)

/-- What the answers of a run say about the records of the keys. -/
structure VersionInvariant (history : List Answer) (cf : DataState) : Prop where
  wellTyped : WellTyped cf
  user : ∀ key, cf.user key = currentRecord key history

namespace VersionInvariant

variable {xxh3} {history : List Answer} {cf : DataState}

theorem init (epoch : Option (BitVec 128)) : VersionInvariant [] (emptyState epoch) where
  wellTyped := wellTyped_emptyState epoch
  user := fun key ↦ by
    rw [DataState.user, getElem?_emptyState epoch (userKey_ne_internal key _)]
    rfl

/-- An answer that decides nothing effective leaves the record of a key. -/
theorem currentRecord_append_of_not_effective {key : Bytes} {a : Answer}
    (ha : ∀ d, a.decision = some d → Decision.effectiveOn key d = false) :
    currentRecord key (history ++ [a]) = currentRecord key history := by
  have hnone : effective key [a] = [] := by
    rw [effective_singleton]
    cases hd : a.decision with
    | none => rfl
    | some d => simp [ha d hd]
  rw [currentRecord, lastEffective, effective_append, hnone, List.append_nil]
  rfl

/-- An effective decision leaves its own record. -/
theorem currentRecord_append_of_effective {key : Bytes} {a : Answer} {d : Decision}
    (ha : a.decision = some d) (hd : Decision.effectiveOn key d = true) :
    currentRecord key (history ++ [a]) = d.leaves := by
  rw [currentRecord, lastEffective, effective_append, effective_singleton, ha]
  simp [hd]

/-- Each request is answered and keeps the invariant. -/
theorem answer (h : VersionInvariant history cf) (entry : UInt64 × DataRequest) :
    ∃ a next, Partition.answer xxh3 cf entry = .ok (a, next) ∧ a.entry = entry ∧
      VersionInvariant (history ++ [a]) next := by
  refine ⟨_, _, answer_eq xxh3 h.wellTyped entry, rfl, wellTyped_advance xxh3 h.wellTyped _ _,
    fun key ↦ ?_⟩
  rw [user_advance xxh3 h.wellTyped]
  cases hgate : gate xxh3 cf.recoveryEpoch (cf.seq entry.2.clientId) entry.2 with
  | some told =>
    rw [if_neg (by simp), h.user, currentRecord_append_of_not_effective]
    intro d hd
    rcases gate_eq_some xxh3 hgate with ⟨reason, rfl⟩ | ⟨record, -, -, -, rfl⟩ <;>
      simp [Answer.decision, outcome, hgate] at hd
  | none =>
    have hdecision : (Answer.decision
        { index := entry.1, request := entry.2, result := (outcome xxh3 cf entry.2 entry.1).1,
          mutations := (outcome xxh3 cf entry.2 entry.1).2 }) =
        some { index := entry.1, request := entry.2,
               result := decision (cf.user entry.2.op.key) entry.2.op entry.1 } := by
      simp only [Answer.decision, outcome, hgate]
    by_cases hkey : key = entry.2.op.key
    · rw [if_pos ⟨rfl, hkey⟩]
      subst hkey
      unfold nextRecord
      split_ifs with hholds
      · rw [currentRecord_append_of_effective hdecision
          (by simp [Decision.effectiveOn, Decision.applied, decision, hholds])]
        rfl
      · rw [h.user, currentRecord_append_of_not_effective]
        intro d hd
        rw [hdecision] at hd
        cases hd
        simp [Decision.effectiveOn, Decision.applied, decision, hholds]
    · rw [if_neg (by simp [hkey]), h.user, currentRecord_append_of_not_effective]
      intro d hd
      rw [hdecision] at hd
      cases hd
      simp [Decision.effectiveOn, Ne.symm hkey]

variable (xxh3) in
theorem exists_run (epoch : Option (BitVec 128)) (entries : List (UInt64 × DataRequest)) :
    ∃ history cf, run (Partition.answer xxh3) (emptyState epoch) entries = .ok (history, cf) ∧
      history.map Answer.entry = entries ∧ VersionInvariant history cf :=
  exists_run_of_invariant xxh3 (init epoch) (fun hinv ↦ hinv.answer) entries

end VersionInvariant

/-! ### Decisions inside a run -/

/-- A decision taken in a well-typed state is the decision on the record of its key. -/
theorem result_of_answer {cf next : DataState} (hcf : WellTyped cf) {entry : UInt64 × DataRequest}
    {a : Answer} (hanswer : answer xxh3 cf entry = .ok (a, next)) {d : Decision}
    (hd : a.decision = some d) :
    d.index = entry.1 ∧ d.request = entry.2 ∧
      d.result = decision (cf.user entry.2.op.key) entry.2.op entry.1 := by
  rw [answer_eq xxh3 hcf] at hanswer
  cases hanswer
  cases hgate : gate xxh3 cf.recoveryEpoch (cf.seq entry.2.clientId) entry.2 with
  | some told =>
    rcases gate_eq_some xxh3 hgate with ⟨reason, rfl⟩ | ⟨record, -, -, -, rfl⟩ <;>
      simp [Answer.decision, outcome, hgate] at hd
  | none =>
    simp only [Answer.decision, outcome, hgate] at hd
    cases hd
    exact ⟨rfl, rfl, rfl⟩

/-- A decision inside a run is the decision on the record its predecessors left. -/
theorem result_eq_decision {epoch : Option (BitVec 128)} {entries : List (UInt64 × DataRequest)}
    {earlier later : List Answer} {a : Answer} {cf : DataState} {d : Decision}
    (hrun : run (answer xxh3) (emptyState epoch) entries = .ok (earlier ++ a :: later, cf))
    (hd : a.decision = some d) :
    ∃ mid, run (answer xxh3) (emptyState epoch) (earlier.map Answer.entry) = .ok (earlier, mid) ∧
      VersionInvariant earlier mid ∧
      d.result = decision (currentRecord d.request.op.key earlier) d.request.op d.index := by
  obtain ⟨taken, left, mid, -, htaken, hleft⟩ := run_split hrun
  obtain ⟨history, mid', hrun', hentries, hinv⟩ := VersionInvariant.exists_run xxh3 epoch taken
  rw [htaken] at hrun'
  cases hrun'
  cases left with
  | nil => cases hleft
  | cons entry rest =>
    obtain ⟨out, next, tail, hanswer, -, houts⟩ := run_cons_eq_ok hleft
    cases houts
    obtain ⟨hindex, hrequest, hresult⟩ := result_of_answer xxh3 hinv.wellTyped hanswer hd
    refine ⟨mid, by rw [hentries]; exact htaken, hinv, ?_⟩
    rw [hindex, hrequest, hresult, hinv.user]

theorem applied_eq_true_iff {d : Decision} {current : Option KeyRecord}
    (hresult : d.result = decision current d.request.op d.index) :
    d.applied = true ↔ conditionHolds d.request.op current = true := by
  rw [Decision.applied, hresult, decision]
  by_cases hholds : conditionHolds d.request.op current <;> simp [hholds]

theorem conditionHolds_number {op : DataOp} {version : Version}
    (hop : ifVersion op = some (.number version)) (current : Option KeyRecord) :
    conditionHolds op current = true ↔
      ∃ record, current = some record ∧ record.version = version := by
  cases op <;> cases hop <;> cases current <;> simp [conditionHolds]

/-- The last effective decision on a key is a decision on that key. -/
theorem effectiveOn_of_lastEffective {key : Bytes} {history : List Answer} {d : Decision}
    (hd : lastEffective key history = some d) : d.request.op.key = key := by
  have hmem := List.mem_of_getLast? hd
  rw [effective, List.mem_filter, Decision.effectiveOn, Bool.and_eq_true, decide_eq_true_eq] at hmem
  exact hmem.2.1

/-- A key has a record exactly when the last effective decision on it is a put, and the version of
the record is the log index of that put. -/
theorem currentRecord_eq_some_iff {key : Bytes} {history : List Answer} {record : KeyRecord} :
    currentRecord key history = some record ↔
      ∃ put, lastEffective key history = some put ∧ put.index = record.version ∧
        ∃ condition, put.request.op = .put key record.value condition := by
  rw [currentRecord, Option.bind_eq_some_iff]
  refine exists_congr fun put ↦ and_congr_right fun hput ↦ ?_
  have hkey := effectiveOn_of_lastEffective hput
  unfold Decision.leaves
  cases hop : put.request.op with
  | put key' value condition =>
    rw [hop] at hkey
    change key' = key at hkey
    subst hkey
    obtain ⟨version, stored⟩ := record
    simp
  | delete key' condition => simp

/-- Assumes: entries at strictly increasing log indices. The effective decisions of a run on a key
come at strictly increasing indices. -/
theorem pairwise_effective {history : List Answer}
    (hincreasing : (history.map Answer.entry).Pairwise fun first second ↦ first.1 < second.1)
    (key : Bytes) :
    (effective key history).Pairwise fun first second ↦ first.index < second.index := by
  refine List.Pairwise.sublist List.filter_sublist ?_
  rw [List.pairwise_map] at hincreasing
  refine hincreasing.filterMap Answer.decision fun first second hlt d hd e he ↦ ?_
  have hindex : ∀ {a : Answer} {d : Decision}, a.decision = some d → d.index = a.index := by
    intro a d hd
    unfold Answer.decision at hd
    split at hd
    · cases hd
      rfl
    · cases hd
  rw [hindex hd, hindex he]
  exact hlt

/-- Assumes: entries at strictly increasing log indices. An overwritten decision has another index
than the last effective one. -/
theorem index_ne_of_overwritten {history : List Answer}
    (hincreasing : (history.map Answer.entry).Pairwise fun first second ↦ first.1 < second.1)
    {key : Bytes} {overwritten overwriting last : Decision}
    (hpair : [overwritten, overwriting].Sublist (effective key history))
    (hlast : lastEffective key history = some last) : last.index ≠ overwritten.index := by
  have hpairwise := pairwise_effective hincreasing key
  have hlt : overwritten.index < overwriting.index := by
    have hsub := hpairwise.sublist hpair
    rw [List.pairwise_cons] at hsub
    exact hsub.1 overwriting List.mem_cons_self
  obtain ⟨front, hfront⟩ := List.getLast?_eq_some_iff.mp hlast
  have hmem : overwriting ∈ effective key history :=
    hpair.subset (List.mem_cons_of_mem _ List.mem_cons_self)
  rw [hfront] at hmem hpairwise
  intro heq
  rcases List.mem_append.mp hmem with hearlier | hsame
  · have hbelow := (List.pairwise_append.mp hpairwise).2.2 overwriting hearlier last
      List.mem_cons_self
    rw [heq] at hbelow
    exact UInt64.lt_irrefl _ (UInt64.lt_trans hlt hbelow)
  · rw [List.mem_singleton] at hsame
    rw [hsame, heq] at hlt
    exact UInt64.lt_irrefl _ hlt

/-- Assumes: entries at strictly increasing log indices. At the end of every run from an empty
group, and so at each point of it, a key holds the record of the last effective decision on it: the
value of a put under the put's log index, and nothing after a delete or before the first put. Inside
the run, a decision under a version condition applies exactly when the last effective decision on
its key is the put at that index, so never for a version that was overwritten or deleted before; a
create-only put applies exactly when the key has no record; and a failed condition reports the
record the key has at that point. -/
theorem versions_never_repeat (epoch : Option (BitVec 128)) (entries : List (UInt64 × DataRequest))
    (hincreasing : entries.Pairwise fun first second ↦ first.1 < second.1) :
    ∃ history cf, run (answer xxh3) (emptyState epoch) entries = .ok (history, cf) ∧
      history.map Answer.entry = entries ∧
      (∀ key, cf[userKey key]? = (currentRecord key history).map DataValue.user) ∧
      ∀ earlier a later d, history = earlier ++ a :: later → a.decision = some d →
        ∃ mid,
          run (answer xxh3) (emptyState epoch) (earlier.map Answer.entry) = .ok (earlier, mid) ∧
          (∀ version, ifVersion d.request.op = some (.number version) →
            (d.applied = true ↔
              ∃ put, lastEffective d.request.op.key earlier = some put ∧ put.index = version ∧
                ∃ value condition, put.request.op = .put d.request.op.key value condition)) ∧
          (∀ overwritten overwriting,
            [overwritten, overwriting].Sublist (effective d.request.op.key earlier) →
            ifVersion d.request.op = some (.number overwritten.index) → d.applied = false) ∧
          (∀ key value, d.request.op = .put key value (some .absent) →
            (d.applied = true ↔ mid[userKey key]? = none)) ∧
          ∀ current, d.result = .conditionFailed current →
            (current = .absent ∧ mid[userKey d.request.op.key]? = none) ∨
            ∃ record, current = .present record.version ∧
              mid[userKey d.request.op.key]? = some (.user record) := by
  obtain ⟨history, cf, hrun, hentries, hinv⟩ := VersionInvariant.exists_run xxh3 epoch entries
  refine ⟨history, cf, hrun, hentries, fun key ↦ ?_, ?_⟩
  · rw [hinv.wellTyped.getElem?_userKey, hinv.user]
  rintro earlier a later d rfl hd
  obtain ⟨mid, hmid, hmidinv, hresult⟩ := result_eq_decision xxh3 hrun hd
  have hearlier : (earlier.map Answer.entry).Pairwise fun first second ↦ first.1 < second.1 := by
    rw [← hentries, List.map_append] at hincreasing
    exact (List.pairwise_append.mp hincreasing).1
  have hnumber : ∀ version, ifVersion d.request.op = some (.number version) →
      (d.applied = true ↔
        ∃ put, lastEffective d.request.op.key earlier = some put ∧ put.index = version ∧
          ∃ value condition, put.request.op = .put d.request.op.key value condition) := by
    intro version hversion
    rw [applied_eq_true_iff hresult, conditionHolds_number hversion]
    simp only [currentRecord_eq_some_iff]
    constructor
    · rintro ⟨record, ⟨put, hput, hindex, condition, hop⟩, rfl⟩
      exact ⟨put, hput, hindex, record.value, condition, hop⟩
    · rintro ⟨put, hput, rfl, value, condition, hop⟩
      exact ⟨{ version := put.index, value := value }, ⟨put, hput, rfl, condition, hop⟩, rfl⟩
  refine ⟨mid, hmid, hnumber, ?_, ?_, ?_⟩
  · intro overwritten overwriting hpair hversion
    rw [← Bool.not_eq_true, hnumber _ hversion]
    rintro ⟨put, hput, hindex, -⟩
    exact index_ne_of_overwritten hearlier hpair hput hindex
  · intro key value hop
    rw [applied_eq_true_iff hresult, hmidinv.wellTyped.getElem?_userKey, hmidinv.user, hop]
    simp [conditionHolds, DataOp.key]
  · intro current hcurrent
    rw [hmidinv.wellTyped.getElem?_userKey, hmidinv.user]
    rw [hresult, decision] at hcurrent
    split_ifs at hcurrent
    cases hcurrent
    cases currentRecord d.request.op.key earlier with
    | none => exact .inl ⟨rfl, rfl⟩
    | some record => exact .inr ⟨record, rfl, rfl⟩

/-- A run that writes a key, deletes it and then asks for the deleted version. -/
theorem versions_never_repeat_deleted :
    ∃ history cf, run (answer fun _ ↦ 0) (emptyState none)
        [(1, ⟨0, 7, 1, .put [107] [1] none⟩), (3, ⟨0, 7, 2, .delete [107] none⟩),
          (4, ⟨0, 7, 3, .put [107] [2] (some (.number 1))⟩)] = .ok (history, cf) ∧
      history.map (·.index) = [1, 3, 4] ∧
      ∀ key, cf[userKey key]? = (currentRecord key history).map DataValue.user := by
  obtain ⟨history, cf, hrun, hentries, hrecords, -⟩ := versions_never_repeat (fun _ ↦ 0) none
    [(1, ⟨0, 7, 1, .put [107] [1] none⟩), (3, ⟨0, 7, 2, .delete [107] none⟩),
      (4, ⟨0, 7, 3, .put [107] [2] (some (.number 1))⟩)] (by decide)
  refine ⟨history, cf, hrun, ?_, hrecords⟩
  have hindices := congrArg (List.map Prod.fst) hentries
  rw [List.map_map] at hindices
  exact hindices

end DalService.Partition
