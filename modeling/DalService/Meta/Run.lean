import DalService.Foundation.Run
import DalService.Meta.Refinement

/-!
# Runs of the meta group

A replica of the meta group applies committed entries one after the other (`step`). Its states are
well formed from the empty state on, so no entry ever fails, and the run of the replica is a trace
of the abstract steps (`exists_run`): each step leaves the view as it is, or is an effect of the
command. `apply_never_wedges` says what a command does in any state a replica can reach.
-/

set_option autoImplicit false

namespace DalService.Meta

open Foundation Keyspace DalService.Search MetaStateMachine

/-- A committed entry of the meta group's log. -/
abbrev Entry := LogId × MetaCommand

/-- The storage of a replica before its first entry: nothing but the identity and a recovery
epoch. -/
def emptyStorage (identity : Option Identity) (epoch : Option (BitVec 128)) : Storage where
  identity := identity
  state :=
    match epoch with
    | none => ∅
    | some epoch => ColumnFamily.write ∅ (.put recoveryEpochKey (.epoch epoch))

variable (prims : Primitives)

/-- Apply one committed entry. -/
def step (s : Storage) (entry : Entry) : Result (MetaApplyResult × Storage) :=
  MetaStateMachine.apply prims s entry.2 entry.1

/-- One abstract step: the command changes nothing, or it has an effect. -/
def Step (identity : Option Identity) (v : MetaView) (entry : Entry) (next : MetaView) : Prop :=
  next = v ∨ Effect prims identity v entry.1 entry.2 next

variable {prims}

/-! ### The empty state -/

theorem wellFormed_emptyStorage (identity : Option Identity) (epoch : Option (BitVec 128)) :
    WellFormed prims (emptyStorage identity epoch).state := by
  cases epoch with
  | none => exact WellFormed.empty
  | some epoch => exact WellFormed.empty.put (.recoveryEpoch epoch)

theorem view_empty : view ∅ = MetaView.empty 0 := by
  ext1 <;> simp [view, lookup, MetaView.empty]

theorem view_emptyStorage (identity : Option Identity) (epoch : Option (BitVec 128)) :
    view (emptyStorage identity epoch).state = MetaView.empty (epoch.getD 0) := by
  cases epoch with
  | none => exact view_empty
  | some epoch =>
    have hlookup : ∀ (T : Type) [Record MetaValue T] (name : MetaKey), name ≠ .recoveryEpoch →
        lookup T (ColumnFamily.write ∅ (.put recoveryEpochKey (.epoch epoch))) name = none := by
      intro T _ name hname
      change lookup T (ColumnFamily.write ∅ (.put MetaKey.recoveryEpoch.bytes _)) name = none
      rw [lookup_put, if_neg hname.symm]
      simp [lookup]
    ext1
    · exact hlookup _ .cluster (by simp)
    · exact hlookup _ .maintenance (by simp)
    · exact funext fun id ↦ hlookup _ (.node id) (by simp)
    · exact funext fun id ↦ hlookup _ (.retired id) (by simp)
    · exact funext fun group ↦ hlookup _ (.placement group) (by simp)
    · exact funext fun name ↦ hlookup _ (.searchIndex name) (by simp)
    · funext name generation group nodeId
      exact hlookup _ (.ready name generation group nodeId) (by simp)
    · have hepoch := lookup_put (BitVec 128) ∅ .recoveryEpoch .recoveryEpoch (.epoch epoch)
      exact congrArg (Option.getD · 0) (hepoch.trans (if_pos rfl))

/-! ### Steps and runs -/

/-- Writing the position of an entry after its mutations changes nothing else. -/
theorem view_applyState (s : Storage) (muts : List StateMutation) (logId : LogId) :
    view (applyState s muts logId).state = view (s.state.writeAll muts) := by
  rw [applyState, ColumnFamily.writeAll_append]
  exact view_put_lastApplied _ logId

theorem WellFormed.applyState {s : Storage} {muts : List StateMutation}
    (h : WellFormed prims (s.state.writeAll muts)) (logId : LogId) :
    WellFormed prims (MetaStateMachine.applyState s muts logId).state := by
  rw [MetaStateMachine.applyState, ColumnFamily.writeAll_append]
  exact h.put (.lastApplied logId)

variable (prims) in
/-- One abstract step with its answer: an effect if the command was applied, and nothing
otherwise. -/
def Answers (identity : Option Identity) (v : MetaView) (answered : Entry × MetaApplyResult)
    (next : MetaView) : Prop :=
  (answered.2 ≠ .applied ∧ next = v) ∨
    (answered.2 = .applied ∧ Effect prims identity v answered.1.1 answered.1.2 next)

theorem Answers.step {identity : Option Identity} {v next : MetaView}
    {answered : Entry × MetaApplyResult} (h : Answers prims identity v answered next) :
    Step prims identity v answered.1 next := h.imp And.right And.right

theorem exists_answer {s : Storage} (hs : WellFormed prims s.state) (entry : Entry) :
    ∃ result next, step prims s entry = .ok (result, next) ∧ next.identity = s.identity ∧
      WellFormed prims next.state ∧
      Answers prims s.identity (view s.state) (entry, result) (view next.state) := by
  obtain ⟨⟨result, muts⟩, heval, houtcome⟩ := evaluate_returns hs entry.1 entry.2
  refine ⟨result, applyState s muts entry.1, ?_, rfl, ?_, ?_⟩
  · rw [step, MetaStateMachine.apply, heval]
    rfl
  · rcases houtcome with ⟨-, hmuts⟩ | ⟨-, hwell, -⟩
    · obtain rfl : muts = [] := hmuts
      exact WellFormed.applyState hs entry.1
    · exact WellFormed.applyState hwell entry.1
  · rw [view_applyState]
    rcases houtcome with ⟨hother, hmuts⟩ | ⟨happlied, -, heffect⟩
    · obtain rfl : muts = [] := hmuts
      exact .inl ⟨hother, rfl⟩
    · exact .inr ⟨happlied, heffect⟩

/-- In a well-formed state an entry is applied, to a well-formed state one abstract step further. -/
theorem exists_step {s : Storage} (hs : WellFormed prims s.state) (entry : Entry) :
    ∃ result next, step prims s entry = .ok (result, next) ∧ next.identity = s.identity ∧
      WellFormed prims next.state ∧
      Step prims s.identity (view s.state) entry (view next.state) := by
  obtain ⟨result, next, hstep, hidentity, hwell, hanswers⟩ := exists_answer hs entry
  exact ⟨result, next, hstep, hidentity, hwell, hanswers.step⟩

/-- Every list of entries is applied from a well-formed state, and its run is a trace of abstract
steps. -/
theorem exists_run_from {s : Storage} (hs : WellFormed prims s.state) (entries : List Entry) :
    ∃ results last, run (step prims) s entries = .ok (results, last) ∧
      last.identity = s.identity ∧ WellFormed prims last.state ∧
      Trace (Step prims s.identity) (view s.state) entries (view last.state) := by
  obtain ⟨results, last, hrun, ⟨hidentity, hlast⟩, htrace⟩ :=
    exists_run_trace (r := Step prims s.identity) (fun storage : Storage ↦ view storage.state)
      (fun storage ↦ storage.identity = s.identity ∧ WellFormed prims storage.state)
      (fun storage entry ⟨hidentity, hwell⟩ ↦ by
        obtain ⟨result, next, hstep, hnext, hwell', hr⟩ := exists_step hwell entry
        exact ⟨result, next, hstep, ⟨hnext.trans hidentity, hwell'⟩, hidentity ▸ hr⟩)
      ⟨rfl, hs⟩ entries
  exact ⟨results, last, hrun, hidentity, hlast, htrace⟩

variable (prims) in
/-- Every list of entries is applied from the empty state. -/
theorem exists_run (identity : Option Identity) (epoch : Option (BitVec 128))
    (entries : List Entry) :
    ∃ results last, run (step prims) (emptyStorage identity epoch) entries = .ok (results, last) ∧
      last.identity = identity ∧ WellFormed prims last.state ∧
      Trace (Step prims identity) (MetaView.empty (epoch.getD 0)) entries (view last.state) := by
  have hempty : WellFormed prims (emptyStorage identity epoch).state :=
    wellFormed_emptyStorage identity epoch
  obtain ⟨results, last, hrun, hidentity, hwell, htrace⟩ := exists_run_from hempty entries
  rw [view_emptyStorage] at htrace
  exact ⟨results, last, hrun, hidentity, hwell, htrace⟩

/-- Every list of entries is applied from a well-formed state, and its run with its answers is a
trace of abstract steps with theirs. -/
theorem exists_run_answers {s : Storage} (hs : WellFormed prims s.state) (entries : List Entry) :
    ∃ results last, run (step prims) s entries = .ok (results, last) ∧
      results.length = entries.length ∧ last.identity = s.identity ∧ WellFormed prims last.state ∧
      Trace (Answers prims s.identity) (view s.state) (entries.zip results) (view last.state) := by
  obtain ⟨results, last, hrun, hlength, ⟨hidentity, hlast⟩, htrace⟩ :=
    exists_run_answered (r := Answers prims s.identity) (fun storage : Storage ↦ view storage.state)
      (fun storage ↦ storage.identity = s.identity ∧ WellFormed prims storage.state)
      (fun storage entry ⟨hidentity, hwell⟩ ↦ by
        obtain ⟨result, next, hstep, hnext, hwell', hr⟩ := exists_answer hwell entry
        exact ⟨result, next, hstep, ⟨hnext.trans hidentity, hwell'⟩, hidentity ▸ hr⟩)
      ⟨rfl, hs⟩ entries
  exact ⟨results, last, hrun, hlength, hidentity, hlast, htrace⟩

/-- The indices of the entries increase. -/
def IncreasingIndices (entries : List Entry) : Prop :=
  entries.Pairwise fun first second ↦ first.1.index < second.1.index

instance (entries : List Entry) : Decidable (IncreasingIndices entries) :=
  inferInstanceAs (Decidable (entries.Pairwise _))

/-- An index used before a cut is not used after it. -/
theorem IncreasingIndices.ne {first second : List Entry} (h : IncreasingIndices (first ++ second))
    {index : UInt64} (hindex : index ∈ first.map (·.1.index)) {entry : Entry}
    (hentry : entry ∈ second) : index ≠ entry.1.index := by
  obtain ⟨earlier, hearlier, rfl⟩ := List.mem_map.mp hindex
  have hlt := (List.pairwise_append.mp h).2.2 earlier hearlier entry hentry
  intro heq
  rw [heq] at hlt
  exact UInt64.lt_irrefl _ hlt

/-- A command that would be refused past the maintenance gate is refused. -/
theorem rejected_of_dispatch {s : Storage} (hs : WellFormed prims s.state) {cmd : MetaCommand}
    {logId : LogId} (h : ∃ reason, dispatch prims s logId cmd = .ok (.rejected reason, [])) :
    ∃ reason, evaluate prims s cmd logId = .ok (.rejected reason, []) := by
  unfold evaluate
  rw [hs.maintenance_eq, ok_bind]
  dsimp only
  split_ifs with hgate
  · exact ⟨.maintenanceActive, rfl⟩
  · exact h

/-! ### No command wedges the group -/

/-- Two column families that differ differ under a key. -/
theorem exists_getElem?_ne {first second : MetaState} (h : first ≠ second) :
    ∃ key : Bytes, first[key]? ≠ second[key]? := by
  by_contra hall
  push Not at hall
  exact h (Std.ExtTreeMap.ext_getElem? fun key ↦ hall key)

/-- Every list of entries is applied from the empty state of a replica. In the state it leads to,
every command is decided: refused or ignored with no mutation, or applied with mutations that change
a record. Every catalog record stored there passes its check, and every record under a prefix the
state machine scans is of the scanned kind. -/
theorem apply_never_wedges (identity : Identity) (epoch : Option (BitVec 128))
    (entries : List Entry) :
    ∃ results s, run (step prims) (emptyStorage (some identity) epoch) entries = .ok (results, s) ∧
      (∀ cmd logId, ∃ result muts, evaluate prims s cmd logId = .ok (result, muts) ∧
        (result ≠ .applied → muts = []) ∧
        (result = .applied → muts ≠ [] ∧
          ∃ key : Bytes, (s.state.writeAll muts)[key]? ≠ s.state[key]?)) ∧
      (∀ (key : Bytes) record, s.state[key]? = some (.searchIndex record) →
        record.validate prims = .ok ()) ∧
      ∀ (key : Bytes) value, s.state[key]? = some value →
        (metaNodePrefix <+: key → ∃ entry, value = .node entry) ∧
        (metaSearchIndexPrefix <+: key → ∃ record, value = .searchIndex record) ∧
        ∀ name generation, metaSearchReadyPrefix name generation <+: key →
          ∃ ready, value = .ready ready := by
  obtain ⟨results, s, hrun, -, hwell, -⟩ := exists_run prims (some identity) epoch entries
  refine ⟨results, s, hrun, fun cmd logId ↦ ?_, fun key record hrecord ↦ ?_,
    fun key value hvalue ↦ ⟨fun hunder ↦ ?_, fun hunder ↦ ?_, fun name generation hunder ↦ ?_⟩⟩
  · obtain ⟨⟨result, muts⟩, heval, houtcome⟩ := evaluate_returns hwell logId cmd
    refine ⟨result, muts, heval, fun hother ↦ ?_, fun happlied ↦ ?_⟩
    · rcases houtcome with ⟨-, hmuts⟩ | ⟨happlied, -⟩
      · exact hmuts
      · exact absurd happlied hother
    · rcases houtcome with ⟨hother, -⟩ | ⟨-, -, heffect⟩
      · exact absurd happlied hother
      · have hchanged : s.state.writeAll muts ≠ s.state := fun hsame ↦ heffect.ne (by rw [hsame])
        refine ⟨fun hempty ↦ hchanged (by rw [hempty]; rfl), exists_getElem?_ne hchanged⟩
  · obtain ⟨name, rfl, hholds⟩ := hwell key _ hrecord
    cases hholds with
    | searchIndex _ hvalid => exact hvalid
  · obtain ⟨entry, -, hentry⟩ := hwell.node_of_isPrefix hvalue hunder
    exact ⟨entry, hentry⟩
  · obtain ⟨record, -, hrecord, -⟩ := hwell.searchIndex_of_isPrefix hvalue hunder
    exact ⟨record, hrecord⟩
  · obtain ⟨_, ready, -, -, hready⟩ := hwell.ready_of_isPrefix hvalue hunder
    exact ⟨ready, hready⟩

end DalService.Meta
