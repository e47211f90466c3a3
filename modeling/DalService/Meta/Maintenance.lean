import DalService.Meta.Run

/-!
# Maintenance operations

One record drives a maintenance operation through its stages. While it is not released, nothing but
the record itself changes (`frozen_step`), so what its participants showed when they acknowledged
still holds when the operation moves on. The lists of the record are sorted and run in step with
each other (`Aligned`): they are only changed by setting the element of one node, which keeps lists
with the same keys at the same keys. `maintenance_operation` is the result for runs of a replica.
-/

set_option autoImplicit false

namespace DalService.Meta

open Foundation MetaStateMachine

/-! ### The lists of a record -/

/-- The lists of a maintenance record run in step with each other. -/
structure Aligned (record : MaintenanceRecord) : Prop where
  participants : record.participants.Pairwise (· < ·)
  some_participant : record.participants ≠ []
  acknowledged : record.acknowledged.Pairwise (· < ·)
  acknowledged_subset : record.acknowledged ⊆ record.participants
  recovered : record.recovered.Pairwise (· < ·)
  recovered_subset : record.recovered ⊆ record.participants
  processes : record.recoveryProcesses.map Prod.fst = record.recovered
  digests : record.recoveryPolicyDigests.map Prod.fst = record.recovered
  policy : ∀ digest, record.verificationPolicyDigest = some digest ↔
    record.recovered = record.participants ∧
      ∀ recorded ∈ record.recoveryPolicyDigests, recorded.2 = digest

variable {record : MaintenanceRecord}

/-- Assumes: no participant has recovered yet. -/
theorem policy_of_no_recovery (hsome : record.participants ≠ [])
    (hrecovered : record.recovered = []) (hpolicy : record.verificationPolicyDigest = none)
    (digest : Digest32) :
    record.verificationPolicyDigest = some digest ↔
      record.recovered = record.participants ∧
        ∀ recorded ∈ record.recoveryPolicyDigests, recorded.2 = digest := by
  rw [hrecovered, hpolicy]
  constructor
  · intro h
    cases h
  · rintro ⟨hnone, -⟩
    exact absurd hnone.symm hsome

theorem Aligned.begun {participants : List NodeId} (hsorted : participants.IsChain (· < ·))
    (hsome : participants ≠ []) (operationId : BitVec 128) (generation : UInt64) :
    Aligned (begun operationId generation participants) where
  participants :=
    haveI : IsTrans NodeId (· < ·) := ⟨fun _ _ _ ↦ UInt64.lt_trans⟩
    List.isChain_iff_pairwise.mp hsorted
  some_participant := hsome
  acknowledged := List.Pairwise.nil
  acknowledged_subset := List.nil_subset _
  recovered := List.Pairwise.nil
  recovered_subset := List.nil_subset _
  processes := rfl
  digests := rfl
  policy := policy_of_no_recovery hsome rfl rfl

theorem Aligned.verifying (h : Aligned record) : Aligned (verifying record) where
  participants := h.participants
  some_participant := h.some_participant
  acknowledged := h.acknowledged
  acknowledged_subset := h.acknowledged_subset
  recovered := List.Pairwise.nil
  recovered_subset := List.nil_subset _
  processes := rfl
  digests := rfl
  policy := policy_of_no_recovery h.some_participant rfl rfl

theorem Aligned.setStage (h : Aligned record) (stage : MaintenanceStage) :
    Aligned { record with stage := stage } :=
  ⟨h.participants, h.some_participant, h.acknowledged, h.acknowledged_subset, h.recovered,
    h.recovered_subset, h.processes, h.digests, h.policy⟩

/-- An acknowledgement goes where it keeps the list sorted. -/
theorem insertIdx_eq_upsert {target : UInt64} {keys : List UInt64} {index : ℕ}
    (h : binarySearch target keys = .error index) :
    keys.insertIdx index target = upsert id target keys := by
  rw [upsert_id, h]

theorem mem_upsert_id {keys : List UInt64} (hsorted : keys.Pairwise (· < ·)) {target other : UInt64}
    (h : other ∈ upsert id target keys) : other = target ∨ other ∈ keys := by
  rcases (mem_upsert (by simpa using hsorted) target other).mp h with hother | ⟨hother, -⟩
  · exact .inl hother
  · exact .inr hother

theorem Aligned.acknowledge (h : Aligned record) {nodeId : NodeId}
    {index : ℕ} (hparticipant : (binarySearch nodeId record.participants).isOk)
    (hindex : binarySearch nodeId record.acknowledged = .error index) :
    Aligned { record with acknowledged := record.acknowledged.insertIdx index nodeId } := by
  rw [insertIdx_eq_upsert hindex]
  refine ⟨h.participants, h.some_participant, pairwise_upsert h.acknowledged nodeId,
    fun id hid ↦ ?_, h.recovered, h.recovered_subset, h.processes, h.digests, h.policy⟩
  rcases mem_upsert_id h.acknowledged hid with rfl | hid
  · exact (isOk_binarySearch_iff h.participants id).mp hparticipant
  · exact h.acknowledged_subset hid

section Recovery

variable (record) (nodeId : NodeId) (processIncarnation : UInt64)
  (policyDigest : Digest32) (recoveryEpoch : BitVec 128)

theorem recovered_recordRecovery :
    (recordRecovery record nodeId processIncarnation policyDigest recoveryEpoch).recovered =
      upsert id nodeId record.recovered := by
  rw [upsert_id, MetaStateMachine.recordRecovery]
  cases binarySearch nodeId record.recovered <;> rfl

theorem processes_recordRecovery :
    (recordRecovery record nodeId processIncarnation policyDigest recoveryEpoch).recoveryProcesses =
      upsert Prod.fst (nodeId, processIncarnation) record.recoveryProcesses := rfl

theorem digests_recordRecovery :
    (recordRecovery record nodeId processIncarnation policyDigest
      recoveryEpoch).recoveryPolicyDigests =
      upsert Prod.fst (nodeId, policyDigest) record.recoveryPolicyDigests := rfl

theorem policy_recordRecovery :
    (recordRecovery record nodeId processIncarnation policyDigest
      recoveryEpoch).verificationPolicyDigest =
      let digests := upsert Prod.fst (nodeId, policyDigest) record.recoveryPolicyDigests
      if upsert id nodeId record.recovered = record.participants ∧
          digests.length = record.participants.length ∧
          digests.map Prod.fst = record.participants ∧
          ∀ digest ∈ digests, decide (digest.2 = policyDigest) then
        some policyDigest
      else none := by
  rw [← recovered_recordRecovery record nodeId processIncarnation policyDigest recoveryEpoch]
  simp only [← List.all_eq_true]
  rfl

variable {record nodeId}

/-- A report sets the element of its node in each list, and the policy all digests agree on. -/
theorem Aligned.recover (h : Aligned record)
    (hparticipant : (binarySearch nodeId record.participants).isOk) :
    Aligned (recordRecovery record nodeId processIncarnation policyDigest recoveryEpoch) := by
  have hdigests :
      (upsert Prod.fst (nodeId, policyDigest) record.recoveryPolicyDigests).map Prod.fst =
      upsert id nodeId record.recovered := by rw [map_upsert, h.digests]
  refine ⟨h.participants, h.some_participant, h.acknowledged, h.acknowledged_subset, ?_, ?_, ?_, ?_,
    fun digest ↦ ?_⟩
  · rw [recovered_recordRecovery]
    exact pairwise_upsert h.recovered nodeId
  · rw [recovered_recordRecovery]
    intro id hid
    rcases mem_upsert_id h.recovered hid with rfl | hid
    · exact (isOk_binarySearch_iff h.participants id).mp hparticipant
    · exact h.recovered_subset hid
  · rw [recovered_recordRecovery, processes_recordRecovery, map_upsert, h.processes]
  · rw [recovered_recordRecovery, digests_recordRecovery, hdigests]
  · -- the report's own digest is in the list, so it is the one all agree on
    have hown : (nodeId, policyDigest) ∈
        upsert Prod.fst (nodeId, policyDigest) record.recoveryPolicyDigests :=
      (mem_upsert (by rw [h.digests]; exact h.recovered) _ _).mpr (.inl rfl)
    rw [recovered_recordRecovery, digests_recordRecovery]
    have hlength : (upsert Prod.fst (nodeId, policyDigest) record.recoveryPolicyDigests).length =
        (upsert id nodeId record.recovered).length := by rw [← hdigests, List.length_map]
    rw [policy_recordRecovery]
    dsimp only
    constructor
    · intro hsome
      split_ifs at hsome with hagree
      obtain rfl := Option.some.inj hsome
      exact ⟨hagree.1, fun recorded hrecorded ↦ by simpa using hagree.2.2.2 recorded hrecorded⟩
    · rintro ⟨hall, hsame⟩
      obtain rfl : policyDigest = digest := hsame _ hown
      refine if_pos ⟨hall, ?_, hdigests.trans hall, fun recorded hrecorded ↦ ?_⟩
      · exact hlength.trans (congrArg List.length hall)
      · simpa using hsame recorded hrecorded

end Recovery

/-! ### Steps -/

variable {prims : Primitives} {identity : Option Identity} {v next : MetaView} {entry : Entry}

/-- A step leaves the view of an open operation as it is, or changes the maintenance record only. -/
theorem frozen_step (hfrozen : v.Frozen) (hstep : Step prims identity v entry next) :
    next = v ∨ ∃ record, MaintenanceEffect prims v entry.2 record ∧
      next = { v with maintenance := some record } := by
  rcases hstep with rfl | heffect
  · exact .inl rfl
  cases heffect with
  | directory _ hopen | placement _ _ hopen | search _ hopen => exact absurd hfrozen hopen
  | maintenance record h => exact .inr ⟨record, h, rfl⟩

/-- A step keeps the maintenance record, or is one of the changes of a maintenance operation. -/
theorem maintenance_cases (hstep : Step prims identity v entry next) :
    next.maintenance = v.maintenance ∨ ∃ record, MaintenanceEffect prims v entry.2 record ∧
      next = { v with maintenance := some record } := by
  rcases hstep with rfl | heffect
  · exact .inl rfl
  obtain ⟨logId, cmd⟩ := entry
  cases heffect with
  | directory _ _ h => cases h <;> exact .inl rfl
  | placement _ _ _ h => exact .inl rfl
  | search _ _ h =>
    cases h with
    | drop name record =>
      cases record.building with
      | none => exact .inl rfl
      | some building => exact .inl rfl
    | _ => exact .inl rfl
  | maintenance record h => exact .inr ⟨record, h, rfl⟩

/-- The moves of an operation from stage to stage. -/
inductive StageMoves : MaintenanceStage → MaintenanceStage → Prop
  | stay (stage : MaintenanceStage) : StageMoves stage stage
  | quiesce : StageMoves .preparing .quiesced
  | verify : StageMoves .quiesced .verifying
  | release : StageMoves .verifying .released
  | cancel : StageMoves .preparing .released

/-- What a change of the maintenance record is: the operation goes on, or a new one starts. -/
inductive Operates : Option MaintenanceRecord → MaintenanceRecord → Prop
  | first (record : MaintenanceRecord) (hgeneration : record.generation = 1)
    (hstage : record.stage = .preparing) : Operates none record
  | goesOn (old record : MaintenanceRecord) (hgeneration : record.generation = old.generation)
    (hoperation : record.operationId = old.operationId)
    (hparticipants : record.participants = old.participants)
    (hstage : StageMoves old.stage record.stage) : Operates (some old) record
  | starts (old record : MaintenanceRecord) (hreleased : old.stage = .released)
    (hgeneration : record.generation.toNat = old.generation.toNat + 1)
    (hoperation : record.operationId ≠ old.operationId) (hstage : record.stage = .preparing) :
    Operates (some old) record

theorem MaintenanceEffect.operates {cmd : MetaCommand}
    (h : MaintenanceEffect prims v cmd record) : Operates v.maintenance record := by
  cases h with
  | start operationId generation participants config _ _ _ _ _ _ _ _ hprevious =>
    rcases hprevious with ⟨hnone, hone⟩ | ⟨previous, hprevious, hreleased, hid, hnext⟩
    · rw [hnone]
      exact .first _ hone rfl
    · rw [hprevious]
      exact .starts previous _ hreleased (toNat_checkedSucc hnext) hid.symm rfl
  | release old _ _ _ hrecord hstage =>
    rw [hrecord]
    refine .goesOn old _ rfl rfl rfl ?_
    rcases hstage with hpreparing | ⟨hverifying, -⟩
    · rw [hpreparing]
      exact .cancel
    · rw [hverifying]
      exact .release
  | acknowledge old nodeId _ index hrecord | recover old nodeId _ _ _ _ _ hrecord =>
    rw [hrecord]
    exact .goesOn old _ rfl rfl rfl (.stay _)
  | quiesce old hrecord hstage =>
    rw [hrecord]
    refine .goesOn old _ rfl rfl rfl ?_
    rw [hstage]
    exact .quiesce
  | verify old hrecord hstage =>
    rw [hrecord]
    refine .goesOn old _ rfl rfl rfl ?_
    rw [hstage]
    exact .verify

/-! ### What the participants showed -/

/-- Every node that acknowledged is active, and did so by a command at its current incarnation. -/
def Acknowledged (done : List Entry) (v : MetaView) (record : MaintenanceRecord) : Prop :=
  ∀ id ∈ record.acknowledged, ∃ entry logId, v.node id = some entry ∧ entry.state = .active ∧
    (logId, .acknowledgeMaintenance record.operationId record.generation id entry.incarnation) ∈
      done

/-- Every node that recovered is active, and reported by a command at its current incarnation, with
the topology it hosts, the current recovery epoch, and the process and policy recorded for it. -/
def Recovered (prims : Primitives) (done : List Entry) (v : MetaView) (record : MaintenanceRecord) :
    Prop :=
  ∀ id process digest, (id, process) ∈ record.recoveryProcesses →
    (id, digest) ∈ record.recoveryPolicyDigests →
    ∃ entry logId config, v.node id = some entry ∧ entry.state = .active ∧
      v.cluster = some config ∧
      (logId, .acknowledgeMaintenanceRecovery record.operationId record.generation id
        entry.incarnation process
        (maintenanceTopologyDigest prims (v.hosted id (groups config.p))) digest v.recoveryEpoch) ∈
          done

/-- The lists of the maintenance record are aligned, and while the operation is open its
participants have shown what the lists say. -/
structure MaintenanceInvariant (prims : Primitives) (done : List Entry) (v : MetaView) : Prop where
  aligned : ∀ record, v.maintenance = some record → Aligned record
  acknowledged : ∀ record, v.maintenance = some record → record.stage ≠ .released →
    Acknowledged done v record
  recovered : ∀ record, v.maintenance = some record → record.stage ≠ .released →
    Recovered prims done v record

theorem MaintenanceEffect.aligned {cmd : MetaCommand}
    (hold : ∀ old, v.maintenance = some old → Aligned old)
    (h : MaintenanceEffect prims v cmd record) : Aligned record := by
  cases h with
  | start operationId generation participants config _ _ _ hsome hsorted =>
    exact .begun hsorted hsome operationId generation
  | release old _ _ _ hrecord => exact (hold old hrecord).setStage .released
  | acknowledge old nodeId _ index hrecord _ hparticipant _ _ hindex =>
    exact (hold old hrecord).acknowledge hparticipant hindex
  | quiesce old hrecord => exact (hold old hrecord).setStage .quiesced
  | verify old hrecord => exact (hold old hrecord).verifying
  | recover old nodeId _ processIncarnation _ policyDigest _ hrecord _ hparticipant =>
    exact (hold old hrecord).recover processIncarnation policyDigest v.recoveryEpoch hparticipant

theorem Acknowledged.mono {done later : List Entry}
    (h : Acknowledged done v record) (hsubset : done ⊆ later) : Acknowledged later v record := by
  intro id hid
  obtain ⟨entry, logId, hentry, hactive, hdone⟩ := h id hid
  exact ⟨entry, logId, hentry, hactive, hsubset hdone⟩

theorem Recovered.mono {done later : List Entry} (h : Recovered prims done v record)
    (hsubset : done ⊆ later) : Recovered prims later v record := by
  intro id process digest hprocess hdigest
  obtain ⟨entry, logId, config, hentry, hactive, hconfig, hdone⟩ :=
    h id process digest hprocess hdigest
  exact ⟨entry, logId, config, hentry, hactive, hconfig, hsubset hdone⟩

section Effects

variable {done : List Entry}

theorem MaintenanceInvariant.acknowledged_effect (h : MaintenanceInvariant prims done v)
    (heffect : MaintenanceEffect prims v entry.2 record) (hopen : record.stage ≠ .released) :
    Acknowledged (done ++ [entry]) v record := by
  obtain ⟨logId, cmd⟩ := entry
  have hmore : done ⊆ done ++ [(logId, cmd)] := List.subset_append_left _ _
  cases heffect with
  | start =>
    intro id hid
    cases hid
  | release => exact absurd rfl hopen
  | acknowledge old nodeId found index hrecord hstage _ hentry hactive hindex =>
    intro id hid
    dsimp only at hid
    rw [insertIdx_eq_upsert hindex] at hid
    rcases mem_upsert_id (h.aligned old hrecord).acknowledged hid with rfl | hid
    · exact ⟨found, logId, hentry, hactive, by simp⟩
    · exact (h.acknowledged old hrecord hopen).mono hmore id hid
  | quiesce old hrecord hstage | verify old hrecord hstage
  | recover old nodeId _ _ _ _ _ hrecord hstage =>
    exact (h.acknowledged old hrecord (by simp [hstage])).mono hmore

theorem MaintenanceInvariant.recovered_effect (h : MaintenanceInvariant prims done v)
    (heffect : MaintenanceEffect prims v entry.2 record) (hopen : record.stage ≠ .released) :
    Recovered prims (done ++ [entry]) v record := by
  obtain ⟨logId, cmd⟩ := entry
  have hmore : done ⊆ done ++ [(logId, cmd)] := List.subset_append_left _ _
  cases heffect with
  | start | verify old hrecord hstage =>
    intro id process digest hprocess
    cases hprocess
  | release => exact absurd rfl hopen
  | acknowledge old nodeId found index hrecord =>
    exact (h.recovered old hrecord hopen).mono hmore
  | quiesce old hrecord hstage =>
    exact (h.recovered old hrecord (by simp [hstage])).mono hmore
  | recover old nodeId found processIncarnation topologyDigest policyDigest config hrecord hstage _
      hentry hactive _ _ _ hcluster _ htopology =>
    have haligned := h.aligned old hrecord
    intro id process digest hprocess hdigest
    rw [processes_recordRecovery,
      mem_upsert (by rw [haligned.processes]; exact haligned.recovered)] at hprocess
    rw [digests_recordRecovery,
      mem_upsert (by rw [haligned.digests]; exact haligned.recovered)] at hdigest
    -- both lists set the element of the node that reported, and keep the others
    by_cases hid : id = nodeId
    · subst hid
      rcases hprocess with hprocess | ⟨-, hne⟩
      · rcases hdigest with hdigest | ⟨-, hne⟩
        · cases hprocess
          cases hdigest
          exact ⟨found, logId, config, hentry, hactive,
            hcluster, by simp [htopology, recordRecovery]⟩
        · exact absurd rfl hne
      · exact absurd rfl hne
    · rcases hprocess with hprocess | ⟨hprocess, -⟩
      · exact absurd (congrArg Prod.fst hprocess) hid
      · rcases hdigest with hdigest | ⟨hdigest, -⟩
        · exact absurd (congrArg Prod.fst hdigest) hid
        · exact (h.recovered old hrecord (by simp [hstage])).mono hmore id process digest hprocess
            hdigest

end Effects

/-- Every abstract step keeps the invariant of maintenance operations. -/
theorem MaintenanceInvariant.step {done : List Entry} (h : MaintenanceInvariant prims done v)
    (hstep : Step prims identity v entry next) :
    MaintenanceInvariant prims (done ++ [entry]) next := by
  have hmore : done ⊆ done ++ [entry] := List.subset_append_left _ _
  have heffect : ∀ record, MaintenanceEffect prims v entry.2 record →
      MaintenanceInvariant prims (done ++ [entry]) { v with maintenance := some record } := by
    intro record heffect
    refine ⟨fun other hother ↦ ?_, fun other hother hopen ↦ ?_, fun other hother hopen ↦ ?_⟩
    all_goals obtain rfl := Option.some.inj hother
    · exact heffect.aligned h.aligned
    · exact h.acknowledged_effect heffect hopen
    · exact h.recovered_effect heffect hopen
  by_cases hfrozen : v.Frozen
  · rcases frozen_step hfrozen hstep with rfl | ⟨record, hrecord, rfl⟩
    · exact ⟨h.aligned, fun record hrecord hopen ↦ (h.acknowledged record hrecord hopen).mono hmore,
        fun record hrecord hopen ↦ (h.recovered record hrecord hopen).mono hmore⟩
    · exact heffect record hrecord
  · rcases maintenance_cases hstep with hsame | ⟨record, hrecord, rfl⟩
    · have hclosed : ∀ record, next.maintenance = some record → ¬record.stage ≠ .released :=
        fun record hrecord hopen ↦ hfrozen ⟨record, hsame ▸ hrecord, hopen⟩
      exact ⟨fun record hrecord ↦ h.aligned record (hsame ▸ hrecord),
        fun record hrecord hopen ↦ absurd hopen (hclosed record hrecord),
        fun record hrecord hopen ↦ absurd hopen (hclosed record hrecord)⟩
    · exact heffect record hrecord

theorem MaintenanceInvariant.trace {epoch : BitVec 128} {entries : List Entry}
    (htrace : Trace (Step prims identity) (MetaView.empty epoch) entries v) :
    MaintenanceInvariant prims entries v := by
  refine htrace.invariant (P := MaintenanceInvariant prims) ?_
    fun done entry mid next _ hmid hstep ↦ hmid.step hstep
  refine ⟨fun _ h ↦ ?_, fun _ h ↦ ?_, fun _ h ↦ ?_⟩
  all_goals cases h

/-- Assumes: a step that quiesces an operation. Every participant had acknowledged. -/
theorem acknowledged_of_quiesced (hstep : Step prims identity v entry next)
    {old : MaintenanceRecord} (hold : v.maintenance = some old)
    (hrecord : next.maintenance = some record) (hpreparing : old.stage = .preparing)
    (hquiesced : record.stage = .quiesced) : old.acknowledged = old.participants := by
  obtain ⟨logId, cmd⟩ := entry
  rcases maintenance_cases hstep with hsame | ⟨written, heffect, rfl⟩
  · rw [hsame, hold] at hrecord
    rw [← Option.some.inj hrecord, hpreparing] at hquiesced
    cases hquiesced
  · obtain rfl := Option.some.inj hrecord
    have hfrom : ∀ {found : MaintenanceRecord}, v.maintenance = some found → found = old :=
      fun hfound ↦ Option.some.inj (hfound.symm.trans hold)
    cases heffect with
    | quiesce found hfound _ hall => exact hfrom hfound ▸ hall
    | start => cases hquiesced
    | release => cases hquiesced
    | acknowledge found _ _ _ hfound hstage =>
      rw [hstage] at hquiesced
      cases hquiesced
    | verify => cases hquiesced
    | recover found _ _ _ _ _ _ hfound hstage =>
      have hsame : found.stage = .quiesced := hquiesced
      rw [hstage] at hsame
      cases hsame

/-- Assumes: a step that releases an operation under verification. The command showed what a release
needs. -/
theorem verified_of_released (hstep : Step prims identity v entry next) {old : MaintenanceRecord}
    (hold : v.maintenance = some old) (hrecord : next.maintenance = some record)
    (hverifying : old.stage = .verifying) (hreleased : record.stage = .released) :
    ∃ liveProcesses liveIncarnations policyDigest,
      entry.2 = .releaseMaintenance old.operationId old.generation liveProcesses liveIncarnations
        policyDigest ∧ Verified v old liveProcesses liveIncarnations policyDigest := by
  obtain ⟨logId, cmd⟩ := entry
  rcases maintenance_cases hstep with hsame | ⟨written, heffect, rfl⟩
  · rw [hsame, hold] at hrecord
    rw [← Option.some.inj hrecord, hverifying] at hreleased
    cases hreleased
  · obtain rfl := Option.some.inj hrecord
    have hfrom : ∀ {found : MaintenanceRecord}, v.maintenance = some found → found = old :=
      fun hfound ↦ Option.some.inj (hfound.symm.trans hold)
    cases heffect with
    | release found liveProcesses liveIncarnations policyDigest hfound hstage =>
      obtain rfl := hfrom hfound
      rcases hstage with hpreparing | ⟨-, hverified⟩
      · rw [hpreparing] at hverifying
        cases hverifying
      · exact ⟨liveProcesses, liveIncarnations, policyDigest, rfl, hverified⟩
    | start => cases hreleased
    | acknowledge found _ _ _ hfound hstage =>
      rw [hstage] at hreleased
      cases hreleased
    | quiesce => cases hreleased
    | verify => cases hreleased
    | recover found _ _ _ _ _ _ hfound hstage =>
      have hsame : found.stage = .released := hreleased
      rw [hstage] at hsame
      cases hsame

/-- Assumes: keys listed in step with their elements. Each key has an element. -/
theorem exists_of_map_fst {T : Type} {items : List (NodeId × T)} {keys : List NodeId}
    (h : items.map Prod.fst = keys) {id : NodeId} (hid : id ∈ keys) :
    ∃ value, (id, value) ∈ items := by
  rw [← h, List.mem_map] at hid
  obtain ⟨⟨_, value⟩, hvalue, rfl⟩ := hid
  exact ⟨value, hvalue⟩

/-- Every list of entries is applied from the empty state of a replica, and so is the entry after
it. While a maintenance operation is open, that entry leaves the cluster record, the directory,
tombstones, placements and the search catalog as they are. It keeps the maintenance record, or takes
the operation on, or starts the next one. After it the lists of the record are ascending, within the
participants, and in step with each other, and a policy is recorded exactly when all participants
have recovered under it. It quiesces an operation only if each participant, active at its current
incarnation, has acknowledged at that incarnation; and it releases an operation under verification
only if the command names the live process of each participant, which has reported, active at its
current incarnation, the topology it hosts, the current recovery epoch and the policy of the
release. -/
theorem maintenance_operation (identity : Option Identity) (epoch : Option (BitVec 128))
    (first : List Entry) (entry : Entry) :
    ∃ early mid result next,
      run (step prims) (emptyStorage identity epoch) first = .ok (early, mid) ∧
      step prims mid entry = .ok (result, next) ∧
      ((view mid.state).Frozen →
        (view next.state).cluster = (view mid.state).cluster ∧
        (view next.state).node = (view mid.state).node ∧
        (view next.state).retired = (view mid.state).retired ∧
        (view next.state).placement = (view mid.state).placement ∧
        (view next.state).searchIndex = (view mid.state).searchIndex) ∧
      ((view next.state).maintenance = (view mid.state).maintenance ∨
        ∃ record, (view next.state).maintenance = some record ∧
          Operates (view mid.state).maintenance record) ∧
      (∀ record, (view next.state).maintenance = some record →
        record.acknowledged.Pairwise (· < ·) ∧ record.acknowledged.Sublist record.participants ∧
        record.recovered.Pairwise (· < ·) ∧ record.recovered.Sublist record.participants ∧
        record.recoveryProcesses.map Prod.fst = record.recovered ∧
        record.recoveryPolicyDigests.map Prod.fst = record.recovered ∧
        ∀ digest, record.verificationPolicyDigest = some digest ↔
          record.recovered = record.participants ∧
            ∀ recorded ∈ record.recoveryPolicyDigests, recorded.2 = digest) ∧
      (∀ old record, (view mid.state).maintenance = some old →
        (view next.state).maintenance = some record → old.stage = .preparing →
        record.stage = .quiesced → ∀ id ∈ old.participants, ∃ listed logId,
          (view mid.state).node id = some listed ∧ listed.state = .active ∧
          (logId, .acknowledgeMaintenance old.operationId old.generation id listed.incarnation) ∈
            first) ∧
      ∀ old record, (view mid.state).maintenance = some old →
        (view next.state).maintenance = some record → old.stage = .verifying →
        record.stage = .released → ∃ liveProcesses liveIncarnations policyDigest,
          entry.2 = .releaseMaintenance old.operationId old.generation liveProcesses
            liveIncarnations policyDigest ∧
          Verified (view mid.state) old liveProcesses liveIncarnations policyDigest ∧
          ∀ id ∈ old.participants, ∃ process listed logId config,
            (id, process) ∈ liveProcesses ∧ (view mid.state).node id = some listed ∧
            listed.state = .active ∧ (view mid.state).cluster = some config ∧
            (logId, .acknowledgeMaintenanceRecovery old.operationId old.generation id
              listed.incarnation process
              (maintenanceTopologyDigest prims ((view mid.state).hosted id (groups config.p)))
              policyDigest (view mid.state).recoveryEpoch) ∈ first := by
  obtain ⟨early, mid, hearly, rfl, hmid, hfirst⟩ := exists_run prims identity epoch first
  obtain ⟨result, next, hnext, -, -, hstep⟩ := exists_step hmid entry
  have hinv := MaintenanceInvariant.trace hfirst
  refine ⟨early, mid, result, next, hearly, hnext, fun hfrozen ↦ ?_, ?_, fun record hrecord ↦ ?_,
    fun old record hold hrecord hpreparing hquiesced id hid ↦ ?_,
    fun old record hold hrecord hverifying hreleased ↦ ?_⟩
  · rcases frozen_step hfrozen hstep with hsame | ⟨record, -, hsame⟩
    all_goals rw [hsame]; exact ⟨rfl, rfl, rfl, rfl, rfl⟩
  · rcases maintenance_cases hstep with hsame | ⟨record, heffect, hnew⟩
    · exact .inl hsame
    · exact .inr ⟨record, by rw [hnew], heffect.operates⟩
  · have haligned := (hinv.step hstep).aligned record hrecord
    exact ⟨haligned.acknowledged,
      sublist_of_sorted haligned.acknowledged haligned.participants haligned.acknowledged_subset,
      haligned.recovered,
      sublist_of_sorted haligned.recovered haligned.participants haligned.recovered_subset,
      haligned.processes, haligned.digests, haligned.policy⟩
  · rw [← acknowledged_of_quiesced hstep hold hrecord hpreparing hquiesced] at hid
    exact hinv.acknowledged old hold (by simp [hpreparing]) id hid
  · obtain ⟨liveProcesses, liveIncarnations, policyDigest, hcmd, hverified⟩ :=
      verified_of_released hstep hold hrecord hverifying hreleased
    refine ⟨liveProcesses, liveIncarnations, policyDigest, hcmd, hverified, fun id hid ↦ ?_⟩
    have haligned := hinv.aligned old hold
    obtain ⟨process, hprocess⟩ := exists_of_map_fst hverified.processes hid
    obtain ⟨digest, hdigest⟩ := exists_of_map_fst haligned.digests (hverified.recovered ▸ hid)
    obtain ⟨listed, logId, config, hlisted, hactive, hconfig, hreport⟩ :=
      hinv.recovered old hold (by simp [hverifying]) id process digest hprocess hdigest
    obtain rfl : digest = policyDigest :=
      ((haligned.policy policyDigest).mp hverified.policy).2 _ hdigest
    exact ⟨process, listed, logId, config, hverified.live ▸ hprocess, hlisted, hactive, hconfig,
      hreport⟩

end DalService.Meta
