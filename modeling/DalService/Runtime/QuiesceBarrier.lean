import DalService.Meta.Maintenance
import DalService.Meta.PlacementShape
import DalService.Runtime.Admission

/-!
# The quiesce barrier of a cluster

The meta group commits one maintenance record, and every node has its own admission gate. The
reconciler of a process reads the committed record, hands what it read to the gate, possibly late,
and acknowledges a preparing view once the gate has reconciled it; the meta group takes
acknowledgements that were sent, at any later time and any number of times, or never. Processes
restart with their durable record.

An operation is over for a generation (`Over`) once it is released or a later one has started, which
is never undone. Every view that admits is of an operation that is over, so the gate of a node that
acknowledged a generation stays fenced until the operation is over (`ClusterInvariant`).
`quiesce_barrier` is the result: while the record is quiesced or under verification no participant
holds or grants a permit, and every voter of every placement is a participant.
-/

set_option autoImplicit false

namespace DalService.Runtime

open Foundation DalService.Meta MaintenanceAdmission

/-- The process of a node: its gate, the views it has read, and the records it has reconciled. -/
structure Process where
  gate : MaintenanceAdmission
  views : List (Option MaintenanceRecord)
  reconciled : List MaintenanceRecord

namespace Process

/-- A process that starts with a durable record. -/
def start (durable : Option MaintenanceRecord) : Process where
  gate := .new durable
  views := []
  reconciled := []

/-- A reconcile is given a view that the process has read. -/
def allows (process : Process) : AdmissionEvent → Bool
  | .lock view => view ∈ process.views
  | _ => true

/-- The process after a step of its gate. -/
def after (process : Process) (gate : MaintenanceAdmission) :
    AdmissionEvent → AdmissionAnswer → Process
  | .restart, _ => { gate := gate, views := [], reconciled := [] }
  | _, .ok (some view) => { process with gate := gate, reconciled := view :: process.reconciled }
  | _, _ => { process with gate := gate }

theorem gate_after (process : Process) (gate : MaintenanceAdmission) (event : AdmissionEvent)
    (answer : AdmissionAnswer) : (process.after gate event answer).gate = gate := by
  unfold after
  split <;> rfl

end Process

/-- The committed state of the meta group, the process of every node, and the acknowledgements
sent. -/
structure Cluster where
  storage : Storage
  process : NodeId → Process
  sent : List MetaCommand

inductive ClusterEvent
  | commit (entry : Entry)
  | readIndex (node : NodeId)
  | gate (node : NodeId) (event : AdmissionEvent)
  | acknowledge (node : NodeId) (view : MaintenanceRecord) (incarnation : UInt64)

/-- The command is an acknowledgement of maintenance. -/
def isAcknowledgement : MetaCommand → Bool
  | .acknowledgeMaintenance _ _ _ _ => true
  | _ => false

namespace Cluster

/-- A cluster before its first entry. -/
def start (identity : Option Identity) (epoch : Option (BitVec 128)) : Cluster where
  storage := emptyStorage identity epoch
  process := fun _ ↦ .start none
  sent := []

variable (prims : Primitives) (s : Cluster)

def setProcess (node : NodeId) (process : Process) : Cluster :=
  { s with process := Function.update s.process node process }

/-- The meta group commits an entry. An acknowledgement in it was sent before. -/
def commit (entry : Entry) : Option Cluster :=
  if isAcknowledgement entry.2 → entry.2 ∈ s.sent then
    match Meta.step prims s.storage entry with
    | .ok (_, storage) => some { s with storage := storage }
    | .error _ => none
  else none

/-- The reconciler of a process gets the committed record. -/
def readIndex (node : NodeId) : Option Cluster :=
  match MetaStateMachine.maintenance s.storage with
  | .ok record =>
    let process := s.process node
    some (s.setProcess node { process with views := record :: process.views })
  | .error _ => none

/-- A step of the gate of a node: a mutation asks for its permit, gets it or ends, or a reconcile or
the process goes on. -/
def gate (node : NodeId) (event : AdmissionEvent) : Option Cluster :=
  let process := s.process node
  if process.allows event then
    match process.gate.step event with
    | some (answer, gate) => some (s.setProcess node (process.after gate event answer))
    | none => none
  else none

/-- The reconciler acknowledges a preparing view that its gate has reconciled. -/
def acknowledge (node : NodeId) (view : MaintenanceRecord) (incarnation : UInt64) :
    Option Cluster :=
  if view ∈ (s.process node).reconciled ∧ view.stage = .preparing ∧
      (binarySearch node view.participants).isOk then
    some { s with
      sent := .acknowledgeMaintenance view.operationId view.generation node incarnation :: s.sent }
  else none

def step : ClusterEvent → Option Cluster
  | .commit entry => s.commit prims entry
  | .readIndex node => s.readIndex node
  | .gate node event => s.gate node event
  | .acknowledge node view incarnation => s.acknowledge node view incarnation

end Cluster

/-! ### Operations that are over -/

/-- The operation of a generation is over: it was released, or a later one has started. -/
def Over (v : MetaView) (generation : UInt64) : Prop :=
  ∃ record, v.maintenance = some record ∧
    (generation < record.generation ∨ generation = record.generation ∧ record.stage = .released)

namespace Over

variable {prims : Primitives} {identity : Option Identity} {v next : MetaView} {entry : Entry}
  {generation later : UInt64}

/-- An earlier operation is over too. -/
theorem mono (h : Over v later) (hle : generation ≤ later) : Over v generation := by
  obtain ⟨record, hrecord, hlater | ⟨rfl, hreleased⟩⟩ := h
  · exact ⟨record, hrecord, .inl (UInt64.lt_of_le_of_lt hle hlater)⟩
  · rcases UInt64.lt_or_eq_of_le hle with hless | rfl
    · exact ⟨record, hrecord, .inl hless⟩
    · exact ⟨record, hrecord, .inr ⟨rfl, hreleased⟩⟩

/-- The operation of an open record is not over. -/
theorem not_of_open {record : MaintenanceRecord} (hrecord : v.maintenance = some record)
    (hopen : record.stage ≠ .released) : ¬Over v record.generation := by
  rintro ⟨other, hother, hless | ⟨-, hreleased⟩⟩
  · obtain rfl := Option.some.inj (hrecord.symm.trans hother)
    exact UInt64.lt_irrefl _ hless
  · obtain rfl := Option.some.inj (hrecord.symm.trans hother)
    exact hopen hreleased

/-- What is over stays over. -/
theorem step (h : Over v generation) (hstep : Step prims identity v entry next) :
    Over next generation := by
  obtain ⟨record, hrecord, hover⟩ := h
  rcases maintenance_cases hstep with hsame | ⟨written, heffect, rfl⟩
  · exact ⟨record, hsame.trans hrecord, hover⟩
  refine ⟨written, rfl, ?_⟩
  have hoperates := heffect.operates
  rw [hrecord] at hoperates
  cases hoperates with
  | goesOn _ _ hgeneration _ _ hstage =>
    rw [hgeneration]
    refine hover.imp id fun ⟨hsame, hreleased⟩ ↦ ⟨hsame, ?_⟩
    rw [hreleased] at hstage
    generalize written.stage = stage at hstage
    cases hstage
    rfl
  | starts _ _ _ hgeneration =>
    refine .inl (UInt64.lt_iff_toNat_lt.mpr ?_)
    have hle : generation.toNat ≤ record.generation.toNat := by
      rcases hover with hless | ⟨rfl, -⟩
      · exact Nat.le_of_lt (UInt64.lt_iff_toNat_lt.mp hless)
      · exact le_rfl
    omega

end Over

/-! ### The committed record -/

/-- The record is quiesced only with every acknowledgement, and while it is open every voter is a
participant. -/
structure RecordInvariant (v : MetaView) : Prop where
  placed : PlacementInvariant v
  quiesced : ∀ record, v.maintenance = some record →
    record.stage = .quiesced ∨ record.stage = .verifying → record.acknowledged = record.participants
  voters : ∀ record, v.maintenance = some record → record.stage ≠ .released →
    ∀ group placed, v.placement group = some placed → ∀ voter ∈ placed.voters,
      voter ∈ record.participants

theorem RecordInvariant.empty (epoch : BitVec 128) : RecordInvariant (MetaView.empty epoch) where
  placed := .empty epoch
  quiesced := fun _ h ↦ by cases h
  voters := fun _ h ↦ by cases h

section

variable {prims : Primitives} {identity : Option Identity} {v next : MetaView} {entry : Entry}

/-- A change of the record keeps what it says about the participants: a new operation has the active
nodes, and every voter is one of them. -/
theorem RecordInvariant.effect (h : RecordInvariant v) {cmd : MetaCommand}
    {record : MaintenanceRecord} (heffect : MaintenanceEffect prims v cmd record) :
    (record.stage = .quiesced ∨ record.stage = .verifying →
      record.acknowledged = record.participants) ∧
      (record.stage ≠ .released → ∀ group placed, v.placement group = some placed →
        ∀ voter ∈ placed.voters, voter ∈ record.participants) := by
  cases heffect with
  | start operationId generation participants config hcluster _ _ _ _ hactive hgroups =>
    refine ⟨fun hstage ↦ ?_, fun _ group placed hplaced voter hvoter ↦ ?_⟩
    · rcases hstage with hstage | hstage <;> cases hstage
    · obtain ⟨found, hfound, hshaped⟩ := h.placed.shaped group placed hplaced
      obtain rfl := Option.some.inj (hcluster.symm.trans hfound)
      obtain ⟨other, hother, -, hvoters⟩ := hgroups group (mem_groups_of_shaped hshaped)
      obtain rfl := Option.some.inj (hplaced.symm.trans hother)
      exact (hactive voter).mpr (hvoters voter hvoter)
  | release =>
    refine ⟨fun hstage ↦ ?_, fun hopen ↦ absurd rfl hopen⟩
    rcases hstage with hstage | hstage <;> cases hstage
  | acknowledge old nodeId _ index hrecord hstage =>
    refine ⟨fun hlater ↦ ?_, fun hopen ↦ h.voters old hrecord hopen⟩
    dsimp only at hlater
    rcases hlater with hlater | hlater <;> rw [hstage] at hlater <;> cases hlater
  | quiesce old hrecord hstage hall =>
    exact ⟨fun _ ↦ hall, fun _ ↦ h.voters old hrecord (by rw [hstage]; decide)⟩
  | verify old hrecord hstage =>
    exact ⟨fun _ ↦ h.quiesced old hrecord (.inl hstage),
      fun _ ↦ h.voters old hrecord (by rw [hstage]; decide)⟩
  | recover old nodeId _ _ _ _ _ hrecord hstage =>
    exact ⟨fun _ ↦ h.quiesced old hrecord (.inr hstage),
      fun _ ↦ h.voters old hrecord (by rw [hstage]; decide)⟩

theorem RecordInvariant.step (h : RecordInvariant v) (hstep : Step prims identity v entry next) :
    RecordInvariant next := by
  have hplaced := h.placed.step hstep
  have heffect : ∀ record, MaintenanceEffect prims v entry.2 record →
      next = { v with maintenance := some record } → RecordInvariant next := by
    rintro record heffect rfl
    obtain ⟨hquiesced, hvoters⟩ := h.effect heffect
    refine ⟨hplaced, fun other hother ↦ ?_, fun other hother ↦ ?_⟩
    all_goals obtain rfl := Option.some.inj hother
    · exact hquiesced
    · exact hvoters
  by_cases hfrozen : v.Frozen
  · rcases frozen_step hfrozen hstep with rfl | ⟨record, hrecord, hnext⟩
    · exact h
    · exact heffect record hrecord hnext
  · rcases maintenance_cases hstep with hsame | ⟨record, hrecord, hnext⟩
    · refine ⟨hplaced, fun record hrecord ↦ h.quiesced record (hsame ▸ hrecord),
        fun record hrecord hopen ↦ ?_⟩
      exact absurd ⟨record, hsame ▸ hrecord, hopen⟩ hfrozen
    · exact heffect record hrecord hnext

end

/-! ### The cluster -/

/-- The gate of a node is fenced for a generation, or the operation is over. -/
def Held (v : MetaView) (gate : MaintenanceAdmission) (generation : UInt64) : Prop :=
  Fenced generation gate ∨ Over v generation

/-- Every released view of a process is of an operation that is over, and what the process has
reconciled is held. -/
structure ProcessInvariant (v : MetaView) (process : Process) : Prop where
  sound : process.gate.Sound
  read : ∀ record, some record ∈ process.views → record.stage = .released → Over v record.generation
  pending : ∀ phase record, process.gate.reconciling = some phase → phase.view = some record →
    record.stage = .released → Over v record.generation
  reconciled : ∀ record ∈ process.reconciled, record.stage ≠ .released →
    Held v process.gate record.generation

theorem ProcessInvariant.start (v : MetaView) (durable : Option MaintenanceRecord) :
    ProcessInvariant v (.start durable) where
  sound := .new durable
  read := fun _ h ↦ by cases h
  pending := fun _ _ h ↦ by cases h
  reconciled := fun _ h ↦ by cases h

/-- The committed state goes on. -/
theorem ProcessInvariant.commit {v next : MetaView} {process : Process}
    (h : ProcessInvariant v process)
    (hover : ∀ generation, Over v generation → Over next generation) :
    ProcessInvariant next process where
  sound := h.sound
  read := fun record hrecord hreleased ↦ hover _ (h.read record hrecord hreleased)
  pending := fun phase record hphase hview hreleased ↦
    hover _ (h.pending phase record hphase hview hreleased)
  reconciled := fun record hrecord hopen ↦ (h.reconciled record hrecord hopen).imp id (hover _)

/-- A step of the gate keeps what is held. -/
theorem ProcessInvariant.held {v : MetaView} {process : Process} (h : ProcessInvariant v process)
    {event : AdmissionEvent} {answer : AdmissionAnswer} {gate : MaintenanceAdmission}
    (hstep : process.gate.step event = some (answer, gate)) {generation : UInt64}
    (hheld : Held v process.gate generation) : Held v gate generation := by
  rcases hheld with hfenced | hover
  · obtain ⟨-, ⟨opened, rfl, hreleased, hle⟩ | hstays⟩ := hfenced.moves hstep
    · obtain ⟨phase, hphase, hview⟩ := reconciling_of_ok hstep
      exact .inr ((h.pending phase opened hphase hview hreleased).mono hle)
    · exact .inl hstays
  · exact .inr hover

theorem ProcessInvariant.gate {v : MetaView} {process : Process} (h : ProcessInvariant v process)
    {event : AdmissionEvent} {answer : AdmissionAnswer} {gate : MaintenanceAdmission}
    (hallowed : process.allows event) (hstep : process.gate.step event = some (answer, gate)) :
    ProcessInvariant v (process.after gate event answer) := by
  have hsound := (h.sound.moves hstep).sound
  have hpending : ∀ phase record, gate.reconciling = some phase → phase.view = some record →
      record.stage = .released → Over v record.generation := by
    intro phase record hphase hview hreleased
    rcases view_of_step hstep hphase with rfl | ⟨before, hbefore, hsame⟩
    · rw [hview] at hallowed
      exact h.read record (of_decide_eq_true hallowed) hreleased
    · exact h.pending before record hbefore (hsame.trans hview) hreleased
  have hkept : ∀ record ∈ process.reconciled, record.stage ≠ .released →
      Held v gate record.generation :=
    fun record hrecord hopen ↦ h.held hstep (h.reconciled record hrecord hopen)
  by_cases hrestart : event = .restart
  · subst hrestart
    cases hstep
    exact .start v process.gate.durable
  · by_cases hview : ∃ view, answer = .ok (some view)
    · obtain ⟨view, rfl⟩ := hview
      have hafter : process.after gate event (.ok (some view)) =
          { process with gate := gate, reconciled := view :: process.reconciled } := by
        cases event <;> first | rfl | exact absurd rfl hrestart
      rw [hafter]
      refine ⟨hsound, h.read, hpending, fun record hrecord hopen ↦ ?_⟩
      rcases List.mem_cons.mp hrecord with rfl | hrecord
      · exact .inl (h.sound.fenced hstep hopen).1
      · exact hkept record hrecord hopen
    · have hafter : process.after gate event answer = { process with gate := gate } := by
        cases event <;> cases answer <;> first | rfl | exact absurd rfl hrestart | skip
        all_goals
          rename_i view
          cases view with
          | none => rfl
          | some record => exact absurd ⟨record, rfl⟩ hview
      rw [hafter]
      exact ⟨hsound, h.read, hpending, hkept⟩

/-- The invariant of the cluster: every acknowledgement, sent or recorded, is of a gate that is
held. -/
structure ClusterInvariant (prims : Primitives) (s : Cluster) : Prop where
  well : WellFormed prims s.storage.state
  record : RecordInvariant (view s.storage.state)
  process : ∀ node, ProcessInvariant (view s.storage.state) (s.process node)
  sent : ∀ (operationId : BitVec 128) (generation : UInt64) (node : NodeId) (incarnation : UInt64),
    MetaCommand.acknowledgeMaintenance operationId generation node incarnation ∈ s.sent →
      Held (view s.storage.state) (s.process node).gate generation
  acknowledged : ∀ record, (view s.storage.state).maintenance = some record →
    record.stage ≠ .released → ∀ node ∈ record.acknowledged,
      Fenced record.generation (s.process node).gate

namespace ClusterInvariant

variable {prims : Primitives} {s t : Cluster}

theorem start (identity : Option Identity) (epoch : Option (BitVec 128)) :
    ClusterInvariant prims (.start identity epoch) where
  well := wellFormed_emptyStorage identity epoch
  record := by
    rw [Cluster.start, view_emptyStorage]
    exact .empty _
  process := fun _ ↦ .start _ none
  sent := fun _ _ _ _ h ↦ by cases h
  acknowledged := fun _ h ↦ by
    rw [Cluster.start, view_emptyStorage] at h
    cases h

/-- A held gate of an operation that is open is fenced. -/
theorem fenced_of_held {v : MetaView} {gate : MaintenanceAdmission} {record : MaintenanceRecord}
    (hheld : Held v gate record.generation) (hrecord : v.maintenance = some record)
    (hopen : record.stage ≠ .released) : Fenced record.generation gate :=
  hheld.resolve_right (Over.not_of_open hrecord hopen)

theorem commit (h : ClusterInvariant prims s) {entry : Entry}
    (hstep : s.commit prims entry = some t) : ClusterInvariant prims t := by
  rw [Cluster.commit] at hstep
  split_ifs at hstep with hsent
  obtain ⟨result, storage, happly, -, hwell, habstract⟩ := exists_step h.well entry
  rw [happly] at hstep
  cases hstep
  have hover : ∀ generation, Over (view s.storage.state) generation →
      Over (view storage.state) generation := fun generation hover ↦ hover.step habstract
  refine ⟨hwell, h.record.step habstract, fun node ↦ (h.process node).commit hover,
    fun operationId generation node incarnation hmem ↦
      (h.sent operationId generation node incarnation hmem).imp id (hover generation),
    fun record hrecord hopen node hnode ↦ ?_⟩
  rcases maintenance_cases habstract with hsame | ⟨written, heffect, hnext⟩
  · exact h.acknowledged record (hsame ▸ hrecord) hopen node hnode
  obtain rfl : written = record := by
    rw [hnext] at hrecord
    exact Option.some.inj hrecord
  obtain ⟨logId, cmd⟩ := entry
  dsimp only at heffect hsent
  generalize hview : view s.storage.state = v at heffect
  cases heffect with
  | start => cases hnode
  | release => exact absurd rfl hopen
  | acknowledge old nodeId found index hold hstage =>
    subst hview
    have hpreparing : old.stage ≠ .released := by rw [hstage]; decide
    rcases List.eq_or_mem_of_mem_insertIdx hnode with rfl | hnode
    · have hheld : Held _ (s.process node).gate old.generation := h.sent _ _ _ _ (hsent rfl)
      have hfenced := fenced_of_held hheld hold hpreparing
      exact hfenced
    · exact h.acknowledged old hold hpreparing node hnode
  | quiesce old hold hstage | verify old hold hstage | recover old _ _ _ _ _ _ hold hstage =>
    exact h.acknowledged old (hview ▸ hold) (by rw [hstage]; decide) node hnode

/-- One process goes on: its own invariant is kept, and its gate keeps what it holds. -/
theorem setProcess (h : ClusterInvariant prims s) {node : NodeId} {process : Process}
    (hprocess : ProcessInvariant (view s.storage.state) process)
    (hheld : ∀ generation, Held (view s.storage.state) (s.process node).gate generation →
      Held (view s.storage.state) process.gate generation) :
    ClusterInvariant prims (s.setProcess node process) := by
  have hkeeps : ∀ other generation, Held (view s.storage.state) (s.process other).gate generation →
      Held (view s.storage.state) ((s.setProcess node process).process other).gate generation := by
    intro other generation hother
    by_cases hsame : other = node
    · subst hsame
      simpa [Cluster.setProcess] using hheld generation hother
    · simpa [Cluster.setProcess, hsame] using hother
  refine ⟨h.well, h.record, fun other ↦ ?_, fun operationId generation other incarnation hmem ↦
    hkeeps other generation (h.sent operationId generation other incarnation hmem),
    fun record hrecord hopen other hother ↦ ?_⟩
  · by_cases hsame : other = node
    · subst hsame
      simpa [Cluster.setProcess] using hprocess
    · simpa [Cluster.setProcess, hsame] using h.process other
  · exact fenced_of_held (hkeeps other _ (.inl (h.acknowledged record hrecord hopen other hother)))
      hrecord hopen

theorem readIndex (h : ClusterInvariant prims s) {node : NodeId}
    (hstep : s.readIndex node = some t) : ClusterInvariant prims t := by
  rw [Cluster.readIndex, h.well.maintenance_eq] at hstep
  cases hstep
  have hprocess := h.process node
  refine h.setProcess ⟨hprocess.sound, fun record hrecord hreleased ↦ ?_, hprocess.pending,
    hprocess.reconciled⟩ fun _ hheld ↦ hheld
  rcases List.mem_cons.mp hrecord with hcommitted | hrecord
  · exact ⟨record, hcommitted.symm, .inr ⟨rfl, hreleased⟩⟩
  · exact hprocess.read record hrecord hreleased

theorem gate (h : ClusterInvariant prims s) {node : NodeId} {event : AdmissionEvent}
    (hstep : s.gate node event = some t) : ClusterInvariant prims t := by
  simp only [Cluster.gate] at hstep
  split_ifs at hstep with hallowed
  split at hstep
  · rename_i answer gate hgate
    cases hstep
    refine h.setProcess ((h.process node).gate hallowed hgate) fun generation hheld ↦ ?_
    rw [Process.gate_after]
    exact (h.process node).held hgate hheld
  · cases hstep

theorem acknowledge (h : ClusterInvariant prims s) {node : NodeId} {record : MaintenanceRecord}
    {incarnation : UInt64} (hstep : s.acknowledge node record incarnation = some t) :
    ClusterInvariant prims t := by
  rw [Cluster.acknowledge] at hstep
  split_ifs at hstep with hreconciled
  cases hstep
  refine ⟨h.well, h.record, h.process, fun operationId generation other incarnation' hmem ↦ ?_,
    h.acknowledged⟩
  rcases List.mem_cons.mp hmem with hnew | hmem
  · cases hnew
    exact (h.process node).reconciled record hreconciled.1 (by rw [hreconciled.2.1]; decide)
  · exact h.sent operationId generation other incarnation' hmem

theorem step (h : ClusterInvariant prims s) {event : ClusterEvent}
    (hstep : s.step prims event = some t) : ClusterInvariant prims t := by
  cases event with
  | commit entry => exact h.commit hstep
  | readIndex node => exact h.readIndex hstep
  | gate node event => exact h.gate hstep
  | acknowledge node record incarnation => exact h.acknowledge hstep

end ClusterInvariant

/-- From the start of a cluster on, in every run: while the committed maintenance record is quiesced
or under verification, no participant has a permit or gives one, and every voter of every placement
is a participant. -/
theorem quiesce_barrier (prims : Primitives) (identity : Option Identity)
    (epoch : Option (BitVec 128)) {events : List ClusterEvent} {s : Cluster}
    (hrun : events.foldlM (Cluster.step prims) (.start identity epoch) = some s)
    {record : MaintenanceRecord}
    (hrecord : MetaStateMachine.maintenance s.storage = .ok (some record))
    (hstage : record.stage = .quiesced ∨ record.stage = .verifying) :
    (∀ node ∈ record.participants, (s.process node).gate.permits = 0 ∧
      ∀ (event : AdmissionEvent) (t : MaintenanceAdmission),
        (s.process node).gate.step event ≠ some (AdmissionAnswer.admitted, t)) ∧
    ∀ (group : GroupId) (placed : Placement),
      MetaStateMachine.placement s.storage group = .ok (some placed) →
      ∀ voter ∈ placed.voters, voter ∈ record.participants := by
  have hinv : ClusterInvariant prims s :=
    foldlM_invariant (fun hmid hstep ↦ ClusterInvariant.step hmid hstep) hrun
      (.start identity epoch)
  have hopen : record.stage ≠ .released := by
    rcases hstage with hstage | hstage <;> rw [hstage] <;> decide
  rw [hinv.well.maintenance_eq] at hrecord
  have hrecord : (view s.storage.state).maintenance = some record := Except.ok.inj hrecord
  refine ⟨fun node hnode ↦ ?_, fun group placed hplaced ↦ ?_⟩
  · rw [← hinv.record.quiesced record hrecord hstage] at hnode
    have hfenced := hinv.acknowledged record hrecord hopen node hnode
    exact ⟨hfenced.1.2.2, fun event t hstep ↦ (hfenced.moves hstep).1 rfl⟩
  · rw [hinv.well.placement_eq] at hplaced
    exact hinv.record.voters record hrecord hopen group placed (Except.ok.inj hplaced)

/-- A cluster of three nodes is seeded, and the first one admits an operation. -/
def admitting : List ClusterEvent :=
  [ClusterEvent.commit (⟨1, 4⟩, .clusterInit ⟨7, PROTOCOL_VERSION, 1, 3, .CANONICAL⟩ [1, 2, 3]),
    .commit (⟨1, 5⟩, .registerNode 1 "a1" "b1"), .commit (⟨1, 6⟩, .registerNode 2 "a2" "b2"),
    .commit (⟨1, 7⟩, .registerNode 3 "a3" "b3"),
    .commit (⟨1, 8⟩, .seedPlacement (.data 0) [1, 2, 3]), .readIndex 1] ++
    [AdmissionEvent.lock none, .read, .judge, .acquire, .check].map (ClusterEvent.gate 1)

/-- A node reads the first operation, reconciles it, for which the operations it has admitted end,
and acknowledges. -/
def acknowledging (node : NodeId) (admitted : List AdmissionEvent) : List ClusterEvent :=
  let reconcile : List AdmissionEvent :=
    [AdmissionEvent.lock (some (begun 1 1 [1, 2, 3])), .read, .judge, .close] ++ admitted ++
      [AdmissionEvent.writeLock, .put, .replace, .reopen]
  ClusterEvent.readIndex node :: reconcile.map (ClusterEvent.gate node) ++
    [ClusterEvent.acknowledge node (begun 1 1 [1, 2, 3]) 1]

/-- The cluster is quiesced. -/
def quiescing : List ClusterEvent :=
  [ClusterEvent.commit (⟨1, 9⟩, .beginMaintenance 1 1 [1, 2, 3])] ++ acknowledging 1 [.finish] ++
    acknowledging 2 [] ++ acknowledging 3 [] ++
    [ClusterEvent.commit (⟨1, 10⟩, .acknowledgeMaintenance 1 1 1 1),
      .commit (⟨1, 11⟩, .acknowledgeMaintenance 1 1 2 1),
      .commit (⟨1, 12⟩, .acknowledgeMaintenance 1 1 3 1),
      .commit (⟨1, 13⟩, .quiesceMaintenance 1 1)]

/-- The barrier is reached: the operation admitted before has ended, and the three nodes hold no
permit. -/
theorem quiesce_barrier_reached :
    let prims : Primitives := ⟨fun _ ↦ Vector.replicate 32 0, id⟩
    ∃ before s record, admitting.foldlM (Cluster.step prims) (.start (some ⟨7, 1⟩) none) =
        some before ∧ (before.process 1).gate.permits = 1 ∧
      quiescing.foldlM (Cluster.step prims) before = some s ∧
      MetaStateMachine.maintenance s.storage = .ok (some record) ∧ record.stage = .quiesced ∧
      record.participants = [1, 2, 3] ∧
      ∀ node ∈ record.participants, (s.process node).gate.permits = 0 := by
  intro prims
  have hfound :
      ((admitting.foldlM (Cluster.step prims) (.start (some ⟨7, 1⟩) none)).bind fun before ↦
      (quiescing.foldlM (Cluster.step prims) before).bind fun s ↦
        (MetaStateMachine.maintenance s.storage).toOption.bind (Option.map fun record ↦
          ((before.process 1).gate.permits, record.stage, record.participants))) =
        some (1, .quiesced, [1, 2, 3]) := by
    decide +kernel
  obtain ⟨before, hbefore, hfound⟩ := Option.bind_eq_some_iff.mp hfound
  obtain ⟨s, hs, hfound⟩ := Option.bind_eq_some_iff.mp hfound
  obtain ⟨found, hrecord, hfound⟩ := Option.bind_eq_some_iff.mp hfound
  obtain ⟨record, rfl, hheld⟩ := Option.map_eq_some_iff.mp hfound
  obtain ⟨hpermits, hreached⟩ := Prod.mk.inj hheld
  obtain ⟨hstage, hparticipants⟩ := Prod.mk.inj hreached
  replace hrecord := toOption_eq_some_iff.mp hrecord
  have hrun : (admitting ++ quiescing).foldlM (Cluster.step prims) (.start (some ⟨7, 1⟩) none) =
      some s := by
    rw [List.foldlM_append, hbefore]
    exact hs
  exact ⟨before, s, record, hbefore, hpermits, hs, hrecord, hstage, hparticipants, fun node hnode ↦
    ((quiesce_barrier prims (some ⟨7, 1⟩) none hrun hrecord (.inl hstage)).1 node hnode).1⟩

end DalService.Runtime
