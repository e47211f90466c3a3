import DalService.Foundation.Run
import DalService.Types

/-!
# The maintenance admission fence of a node

Client mutations of a node pass one gate. An admitted mutation holds a read guard of the lock around
the node's maintenance record until it has finished; a reconcile with an authoritative view closes
the flag, waits for the guards, writes the record durably, replaces the one in memory and sets the
flag again. The steps of one reconcile, of admissions and of other reconciles interleave; a
reconcile can be dropped where it waits, the write of the record can fail, and the process can
restart.

The invariant (`Sound`) says that the flag is set, and a permit is held, only under a record that
admits, and that the record in memory is the durable one except while it is being replaced.
`admission_fence` is the result: what a reconcile that returned has established, and that nothing
but a released view of the same or a later generation lifts it.
-/

set_option autoImplicit false

namespace DalService.Runtime

open Foundation

/-! ### Views -/

/-- A released record admits, and so does no record at all. -/
def admits (view : Option MaintenanceRecord) : Bool :=
  view.all fun record ↦ record.stage = .released

/-- The parts of a record that the fence of a node depends on. The acknowledgements are not among
them. -/
def sameFence : Option MaintenanceRecord → Option MaintenanceRecord → Bool
  | none, none => true
  | some current, some next =>
    current.operationId = next.operationId && current.generation = next.generation &&
      current.participants = next.participants && current.stage = next.stage
  | _, _ => false

def maintenanceStageRank : MaintenanceStage → ℕ
  | .preparing => 0
  | .quiesced => 1
  | .verifying => 2
  | .released => 3

inductive TransitionIssue
  | stale
  | conflict (reason : String)
  deriving DecidableEq, Repr

def validateTransition :
    Option MaintenanceRecord → Option MaintenanceRecord → Except TransitionIssue Unit
  | none, _ => .ok ()
  | some _, none => .error (.conflict "authoritative maintenance record disappeared")
  | some current, some next =>
    if next.generation < current.generation then .error .stale
    else if next.generation = current.generation then
      if next.operationId ≠ current.operationId ∨ next.participants ≠ current.participants then
        .error (.conflict "conflicting maintenance generation")
      else if maintenanceStageRank next.stage < maintenanceStageRank current.stage then
        .error .stale
      else .ok ()
    else .ok ()

/-- A view of a smaller generation, or an earlier stage of the same operation. -/
def Earlier (view current : MaintenanceRecord) : Prop :=
  view.generation < current.generation ∨
    view.generation = current.generation ∧ view.operationId = current.operationId ∧
      view.participants = current.participants ∧
      maintenanceStageRank view.stage < maintenanceStageRank current.stage

theorem sameFence_iff {current next : MaintenanceRecord} :
    sameFence (some current) (some next) ↔
      current.operationId = next.operationId ∧ current.generation = next.generation ∧
        current.participants = next.participants ∧ current.stage = next.stage := by
  simp [sameFence, and_assoc]

theorem admits_some {record : MaintenanceRecord} :
    admits (some record) ↔ record.stage = .released := by
  simp [admits]

/-- An earlier view is another fence, and it is stale. -/
theorem Earlier.stale {view current : MaintenanceRecord} (h : Earlier view current) :
    sameFence (some current) (some view) = false ∧
      validateTransition (some current) (some view) = .error .stale := by
  rcases h with hless | ⟨hgeneration, hoperation, hparticipants, hrank⟩
  · refine ⟨?_, by simp [validateTransition, hless]⟩
    rw [Bool.eq_false_iff, ne_eq, sameFence_iff]
    rintro ⟨-, hsame, -⟩
    exact absurd hless (hsame ▸ UInt64.lt_irrefl _)
  · refine ⟨?_, ?_⟩
    · rw [Bool.eq_false_iff, ne_eq, sameFence_iff]
      rintro ⟨-, -, -, hstage⟩
      exact absurd hrank (hstage ▸ Nat.lt_irrefl _)
    · simp [validateTransition, hgeneration, hoperation, hparticipants, hrank]

/-- A view that is installed is a record of the same or a later generation. -/
theorem generation_le_of_validateTransition {current view : MaintenanceRecord}
    (h : validateTransition (some current) (some view) = .ok ()) :
    current.generation ≤ view.generation := by
  rw [validateTransition] at h
  split_ifs at h with hless
  all_goals exact UInt64.not_lt.mp hless

/-! ### The gate -/

/-- How far the reconcile that holds the reconcile lock has come. -/
inductive Reconcile
  | locked (view : Option MaintenanceRecord)
  | reading (view : Option MaintenanceRecord)
  | closing (view : Option MaintenanceRecord)
  | waiting (view : Option MaintenanceRecord)
  | writing (view : Option MaintenanceRecord)
  | persisted (view : Option MaintenanceRecord)
  | recorded (view : Option MaintenanceRecord)
  deriving DecidableEq, Repr

namespace Reconcile

/-- The view being reconciled. -/
def view : Reconcile → Option MaintenanceRecord
  | locked view | reading view | closing view | waiting view | writing view | persisted view
  | recorded view => view

/-- The write guard is held. -/
def excludes : Reconcile → Bool
  | writing _ | persisted _ | recorded _ => true
  | _ => false

/-- The reconcile waits, and can be dropped. -/
def awaits : Reconcile → Bool
  | locked _ | waiting _ => true
  | _ => false

end Reconcile

/-- The gate of a node: the durable record, the record behind the lock, the flag, the reconcile in
progress, the admissions that have a read guard and did not look at the flag yet, and the permits
held. -/
structure MaintenanceAdmission where
  durable : Option MaintenanceRecord
  record : Option MaintenanceRecord
  isOpen : Bool
  reconciling : Option Reconcile
  checking : ℕ
  permits : ℕ
  deriving DecidableEq, Repr

inductive AdmissionEvent
  | acquire
  | check
  | finish
  | lock (view : Option MaintenanceRecord)
  | read
  | judge
  | close
  | writeLock
  | put
  | putFailed (error : Error)
  | replace
  | reopen
  | cancel
  | restart
  deriving DecidableEq, Repr

inductive AdmissionAnswer
  | silent
  | admitted
  | refused
  | ok (view : Option MaintenanceRecord)
  | failed (error : Error)
  deriving DecidableEq, Repr

namespace MaintenanceAdmission

/-- A process starts closed, with the durable record. -/
def new (durable : Option MaintenanceRecord) : MaintenanceAdmission where
  durable := durable
  record := durable
  isOpen := false
  reconciling := none
  checking := 0
  permits := 0

variable (s : MaintenanceAdmission) {t : MaintenanceAdmission} {event : AdmissionEvent}
  {answer : AdmissionAnswer}

/-- `admit` gets its read guard. -/
def acquire : Option (AdmissionAnswer × MaintenanceAdmission) :=
  if s.reconciling.any Reconcile.excludes then none
  else some (.silent, { s with checking := s.checking + 1 })

/-- `admit` looks at the flag, and gives its guard back if it is not set. -/
def check : Option (AdmissionAnswer × MaintenanceAdmission) :=
  match s.checking with
  | 0 => none
  | checking + 1 =>
    if s.isOpen then some (.admitted, { s with checking := checking, permits := s.permits + 1 })
    else some (.refused, { s with checking := checking })

/-- An admitted operation ends. -/
def finish : Option (AdmissionAnswer × MaintenanceAdmission) :=
  match s.permits with
  | 0 => none
  | permits + 1 => some (.silent, { s with permits := permits })

def lock (view : Option MaintenanceRecord) : Option (AdmissionAnswer × MaintenanceAdmission) :=
  match s.reconciling with
  | none => some (.silent, { s with reconciling := some (.locked view) })
  | some _ => none

def read : Option (AdmissionAnswer × MaintenanceAdmission) :=
  match s.reconciling with
  | some (.locked view) => some (.silent, { s with reconciling := some (.reading view) })
  | _ => none

/-- Compare the view with the record, under the read guard. -/
def judge : Option (AdmissionAnswer × MaintenanceAdmission) :=
  match s.reconciling with
  | some (.reading view) =>
    if sameFence s.record view then
      some (.ok view, { s with isOpen := admits view, reconciling := none })
    else
      match validateTransition s.record view with
      | .ok () => some (.silent, { s with reconciling := some (.closing view) })
      | .error .stale =>
        some (.failed (.raft "stale maintenance generation"), { s with reconciling := none })
      | .error (.conflict reason) =>
        some (.failed (.raft reason), { s with isOpen := false, reconciling := none })
  | _ => none

def close : Option (AdmissionAnswer × MaintenanceAdmission) :=
  match s.reconciling with
  | some (.closing view) =>
    some (.silent, { s with isOpen := false, reconciling := some (.waiting view) })
  | _ => none

/-- The write guard is given when no read guard is left. -/
def writeLock : Option (AdmissionAnswer × MaintenanceAdmission) :=
  match s.reconciling with
  | some (.waiting view) =>
    if s.checking = 0 ∧ s.permits = 0 then
      some (.silent, { s with reconciling := some (.writing view) })
    else none
  | _ => none

/-- Write the record durably, if the view has one. -/
def put : Option (AdmissionAnswer × MaintenanceAdmission) :=
  match s.reconciling with
  | some (.writing view) =>
    some (.silent, { s with
      durable := view.orElse fun _ ↦ s.durable
      reconciling := some (.persisted view) })
  | _ => none

/-- The write fails and leaves the durable record as it was. An error of a write that reached the
write-ahead log all the same is not covered: the durable record is then ahead of the one in memory
until the view is reconciled again or the process restarts. -/
def putFailed (error : Error) : Option (AdmissionAnswer × MaintenanceAdmission) :=
  match s.reconciling with
  | some (.writing (some _)) => some (.failed error, { s with reconciling := none })
  | _ => none

def replace : Option (AdmissionAnswer × MaintenanceAdmission) :=
  match s.reconciling with
  | some (.persisted view) =>
    some (.silent, { s with record := view, reconciling := some (.recorded view) })
  | _ => none

/-- Set the flag and return. -/
def reopen : Option (AdmissionAnswer × MaintenanceAdmission) :=
  match s.reconciling with
  | some (.recorded view) => some (.ok view, { s with isOpen := admits view, reconciling := none })
  | _ => none

def cancel : Option (AdmissionAnswer × MaintenanceAdmission) :=
  if s.reconciling.any Reconcile.awaits then some (.silent, { s with reconciling := none })
  else none

def step (s : MaintenanceAdmission) :
    AdmissionEvent → Option (AdmissionAnswer × MaintenanceAdmission)
  | .acquire => s.acquire
  | .check => s.check
  | .finish => s.finish
  | .lock view => s.lock view
  | .read => s.read
  | .judge => s.judge
  | .close => s.close
  | .writeLock => s.writeLock
  | .put => s.put
  | .putFailed error => s.putFailed error
  | .replace => s.replace
  | .reopen => s.reopen
  | .cancel => s.cancel
  | .restart => some (.silent, new s.durable)

/-! ### The invariant -/

/-- A view that is being installed: a record that may follow the one in memory. -/
def Follows (record view : Option MaintenanceRecord) : Prop :=
  view.isSome ∧ validateTransition record view = .ok ()

/-- Nothing is admitted, and no guard is held. -/
def Drained (s : MaintenanceAdmission) : Prop := s.isOpen = false ∧ s.checking = 0 ∧ s.permits = 0

/-- What holds while a reconcile is in progress. -/
def ReconcileOk (s : MaintenanceAdmission) : Prop :=
  match s.reconciling with
  | none | some (.locked _) | some (.reading _) => s.durable = s.record
  | some (.closing view) => s.durable = s.record ∧ Follows s.record view
  | some (.waiting view) => s.durable = s.record ∧ Follows s.record view ∧ s.isOpen = false
  | some (.writing view) => s.durable = s.record ∧ Follows s.record view ∧ s.Drained
  | some (.persisted view) => s.durable = view ∧ Follows s.record view ∧ s.Drained
  | some (.recorded view) => s.durable = view ∧ s.record = view ∧ s.Drained

structure Sound (s : MaintenanceAdmission) : Prop where
  gate : s.isOpen → admits s.record
  permitted : 0 < s.permits → admits s.record
  reconcile : s.ReconcileOk

theorem Sound.new (durable : Option MaintenanceRecord) : Sound (new durable) :=
  ⟨fun hopen ↦ absurd hopen Bool.false_ne_true, fun hheld ↦ absurd hheld (Nat.lt_irrefl 0), rfl⟩

/-- A step that keeps the two records and the reconcile, and sets the flag and holds permits only
under a record that admits. -/
theorem Sound.keep (h : Sound s) (hdurable : t.durable = s.durable) (hrecord : t.record = s.record)
    (hreconciling : t.reconciling = s.reconciling) (hopen : t.isOpen = s.isOpen)
    (hexcluded : s.reconciling.any Reconcile.excludes → s.Drained → t.Drained)
    (hpermits : 0 < t.permits → admits s.record) : Sound t := by
  refine ⟨by rw [hopen, hrecord]; exact h.gate, by rwa [hrecord], ?_⟩
  have hphase := h.reconcile
  rw [ReconcileOk] at hphase ⊢
  rw [hreconciling, hdurable, hrecord, hopen]
  cases hphases : s.reconciling with
  | none => simpa only [hphases] using hphase
  | some phase =>
    rw [hphases] at hphase hexcluded
    cases phase
    case writing => exact ⟨hphase.1, hphase.2.1, hexcluded rfl hphase.2.2⟩
    case persisted => exact ⟨hphase.1, hphase.2.1, hexcluded rfl hphase.2.2⟩
    case recorded => exact ⟨hphase.1, hphase.2.1, hexcluded rfl hphase.2.2⟩
    all_goals exact hphase

/-- Both records are of a generation that is not below `generation`. -/
def AtLeast (s : MaintenanceAdmission) (generation : UInt64) : Prop :=
  (∃ record, s.record = some record ∧ generation ≤ record.generation) ∧
    ∃ record, s.durable = some record ∧ generation ≤ record.generation

/-- What a step can do to the gate. -/
structure Moves (s : MaintenanceAdmission) (answer : AdmissionAnswer) (t : MaintenanceAdmission) :
    Prop where
  sound : Sound t
  admitted : answer = .admitted → s.isOpen
  permits : answer ≠ .admitted → t.permits ≤ s.permits
  opened : t.isOpen → s.isOpen ∨ ∃ view, answer = .ok view
  returned : ∀ view, answer = .ok view →
    sameFence t.durable view ∧ t.record = t.durable ∧ t.isOpen = admits view
  generation : ∀ generation, s.AtLeast generation → t.AtLeast generation

/-- A step that returns from no reconcile and keeps both records. -/
theorem Moves.of_keep (hsound : Sound t) (hdurable : t.durable = s.durable)
    (hrecord : t.record = s.record) (hanswer : answer = .admitted → s.isOpen)
    (hpermits : answer ≠ .admitted → t.permits ≤ s.permits) (hopened : t.isOpen → s.isOpen)
    (hreturned : ∀ view, answer ≠ .ok view) : Moves s answer t where
  sound := hsound
  admitted := hanswer
  permits := hpermits
  opened := fun h ↦ .inl (hopened h)
  returned := fun view h ↦ absurd h (hreturned view)
  generation := fun generation h ↦ by rwa [AtLeast, hdurable, hrecord]

theorem sameFence_refl (view : Option MaintenanceRecord) : sameFence view view := by
  cases view with
  | none => rfl
  | some record => exact sameFence_iff.mpr ⟨rfl, rfl, rfl, rfl⟩

theorem admits_congr {first second : Option MaintenanceRecord} (h : sameFence first second) :
    admits first = admits second := by
  cases first <;> cases second
  · rfl
  · cases h
  · cases h
  · simp [admits, (sameFence_iff.mp h).2.2.2]

variable {s}

theorem Sound.moves (h : Sound s) (hstep : s.step event = some (answer, t)) : Moves s answer t := by
  have hphase := h.reconcile
  rw [ReconcileOk] at hphase
  cases event with
  | acquire =>
    simp only [step, acquire] at hstep
    split_ifs at hstep with hexcludes
    cases hstep
    refine .of_keep s (h.keep s rfl rfl rfl rfl (fun hheld ↦ absurd hheld hexcludes) h.permitted)
      rfl rfl ?_ ?_ id ?_ <;> simp
  | check =>
    simp only [step, check] at hstep
    split at hstep
    · cases hstep
    · rename_i checking hchecking
      have hnot : ¬s.Drained := fun hdrained ↦ by simp [hdrained.2.1] at hchecking
      split_ifs at hstep with hopen
      · cases hstep
        refine .of_keep s (h.keep s rfl rfl rfl rfl (fun _ hdrained ↦ absurd hdrained hnot)
          fun _ ↦ h.gate hopen) rfl rfl (fun _ ↦ hopen) ?_ id ?_ <;> simp
      · cases hstep
        refine .of_keep s (h.keep s rfl rfl rfl rfl (fun _ hdrained ↦ absurd hdrained hnot)
          h.permitted) rfl rfl ?_ ?_ id ?_ <;> simp
  | finish =>
    simp only [step, finish] at hstep
    split at hstep
    · cases hstep
    · rename_i permits hpermits
      have hnot : ¬s.Drained := fun hdrained ↦ by simp [hdrained.2.2] at hpermits
      cases hstep
      refine .of_keep s (h.keep s rfl rfl rfl rfl (fun _ hdrained ↦ absurd hdrained hnot)
        fun _ ↦ h.permitted (by omega)) rfl rfl ?_ ?_ id ?_ <;> simp [hpermits]
  | lock view =>
    simp only [step, lock] at hstep
    split at hstep
    · rename_i hnone
      cases hstep
      rw [hnone] at hphase
      refine .of_keep s ⟨h.gate, h.permitted, hphase⟩ rfl rfl ?_ ?_ id ?_ <;> simp
    · cases hstep
  | read =>
    simp only [step, read] at hstep
    split at hstep
    · rename_i view hlocked
      cases hstep
      rw [hlocked] at hphase
      refine .of_keep s ⟨h.gate, h.permitted, hphase⟩ rfl rfl ?_ ?_ id ?_ <;> simp
    · cases hstep
  | judge =>
    simp only [step, judge] at hstep
    split at hstep
    · rename_i view hreading
      rw [hreading] at hphase
      split_ifs at hstep with hsame
      · cases hstep
        refine ⟨⟨fun hopen ↦ ?_, h.permitted, hphase⟩, by simp, by simp,
          fun _ ↦ .inr ⟨view, rfl⟩, ?_, fun generation hat ↦ hat⟩
        · exact (admits_congr hsame).trans hopen
        · rintro view' ⟨⟩
          exact ⟨hphase ▸ hsame, hphase.symm, rfl⟩
      · split at hstep
        · rename_i hvalid
          cases hstep
          have hfollows : Follows s.record view := by
            refine ⟨?_, hvalid⟩
            cases hrecord : s.record <;> cases view <;>
              simp_all [sameFence, validateTransition]
          refine .of_keep s ⟨h.gate, h.permitted, hphase, hfollows⟩ rfl rfl ?_ ?_ id ?_ <;> simp
        · cases hstep
          refine .of_keep s ⟨h.gate, h.permitted, hphase⟩ rfl rfl ?_ ?_ id ?_ <;> simp
        · cases hstep
          refine .of_keep s ⟨by simp, h.permitted, hphase⟩ rfl rfl ?_ ?_ ?_ ?_ <;> simp
    · cases hstep
  | close =>
    simp only [step, close] at hstep
    split at hstep
    · rename_i view hclosing
      cases hstep
      rw [hclosing] at hphase
      refine .of_keep s ⟨by simp, h.permitted, hphase.1, hphase.2, rfl⟩ rfl rfl ?_ ?_ ?_ ?_ <;> simp
    · cases hstep
  | writeLock =>
    simp only [step, writeLock] at hstep
    split at hstep
    · rename_i view hwaiting
      rw [hwaiting] at hphase
      split_ifs at hstep with hfree
      cases hstep
      refine .of_keep s ⟨h.gate, h.permitted, hphase.1, hphase.2.1, hphase.2.2, hfree⟩ rfl rfl
        ?_ ?_ id ?_ <;> simp
    · cases hstep
  | put =>
    simp only [step, put] at hstep
    split at hstep
    · rename_i view hwriting
      cases hstep
      rw [hwriting] at hphase
      obtain ⟨-, hfollows, hdrained⟩ := hphase
      obtain ⟨next, rfl⟩ := Option.isSome_iff_exists.mp hfollows.1
      refine ⟨⟨h.gate, h.permitted, rfl, hfollows, hdrained⟩, by simp, by simp, .inl, by simp, ?_⟩
      rintro generation ⟨⟨record, hrecord, hle⟩, -⟩
      have hvalid := hfollows.2
      rw [hrecord] at hvalid
      exact ⟨⟨record, hrecord, hle⟩, next, rfl,
        UInt64.le_trans hle (generation_le_of_validateTransition hvalid)⟩
    · cases hstep
  | putFailed error =>
    simp only [step, putFailed] at hstep
    split at hstep
    · rename_i view hwriting
      cases hstep
      rw [hwriting] at hphase
      refine .of_keep s ⟨h.gate, h.permitted, hphase.1⟩ rfl rfl ?_ ?_ id ?_ <;> simp
    · cases hstep
  | replace =>
    simp only [step, replace] at hstep
    split at hstep
    · rename_i view hpersisted
      cases hstep
      rw [hpersisted] at hphase
      obtain ⟨hdurable, -, hclosed, hchecking, hpermits⟩ := hphase
      refine ⟨⟨?_, ?_, hdurable, rfl, hclosed, hchecking, hpermits⟩, by simp, by simp,
        .inl, by simp, ?_⟩
      · simp [hclosed]
      · simp [hpermits]
      · rintro generation ⟨-, hat⟩
        exact ⟨hdurable ▸ hat, hat⟩
    · cases hstep
  | reopen =>
    simp only [step, reopen] at hstep
    split at hstep
    · rename_i view hrecorded
      cases hstep
      rw [hrecorded] at hphase
      obtain ⟨hdurable, hrecord, -⟩ := hphase
      refine ⟨⟨fun hopen ↦ ?_, h.permitted, hdurable.trans hrecord.symm⟩, by simp, by simp,
        fun _ ↦ .inr ⟨view, rfl⟩, ?_, fun generation hat ↦ hat⟩
      · rw [hrecord]
        exact hopen
      · rintro view' ⟨⟩
        exact ⟨hdurable ▸ sameFence_refl view, hrecord.trans hdurable.symm, rfl⟩
    · cases hstep
  | cancel =>
    simp only [step, cancel] at hstep
    split_ifs at hstep with hawaits
    cases hstep
    have hsame : s.durable = s.record := by
      cases hphases : s.reconciling with
      | none => simp [hphases] at hawaits
      | some phase =>
        rw [hphases] at hphase hawaits
        cases phase <;> first | cases hawaits; done | exact hphase | exact hphase.1
    refine .of_keep s ⟨h.gate, h.permitted, hsame⟩ rfl rfl ?_ ?_ id ?_ <;> simp
  | restart =>
    cases hstep
    exact {
      sound := .new s.durable
      admitted := by simp
      permits := fun _ ↦ Nat.zero_le _
      opened := fun hopen ↦ absurd hopen Bool.false_ne_true
      returned := by simp
      generation := fun _ hat ↦ ⟨hat.2, hat.2⟩ }

/-! ### The fence -/

/-- Nothing is admitted. -/
def Closed (s : MaintenanceAdmission) : Prop := Sound s ∧ s.isOpen = false ∧ s.permits = 0

/-- A step of a closed gate admits nothing, and only a reconcile that returns can open it. -/
theorem Closed.moves (h : Closed s) (hstep : s.step event = some (answer, t)) :
    answer ≠ .admitted ∧ ((∃ view, answer = .ok view) ∨ Closed t) := by
  obtain ⟨hsound, hclosed, hpermits⟩ := h
  have hmoves := hsound.moves hstep
  have hnot : answer ≠ .admitted := fun hadmitted ↦ by
    simpa [hclosed] using hmoves.admitted hadmitted
  refine ⟨hnot, or_iff_not_imp_left.mpr fun hreturned ↦ ⟨hmoves.sound, ?_, ?_⟩⟩
  · rw [Bool.eq_false_iff]
    intro hopen
    rcases hmoves.opened hopen with hbefore | hview
    · simp [hclosed] at hbefore
    · exact hreturned hview
  · exact Nat.le_zero.mp (hpermits ▸ hmoves.permits hnot)

/-- A closed gate whose records are of a generation that is not below `generation`. -/
def Fenced (generation : UInt64) (s : MaintenanceAdmission) : Prop :=
  Closed s ∧ s.AtLeast generation

/-- Only a released view of that generation or a later one opens it. -/
theorem Fenced.moves {generation : UInt64} (h : Fenced generation s)
    (hstep : s.step event = some (answer, t)) :
    answer ≠ .admitted ∧
      ((∃ opened, answer = .ok (some opened) ∧ opened.stage = .released ∧
        generation ≤ opened.generation) ∨ Fenced generation t) := by
  obtain ⟨hclosed, hat⟩ := h
  have hmoves := hclosed.1.moves hstep
  have hlater := hmoves.generation generation hat
  obtain ⟨hnot, ⟨view, rfl⟩ | hstays⟩ := hclosed.moves hstep
  · obtain ⟨hsame, -, hopen⟩ := hmoves.returned view rfl
    obtain ⟨kept, hkept, hle⟩ := hlater.2
    rw [hkept] at hsame
    refine ⟨hnot, ?_⟩
    cases view with
    | none => cases hsame
    | some view =>
      by_cases hreleased : view.stage = .released
      · exact .inl ⟨view, rfl, hreleased, (sameFence_iff.mp hsame).2.1 ▸ hle⟩
      · have hpermits := Nat.le_zero.mp (hclosed.2.2 ▸ hmoves.permits hnot)
        refine .inr ⟨⟨hmoves.sound, ?_, hpermits⟩, hlater⟩
        rw [hopen, Bool.eq_false_iff, ne_eq, admits_some]
        exact hreleased
  · exact ⟨hnot, .inr ⟨hstays, hlater⟩⟩

/-- A reconcile that returns for a view that is not released leaves a fence of its generation. -/
theorem Sound.fenced (h : Sound s) {view : MaintenanceRecord}
    (hstep : s.step event = some (.ok (some view), t)) (hstage : view.stage ≠ .released) :
    Fenced view.generation t ∧
      ∃ kept, t.durable = some kept ∧ sameFence (some kept) (some view) := by
  have hmoves := h.moves hstep
  obtain ⟨hsame, hrecord, hopen⟩ := hmoves.returned _ rfl
  obtain ⟨kept, hkept⟩ : ∃ kept, t.durable = some kept := by
    cases hdurable : t.durable with
    | none => simp [hdurable, sameFence] at hsame
    | some kept => exact ⟨kept, rfl⟩
  rw [hkept] at hsame
  have hadmits : admits (some view) = false := by
    rwa [Bool.eq_false_iff, ne_eq, admits_some]
  have hpermits : t.permits = 0 := by
    by_contra hheld
    have hadmitted := hmoves.sound.permitted (Nat.pos_of_ne_zero hheld)
    rw [hrecord, hkept, admits_congr hsame, hadmits] at hadmitted
    cases hadmitted
  have hle : view.generation ≤ kept.generation := (sameFence_iff.mp hsame).2.1 ▸ UInt64.le_refl _
  exact ⟨⟨⟨hmoves.sound, hopen.trans hadmits, hpermits⟩,
    ⟨kept, hrecord.trans hkept, hle⟩, kept, hkept, hle⟩, kept, hkept, hsame⟩

/-- A reconcile returns for the view it was given. -/
theorem reconciling_of_ok
    {view : Option MaintenanceRecord} (hstep : s.step event = some (.ok view, t)) :
    ∃ phase, s.reconciling = some phase ∧ phase.view = view := by
  cases event with
  | judge =>
    simp only [step, judge] at hstep
    split at hstep
    · rename_i found hreading
      split_ifs at hstep
      · cases hstep
        exact ⟨_, hreading, rfl⟩
      · split at hstep <;> cases hstep
    · cases hstep
  | reopen =>
    simp only [step, reopen] at hstep
    split at hstep
    · rename_i found hrecorded
      cases hstep
      exact ⟨_, hrecorded, rfl⟩
    · cases hstep
  | check =>
    simp only [step, check] at hstep
    split at hstep
    · cases hstep
    · split_ifs at hstep <;> cases hstep
  | acquire | cancel =>
    simp only [step, acquire, cancel] at hstep
    split_ifs at hstep
    cases hstep
  | writeLock =>
    simp only [step, writeLock] at hstep
    split at hstep
    · split_ifs at hstep
      cases hstep
    · cases hstep
  | restart => cases hstep
  | _ =>
    simp only [step, finish, lock, read, close, put, putFailed, replace] at hstep
    split at hstep <;> cases hstep

/-- The view in progress is the one that was given. -/
theorem view_of_step (hstep : s.step event = some (answer, t)) {phase : Reconcile}
    (hphase : t.reconciling = some phase) :
    event = .lock phase.view ∨
      ∃ before, s.reconciling = some before ∧ before.view = phase.view := by
  cases event with
  | lock view =>
    simp only [step, lock] at hstep
    split at hstep
    · cases hstep
      obtain rfl := Option.some.inj hphase
      exact .inl rfl
    · cases hstep
  | judge =>
    simp only [step, judge] at hstep
    split at hstep
    · rename_i found hreading
      split_ifs at hstep
      · cases hstep
        cases hphase
      · split at hstep <;> cases hstep
        · obtain rfl := Option.some.inj hphase
          exact .inr ⟨_, hreading, rfl⟩
        all_goals cases hphase
    · cases hstep
  | acquire =>
    simp only [step, acquire] at hstep
    split_ifs at hstep
    cases hstep
    exact .inr ⟨phase, hphase, rfl⟩
  | check =>
    simp only [step, check] at hstep
    split at hstep
    · cases hstep
    · split_ifs at hstep <;> cases hstep <;> exact .inr ⟨phase, hphase, rfl⟩
  | finish =>
    simp only [step, finish] at hstep
    split at hstep
    · cases hstep
    · cases hstep
      exact .inr ⟨phase, hphase, rfl⟩
  | cancel =>
    simp only [step, cancel] at hstep
    split_ifs at hstep
    cases hstep
    cases hphase
  | writeLock =>
    simp only [step, writeLock] at hstep
    split at hstep
    · rename_i found hwaiting
      split_ifs at hstep
      cases hstep
      obtain rfl := Option.some.inj hphase
      exact .inr ⟨_, hwaiting, rfl⟩
    · cases hstep
  | restart =>
    cases hstep
    cases hphase
  | putFailed | reopen =>
    simp only [step, putFailed, reopen] at hstep
    split at hstep <;> cases hstep
    cases hphase
  | read | close | put | replace =>
    simp only [step, read, close, put, replace] at hstep
    split at hstep
    · rename_i found hbefore
      cases hstep
      obtain rfl := Option.some.inj hphase
      exact .inr ⟨_, hbefore, rfl⟩
    · cases hstep

/-- Before a reconcile has compared its view, only the comparison and a restart can change the flag
or a record. -/
theorem keeps_of_not_judge {view : Option MaintenanceRecord}
    (hphase : s.reconciling = some (.locked view) ∨ s.reconciling = some (.reading view))
    (hstep : s.step event = some (answer, t)) (hevent : event ≠ .restart)
    (hjudge : event ≠ .judge) :
    t.isOpen = s.isOpen ∧ t.record = s.record ∧ t.durable = s.durable := by
  cases event with
  | acquire =>
    simp only [step, acquire] at hstep
    split_ifs at hstep
    cases hstep
    exact ⟨rfl, rfl, rfl⟩
  | check =>
    simp only [step, check] at hstep
    split at hstep
    · cases hstep
    · split_ifs at hstep <;> cases hstep <;> exact ⟨rfl, rfl, rfl⟩
  | finish =>
    simp only [step, finish] at hstep
    split at hstep
    · cases hstep
    · cases hstep
      exact ⟨rfl, rfl, rfl⟩
  | read =>
    simp only [step, read] at hstep
    split at hstep <;> cases hstep
    exact ⟨rfl, rfl, rfl⟩
  | cancel =>
    simp only [step, cancel] at hstep
    split_ifs at hstep
    cases hstep
    exact ⟨rfl, rfl, rfl⟩
  | judge => exact absurd rfl hjudge
  | restart => exact absurd rfl hevent
  | _ =>
    rcases hphase with hphase | hphase <;>
      simp [step, lock, close, writeLock, put, putFailed, replace, reopen, hphase] at hstep

/-- While an earlier view than the record is reconciled, nothing but a restart changes the flag, and
the records stay. -/
theorem Sound.earlier_keeps (h : Sound s) {phase : Reconcile} {view current : MaintenanceRecord}
    (hphase : s.reconciling = some phase) (hview : phase.view = some view)
    (hcurrent : s.record = some current) (hearlier : Earlier view current)
    (hstep : s.step event = some (answer, t)) (hevent : event ≠ .restart) :
    t.isOpen = s.isOpen ∧ t.record = s.record ∧ t.durable = s.durable := by
  have hok := h.reconcile
  obtain ⟨hother, hstale⟩ := hearlier.stale
  have hnot : ¬Follows s.record (some view) := by
    rintro ⟨-, hvalid⟩
    rw [hcurrent, hstale] at hvalid
    cases hvalid
  rw [ReconcileOk, hphase] at hok
  cases phase with
  | locked pending =>
    refine keeps_of_not_judge (.inl hphase) hstep hevent ?_
    rintro rfl
    simp [step, judge, hphase] at hstep
  | reading pending =>
    obtain rfl : pending = some view := hview
    by_cases hjudge : event = .judge
    · subst hjudge
      simp only [step, judge, hphase, hcurrent, hother, hstale, Bool.false_eq_true,
        if_false] at hstep
      cases hstep
      exact ⟨rfl, hcurrent.symm, rfl⟩
    · exact keeps_of_not_judge (.inr hphase) hstep hevent hjudge
  | recorded pending =>
    obtain rfl : pending = some view := hview
    rw [hcurrent] at hok
    obtain rfl := Option.some.inj hok.2.1
    rw [sameFence_refl] at hother
    cases hother
  | closing pending =>
    obtain rfl : pending = some view := hview
    exact absurd hok.2 hnot
  | waiting pending | writing pending | persisted pending =>
    obtain rfl : pending = some view := hview
    exact absurd hok.2.1 hnot

end MaintenanceAdmission

open MaintenanceAdmission

/-- One step with its answer. -/
abbrev AdmissionLabel := AdmissionEvent × AdmissionAnswer

/-- The steps of the gate of a node, over its restarts. -/
def AdmissionTrace : MaintenanceAdmission → List AdmissionLabel → MaintenanceAdmission → Prop :=
  Trace (Steps MaintenanceAdmission.step)

theorem Sound.of_trace {durable : Option MaintenanceRecord} {s : MaintenanceAdmission}
    {labels : List AdmissionLabel} (h : AdmissionTrace (.new durable) labels s) : s.Sound :=
  h.stable (fun hstep hsound ↦ (hsound.moves hstep).sound) (.new durable)

/-- From any durable record on, in every run of the gate: when a reconcile returns for a view that
is not released, no admitted operation is left, the durable record has the view's fence, and until a
reconcile returns for a released view of the same or a later generation nothing is admitted; after a
restart nothing is admitted until a reconcile returns; and an earlier view than the record in memory
changes neither the flag nor a record. -/
theorem admission_fence {durable : Option MaintenanceRecord} {s : MaintenanceAdmission}
    {labels : List AdmissionLabel} (h : AdmissionTrace (.new durable) labels s) :
    (∀ (event : AdmissionEvent) (view : MaintenanceRecord) (t : MaintenanceAdmission),
      s.step event = some (.ok (some view), t) → view.stage ≠ .released →
      t.permits = 0 ∧
      (∃ kept : MaintenanceRecord, t.durable = some kept ∧ sameFence (some kept) (some view)) ∧
      ∀ (early rest : List AdmissionLabel) (admission : AdmissionEvent)
        (last : MaintenanceAdmission),
        AdmissionTrace t (early ++ (admission, AdmissionAnswer.admitted) :: rest) last →
        ∃ returned ∈ early, ∃ opened : MaintenanceRecord,
          returned.2 = AdmissionAnswer.ok (some opened) ∧ opened.stage = .released ∧
            view.generation ≤ opened.generation) ∧
    (∀ (answer : AdmissionAnswer) (t : MaintenanceAdmission), s.step .restart = some (answer, t) →
      ∀ (early rest : List AdmissionLabel) (admission : AdmissionEvent)
        (last : MaintenanceAdmission),
        AdmissionTrace t (early ++ (admission, AdmissionAnswer.admitted) :: rest) last →
        ∃ returned ∈ early, ∃ view : Option MaintenanceRecord,
          returned.2 = AdmissionAnswer.ok view) ∧
    ∀ (phase : Reconcile) (view current : MaintenanceRecord), s.reconciling = some phase →
      phase.view = some view → s.record = some current → Earlier view current →
      ∀ (event : AdmissionEvent) (answer : AdmissionAnswer) (t : MaintenanceAdmission),
        s.step event = some (answer, t) → event ≠ .restart →
        t.isOpen = s.isOpen ∧ t.record = s.record ∧ t.durable = s.durable := by
  have hsound := Sound.of_trace h
  refine ⟨fun event view t hstep hstage ↦ ?_,
    fun answer t hstep early rest admission last hlater ↦ ?_,
    fun phase view current hphase hview hcurrent hearlier event answer t hstep hevent ↦
      hsound.earlier_keeps hphase hview hcurrent hearlier hstep hevent⟩
  · obtain ⟨hfenced, hkept⟩ := hsound.fenced hstep hstage
    refine ⟨hfenced.1.2.2, hkept, fun early rest admission last hlater ↦ ?_⟩
    exact hlater.preceded (P := Fenced view.generation) (B := fun label ↦ label.2 = .admitted)
      (fun hfence hnext ↦ hfence.moves hnext) hfenced rfl
  · cases hstep
    exact hlater.preceded (P := Closed) (G := fun label ↦ ∃ view, label.2 = .ok view)
      (B := fun label ↦ label.2 = .admitted) (fun hclosed hnext ↦ hclosed.moves hnext)
      ⟨.new _, rfl, rfl⟩ rfl

/-- The first operation of a cluster of one node, not acknowledged yet. -/
def firstOperation : MaintenanceRecord where
  operationId := 1
  generation := 1
  participants := [1]
  acknowledged := []
  recovered := []
  recoveryProcesses := []
  recoveryPolicyDigests := []
  verificationPolicyDigest := none
  verificationRecoveryEpoch := none
  stage := .preparing

/-- A gate with the fence of the first operation. -/
def fenced (reconciling : Option Reconcile) : MaintenanceAdmission where
  durable := some firstOperation
  record := some firstOperation
  isOpen := false
  reconciling := reconciling
  checking := 0
  permits := 0

/-- An operation is admitted, and the fence of the first operation waits for it. -/
def drainForFence : List AdmissionEvent :=
  [.lock none, .read, .judge, .acquire, .check, .lock (some firstOperation), .read, .judge, .close,
    .finish, .writeLock, .put, .replace]

theorem labels_drainForFence :
    ∃ taken, labels step (.new none) drainForFence =
      some (taken, fenced (some (.recorded (some firstOperation)))) := ⟨_, rfl⟩

/-- When the reconcile returns, the admitted operation has ended. -/
theorem admission_fence_drained :
    ∃ taken t, AdmissionTrace (.new none) taken (fenced (some (.recorded (some firstOperation)))) ∧
      (fenced (some (.recorded (some firstOperation)))).step .reopen =
        some (.ok (some firstOperation), t) ∧ t.permits = 0 := by
  obtain ⟨taken, htaken⟩ := labels_drainForFence
  have htrace := trace_of_labels htaken
  exact ⟨taken, fenced none, htrace, rfl,
    ((admission_fence htrace).1 .reopen firstOperation (fenced none) rfl (by decide)).1⟩

/-- The durable record is not the view itself: a later view with more acknowledgements is the same
fence, and is not written. -/
theorem acknowledgement_not_durable :
    ∃ taken s t view, AdmissionTrace (.new none) taken s ∧
      s.step .judge = some (.ok (some view), t) ∧ view.stage ≠ .released ∧
        t.durable ≠ some view := by
  have hlabels : ∃ taken, labels step (.new none) (drainForFence ++ [.reopen,
      .lock (some { firstOperation with acknowledged := [1] }), .read]) =
      some (taken, fenced (some (.reading (some { firstOperation with acknowledged := [1] })))) :=
    ⟨_, rfl⟩
  obtain ⟨taken, htaken⟩ := hlabels
  exact ⟨taken, _, fenced none, { firstOperation with acknowledged := [1] }, trace_of_labels htaken,
    rfl, by decide, by decide⟩

/-- A view of the same generation and an earlier stage closes the gate where it is of another
operation: such a view is no earlier one, it is a conflict. -/
theorem conflicting_view_closes_gate :
    let released := { firstOperation with stage := .released }
    let view := { firstOperation with operationId := 2 }
    ∃ taken s t, AdmissionTrace (.new none) taken s ∧ s.record = some released ∧
      view.generation = released.generation ∧
      maintenanceStageRank view.stage < maintenanceStageRank released.stage ∧
      s.reconciling = some (.reading (some view)) ∧ s.isOpen = true ∧
      s.step .judge = some (.failed (.raft "conflicting maintenance generation"), t) ∧
      t.isOpen = false := by
  intro released view
  have hlabels : ∃ taken, labels step (.new none) [.lock (some released), .read, .judge, .close,
      .writeLock, .put, .replace, .reopen, .lock (some view), .read] =
      some (taken, ⟨some released, some released, true, some (.reading (some view)), 0, 0⟩) :=
    ⟨_, rfl⟩
  obtain ⟨taken, htaken⟩ := hlabels
  exact ⟨taken, _, ⟨some released, some released, false, none, 0, 0⟩, trace_of_labels htaken, rfl,
    rfl, by decide, rfl, rfl, rfl, rfl⟩

end DalService.Runtime
