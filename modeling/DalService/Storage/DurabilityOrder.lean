import DalService.Storage.Durability

/-!
# What the write-ahead log worker reports

Every request that was submitted is reported exactly once, after its write was reported, and it is
reported durable only after a flush that began once it was written and that no failure followed. The
requests reported durable are the first ones submitted, in their order, and none is reported durable
after an error. The budget counts the reservations that are left (`durability_worker`).

The requests that were not reported are in the batch of the worker, in its hand or in the queue, in
the order of submission until something fails; from then on only their number matters (`InOrder`).
Every step of the worker lowers `workLeft`, so it ends once the coordinator was dropped.
-/

set_option autoImplicit false

namespace DalService.Storage

open Foundation

/-- The event is a step of the worker. -/
def DurabilityEvent.isWorker : DurabilityEvent → Bool
  | .reserve _ | .release _ | .submit _ _ | .fail _ | .close => false
  | _ => true

/-! ### Requests and what was reported -/

namespace Worker

/-- What is written and not reported. -/
def batch : Worker → List WriteRequest
  | received _ batch | writing _ batch | collecting batch | collected batch _ | flushing _ batch _
  | flushed _ batch _ | completing batch _ | rejecting _ _ batch | recording _ batch
  | failing _ batch => batch
  | _ => []

/-- The request in hand. -/
def current : Worker → List WriteRequest
  | received request _ | writing request _ | rejecting request _ _ => [request]
  | _ => []

/-- The worker has met an error, or has ended. -/
def broken : Worker → Bool
  | rejecting _ _ _ | recording _ _ | failing _ _ | draining _ | exited => true
  | _ => false

end Worker

/-- The requests of a queue. -/
def queued (queue : List Command) : List WriteRequest :=
  queue.filterMap fun
    | .write request => some request
    | .shutdown => none

/-- The requests reported, with their error. -/
def completions (history : List Happening) : List (WriteRequest × Option String) :=
  history.filterMap fun
    | .onDurable request error => some (request, error)
    | _ => none

/-- The requests reported durable. -/
def oks (history : List Happening) : List WriteRequest :=
  history.filterMap fun
    | .onDurable request none => some request
    | _ => none

/-- The requests reported with an error. -/
def errs (history : List Happening) : List WriteRequest :=
  history.filterMap fun
    | .onDurable request (some _) => some request
    | _ => none

/-- The requests whose write was reported. -/
def notified (history : List Happening) : List WriteRequest :=
  history.filterMap fun
    | .onWritten request _ => some request
    | _ => none

section Append

variable (first second : List Happening)

@[simp] theorem completions_append :
    completions (first ++ second) = completions first ++ completions second :=
  List.filterMap_append

@[simp] theorem oks_append :
    oks (first ++ second) = oks first ++ oks second := List.filterMap_append

@[simp] theorem errs_append : errs (first ++ second) = errs first ++ errs second :=
  List.filterMap_append

@[simp] theorem notified_append : notified (first ++ second) = notified first ++ notified second :=
  List.filterMap_append

end Append

section Notify

variable (request : WriteRequest) (error : Option String)

theorem oks_notifyWritten : oks (WalDurability.notifyWritten request error) = [] := by
  rw [WalDurability.notifyWritten]
  split_ifs <;> rfl

theorem errs_notifyWritten : errs (WalDurability.notifyWritten request error) = [] := by
  rw [WalDurability.notifyWritten]
  split_ifs <;> rfl

theorem completions_notifyWritten :
    completions (WalDurability.notifyWritten request error) = [] := by
  rw [WalDurability.notifyWritten]
  split_ifs <;> rfl

theorem notified_notifyWritten : notified (WalDurability.notifyWritten request error) =
    if request.onWritten then [request] else [] := by
  rw [WalDurability.notifyWritten]
  split_ifs <;> rfl

end Notify

@[simp] theorem queued_append (first second : List Command) :
    queued (first ++ second) = queued first ++ queued second := List.filterMap_append

/-- Each happening is justified by those before it. -/
def Preceded (P : List Happening → Happening → Prop) (history : List Happening) : Prop :=
  ∀ before happening after, history = before ++ happening :: after → P before happening

theorem Preceded.concat {P : List Happening → Happening → Prop} {history : List Happening}
    (h : Preceded P history) {last : Happening} (hlast : P history last) :
    Preceded P (history ++ [last]) := by
  intro before happening after hsplit
  rcases List.eq_nil_or_concat after with rfl | ⟨rest, final, rfl⟩
  · obtain ⟨rfl, hsame⟩ := List.append_inj' hsplit rfl
    cases hsame
    exact hlast
  · rw [List.concat_eq_append, ← List.cons_append, ← List.append_assoc] at hsplit
    exact h before happening rest (List.append_inj' hsplit rfl).1

/-- What comes before a callback: a request is reported durable after a flush that began once it was
written, and whose check found no failure; and after its write was reported. -/
def Justified (before : List Happening) : Happening → Prop
  | .onDurable request none =>
    (∃ flush, List.Sublist [.written request, .flushStarted flush, .flushSucceeded flush,
      .healthy flush] before) ∧ (request.onWritten → .onWritten request none ∈ before)
  | .onDurable request (some _) => request.onWritten → ∃ error, .onWritten request error ∈ before
  | _ => True

/-- The requests that were submitted: those reported durable, in order, and then those with an error
and those pending, in order while nothing is broken. -/
def InOrder (submitted durable erroneous pending : List WriteRequest) (broken : Bool) : Prop :=
  ∃ rest, submitted = durable ++ rest ∧ rest.Perm (erroneous ++ pending) ∧
    (broken = false → erroneous = [] ∧ rest = pending)

namespace InOrder

variable {submitted durable erroneous pending : List WriteRequest} {broken : Bool}
  {request : WriteRequest}

theorem submit (h : InOrder submitted durable erroneous pending broken) (request : WriteRequest) :
    InOrder (submitted ++ [request]) durable erroneous (pending ++ [request]) broken := by
  obtain ⟨rest, rfl, hperm, hexact⟩ := h
  refine ⟨rest ++ [request], by simp, ?_, fun hwhole ↦ ?_⟩
  · rw [← List.append_assoc]
    exact hperm.append_right _
  · obtain ⟨hnone, rfl⟩ := hexact hwhole
    exact ⟨hnone, rfl⟩

/-- The first pending request is reported durable. -/
theorem ok (h : InOrder submitted durable erroneous (request :: pending) false) :
    InOrder submitted (durable ++ [request]) erroneous pending false := by
  obtain ⟨rest, rfl, -, hexact⟩ := h
  obtain ⟨rfl, rfl⟩ := hexact rfl
  exact ⟨pending, by simp, .refl _, fun _ ↦ ⟨rfl, rfl⟩⟩

/-- A pending request is reported with an error. -/
theorem err {left : List WriteRequest} (h : InOrder submitted durable erroneous pending broken)
    (hpending : pending.Perm (request :: left)) :
    InOrder submitted durable (erroneous ++ [request]) left true := by
  obtain ⟨rest, rfl, hperm, -⟩ := h
  refine ⟨rest, rfl, ?_, fun hwhole ↦ by cases hwhole⟩
  rw [List.append_assoc]
  exact hperm.trans (hpending.append_left erroneous)

/-- The worker may break. -/
theorem weaken (h : InOrder submitted durable erroneous pending broken) {broken' : Bool}
    (hle : broken' = false → broken = false) :
    InOrder submitted durable erroneous pending broken' := by
  obtain ⟨rest, hsplit, hperm, hexact⟩ := h
  exact ⟨rest, hsplit, hperm, fun hwhole ↦ hexact (hle hwhole)⟩

end InOrder

/-! ### The invariant -/

/-- What the history shows for a request of the batch. -/
def Worker.evidence (history : List Happening) (request : WriteRequest) : Worker → Prop
  | .flushing flush _ _ => List.Sublist [.written request, .flushStarted flush] history
  | .flushed flush _ _ =>
    List.Sublist [.written request, .flushStarted flush, .flushSucceeded flush] history
  | .completing _ _ => ∃ flush, List.Sublist [.written request, .flushStarted flush,
      .flushSucceeded flush, .healthy flush] history
  | _ => .written request ∈ history

/-- The worker has taken the last command. -/
def Worker.finishing : Worker → Bool
  | .collected _ shutdown | .flushing _ _ shutdown | .flushed _ _ shutdown
  | .completing _ shutdown => shutdown
  | .stopping => true
  | _ => false

/-- The last command is the one of a coordinator that was dropped. -/
def EndsWithShutdown (closed : Bool) (queue : List Command) : Prop :=
  ∀ before after, queue = before ++ .shutdown :: after → closed ∧ after = []

/-- The budget counts reservations, and stays within its limits. -/
structure Counted (config : DurabilityConfig) (requests bytes : ℕ) (alive : List Reservation) :
    Prop where
  requests_eq : requests = alive.length
  bytes_eq : bytes = (alive.map (·.chargedBytes)).sum
  requests_le : requests ≤ config.maxPendingRequests
  bytes_le : bytes ≤ config.maxPendingBytes

namespace Counted

variable {config : DurabilityConfig} {requests bytes : ℕ} {alive other : List Reservation}
  {reservation : Reservation}

theorem of_perm (h : Counted config requests bytes alive) (hperm : other.Perm alive) :
    Counted config requests bytes other :=
  ⟨h.requests_eq.trans hperm.length_eq.symm, h.bytes_eq.trans (hperm.map _).sum_eq.symm,
    h.requests_le, h.bytes_le⟩

theorem drop (h : Counted config requests bytes alive) (hperm : alive.Perm (reservation :: other)) :
    Counted config (requests - 1) (bytes - reservation.chargedBytes) other := by
  obtain ⟨rfl, rfl, hrequests, hbytes⟩ := h.of_perm hperm.symm
  refine ⟨?_, ?_, (Nat.sub_le _ _).trans hrequests, (Nat.sub_le _ _).trans hbytes⟩
  · rw [List.length_cons, Nat.add_sub_cancel]
  · rw [List.map_cons, List.sum_cons, Nat.add_sub_cancel_left]

theorem add (h : Counted config requests bytes alive) (hperm : other.Perm (reservation :: alive))
    (hrequests : requests + 1 ≤ config.maxPendingRequests)
    (hbytes : bytes + reservation.chargedBytes ≤ config.maxPendingBytes) :
    Counted config (requests + 1) (bytes + reservation.chargedBytes) other := by
  refine of_perm ⟨?_, ?_, hrequests, hbytes⟩ hperm
  · rw [h.requests_eq, List.length_cons]
  · rw [h.bytes_eq, List.map_cons, List.sum_cons, Nat.add_comm]

end Counted

/-- A queue without its first command. -/
theorem EndsWithShutdown.tail {closed : Bool} {command : Command} {queue : List Command}
    (h : EndsWithShutdown closed (command :: queue)) : EndsWithShutdown closed queue :=
  fun before after hsplit ↦ h (command :: before) after (by rw [hsplit, List.cons_append])

theorem EndsWithShutdown.eq_nil {closed : Bool} {queue : List Command}
    (h : EndsWithShutdown closed (.shutdown :: queue)) : closed ∧ queue = [] := h [] queue rfl

/-- Every request reported is reported durable or with an error. -/
theorem completions_perm (history : List Happening) :
    ((completions history).map Prod.fst).Perm (oks history ++ errs history) := by
  induction history with
  | nil => exact .refl _
  | cons happening history ih =>
    rw [← List.singleton_append, completions_append, oks_append, errs_append, List.map_append]
    cases happening with
    | onDurable request error =>
      cases error with
      | none => exact ih.cons request
      | some message => exact (ih.cons request).trans List.perm_middle.symm
    | _ => exact ih

/-- Where no request was reported with an error, all are durable. -/
theorem isNone_of_errs_eq_nil {history : List Happening} (h : errs history = [])
    {completion : WriteRequest × Option String} (hcompletion : completion ∈ completions history) :
    completion.2 = none := by
  obtain ⟨request, error⟩ := completion
  cases error with
  | none => rfl
  | some message =>
    obtain ⟨happening, hmem, hreport⟩ := List.mem_filterMap.mp hcompletion
    have herr : request ∈ errs history := by
      refine List.mem_filterMap.mpr ⟨happening, hmem, ?_⟩
      cases happening <;> simp_all
    rw [h] at herr
    cases herr

namespace WalDurability

variable {config : DurabilityConfig} {s t : WalDurability} {old worker : Worker}
  {request : WriteRequest}

/-- The requests that were submitted and not reported. -/
def pending (s : WalDurability) : List WriteRequest :=
  s.worker.batch ++ s.worker.current ++ queued s.queue

/-- The reservations held by producers and those of the requests. -/
def alive (s : WalDurability) : List Reservation := s.held ++ s.pending.map (·.reservation)

structure Sound (config : DurabilityConfig) (s : WalDurability) : Prop where
  order : InOrder s.submitted (oks s.history) (errs s.history) s.pending s.worker.broken
  counted : Counted config s.pendingRequests s.pendingBytes s.alive
  ids : ((s.held ++ s.submitted.map (·.reservation)).map (·.id)).Nodup
  fresh : ∀ reservation ∈ s.held ++ s.submitted.map (·.reservation), reservation.id < s.nextId
  notified : (notified s.history).Perm
    (((completions s.history).map Prod.fst ++ s.worker.batch).filter (·.onWritten))
  justified : Preceded Justified s.history
  okFirst : (completions s.history).Pairwise fun first second ↦ first.2.isSome → second.2.isSome
  evidence : ∀ request ∈ s.worker.batch, s.worker.evidence s.history request ∧
    (request.onWritten → .onWritten request none ∈ s.history)
  queue : EndsWithShutdown s.closed s.queue
  finishing : s.worker.finishing → s.closed ∧ s.queue = []
  exited : s.worker = .exited → queued s.queue = []

/-- A reservation that was given fits the budget. -/
theorem reserve_eq_some {bytes : ℕ} (hstep : s.reserve config bytes = some t) :
    s.pendingRequests + 1 ≤ config.maxPendingRequests ∧
      s.pendingBytes + bytes ≤ config.maxPendingBytes ∧
      t = { s with
        pendingRequests := s.pendingRequests + 1
        pendingBytes := s.pendingBytes + bytes
        peakPendingRequests := max s.peakPendingRequests (s.pendingRequests + 1)
        peakPendingBytes := max s.peakPendingBytes (s.pendingBytes + bytes)
        held := s.held ++ [⟨s.nextId, bytes⟩]
        nextId := s.nextId + 1 } := by
  simp only [WalDurability.reserve, tryReserve] at hstep
  cases hstatus : s.status with
  | running =>
    rw [hstatus] at hstep
    split_ifs at hstep with hclosed hlarge hfits
    · cases hstep
    · cases hstep
      exact ⟨hfits.1, hfits.2, rfl⟩
    · cases hstep
  | _ =>
    rw [hstatus] at hstep
    split_ifs at hstep <;> cases hstep

namespace Sound

theorem new : Sound config .new where
  order := ⟨[], rfl, .refl _, fun _ ↦ ⟨rfl, rfl⟩⟩
  counted := ⟨rfl, rfl, Nat.zero_le _, Nat.zero_le _⟩
  ids := List.nodup_nil
  fresh := fun _ h ↦ by cases h
  notified := .refl _
  justified := fun before happening after h ↦ by simp [WalDurability.new] at h
  okFirst := .nil
  evidence := fun _ h ↦ by cases h
  queue := fun before after h ↦ by simp [WalDurability.new] at h
  finishing := fun h ↦ by cases h
  exited := fun h ↦ by cases h

/-- Nothing depends on the status. -/
theorem setStatus (h : Sound config s) (status : WorkerStatus) :
    Sound config { s with status := status } :=
  { h with }

/-- The worker goes on with the same requests. -/
theorem move (h : Sound config s) (hworker : s.worker = old) (hbatch : worker.batch = old.batch)
    (hcurrent : worker.current = old.current) (hbroken : worker.broken = false → old.broken = false)
    (hevidence : ∀ request ∈ worker.batch, worker.evidence s.history request)
    (hfinishing : worker.finishing → s.closed ∧ s.queue = [])
    (hexited : worker = .exited → queued s.queue = []) :
    Sound config { s with worker := worker } := by
  subst hworker
  have hpending : worker.batch ++ worker.current ++ queued s.queue = s.pending := by
    rw [pending, hbatch, hcurrent]
  refine { h with
    order := ?_
    counted := ?_
    notified := ?_
    evidence := fun request hrequest ↦
      ⟨hevidence request hrequest, (h.evidence request (hbatch ▸ hrequest)).2⟩
    finishing := hfinishing
    exited := hexited }
  · rw [pending, hpending]
    exact h.order.weaken hbroken
  · rw [alive, pending, hpending]
    exact h.counted
  · rw [hbatch]
    exact h.notified

/-- A step of the worker that is seen in the history and is no callback. -/
theorem note (h : Sound config s) (hworker : s.worker = old) {happening : Happening} {flushes : ℕ}
    (hsilent : oks [happening] = [] ∧ errs [happening] = [] ∧
      Storage.notified [happening] = [] ∧ completions [happening] = [])
    (hjustified : ∀ before, Justified before happening) (hbatch : worker.batch = old.batch)
    (hcurrent : worker.current = old.current) (hbroken : worker.broken = false → old.broken = false)
    (hevidence : ∀ request ∈ worker.batch, worker.evidence (s.history ++ [happening]) request)
    (hfinishing : worker.finishing → s.closed ∧ s.queue = []) (hexited : worker ≠ .exited) :
    Sound config { s with
      worker := worker, flushes := flushes, history := s.history ++ [happening] } := by
  obtain ⟨hoks, herrs, hnotified, hcompletions⟩ := hsilent
  subst hworker
  refine ⟨?_, ?_, h.ids, h.fresh, ?_, h.justified.concat (hjustified _), ?_,
    fun request hrequest ↦ ⟨hevidence request hrequest, fun hwritten ↦ ?_⟩, h.queue, hfinishing,
    fun hend ↦ absurd hend hexited⟩
  · rw [oks_append, errs_append, hoks, herrs, List.append_nil, List.append_nil, pending,
      hbatch, hcurrent]
    exact h.order.weaken hbroken
  · rw [alive, pending, hbatch, hcurrent]
    exact h.counted
  · rw [notified_append, completions_append, hnotified, hcompletions, List.append_nil,
      List.append_nil, hbatch]
    exact h.notified
  · rw [completions_append, hcompletions, List.append_nil]
    exact h.okFirst
  · exact List.mem_append_left _ ((h.evidence request (hbatch ▸ hrequest)).2 hwritten)

/-- A command leaves the queue for the hand of the worker. -/
theorem take (h : Sound config s) (hworker : s.worker = old) {queue : List Command}
    (hqueue : s.queue = .write request :: queue) (hbatch : worker.batch = old.batch)
    (hcurrent : old.current = []) (hrequest : worker.current = [request])
    (hbroken : worker.broken = false → old.broken = false)
    (hevidence : ∀ request ∈ worker.batch, worker.evidence s.history request)
    (hfinishing : worker.finishing = false) (hexited : worker ≠ .exited) :
    Sound config { s with worker := worker, queue := queue } := by
  subst hworker
  have hpending : worker.batch ++ worker.current ++ queued queue = s.pending := by
    rw [pending, hbatch, hcurrent, hrequest, hqueue]
    simp [queued]
  refine ⟨?_, ?_, h.ids, h.fresh, ?_, h.justified, h.okFirst,
    fun other hother ↦ ⟨hevidence other hother, (h.evidence other (hbatch ▸ hother)).2⟩, ?_, ?_,
    fun hend ↦ absurd hend hexited⟩
  · rw [pending, hpending]
    exact h.order.weaken hbroken
  · rw [alive, pending, hpending]
    exact h.counted
  · rw [hbatch]
    exact h.notified
  · have htail := h.queue
    rw [hqueue] at htail
    exact htail.tail
  · intro hlast
    rw [hfinishing] at hlast
    cases hlast

/-- A shutdown leaves the queue. -/
theorem takeShutdown (h : Sound config s) (hworker : s.worker = old) {queue : List Command}
    (hqueue : s.queue = .shutdown :: queue) (hbatch : worker.batch = old.batch)
    (hcurrent : worker.current = old.current) (hbroken : worker.broken = false → old.broken = false)
    (hevidence : ∀ request ∈ worker.batch, worker.evidence s.history request) :
    Sound config { s with worker := worker, queue := queue } := by
  subst hworker
  have hlast := h.queue
  rw [hqueue] at hlast
  obtain ⟨hclosed, rfl⟩ := hlast.eq_nil
  have hpending : worker.batch ++ worker.current ++ queued [] = s.pending := by
    rw [pending, hbatch, hcurrent, hqueue]
    simp [queued]
  refine ⟨?_, ?_, h.ids, h.fresh, ?_, h.justified, h.okFirst,
    fun other hother ↦ ⟨hevidence other hother, (h.evidence other (hbatch ▸ hother)).2⟩, hlast.tail,
    fun _ ↦ ⟨hclosed, rfl⟩, fun _ ↦ rfl⟩
  · rw [pending, hpending]
    exact h.order.weaken hbroken
  · rw [alive, pending, hpending]
    exact h.counted
  · rw [hbatch]
    exact h.notified

/-- What a broken worker still knows of its batch. -/
theorem evidence_of_broken (hbroken : worker.broken) {history : List Happening}
    (h : .written request ∈ history) : worker.evidence history request := by
  cases worker <;> first | exact h | cases hbroken

/-- The reservations left when a request is reported. -/
theorem alive_perm {left : List WriteRequest} (hpending : s.pending.Perm (request :: left)) :
    s.alive.Perm (request.reservation :: (s.held ++ left.map (·.reservation))) :=
  ((hpending.map _).append_left s.held).trans List.perm_middle

theorem completeOk (h : Sound config s) {batch : List WriteRequest}
    {shutdown : Bool} (hworker : s.worker = .completing (request :: batch) shutdown) :
    Sound config { s.completeOne request none with worker := .completing batch shutdown } := by
  have hpending : s.pending = request :: (batch ++ [] ++ queued s.queue) := by
    rw [pending, hworker]
    rfl
  have horder := h.order
  rw [hpending, hworker] at horder
  obtain ⟨rest, -, -, hwhole⟩ := id horder
  have hnone := (hwhole rfl).1
  have hevidence := h.evidence
  rw [hworker] at hevidence
  obtain ⟨⟨flush, hseen⟩, hwritten⟩ := hevidence request (List.mem_cons_self ..)
  refine ⟨?_, h.counted.drop (alive_perm (.of_eq hpending)), h.ids, h.fresh, ?_,
    h.justified.concat ⟨⟨flush, hseen⟩, hwritten⟩, ?_, fun other hother ↦ ?_, h.queue,
    fun hlast ↦ h.finishing (by rw [hworker]; exact hlast), fun hend ↦ by cases hend⟩
  · rw [completeOne, oks_append, errs_append]
    change InOrder s.submitted (oks s.history ++ [request]) (errs s.history ++ [])
      (batch ++ [] ++ queued s.queue) false
    rw [List.append_nil]
    exact horder.ok
  · have hnotified := h.notified
    rw [hworker] at hnotified
    rw [completeOne, notified_append, completions_append, List.map_append, List.append_assoc]
    change (Storage.notified s.history ++ []).Perm _
    rw [List.append_nil]
    exact hnotified
  · rw [completeOne, completions_append]
    refine List.pairwise_append.mpr ⟨h.okFirst, List.pairwise_singleton _ _, ?_⟩
    intro first hfirst _ _ hsome
    rw [isNone_of_errs_eq_nil hnone hfirst] at hsome
    cases hsome
  · obtain ⟨⟨other', hseen⟩, hnotified⟩ := hevidence other (List.mem_cons_of_mem _ hother)
    exact ⟨⟨other', hseen.trans (List.sublist_append_left _ _)⟩,
      fun hasked ↦ List.mem_append_left _ (hnotified hasked)⟩

theorem completeErr (h : Sound config s) {error : String}
    {batch : List WriteRequest} (hworker : s.worker = .failing error (request :: batch)) :
    Sound config { s.completeOne request (some error) with worker := .failing error batch } := by
  have hpending : s.pending = request :: (batch ++ [] ++ queued s.queue) := by
    rw [pending, hworker]
    rfl
  have hevidence := h.evidence
  rw [hworker] at hevidence
  refine ⟨?_, h.counted.drop (alive_perm (.of_eq hpending)), h.ids, h.fresh, ?_,
    h.justified.concat fun hasked ↦ ⟨none, ?_⟩, ?_, fun other hother ↦ ?_, h.queue,
    fun hlast ↦ Bool.noConfusion hlast, fun hend ↦ Worker.noConfusion hend⟩
  · rw [completeOne, oks_append, errs_append]
    change InOrder s.submitted (oks s.history ++ []) (errs s.history ++ [request])
      (batch ++ [] ++ queued s.queue) true
    rw [List.append_nil]
    exact h.order.err (.of_eq hpending)
  · have hnotified := h.notified
    rw [hworker] at hnotified
    rw [completeOne, notified_append, completions_append, List.map_append, List.append_assoc]
    change (Storage.notified s.history ++ []).Perm _
    rw [List.append_nil]
    exact hnotified
  · exact (hevidence request (List.mem_cons_self ..)).2 hasked
  · rw [completeOne, completions_append]
    refine List.pairwise_append.mpr ⟨h.okFirst, List.pairwise_singleton _ _, ?_⟩
    intro _ _ last hlast _
    cases List.mem_singleton.mp hlast
    rfl
  · obtain ⟨hseen, hnotified⟩ := hevidence other (List.mem_cons_of_mem _ hother)
    exact ⟨List.mem_append_left _ hseen, fun hasked ↦ List.mem_append_left _ (hnotified hasked)⟩

/-- A request that was not written is reported, and the worker is broken. -/
theorem failUnwritten (h : Sound config s) (hworker : s.worker = old) {error : String}
    {queue : List Command}
    (hpending : s.pending.Perm (request :: (worker.batch ++ worker.current ++ queued queue)))
    (hbatch : worker.batch = old.batch) (hbroken : worker.broken)
    (hwritten : ∀ other ∈ worker.batch, .written other ∈ s.history)
    (hqueue : EndsWithShutdown s.closed queue) (hexited : worker ≠ .exited) :
    Sound config { s.failUnwritten request error with worker := worker, queue := queue } := by
  subst hworker
  have hfinishing : worker.finishing = false := by
    cases worker <;> first | rfl | cases hbroken
  refine ⟨?_, h.counted.drop (alive_perm hpending), h.ids, h.fresh, ?_, ?_, ?_,
    fun other hother ↦ ?_, hqueue, fun hlast ↦ ?_, fun hend ↦ absurd hend hexited⟩
  · rw [WalDurability.failUnwritten, oks_append, oks_append, errs_append, errs_append,
      oks_notifyWritten, errs_notifyWritten, List.append_nil, List.append_nil, hbroken]
    change InOrder s.submitted (oks s.history ++ []) (errs s.history ++ [request])
      (worker.batch ++ worker.current ++ queued queue) true
    rw [List.append_nil]
    exact h.order.err hpending
  · have hnotified := h.notified
    rw [← hbatch] at hnotified
    rw [WalDurability.failUnwritten, notified_append, notified_append, completions_append,
      completions_append, notified_notifyWritten, completions_notifyWritten, List.append_nil]
    change (Storage.notified s.history ++ (if request.onWritten then [request] else []) ++ []).Perm
      (((completions s.history ++ [(request, some error)]).map Prod.fst ++ worker.batch).filter _)
    rw [List.append_nil, List.map_append, List.append_assoc, List.filter_append]
    refine (hnotified.append_right _).trans ?_
    rw [List.filter_append, List.append_assoc, List.map_singleton, List.singleton_append,
      List.filter_cons]
    refine List.Perm.append_left _ ?_
    split_ifs
    · exact List.perm_append_singleton _ _
    · rw [List.append_nil]
  · rw [WalDurability.failUnwritten, notifyWritten]
    split_ifs with hasked
    · have hnotice : Justified s.history (.onWritten request (some error)) := trivial
      exact (h.justified.concat hnotice).concat fun _ ↦ ⟨some error, by simp⟩
    · rw [List.append_nil]
      exact h.justified.concat fun hwanted ↦ absurd hwanted hasked
  · rw [WalDurability.failUnwritten, completions_append, completions_append,
      completions_notifyWritten, List.append_nil]
    refine List.pairwise_append.mpr ⟨h.okFirst, List.pairwise_singleton _ _, ?_⟩
    intro _ _ last hlast _
    cases List.mem_singleton.mp hlast
    rfl
  · have hseen : .written other ∈ s.history := hwritten other hother
    obtain ⟨-, hnotified⟩ := h.evidence other (hbatch ▸ hother)
    refine ⟨evidence_of_broken hbroken ?_, fun hasked ↦ ?_⟩
    · exact List.mem_append_left _ (List.mem_append_left _ hseen)
    · exact List.mem_append_left _ (List.mem_append_left _ (hnotified hasked))
  · rw [hfinishing] at hlast
    cases hlast

/-- The request in hand joins the batch. -/
theorem write (h : Sound config s) {batch : List WriteRequest}
    (hworker : s.worker = .writing request batch) :
    Sound config { s with
      worker := .collecting (batch ++ [request])
      history := s.history ++ .written request :: notifyWritten request none } := by
  have hevidence := h.evidence
  have horder := h.order
  have hcounted := h.counted
  have hnotified := h.notified
  rw [hworker] at hevidence hnotified
  rw [pending, hworker] at horder
  rw [alive, pending, hworker] at hcounted
  have hwritten : s.history ++ .written request :: notifyWritten request none =
      s.history ++ [.written request] ++ notifyWritten request none := by simp
  have hnotice : Preceded Justified (s.history ++ [.written request]) := h.justified.concat trivial
  refine ⟨?_, ?_, h.ids, h.fresh, ?_, ?_, ?_, fun other hother ↦ ?_,
    h.queue, fun hlast ↦ Bool.noConfusion hlast, fun hend ↦ Worker.noConfusion hend⟩
  · rw [hwritten, oks_append, errs_append, oks_append, errs_append, oks_notifyWritten,
      errs_notifyWritten, List.append_nil, List.append_nil]
    change InOrder s.submitted (oks s.history ++ []) (errs s.history ++ [])
      (batch ++ [request] ++ [] ++ queued s.queue) false
    rw [List.append_nil, List.append_nil, List.append_nil]
    exact horder
  · change Counted config s.pendingRequests s.pendingBytes
      (s.held ++ (batch ++ [request] ++ [] ++ queued s.queue).map WriteRequest.reservation)
    rw [List.append_nil]
    exact hcounted
  · rw [hwritten, notified_append, notified_append, completions_append, completions_append,
      notified_notifyWritten, completions_notifyWritten]
    change (Storage.notified s.history ++ [] ++ (if request.onWritten then [request] else [])).Perm
      (((completions s.history ++ [] ++ []).map Prod.fst ++ (batch ++ [request])).filter _)
    rw [List.append_nil, List.append_nil, List.append_nil, ← List.append_assoc, List.filter_append,
      List.filter_cons, List.filter_nil]
    exact hnotified.append_right _
  · rw [hwritten, notifyWritten]
    split_ifs with hasked
    · exact hnotice.concat trivial
    · rwa [List.append_nil]
  · rw [hwritten, completions_append, completions_append, completions_notifyWritten]
    change (completions s.history ++ [] ++ []).Pairwise _
    rw [List.append_nil, List.append_nil]
    exact h.okFirst
  · rcases List.mem_append.mp hother with hother | hother
    · obtain ⟨hseen, hnotice⟩ := hevidence other hother
      exact ⟨List.mem_append_left _ hseen, fun hasked ↦ List.mem_append_left _ (hnotice hasked)⟩
    · obtain rfl := List.mem_singleton.mp hother
      refine ⟨List.mem_append_right _ (List.mem_cons_self ..), fun hasked ↦ ?_⟩
      refine List.mem_append_right _ (List.mem_cons_of_mem _ ?_)
      rw [notifyWritten, if_pos hasked]
      exact List.mem_cons_self ..

/-! ### Producers -/

theorem reserve (h : Sound config s) {bytes : ℕ}
    (hstep : s.reserve config bytes = some t) : Sound config t := by
  obtain ⟨hrequests, hbytes, hnext⟩ := reserve_eq_some hstep
  let fresh : Reservation := ⟨s.nextId, bytes⟩
  have hheld : t.held = s.held ++ [fresh] := by rw [hnext]
  have hlisted : (t.held ++ t.submitted.map (·.reservation)).Perm
      (fresh :: (s.held ++ s.submitted.map (·.reservation))) := by
    rw [hheld, hnext, List.append_assoc]
    exact List.perm_middle
  have halive : t.alive.Perm (fresh :: s.alive) := by
    rw [alive, hheld, hnext, List.append_assoc]
    exact List.perm_middle
  have hcounted := h.counted.add halive hrequests hbytes
  subst hnext
  refine { h with counted := hcounted, ids := ?_, fresh := fun reservation hmem ↦ ?_ }
  · rw [(hlisted.map _).nodup_iff, List.map_cons, List.nodup_cons]
    refine ⟨fun hused ↦ ?_, h.ids⟩
    obtain ⟨reservation, hmem, hid⟩ := List.mem_map.mp hused
    exact absurd hid (h.fresh reservation hmem).ne
  · rcases List.mem_cons.mp (hlisted.mem_iff.mp hmem) with rfl | hmem
    · exact Nat.lt_succ_self _
    · exact (h.fresh reservation hmem).trans (Nat.lt_succ_self _)

/-- A reservation leaves its producer and is dropped. -/
theorem dropHeld (h : Sound config s) {reservation : Reservation} (hheld : reservation ∈ s.held) :
    Sound config { s.dropped reservation with held := s.held.erase reservation } := by
  have hperm := List.perm_cons_erase hheld
  have hsub : (s.held.erase reservation ++ s.submitted.map (·.reservation)).Sublist
      (s.held ++ s.submitted.map (·.reservation)) := List.erase_sublist.append_right _
  exact { h with
    counted := h.counted.drop (hperm.append_right _)
    ids := h.ids.sublist (hsub.map _)
    fresh := fun other hmem ↦ h.fresh other (hsub.subset hmem) }

theorem release (h : Sound config s) {reservation : Reservation}
    (hstep : s.release reservation = some t) : Sound config t := by
  rw [WalDurability.release] at hstep
  split_ifs at hstep with hheld
  cases hstep
  exact h.dropHeld hheld

theorem submit (h : Sound config s) {reservation : Reservation} {onWritten : Bool}
    (hstep : s.submit config reservation onWritten = some t) : Sound config t := by
  simp only [WalDurability.submit] at hstep
  split_ifs at hstep with hallowed hexited hroom
  · cases hstep
    exact h.dropHeld hallowed.1
  cases hstep
  obtain ⟨hheld, hclosed⟩ := hallowed
  let request : WriteRequest := ⟨reservation, onWritten⟩
  have hperm := List.perm_cons_erase hheld
  have hpending : s.worker.batch ++ s.worker.current ++ queued (s.queue ++ [.write request]) =
      s.pending ++ [request] := by
    rw [pending, queued_append, ← List.append_assoc]
    rfl
  have hlisted : (s.held.erase reservation ++ (s.submitted ++ [request]).map (·.reservation)).Perm
      (s.held ++ s.submitted.map (·.reservation)) := by
    rw [List.map_append, ← List.append_assoc]
    exact (List.perm_append_singleton _ _).trans (hperm.append_right _).symm
  have halive : (s.held.erase reservation ++ (s.pending ++ [request]).map (·.reservation)).Perm
      s.alive := by
    rw [List.map_append, ← List.append_assoc]
    exact (List.perm_append_singleton _ _).trans (hperm.append_right _).symm
  refine { h with
    order := ?_
    counted := ?_
    ids := ((hlisted.map _).nodup_iff).mpr h.ids
    fresh := fun other hmem ↦ h.fresh other (hlisted.mem_iff.mp hmem)
    queue := ?_
    finishing := fun hlast ↦ absurd (h.finishing hlast).1 hclosed
    exited := fun hend ↦ absurd hend hexited }
  · rw [pending, hpending]
    exact h.order.submit request
  · rw [alive, pending, hpending]
    exact h.counted.of_perm halive
  · intro before after hsplit
    have hmem : .shutdown ∈ s.queue := by
      have hshut : Command.shutdown ∈ s.queue ++ [.write request] := by
        rw [show s.queue ++ [.write request] = before ++ .shutdown :: after from hsplit]
        exact List.mem_append_right _ (List.mem_cons_self ..)
      simpa using hshut
    obtain ⟨first, last, hqueue⟩ := List.append_of_mem hmem
    exact absurd (h.queue first last hqueue).1 hclosed

theorem close (h : Sound config s) (hstep : s.close config = some t) : Sound config t := by
  rw [WalDurability.close] at hstep
  split_ifs at hstep with hclosed hexited hroom
  · cases hstep
    exact { h with
      queue := fun before after hsplit ↦ ⟨rfl, (h.queue before after hsplit).2⟩
      finishing := fun hlast ↦ absurd (h.finishing hlast).1 hclosed }
  · cases hstep
    have hqueued : queued (s.queue ++ [.shutdown]) = queued s.queue := by
      rw [queued_append]
      exact List.append_nil _
    refine { h with
      order := ?_
      counted := ?_
      queue := fun before after hsplit ↦ ⟨rfl, ?_⟩
      finishing := fun hlast ↦ absurd (h.finishing hlast).1 hclosed
      exited := fun hend ↦ absurd hend hexited }
    · rw [pending, hqueued]
      exact h.order
    · rw [alive, pending, hqueued]
      exact h.counted
    · rcases List.eq_nil_or_concat after with rfl | ⟨rest, final, rfl⟩
      · rfl
      · rw [List.concat_eq_append, ← List.cons_append, ← List.append_assoc] at hsplit
        have hqueue := (List.append_inj' hsplit rfl).1
        exact absurd (h.queue before rest hqueue).1 hclosed

/-! ### The worker -/

/-- The evidence for the batch of a worker that has not begun to flush. -/
theorem written_of_mem (h : Sound config s) (hworker : s.worker = old)
    {request : WriteRequest} (hrequest : request ∈ old.batch) : .written request ∈ s.history := by
  subst hworker
  have hseen := (h.evidence request hrequest).1
  generalize s.worker = worker at hseen
  cases worker with
  | flushing | flushed => exact hseen.subset (List.mem_cons_self ..)
  | completing =>
    obtain ⟨flush, hseen⟩ := hseen
    exact hseen.subset (List.mem_cons_self ..)
  | _ => exact hseen

theorem finishing_of_eq (h : Sound config s) (hworker : s.worker = old)
    (hlast : old.finishing) : s.closed ∧ s.queue = [] := h.finishing (hworker ▸ hlast)

theorem receive (h : Sound config s) (hstep : s.receive = some t) : Sound config t := by
  rw [WalDurability.receive] at hstep
  split at hstep
  · rename_i request queue hworker hqueue
    cases hstep
    exact h.take hworker hqueue rfl rfl rfl id (fun _ hmem ↦ by cases hmem) rfl (by simp)
  · rename_i queue hworker hqueue
    cases hstep
    exact h.takeShutdown hworker hqueue rfl rfl id fun _ hmem ↦ by cases hmem
  · rename_i hworker hqueue
    split_ifs at hstep with hclosed
    cases hstep
    exact h.move hworker rfl rfl id (fun _ hmem ↦ by cases hmem)
      (fun _ ↦ ⟨hclosed, hqueue⟩) (by simp)
  · cases hstep

theorem check (h : Sound config s) (hstep : s.check = some t) : Sound config t := by
  rw [WalDurability.check] at hstep
  split at hstep
  · rename_i request batch hworker
    split at hstep <;> cases hstep
    · exact h.move hworker rfl rfl nofun (fun other ↦ h.written_of_mem hworker) nofun (by simp)
    · exact h.move hworker rfl rfl id (fun other ↦ h.written_of_mem hworker) nofun (by simp)
  · rename_i batch shutdown hworker
    split at hstep <;> cases hstep
    · exact h.move hworker rfl rfl nofun (fun other ↦ h.written_of_mem hworker) nofun (by simp)
    · refine h.note hworker ⟨rfl, rfl, rfl, rfl⟩ (fun _ ↦ trivial) rfl rfl id
        (fun other hother ↦ ?_) (fun hlast ↦ h.finishing_of_eq hworker hlast) (by simp)
      exact (List.singleton_sublist.mpr (h.written_of_mem hworker hother)).append (.refl [_])
  · rename_i flush batch shutdown hworker
    split at hstep <;> cases hstep
    · exact h.move hworker rfl rfl nofun (fun other ↦ h.written_of_mem hworker) nofun (by simp)
    · refine h.note hworker ⟨rfl, rfl, rfl, rfl⟩ (fun _ ↦ trivial) rfl rfl id
        (fun other hother ↦ ?_) (fun hlast ↦ h.finishing_of_eq hworker hlast) (by simp)
      have hevidence := h.evidence
      rw [hworker] at hevidence
      exact ⟨flush, (hevidence other hother).1.append (.refl [_])⟩
  · cases hstep

theorem writeFailed (h : Sound config s) {error : String}
    (hstep : s.writeFailed error = some t) : Sound config t := by
  rw [WalDurability.writeFailed] at hstep
  split at hstep
  · rename_i request batch hworker
    cases hstep
    refine h.failUnwritten hworker ?_ rfl rfl (fun other ↦ h.written_of_mem hworker)
      h.queue (by simp)
    rw [pending, hworker]
    change (batch ++ [request] ++ queued s.queue).Perm (request :: (batch ++ [] ++ queued s.queue))
    simp
  · cases hstep

theorem join (h : Sound config s) (hstep : s.join config = some t) : Sound config t := by
  rw [WalDurability.join] at hstep
  split at hstep
  · rename_i batch command queue hworker hqueue
    split_ifs at hstep
    split at hstep <;> cases hstep
    · exact h.take hworker hqueue rfl rfl rfl id (fun other ↦ h.written_of_mem hworker)
        rfl (by simp)
    · exact h.takeShutdown hworker hqueue rfl rfl id fun other ↦ h.written_of_mem hworker
  · cases hstep

theorem endCollect (h : Sound config s) (hstep : s.endCollect = some t) : Sound config t := by
  rw [WalDurability.endCollect] at hstep
  split at hstep
  · rename_i batch hworker
    cases hstep
    refine h.move hworker rfl rfl id (fun other ↦ h.written_of_mem hworker)
      (fun hlast ↦ ?_) (by simp)
    simpa [Worker.finishing] using hlast
  · cases hstep

theorem flush (h : Sound config s) (hstep : s.flush = some t) : Sound config t := by
  rw [WalDurability.flush] at hstep
  split at hstep
  · rename_i flush batch shutdown hworker
    have hevidence := h.evidence
    rw [hworker] at hevidence
    cases hstep
    exact h.note hworker ⟨rfl, rfl, rfl, rfl⟩ (fun _ ↦ trivial) rfl rfl id
      (fun other hother ↦ (hevidence other hother).1.append (.refl [_]))
      (fun hlast ↦ h.finishing_of_eq hworker hlast) (by simp)
  · cases hstep

theorem flushFailed (h : Sound config s) {error : String}
    (hstep : s.flushFailed error = some t) : Sound config t := by
  rw [WalDurability.flushFailed] at hstep
  split at hstep
  · rename_i flush batch shutdown hworker
    cases hstep
    exact h.move hworker rfl rfl nofun (fun other ↦ h.written_of_mem hworker) nofun (by simp)
  · cases hstep

theorem complete (h : Sound config s) (hstep : s.complete = some t) : Sound config t := by
  rw [WalDurability.complete] at hstep
  split at hstep
  · rename_i request batch shutdown hworker
    cases hstep
    exact h.completeOk hworker
  · rename_i shutdown hworker
    cases hstep
    cases shutdown with
    | true =>
      exact h.move hworker rfl rfl id (fun _ hmem ↦ by cases hmem)
        (fun _ ↦ h.finishing_of_eq hworker rfl) (by simp)
    | false => exact h.move hworker rfl rfl id (fun _ hmem ↦ by cases hmem) nofun (by simp)
  · rename_i error request batch hworker
    cases hstep
    exact h.completeErr hworker
  · rename_i error hworker
    cases hstep
    exact h.move hworker rfl rfl nofun (fun _ hmem ↦ by cases hmem) nofun (by simp)
  · cases hstep

theorem reject (h : Sound config s) (hstep : s.reject = some t) : Sound config t := by
  rw [WalDurability.reject] at hstep
  split at hstep
  · rename_i request error batch hworker
    cases hstep
    refine h.failUnwritten hworker ?_ rfl rfl (fun other ↦ h.written_of_mem hworker)
      h.queue (by simp)
    rw [pending, hworker]
    change (batch ++ [request] ++ queued s.queue).Perm (request :: (batch ++ [] ++ queued s.queue))
    simp
  · cases hstep

theorem record (h : Sound config s) (hstep : s.record = some t) : Sound config t := by
  rw [WalDurability.record] at hstep
  split at hstep
  · rename_i error batch hworker
    cases hstep
    refine (h.setStatus _).move hworker rfl rfl nofun (fun other hother ↦ ?_) nofun (by simp)
    exact h.written_of_mem hworker hother
  · cases hstep

theorem drain (h : Sound config s) (hstep : s.drain = some t) : Sound config t := by
  rw [WalDurability.drain] at hstep
  split at hstep
  · rename_i error hworker
    by_cases hzero : s.pendingRequests = 0
    · rw [if_pos hzero] at hstep
      cases hstep
      have hnone : s.alive = [] := List.length_eq_zero_iff.mp (h.counted.1.symm.trans hzero)
      have hpending : s.pending = [] := by simpa [alive] using (List.append_eq_nil_iff.mp hnone).2
      exact h.move hworker rfl rfl nofun (fun _ hmem ↦ by cases hmem) nofun
        fun _ ↦ (List.append_eq_nil_iff.mp hpending).2
    · rw [if_neg hzero] at hstep
      split at hstep
      · rename_i request queue hqueue
        cases hstep
        have htail := h.queue
        rw [hqueue] at htail
        have hsame : { s.failUnwritten request error with queue := queue } =
            { s.failUnwritten request error with worker := .draining error, queue := queue } := by
          rw [← hworker]
          rfl
        rw [hsame]
        refine h.failUnwritten hworker ?_ rfl rfl (fun _ hmem ↦ by cases hmem) htail.tail (by simp)
        rw [pending, hworker, hqueue]
        rfl
      · rename_i queue hqueue
        cases hstep
        have hsame : { s with queue := queue } =
            { s with worker := .draining error, queue := queue } := by
          rw [← hworker]
        rw [hsame]
        exact h.takeShutdown hworker hqueue rfl rfl id fun _ hmem ↦ by cases hmem
      · rename_i hqueue
        split_ifs at hstep
        cases hstep
        exact h.move hworker rfl rfl nofun (fun _ hmem ↦ by cases hmem) nofun
          fun _ ↦ by rw [hqueue]; rfl
  · cases hstep

theorem stop (h : Sound config s) (hstep : s.stop = some t) : Sound config t := by
  rw [WalDurability.stop] at hstep
  split at hstep
  · rename_i hworker
    cases hstep
    have hqueue := (h.finishing_of_eq hworker rfl).2
    exact (h.setStatus _).move hworker rfl rfl nofun (fun _ hmem ↦ by cases hmem) nofun
      fun _ ↦ by rw [hqueue]; rfl
  · cases hstep

theorem step (h : Sound config s) {event : DurabilityEvent}
    (hstep : s.step config event = some t) : Sound config t := by
  cases event with
  | reserve bytes => exact h.reserve hstep
  | release reservation => exact h.release hstep
  | submit reservation onWritten => exact h.submit hstep
  | fail error => exact Option.some.inj hstep ▸ h.setStatus _
  | close => exact h.close hstep
  | receive => exact h.receive hstep
  | check => exact h.check hstep
  | write =>
    simp only [WalDurability.step, WalDurability.write] at hstep
    split at hstep
    · rename_i request batch hworker
      exact Option.some.inj hstep ▸ h.write hworker
    · cases hstep
  | writeFailed error => exact h.writeFailed hstep
  | join => exact h.join hstep
  | endCollect => exact h.endCollect hstep
  | flush => exact h.flush hstep
  | flushFailed error => exact h.flushFailed hstep
  | complete => exact h.complete hstep
  | reject => exact h.reject hstep
  | record => exact h.record hstep
  | drain => exact h.drain hstep
  | stop => exact h.stop hstep

end Sound

/-! ### The worker ends -/

/-- A bound for the steps of the worker until it waits or ends. -/
def workLeft (s : WalDurability) : ℕ :=
  9 * s.queue.length +
    match s.worker with
    | .receiving => 2
    | .received _ batch => 10 + batch.length
    | .writing _ batch => 9 + batch.length
    | .collecting batch => 7 + batch.length
    | .collected batch _ => 6 + batch.length
    | .flushing _ batch _ => 5 + batch.length
    | .flushed _ batch _ => 4 + batch.length
    | .completing batch _ => 3 + batch.length
    | .rejecting _ _ batch => 3 + batch.length
    | .recording _ batch => 3 + batch.length
    | .failing _ batch => 2 + batch.length
    | .draining _ => 1
    | .stopping => 1
    | .exited => 0

/-- Steps outside the worker leave a dropped coordinator its queue and its worker. -/
theorem outside_step {event : DurabilityEvent} (hclosed : s.closed)
    (hevent : event.isWorker = false) (hstep : s.step config event = some t) :
    t.closed = s.closed ∧ t.queue = s.queue ∧ t.worker = s.worker := by
  cases event with
  | reserve bytes =>
    obtain ⟨-, -, rfl⟩ := reserve_eq_some hstep
    exact ⟨rfl, rfl, rfl⟩
  | release reservation =>
    simp only [step, release] at hstep
    split_ifs at hstep
    cases hstep
    exact ⟨rfl, rfl, rfl⟩
  | submit reservation onWritten => simp [step, submit, hclosed] at hstep
  | fail error =>
    cases hstep
    exact ⟨rfl, rfl, rfl⟩
  | close => simp [step, close, hclosed] at hstep
  | _ => cases hevent

/-- Every step of the worker lowers the bound, and leaves the coordinator dropped. -/
theorem worker_step {event : DurabilityEvent} (hevent : event.isWorker)
    (hstep : s.step config event = some t) : t.closed = s.closed ∧ t.workLeft < s.workLeft := by
  cases event with
  | receive =>
    simp only [step, receive] at hstep
    split at hstep
    · rename_i hworker hqueue
      cases hstep
      simp [workLeft, hworker, hqueue]
      omega
    · rename_i hworker hqueue
      cases hstep
      simp [workLeft, hworker, hqueue]
    · rename_i hworker hqueue
      split_ifs at hstep
      cases hstep
      simp [workLeft, hworker, hqueue]
    · cases hstep
  | check =>
    simp only [step, check] at hstep
    split at hstep
    · rename_i hworker
      split at hstep <;> cases hstep <;> simp [workLeft, hworker]
    · rename_i hworker
      split at hstep <;> cases hstep <;> simp [workLeft, hworker]
    · rename_i hworker
      split at hstep <;> cases hstep <;> simp [workLeft, hworker]
    · cases hstep
  | join =>
    simp only [step, join] at hstep
    split at hstep
    · rename_i hworker hqueue
      split_ifs at hstep
      split at hstep <;> cases hstep <;> simp [workLeft, hworker, hqueue] <;> omega
    · cases hstep
  | complete =>
    simp only [step, complete] at hstep
    split at hstep
    · rename_i hworker
      cases hstep
      simp [workLeft, hworker, completeOne, dropped]
    · rename_i shutdown hworker
      cases hstep
      cases shutdown <;> simp [workLeft, hworker]
    · rename_i hworker
      cases hstep
      simp [workLeft, hworker, completeOne, dropped]
    · rename_i hworker
      cases hstep
      simp [workLeft, hworker]
    · cases hstep
  | drain =>
    simp only [step, drain] at hstep
    split at hstep
    · rename_i hworker
      by_cases hzero : s.pendingRequests = 0
      · rw [if_pos hzero] at hstep
        cases hstep
        simp [workLeft, hworker]
      · rw [if_neg hzero] at hstep
        split at hstep
        · rename_i hqueue
          cases hstep
          simp [workLeft, hworker, hqueue, failUnwritten, dropped]
        · rename_i hqueue
          cases hstep
          simp [workLeft, hworker, hqueue]
        · split_ifs at hstep
          cases hstep
          simp [workLeft, hworker]
    · cases hstep
  | reserve | release | submit | fail | close => cases hevent
  | _ =>
    simp only [step, write, writeFailed, endCollect, flush, flushFailed, reject, record,
      stop] at hstep
    split at hstep
    · rename_i hworker
      cases hstep
      simp [workLeft, hworker, failUnwritten, dropped, fail] <;> omega
    · cases hstep

/-- Once the coordinator is dropped, the worker can go on until it has ended. -/
theorem exists_step_of_closed (config : DurabilityConfig) (hclosed : s.closed)
    (hworker : s.worker ≠ .exited) :
    ∃ event, DurabilityEvent.isWorker event ∧ (s.step config event).isSome := by
  cases hphase : s.worker with
  | receiving =>
    refine ⟨.receive, rfl, ?_⟩
    cases hqueue : s.queue with
    | nil => simp [step, receive, hphase, hqueue, hclosed]
    | cons command queue => cases command <;> simp [step, receive, hphase, hqueue]
  | received request batch | collected batch shutdown | flushed number batch shutdown =>
    refine ⟨.check, rfl, ?_⟩
    cases hfailure : s.failure <;> simp [step, check, hphase, hfailure]
  | writing request batch => exact ⟨.write, rfl, by simp [step, write, hphase]⟩
  | collecting batch => exact ⟨.endCollect, rfl, by simp [step, endCollect, hphase]⟩
  | flushing number batch shutdown => exact ⟨.flush, rfl, by simp [step, flush, hphase]⟩
  | completing batch shutdown | failing error batch =>
    refine ⟨.complete, rfl, ?_⟩
    cases batch <;> simp [step, complete, hphase]
  | rejecting request error batch => exact ⟨.reject, rfl, by simp [step, reject, hphase]⟩
  | recording error batch => exact ⟨.record, rfl, by simp [step, record, hphase]⟩
  | draining error =>
    refine ⟨.drain, rfl, ?_⟩
    by_cases hzero : s.pendingRequests = 0
    · simp [step, drain, hphase, hzero]
    · cases hqueue : s.queue with
      | nil => simp [step, drain, hphase, hqueue, hzero, hclosed]
      | cons command queue => cases command <;> simp [step, drain, hphase, hqueue, hzero]
  | stopping => exact ⟨.stop, rfl, by simp [step, stop, hphase]⟩
  | exited => exact absurd hphase hworker

theorem workLeft_run {events : List DurabilityEvent} (hclosed : s.closed)
    (hrun : events.foldlM (WalDurability.step config) s = some t) :
    t.workLeft + events.countP DurabilityEvent.isWorker ≤ s.workLeft := by
  induction events generalizing s with
  | nil =>
    cases hrun
    exact le_rfl
  | cons event rest ih =>
    rw [List.foldlM_cons] at hrun
    obtain ⟨mid, hstep, hrest⟩ := Option.bind_eq_some_iff.mp hrun
    rw [List.countP_cons]
    cases hevent : event.isWorker with
    | false =>
      obtain ⟨hclosed', hqueue, hworker⟩ := outside_step hclosed hevent hstep
      have hsame : mid.workLeft = s.workLeft := by rw [workLeft, workLeft, hqueue, hworker]
      have hle := ih (hclosed'.trans hclosed) hrest
      simpa [hsame] using hle
    | true =>
      obtain ⟨hclosed', hless⟩ := worker_step hevent hstep
      have hle := ih (hclosed'.trans hclosed) hrest
      simp only [if_true]
      omega

/-- After as many steps of the worker as `workLeft` says, the worker of a dropped coordinator has
ended. -/
theorem exited_of_run {events : List DurabilityEvent} (hclosed : s.closed)
    (hrun : events.foldlM (WalDurability.step config) s = some t)
    (hlong : s.workLeft ≤ events.countP DurabilityEvent.isWorker) : t.worker = .exited := by
  have hle := workLeft_run hclosed hrun
  have hnone : t.workLeft = 0 := by omega
  rw [workLeft] at hnone
  cases hworker : t.worker with
  | exited => rfl
  | _ =>
    rw [hworker] at hnone
    simp at hnone

/-! ### What the worker reports -/

namespace Sound

variable (h : Sound config s)

include h

/-- Every request that was submitted was reported or is pending. -/
theorem submitted_perm : s.submitted.Perm ((completions s.history).map Prod.fst ++ s.pending) := by
  obtain ⟨rest, hsplit, hperm, -⟩ := h.order
  rw [hsplit]
  refine (hperm.append_left _).trans ?_
  rw [← List.append_assoc]
  exact (completions_perm s.history).symm.append_right _

theorem submitted_nodup : s.submitted.Nodup := by
  have hids := h.ids
  rw [List.map_append] at hids
  exact ((List.nodup_append.mp hids).2.1.of_map _).of_map _

/-- No request is reported twice, and only requests that were submitted. -/
theorem completions_nodup : ((completions s.history).map Prod.fst).Nodup :=
  (List.nodup_append.mp (h.submitted_perm.nodup_iff.mp h.submitted_nodup)).1

theorem notified_nodup : (Storage.notified s.history).Nodup := by
  refine h.notified.nodup_iff.mpr (List.Nodup.filter _ ?_)
  have hall := h.submitted_perm.nodup_iff.mp h.submitted_nodup
  rw [pending, List.append_assoc, ← List.append_assoc] at hall
  exact (List.nodup_append.mp hall).1

/-- When the worker has ended, every request was reported, and every write. -/
theorem all_reported (hworker : s.worker = .exited) :
    ((completions s.history).map Prod.fst).Perm s.submitted ∧
      (Storage.notified s.history).Perm (s.submitted.filter (·.onWritten)) := by
  have hpending : s.pending = [] := by
    rw [pending, hworker, h.exited hworker]
    rfl
  have hperm := h.submitted_perm
  rw [hpending, List.append_nil] at hperm
  refine ⟨hperm.symm, ?_⟩
  have hnotified := h.notified
  rw [hworker] at hnotified
  refine hnotified.trans (List.Perm.filter _ ?_)
  change ((completions s.history).map Prod.fst ++ []).Perm _
  rw [List.append_nil]
  exact hperm.symm

theorem oks_prefix : oks s.history <+: s.submitted := by
  obtain ⟨rest, hsplit, -⟩ := h.order
  exact ⟨rest, hsplit.symm⟩

end Sound

end WalDurability

open WalDurability

/-- In every run of the worker and its producers: a request that was submitted is reported at most
once, and exactly once when the worker has ended, which it does once the coordinator is dropped; its
write is reported exactly once too where that was asked for, and before it. It is reported durable
only after a flush that began once it was written and whose check found no failure; the requests
reported durable are the first ones submitted, in order, and come before every error. The budget
counts the reservations that are left, and stays within its limits. -/
theorem durability_worker (config : DurabilityConfig) {events : List DurabilityEvent}
    {s : WalDurability} (hrun : events.foldlM (WalDurability.step config) .new = some s) :
    (s.submitted.Nodup ∧ ((completions s.history).map Prod.fst).Nodup ∧ (notified s.history).Nodup ∧
      (s.worker = .exited → ((completions s.history).map Prod.fst).Perm s.submitted ∧
        (notified s.history).Perm (s.submitted.filter (·.onWritten))) ∧
      (s.closed →
        (s.worker ≠ .exited →
          ∃ event, DurabilityEvent.isWorker event ∧ (s.step config event).isSome) ∧
        ∀ (more : List DurabilityEvent) (t : WalDurability),
          more.foldlM (WalDurability.step config) s = some t →
          s.workLeft ≤ more.countP DurabilityEvent.isWorker → t.worker = .exited) ∧
      ∀ (before after : List Happening) (request : WriteRequest) (error : Option String),
        s.history = before ++ .onDurable request error :: after → request.onWritten →
          ∃ written, Happening.onWritten request written ∈ before) ∧
    ((∀ (before after : List Happening) (request : WriteRequest),
        s.history = before ++ .onDurable request none :: after → ∃ flush, List.Sublist
          [.written request, .flushStarted flush, .flushSucceeded flush, .healthy flush] before) ∧
      oks s.history <+: s.submitted ∧
      (completions s.history).Pairwise fun first second ↦ first.2.isSome → second.2.isSome) ∧
    s.pendingRequests = s.alive.length ∧ s.pendingBytes = (s.alive.map (·.chargedBytes)).sum ∧
      s.pendingRequests ≤ config.maxPendingRequests ∧ s.pendingBytes ≤ config.maxPendingBytes := by
  have h : Sound config s := foldlM_invariant (fun hmid hstep ↦ hmid.step hstep) hrun .new
  refine ⟨⟨h.submitted_nodup, h.completions_nodup, h.notified_nodup, h.all_reported,
    fun hclosed ↦ ⟨exists_step_of_closed config hclosed, fun more t ↦ exited_of_run hclosed⟩,
    fun before after request error hsplit hasked ↦ ?_⟩,
    ⟨fun before after request hsplit ↦ (h.justified before _ after hsplit).1,
      h.oks_prefix, h.okFirst⟩,
    h.counted.requests_eq, h.counted.bytes_eq, h.counted.requests_le, h.counted.bytes_le⟩
  have hjustified := h.justified before _ after hsplit
  cases error with
  | none => exact ⟨none, hjustified.2 hasked⟩
  | some message => exact hjustified hasked

/-- Two requests in one batch: the first is written, the write of the second fails, and the
coordinator is dropped. -/
def failedWrite : List DurabilityEvent :=
  [.reserve 16, .reserve 16, .submit ⟨0, 16⟩ true, .submit ⟨1, 16⟩ true, .receive, .check,
    .write, .join, .check, .writeFailed "disk", .close, .record, .complete, .complete, .drain]

/-- Both requests were reported when the worker has ended. -/
theorem durability_worker_failedWrite :
    ∃ s, failedWrite.foldlM (WalDurability.step .default) .new = some s ∧ s.worker = .exited ∧
      s.submitted.length = 2 ∧ ((completions s.history).map Prod.fst).Perm s.submitted := by
  have hfound : (failedWrite.foldlM (WalDurability.step .default) .new).map
      (fun s ↦ (s.worker, s.submitted.length)) = some (.exited, 2) := by decide
  obtain ⟨s, hs, hfound⟩ := Option.map_eq_some_iff.mp hfound
  obtain ⟨hworker, hlength⟩ := Prod.mk.inj hfound
  exact ⟨s, hs, hworker, hlength, ((durability_worker .default hs).1.2.2.2.1 hworker).1⟩

end DalService.Storage
