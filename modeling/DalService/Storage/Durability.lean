import DalService.Foundation.Run

/-!
# The write-ahead log worker

One worker owns the unsynced writes of a database. A producer reserves room in a bounded budget and
then submits its request, which takes the reservation with it. The worker writes requests in the
order of the queue, collects what arrives for a while, and covers all of it with one flush; then it
reports each request of the batch. A write or a flush that fails, or a failure recorded from
outside, ends the worker: it reports the error to every request it has and to every one that still
arrives, until no reservation is left. Dropping the coordinator sends a last command, which stops
the worker after the requests before it.

The steps of the worker, of the producers and of whoever records a failure interleave. What happened
is kept in `history`, and the requests in the order they were submitted in `submitted`; no step
reads them.
-/

set_option autoImplicit false

namespace DalService.Storage

structure DurabilityConfig where
  maxPendingRequests : ℕ
  maxPendingBytes : ℕ
  deriving DecidableEq, Repr

/-- The default limits, with `MAX_PENDING_WAL_BYTES`. -/
def DurabilityConfig.default : DurabilityConfig where
  maxPendingRequests := 1024
  maxPendingBytes := 65 * 1024 * 1024

inductive WorkerStatus
  | running
  | failed (error : String)
  | stopped
  deriving DecidableEq, Repr

structure Reservation where
  id : ℕ
  chargedBytes : ℕ
  deriving DecidableEq, Repr

/-- A request with its reservation. `onWritten` says whether the caller waits for the write too. -/
structure WriteRequest where
  reservation : Reservation
  onWritten : Bool
  deriving DecidableEq, Repr

inductive Command
  | write (request : WriteRequest)
  | shutdown
  deriving DecidableEq, Repr

/-- Where the worker is. `batch` is what it has written and not reported yet; the shutdown flag says
that it stops after this flush. -/
inductive Worker
  | receiving
  | received (request : WriteRequest) (batch : List WriteRequest)
  | writing (request : WriteRequest) (batch : List WriteRequest)
  | collecting (batch : List WriteRequest)
  | collected (batch : List WriteRequest) (shutdown : Bool)
  | flushing (flush : ℕ) (batch : List WriteRequest) (shutdown : Bool)
  | flushed (flush : ℕ) (batch : List WriteRequest) (shutdown : Bool)
  | completing (batch : List WriteRequest) (shutdown : Bool)
  | rejecting (request : WriteRequest) (error : String) (batch : List WriteRequest)
  | recording (error : String) (batch : List WriteRequest)
  | failing (error : String) (batch : List WriteRequest)
  | draining (error : String)
  | stopping
  | exited
  deriving DecidableEq, Repr

/-- What is observed of the worker: writes and flushes that succeeded, the check that found no
failure after a flush, and the callbacks with their error. -/
inductive Happening
  | written (request : WriteRequest)
  | flushStarted (flush : ℕ)
  | flushSucceeded (flush : ℕ)
  | healthy (flush : ℕ)
  | onWritten (request : WriteRequest) (error : Option String)
  | onDurable (request : WriteRequest) (error : Option String)
  deriving DecidableEq, Repr

structure WalDurability where
  status : WorkerStatus
  pendingRequests : ℕ
  pendingBytes : ℕ
  peakPendingRequests : ℕ
  peakPendingBytes : ℕ
  held : List Reservation
  queue : List Command
  closed : Bool
  worker : Worker
  nextId : ℕ
  flushes : ℕ
  submitted : List WriteRequest
  history : List Happening
  deriving DecidableEq, Repr

inductive DurabilityEvent
  | reserve (bytes : ℕ)
  | release (reservation : Reservation)
  | submit (reservation : Reservation) (onWritten : Bool)
  | fail (error : String)
  | close
  | receive
  | check
  | write
  | writeFailed (error : String)
  | join
  | endCollect
  | flush
  | flushFailed (error : String)
  | complete
  | reject
  | record
  | drain
  | stop
  deriving DecidableEq, Repr

namespace WalDurability

/-- A coordinator whose worker waits for its first command. -/
def new : WalDurability where
  status := .running
  pendingRequests := 0
  pendingBytes := 0
  peakPendingRequests := 0
  peakPendingBytes := 0
  held := []
  queue := []
  closed := false
  worker := .receiving
  nextId := 0
  flushes := 0
  submitted := []
  history := []

variable (config : DurabilityConfig) (s : WalDurability)

/-- The failure recorded, if there is one. -/
def failure : Option String :=
  match s.status with
  | .failed error => some error
  | .running | .stopped => none

/-! ### Producers -/

/-- A reservation that fits the budget of a running worker; nothing while the budget is full. -/
def tryReserve (bytes : ℕ) : Except String (Option WalDurability) :=
  if config.maxPendingBytes < bytes then
    .error ("WAL batch of " ++ toString bytes ++ " bytes exceeds durability limit of " ++
      toString config.maxPendingBytes ++ " bytes")
  else
    match s.status with
    | .failed error => .error error
    | .stopped => .error "WAL durability coordinator stopped"
    | .running =>
      if s.pendingRequests < config.maxPendingRequests ∧
          s.pendingBytes + bytes ≤ config.maxPendingBytes then
        .ok (some { s with
          pendingRequests := s.pendingRequests + 1
          pendingBytes := s.pendingBytes + bytes
          peakPendingRequests := max s.peakPendingRequests (s.pendingRequests + 1)
          peakPendingBytes := max s.peakPendingBytes (s.pendingBytes + bytes)
          held := s.held ++ [⟨s.nextId, bytes⟩]
          nextId := s.nextId + 1 })
      else .ok none

/-- A producer of a coordinator in use gets a reservation. -/
def reserve (bytes : ℕ) : Option WalDurability :=
  if s.closed then none else (s.tryReserve config bytes).toOption.join

/-- A reservation is dropped. -/
def dropped (reservation : Reservation) : WalDurability :=
  { s with
    pendingRequests := s.pendingRequests - 1
    pendingBytes := s.pendingBytes - reservation.chargedBytes }

/-- A producer drops a reservation that it did not use. -/
def release (reservation : Reservation) : Option WalDurability :=
  if reservation ∈ s.held then
    some { s.dropped reservation with held := s.held.erase reservation }
  else none

/-- A request is queued. Where the worker has ended it comes back and is dropped. -/
def submit (reservation : Reservation) (onWritten : Bool) : Option WalDurability :=
  if reservation ∈ s.held ∧ ¬s.closed then
    let held := s.held.erase reservation
    if s.worker = .exited then some { s.dropped reservation with held := held }
    else if s.queue.length < config.maxPendingRequests then
      some { s with
        held := held
        queue := s.queue ++ [.write ⟨reservation, onWritten⟩]
        submitted := s.submitted ++ [⟨reservation, onWritten⟩] }
    else none
  else none

/-- Record a failure. The first one stays. -/
def fail (error : String) : WalDurability :=
  { s with status := if s.status = .running then .failed error else s.status }

/-- The coordinator is dropped: the last command goes to the worker, if it is still there. -/
def close : Option WalDurability :=
  if s.closed then none
  else if s.worker = .exited then some { s with closed := true }
  else if s.queue.length < config.maxPendingRequests then
    some { s with closed := true, queue := s.queue ++ [.shutdown] }
  else none

/-! ### The worker -/

/-- The worker waits for its next command. -/
def receive : Option WalDurability :=
  match s.worker, s.queue with
  | .receiving, .write request :: queue =>
    some { s with worker := .received request [], queue := queue }
  | .receiving, .shutdown :: queue => some { s with worker := .stopping, queue := queue }
  | .receiving, [] => if s.closed then some { s with worker := .stopping } else none
  | _, _ => none

/-- The worker looks at the recorded failure: before a write, before a flush, and after it. -/
def check : Option WalDurability :=
  match s.worker with
  | .received request batch =>
    match s.failure with
    | some error => some { s with worker := .rejecting request error batch }
    | none => some { s with worker := .writing request batch }
  | .collected batch shutdown =>
    match s.failure with
    | some error => some { s with worker := .failing error batch }
    | none => some { s with
        worker := .flushing s.flushes batch shutdown
        flushes := s.flushes + 1
        history := s.history ++ [.flushStarted s.flushes] }
  | .flushed flush batch shutdown =>
    match s.failure with
    | some error => some { s with worker := .failing error batch }
    | none => some { s with
        worker := .completing batch shutdown
        history := s.history ++ [.healthy flush] }
  | _ => none

/-- The callback for the write, where there is one. -/
def notifyWritten (request : WriteRequest) (error : Option String) : List Happening :=
  if request.onWritten then [.onWritten request error] else []

/-- A write succeeds: its caller is told, and the request joins the batch. -/
def write : Option WalDurability :=
  match s.worker with
  | .writing request batch => some { s with
      worker := .collecting (batch ++ [request])
      history := s.history ++ .written request :: notifyWritten request none }
  | _ => none

/-- Both callbacks of a request get the error, and its reservation is dropped. -/
def failUnwritten (request : WriteRequest) (error : String) : WalDurability :=
  { s.dropped request.reservation with
    history :=
      s.history ++ notifyWritten request (some error) ++ [.onDurable request (some error)] }

def writeFailed (error : String) : Option WalDurability :=
  match s.worker with
  | .writing request batch =>
    let message := "database WAL write failed: " ++ error
    some { s.failUnwritten request message with worker := .recording message batch }
  | _ => none

/-- The sum of the bytes charged for a batch. -/
def batchBytes (batch : List WriteRequest) : ℕ :=
  (batch.map fun request ↦ request.reservation.chargedBytes).sum

/-- The next command joins the batch, while there is room for it. -/
def join : Option WalDurability :=
  match s.worker, s.queue with
  | .collecting batch, command :: queue =>
    if batch.length < config.maxPendingRequests ∧ batchBytes batch < config.maxPendingBytes then
      match command with
      | .write request => some { s with worker := .received request batch, queue := queue }
      | .shutdown => some { s with worker := .collected batch true, queue := queue }
    else none
  | _, _ => none

/-- The worker stops collecting: the batch is full, the time is over or nothing else comes. -/
def endCollect : Option WalDurability :=
  match s.worker with
  | .collecting batch => some { s with worker := .collected batch (s.closed && s.queue.isEmpty) }
  | _ => none

def flush : Option WalDurability :=
  match s.worker with
  | .flushing flush batch shutdown => some { s with
      worker := .flushed flush batch shutdown
      history := s.history ++ [.flushSucceeded flush] }
  | _ => none

def flushFailed (error : String) : Option WalDurability :=
  match s.worker with
  | .flushing _ batch _ =>
    some { s with worker := .recording ("WAL flush failed: " ++ error) batch }
  | _ => none

/-- The next request of a batch is reported, and its reservation is dropped. -/
def completeOne (request : WriteRequest) (error : Option String) : WalDurability :=
  { s.dropped request.reservation with history := s.history ++ [.onDurable request error] }

/-- `complete_batch`, one request at a time. -/
def complete : Option WalDurability :=
  match s.worker with
  | .completing (request :: batch) shutdown =>
    some { s.completeOne request none with worker := .completing batch shutdown }
  | .completing [] shutdown => some { s with worker := if shutdown then .stopping else .receiving }
  | .failing error (request :: batch) =>
    some { s.completeOne request (some error) with worker := .failing error batch }
  | .failing error [] => some { s with worker := .draining error }
  | _ => none

def reject : Option WalDurability :=
  match s.worker with
  | .rejecting request error batch =>
    some { s.failUnwritten request error with worker := .failing error batch }
  | _ => none

def record : Option WalDurability :=
  match s.worker with
  | .recording error batch => some { s.fail error with worker := .failing error batch }
  | _ => none

/-- `fail_remaining`: one command, until no reservation is left or the queue is gone. -/
def drain : Option WalDurability :=
  match s.worker with
  | .draining error =>
    if s.pendingRequests = 0 then some { s with worker := .exited }
    else
      match s.queue with
      | .write request :: queue => some { s.failUnwritten request error with queue := queue }
      | .shutdown :: queue => some { s with queue := queue }
      | [] => if s.closed then some { s with worker := .exited } else none
  | _ => none

def stop : Option WalDurability :=
  match s.worker with
  | .stopping => some { s with
      worker := .exited
      status := if s.status = .running then .stopped else s.status }
  | _ => none

def step (s : WalDurability) : DurabilityEvent → Option WalDurability
  | .reserve bytes => s.reserve config bytes
  | .release reservation => s.release reservation
  | .submit reservation onWritten => s.submit config reservation onWritten
  | .fail error => some (s.fail error)
  | .close => s.close config
  | .receive => s.receive
  | .check => s.check
  | .write => s.write
  | .writeFailed error => s.writeFailed error
  | .join => s.join config
  | .endCollect => s.endCollect
  | .flush => s.flush
  | .flushFailed error => s.flushFailed error
  | .complete => s.complete
  | .reject => s.reject
  | .record => s.record
  | .drain => s.drain
  | .stop => s.stop

end WalDurability

end DalService.Storage
