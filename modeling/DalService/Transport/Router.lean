import DalService.Config
import DalService.Foundation.Returns
import DalService.Foundation.Semaphore
import DalService.Transport.Codec

/-!
# Admission at the router

A router socket (`transport/router.rs`) admits a request when it can take permits of the handlers,
of the bytes of its frame and of the bytes of its largest reply; a client takes the same permits
once more, of budgets of its own. The limits are read from the environment and checked
(`RouterLimits.fromEnv`): the budgets of the clients leave what the largest request of a peer needs.

Requests come in and handlers end in any order. The permits held and those available are together
the limits, and a client holds as much of its own budgets as of the common ones (`Router.Conserves`,
kept by `conserves_step`). Load of clients alone therefore never sheds a peer:
`client_load_never_sheds_peers`. One thread admits the requests of a socket, so an admission is one
step; a handler that ends while it runs only adds permits.
-/

set_option autoImplicit false

namespace DalService.Transport

open Foundation

/-! ### Limits -/

def MAX_HANDLERS : ℕ := 1024

def MAX_CLIENT_HANDLERS : ℕ := 768

def REPLY_BUDGET_MIB : ℕ := 512

def CONTROL_REQUEST_BUDGET_MIB : ℕ := 512

def BULK_REQUEST_BUDGET_MIB : ℕ := 512

def CONTROL_RECV_HWM : ℕ := 4096

def BULK_RECV_HWM : ℕ := 4

/-- `Semaphore::MAX_PERMITS`: all but three bits of a `usize`. -/
def MAX_PERMITS : ℕ := USIZE_BOUND / 8 - 1

def I32_MAX : ℕ := 2 ^ 31 - 1

/-- `usize::div_ceil`. -/
def divCeil (count size : ℕ) : ℕ := (count + size - 1) / size

/-- The largest reply to a request of this type, with its header. -/
def maxReplyBytes : MsgType → ℕ
  | .clientOp => MsgType.clientOp.maxPayload + 36
  | .directoryQuery => MsgType.directoryQuery.maxPayload + 36
  | .maintenanceQuery => MsgType.maintenanceQuery.maxPayload + 36
  | .maintenanceStatus => MsgType.maintenanceStatus.maxPayload + 36
  | .redirect => MsgType.redirect.maxPayload + 36
  | .metaQuery => MsgType.metaQuery.maxPayload + 36
  | .searchOp | .searchExecute => MsgType.searchOp.maxPayload + 36
  | .searchPrepare => MsgType.searchPrepare.maxPayload + 36
  | .searchCatalogQuery => MsgType.searchCatalogQuery.maxPayload + 36
  | .raftAppend | .raftVote | .raftSnapshot | .migrationChunk | .heartbeat | .becomeLearner
  | .dataConfigObservation | .bootstrapStatus | .placementQuery | .dataRecoveryFence
  | .transferLeadership => 4 * 1024 + 36
  | msgType => msgType.maxPayload + 36

/-- Whether frames of this type are served on the lane. -/
def Lane.serves (lane : Lane) (msgType : MsgType) : Bool := msgType.isBulk == (lane == .bulk)

/-- The reply capacity a peer needs on a lane, in MiB: over all tags, the largest reply to a type of
the control path of the nodes. -/
def peerReplyReserveMib (lane : Lane) : ℕ :=
  ((((List.range 256).filterMap fun tag ↦ MsgType.fromU8 tag.toUInt8).filter
    fun msgType ↦ msgType.isPeerControl && lane.serves msgType).map
    fun msgType ↦ divCeil (maxReplyBytes msgType) MIB).max?.getD 1

/-- `str::parse::<usize>`: digits after an optional plus sign, below the bound of the type. -/
def parseUsize (text : String) : Option ℕ :=
  let digits := match text.toList with
    | '+' :: rest => rest
    | characters => characters
  if digits ≠ [] ∧ digits.all Char.isDigit then
    let value := digits.foldl (fun value digit ↦ 10 * value + (digit.toNat - '0'.toNat)) 0
    if value < USIZE_BOUND then some value else none
  else none

/-- The variables of the environment. One that is not valid Unicode counts as absent, as it does for
`env_limit`. -/
abbrev Environment := String → Option String

def envLimit (env : Environment) (name : String) (default : ℕ) : Result ℕ :=
  match env name with
  | some value =>
    match (parseUsize value).filter (0 < ·) with
    | some limit => .ok limit
    | none => .error (.config (name ++ " must be a positive integer"))
  | none => .ok default

structure RouterLimits where
  totalHandlers : ℕ
  clientHandlers : ℕ
  replyBudgetMib : ℕ
  requestBudgetMib : ℕ
  clientRequestBudgetMib : ℕ
  clientReplyBudgetMib : ℕ
  recvHwm : ℕ
  deriving DecidableEq, Repr

def Lane.name : Lane → String
  | .control => "Control"
  | .bulk => "Bulk"

def Lane.requestBudgetMib (env : Environment) : Lane → Result ℕ
  | .control => envLimit env "DAL_ROUTER_CONTROL_REQUEST_BUDGET_MIB" CONTROL_REQUEST_BUDGET_MIB
  | .bulk => envLimit env "DAL_ROUTER_BULK_REQUEST_BUDGET_MIB" BULK_REQUEST_BUDGET_MIB

def Lane.recvHwm (env : Environment) : Lane → Result ℕ
  | .control => envLimit env "DAL_ROUTER_CONTROL_RECV_HWM" CONTROL_RECV_HWM
  | .bulk => envLimit env "DAL_ROUTER_BULK_RECV_HWM" BULK_RECV_HWM

/-- The limits of a lane, as the environment sets them. -/
def RouterLimits.fromEnv (env : Environment) (lane : Lane) : Result RouterLimits := do
  let totalHandlers ← envLimit env "DAL_ROUTER_MAX_HANDLERS" MAX_HANDLERS
  let clientHandlers ← envLimit env "DAL_ROUTER_MAX_CLIENT_HANDLERS" MAX_CLIENT_HANDLERS
  let replyBudgetMib ← envLimit env "DAL_ROUTER_REPLY_BUDGET_MIB" REPLY_BUDGET_MIB
  let requestBudgetMib ← lane.requestBudgetMib env
  let recvHwm ← lane.recvHwm env
  throwIf (totalHandlers ≤ clientHandlers)
    (.config "DAL_ROUTER_MAX_CLIENT_HANDLERS must be less than DAL_ROUTER_MAX_HANDLERS")
  throwIf (MAX_PERMITS < totalHandlers ∨ MAX_PERMITS < requestBudgetMib ∨
      MAX_PERMITS < replyBudgetMib ∨ I32_MAX < recvHwm)
    (.config "router limits exceed platform semaphore or socket bounds")
  let some requestBudgetBytes := checkedMul requestBudgetMib MIB
    | throw (.config "DAL_ROUTER_*_REQUEST_BUDGET_MIB is too large")
  throwIf (requestBudgetBytes < lane.maxFrameBytes)
    (.config ("the " ++ lane.name ++ " request budget must fit one maximum-size frame"))
  let peerRequestReserve := divCeil lane.maxFrameBytes MIB
  let peerReplyReserve := peerReplyReserveMib lane
  let clientRequestBudgetMib := requestBudgetMib - peerRequestReserve
  let clientReplyBudgetMib := replyBudgetMib - peerReplyReserve
  throwIf (lane = .control ∧
      (clientRequestBudgetMib < divCeil (MsgType.clientOp.maxPayload + 36) MIB ∨
        clientReplyBudgetMib < divCeil (maxReplyBytes .clientOp) MIB))
    (.config ("router byte budgets must fit one client operation plus " ++
      toString peerRequestReserve ++ " MiB of peer request capacity and " ++
      toString peerReplyReserve ++ " MiB of peer reply capacity"))
  throwIf (replyBudgetMib < peerReplyReserve)
    (.config ("router reply budget must reserve " ++ toString peerReplyReserve ++
      " MiB for peer traffic"))
  return ⟨totalHandlers, clientHandlers, replyBudgetMib, requestBudgetMib, clientRequestBudgetMib,
    clientReplyBudgetMib, recvHwm⟩

/-! ### Admission -/

/-- The six semaphores of a socket. -/
inductive Budget
  | total
  | clients
  | requestBytes
  | replyBytes
  | clientRequestBytes
  | clientReplyBytes
  deriving DecidableEq, Repr

/-- The permits each semaphore starts with. -/
def RouterLimits.budgets (limits : RouterLimits) : Permits Budget
  | .total => limits.totalHandlers
  | .clients => limits.clientHandlers
  | .requestBytes => limits.requestBudgetMib
  | .replyBytes => limits.replyBudgetMib
  | .clientRequestBytes => limits.clientRequestBudgetMib
  | .clientReplyBytes => limits.clientReplyBudgetMib

/-- `u32::try_from` of a number of MiB, at least one. -/
def mibPermits (bytes : ℕ) : Option ℕ :=
  let count := max (divCeil bytes MIB) 1
  if count < 2 ^ 32 then some count else none

/-- The byte budgets of a client. Both are tried before either result is read. -/
def tryAcquireClientBytes (client : Acquiring Budget) (requestMib replyMib : ℕ) :
    Except (Permits Budget) (Acquiring Budget) :=
  let request := client.take .clientRequestBytes requestMib
  let reply := (request.getD client).take .clientReplyBytes replyMib
  match request, reply with
  | some _, some tried => .ok tried
  | _, _ => .error (reply.getD (request.getD client)).drop

/-- An admission: what is acquired, or the permits available after a refusal. Every early return
drops what was acquired before it. -/
def tryAcquire (available : Permits Budget) (peer : Bool) (requestBytes maxReplyBytes : ℕ) :
    Except (Permits Budget) (Acquiring Budget) := do
  let total ← (Acquiring.start available).tryTake .total 1
  let client ← Acquiring.unlessSkipped peer total (total.tryTake .clients 1)
  match mibPermits requestBytes, mibPermits maxReplyBytes with
  | some requestMib, some replyMib =>
    let tried ← Acquiring.unlessSkipped peer client
      (tryAcquireClientBytes client requestMib replyMib)
    let requested ← tried.tryTake .requestBytes requestMib
    requested.tryTake .replyBytes replyMib
  | _, _ => .error client.drop

/-- The holders of a socket's permits, each with whether it is a peer. -/
abbrev Router := Pool Budget Bool

/-- What becomes of a frame. A frame of the other lane is dropped before admission. -/
inductive Dispatched
  | dropped
  | shed
  | admitted
  deriving DecidableEq, Repr

/-- One decoded frame: its type and its length in bytes. -/
def dispatch (lane : Lane) (router : Router) (msgType : MsgType) (frameBytes : ℕ) :
    Dispatched × Router :=
  if lane.serves msgType then
    match tryAcquire router.available msgType.isPeerControl frameBytes (maxReplyBytes msgType) with
    | .ok acquired => (.admitted, router.grant msgType.isPeerControl acquired)
    | .error available => (.shed, { router with available })
  else (.dropped, router)

def Router.bind (limits : RouterLimits) : Router := ⟨limits.budgets, []⟩

/-- A frame comes in, or a handler ends and its permits are dropped. -/
inductive RouterEvent
  | request (msgType : MsgType) (frameBytes : ℕ)
  | release (position : ℕ)
  deriving Repr

def Router.step (lane : Lane) (router : Router) : RouterEvent → Router
  | .request msgType frameBytes => (dispatch lane router msgType frameBytes).2
  | .release position => router.release position

def Router.run (lane : Lane) (limits : RouterLimits) (events : List RouterEvent) : Router :=
  events.foldl (Router.step lane) (Router.bind limits)

/-! ### What an admission takes -/

/-- The budget of the clients beside a common one. -/
def Budget.clientShare : Budget → Budget
  | .total => .clients
  | .requestBytes => .clientRequestBytes
  | .replyBytes => .clientReplyBytes
  | budget => budget

theorem keeps_tryAcquireClientBytes {available : Permits Budget} {client : Acquiring Budget}
    (hdrop : client.drop = available) (requestMib replyMib : ℕ) :
    Acquiring.Keeps available
      (fun tried ↦ tried.held = client.held + Pi.single .clientRequestBytes requestMib +
        Pi.single .clientReplyBytes replyMib)
      (tryAcquireClientBytes client requestMib replyMib) := by
  unfold tryAcquireClientBytes
  cases hrequest : client.take .clientRequestBytes requestMib with
  | none =>
    simp only [Option.getD_none]
    cases hreply : client.take .clientReplyBytes replyMib with
    | none => exact hdrop
    | some tried => exact (Acquiring.drop_take hreply).trans hdrop
  | some requested =>
    simp only [Option.getD_some]
    have hrequested := (Acquiring.drop_take hrequest).trans hdrop
    cases hreply : requested.take .clientReplyBytes replyMib with
    | none => exact hrequested
    | some tried =>
      refine ⟨(Acquiring.drop_take hreply).trans hrequested, ?_⟩
      simp only [Acquiring.held_take hreply, Acquiring.held_take hrequest]

/-- The permits of an admitted request: one handler, and its frame and its largest reply in MiB; a
client has as many of its own budgets. -/
def admissionPermits (peer : Bool) (requestBytes maxReplyBytes : ℕ) : Permits Budget
  | .total => 1
  | .requestBytes => max (divCeil requestBytes MIB) 1
  | .replyBytes => max (divCeil maxReplyBytes MIB) 1
  | .clients => if peer then 0 else 1
  | .clientRequestBytes => if peer then 0 else max (divCeil requestBytes MIB) 1
  | .clientReplyBytes => if peer then 0 else max (divCeil maxReplyBytes MIB) 1

theorem eq_of_mibPermits {bytes count : ℕ} (h : mibPermits bytes = some count) :
    count = max (divCeil bytes MIB) 1 := by
  unfold mibPermits at h
  dsimp only at h
  split_ifs at h
  exact (Option.some.inj h).symm

/-- A refusal leaves the permits it found, and an admitted request holds its permits. -/
theorem keeps_tryAcquire (available : Permits Budget) (peer : Bool)
    (requestBytes maxReplyBytes : ℕ) :
    Acquiring.Keeps available
      (fun acquired ↦ acquired.held = admissionPermits peer requestBytes maxReplyBytes)
      (tryAcquire available peer requestBytes maxReplyBytes) := by
  refine Acquiring.keeps_bind
    (Acquiring.keeps_tryTake (Acquiring.drop_start available) .total 1) fun total htotal hheld ↦ ?_
  refine Acquiring.keeps_bind
    (Acquiring.keeps_unlessSkipped peer htotal (Acquiring.keeps_tryTake htotal .clients 1))
    fun client hclient hclientHeld ↦ ?_
  cases hrequest : mibPermits requestBytes with
  | none => exact hclient
  | some requestMib =>
    cases hreply : mibPermits maxReplyBytes with
    | none => exact hclient
    | some replyMib =>
      refine Acquiring.keeps_bind (Acquiring.keeps_unlessSkipped peer hclient
        (keeps_tryAcquireClientBytes hclient requestMib replyMib)) fun tried htried htriedHeld ↦ ?_
      refine Acquiring.keeps_bind (Acquiring.keeps_tryTake htried .requestBytes requestMib)
        fun requested hrequested hrequestedHeld ↦ ?_
      refine Acquiring.keeps_mono (Acquiring.keeps_tryTake hrequested .replyBytes replyMib)
        fun acquired hacquired ↦ ?_
      rw [hacquired, hrequestedHeld, eq_of_mibPermits hrequest, eq_of_mibPermits hreply]
      funext budget
      cases peer with
      | true =>
        obtain rfl : tried = client := htriedHeld
        obtain rfl : tried = total := hclientHeld
        cases budget <;> simp [admissionPermits, hheld, Acquiring.start]
      | false =>
        simp only [Bool.false_eq_true, if_false] at htriedHeld hclientHeld
        rw [htriedHeld, hclientHeld, hheld, eq_of_mibPermits hrequest, eq_of_mibPermits hreply]
        cases budget <;> simp [admissionPermits, Acquiring.start]

/-- A peer is admitted when the common budgets have what it asks for. -/
theorem exists_tryAcquire_peer (available : Permits Budget)
    {requestBytes maxReplyBytes requestMib replyMib : ℕ}
    (hrequestMib : mibPermits requestBytes = some requestMib)
    (hreplyMib : mibPermits maxReplyBytes = some replyMib) (htotal : 1 ≤ available .total)
    (hrequest : requestMib ≤ available .requestBytes) (hreply : replyMib ≤ available .replyBytes) :
    ∃ acquired, tryAcquire available true requestBytes maxReplyBytes = .ok acquired := by
  obtain ⟨total, htaken⟩ : ∃ total, (Acquiring.start available).take .total 1 = some total :=
    ⟨_, Acquiring.take_eq_some_iff.mpr ⟨htotal, rfl⟩⟩
  have htotalRequest : total.available .requestBytes = available .requestBytes :=
    Acquiring.available_take_of_ne htaken (by decide)
  have htotalReply : total.available .replyBytes = available .replyBytes :=
    Acquiring.available_take_of_ne htaken (by decide)
  obtain ⟨requested, hrequested⟩ :
      ∃ requested, total.take .requestBytes requestMib = some requested :=
    ⟨_, Acquiring.take_eq_some_iff.mpr ⟨by rwa [htotalRequest], rfl⟩⟩
  have hrequestedReply : requested.available .replyBytes = total.available .replyBytes :=
    Acquiring.available_take_of_ne hrequested (by decide)
  obtain ⟨acquired, hacquired⟩ :
      ∃ acquired, requested.take .replyBytes replyMib = some acquired :=
    ⟨_, Acquiring.take_eq_some_iff.mpr ⟨by rwa [hrequestedReply, htotalReply], rfl⟩⟩
  exact ⟨acquired, by
    simp [tryAcquire, Acquiring.unlessSkipped, hrequestMib, hreplyMib,
      Acquiring.tryTake_of_take htaken,
      Acquiring.tryTake_of_take hrequested, Acquiring.tryTake_of_take hacquired]⟩

/-! ### Runs -/

/-- The permits are all there, and each client holds as much of its own budgets as of the common
ones. -/
structure Router.Conserves (limits : RouterLimits) (router : Router) : Prop where
  total : router.total = limits.budgets
  clients : ∀ entry ∈ router.held, entry.1 = false →
    ∀ budget, entry.2 budget.clientShare = entry.2 budget

theorem conserves_bind (limits : RouterLimits) : (Router.bind limits).Conserves limits :=
  ⟨by simp [Router.bind, Pool.total, Pool.inUse], by simp [Router.bind]⟩

/-- A frame that is not admitted changes nothing, and one that is takes its permits. -/
theorem dispatch_cases (lane : Lane) (router : Router) (msgType : MsgType) (frameBytes : ℕ) :
    (∃ outcome ≠ .admitted, dispatch lane router msgType frameBytes = (outcome, router)) ∨
      ∃ acquired : Acquiring Budget,
        dispatch lane router msgType frameBytes =
          (.admitted, router.grant msgType.isPeerControl acquired) ∧
        acquired.drop = router.available ∧
        acquired.held =
          admissionPermits msgType.isPeerControl frameBytes (maxReplyBytes msgType) := by
  unfold dispatch
  by_cases hserves : lane.serves msgType
  · rw [if_pos hserves]
    have hkeeps := keeps_tryAcquire router.available msgType.isPeerControl frameBytes
      (maxReplyBytes msgType)
    cases hresult : tryAcquire router.available msgType.isPeerControl frameBytes
      (maxReplyBytes msgType) with
    | error left =>
      rw [hresult] at hkeeps
      exact .inl ⟨.shed, by decide, congrArg (fun a ↦ (_, Pool.mk a router.held)) hkeeps⟩
    | ok acquired =>
      rw [hresult] at hkeeps
      exact .inr ⟨acquired, rfl, hkeeps⟩
  · rw [if_neg hserves]
    exact .inl ⟨.dropped, by decide, rfl⟩

/-- An admitted request holds its permits until its handler ends. -/
theorem held_of_admitted {lane : Lane} {router : Router} {msgType : MsgType} {frameBytes : ℕ}
    (h : (dispatch lane router msgType frameBytes).1 = .admitted) :
    (dispatch lane router msgType frameBytes).2.held = router.held ++ [(msgType.isPeerControl,
      admissionPermits msgType.isPeerControl frameBytes (maxReplyBytes msgType))] := by
  obtain ⟨outcome, hrefused, heq⟩ | ⟨acquired, heq, -, hheld⟩ :=
    dispatch_cases lane router msgType frameBytes
  · rw [heq] at h
    exact absurd h hrefused
  · rw [heq, ← hheld]
    rfl

theorem conserves_dispatch {limits : RouterLimits} {router : Router}
    (hrouter : router.Conserves limits) (lane : Lane) (msgType : MsgType) (frameBytes : ℕ) :
    ((dispatch lane router msgType frameBytes).2).Conserves limits := by
  obtain ⟨outcome, -, heq⟩ | ⟨acquired, heq, hdrop, -⟩ :=
    dispatch_cases lane router msgType frameBytes
  · rwa [heq]
  · refine ⟨?_, fun entry hentry hclient budget ↦ ?_⟩
    · rw [heq]
      exact (Pool.total_grant router _ hdrop).trans hrouter.total
    · rw [held_of_admitted (congrArg Prod.fst heq)] at hentry
      obtain hold | hnew := List.mem_append.mp hentry
      · exact hrouter.clients entry hold hclient budget
      · obtain rfl := List.mem_singleton.mp hnew
        dsimp only at hclient ⊢
        cases budget <;> simp [Budget.clientShare, admissionPermits, hclient]

theorem conserves_step {limits : RouterLimits} {router : Router}
    (hrouter : router.Conserves limits) (lane : Lane) (event : RouterEvent) :
    (router.step lane event).Conserves limits := by
  cases event with
  | request msgType frameBytes => exact conserves_dispatch hrouter lane msgType frameBytes
  | release position =>
    exact ⟨(Pool.total_release router position).trans hrouter.total,
      fun entry hentry ↦ hrouter.clients entry (Pool.mem_held_of_release hentry)⟩

theorem conserves_run (lane : Lane) (limits : RouterLimits) (events : List RouterEvent) :
    (Router.run lane limits events).Conserves limits := by
  unfold Router.run
  induction events using List.reverseRecOn with
  | nil => exact conserves_bind limits
  | append_singleton events event ih =>
    rw [List.foldl_append]
    exact conserves_step ih lane event

/-- With no peer admitted, what a budget leaves beside the share of the clients is available. -/
theorem Router.Conserves.reserve_le {limits : RouterLimits} {router : Router}
    (hrouter : router.Conserves limits) (hclients : ∀ entry ∈ router.held, entry.1 = false)
    (budget : Budget) :
    limits.budgets budget ≤ router.available budget + limits.budgets budget.clientShare := by
  have hshare : router.inUse budget.clientShare = router.inUse budget :=
    Pool.inUse_congr fun entry hentry ↦
      hrouter.clients entry hentry (hclients entry hentry) budget
  have hbudget := congrFun hrouter.total budget
  have hclient := congrFun hrouter.total budget.clientShare
  simp only [Pool.total, Pi.add_apply] at hbudget hclient
  omega

/-! ### Reserves of the limits -/

theorem divCeil_le_divCeil {first second : ℕ} (h : first ≤ second) (size : ℕ) :
    divCeil first size ≤ divCeil second size :=
  Nat.div_le_div_right (by omega)

theorem divCeil_le_of_le_mul {count size bound : ℕ} (hsize : 0 < size)
    (h : count ≤ bound * size) : divCeil count size ≤ bound :=
  Nat.le_of_lt_succ ((Nat.div_lt_iff_lt_mul hsize).mpr (by rw [Nat.succ_mul]; omega))

/-- The reserve covers the reply to every type of the control path the lane serves. -/
theorem divCeil_maxReplyBytes_le {lane : Lane} {msgType : MsgType}
    (hpeer : msgType.isPeerControl = true) (hserves : lane.serves msgType = true) :
    divCeil (maxReplyBytes msgType) MIB ≤ peerReplyReserveMib lane := by
  unfold peerReplyReserveMib
  set replies := (((List.range 256).filterMap fun tag ↦ MsgType.fromU8 tag.toUInt8).filter
    fun msgType ↦ msgType.isPeerControl && lane.serves msgType).map
    fun msgType ↦ divCeil (maxReplyBytes msgType) MIB with hreplies
  have hmem : divCeil (maxReplyBytes msgType) MIB ∈ replies := by
    refine List.mem_map_of_mem (List.mem_filter.mpr ⟨?_, by simp [hpeer, hserves]⟩)
    refine List.mem_filterMap.mpr ⟨msgType.toU8.toNat, ?_, ?_⟩
    · exact List.mem_range.mpr msgType.toU8.toNat_lt
    · simpa using MsgType.fromU8_toU8 msgType
  exact List.le_max?_getD_of_mem hmem

theorem peerReplyReserveMib_bounds (lane : Lane) :
    1 ≤ peerReplyReserveMib lane ∧ peerReplyReserveMib lane < 2 ^ 32 := by
  cases lane <;> decide

/-- What the checks of the limits leave to the peers. -/
theorem reserves_of_fromEnv {env : Environment} {lane : Lane} {limits : RouterLimits}
    (h : RouterLimits.fromEnv env lane = .ok limits) :
    limits.clientHandlers < limits.totalHandlers ∧
      limits.clientRequestBudgetMib + divCeil lane.maxFrameBytes MIB = limits.requestBudgetMib ∧
      limits.clientReplyBudgetMib + peerReplyReserveMib lane = limits.replyBudgetMib := by
  unfold RouterLimits.fromEnv at h
  obtain ⟨totalHandlers, -, h⟩ := bind_eq_ok_iff.mp h
  obtain ⟨clientHandlers, -, h⟩ := bind_eq_ok_iff.mp h
  obtain ⟨replyBudgetMib, -, h⟩ := bind_eq_ok_iff.mp h
  obtain ⟨requestBudgetMib, -, h⟩ := bind_eq_ok_iff.mp h
  obtain ⟨recvHwm, -, h⟩ := bind_eq_ok_iff.mp h
  obtain ⟨_, hhandlers, h⟩ := bind_eq_ok_iff.mp h
  obtain ⟨_, -, h⟩ := bind_eq_ok_iff.mp h
  cases hbytes : checkedMul requestBudgetMib MIB with
  | none =>
    rw [hbytes] at h
    cases h
  | some requestBudgetBytes =>
    rw [hbytes] at h
    obtain ⟨_, hframe, h⟩ := bind_eq_ok_iff.mp h
    obtain ⟨_, -, h⟩ := bind_eq_ok_iff.mp h
    obtain ⟨_, hreply, h⟩ := bind_eq_ok_iff.mp h
    obtain rfl := Except.ok.inj h
    have hrequest : divCeil lane.maxFrameBytes MIB ≤ requestBudgetMib := by
      refine divCeil_le_of_le_mul (by decide) ?_
      rw [throwIf_eq_ok_iff, not_lt] at hframe
      unfold checkedMul at hbytes
      split_ifs at hbytes
      rwa [Option.some.inj hbytes]
    rw [throwIf_eq_ok_iff, not_le] at hhandlers
    rw [throwIf_eq_ok_iff, not_lt] at hreply
    exact ⟨hhandlers, Nat.sub_add_cancel hrequest, Nat.sub_add_cancel hreply⟩

/-- A number of bytes below that of a reserve takes no more permits than the reserve has. -/
theorem mibPermits_eq_some {bytes reserve : ℕ} (hbytes : divCeil bytes MIB ≤ reserve)
    (hpositive : 1 ≤ reserve) (hreserve : reserve < 2 ^ 32) :
    ∃ count, mibPermits bytes = some count ∧ count ≤ reserve := by
  have hcount : max (divCeil bytes MIB) 1 ≤ reserve := max_le hbytes hpositive
  exact ⟨_, if_pos (hcount.trans_lt hreserve), hcount⟩

/-- In every state in which no peer is admitted a request of a peer is admitted, whatever the
clients hold. -/
theorem dispatch_peer {env : Environment} {lane : Lane} {limits : RouterLimits}
    (hlimits : RouterLimits.fromEnv env lane = .ok limits) {router : Router}
    (hrouter : router.Conserves limits) (hclients : ∀ entry ∈ router.held, entry.1 = false)
    {msgType : MsgType} (hpeer : msgType.isPeerControl = true)
    (hserves : lane.serves msgType = true) {frameBytes : ℕ}
    (hframe : frameBytes ≤ lane.maxFrameBytes) :
    (dispatch lane router msgType frameBytes).1 = .admitted := by
  obtain ⟨hhandlers, hrequest, hreply⟩ := reserves_of_fromEnv hlimits
  obtain ⟨requestMib, hrequestMib, hrequestLe⟩ :=
    mibPermits_eq_some (divCeil_le_divCeil hframe MIB) (by cases lane <;> decide)
      (by cases lane <;> decide)
  obtain ⟨replyMib, hreplyMib, hreplyLe⟩ :=
    mibPermits_eq_some (divCeil_maxReplyBytes_le hpeer hserves) (peerReplyReserveMib_bounds lane).1
      (peerReplyReserveMib_bounds lane).2
  have htotal := hrouter.reserve_le hclients .total
  have hbytes := hrouter.reserve_le hclients .requestBytes
  have hreplyBytes := hrouter.reserve_le hclients .replyBytes
  simp only [RouterLimits.budgets, Budget.clientShare] at htotal hbytes hreplyBytes
  obtain ⟨acquired, hacquired⟩ := exists_tryAcquire_peer router.available hrequestMib hreplyMib
    (by omega) (by omega) (by omega)
  simp [dispatch, hserves, hpeer, hacquired]

/-- Client load never sheds the traffic of the nodes. With any limits the environment sets and after
any requests and releases, a request of a peer is admitted when no other peer holds permits; no
budget is exceeded; and a request that is refused leaves the budgets as they were. -/
theorem client_load_never_sheds_peers (env : Environment) (lane : Lane) (limits : RouterLimits)
    (hlimits : RouterLimits.fromEnv env lane = .ok limits) (events : List RouterEvent) :
    let router := Router.run lane limits events
    ((∀ entry ∈ router.held, entry.1 = false) →
      ∀ (msgType : MsgType) (frameBytes : ℕ), msgType.isPeerControl = true →
        lane.serves msgType = true → frameBytes ≤ lane.maxFrameBytes →
        (dispatch lane router msgType frameBytes).1 = .admitted) ∧
      (∀ budget, router.inUse budget ≤ limits.budgets budget) ∧
      ∀ (msgType : MsgType) (frameBytes : ℕ),
        (dispatch lane router msgType frameBytes).1 ≠ .admitted →
        (dispatch lane router msgType frameBytes).2 = router := by
  intro router
  have hrouter : router.Conserves limits := conserves_run lane limits events
  refine ⟨fun hclients msgType frameBytes hpeer hserves hframe ↦
    dispatch_peer hlimits hrouter hclients hpeer hserves hframe, fun budget ↦ ?_,
    fun msgType frameBytes hrefused ↦ ?_⟩
  · exact (router.inUse_le_total budget).trans_eq (congrFun hrouter.total budget)
  · obtain ⟨outcome, -, heq⟩ | ⟨acquired, heq, -, -⟩ :=
      dispatch_cases lane router msgType frameBytes
    · rw [heq]
    · exact absurd (congrArg Prod.fst heq) hrefused

/-- The limits of the control lane when the environment sets none. -/
def defaultLimits : RouterLimits := ⟨1024, 768, 512, 512, 447, 479, 4096⟩

/-- Two clients hold permits, one with the largest reply there is, and the largest frame of a peer
is admitted. -/
theorem client_load_never_sheds_peers_two_clients :
    RouterLimits.fromEnv (fun _ ↦ none) .control = .ok defaultLimits ∧
      (dispatch .control
        (Router.run .control defaultLimits [.request .clientOp 4096, .request .searchOp 100000])
        .raftAppend MAX_CONTROL_FRAME_BYTES).1 = .admitted := by
  have hlimits : RouterLimits.fromEnv (fun _ ↦ none) .control = .ok defaultLimits := by rfl
  exact ⟨hlimits, (client_load_never_sheds_peers _ _ _ hlimits
    [.request .clientOp 4096, .request .searchOp 100000]).1 (by decide) _ _ rfl rfl le_rfl⟩

end DalService.Transport
