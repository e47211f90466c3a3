import DalService.Meta.Bootstrap
import DalService.Runtime.Discovery
import DalService.Transport.AddrBook

/-!
# The registration of a process

A node process serves under a registration: the entry of its node in the replicated directory, with
its endpoints and its incarnation. Before it serves it resolves the registration (`runtime/node.rs`)
and records it durably (`storage/rocks.rs`); while it serves it compares it with the directory it
reads (`runtime/rebalance.rs`), and fences itself when the directory says otherwise, or when it no
longer lists the node. A genesis node may start before there is a directory, at incarnation one with
the endpoints of the bootstrap descriptor.

`World` has the committed log of the meta group and any number of hosts, each with its own data
directory; hosts may claim the same node. Entries are committed, processes start, refresh and stop
in any order, and a read may see any state the meta group has had. `registration_safe` says that two
processes of one node at one incarnation have one pair of endpoints, but for a genesis node whose
first registration was not the descriptor's, that a recorded registration only gives way to a later
incarnation, and that no process starts on a data directory whose node was seen to be retired.
-/

set_option autoImplicit false

namespace DalService.Runtime

open Foundation DalService.Meta Keyspace Transport

/-! ### Recording a registration -/

structure RegistrationBinding where
  clusterId : ClusterId
  nodeId : NodeId
  controlAddr : String
  bulkAddr : String
  directoryIncarnation : UInt64
  deriving DecidableEq, Repr

def RegistrationBinding.matchesEndpoints (binding : RegistrationBinding)
    (controlAddr bulkAddr : String) : Bool :=
  binding.controlAddr == controlAddr && binding.bulkAddr == bulkAddr

/-- The node-local records of a data directory that a registration reads and writes. -/
structure LocalRecords where
  identity : Option Identity
  binding : Option RegistrationBinding
  retired : Bool
  deriving DecidableEq, Repr

/-- Why a process does not start. -/
inductive StartError
  | identityMismatch (found want : Identity)
  | failed (error : Error)
  deriving DecidableEq, Repr

def refuse {T : Type} (message : String) : Except StartError T := .error (.failed (.config message))

def recordRegistrationBinding (records : LocalRecords) (binding : RegistrationBinding) :
    Except StartError LocalRecords :=
  match records.identity with
  | none => refuse "registration binding requires a bound node identity"
  | some identity =>
    if binding.clusterId ≠ identity.clusterId ∨ binding.nodeId ≠ identity.nodeId then
      .error (.identityMismatch identity ⟨binding.clusterId, binding.nodeId⟩)
    else if binding.directoryIncarnation = 0 then
      refuse "registration binding incarnation must be non-zero"
    else match records.binding with
      | none => .ok { records with binding := some binding }
      | some previous =>
        if binding.directoryIncarnation < previous.directoryIncarnation then
          refuse ("registration incarnation regressed from " ++
            toString previous.directoryIncarnation ++ " to " ++
              toString binding.directoryIncarnation)
        else if binding.directoryIncarnation = previous.directoryIncarnation then
          if binding = previous then .ok records
          else refuse ("registration endpoints conflict at incarnation " ++
            toString binding.directoryIncarnation)
        else .ok { records with binding := some binding }

/-! ### Resolving a registration -/

/-- What a start reads of the configuration of the node. -/
structure StartConfig where
  clusterId : ClusterId
  nodeId : NodeId
  controlAddr : String
  bulkAddr : String
  deriving DecidableEq, Repr

/-- Whether the descriptor has the node with its endpoints. -/
def inGenesis (desc : BootstrapDescriptor) (cfg : StartConfig) : Bool :=
  desc.directory.any fun entry ↦ entry.nodeId == cfg.nodeId &&
    entry.controlAddr == cfg.controlAddr && entry.bulkAddr == cfg.bulkAddr

/-- `adopted` is what `adopt_recovery_epoch` gives for the epoch of the state. -/
def bindAuthoritativeRegistration (cfg : StartConfig) (records : LocalRecords)
    (state : DirectoryState) (adopted : Result Unit) :
    Except StartError (LocalRecords × RegistrationBinding) :=
  match state.directory.find? fun entry ↦ entry.nodeId = cfg.nodeId with
  | none => refuse ("node " ++ toString cfg.nodeId ++
      " is not present in the authoritative directory; run dal join first")
  | some entry =>
    if entry.controlAddr ≠ cfg.controlAddr ∨ entry.bulkAddr ≠ cfg.bulkAddr then
      refuse ("node " ++ toString cfg.nodeId ++
        " config endpoints do not match its authoritative registration")
    else match adopted with
      | .error error => .error (.failed error)
      | .ok () =>
        let binding : RegistrationBinding :=
          { clusterId := cfg.clusterId, nodeId := cfg.nodeId, controlAddr := entry.controlAddr,
            bulkAddr := entry.bulkAddr, directoryIncarnation := entry.incarnation }
        (recordRegistrationBinding records binding).map fun records ↦ (records, binding)

/-- The registration of a genesis node before there is a directory. -/
def genesisBinding (cfg : StartConfig) : RegistrationBinding :=
  { clusterId := cfg.clusterId, nodeId := cfg.nodeId, controlAddr := cfg.controlAddr,
    bulkAddr := cfg.bulkAddr, directoryIncarnation := 1 }

/-- Whether a state has the node. -/
def DirectoryState.lists (state : DirectoryState) (nodeId : NodeId) : Bool :=
  state.directory.any fun entry ↦ entry.nodeId == nodeId

/-- `fetched` is the authoritative directory, or the error of the query. -/
def resolveRegistrationBinding (cfg : StartConfig) (desc : BootstrapDescriptor)
    (records : LocalRecords) (fetched : Result DirectoryState) (adopted : Result Unit) :
    Except StartError (LocalRecords × RegistrationBinding) :=
  if records.retired then refuse "node identity has been retired"
  else match records.binding with
    | some previous =>
      if previous.matchesEndpoints cfg.controlAddr cfg.bulkAddr then
        match fetched with
        | .error _ => .ok (records, previous)
        | .ok state =>
          -- Genesis may have initialized the cluster before it registered this node.
          if !state.bootstrapComplete && !state.lists cfg.nodeId &&
              previous.directoryIncarnation == 1 && inGenesis desc cfg then
            .ok (records, previous)
          else bindAuthoritativeRegistration cfg records state adopted
      else match fetched with
        | .error error => .error (.failed error)
        | .ok state => bindAuthoritativeRegistration cfg records state adopted
    | none =>
      if inGenesis desc cfg then
        match fetched with
        | .ok state =>
          if state.bootstrapComplete || state.lists cfg.nodeId then
            bindAuthoritativeRegistration cfg records state adopted
          else (recordRegistrationBinding records (genesisBinding cfg)).map
            fun records ↦ (records, genesisBinding cfg)
        | .error _ => (recordRegistrationBinding records (genesisBinding cfg)).map
            fun records ↦ (records, genesisBinding cfg)
      else match fetched with
        | .error error => .error (.failed error)
        | .ok state => bindAuthoritativeRegistration cfg records state adopted

/-! ### The directory -/

/-- The state a leader reads behind its barrier. -/
def readDirectoryState (s : Storage) : Result DirectoryState := do
  let directory ← MetaStateMachine.directory s
  let recoveryEpoch ← s.recoveryEpoch
  let cluster ← MetaStateMachine.cluster s
  let bootstrapComplete := cluster.any fun config ↦ (List.range config.p.toNat).all fun partition ↦
    (s.state[metaPlacementKey (.data (UInt16.ofNat partition))]?).isSome
  return { directory, recoveryEpoch, bootstrapComplete }

/-! ### Processes -/

structure NodeProcess where
  registration : RegistrationBinding
  fenced : Bool
  deriving DecidableEq, Repr

structure Host where
  records : LocalRecords
  process : Option NodeProcess
  deriving DecidableEq, Repr

/-- What a running process does with an authoritative directory. `persisted` says whether the write
of the retirement succeeds. -/
def mergeAuthoritativeDirectory (host : Host) (process : NodeProcess) (state : DirectoryState)
    (persisted : Bool) (adopted : Result Unit) : Host :=
  let fence (records : LocalRecords) : Host :=
    { records, process := some { process with fenced := true } }
  match state.directory.find? fun entry ↦ entry.nodeId = process.registration.nodeId with
  | none =>
    if state.bootstrapComplete then
      fence { host.records with retired := host.records.retired || persisted }
    else match adopted with
      | .error _ => fence host.records
      | .ok () => host
  | some entry =>
    if entry.incarnation ≠ process.registration.directoryIncarnation ∨
        ¬process.registration.matchesEndpoints entry.controlAddr entry.bulkAddr then
      fence host.records
    else match adopted with
      | .error _ => fence host.records
      | .ok () => host

/-- The committed log of the meta group, and the hosts. -/
structure World where
  log : List Entry
  hosts : List Host

inductive WorldEvent
  | commit (entry : Entry)
  /-- `read` is the number of entries behind what the query saw, if it got an answer. -/
  | start (h : ℕ) (controlAddr bulkAddr : String) (read : Option ℕ) (adopted : Result Unit)
  | refresh (h read : ℕ) (persisted : Bool) (adopted : Result Unit)
  | stop (h : ℕ)

section World

variable (prims : Primitives) (identity : Option Identity) (epoch : Option (BitVec 128))
  (desc : BootstrapDescriptor)

namespace World

def setHost (w : World) (h : ℕ) (host : Host) : World := { w with hosts := w.hosts.set h host }

/-- What a query gives that saw the meta group after so many entries. -/
def fetch (w : World) (read : Option ℕ) : Result DirectoryState := do
  match read with
  | some n =>
    let (_, s) ← run (Meta.step prims) (emptyStorage identity epoch) (w.log.take n)
    readDirectoryState s
  | none => .error noLeader

def startHost (w : World) (h : ℕ) (host : Host) (bound : Identity) (controlAddr bulkAddr : String)
    (read : Option ℕ) (adopted : Result Unit) : World :=
  let cfg : StartConfig := { clusterId := bound.clusterId, nodeId := bound.nodeId,
                             controlAddr, bulkAddr }
  match resolveRegistrationBinding cfg desc host.records
    (w.fetch prims identity epoch read) adopted with
  | .error _ => w
  | .ok (records, registration) =>
    w.setHost h { records, process := some { registration, fenced := false } }

def step (w : World) : WorldEvent → Option World
  | .commit entry => some { w with log := w.log ++ [entry] }
  | .start h controlAddr bulkAddr read adopted => do
    let host ← w.hosts[h]?
    let bound ← host.records.identity
    if host.process.isSome then none
    else some (w.startHost prims identity epoch desc h host bound controlAddr bulkAddr read adopted)
  | .refresh h read persisted adopted => do
    let host ← w.hosts[h]?
    let process ← host.process
    let state ← (w.fetch prims identity epoch (some read)).toOption
    some (w.setHost h (mergeAuthoritativeDirectory host process state persisted adopted))
  | .stop h => do
    let host ← w.hosts[h]?
    some (w.setHost h { host with process := none })

end World

end World

/-! ### Recorded registrations -/

/-- A registration may follow the one recorded before: it is the same, or of a later incarnation. -/
def Follows (previous : Option RegistrationBinding) (binding : RegistrationBinding) : Prop :=
  ∀ before, previous = some before →
    before = binding ∨ before.directoryIncarnation < binding.directoryIncarnation

theorem follows_self (binding : RegistrationBinding) : Follows (some binding) binding :=
  fun _ hbefore ↦ .inl (Option.some.inj hbefore).symm

theorem recordRegistrationBinding_eq_ok {records next : LocalRecords}
    {binding : RegistrationBinding} (h : recordRegistrationBinding records binding = .ok next) :
    next = { records with binding := some binding } ∧ Follows records.binding binding := by
  unfold recordRegistrationBinding at h
  split at h
  · cases h
  · split at h
    · cases h
    · split at h
      · cases h
      · split at h
        · next hnone =>
          cases h
          exact ⟨rfl, by simp [Follows, hnone]⟩
        · next previous hprevious =>
          split at h
          · cases h
          · next hnotless =>
            split at h
            · split at h
              · next hsame =>
                cases h
                subst hsame
                exact ⟨by rw [← hprevious], hprevious ▸ follows_self binding⟩
              · cases h
            · next hne =>
              cases h
              refine ⟨rfl, fun before hbefore ↦ .inr ?_⟩
              obtain rfl : previous = before := Option.some.inj (hprevious.symm.trans hbefore)
              rw [← UInt64.toNat_inj] at hne
              rw [UInt64.lt_iff_toNat_lt] at hnotless ⊢
              omega

/-- Where a registration comes from: the entry of the node in a directory, or the descriptor. -/
inductive Source (desc : BootstrapDescriptor) (cfg : StartConfig)
    (fetched : Result DirectoryState) :
    RegistrationBinding → Prop
  | authority (state : DirectoryState) (entry : NodeDirectoryEntry) (hfetched : fetched = .ok state)
      (hentry : entry ∈ state.directory) (hid : entry.nodeId = cfg.nodeId) :
    Source desc cfg fetched
      { clusterId := cfg.clusterId, nodeId := cfg.nodeId, controlAddr := entry.controlAddr,
        bulkAddr := entry.bulkAddr, directoryIncarnation := entry.incarnation }
  | genesis (hgenesis : inGenesis desc cfg) : Source desc cfg fetched (genesisBinding cfg)

/-- What a start that succeeds leaves: the registration it runs under is recorded, as the one
recorded before or as one that follows it. -/
structure Resolved (desc : BootstrapDescriptor) (cfg : StartConfig)
    (fetched : Result DirectoryState)
    (records next : LocalRecords) (binding : RegistrationBinding) : Prop where
  next_eq : next = { records with binding := some binding }
  follows : Follows records.binding binding
  source : records.binding = some binding ∨ Source desc cfg fetched binding

section Resolve

variable {cfg : StartConfig} {desc : BootstrapDescriptor} {records next : LocalRecords}
  {fetched : Result DirectoryState} {adopted : Result Unit} {binding : RegistrationBinding}

theorem resolved_of_bind {state : DirectoryState}
    (h : bindAuthoritativeRegistration cfg records state adopted = .ok (next, binding)) :
    Resolved desc cfg (.ok state) records next binding := by
  unfold bindAuthoritativeRegistration at h
  split at h
  · cases h
  · next entry hentry =>
    split at h
    · cases h
    · split at h
      · cases h
      · obtain ⟨recorded, hrecorded, hpair⟩ := map_eq_ok_iff.mp h
        cases hpair
        obtain ⟨hnext, hfollows⟩ := recordRegistrationBinding_eq_ok hrecorded
        have hid : entry.nodeId = cfg.nodeId := by simpa using List.find?_some hentry
        have hmem := List.mem_of_find?_eq_some hentry
        exact ⟨hnext, hfollows, .inr (.authority state entry rfl hmem hid)⟩

theorem resolved_of_keep {previous : RegistrationBinding}
    (hprevious : records.binding = some previous)
    (h : (.ok (records, previous) : Except StartError _) = .ok (next, binding)) :
    Resolved desc cfg fetched records next binding := by
  cases h
  exact ⟨by rw [← hprevious], hprevious ▸ follows_self _, .inl hprevious⟩

theorem resolved_of_genesis (hin : inGenesis desc cfg)
    (h : (recordRegistrationBinding records (genesisBinding cfg)).map
      (fun records ↦ (records, genesisBinding cfg)) = .ok (next, binding)) :
    Resolved desc cfg fetched records next binding := by
  obtain ⟨recorded, hrecorded, hpair⟩ := map_eq_ok_iff.mp h
  cases hpair
  obtain ⟨hnext, hfollows⟩ := recordRegistrationBinding_eq_ok hrecorded
  exact ⟨hnext, hfollows, .inr (.genesis hin)⟩

theorem resolveRegistrationBinding_eq_ok
    (h : resolveRegistrationBinding cfg desc records fetched adopted = .ok (next, binding)) :
    records.retired = false ∧ Resolved desc cfg fetched records next binding := by
  unfold resolveRegistrationBinding at h
  split at h
  · cases h
  · next hretired =>
    refine ⟨eq_false_of_ne_true hretired, ?_⟩
    split at h
    · next previous hprevious =>
      split at h
      · split at h
        · exact resolved_of_keep hprevious h
        · split at h
          · exact resolved_of_keep hprevious h
          · exact resolved_of_bind h
      · split at h
        · cases h
        · exact resolved_of_bind h
    · split at h
      · next hin =>
        split at h
        · split at h
          · exact resolved_of_bind h
          · exact resolved_of_genesis hin h
        · exact resolved_of_genesis hin h
      · split at h
        · cases h
        · exact resolved_of_bind h

end Resolve

/-! ### Runs -/

/-- The registration is the one of a genesis node before there is a directory. -/
def IsGenesis (desc : BootstrapDescriptor) (binding : RegistrationBinding) : Prop :=
  binding.directoryIncarnation = 1 ∧
    (⟨binding.nodeId, binding.controlAddr, binding.bulkAddr⟩ : DirEntry) ∈ desc.directory

section Attested

variable (prims : Primitives) (identity : Option Identity) (epoch : Option (BitVec 128))
  (desc : BootstrapDescriptor)

/-- A directory of the meta group, at some point of its log, has the node under the registration. -/
def Attests (log : List Entry) (binding : RegistrationBinding) : Prop :=
  ∃ snapshot, SnapshotOf prims identity epoch log snapshot ∧ ∃ entry ∈ snapshot,
    entry.nodeId = binding.nodeId ∧ entry.controlAddr = binding.controlAddr ∧
    entry.bulkAddr = binding.bulkAddr ∧ entry.incarnation = binding.directoryIncarnation

/-- What holds of a host along a run. -/
structure HostSound (log : List Entry) (host : Host) : Prop where
  /-- A recorded registration is attested, and is of the host's node. -/
  recorded (binding : RegistrationBinding) (h : host.records.binding = some binding) :
    (Attests prims identity epoch log binding ∨ IsGenesis desc binding) ∧
      host.records.identity.map (·.nodeId) = some binding.nodeId
  /-- A process runs under what is recorded, and is fenced once its node is seen to be retired. -/
  running (process : NodeProcess) (h : host.process = some process) :
    host.records.binding = some process.registration ∧
      (process.fenced = false → host.records.retired = false)

end Attested

theorem inGenesis_iff {desc : BootstrapDescriptor} {cfg : StartConfig} :
    inGenesis desc cfg ↔ IsGenesis desc (genesisBinding cfg) := by
  simp only [inGenesis, IsGenesis, genesisBinding, List.any_eq_true, Bool.and_eq_true, beq_iff_eq,
    true_and]
  constructor
  · rintro ⟨⟨nodeId, controlAddr, bulkAddr⟩, hentry, ⟨rfl, rfl⟩, rfl⟩
    exact hentry
  · intro hentry
    exact ⟨_, hentry, ⟨rfl, rfl⟩, rfl⟩

section Steps

variable {prims : Primitives} {identity : Option Identity} {epoch : Option (BitVec 128)}
  {desc : BootstrapDescriptor} {w next : World}

/-- What a query reads is a directory of the meta group. -/
theorem snapshotOf_fetch {read : Option ℕ} {state : DirectoryState}
    (h : w.fetch prims identity epoch read = .ok state) :
    SnapshotOf prims identity epoch w.log state.directory := by
  unfold World.fetch at h
  split at h
  · next n =>
    obtain ⟨⟨results, s⟩, hrun, hread⟩ := bind_eq_ok_iff.mp h
    obtain ⟨directory, hdirectory, hrest⟩ := bind_eq_ok_iff.mp hread
    obtain ⟨recoveryEpoch, -, hrest⟩ := bind_eq_ok_iff.mp hrest
    obtain ⟨cluster, -, hstate⟩ := bind_eq_ok_iff.mp hrest
    cases hstate
    exact ⟨_, results, s, List.take_prefix n w.log, hrun, hdirectory⟩
  · cases h

theorem attests_of_source {cfg : StartConfig} {read : Option ℕ} {binding : RegistrationBinding}
    (hsource : Source desc cfg (w.fetch prims identity epoch read) binding) :
    (Attests prims identity epoch w.log binding ∨ IsGenesis desc binding) ∧
      binding.nodeId = cfg.nodeId := by
  cases hsource with
  | authority state entry hfetched hentry hid =>
    exact ⟨.inl ⟨_, snapshotOf_fetch hfetched, entry, hentry, hid, rfl, rfl, rfl⟩, rfl⟩
  | genesis hgenesis => exact ⟨.inr (inGenesis_iff.mp hgenesis), rfl⟩

/-- What is attested stays attested as the meta group goes on. -/
theorem HostSound.concat {host : Host} (h : HostSound prims identity epoch desc w.log host)
    (entry : Entry) : HostSound prims identity epoch desc (w.log ++ [entry]) host := by
  refine ⟨fun binding hbinding ↦ ?_, h.running⟩
  obtain ⟨hattested, hid⟩ := h.recorded binding hbinding
  refine ⟨hattested.imp_left ?_, hid⟩
  rintro ⟨snapshot, ⟨first, results, s, hfirst, hread⟩, hentry⟩
  exact ⟨snapshot, ⟨first, results, s, hfirst.trans (List.prefix_append ..), hread⟩, hentry⟩

/-- A merge keeps the identity and the registration, never clears the retirement, and leaves a
process unfenced only if it was and the retirement is not recorded. -/
theorem mergeAuthoritativeDirectory_spec (host : Host) (process : NodeProcess)
    (state : DirectoryState) (persisted : Bool) (adopted : Result Unit)
    (hprocess : host.process = some process) :
    let merged := mergeAuthoritativeDirectory host process state persisted adopted
    merged.records.identity = host.records.identity ∧
      merged.records.binding = host.records.binding ∧
      (host.records.retired → merged.records.retired) ∧
      ∃ after, merged.process = some after ∧ after.registration = process.registration ∧
        (after.fenced = false → after = process ∧ merged.records = host.records) := by
  have hkept : host.process = some process ∧ process.registration = process.registration ∧
      (process.fenced = false → process = process ∧ host.records = host.records) :=
    ⟨hprocess, rfl, fun _ ↦ ⟨rfl, rfl⟩⟩
  unfold mergeAuthoritativeDirectory
  dsimp only
  split
  · split
    · exact ⟨rfl, rfl, by simp +contextual, _, rfl, rfl, by simp⟩
    · split
      · exact ⟨rfl, rfl, id, _, rfl, rfl, by simp⟩
      · exact ⟨rfl, rfl, id, process, hkept⟩
  · split
    · exact ⟨rfl, rfl, id, _, rfl, rfl, by simp⟩
    · split
      · exact ⟨rfl, rfl, id, _, rfl, rfl, by simp⟩
      · exact ⟨rfl, rfl, id, process, hkept⟩

/-- How a host changes in one event. -/
structure HostStep (before after : Host) : Prop where
  identity : after.records.identity = before.records.identity
  /-- A recorded registration gives way only to one of a later incarnation. -/
  binding {binding : RegistrationBinding} (h : before.records.binding = some binding) :
    ∃ later, after.records.binding = some later ∧ Follows (some binding) later
  retired (h : before.records.retired) : after.records.retired
  /-- No process starts where the node was seen to be retired. -/
  stopped (h : before.records.retired) (hnone : before.process = none) : after.process = none

theorem HostStep.refl (host : Host) : HostStep host host where
  identity := rfl
  binding h := ⟨_, h, follows_self _⟩
  retired h := h
  stopped _ hnone := hnone

/-- A start of a host leaves it as it was, or with a process under a registration that is sound. -/
theorem startHost_cases {h : ℕ} {host : Host}
    (hsound : HostSound prims identity epoch desc w.log host) {bound : Identity}
    (hbound : host.records.identity = some bound) {controlAddr bulkAddr : String} {read : Option ℕ}
    {adopted : Result Unit}
    (hstart : w.startHost prims identity epoch desc h host bound
      controlAddr bulkAddr read adopted = next) :
    next = w ∨ ∃ after, next = w.setHost h after ∧ HostStep host after ∧
      HostSound prims identity epoch desc w.log after := by
  unfold World.startHost at hstart
  dsimp only at hstart
  split at hstart
  · exact .inl hstart.symm
  · next records registration hresolved =>
    obtain ⟨hretired, rfl, hfollows, hsource⟩ := resolveRegistrationBinding_eq_ok hresolved
    have hattested :
        (Attests prims identity epoch w.log registration ∨ IsGenesis desc registration) ∧
        registration.nodeId = bound.nodeId := by
      rcases hsource with hkept | hsource
      · obtain ⟨hattested, hid⟩ := hsound.recorded registration hkept
        rw [hbound] at hid
        exact ⟨hattested, (Option.some.inj hid).symm⟩
      · exact attests_of_source hsource
    refine .inr ⟨_, hstart.symm, ⟨rfl, ?_, id, fun hgone ↦ ?_⟩, fun binding hbinding ↦ ?_, ?_⟩
    · exact fun {binding} hbinding ↦ ⟨registration, rfl, hbinding ▸ hfollows⟩
    · rw [hretired] at hgone
      cases hgone
    · obtain rfl : registration = binding := Option.some.inj hbinding
      exact ⟨hattested.1, by rw [hbound, Option.map_some, hattested.2]⟩
    · intro process hprocess
      obtain rfl := Option.some.inj hprocess
      exact ⟨rfl, fun _ ↦ hretired⟩

/-- A refresh keeps a host sound. -/
theorem HostSound.merge {host : Host} (h : HostSound prims identity epoch desc w.log host)
    {process : NodeProcess} (hprocess : host.process = some process) (state : DirectoryState)
    (persisted : Bool) (adopted : Result Unit) :
    HostStep host (mergeAuthoritativeDirectory host process state persisted adopted) ∧
      HostSound prims identity epoch desc w.log
        (mergeAuthoritativeDirectory host process state persisted adopted) := by
  obtain ⟨hidentity, hbinding, hretired, after, hafter, hregistration, hunfenced⟩ :=
    mergeAuthoritativeDirectory_spec host process state persisted adopted hprocess
  refine ⟨⟨hidentity, fun hold ↦ ⟨_, hbinding.trans hold, follows_self _⟩, hretired, ?_⟩, ?_, ?_⟩
  · intro _ hnone
    rw [hprocess] at hnone
    cases hnone
  · intro binding hold
    rw [hidentity]
    exact h.recorded binding (hbinding ▸ hold)
  · intro found hfound
    obtain rfl : after = found := Option.some.inj (hafter.symm.trans hfound)
    obtain ⟨hrecorded, hopen⟩ := h.running process hprocess
    refine ⟨by rw [hbinding, hregistration, hrecorded], fun hfence ↦ ?_⟩
    obtain ⟨rfl, hsame⟩ := hunfenced hfence
    rw [hsame]
    exact hopen hfence

/-- What an event does to the world: an entry is committed, nothing, or one host takes a step. -/
theorem step_cases (hw : ∀ host ∈ w.hosts, HostSound prims identity epoch desc w.log host)
    {event : WorldEvent} (hstep : w.step prims identity epoch desc event = some next) :
    (∃ entry, next = { w with log := w.log ++ [entry] }) ∨ next = w ∨
    ∃ h host after, w.hosts[h]? = some host ∧ next = w.setHost h after ∧ HostStep host after ∧
      HostSound prims identity epoch desc w.log after := by
  cases event with
  | commit entry =>
    cases hstep
    exact .inl ⟨entry, rfl⟩
  | start h controlAddr bulkAddr read adopted =>
    simp only [World.step, Option.bind_eq_bind, Option.bind_eq_some_iff] at hstep
    obtain ⟨host, hhost, bound, hbound, hstart⟩ := hstep
    split at hstart
    · cases hstart
    · rcases startHost_cases (hw host (List.mem_of_getElem? hhost)) hbound (Option.some.inj hstart)
        with hsame | ⟨after, hafter⟩
      · exact .inr (.inl hsame)
      · exact .inr (.inr ⟨h, host, after, hhost, hafter⟩)
  | refresh h read persisted adopted =>
    simp only [World.step, Option.bind_eq_bind, Option.bind_eq_some_iff] at hstep
    obtain ⟨host, hhost, process, hprocess, state, -, hnext⟩ := hstep
    cases hnext
    have hsound := hw host (List.mem_of_getElem? hhost)
    exact .inr (.inr ⟨h, host, _, hhost, rfl, hsound.merge hprocess state persisted adopted⟩)
  | stop h =>
    simp only [World.step, Option.bind_eq_bind, Option.bind_eq_some_iff] at hstep
    obtain ⟨host, hhost, hnext⟩ := hstep
    cases hnext
    have hsound := hw host (List.mem_of_getElem? hhost)
    exact .inr (.inr ⟨h, host, _, hhost, rfl,
      ⟨rfl, (HostStep.refl host).binding, id, fun _ _ ↦ rfl⟩, hsound.recorded, by simp⟩)

theorem hostSound_step (hw : ∀ host ∈ w.hosts, HostSound prims identity epoch desc w.log host)
    {event : WorldEvent} (hstep : w.step prims identity epoch desc event = some next) :
    ∀ host ∈ next.hosts, HostSound prims identity epoch desc next.log host := by
  rcases step_cases hw hstep with ⟨entry, rfl⟩ | rfl | ⟨h, host, after, -, rfl, -, hafter⟩
  · exact fun host hhost ↦ (hw host hhost).concat entry
  · exact hw
  · intro other hother
    rcases List.mem_or_eq_of_mem_set hother with hold | rfl
    · exact hw other hold
    · exact hafter

theorem hostStep_of_step (hw : ∀ host ∈ w.hosts, HostSound prims identity epoch desc w.log host)
    {event : WorldEvent} (hstep : w.step prims identity epoch desc event = some next) {h : ℕ}
    {host : Host} (hhost : w.hosts[h]? = some host) :
    ∃ after, next.hosts[h]? = some after ∧ HostStep host after := by
  rcases step_cases hw hstep with ⟨s, rfl⟩ | rfl | ⟨i, moved, after, hmoved, rfl, hchange, -⟩
  · exact ⟨host, hhost, .refl host⟩
  · exact ⟨host, hhost, .refl host⟩
  · by_cases hi : i = h
    · subst hi
      obtain rfl : host = moved := Option.some.inj (hhost.symm.trans hmoved)
      obtain ⟨hlt, -⟩ := List.getElem?_eq_some_iff.mp hhost
      exact ⟨after, List.getElem?_set_self hlt, hchange⟩
    · exact ⟨host, (List.getElem?_set_ne hi).trans hhost, .refl host⟩

/-- The endpoints of a registration. -/
def RegistrationBinding.endpoints (binding : RegistrationBinding) : String × String :=
  (binding.controlAddr, binding.bulkAddr)

theorem Attests.endpoints_eq {log : List Entry} {first second : RegistrationBinding}
    (hfirst : Attests prims identity epoch log first)
    (hsecond : Attests prims identity epoch log second) (hid : first.nodeId = second.nodeId)
    (hincarnation : first.directoryIncarnation = second.directoryIncarnation) :
    first.endpoints = second.endpoints := by
  obtain ⟨_, hearly, entry, hentry, hnode, hcontrol, hbulk, hinc⟩ := hfirst
  obtain ⟨_, hlate, other, hother, hnode', hcontrol', hbulk', hinc'⟩ := hsecond
  obtain ⟨hsameControl, hsameBulk⟩ := hearly.sameEndpoints hlate hentry hother
    (by rw [hnode, hnode', hid]) (by rw [hinc, hinc', hincarnation])
  rw [RegistrationBinding.endpoints, RegistrationBinding.endpoints, ← hcontrol,
    ← hcontrol', ← hbulk, ← hbulk', hsameControl, hsameBulk]

end Steps

theorem IsGenesis.endpoints_eq {desc : BootstrapDescriptor}
    (hdesc : (desc.directory.map (·.nodeId)).Nodup) {first second : RegistrationBinding}
    (hfirst : IsGenesis desc first) (hsecond : IsGenesis desc second)
    (hid : first.nodeId = second.nodeId) : first.endpoints = second.endpoints := by
  have hentry := List.inj_on_of_nodup_map hdesc hfirst.2 hsecond.2 hid
  obtain ⟨-, hcontrol, hbulk⟩ := DirEntry.mk.inj hentry
  exact Prod.ext hcontrol hbulk

/-- Assumes: a descriptor that lists each node once, and data directories without a registration.
Along every run, in any interleaving, a process runs under the registration its data directory
records, and is fenced once the retirement of its node is recorded there. Two processes of one node
at one incarnation have the same endpoints, unless it is incarnation one and only one of them has
its registration from the descriptor. And every event changes every host as `HostStep` says. -/
theorem registration_safe (prims : Primitives) (identity : Option Identity)
    (epoch : Option (BitVec 128)) (desc : BootstrapDescriptor)
    (hdesc : (desc.directory.map (·.nodeId)).Nodup) (hosts : List Host)
    (hfresh : ∀ host ∈ hosts, host.records.binding = none ∧ host.process = none)
    (events : List WorldEvent) (w : World)
    (hrun : events.foldlM (World.step prims identity epoch desc) ⟨[], hosts⟩ = some w) :
    (∀ host ∈ w.hosts, ∀ process, host.process = some process →
      host.records.binding = some process.registration ∧
        (process.fenced = false → host.records.retired = false)) ∧
    (∀ host ∈ w.hosts, ∀ other ∈ w.hosts, ∀ first second, host.records.binding = some first →
      other.records.binding = some second → first.nodeId = second.nodeId →
      first.directoryIncarnation = second.directoryIncarnation →
      first.endpoints = second.endpoints ∨ (first.directoryIncarnation = 1 ∧
        (Attests prims identity epoch w.log first ∧ IsGenesis desc second ∨
          IsGenesis desc first ∧ Attests prims identity epoch w.log second))) ∧
    (∀ (event : WorldEvent) (next : World), w.step prims identity epoch desc event = some next →
      ∀ (h : ℕ) (host : Host), w.hosts[h]? = some host →
        ∃ after, next.hosts[h]? = some after ∧ HostStep host after) := by
  have hw : ∀ host ∈ w.hosts, HostSound prims identity epoch desc w.log host := by
    refine foldlM_invariant
      (P := fun w ↦ ∀ host ∈ w.hosts, HostSound prims identity epoch desc w.log host)
      (fun hs hstep ↦ hostSound_step hs hstep) hrun fun host hhost ↦ ?_
    obtain ⟨hbinding, hprocess⟩ := hfresh host hhost
    exact ⟨by simp [hbinding], by simp [hprocess]⟩
  refine ⟨fun host hhost ↦ (hw host hhost).running, ?_, fun event next hstep h host hhost ↦
    hostStep_of_step hw hstep hhost⟩
  intro host hhost other hother first second hfirst hsecond hid hincarnation
  rcases ((hw host hhost).recorded first hfirst).1 with hattested | hgenesis
  · rcases ((hw other hother).recorded second hsecond).1 with hattested' | hgenesis'
    · exact .inl (hattested.endpoints_eq hattested' hid hincarnation)
    · exact .inr ⟨hincarnation.trans hgenesis'.1, .inl ⟨hattested, hgenesis'⟩⟩
  · rcases ((hw other hother).recorded second hsecond).1 with hattested' | hgenesis'
    · exact .inr ⟨hgenesis.1, .inr ⟨hgenesis, hattested'⟩⟩
    · exact .inl (hgenesis.endpoints_eq hdesc hgenesis' hid)

/-- Two hosts carry the identity of node 4, which joined after the cluster was seeded, and both
start. The node is then drained and retired, and the first host refreshes. -/
theorem registration_safe_retired :
    let prims : Primitives := ⟨fun _ ↦ Vector.replicate 32 0, id⟩
    let host : Host := ⟨⟨some ⟨7, 4⟩, none, false⟩, none⟩
    let step := World.step prims (some ⟨7, 1⟩) none Meta.Seeding.threeNodes
    let joined := Meta.seedCommands Meta.Seeding.threeNodes ++ [.registerNode 4 "c4" "b4"]
    let events : List WorldEvent :=
      (joined.zipIdx 1).map (fun (cmd, index) ↦ WorldEvent.commit (⟨1, index.toUInt64⟩, cmd)) ++
        [WorldEvent.start 0 "c4" "b4" (some 6) (.ok ()), .start 1 "c4" "b4" (some 6) (.ok ()),
          .commit (⟨1, 7⟩, .setNodeState 4 .draining 1), .commit (⟨1, 8⟩, .retireNode 4 1),
          .refresh 0 8 true (.ok ())]
    ∃ w first second process binding binding',
      events.foldlM step ⟨[], [host, host]⟩ = some w ∧ w.hosts = [first, second] ∧
      first.records.retired = true ∧ second.records.retired = false ∧
      first.process = some process ∧ process.fenced = true ∧
      first.records.binding = some binding ∧ second.records.binding = some binding' ∧
      binding.endpoints = binding'.endpoints ∧
      ∀ event next, step w event = some next →
        ∃ after, next.hosts[0]? = some after ∧ after.records.retired = true := by
  intro prims host step joined events
  let binding : RegistrationBinding := ⟨7, 4, "c4", "b4", 1⟩
  let first : Host := ⟨⟨some ⟨7, 4⟩, some binding, true⟩, some ⟨binding, true⟩⟩
  let second : Host := ⟨⟨some ⟨7, 4⟩, some binding, false⟩, some ⟨binding, false⟩⟩
  have hhosts : (events.foldlM step ⟨[], [host, host]⟩).map (·.hosts) = some [first, second] := by
    decide +kernel
  obtain ⟨w, hrun, hw⟩ := Option.map_eq_some_iff.mp hhosts
  obtain ⟨hrunning, hagree, hstep⟩ := registration_safe prims (some ⟨7, 1⟩) none
    Meta.Seeding.threeNodes (by decide) [host, host] (by simp [host]) events w hrun
  have hfirst : first ∈ w.hosts := by simp [hw]
  have hsecond : second ∈ w.hosts := by simp [hw]
  refine ⟨w, first, second, ⟨binding, true⟩, binding, binding, hrun, hw, rfl, rfl, rfl,
    ?_, rfl, rfl, ?_, fun event next hnext ↦ ?_⟩
  · exact Bool.of_not_eq_false fun hopen ↦
      absurd ((hrunning first hfirst _ rfl).2 hopen) (by decide)
  · rcases hagree first hfirst second hsecond binding binding rfl rfl rfl rfl with heq |
      ⟨-, ⟨-, hgenesis⟩ | ⟨hgenesis, -⟩⟩
    · exact heq
    all_goals exact absurd hgenesis.2 (by decide)
  · obtain ⟨after, hafter, hhost⟩ := hstep event next hnext 0 first (by simp [hw])
    exact ⟨after, hafter, hhost.retired rfl⟩

end DalService.Runtime
