import DalService.Foundation.Explore
import DalService.Transport.Envelope

/-!
# Directory discovery

A node that wants the directory asks every address it knows at once (`runtime/directory.rs`), and
every address a follower names as soon as it does. The answers come in any order. The first state
that an endpoint gives as its own is the result; what followers report only leads to more endpoints.

`fetchAuthoritativeDirectoryState` takes the order in which the queries complete, up to a timeout of
the whole. Whatever the order, no address is asked twice, the result is the answer of an endpoint
that the seeds lead to, and discovery fails only by its timeout or after it asked all of those and
none is authoritative: `discovery_exact`.
-/

set_option autoImplicit false

namespace DalService.Runtime

open Foundation Transport

structure DirectoryState where
  directory : List NodeDirectoryEntry
  recoveryEpoch : BitVec 128
  bootstrapComplete : Bool
  deriving DecidableEq, Repr

inductive DirectoryQueryReply
  | value (state : DirectoryState)
  | notLeader (leader : Option NodeId) (directoryHint : List NodeDirectoryEntry)
  | unavailable
  deriving DecidableEq, Repr

/-- The last entry of each node, as a map collected from the entries holds it. -/
def hintAddresses (directoryHint : List NodeDirectoryEntry) : List (NodeId × String) :=
  directoryHint.foldl (fun hints entry ↦
    (entry.nodeId, entry.controlAddr) :: hints.filter fun hint ↦ hint.1 ≠ entry.nodeId) []

/-- The addresses a follower's reply names: the leader's, then all of its hints. -/
def namedAddresses (leader : Option NodeId) (directoryHint : List NodeDirectoryEntry) :
    List String :=
  let hints := hintAddresses directoryHint
  ((leader.bind fun id ↦ hints.lookup id).toList) ++ hints.map Prod.snd

/-- What an answer amounts to. -/
inductive Answer
  | ignored
  | authoritative (state : DirectoryState)
  | hints (addresses : List String)
  deriving DecidableEq, Repr

/-- How the loop reads the response of a query. -/
def readResponse (decode : Bytes → Option DirectoryQueryReply) (clusterId : ClusterId)
    (response : Result Envelope) : Answer :=
  match response with
  | .error _ => .ignored
  | .ok envelope =>
    if envelope.clusterId ≠ clusterId ∨ envelope.msgType ≠ .directoryQuery then .ignored
    else match decode envelope.payload with
      | some (.value state) =>
        if state.directory.length ≤ MAX_CLUSTER_NODES then .authoritative state else .ignored
      | some (.notLeader leader directoryHint) => .hints (namedAddresses leader directoryHint)
      | some .unavailable => .ignored
      | none => .ignored

/-- The addresses an address names. -/
def named (answers : String → Answer) (address : String) : List String :=
  match answers address with
  | .hints addresses => addresses
  | _ => []

def noLeader : Error := .raft "no meta leader returned an authoritative directory"

def queryTimedOut : Error := .raft "authoritative directory query timed out"

/-- The loop, over the queries in the order they complete. With queries out at the end of the list
it is cut off there by the timeout, if `timedOut`. `none` if the list is not an order in which they
can complete, or if the loop goes on. -/
def fetchLoop (answers : String → Answer) (timedOut : Bool) (search : Exploration String) :
    List String → Option (Result DirectoryState)
  | [] =>
    if search.attempts = [] then some (.error noLeader)
    else if timedOut then some (.error queryTimedOut)
    else none
  | address :: order =>
    if address ∈ search.attempts then
      match answers address with
      | .authoritative state => if order = [] then some (.ok state) else none
      | _ => fetchLoop answers timedOut (search.complete address (named answers address)) order
    else none

def fetchAuthoritativeDirectoryState (decode : Bytes → Option DirectoryQueryReply)
    (clusterId : ClusterId) (network : String → Result Envelope) (timedOut : Bool)
    (seeds order : List String) : Option (Result DirectoryState) :=
  fetchLoop (readResponse decode clusterId ∘ network) timedOut (.start seeds) order

section Discovery

variable {answers : String → Answer} {timedOut : Bool} {seeds before : List String}
  {search : Exploration String}

theorem fetchLoop_cons {address : String} {order : List String} (hmem : address ∈ search.attempts)
    (hanswer : ∀ state, answers address ≠ .authoritative state) :
    fetchLoop answers timedOut search (address :: order) =
      fetchLoop answers timedOut (search.complete address (named answers address)) order := by
  rw [fetchLoop, if_pos hmem]
  split
  · next state hvalue => exact absurd hvalue (hanswer state)
  · rfl

/-- What the loop has done when it ends. -/
theorem fetchLoop_eq_some {order : List String} {result : Result DirectoryState}
    (hsearch : Explored (named answers) seeds before search)
    (hbefore : ∀ address ∈ before, ∀ state, answers address ≠ .authoritative state)
    (h : fetchLoop answers timedOut search order = some result) :
    (∃ asked address state, before ++ order = asked ++ [address] ∧ result = .ok state ∧
      answers address = .authoritative state ∧
      (∀ other ∈ asked, ∀ state, answers other ≠ .authoritative state) ∧
      ∃ last, Explored (named answers) seeds asked last ∧ address ∈ last.attempts) ∨
    ((∀ address ∈ before ++ order, ∀ state, answers address ≠ .authoritative state) ∧
      ∃ last, Explored (named answers) seeds (before ++ order) last ∧
        (result = .error noLeader ∧ last.attempts = [] ∨
          result = .error queryTimedOut ∧ timedOut = true)) := by
  induction order generalizing search before with
  | nil =>
    rw [fetchLoop] at h
    rw [List.append_nil]
    split_ifs at h with hout hlate
    · exact .inr ⟨hbefore, search, hsearch, .inl ⟨(Option.some.inj h).symm, hout⟩⟩
    · exact .inr ⟨hbefore, search, hsearch, .inr ⟨(Option.some.inj h).symm, hlate⟩⟩
  | cons address order ih =>
    have hloop := h
    rw [fetchLoop] at h
    split at h
    · next hout =>
      by_cases hvalue : ∃ state, answers address = .authoritative state
      · obtain ⟨state, hanswer⟩ := hvalue
        rw [hanswer] at h
        obtain ⟨rfl, hresult⟩ : order = [] ∧ .ok state = result := by simpa using h
        exact .inl
          ⟨before, address, state, rfl, hresult.symm, hanswer, hbefore, search, hsearch, hout⟩
      · have hanswer := not_exists.mp hvalue
        have hall :
            ∀ other ∈ before ++ [address], ∀ state, answers other ≠ .authoritative state := by
          intro other hother state
          rcases List.mem_append.mp hother with hmem | hmem
          · exact hbefore other hmem state
          · rw [List.mem_singleton.mp hmem]
            exact hanswer state
        have hrest := ih (hsearch.complete hout) hall (fetchLoop_cons hout hanswer ▸ hloop)
        rwa [List.append_assoc, List.singleton_append] at hrest
    · cases h

/-- Assumes: the seeds lead to finitely many addresses. As long as every query completes, the loop
ends. -/
theorem exists_fetchLoop_eq_some {within : Finset String}
    (hwithin : ∀ address, Leads (named answers) seeds address → address ∈ within)
    (hsearch : Explored (named answers) seeds before search) :
    ∃ order result, fetchLoop answers false search order = some result := by
  -- Every turn asks an address that was not asked before.
  induction hfuel : within.card - before.length using Nat.strong_induction_on
    generalizing before search with
  | _ fuel ih =>
    cases hout : search.attempts with
    | nil => exact ⟨[], _, by rw [fetchLoop, if_pos hout]⟩
    | cons address rest =>
      have hmem : address ∈ search.attempts := hout ▸ List.mem_cons_self
      by_cases hvalue : ∃ state, answers address = .authoritative state
      · obtain ⟨state, hanswer⟩ := hvalue
        exact ⟨[address], .ok state, by simp [fetchLoop, hmem, hanswer]⟩
      · have hstep := hsearch.complete hmem
        have hle := hstep.length_le hwithin
        rw [List.length_append, List.length_singleton] at hle
        have hless : within.card - (before ++ [address]).length < fuel := by
          rw [List.length_append, List.length_singleton]
          omega
        obtain ⟨order, result, horder⟩ := ih _ hless hstep rfl
        refine ⟨address :: order, result, ?_⟩
        rw [fetchLoop_cons hmem fun state hanswer ↦ hvalue ⟨state, hanswer⟩, horder]

end Discovery

/-- An address answers a query of the cluster with a directory of its own. -/
def Authoritative (decode : Bytes → Option DirectoryQueryReply) (clusterId : ClusterId)
    (network : String → Result Envelope) (address : String) (state : DirectoryState) : Prop :=
  ∃ envelope, network address = .ok envelope ∧ envelope.clusterId = clusterId ∧
    envelope.msgType = .directoryQuery ∧ decode envelope.payload = some (.value state) ∧
    state.directory.length ≤ MAX_CLUSTER_NODES

theorem readResponse_eq_authoritative_iff {decode : Bytes → Option DirectoryQueryReply}
    {clusterId : ClusterId} {network : String → Result Envelope} {address : String}
    {state : DirectoryState} :
    readResponse decode clusterId (network address) = .authoritative state ↔
      Authoritative decode clusterId network address state := by
  constructor
  · intro h
    unfold readResponse at h
    split at h
    · cases h
    · next envelope hnetwork =>
      split at h
      · cases h
      · next hours =>
        obtain ⟨hcluster, htype⟩ := not_or.mp hours
        split at h
        · next given hdecode =>
          split at h
          · next hsmall =>
            cases h
            exact ⟨envelope, hnetwork, not_not.mp hcluster, not_not.mp htype, hdecode, hsmall⟩
          · cases h
        all_goals cases h
  · rintro ⟨envelope, hnetwork, rfl, htype, hdecode, hsmall⟩
    simp [readResponse, hnetwork, htype, hdecode, hsmall]

/-- Assumes: the seeds lead to finitely many addresses. Discovery ends in some order of the answers,
and in whichever order it ends, it asked each address once and only addresses the seeds lead to. It
returns what an authoritative one answered, and fails only if none of them is authoritative or if it
times out before one of them answered. -/
theorem discovery_exact (decode : Bytes → Option DirectoryQueryReply) (clusterId : ClusterId)
    (network : String → Result Envelope) (seeds : List String) (within : Finset String)
    (hwithin : ∀ address, Leads (named (readResponse decode clusterId ∘ network)) seeds address →
      address ∈ within) :
    (∃ order result,
      fetchAuthoritativeDirectoryState decode clusterId network false seeds order = some result) ∧
    ∀ timedOut order result,
      fetchAuthoritativeDirectoryState decode clusterId network timedOut seeds order = some result →
      order.Nodup ∧ order.length ≤ within.card ∧
      (∀ address ∈ order, Leads (named (readResponse decode clusterId ∘ network)) seeds address) ∧
      (∀ state, result = .ok state →
        ∃ address ∈ order, Authoritative decode clusterId network address state) ∧
      (∀ error, result = .error error →
        (∀ address ∈ order, ∀ state, ¬Authoritative decode clusterId network address state) ∧
        (error = queryTimedOut ∧ timedOut = true ∨ error = noLeader ∧
          ∀ address, Leads (named (readResponse decode clusterId ∘ network)) seeds address →
            address ∈ order)) := by
  refine ⟨exists_fetchLoop_eq_some hwithin .start, fun timedOut order result h ↦ ?_⟩
  rcases fetchLoop_eq_some .start (by simp) h with
    ⟨asked, address, state, horder, rfl, hanswer, -, search, hsearch, hout⟩ |
    ⟨hnone, search, hsearch, hend⟩
  · rw [List.nil_append] at horder
    have hstep := hsearch.complete hout
    rw [← horder] at hstep
    refine ⟨(List.nodup_append.mp hstep.spec.1).1, hstep.length_le hwithin,
      fun other hother ↦ hstep.spec.2 other (List.mem_append_left _ hother), ?_, by simp⟩
    intro given hgiven
    obtain rfl : state = given := Except.ok.inj hgiven
    exact ⟨address, by simp [horder], readResponse_eq_authoritative_iff.mp hanswer⟩
  · rw [List.nil_append] at hnone hsearch
    refine ⟨(List.nodup_append.mp hsearch.spec.1).1, hsearch.length_le hwithin,
      fun other hother ↦ hsearch.spec.2 other (List.mem_append_left _ hother), ?_, ?_⟩
    · rintro state rfl
      simp at hend
    · rintro error rfl
      refine ⟨fun address haddress state hvalue ↦ ?_, ?_⟩
      · exact hnone address haddress state (readResponse_eq_authoritative_iff.mpr hvalue)
      · rcases hend with ⟨herror, hout⟩ | ⟨herror, hlate⟩
        · refine .inr ⟨Except.error.inj herror, fun address hleads ↦ ?_⟩
          exact (hsearch.exhausted hout address).mpr hleads
        · exact .inl ⟨Except.error.inj herror, hlate⟩

/-- A follower leads to the leader. -/
theorem discovery_exact_follower :
    let state : DirectoryState := ⟨[⟨2, "leader", "bulk", .active, 1⟩], 9, true⟩
    let decode (payload : Bytes) : Option DirectoryQueryReply :=
      if payload = [0] then some (.value state) else some (.notLeader (some 2) state.directory)
    let network (address : String) : Result Envelope :=
      .ok ⟨7, .directoryQuery, .meta, 0, if address = "leader" then [0] else [1]⟩
    fetchAuthoritativeDirectoryState decode 7 network false ["follower"] ["follower", "leader"] =
        some (.ok state) ∧
      ∃ address ∈ ["follower", "leader"], Authoritative decode 7 network address state := by
  intro state decode network
  have hreturned : fetchAuthoritativeDirectoryState decode 7 network false ["follower"]
      ["follower", "leader"] = some (.ok state) := by decide
  have hwithin (address : String)
      (h : Leads (named (readResponse decode 7 ∘ network)) ["follower"] address) :
      address ∈ ({"follower", "leader"} : Finset String) := by
    induction h with
    | seed h => simp [List.mem_singleton.mp h]
    | @expand address other _ h _ =>
      have hnamed : named (readResponse decode 7 ∘ network) other ⊆ ["leader", "leader"] := by
        by_cases hother : other = "leader"
        · subst hother
          decide
        · simp [named, readResponse, network, decode, hother, namedAddresses, hintAddresses, state]
      simpa using Or.inr (hnamed h)
  refine ⟨hreturned, ?_⟩
  exact ((discovery_exact decode 7 network ["follower"] _ hwithin).2 _ _ _ hreturned).2.2.2.1
    state rfl

end DalService.Runtime
