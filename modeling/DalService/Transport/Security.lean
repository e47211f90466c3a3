import DalService.Foundation.Framing
import DalService.Foundation.Returns
import DalService.Types

/-!
# The trust policy

A trust policy (`transport/security.rs`) binds the identities an authenticated socket may have to a
public key, to permissions and to the client ids they own. `TrustPolicy.new` checks a list of
principals and indexes it by user id, by key and by client id; the questions asked of a policy read
these indexes.

Nodes compare policies by the digest of a byte string made of the indexes
(`TrustPolicy.fingerprintBytes`). The string does not depend on the order the principals, their
permissions or their client ids were listed in, nor on how an id was spelled, and it is the same for
two policies exactly if they answer every question alike: `fingerprint_identifies_effective_policy`.
-/

set_option autoImplicit false

namespace DalService.Transport

open Foundation
open Std (ExtTreeMap)

/-! ### Principals -/

inductive Permission
  | clientRead
  | clientWrite
  | search
  | peerRpc
  | operator
  deriving DecidableEq, Repr

/-- An identity and what it may do. The key is a public key in Z85; a client id is `0x` followed by
1 to 32 hexadecimal digits. -/
structure Principal where
  userId : String
  curvePublicKey : String
  permissions : List Permission
  clientIds : List String
  deriving DecidableEq, Repr

def Z85 : String :=
  "0123456789abcdefghijklmnopqrstuvwxyzABCDEFGHIJKLMNOPQRSTUVWXYZ.-:+=^!/*?&<>()[]\x7b\x7d@%$#"

/-- The number five Z85 digits stand for, if they are digits. -/
def z85Value (chunk : Bytes) : Option ℕ :=
  chunk.foldlM (fun value byte ↦
    ((strBytes Z85).findIdx? (· == byte)).map fun digit ↦ value * 85 + digit) 0

/-- Forty Z85 digits, of which each five stand for 32 bits. -/
def isZ85PublicKey (key : String) : Bool :=
  key.utf8ByteSize == 40 && (strBytes key).all (fun byte ↦ (strBytes Z85).contains byte) &&
    (List.range 8).all fun chunk ↦
      (z85Value (((strBytes key).drop (5 * chunk)).take 5)).any (· ≤ 2 ^ 32 - 1)

/-- The value of an ASCII hexadecimal digit, in either case. -/
def hexDigit (c : Char) : Option ℕ :=
  if '0' ≤ c ∧ c ≤ '9' then some (c.toNat - '0'.toNat)
  else if 'a' ≤ c ∧ c ≤ 'f' then some (c.toNat - 'a'.toNat + 10)
  else if 'A' ≤ c ∧ c ≤ 'F' then some (c.toNat - 'A'.toNat + 10)
  else none

/-- A client id, read from the spelling of a principal. Thirty-two digits fit 128 bits. -/
def parseClientId (userId clientId : String) : Except String (BitVec 128) :=
  match clientId.toList with
  | '0' :: 'x' :: hex =>
    match if hex.isEmpty ∨ 32 < hex.length then none else hex.mapM hexDigit with
    | some digits => .ok (BitVec.ofNat 128 (digits.foldl (fun value digit ↦ value * 16 + digit) 0))
    | none => .error ("principal " ++ userId ++ " contains an invalid client id")
  | _ => .error ("principal " ++ userId ++ " client_ids must use 0x-prefixed hexadecimal")

/-! ### Policies -/

abbrev ClientOwners := ExtTreeMap (BitVec 128) String compare

structure TrustPolicy where
  clusterId : BitVec 128
  generation : UInt64
  principals : ExtTreeMap String Principal compare
  curveKeys : ExtTreeMap String String compare
  clientOwners : ClientOwners

namespace TrustPolicy

/-- One client id of a principal is entered. -/
def addClientId (userId : String) (owners : ClientOwners) (clientId : String) :
    Except String ClientOwners := do
  let parsed ← parseClientId userId clientId
  throwIf (100000 ≤ owners.size) "trust policy exceeds the 100000 client identity cluster limit"
  throwIf (owners[parsed]?.isSome = true) "client_id is assigned to multiple principals"
  return owners.insert parsed userId

/-- One principal is checked and entered in the three indexes. -/
def addPrincipal (policy : TrustPolicy) (principal : Principal) : Except String TrustPolicy := do
  throwIf (principal.userId.isEmpty = true ∨ 255 < principal.userId.utf8ByteSize)
    "principal user_id must be 1..=255 bytes"
  throwIf (principal.permissions = [])
    ("principal " ++ principal.userId ++ " has no permissions")
  throwIf (principal.clientIds ≠ [] ∧ .clientWrite ∉ principal.permissions)
    ("principal " ++ principal.userId ++ " owns client_ids but lacks client_write permission")
  throwIf (isZ85PublicKey principal.curvePublicKey = false)
    ("principal " ++ principal.userId ++ " CURVE public key must be 40 valid Z85 bytes")
  let clientOwners ← principal.clientIds.foldlM (addClientId principal.userId) policy.clientOwners
  throwIf (policy.curveKeys[principal.curvePublicKey]?.isSome = true) "duplicate CURVE public key"
  throwIf (policy.principals[principal.userId]?.isSome = true) "duplicate principal user_id"
  return { policy with
    principals := policy.principals.insert principal.userId principal
    curveKeys := policy.curveKeys.insert principal.curvePublicKey principal.userId
    clientOwners := clientOwners }

def new (clusterId : BitVec 128) (generation : UInt64) (principals : List Principal) :
    Except String TrustPolicy := do
  throwIf (generation = 0) "trust policy generation must be non-zero"
  throwIf (100000 < principals.length) "trust policy exceeds the 100000 principal cluster limit"
  principals.foldlM addPrincipal ⟨clusterId, generation, ∅, ∅, ∅⟩

/-- The principal of an authenticated identity, if it has the permission. -/
def authorize (policy : TrustPolicy) (userId : String) (permission : Permission) :
    Option Principal :=
  policy.principals[userId]?.filter fun principal ↦ principal.permissions.contains permission

def principalForCurveKey (policy : TrustPolicy) (key : String) : Option Principal :=
  policy.curveKeys[key]?.bind fun userId ↦ policy.principals[userId]?

def ownsClientId (policy : TrustPolicy) (userId : String) (clientId : BitVec 128) : Bool :=
  policy.clientOwners[clientId]?.any (· == userId)

end TrustPolicy

/-! ### The fingerprint -/

def Permission.tag : Permission → UInt8
  | .clientRead => 1
  | .clientWrite => 2
  | .search => 3
  | .peerRpc => 4
  | .operator => 5

/-- The tags of the permissions, sorted and without repetitions. -/
def permissionTags (permissions : List Permission) : Bytes :=
  ((permissions.map Permission.tag).insertionSort (· ≤ ·)).dedup

/-- What the fingerprint has of a principal. -/
def Principal.row (principal : Principal) : String × String × Bytes :=
  (principal.userId, principal.curvePublicKey, permissionTags principal.permissions)

def rowBytes (row : String × String × Bytes) : Bytes :=
  sized (strBytes row.1) ++ (sized (strBytes row.2.1) ++ sized row.2.2)

def ownerBytes (owner : BitVec 128 × String) : Bytes :=
  u128Be owner.1 ++ sized (strBytes owner.2)

namespace TrustPolicy

/-- The rows of the principals, in the order of their user ids. -/
def rows (policy : TrustPolicy) : List (String × String × Bytes) :=
  policy.principals.toList.map fun entry ↦ entry.2.row

/-- The bytes the fingerprint is the digest of. -/
def fingerprintBytes (policy : TrustPolicy) : Bytes :=
  strBytes "dal-trust-policy-v1" ++ (u128Be policy.clusterId ++ (u64Be policy.generation ++
    (counted rowBytes policy.rows ++ counted ownerBytes policy.clientOwners.toList)))

def fingerprint (prims : Primitives) (policy : TrustPolicy) : Digest32 :=
  prims.sha256 policy.fingerprintBytes

end TrustPolicy

/-! ### What an accepted policy has indexed -/

/-- What the loop over the principals keeps of the three indexes. -/
structure TrustPolicy.Indexed (policy : TrustPolicy) : Prop where
  principal : ∀ (userId : String) (principal : Principal),
    policy.principals[userId]? = some principal →
    principal.userId = userId ∧ userId.utf8ByteSize ≤ 255 ∧ principal.permissions ≠ [] ∧
      principal.curvePublicKey.utf8ByteSize = 40
  curveKey : ∀ key userId : String, policy.curveKeys[key]? = some userId ↔
    ∃ principal : Principal,
      policy.principals[userId]? = some principal ∧ principal.curvePublicKey = key
  owner : ∀ (clientId : BitVec 128) (userId : String),
    policy.clientOwners[clientId]? = some userId → userId.utf8ByteSize ≤ 255
  owners_size : policy.clientOwners.size ≤ 100000

/-- The client ids of a principal are entered under its user id, and no more than the limit. -/
theorem owners_of_foldlM {userId : String} {clientIds : List String} {owners after : ClientOwners}
    (hid : userId.utf8ByteSize ≤ 255)
    (howner : ∀ (clientId : BitVec 128) (owner : String), owners[clientId]? = some owner →
      owner.utf8ByteSize ≤ 255) (hsize : owners.size ≤ 100000)
    (h : clientIds.foldlM (TrustPolicy.addClientId userId) owners = .ok after) :
    (∀ (clientId : BitVec 128) (owner : String), after[clientId]? = some owner →
      owner.utf8ByteSize ≤ 255) ∧
      after.size ≤ 100000 := by
  refine foldlM_ok_invariant (P := fun _ (owners : ClientOwners) ↦
    (∀ (clientId : BitVec 128) (owner : String), owners[clientId]? = some owner →
      owner.utf8ByteSize ≤ 255) ∧
      owners.size ≤ 100000) ?_ ⟨howner, hsize⟩ h
  rintro _ owners clientId after ⟨howner, -⟩ hstep
  obtain ⟨parsed, -, hstep⟩ := bind_eq_ok_iff.mp hstep
  obtain ⟨_, hroom, hstep⟩ := bind_eq_ok_iff.mp hstep
  obtain ⟨_, -, hstep⟩ := bind_eq_ok_iff.mp hstep
  obtain rfl := Except.ok.inj hstep
  rw [throwIf_eq_ok_iff] at hroom
  refine ⟨fun other owner hother ↦ ?_, ?_⟩
  · rw [ExtTreeMap.getElem?_insert] at hother
    split_ifs at hother
    · exact Option.some.inj hother ▸ hid
    · exact howner other owner hother
  · have hinsert : (owners.insert parsed userId).size ≤ owners.size + 1 :=
      ExtTreeMap.size_insert_le
    omega

variable {policy : TrustPolicy}

/-- What was checked of a principal that is entered. -/
theorem addPrincipal_eq_ok {after : TrustPolicy} {principal : Principal}
    (h : policy.addPrincipal principal = .ok after) :
    principal.userId.utf8ByteSize ≤ 255 ∧ principal.permissions ≠ [] ∧
      isZ85PublicKey principal.curvePublicKey = true ∧
      policy.curveKeys[principal.curvePublicKey]? = none ∧
      policy.principals[principal.userId]? = none ∧
      ∃ owners, principal.clientIds.foldlM (TrustPolicy.addClientId principal.userId)
        policy.clientOwners = .ok owners ∧
        after = { policy with
          principals := policy.principals.insert principal.userId principal
          curveKeys := policy.curveKeys.insert principal.curvePublicKey principal.userId
          clientOwners := owners } := by
  obtain ⟨_, hid, h⟩ := bind_eq_ok_iff.mp h
  obtain ⟨_, hpermissions, h⟩ := bind_eq_ok_iff.mp h
  obtain ⟨_, -, h⟩ := bind_eq_ok_iff.mp h
  obtain ⟨_, hkey, h⟩ := bind_eq_ok_iff.mp h
  obtain ⟨owners, howners, h⟩ := bind_eq_ok_iff.mp h
  obtain ⟨_, hnewKey, h⟩ := bind_eq_ok_iff.mp h
  obtain ⟨_, hnewId, h⟩ := bind_eq_ok_iff.mp h
  simp only [throwIf_eq_ok_iff, not_or, not_lt, Bool.not_eq_true, Option.isSome_eq_false_iff,
    Option.isNone_iff_eq_none, Bool.not_eq_false] at hid hpermissions hkey hnewKey hnewId
  exact ⟨hid.2, hpermissions, hkey, hnewKey, hnewId, owners, howners, (Except.ok.inj h).symm⟩

theorem TrustPolicy.Indexed.addPrincipal {after : TrustPolicy} {principal : Principal}
    (h : policy.Indexed) (hadd : policy.addPrincipal principal = .ok after) : after.Indexed := by
  obtain ⟨hid, hpermissions, hkey, hnewKey, hnewId, owners, howners, rfl⟩ := addPrincipal_eq_ok hadd
  obtain ⟨howner, hsize⟩ := owners_of_foldlM hid h.owner h.owners_size howners
  have hwidth : principal.curvePublicKey.utf8ByteSize = 40 := by
    simp only [isZ85PublicKey, Bool.and_eq_true, beq_iff_eq] at hkey
    exact hkey.1.1
  refine ⟨fun userId other hother ↦ ?_, fun key userId ↦ ?_, howner, hsize⟩
  · simp only [ExtTreeMap.getElem?_insert, compare_eq_iff_eq] at hother
    split_ifs at hother with hsame
    · obtain rfl := Option.some.inj hother
      exact ⟨hsame, hsame ▸ hid, hpermissions, hwidth⟩
    · exact h.principal userId other hother
  · simp only [ExtTreeMap.getElem?_insert, compare_eq_iff_eq]
    by_cases huser : principal.userId = userId
    · subst huser
      simp only [if_true, Option.some.injEq, exists_eq_left']
      split_ifs with hsame
      · simp [hsame]
      · rw [h.curveKey]
        simp [hnewId, hsame]
    · simp only [huser, if_false]
      split_ifs with hsame
      · subst hsame
        have hnone := (h.curveKey principal.curvePublicKey userId).not.mp (by simp [hnewKey])
        simpa [huser] using hnone
      · exact h.curveKey key userId

theorem TrustPolicy.Indexed.empty (clusterId : BitVec 128) (generation : UInt64) :
    TrustPolicy.Indexed ⟨clusterId, generation, ∅, ∅, ∅⟩ :=
  ⟨by simp, by simp, by simp, by simp⟩

/-- An accepted policy has the cluster and the generation it was made for, its indexes agree, and it
has no more principals than the limit. -/
theorem TrustPolicy.indexed_of_new {clusterId : BitVec 128} {generation : UInt64}
    {principals : List Principal}
    (h : TrustPolicy.new clusterId generation principals = .ok policy) :
    policy.Indexed ∧ policy.principals.size ≤ 100000 := by
  obtain ⟨_, -, h⟩ := bind_eq_ok_iff.mp h
  obtain ⟨_, hcount, h⟩ := bind_eq_ok_iff.mp h
  rw [throwIf_eq_ok_iff, not_lt] at hcount
  have hloop := foldlM_ok_invariant
    (P := fun done policy ↦ TrustPolicy.Indexed policy ∧ policy.principals.size ≤ done.length)
    (fun {done policy principal after} hpolicy hadd ↦ ?_) ⟨.empty clusterId generation, by simp⟩ h
  · exact ⟨hloop.1, hloop.2.trans hcount⟩
  · refine ⟨hpolicy.1.addPrincipal hadd, ?_⟩
    obtain ⟨-, -, -, -, -, owners, -, rfl⟩ := addPrincipal_eq_ok hadd
    have hinsert : (policy.principals.insert principal.userId principal).size ≤
        policy.principals.size + 1 := ExtTreeMap.size_insert_le
    have hsize := hpolicy.2
    simp only [List.length_append, List.length_singleton]
    omega

/-! ### The bytes determine the indexes -/

theorem selfDelimiting_string :
    SelfDelimiting (fun text : String ↦ text.utf8ByteSize < 2 ^ 64) fun text ↦
      sized (strBytes text) :=
  selfDelimiting_sized.comap strBytes (fun _ h ↦ h) fun _ _ h ↦ strBytes_injective h

theorem selfDelimiting_rowBytes :
    SelfDelimiting (fun row : String × String × Bytes ↦ row.1.utf8ByteSize < 2 ^ 64 ∧
      row.2.1.utf8ByteSize < 2 ^ 64 ∧ row.2.2.length < 2 ^ 64) rowBytes :=
  selfDelimiting_string.prod (selfDelimiting_string.prod selfDelimiting_sized)

theorem selfDelimiting_ownerBytes :
    SelfDelimiting (fun owner : BitVec 128 × String ↦ True ∧ owner.2.utf8ByteSize < 2 ^ 64)
      ownerBytes := by
  have hid : SelfDelimiting (fun _ : BitVec 128 ↦ True) u128Be :=
    .of_width 16 length_u128Be fun _ _ _ _ h ↦ u128Be_injective h
  exact hid.prod selfDelimiting_string

theorem mem_permissionTags {permissions : List Permission} {tag : UInt8} :
    tag ∈ permissionTags permissions ↔ ∃ permission ∈ permissions, permission.tag = tag := by
  simp [permissionTags]

theorem tag_injective : Function.Injective Permission.tag := by
  intro first second h
  cases first <;> cases second <;> first | rfl | cases h

theorem tag_mem_permissionTags {permissions : List Permission} {permission : Permission} :
    permission.tag ∈ permissionTags permissions ↔ permission ∈ permissions := by
  rw [mem_permissionTags]
  exact ⟨fun ⟨other, hother, htag⟩ ↦ tag_injective htag ▸ hother, fun h ↦ ⟨permission, h, rfl⟩⟩

/-- The tags are the same for lists with the same permissions. -/
theorem permissionTags_eq_iff {first second : List Permission} :
    permissionTags first = permissionTags second ↔
      ∀ permission, permission ∈ first ↔ permission ∈ second := by
  refine ⟨fun h permission ↦ ?_, fun h ↦ ?_⟩
  · rw [← tag_mem_permissionTags, h, tag_mem_permissionTags]
  · have hsorted (permissions : List Permission) :
        (permissionTags permissions).Pairwise (· ≤ ·) :=
      (List.pairwise_insertionSort _ _).sublist (List.dedup_sublist _)
    have hperm : (permissionTags first).Perm (permissionTags second) := by
      refine (List.perm_ext_iff_of_nodup (List.nodup_dedup _) (List.nodup_dedup _)).mpr fun tag ↦ ?_
      change tag ∈ permissionTags first ↔ tag ∈ permissionTags second
      simp only [mem_permissionTags, h]
    exact hperm.eq_of_pairwise (fun _ _ _ _ hle hge ↦ UInt8.le_antisymm hle hge) (hsorted first)
      (hsorted second)

/-- There are five tags. -/
theorem length_permissionTags_le (permissions : List Permission) :
    (permissionTags permissions).length ≤ 5 := by
  have hsubset : permissionTags permissions ⊆ [1, 2, 3, 4, 5] := by
    intro tag htag
    obtain ⟨permission, -, rfl⟩ := mem_permissionTags.mp htag
    cases permission <;> decide
  exact ((List.nodup_dedup _).subperm hsubset).length_le

namespace TrustPolicy.Indexed

variable {first second : TrustPolicy}

/-- The rows are a map from user ids, listed in their order. -/
theorem rows_eq_iff (hfirst : first.Indexed) (hsecond : second.Indexed) :
    first.rows = second.rows ↔ ∀ userId : String,
      first.principals[userId]?.map Principal.row =
        second.principals[userId]?.map Principal.row := by
  have hlist {policy : TrustPolicy} (hpolicy : policy.Indexed) :
      (policy.principals.map fun _ principal ↦ principal.row).toList =
        policy.rows.map fun row ↦ (row.1, row) := by
    rw [ExtTreeMap.toList_map, rows, List.map_map]
    refine List.map_congr_left fun entry hentry ↦ ?_
    have hfound := ExtTreeMap.mem_toList_iff_getElem?_eq_some.mp hentry
    exact Prod.ext (hpolicy.principal _ _ hfound).1.symm rfl
  constructor
  · intro h userId
    have hmaps : (first.principals.map fun _ principal ↦ principal.row) =
        second.principals.map fun _ principal ↦ principal.row := by
      rw [← ExtTreeMap.toList_inj, hlist hfirst, hlist hsecond, h]
    have hpoint := congrArg (·[userId]?) hmaps
    simpa [ExtTreeMap.getElem?_map] using hpoint
  · intro h
    have hmaps : (first.principals.map fun _ principal ↦ principal.row) =
        second.principals.map fun _ principal ↦ principal.row :=
      ExtTreeMap.ext_getElem? fun userId ↦ by
        simpa [ExtTreeMap.getElem?_map] using h userId
    have hrows := congrArg (fun map : ExtTreeMap String (String × String × Bytes) compare ↦
      map.toList.map Prod.snd) hmaps
    simpa [hlist hfirst, hlist hsecond, Function.comp_def] using hrows

/-- Assumes: two policies within the limits. Their bytes are the same exactly if the cluster, the
generation, the rows and the owners are. -/
theorem fingerprintBytes_eq_iff (hfirst : first.Indexed) (hsecond : second.Indexed)
    (hfirstSize : first.principals.size ≤ 100000) (hsecondSize : second.principals.size ≤ 100000) :
    first.fingerprintBytes = second.fingerprintBytes ↔
      first.clusterId = second.clusterId ∧ first.generation = second.generation ∧
        first.rows = second.rows ∧ first.clientOwners = second.clientOwners := by
  constructor
  · intro h
    have hrow {policy : TrustPolicy} (hpolicy : policy.Indexed)
        (hsize : policy.principals.size ≤ 100000) : policy.rows.length < 2 ^ 64 ∧
          ∀ row ∈ policy.rows, row.1.utf8ByteSize < 2 ^ 64 ∧ row.2.1.utf8ByteSize < 2 ^ 64 ∧
            row.2.2.length < 2 ^ 64 := by
      refine ⟨?_, fun row hmem ↦ ?_⟩
      · rw [rows, List.length_map, ExtTreeMap.length_toList]
        omega
      · obtain ⟨entry, hentry, rfl⟩ := List.mem_map.mp hmem
        have hfound := ExtTreeMap.mem_toList_iff_getElem?_eq_some.mp hentry
        obtain ⟨hid, hidSize, -, hkey⟩ := hpolicy.principal _ _ hfound
        have htags := length_permissionTags_le entry.2.permissions
        simp only [Principal.row, hid, hkey]
        omega
    have howner {policy : TrustPolicy} (hpolicy : policy.Indexed) :
        policy.clientOwners.toList.length < 2 ^ 64 ∧ ∀ owner ∈ policy.clientOwners.toList,
          True ∧ owner.2.utf8ByteSize < 2 ^ 64 := by
      refine ⟨?_, fun owner hmem ↦ ⟨trivial, ?_⟩⟩
      · rw [ExtTreeMap.length_toList]
        have := hpolicy.owners_size
        omega
      · have := hpolicy.owner _ _ (ExtTreeMap.mem_toList_iff_getElem?_eq_some.mp hmem)
        omega
    obtain ⟨hcluster, h⟩ := append_beBytes_inj (List.append_cancel_left h)
    obtain ⟨hgeneration, h⟩ := append_beBytes_inj h
    obtain ⟨hrows, h⟩ := selfDelimiting_rowBytes.counted (hrow hfirst hfirstSize)
      (hrow hsecond hsecondSize) h
    have howners := selfDelimiting_ownerBytes.counted (howner hfirst) (howner hsecond)
      (congrArg (· ++ ([] : Bytes)) h)
    exact ⟨u128Be_injective hcluster, u64Be_injective hgeneration, hrows,
      ExtTreeMap.toList_inj.mp howners.1⟩
  · rintro ⟨hcluster, hgeneration, hrows, howners⟩
    rw [fingerprintBytes, fingerprintBytes, hcluster, hgeneration, hrows, howners]

end TrustPolicy.Indexed

/-! ### The answers determine the indexes -/

namespace TrustPolicy

theorem isSome_authorize_iff {userId : String} {permission : Permission} :
    (policy.authorize userId permission).isSome = true ↔
      ∃ principal, policy.principals[userId]? = some principal ∧
        permission ∈ principal.permissions := by
  simp [authorize, Option.isSome_filter, Option.any_eq_true]

/-- The principal of a key is the one that has it. -/
theorem Indexed.principalForCurveKey_iff (h : policy.Indexed) {key userId : String} :
    (policy.principalForCurveKey key).map Principal.userId = some userId ↔
      ∃ principal, policy.principals[userId]? = some principal ∧
        principal.curvePublicKey = key := by
  simp only [principalForCurveKey, Option.map_eq_some_iff, Option.bind_eq_some_iff, h.curveKey]
  constructor
  · rintro ⟨principal, ⟨found, ⟨other, hother, hkey⟩, hprincipal⟩, rfl⟩
    obtain rfl : other = principal := Option.some.inj (hother.symm.trans hprincipal)
    rw [(h.principal _ _ hprincipal).1]
    exact ⟨other, hprincipal, hkey⟩
  · rintro ⟨principal, hprincipal, hkey⟩
    exact ⟨principal, ⟨userId, ⟨principal, hprincipal, hkey⟩, hprincipal⟩,
      (h.principal _ _ hprincipal).1⟩

theorem ownsClientId_iff {userId : String} {clientId : BitVec 128} :
    policy.ownsClientId userId clientId = true ↔ policy.clientOwners[clientId]? = some userId := by
  simp [ownsClientId, Option.any_eq_true]

/-- Every principal of one policy is in the other, with its key and its permissions. -/
def Covered (one other : TrustPolicy) : Prop :=
  ∀ (userId : String) (principal : Principal), one.principals[userId]? = some principal →
    ∃ found : Principal, other.principals[userId]? = some found ∧
      found.curvePublicKey = principal.curvePublicKey ∧
      ∀ permission, permission ∈ found.permissions ↔ permission ∈ principal.permissions

variable {one other first second : TrustPolicy}

theorem Covered.authorize (h : Covered one other) {userId : String} {permission : Permission}
    (hone : (one.authorize userId permission).isSome = true) :
    (other.authorize userId permission).isSome = true := by
  obtain ⟨principal, hprincipal, hpermission⟩ := isSome_authorize_iff.mp hone
  obtain ⟨found, hfound, -, hpermissions⟩ := h userId principal hprincipal
  exact isSome_authorize_iff.mpr ⟨found, hfound, (hpermissions permission).mpr hpermission⟩

theorem Covered.principalForCurveKey (h : Covered one other) (hone : one.Indexed)
    (hother : other.Indexed) {key userId : String}
    (hkey : (one.principalForCurveKey key).map Principal.userId = some userId) :
    (other.principalForCurveKey key).map Principal.userId = some userId := by
  obtain ⟨principal, hprincipal, rfl⟩ := hone.principalForCurveKey_iff.mp hkey
  obtain ⟨found, hfound, hsame, -⟩ := h userId principal hprincipal
  exact hother.principalForCurveKey_iff.mpr ⟨found, hfound, hsame⟩

theorem covered_of_rows
    (h : ∀ userId : String, one.principals[userId]?.map Principal.row =
      other.principals[userId]?.map Principal.row) : Covered one other := by
  intro userId principal hprincipal
  have hrow := (h userId).symm
  rw [hprincipal, Option.map_some, Option.map_eq_some_iff] at hrow
  obtain ⟨found, hfound, hrow⟩ := hrow
  simp only [Principal.row, Prod.mk.injEq] at hrow
  exact ⟨found, hfound, hrow.2.1, permissionTags_eq_iff.mp hrow.2.2⟩

/-- Assumes: two policies that give the same answers about permissions and keys. A principal has a
permission, so the answers tell that it is there. -/
theorem covered_of_answers (hone : one.Indexed) (hother : other.Indexed)
    (hauthorize : ∀ userId permission, (one.authorize userId permission).isSome =
      (other.authorize userId permission).isSome)
    (hkeys : ∀ key, (one.principalForCurveKey key).map Principal.userId =
      (other.principalForCurveKey key).map Principal.userId) : Covered one other := by
  intro userId principal hprincipal
  have hkey := hone.principalForCurveKey_iff.mpr ⟨principal, hprincipal, rfl⟩
  rw [hkeys] at hkey
  obtain ⟨found, hfound, hsame⟩ := hother.principalForCurveKey_iff.mp hkey
  refine ⟨found, hfound, hsame, fun permission ↦ ?_⟩
  have hanswer := Bool.eq_iff_iff.mp (hauthorize userId permission)
  simpa [isSome_authorize_iff, hprincipal, hfound, iff_comm] using hanswer

theorem rows_of_covered (hfirst : first.Indexed) (hsecond : second.Indexed)
    (hforth : Covered first second) (hback : Covered second first) (userId : String) :
    first.principals[userId]?.map Principal.row = second.principals[userId]?.map Principal.row := by
  cases hprincipal : first.principals[userId]? with
  | none =>
    cases hother : second.principals[userId]? with
    | none => rfl
    | some principal =>
      obtain ⟨found, hfound, -⟩ := hback userId principal hother
      rw [hprincipal] at hfound
      cases hfound
  | some principal =>
    obtain ⟨found, hfound, hkey, hpermissions⟩ := hforth userId principal hprincipal
    have hids : found.userId = principal.userId :=
      (hsecond.principal _ _ hfound).1.trans (hfirst.principal _ _ hprincipal).1.symm
    simp [hfound, Principal.row, hids, hkey, permissionTags_eq_iff.mpr hpermissions]

/-- The rows are the answers about permissions and keys, read from outside. -/
theorem Indexed.rows_eq_iff_answers (hfirst : first.Indexed) (hsecond : second.Indexed) :
    first.rows = second.rows ↔
      (∀ userId permission, (first.authorize userId permission).isSome =
        (second.authorize userId permission).isSome) ∧
      ∀ key, (first.principalForCurveKey key).map Principal.userId =
        (second.principalForCurveKey key).map Principal.userId := by
  rw [hfirst.rows_eq_iff hsecond]
  constructor
  · intro h
    have hforth := covered_of_rows h
    have hback := covered_of_rows fun userId ↦ (h userId).symm
    exact ⟨fun _ _ ↦ Bool.eq_iff_iff.mpr ⟨hforth.authorize, hback.authorize⟩,
      fun _ ↦ Option.ext fun _ ↦ ⟨hforth.principalForCurveKey hfirst hsecond,
        hback.principalForCurveKey hsecond hfirst⟩⟩
  · rintro ⟨hauthorize, hkeys⟩
    exact rows_of_covered hfirst hsecond (covered_of_answers hfirst hsecond hauthorize hkeys)
      (covered_of_answers hsecond hfirst (fun _ _ ↦ (hauthorize _ _).symm) fun _ ↦ (hkeys _).symm)

theorem clientOwners_eq_iff :
    first.clientOwners = second.clientOwners ↔ ∀ userId clientId,
      first.ownsClientId userId clientId = second.ownsClientId userId clientId := by
  refine ⟨fun h userId clientId ↦ by rw [ownsClientId, ownsClientId, h], fun h ↦ ?_⟩
  refine ExtTreeMap.ext_getElem? fun clientId ↦ Option.ext fun userId ↦ ?_
  rw [← ownsClientId_iff, ← ownsClientId_iff, h]

end TrustPolicy

/-- The fingerprint identifies the effective policy. Two accepted policies, whatever the order and
the spelling they were given in, have the same bytes under the fingerprint exactly if they are for
the same cluster and generation and answer every question alike: who has a permission, whose a key
is, and who owns a client id. -/
theorem fingerprint_identifies_effective_policy
    {firstCluster secondCluster : BitVec 128} {firstGeneration secondGeneration : UInt64}
    {firstPrincipals secondPrincipals : List Principal} {first second : TrustPolicy}
    (hfirst : TrustPolicy.new firstCluster firstGeneration firstPrincipals = .ok first)
    (hsecond : TrustPolicy.new secondCluster secondGeneration secondPrincipals = .ok second) :
    first.fingerprintBytes = second.fingerprintBytes ↔
      first.clusterId = second.clusterId ∧ first.generation = second.generation ∧
      (∀ userId permission, (first.authorize userId permission).isSome =
        (second.authorize userId permission).isSome) ∧
      (∀ key, (first.principalForCurveKey key).map Principal.userId =
        (second.principalForCurveKey key).map Principal.userId) ∧
      ∀ userId clientId,
        first.ownsClientId userId clientId = second.ownsClientId userId clientId := by
  obtain ⟨hfirstIndexed, hfirstSize⟩ := TrustPolicy.indexed_of_new hfirst
  obtain ⟨hsecondIndexed, hsecondSize⟩ := TrustPolicy.indexed_of_new hsecond
  rw [hfirstIndexed.fingerprintBytes_eq_iff hsecondIndexed hfirstSize hsecondSize,
    hfirstIndexed.rows_eq_iff_answers hsecondIndexed, TrustPolicy.clientOwners_eq_iff, and_assoc]

/-- Two listings of one policy: the principals, the permissions of one of them and the spelling of
its client id differ, and no question is answered differently. -/
theorem fingerprint_identifies_effective_policy_listed_twice :
    let node : Principal := ⟨"node", "0000000000000000000000000000000000000000", [.peerRpc], []⟩
    let key := "0000000000000000000000000000000000000001"
    ∃ first second,
      TrustPolicy.new 7 1 [node, ⟨"app", key, [.clientWrite, .clientRead], ["0x0A"]⟩] = .ok first ∧
      TrustPolicy.new 7 1 [⟨"app", key, [.clientRead, .clientWrite, .clientRead], ["0xa"]⟩, node] =
        .ok second ∧
      first.fingerprintBytes = second.fingerprintBytes ∧
      ∀ userId permission, (first.authorize userId permission).isSome =
        (second.authorize userId permission).isSome := by
  intro node key
  have hbytes : (TrustPolicy.new 7 1
      [node, ⟨"app", key, [.clientWrite, .clientRead], ["0x0A"]⟩]).toOption.map
        TrustPolicy.fingerprintBytes = (TrustPolicy.new 7 1
      [⟨"app", key, [.clientRead, .clientWrite, .clientRead], ["0xa"]⟩, node]).toOption.map
        TrustPolicy.fingerprintBytes := by
    decide +kernel
  have hsome : (TrustPolicy.new 7 1
      [node, ⟨"app", key, [.clientWrite, .clientRead], ["0x0A"]⟩]).toOption.isSome = true := by
    decide +kernel
  cases hfirst : TrustPolicy.new 7 1
      [node, ⟨"app", key, [.clientWrite, .clientRead], ["0x0A"]⟩] with
  | error message =>
    rw [hfirst] at hsome
    cases hsome
  | ok first =>
    cases hsecond : TrustPolicy.new 7 1
        [⟨"app", key, [.clientRead, .clientWrite, .clientRead], ["0xa"]⟩, node] with
    | error message =>
      rw [hfirst, hsecond] at hbytes
      cases hbytes
    | ok second =>
      rw [hfirst, hsecond] at hbytes
      have hequal := Option.some.inj hbytes
      exact ⟨first, second, rfl, rfl, hequal,
        ((fingerprint_identifies_effective_policy hfirst hsecond).mp hequal).2.2.1⟩

end DalService.Transport
