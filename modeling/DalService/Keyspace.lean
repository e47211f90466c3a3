import DalService.Types

/-!
# Keys of the state column families

The byte keys of `keyspace.rs`. Every key of a state column family starts with a tag, and every
record of the meta group with a second byte for its kind, so keys of two families never meet. Within
a family the key determines what it names: the user key, the client, the node, the group, the index
name, and for a readiness record the name, generation, group and node together
(`metaSearchReadyKey_inj`). The prefix of the readiness records of one generation covers no other
generation's records (`metaSearchReadyPrefix_isPrefix`), because the name's length stands before the
name.
-/

set_option autoImplicit false

namespace DalService.Keyspace

open Foundation

def TAG_INTERNAL : UInt8 := 0x00

def TAG_USER : UInt8 := 0x01

def TAG_SEQ : UInt8 := 0x02

def TAG_META : UInt8 := 0x03

/-- The length of a name in four bytes, truncated as the `u32` cast truncates it. -/
def nameLenPrefix (name : String) : Bytes := u32Be (UInt32.ofNat name.utf8ByteSize)

def lastAppliedKey : Bytes := [TAG_INTERNAL, 'L'.toUInt8]

def raftAppliedKey : Bytes := [TAG_INTERNAL, 'R'.toUInt8]

def recoveryEpochKey : Bytes := [TAG_INTERNAL, 'E'.toUInt8]

def userKey (key : Bytes) : Bytes := TAG_USER :: key

def seqKey (clientId : ClientId) : Bytes := TAG_SEQ :: u128Be clientId

def metaClusterKey : Bytes := [TAG_META, 'C'.toUInt8]

def metaMaintenanceKey : Bytes := [TAG_META, 'M'.toUInt8]

def metaNodePrefix : Bytes := [TAG_META, 'N'.toUInt8]

def metaNodeKey (nodeId : NodeId) : Bytes := metaNodePrefix ++ u64Be nodeId

def metaRetiredNodeKey (nodeId : NodeId) : Bytes := [TAG_META, 'X'.toUInt8] ++ u64Be nodeId

def metaPlacementKey (group : GroupId) : Bytes := [TAG_META, 'P'.toUInt8] ++ strBytes group.token

def metaSearchIndexPrefix : Bytes := [TAG_META, 'S'.toUInt8]

def metaSearchIndexKey (name : String) : Bytes :=
  metaSearchIndexPrefix ++ nameLenPrefix name ++ strBytes name

def metaSearchReadyPrefix (name : String) (generation : UInt64) : Bytes :=
  [TAG_META, 's'.toUInt8] ++ nameLenPrefix name ++ strBytes name ++ u64Be generation

/-- The three bytes that name a group in a readiness key. -/
def readyGroup : GroupId → Bytes
  | .data partition => 1 :: u16Be partition
  | .meta => [0, 0, 0]

def metaSearchReadyKey (name : String) (generation : UInt64) (group : GroupId) (nodeId : NodeId) :
    Bytes :=
  metaSearchReadyPrefix name generation ++ readyGroup group ++ u64Be nodeId

/-! ### Node-local keys of the search outbox -/

def searchPrefix (group : GroupId) : Bytes := strBytes ("local/search/" ++ group.token ++ "/")

def searchEpochKey (group : GroupId) : Bytes := searchPrefix group ++ strBytes "epoch"

def searchOutboxPrefix (group : GroupId) : Bytes := searchPrefix group ++ strBytes "outbox/"

def searchConsumerPrefix (group : GroupId) : Bytes := searchPrefix group ++ strBytes "consumer/"

def searchConsumerKey (group : GroupId) (name : String) (generation : UInt64) : Bytes :=
  searchConsumerPrefix group ++ nameLenPrefix name ++ strBytes name ++ u64Be generation

/-- The user key a state key stores the record of. -/
def stripUserTag : Bytes → Option Bytes
  | [] => none
  | tag :: rest => if tag = TAG_USER then some rest else none

@[simp] theorem stripUserTag_userKey (key : Bytes) : stripUserTag (userKey key) = some key := rfl

@[simp] theorem stripUserTag_seqKey (clientId : ClientId) : stripUserTag (seqKey clientId) = none :=
  rfl

/-! ### A key determines what it names -/

theorem userKey_injective : Function.Injective userKey := fun _ _ h ↦ (List.cons.inj h).2

theorem seqKey_injective : Function.Injective seqKey := fun _ _ h ↦
  u128Be_injective (List.cons.inj h).2

@[simp] theorem userKey_inj {first second : Bytes} :
    userKey first = userKey second ↔ first = second := userKey_injective.eq_iff

@[simp] theorem seqKey_inj {first second : ClientId} :
    seqKey first = seqKey second ↔ first = second := seqKey_injective.eq_iff

/-! The families of a data group: user records, sequence records and three single records. -/

@[simp] theorem userKey_ne_seqKey (key : Bytes) (clientId : ClientId) :
    userKey key ≠ seqKey clientId := fun h ↦ absurd (List.cons.inj h).1 (by decide)

@[simp] theorem seqKey_ne_userKey (key : Bytes) (clientId : ClientId) :
    seqKey clientId ≠ userKey key := (userKey_ne_seqKey key clientId).symm

@[simp] theorem userKey_ne_internal (key rest : Bytes) : userKey key ≠ TAG_INTERNAL :: rest :=
  fun h ↦ absurd (List.cons.inj h).1 (by decide)

@[simp] theorem internal_ne_userKey (key rest : Bytes) : TAG_INTERNAL :: rest ≠ userKey key :=
  (userKey_ne_internal key rest).symm

@[simp] theorem seqKey_ne_internal (clientId : ClientId) (rest : Bytes) :
    seqKey clientId ≠ TAG_INTERNAL :: rest := fun h ↦ absurd (List.cons.inj h).1 (by decide)

@[simp] theorem internal_ne_seqKey (clientId : ClientId) (rest : Bytes) :
    TAG_INTERNAL :: rest ≠ seqKey clientId := (seqKey_ne_internal clientId rest).symm

theorem metaNodeKey_injective : Function.Injective metaNodeKey := fun _ _ h ↦
  u64Be_injective (List.append_cancel_left h)

theorem metaRetiredNodeKey_injective : Function.Injective metaRetiredNodeKey := fun _ _ h ↦
  u64Be_injective (List.append_cancel_left h)

theorem token_injective : Function.Injective GroupId.token := by
  intro first second h
  cases first with
  | «meta» =>
    cases second with
    | «meta» => rfl
    | data partition =>
      have hfront := congrArg (fun text ↦ text.toList.head?) h
      simp [GroupId.token] at hfront
  | data partition =>
    cases second with
    | «meta» =>
      have hfront := congrArg (fun text ↦ text.toList.head?) h
      simp [GroupId.token] at hfront
    | data other =>
      have hdigits := (String.append_right_inj "data_").mp h
      have hnat := Nat.repr_injective hdigits
      rw [UInt16.toNat_inj.mp hnat]

theorem metaPlacementKey_injective : Function.Injective metaPlacementKey := fun _ _ h ↦
  token_injective (strBytes_injective (List.append_cancel_left h))

theorem length_nameLenPrefix (name : String) : (nameLenPrefix name).length = 4 := length_u32Be _

theorem metaSearchIndexKey_injective : Function.Injective metaSearchIndexKey := by
  intro first second h
  unfold metaSearchIndexKey at h
  rw [List.append_assoc, List.append_assoc] at h
  have hrest := List.append_cancel_left h
  have hsplit := List.append_inj hrest
    (by rw [length_nameLenPrefix, length_nameLenPrefix])
  exact strBytes_injective hsplit.2

theorem length_readyGroup (group : GroupId) : (readyGroup group).length = 3 := by
  cases group <;> rfl

theorem readyGroup_injective : Function.Injective readyGroup := by
  intro first second h
  cases first with
  | «meta» =>
    cases second with
    | «meta» => rfl
    | data partition => exact absurd (List.cons.inj h).1 (by decide)
  | data partition =>
    cases second with
    | «meta» => exact absurd (List.cons.inj h).1 (by decide)
    | data other => rw [u16Be_injective (List.cons.inj h).2]

/-- The parts of a readiness key after its kind, from the right: the node and the group have fixed
widths, so equal keys have equal parts. -/
theorem metaSearchReadyKey_inj {firstName secondName : String} {firstGen secondGen : UInt64}
    {firstGroup secondGroup : GroupId} {firstNode secondNode : NodeId}
    (h : metaSearchReadyKey firstName firstGen firstGroup firstNode =
      metaSearchReadyKey secondName secondGen secondGroup secondNode) :
    firstName = secondName ∧ firstGen = secondGen ∧ firstGroup = secondGroup ∧
      firstNode = secondNode := by
  obtain ⟨hfront, hnode⟩ := List.append_inj' h (by rw [length_u64Be, length_u64Be])
  obtain ⟨hbefore, hgroup⟩ := List.append_inj' hfront
    (by rw [length_readyGroup, length_readyGroup])
  obtain ⟨hnamed, hgen⟩ := List.append_inj' hbefore (by rw [length_u64Be, length_u64Be])
  rw [List.append_assoc, List.append_assoc] at hnamed
  have hname := List.append_inj (List.append_cancel_left hnamed)
    (by rw [length_nameLenPrefix, length_nameLenPrefix])
  exact ⟨strBytes_injective hname.2, u64Be_injective hgen, readyGroup_injective hgroup,
    u64Be_injective hnode⟩

/-- Assumes: both names are shorter than 4 GiB, so their length prefixes are exact. A readiness key
under the prefix of a generation belongs to that generation. -/
theorem metaSearchReadyPrefix_isPrefix {name other : String} {generation otherGen : UInt64}
    {group : GroupId} {nodeId : NodeId} (hname : name.utf8ByteSize < 2 ^ 32)
    (hother : other.utf8ByteSize < 2 ^ 32)
    (h : metaSearchReadyPrefix name generation <+:
      metaSearchReadyKey other otherGen group nodeId) :
    name = other ∧ generation = otherGen := by
  obtain ⟨rest, hrest⟩ := h
  unfold metaSearchReadyKey metaSearchReadyPrefix at hrest
  simp only [List.append_assoc] at hrest
  have hlen := List.append_inj (List.append_cancel_left hrest)
    (by rw [length_nameLenPrefix, length_nameLenPrefix])
  have hsize : name.utf8ByteSize = other.utf8ByteSize := by
    have hmod := beBytes_injOn (UInt32.toNat_lt _) (UInt32.toNat_lt _) hlen.1
    rwa [UInt32.toNat_ofNat', UInt32.toNat_ofNat', Nat.mod_eq_of_lt hname,
      Nat.mod_eq_of_lt hother] at hmod
  have htext := List.append_inj hlen.2 (by rw [length_strBytes, length_strBytes, hsize])
  have hgen := List.append_inj htext.2 (by rw [length_u64Be, length_u64Be])
  exact ⟨strBytes_injective htext.1, u64Be_injective hgen.1⟩

end DalService.Keyspace
