import DalService.Foundation.Returns
import DalService.Types

/-!
# Search index definitions and catalog records

The definition of a search index, its generations and the catalog record of an index, with the
checks `search/definition.rs` makes on them. A generation carries the SHA-256 digest of the encoding
of its definition, so a stored generation can be checked against itself (`validateIntegrity`), and a
catalog record is bounded in the number of retiring generations and in its encoded size
(`SearchIndexRecord.validate`).

What the meta group relies on is that a generation it builds passes its own check
(`validateIntegrity_of_withRevision`), and that a valid record stays valid when generations are only
taken out of its list of retiring ones (`SearchIndexRecord.validate_of_retiring_sublist`).
-/

set_option autoImplicit false

namespace DalService.Search

open Foundation Bincode

abbrev SearchIndexGenerationId := UInt64

def SEARCH_MAX_FIELDS : ℕ := 64

def SEARCH_MAX_NAME_BYTES : ℕ := 128

def SEARCH_MAX_PATH_SEGMENTS : ℕ := 16

def SEARCH_MAX_DEFINITION_BYTES : ℕ := 64 * 1024

def SEARCH_MAX_INDEXES : ℕ := 64

def SEARCH_MAX_CATALOG_BYTES : ℕ := 256 * 1024

def SEARCH_MAX_CATALOG_FRAME_BYTES : ℕ := SEARCH_MAX_INDEXES * SEARCH_MAX_CATALOG_BYTES + 64 * 1024

def SEARCH_MAX_RETIRING_GENERATIONS : ℕ := 4096

def SEARCH_MAX_FRAME_BYTES : ℕ := 32 * 1024 * 1024

/-! ### Names -/

/-- `char::is_control`. -/
def isControl (c : Char) : Bool := c.val < 0x20 || (0x7f ≤ c.val && c.val ≤ 0x9f)

def validateName (kind name : String) : Result Unit := do
  throwIf (name.isEmpty ∨ SEARCH_MAX_NAME_BYTES < name.utf8ByteSize)
    (.search (kind ++ " must be 1..=" ++ toString SEARCH_MAX_NAME_BYTES ++ " bytes"))
  throwIf (name.toList.any isControl) (.search (kind ++ " contains a control character"))

/-- `u8::is_ascii_alphanumeric`. -/
def isAsciiAlphanumeric (byte : UInt8) : Bool :=
  ('0'.toUInt8 ≤ byte && byte ≤ '9'.toUInt8) || ('A'.toUInt8 ≤ byte && byte ≤ 'Z'.toUInt8) ||
    ('a'.toUInt8 ≤ byte && byte ≤ 'z'.toUInt8)

def validateIndexName (name : String) : Result Unit := do
  validateName "index name" name
  throwIf (¬(strBytes name).all fun byte ↦ isAsciiAlphanumeric byte || byte = '-'.toUInt8 ||
      byte = '_'.toUInt8 || byte = '.'.toUInt8)
    (.search "index name may contain only ASCII letters, digits, '-', '_', and '.'")
  throwIf ((strBytes name).all (· = '.'.toUInt8))
    (.search "index name may not consist only of '.' characters")

/-! ### Definitions -/

inductive PathSegment
  | key (key : String)
  | index (index : UInt32)
  deriving DecidableEq, Repr

inductive FieldKind
  | text (tokenizer : String) (positions : Bool)
  | keyword
  | u64
  | i64
  | f64
  | bool
  | date
  | facet
  deriving DecidableEq, Repr

def FieldKind.isText : FieldKind → Bool
  | .text _ _ => true
  | _ => false

structure SearchField where
  name : String
  sourcePath : List PathSegment
  kind : FieldKind
  required : Bool
  multiValued : Bool
  indexed : Bool
  stored : Bool
  fast : Bool
  deriving DecidableEq, Repr

structure SearchIndexDefinition where
  documentType : String
  fields : List SearchField
  defaultSearchFields : List String
  deriving DecidableEq, Repr

instance : Bincode PathSegment :=
  ⟨fun segment ↦
    match segment with
    | .key key => variant 0 ++ encode key
    | .index index => variant 1 ++ encode index⟩

instance : Bincode FieldKind :=
  ⟨fun kind ↦
    match kind with
    | .text tokenizer positions =>
      variant 0 ++ encode tokenizer ++ encode positions
    | .keyword => variant 1
    | .u64 => variant 2
    | .i64 => variant 3
    | .f64 => variant 4
    | .bool => variant 5
    | .date => variant 6
    | .facet => variant 7⟩

instance : Bincode SearchField :=
  ⟨fun field ↦
    encode field.name ++ encode field.sourcePath ++ encode field.kind ++
      encode field.required ++ encode field.multiValued ++
      encode field.indexed ++ encode field.stored ++ encode field.fast⟩

instance : Bincode SearchIndexDefinition :=
  ⟨fun definition ↦
    encode definition.documentType ++ encode definition.fields ++
      encode definition.defaultSearchFields⟩

variable (prims : Primitives)

/-- The checks of one field; `names` are the names of the fields before it. -/
def validateField (names : List String) (field : SearchField) : Result Unit := do
  let shown := prims.debugText field.name
  validateName "field" field.name
  throwIf (field.name.toList.head? = some '_') (.search ("field name " ++ shown ++ " is reserved"))
  throwIf (names.contains field.name) (.search ("duplicate field name " ++ shown))
  throwIf (field.sourcePath.isEmpty ∨ SEARCH_MAX_PATH_SEGMENTS < field.sourcePath.length)
    (.search ("field " ++ shown ++ " path must have 1..=" ++ toString SEARCH_MAX_PATH_SEGMENTS ++
      " segments"))
  field.sourcePath.forM fun
    | .key key => validateName "path key" key
    | .index _ => pure ()
  throwIf (!field.indexed ∧ !field.stored ∧ !field.fast)
    (.search ("field " ++ shown ++ " has no index, store, or fast option"))
  throwIf (field.fast ∧ field.kind.isText) (.search ("text field " ++ shown ++ " cannot be fast"))
  throwIf (field.kind = .facet ∧ (!field.indexed ∨ !field.fast))
    (.search ("facet field " ++ shown ++ " must be indexed and fast"))
  if let .text tokenizer _ := field.kind then
    validateName "tokenizer" tokenizer
    throwIf (tokenizer ∉ ["default", "raw", "en_stem", "whitespace"])
      (.search ("field " ++ shown ++ " uses unsupported tokenizer " ++ prims.debugText tokenizer))

/-- The checks of the fields in order; `names` are the names seen so far. -/
def validateFields (names : List String) : List SearchField → Result Unit
  | [] => pure ()
  | field :: rest => do
    validateField prims names field
    validateFields (field.name :: names) rest

/-- The checks of the default search fields in order; `defaults` are those seen so far. -/
def validateDefaults (fields : List SearchField) (defaults : List String) :
    List String → Result Unit
  | [] => pure ()
  | name :: rest => do
    let shown := prims.debugText name
    throwIf (defaults.contains name) (.search ("duplicate default search field " ++ shown))
    let some field := fields.find? (·.name = name)
      | throw (.search ("unknown default search field " ++ shown))
    throwIf (!field.indexed ∨ ¬(field.kind.isText ∨ field.kind = .keyword))
      (.search ("default search field " ++ shown ++ " must be indexed text or keyword"))
    validateDefaults fields (name :: defaults) rest

def SearchIndexDefinition.validate (definition : SearchIndexDefinition) : Result Unit := do
  validateName "document type" definition.documentType
  throwIf (definition.fields.isEmpty ∨ SEARCH_MAX_FIELDS < definition.fields.length)
    (.search ("an index must define 1..=" ++ toString SEARCH_MAX_FIELDS ++ " fields"))
  validateFields prims [] definition.fields
  validateDefaults prims definition.fields [] definition.defaultSearchFields
  throwIf (SEARCH_MAX_DEFINITION_BYTES < encodedLen definition)
    (.search ("encoded index definition exceeds " ++ toString SEARCH_MAX_DEFINITION_BYTES ++
      " bytes"))

/-- The digest of a valid definition. -/
def SearchIndexDefinition.definitionHash (definition : SearchIndexDefinition) :
    Result Digest32 := do
  definition.validate prims
  return prims.sha256 (encode definition)

/-! ### Generations and catalog records -/

def SEARCH_ENGINE_REVISION : UInt32 := 2

structure SearchIndexGeneration where
  id : SearchIndexGenerationId
  definitionHash : Digest32
  engineRevision : UInt32
  definition : SearchIndexDefinition
  deriving DecidableEq, Repr

namespace SearchIndexGeneration

/-- The generation a committed command builds. -/
def withRevision (id : SearchIndexGenerationId) (engineRevision : UInt32)
    (definition : SearchIndexDefinition) : Result SearchIndexGeneration := do
  throwIf (id = 0) (.search "index generation must be non-zero")
  throwIf (engineRevision = 0) (.search "index engine revision must be non-zero")
  let definitionHash ← definition.definitionHash prims
  return { id, definitionHash, engineRevision, definition }

/-- The structural checks of a stored generation. -/
def validateIntegrity (generation : SearchIndexGeneration) : Result Unit := do
  throwIf (generation.id = 0) (.search "index generation must be non-zero")
  throwIf (generation.engineRevision = 0) (.search "index engine revision must be non-zero")
  throwIf (generation.definitionHash ≠ (← generation.definition.definitionHash prims))
    (.search "index definition hash mismatch")

/-- This binary builds and serves the generation. -/
def validateIdentity (generation : SearchIndexGeneration) : Result Unit := do
  generation.validateIntegrity prims
  throwIf (generation.engineRevision ≠ SEARCH_ENGINE_REVISION)
    (.search ("index engine revision " ++ toString generation.engineRevision.toNat ++
      " is not supported (expected " ++ toString SEARCH_ENGINE_REVISION.toNat ++ ")"))

end SearchIndexGeneration

structure SearchIndexRecord where
  name : String
  active : Option SearchIndexGeneration
  building : Option SearchIndexGeneration
  retiring : List SearchIndexGenerationId
  deriving DecidableEq, Repr

instance : Bincode SearchIndexGeneration :=
  ⟨fun generation ↦
    encode generation.id ++ encode generation.definitionHash ++
      encode generation.engineRevision ++ encode generation.definition⟩

instance : Bincode SearchIndexRecord :=
  ⟨fun record ↦
    encode record.name ++ encode record.active ++ encode record.building ++
      encode record.retiring⟩

/-- The checks of an optional generation of a record. -/
def validateSlot : Option SearchIndexGeneration → Result Unit
  | none => pure ()
  | some generation => generation.validateIntegrity prims

/-- The checks of a stored catalog record. -/
def SearchIndexRecord.validate (record : SearchIndexRecord) : Result Unit := do
  validateIndexName record.name
  throwIf (SEARCH_MAX_RETIRING_GENERATIONS < record.retiring.length)
    (.search ("search index has more than " ++ toString SEARCH_MAX_RETIRING_GENERATIONS ++
      " retiring generations"))
  validateSlot prims record.active
  validateSlot prims record.building
  throwIf (SEARCH_MAX_CATALOG_BYTES < encodedLen record)
    (.search ("encoded search catalog record exceeds " ++ toString SEARCH_MAX_CATALOG_BYTES ++
      " bytes"))

/-- A node's report that it serves a generation for one group. -/
structure SearchIndexReady where
  generation : SearchIndexGenerationId
  definitionHash : Digest32
  engineRevision : UInt32
  group : GroupId
  nodeId : NodeId
  votersLogId : LogId
  projectionEpoch : UInt64
  sourceLogId : LogId
  deriving DecidableEq, Repr

/-! ### What the checks guarantee -/

variable {prims}

/-- Assumes: a name that passed the check. Its length fits four bytes. -/
theorem utf8ByteSize_le_of_validateIndexName {name : String}
    (h : validateIndexName name = .ok ()) : name.utf8ByteSize ≤ SEARCH_MAX_NAME_BYTES := by
  obtain ⟨_, hname, -⟩ := bind_eq_ok_iff.mp h
  obtain ⟨_, hbound, -⟩ := bind_eq_ok_iff.mp hname
  rw [throwIf_eq_ok_iff, not_or, not_lt] at hbound
  exact hbound.2

/-- The identity of a built generation is the one it was given. -/
theorem id_of_withRevision {id : SearchIndexGenerationId} {engineRevision : UInt32}
    {definition : SearchIndexDefinition} {generation : SearchIndexGeneration}
    (h : SearchIndexGeneration.withRevision prims id engineRevision definition = .ok generation) :
    generation.id = id := by
  unfold SearchIndexGeneration.withRevision at h
  simp only [bind_eq_ok_iff, throwIf_eq_ok_iff] at h
  obtain ⟨_, -, _, -, hash, -, hgeneration⟩ := h
  cases hgeneration
  rfl

/-- What a record must satisfy to pass its check. -/
theorem SearchIndexRecord.validate_eq_ok_iff {record : SearchIndexRecord} :
    record.validate prims = .ok () ↔
      validateIndexName record.name = .ok () ∧
        record.retiring.length ≤ SEARCH_MAX_RETIRING_GENERATIONS ∧
        validateSlot prims record.active = .ok () ∧ validateSlot prims record.building = .ok () ∧
        encodedLen record ≤ SEARCH_MAX_CATALOG_BYTES := by
  unfold SearchIndexRecord.validate
  simp only [bind_eq_ok_iff, throwIf_eq_ok_iff, not_lt]
  constructor
  · rintro ⟨_, hname, _, hretiring, _, hactive, _, hbuilding, hsize⟩
    exact ⟨hname, hretiring, hactive, hbuilding, hsize⟩
  · rintro ⟨hname, hretiring, hactive, hbuilding, hsize⟩
    exact ⟨(), hname, (), hretiring, (), hactive, (), hbuilding, hsize⟩

/-- Taking generations out of the retiring list makes the record no longer. -/
theorem encodedLen_le_of_retiring_sublist {record : SearchIndexRecord}
    {retiring : List SearchIndexGenerationId} (h : retiring.Sublist record.retiring) :
    encodedLen { record with retiring := retiring } ≤ encodedLen record := by
  have hlist : encodedLen retiring ≤ encodedLen record.retiring := by
    rw [encodedLen_list, encodedLen_list]
    exact Nat.add_le_add_left ((h.map _).sum_le_sum fun _ _ ↦ Nat.zero_le _) 8
  unfold encodedLen at hlist ⊢
  simp only [encode, List.length_append] at hlist ⊢
  omega

/-- Assumes: a valid record. It stays valid when generations are taken out of its retiring list. -/
theorem SearchIndexRecord.validate_of_retiring_sublist {record : SearchIndexRecord}
    {retiring : List SearchIndexGenerationId} (hvalid : record.validate prims = .ok ())
    (h : retiring.Sublist record.retiring) :
    SearchIndexRecord.validate prims { record with retiring := retiring } = .ok () := by
  rw [SearchIndexRecord.validate_eq_ok_iff] at hvalid ⊢
  obtain ⟨hname, hretiring, hactive, hbuilding, hsize⟩ := hvalid
  exact ⟨hname, h.length_le.trans hretiring, hactive, hbuilding,
    (encodedLen_le_of_retiring_sublist h).trans hsize⟩

end DalService.Search
