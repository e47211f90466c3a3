import DalService.Foundation.ByteString

/-!
# The fixed-width encoding of records

The encoding is positional: integers are little-endian at their own width, a sequence or a text is
preceded by its length in eight bytes, an option by one byte, an enumeration by the four bytes of
its variant number, and the fields of a record follow each other. Only the encoding is modelled:
records are kept decoded, and what the encoding decides is their size and the digests taken over
their bytes.
-/

set_option autoImplicit false

namespace DalService.Foundation

/-- A type with a fixed-width encoding. -/
class Bincode (T : Type) where
  encode : T → Bytes

namespace Bincode

variable {T U : Type} [Bincode T] [Bincode U]

/-- The number of bytes of the encoding. -/
def encodedLen (value : T) : ℕ := (encode value).length

/-- The four bytes that number the variant of an enumeration. -/
def variant (number : ℕ) : Bytes := leBytes 4 number

instance : Bincode UInt8 := ⟨fun value ↦ [value]⟩

instance : Bincode UInt16 := ⟨fun value ↦ leBytes 2 value.toNat⟩

instance : Bincode UInt32 := ⟨fun value ↦ leBytes 4 value.toNat⟩

instance : Bincode UInt64 := ⟨fun value ↦ leBytes 8 value.toNat⟩

instance : Bincode (BitVec 128) := ⟨fun value ↦ leBytes 16 value.toNat⟩

instance : Bincode Bool := ⟨fun value ↦ [if value then 1 else 0]⟩

/-- An array has no length prefix. -/
instance (length : ℕ) : Bincode (Vector T length) := ⟨fun value ↦ value.toList.flatMap encode⟩

instance : Bincode (List T) :=
  ⟨fun values ↦ leBytes 8 values.length ++ values.flatMap encode⟩

instance : Bincode String := ⟨fun text ↦ leBytes 8 text.utf8ByteSize ++ strBytes text⟩

instance : Bincode (Option T) :=
  ⟨fun value ↦
    match value with
    | none => [0]
    | some value => 1 :: encode value⟩

instance : Bincode (T × U) := ⟨fun pair ↦ encode pair.1 ++ encode pair.2⟩

@[simp] theorem encodedLen_uInt64 (value : UInt64) : encodedLen value = 8 := length_leBytes _ _

@[simp] theorem encodedLen_uInt16 (value : UInt16) : encodedLen value = 2 := length_leBytes _ _

@[simp] theorem encodedLen_bitVec (value : BitVec 128) : encodedLen value = 16 := length_leBytes _ _

@[simp] theorem encodedLen_bool (value : Bool) : encodedLen value = 1 := rfl

@[simp] theorem length_variant (number : ℕ) : (variant number).length = 4 := length_leBytes _ _

@[simp] theorem length_encode (value : T) : (encode value).length = encodedLen value := rfl

@[simp] theorem encodedLen_string (text : String) : encodedLen text = 8 + text.utf8ByteSize := by
  change (leBytes 8 text.utf8ByteSize ++ strBytes text).length = _
  rw [List.length_append, length_leBytes, length_strBytes]

@[simp] theorem encodedLen_none : encodedLen (none : Option T) = 1 := rfl

@[simp] theorem encodedLen_some (value : T) : encodedLen (some value) = encodedLen value + 1 := rfl

@[simp] theorem encodedLen_prod (pair : T × U) :
    encodedLen pair = encodedLen pair.1 + encodedLen pair.2 :=
  List.length_append

/-- A sequence takes eight bytes and its elements. -/
theorem encodedLen_list (values : List T) :
    encodedLen values = 8 + (values.map encodedLen).sum := by
  have helements : (values.flatMap encode).length = (values.map encodedLen).sum :=
    List.length_flatMap
  change (leBytes 8 values.length ++ values.flatMap encode).length = _
  rw [List.length_append, length_leBytes, helements]

@[simp] theorem encodedLen_bytes (bytes : Bytes) : encodedLen bytes = 8 + bytes.length := by
  rw [encodedLen_list]
  change 8 + (bytes.map fun _ ↦ 1).sum = _
  rw [List.map_const', List.sum_replicate, smul_eq_mul, mul_one]

/-- Assumes: a bound on the elements. It bounds the sequence. -/
theorem encodedLen_list_le {values : List T} {bound : ℕ}
    (h : ∀ value ∈ values, encodedLen value ≤ bound) :
    encodedLen values ≤ 8 + values.length * bound := by
  rw [encodedLen_list]
  have hsum := List.sum_le_card_nsmul (values.map encodedLen) bound fun size hsize ↦ by
    obtain ⟨value, hvalue, rfl⟩ := List.mem_map.mp hsize
    exact h value hvalue
  rw [List.length_map, smul_eq_mul] at hsum
  exact Nat.add_le_add_left hsum 8

end Bincode

end DalService.Foundation
