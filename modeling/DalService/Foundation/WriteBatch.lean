import DalService.Foundation.ByteString

/-!
# The size of a write batch

A write batch of the storage engine is one string: a header of twelve bytes, then its records. A
record is a tag, the id of its column family unless that is the default one, and its key and value,
each after its length; ids and lengths are `varint32`s, one byte for every seven bits. The size of
the batch is what the durability budgets of a database count.
-/

set_option autoImplicit false

namespace DalService.Foundation

/-- The number of bytes of `varint32`. -/
def varint32Len (value : ℕ) : ℕ :=
  if value < 2 ^ 7 then 1
  else if value < 2 ^ 14 then 2
  else if value < 2 ^ 21 then 3
  else if value < 2 ^ 28 then 4
  else 5

theorem varint32Len_le_five (value : ℕ) : varint32Len value ≤ 5 := by
  unfold varint32Len
  split_ifs <;> omega

/-- Assumes: at most 21 bits. -/
theorem varint32Len_le_three {value : ℕ} (h : value < 2 ^ 21) : varint32Len value ≤ 3 := by
  unfold varint32Len
  split_ifs <;> omega

/-- Assumes: at most 14 bits. -/
theorem varint32Len_le_two {value : ℕ} (h : value < 2 ^ 14) : varint32Len value ≤ 2 := by
  unfold varint32Len
  split_ifs <;> omega

/-- Assumes: at most seven bits. -/
theorem varint32Len_eq_one {value : ℕ} (h : value < 2 ^ 7) : varint32Len value = 1 := if_pos h

/-- A record of a batch: a write of a key, or its deletion, in a column family. -/
structure BatchRecord where
  family : UInt32
  key : Bytes
  value : Option Bytes
  deriving DecidableEq, Repr

namespace BatchRecord

/-- The id of a column family; the default family has none. -/
def familyLen (family : UInt32) : ℕ := if family = 0 then 0 else varint32Len family.toNat

/-- A string of bytes after its length. -/
def prefixedLen (length : ℕ) : ℕ := varint32Len length + length

def size (record : BatchRecord) : ℕ :=
  1 + familyLen record.family + prefixedLen record.key.length +
    (record.value.map fun value ↦ prefixedLen value.length).getD 0

theorem familyLen_le (family : UInt32) : familyLen family ≤ 5 := by
  unfold familyLen
  split_ifs
  · exact Nat.zero_le 5
  · exact varint32Len_le_five _

@[simp] theorem familyLen_default : familyLen 0 = 0 := rfl

end BatchRecord

/-- The size of a batch in bytes. -/
def writeBatchSize (records : List BatchRecord) : ℕ := 12 + (records.map BatchRecord.size).sum

end DalService.Foundation
