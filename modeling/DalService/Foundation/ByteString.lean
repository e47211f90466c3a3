import Mathlib

/-!
# Byte strings and fixed-width integers in them

A durable record is addressed by a byte string that concatenates tags, names and integers. This
module holds the facts such keys rest on: the big-endian and little-endian renderings of an integer
have a fixed width (`length_beBytes`, `length_leBytes`), they determine every integer that fits the
width (`beBytes_injOn`), and a concatenation whose first parts have one length splits in one way
(`append_beBytes_inj`).
-/

set_option autoImplicit false

namespace DalService.Foundation

/-- A byte string, in the order it is stored. -/
abbrev Bytes := List UInt8

/-- The low `width` bytes of a number, most significant first. -/
def beBytes : (width : ℕ) → (value : ℕ) → Bytes
  | 0, _ => []
  | width + 1, value => UInt8.ofNat (value / 256 ^ width) :: beBytes width value

/-- The low `width` bytes of a number, least significant first. -/
def leBytes : (width : ℕ) → (value : ℕ) → Bytes
  | 0, _ => []
  | width + 1, value => UInt8.ofNat value :: leBytes width (value / 256)

@[simp] theorem length_beBytes (width value : ℕ) : (beBytes width value).length = width := by
  induction width with
  | zero => rfl
  | succ width ih => rw [beBytes, List.length_cons, ih]

@[simp] theorem length_leBytes (width value : ℕ) : (leBytes width value).length = width := by
  induction width generalizing value with
  | zero => rfl
  | succ width ih => rw [leBytes, List.length_cons, ih]

/-- Two numbers with the same big-endian bytes agree below the width. -/
theorem mod_eq_of_beBytes_eq {width first second : ℕ}
    (h : beBytes width first = beBytes width second) :
    first % 256 ^ width = second % 256 ^ width := by
  induction width with
  | zero => rw [pow_zero, Nat.mod_one, Nat.mod_one]
  | succ width ih =>
    rw [beBytes, beBytes, List.cons.injEq] at h
    have hlow := ih h.2
    have htop : first / 256 ^ width % 256 = second / 256 ^ width % 256 := by
      have hbyte := congrArg UInt8.toNat h.1
      rwa [UInt8.toNat_ofNat', UInt8.toNat_ofNat'] at hbyte
    rw [pow_succ, Nat.mod_mul, Nat.mod_mul, hlow, htop]

/-- Assumes: both numbers fit the width. Big-endian bytes determine the number. -/
theorem beBytes_injOn {width first second : ℕ} (hfirst : first < 256 ^ width)
    (hsecond : second < 256 ^ width) (h : beBytes width first = beBytes width second) :
    first = second := by
  have hmod := mod_eq_of_beBytes_eq h
  rwa [Nat.mod_eq_of_lt hfirst, Nat.mod_eq_of_lt hsecond] at hmod

/-- A concatenation that starts with two renderings of one width splits there. -/
theorem append_beBytes_inj {width first second : ℕ} {restFirst restSecond : Bytes}
    (h : beBytes width first ++ restFirst = beBytes width second ++ restSecond) :
    beBytes width first = beBytes width second ∧ restFirst = restSecond :=
  List.append_inj h (by rw [length_beBytes, length_beBytes])

/-- The number that bytes render, most significant first. -/
def beNat : Bytes → ℕ
  | [] => 0
  | byte :: rest => byte.toNat * 256 ^ rest.length + beNat rest

/-- Reading a rendering gives the number back, below the width. -/
theorem beNat_beBytes (width value : ℕ) : beNat (beBytes width value) = value % 256 ^ width := by
  induction width with
  | zero => rw [pow_zero, Nat.mod_one]; rfl
  | succ width ih =>
    have hsplit : value % 256 ^ (width + 1) =
        value % 256 ^ width + 256 ^ width * (value / 256 ^ width % 256) := by
      rw [pow_succ, Nat.mod_mul]
    rw [beBytes, beNat, length_beBytes, ih, UInt8.toNat_ofNat', hsplit, Nat.add_comm, Nat.mul_comm]

/-! ### Machine integers -/

/-- `u16::to_be_bytes`. -/
def u16Be (value : UInt16) : Bytes := beBytes 2 value.toNat

/-- `u32::to_be_bytes`. -/
def u32Be (value : UInt32) : Bytes := beBytes 4 value.toNat

/-- `u64::to_be_bytes`. -/
def u64Be (value : UInt64) : Bytes := beBytes 8 value.toNat

/-- `u128::to_be_bytes`. -/
def u128Be (value : BitVec 128) : Bytes := beBytes 16 value.toNat

@[simp] theorem length_u32Be (value : UInt32) : (u32Be value).length = 4 := length_beBytes _ _

@[simp] theorem length_u64Be (value : UInt64) : (u64Be value).length = 8 := length_beBytes _ _

@[simp] theorem length_u128Be (value : BitVec 128) : (u128Be value).length = 16 :=
  length_beBytes _ _

theorem beNat_u64Be (value : UInt64) : beNat (u64Be value) = value.toNat := by
  rw [u64Be, beNat_beBytes]
  exact Nat.mod_eq_of_lt value.toNat_lt

theorem beNat_u32Be (value : UInt32) : beNat (u32Be value) = value.toNat := by
  rw [u32Be, beNat_beBytes]
  exact Nat.mod_eq_of_lt value.toNat_lt

theorem u16Be_injective : Function.Injective u16Be := fun first second h ↦
  UInt16.toNat_inj.mp (beBytes_injOn first.toNat_lt second.toNat_lt h)

theorem u64Be_injective : Function.Injective u64Be := fun first second h ↦
  UInt64.toNat_inj.mp (beBytes_injOn first.toNat_lt second.toNat_lt h)

theorem u128Be_injective : Function.Injective u128Be := fun first second h ↦
  BitVec.eq_of_toNat_eq (beBytes_injOn first.isLt second.isLt h)

/-! ### Big-endian bytes are ordered as their numbers -/

/-- Numbers compare by their quotient first. -/
theorem compare_mul_add {base highFirst lowFirst highSecond lowSecond : ℕ}
    (hfirst : lowFirst < base) (hsecond : lowSecond < base) :
    compare (base * highFirst + lowFirst) (base * highSecond + lowSecond) =
      (compare highFirst highSecond).then (compare lowFirst lowSecond) := by
  rcases lt_trichotomy highFirst highSecond with hlt | rfl | hgt
  · rw [Nat.compare_eq_lt.mpr hlt, Ordering.lt_then, Nat.compare_eq_lt]
    have hstep := Nat.mul_le_mul_left base (Nat.succ_le_of_lt hlt)
    rw [Nat.mul_succ] at hstep
    omega
  · rw [Std.compare_self, Ordering.eq_then]
    rcases lt_trichotomy lowFirst lowSecond with hlt | rfl | hgt
    · rw [Nat.compare_eq_lt.mpr hlt, Nat.compare_eq_lt]
      omega
    · rw [Std.compare_self, Std.compare_self]
    · rw [Nat.compare_eq_gt.mpr hgt, Nat.compare_eq_gt]
      omega
  · rw [Nat.compare_eq_gt.mpr hgt, Ordering.gt_then, Nat.compare_eq_gt]
    have hstep := Nat.mul_le_mul_left base (Nat.succ_le_of_lt hgt)
    rw [Nat.mul_succ] at hstep
    omega

theorem compare_beBytes (width first second : ℕ) :
    compare (beBytes width first) (beBytes width second) =
      compare (first % 256 ^ width) (second % 256 ^ width) := by
  induction width with
  | zero => simp [beBytes, Nat.mod_one]
  | succ width ih =>
    have hpos : 0 < 256 ^ width := Nat.pow_pos (by decide)
    have hsplit (value : ℕ) : value % 256 ^ (width + 1) =
        256 ^ width * (value / 256 ^ width % 256) + value % 256 ^ width := by
      rw [Nat.mod_pow_succ, Nat.add_comm]
    rw [beBytes, beBytes, List.compare_cons_cons, ih, UInt8.compare_eq_toNat_compare_toNat,
      UInt8.toNat_ofNat', UInt8.toNat_ofNat', hsplit first, hsplit second]
    exact (compare_mul_add (Nat.mod_lt _ hpos) (Nat.mod_lt _ hpos)).symm

theorem compare_u64Be (first second : UInt64) :
    compare (u64Be first) (u64Be second) = compare first second := by
  have hmod (value : UInt64) : value.toNat % 256 ^ 8 = value.toNat :=
    Nat.mod_eq_of_lt value.toNat_lt
  rw [u64Be, u64Be, compare_beBytes, UInt64.compare_eq_toNat_compare_toNat, hmod, hmod]

theorem beNat_lt (bytes : Bytes) : beNat bytes < 256 ^ bytes.length := by
  induction bytes with
  | nil => exact Nat.one_pos
  | cons byte rest ih =>
    rw [beNat, List.length_cons, pow_succ, Nat.mul_comm (256 ^ rest.length)]
    have hbyte := Nat.mul_le_mul_right (256 ^ rest.length) (Nat.le_of_lt_succ byte.toNat_lt)
    have hpow : 256 * 256 ^ rest.length = 255 * 256 ^ rest.length + 256 ^ rest.length := by ring
    omega

/-- Bytes are the rendering of their number. -/
theorem beBytes_beNat (bytes : Bytes) : beBytes bytes.length (beNat bytes) = bytes := by
  have hcongr {width first second : ℕ} (h : first % 256 ^ width = second % 256 ^ width) :
      beBytes width first = beBytes width second := by
    have := compare_beBytes width first second
    rw [h, Std.compare_self] at this
    exact Std.compare_eq_iff_eq.mp this
  induction bytes with
  | nil => rfl
  | cons byte rest ih =>
    have hlow := beNat_lt rest
    rw [List.length_cons, beBytes, beNat]
    congr 1
    · rw [Nat.mul_comm, Nat.mul_add_div (Nat.pos_of_ne_zero (by positivity)),
        Nat.div_eq_of_lt hlow, Nat.add_zero, UInt8.ofNat_toNat]
    · have hmod : (byte.toNat * 256 ^ rest.length + beNat rest) % 256 ^ rest.length =
          beNat rest % 256 ^ rest.length := by
        rw [Nat.mul_comm, Nat.mul_add_mod]
      rw [hcongr hmod, ih]

/-- The number little-endian bytes stand for. -/
def leNat : Bytes → ℕ
  | [] => 0
  | byte :: rest => byte.toNat + 256 * leNat rest

theorem leNat_leBytes (width value : ℕ) : leNat (leBytes width value) = value % 256 ^ width := by
  induction width generalizing value with
  | zero => rw [leBytes, leNat, pow_zero, Nat.mod_one]
  | succ width ih =>
    have hsplit : value % 256 ^ (width + 1) = value % 256 + 256 * (value / 256 % 256 ^ width) := by
      rw [pow_succ', Nat.mod_mul]
    rw [leBytes, leNat, ih, UInt8.toNat_ofNat', hsplit]

/-- Bytes are the little-endian rendering of their number. -/
theorem leBytes_leNat (bytes : Bytes) : leBytes bytes.length (leNat bytes) = bytes := by
  induction bytes with
  | nil => rfl
  | cons byte rest ih =>
    have hbyte : byte.toNat < 256 := byte.toNat_lt
    have hlow : UInt8.ofNat (byte.toNat + 256 * leNat rest) = byte := by
      apply UInt8.toNat_inj.mp
      rw [UInt8.toNat_ofNat', Nat.add_mul_mod_self_left, Nat.mod_eq_of_lt hbyte]
    have hhigh : (byte.toNat + 256 * leNat rest) / 256 = leNat rest := by omega
    rw [List.length_cons, leNat, leBytes, hlow, hhigh, ih]

theorem leNat_lt (bytes : Bytes) : leNat bytes < 256 ^ bytes.length := by
  rw [← leBytes_leNat bytes, leNat_leBytes, length_leBytes]
  exact Nat.mod_lt _ (by positivity)

/-- Byte strings of one length come before what follows them. -/
theorem compare_append {first second : Bytes} (hlength : first.length = second.length)
    (restFirst restSecond : Bytes) :
    compare (first ++ restFirst) (second ++ restSecond) =
      (compare first second).then (compare restFirst restSecond) := by
  induction first generalizing second with
  | nil =>
    obtain rfl : second = [] := List.eq_nil_of_length_eq_zero hlength.symm
    simp
  | cons byte first ih =>
    obtain ⟨other, second, rfl⟩ := List.exists_cons_of_length_eq_add_one hlength.symm
    simp only [List.cons_append, List.compare_cons_cons, ih (Nat.succ.inj hlength),
      Ordering.then_assoc]

/-- Assumes: a byte string at or after `front` that does not start with it. It comes after all that
do. -/
theorem compare_eq_lt_of_isPrefix {front key other : Bytes} (hkey : front <+: key)
    (hother : ¬front <+: other) (hafter : compare other front ≠ .lt) : compare key other = .lt := by
  induction front generalizing key other with
  | nil => exact absurd (List.nil_prefix) hother
  | cons byte front ih =>
    obtain ⟨rest, rfl⟩ := hkey
    cases other with
    | nil => exact absurd rfl hafter
    | cons head tail =>
      rw [List.compare_cons_cons] at hafter
      rw [List.cons_append, List.compare_cons_cons]
      rcases hcompare : compare head byte with _ | _ | _
      · rw [hcompare] at hafter
        exact absurd rfl hafter
      · obtain rfl := Std.compare_eq_iff_eq.mp hcompare
        rw [Std.compare_self] at hafter ⊢
        exact ih (List.prefix_append _ _)
          (fun h ↦ hother ((List.prefix_cons_inj head).mpr h)) hafter
      · rw [Std.OrientedCmp.lt_of_gt hcompare]
        rfl

/-- `u64::checked_add(1)`. -/
def checkedSucc (value : UInt64) : Option UInt64 :=
  if value = UInt64.ofNat (UInt64.size - 1) then none else some (value + 1)

/-- Assumes: the increment is representable. It is the successor. -/
theorem toNat_checkedSucc {value next : UInt64} (h : checkedSucc value = some next) :
    next.toNat = value.toNat + 1 := by
  unfold checkedSucc at h
  split_ifs at h with hmax
  have hlt : value.toNat ≠ UInt64.size - 1 := by
    intro heq
    exact hmax (UInt64.toNat_inj.mp (by rw [heq]; rfl))
  have hbound := value.toNat_lt
  rw [← Option.some.inj h, UInt64.toNat_add, UInt64.toNat_one]
  simp only [UInt64.size] at hlt
  omega

theorem checkedSucc_eq_none_iff {value : UInt64} :
    checkedSucc value = none ↔ value.toNat = UInt64.size - 1 := by
  unfold checkedSucc
  split_ifs with hmax
  · rw [hmax]
    exact ⟨fun _ ↦ rfl, fun _ ↦ rfl⟩
  · refine ⟨fun h ↦ by simp at h, fun h ↦ absurd (UInt64.toNat_inj.mp ?_) hmax⟩
    rw [h]
    rfl

/-! ### Text -/

/-- `str::as_bytes`. -/
def strBytes (text : String) : Bytes := text.toByteArray.data.toList

theorem strBytes_injective : Function.Injective strBytes := by
  intro first second h
  have hdata : first.toByteArray.data = second.toByteArray.data := Array.toList_inj.mp h
  exact String.toByteArray_inj.mp (ByteArray.ext hdata)

theorem strBytes_append (first second : String) :
    strBytes (first ++ second) = strBytes first ++ strBytes second := by
  simp [strBytes, String.toByteArray_append]

/-- The length of the bytes of a text is `str::len`. -/
theorem length_strBytes (text : String) : (strBytes text).length = text.utf8ByteSize := rfl

/-- Assumes: characters of one byte each. -/
theorem utf8Len_eq_length {cs : List Char} (h : ∀ c ∈ cs, c.utf8Size = 1) :
    String.utf8Len cs = cs.length := by
  induction cs with
  | nil => rfl
  | cons c rest ih =>
    rw [String.utf8Len, ih fun other hother ↦ h other (List.mem_cons_of_mem c hother),
      h c List.mem_cons_self, List.length_cons]

/-- The digits of a number are characters of one byte. -/
theorem utf8Size_of_mem_toDigits {n : ℕ} {c : Char} (hc : c ∈ Nat.toDigits 10 n) :
    c.utf8Size = 1 := by
  have hdigit := Nat.isDigit_of_mem_toDigits (by decide) (by decide) hc
  have hrange := Char.isDigit_iff_toNat.mp hdigit
  exact Char.utf8Size_eq_one_iff.mpr (UInt32.le_iff_toNat_le.mpr (hrange.2.trans (by decide)))

/-- Assumes: a number of at most `digits` digits. Its decimal text has at most that many bytes. -/
theorem utf8ByteSize_repr_le {n digits : ℕ} (hdigits : 0 < digits) (h : n < 10 ^ digits) :
    n.repr.utf8ByteSize ≤ digits := by
  rw [Nat.repr_eq_ofList_toDigits, String.utf8ByteSize_ofList,
    utf8Len_eq_length fun _ ↦ utf8Size_of_mem_toDigits]
  exact (Nat.length_toDigits_le_iff (by decide) hdigits).mpr h

/-- The bytes of the decimal text of a number are those of digits. -/
theorem le_of_mem_strBytes_repr {n : ℕ} {byte : UInt8} (h : byte ∈ strBytes n.repr) :
    48 ≤ byte.toNat := by
  rw [strBytes, Nat.repr_eq_ofList_toDigits, String.toByteArray_ofList, List.utf8Encode,
    List.data_toByteArray, List.mem_flatMap] at h
  obtain ⟨c, hc, hbyte⟩ := h
  rw [String.utf8EncodeChar_eq_singleton (utf8Size_of_mem_toDigits hc), List.mem_singleton] at hbyte
  have hdigit := Nat.isDigit_of_mem_toDigits (by decide) (by decide) hc
  have hrange := Char.isDigit_iff_toNat.mp hdigit
  have hbound : c.val.toNat < 2 ^ 8 := hrange.2.trans_lt (by decide)
  rw [hbyte, UInt32.toNat_toUInt8, Nat.mod_eq_of_lt hbound]
  exact hrange.1

end DalService.Foundation
