import DalService.Foundation.ByteString

/-!
# Self-delimiting encodings

An encoding is self-delimiting when its bytes tell where it ends: two encodings followed by anything
are equal only if the values are and what follows is (`SelfDelimiting`). Encodings of one width that
differ are (`SelfDelimiting.of_width`), so are sized byte strings (`selfDelimiting_sized`), and the
property is kept by pairs (`SelfDelimiting.prod`), by counted lists (`SelfDelimiting.counted`) and
under injective maps (`SelfDelimiting.comap`). A reader that takes a given number of bytes succeeds
on exactly the strings that start with a piece of that length (`readExact_eq_ok_iff`). A string is
its fields at fixed places one after the other (`extract_append_extract`).
-/

set_option autoImplicit false

namespace DalService.Foundation

variable {T U : Type}

/-- Encodings of values with the property `P` tell where they end. -/
def SelfDelimiting (P : T → Prop) (encode : T → Bytes) : Prop :=
  ∀ ⦃first second : T⦄ ⦃restFirst restSecond : Bytes⦄, P first → P second →
    encode first ++ restFirst = encode second ++ restSecond →
    first = second ∧ restFirst = restSecond

theorem SelfDelimiting.of_width {P : T → Prop} {encode : T → Bytes} (width : ℕ)
    (hwidth : ∀ value, (encode value).length = width)
    (hinjective : ∀ first second, P first → P second → encode first = encode second →
      first = second) : SelfDelimiting P encode := by
  intro first second restFirst restSecond hfirst hsecond h
  obtain ⟨hencode, hrest⟩ := List.append_inj h ((hwidth first).trans (hwidth second).symm)
  exact ⟨hinjective first second hfirst hsecond hencode, hrest⟩

/-- Assumes: a map that is injective on the values with the property. -/
theorem SelfDelimiting.comap {P : T → Prop} {Q : U → Prop} {encode : U → Bytes}
    (h : SelfDelimiting Q encode) (view : T → U) (hview : ∀ value, P value → Q (view value))
    (hinjective : ∀ first second, view first = view second → first = second) :
    SelfDelimiting P fun value ↦ encode (view value) := by
  intro first second restFirst restSecond hfirst hsecond hencode
  obtain ⟨hequal, hrest⟩ := h (hview first hfirst) (hview second hsecond) hencode
  exact ⟨hinjective first second hequal, hrest⟩

theorem SelfDelimiting.prod {P : T → Prop} {Q : U → Prop} {encodeFirst : T → Bytes}
    {encodeSecond : U → Bytes} (hP : SelfDelimiting P encodeFirst)
    (hQ : SelfDelimiting Q encodeSecond) :
    SelfDelimiting (fun pair : T × U ↦ P pair.1 ∧ Q pair.2)
      fun pair ↦ encodeFirst pair.1 ++ encodeSecond pair.2 := by
  rintro ⟨first, first'⟩ ⟨second, second'⟩ restFirst restSecond hfirst hsecond h
  rw [List.append_assoc, List.append_assoc] at h
  obtain ⟨hequal, htail⟩ := hP hfirst.1 hsecond.1 h
  obtain ⟨hequal', hrest⟩ := hQ hfirst.2 hsecond.2 htail
  exact ⟨Prod.ext hequal hequal', hrest⟩

/-- A list of encodings has one reading among those of its length. -/
theorem SelfDelimiting.flatMap {P : T → Prop} {encode : T → Bytes}
    (h : SelfDelimiting P encode) {first second : List T} {restFirst restSecond : Bytes}
    (hlength : first.length = second.length) (hfirst : ∀ value ∈ first, P value)
    (hsecond : ∀ value ∈ second, P value)
    (hencode : first.flatMap encode ++ restFirst = second.flatMap encode ++ restSecond) :
    first = second ∧ restFirst = restSecond := by
  induction first generalizing second with
  | nil =>
    obtain rfl : second = [] := List.eq_nil_of_length_eq_zero hlength.symm
    exact ⟨rfl, hencode⟩
  | cons value first ih =>
    obtain ⟨other, second, rfl⟩ := List.exists_cons_of_length_eq_add_one hlength.symm
    rw [List.flatMap_cons, List.flatMap_cons, List.append_assoc, List.append_assoc] at hencode
    obtain ⟨rfl, htail⟩ := h (hfirst value (by simp)) (hsecond other (by simp)) hencode
    obtain ⟨rfl, hrest⟩ :=
      ih (by simpa using hlength) (fun value hmem ↦ hfirst value (by simp [hmem]))
      (fun value hmem ↦ hsecond value (by simp [hmem])) htail
    exact ⟨rfl, hrest⟩

/-- A list after its length, in eight bytes. -/
def counted (encode : T → Bytes) (values : List T) : Bytes :=
  beBytes 8 values.length ++ values.flatMap encode

theorem SelfDelimiting.counted {P : T → Prop} {encode : T → Bytes}
    (h : SelfDelimiting P encode) :
    SelfDelimiting (fun values : List T ↦ values.length < 2 ^ 64 ∧ ∀ value ∈ values, P value)
      (counted encode) := by
  intro first second restFirst restSecond hfirst hsecond hencode
  unfold Foundation.counted at hencode
  rw [List.append_assoc, List.append_assoc] at hencode
  obtain ⟨hcount, hrest⟩ := append_beBytes_inj hencode
  exact h.flatMap (beBytes_injOn hfirst.1 hsecond.1 hcount) hfirst.2 hsecond.2 hrest

/-- A byte string after its length, in eight bytes. -/
def sized (bytes : Bytes) : Bytes := beBytes 8 bytes.length ++ bytes

theorem selfDelimiting_sized : SelfDelimiting (fun bytes ↦ bytes.length < 2 ^ 64) sized := by
  have hbyte : SelfDelimiting (fun _ : UInt8 ↦ True) fun byte ↦ [byte] :=
    .of_width 1 (fun _ ↦ rfl) fun _ _ _ _ h ↦ List.singleton_injective h
  intro first second restFirst restSecond hfirst hsecond h
  refine hbyte.counted ⟨hfirst, fun _ _ ↦ trivial⟩ ⟨hsecond, fun _ _ ↦ trivial⟩ ?_
  simpa [sized, counted] using h

/-! ### Exact reads -/

section Reader

variable {E : Type}

/-- The next `width` bytes and what follows them, or the error `short`. -/
def readExact (short : E) (width : ℕ) (reader : Bytes) : Except E (Bytes × Bytes) :=
  if reader.length < width then .error short else .ok (reader.take width, reader.drop width)

theorem readExact_append {short : E} {width : ℕ} {piece : Bytes} (h : piece.length = width)
    (rest : Bytes) : readExact short width (piece ++ rest) = .ok (piece, rest) := by
  have hlong : ¬(piece ++ rest).length < width := by
    rw [List.length_append]
    omega
  rw [readExact, if_neg hlong, List.take_left' h, List.drop_left' h]

theorem readExact_eq_ok_iff {short : E} {width : ℕ} {reader piece rest : Bytes} :
    readExact short width reader = .ok (piece, rest) ↔
      piece.length = width ∧ reader = piece ++ rest := by
  refine ⟨fun h ↦ ?_, fun ⟨hlength, hreader⟩ ↦ hreader ▸ readExact_append hlength rest⟩
  unfold readExact at h
  split at h
  · cases h
  · next hlong =>
    obtain ⟨rfl, rfl⟩ := Prod.mk.inj (Except.ok.inj h)
    exact ⟨List.length_take_of_le (Nat.le_of_not_lt hlong), (List.take_append_drop _ _).symm⟩

end Reader

/-! ### Fields at fixed places -/

theorem extract_append_extract (bytes : Bytes) {start middle stop : ℕ} (hstart : start ≤ middle)
    (hstop : middle ≤ stop) :
    bytes.extract start middle ++ bytes.extract middle stop = bytes.extract start stop := by
  obtain ⟨first, rfl⟩ := Nat.exists_eq_add_of_le hstart
  obtain ⟨second, rfl⟩ := Nat.exists_eq_add_of_le hstop
  have hwidth : start + first + second - start = first + second := by omega
  simp only [List.extract_eq_take_drop, Nat.add_sub_cancel_left, hwidth, List.take_add,
    List.drop_drop]

theorem length_extract {bytes : Bytes} {start stop : ℕ} (h : stop ≤ bytes.length) :
    (bytes.extract start stop).length = stop - start := by
  rw [List.extract_eq_take_drop, List.length_take, List.length_drop]
  omega

theorem extract_succ {bytes : Bytes} {place : ℕ} (h : place < bytes.length) :
    bytes.extract place (place + 1) = [bytes.getD place 0] := by
  rw [List.extract_eq_take_drop, List.drop_eq_getElem_cons h, Nat.add_sub_cancel_left,
    List.take_succ_cons, List.take_zero, List.getD_eq_getElem _ _ h]

end DalService.Foundation
