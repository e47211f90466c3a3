import DalService.Foundation.Framing
import DalService.Foundation.Returns
import DalService.Types

/-!
# The snapshot stream

A snapshot file is a magic, the state records each after its two lengths, an end mark in the place
of a key length, the record count and a digest of the records. `encodeRecords` writes it and
`decodeRecordsSync` reads it back, handing each record to a callback.

`encodeRecords_eq_ok_iff` says what is written, `decodeRecordsSync_eq_ok_iff` what is accepted, and
both name the same bytes (`snapshotBytes`): `snapshot_codec_exact`. The digest is any function to 32
bytes, so nothing here rests on SHA-256 having no collisions.
-/

set_option autoImplicit false

namespace DalService.Storage.SnapshotCodec

open Foundation

/-- The bytes of `DALSNP02`. -/
def MAGIC : Bytes := [68, 65, 76, 83, 78, 80, 48, 50]

/-- The key length that ends the records: `u32::MAX`. -/
def END : ℕ := 2 ^ 32 - 1

def MAX_RECORD_COMPONENT_BYTES : ℕ := 64 * 1024 * 1024

def MAX_RECORD_BYTES : ℕ := 65 * 1024 * 1024

/-- A key and its value. -/
abbrev Record := Bytes × Bytes

def validateLengths (keyLen valueLen : ℕ) : Result Unit := do
  throwIf (MAX_RECORD_COMPONENT_BYTES < keyLen ∨ MAX_RECORD_COMPONENT_BYTES < valueLen)
    (.codec "snapshot record component exceeds limit")
  -- The sum saturates at `usize::MAX`.
  throwIf (MAX_RECORD_BYTES < min (keyLen + valueLen) (2 ^ 64 - 1))
    (.codec "snapshot record exceeds combined limit")

/-- A record the stream can carry. -/
def WithinLimits (record : Record) : Prop :=
  record.1.length ≤ MAX_RECORD_COMPONENT_BYTES ∧ record.2.length ≤ MAX_RECORD_COMPONENT_BYTES ∧
    record.1.length + record.2.length ≤ MAX_RECORD_BYTES

instance (record : Record) : Decidable (WithinLimits record) :=
  inferInstanceAs (Decidable (_ ∧ _ ∧ _))

theorem validateLengths_eq_ok_iff {record : Record} {u : Unit} :
    validateLengths record.1.length record.2.length = .ok u ↔ WithinLimits record := by
  simp only [validateLengths, bind_eq_ok_iff, throwIf_eq_ok_iff, exists_const, WithinLimits]
  simp only [MAX_RECORD_COMPONENT_BYTES, MAX_RECORD_BYTES]
  omega

theorem WithinLimits.length_lt {record : Record} (h : WithinLimits record) :
    record.1.length < END ∧ record.2.length < END := by
  have hlimit : MAX_RECORD_COMPONENT_BYTES < END := by decide
  exact ⟨h.1.trans_lt hlimit, h.2.1.trans_lt hlimit⟩

/-! ### Writing -/

/-- Where `encode_records` stands: what the writer and the hasher have taken, and the record
count. -/
structure Encoder where
  written : Bytes
  hashed : Bytes
  count : ℕ

def writeHashed (encoder : Encoder) (bytes : Bytes) : Encoder :=
  { encoder with written := encoder.written ++ bytes, hashed := encoder.hashed ++ bytes }

/-- `u32::try_from` of a length. -/
def u32Length (length : ℕ) (message : String) : Result ℕ := do
  throwIf (2 ^ 32 ≤ length) (.codec message)
  .ok length

/-- `count.checked_add(1)`. -/
def nextCount (count : ℕ) : Result ℕ := do
  throwIf (2 ^ 64 ≤ count + 1) (.codec "snapshot record count exhausted")
  .ok (count + 1)

/-- One turn of the loop of `encode_records`. -/
def encodeRecord (encoder : Encoder) (record : Result Record) : Result Encoder := do
  let (key, value) ← record
  validateLengths key.length value.length
  let keyLen ← u32Length key.length "snapshot key length exceeds u32"
  let valueLen ← u32Length value.length "snapshot value length exceeds u32"
  let encoder := writeHashed encoder (leBytes 4 keyLen)
  let encoder := writeHashed encoder (leBytes 4 valueLen)
  let encoder := writeHashed encoder key
  let encoder := writeHashed encoder value
  let count ← nextCount encoder.count
  .ok { encoder with count }

/-- The bytes `encode_records` writes for the items of an iterator. -/
def encodeRecords (prims : Primitives) (records : List (Result Record)) : Result Bytes := do
  let encoder ← records.foldlM encodeRecord { written := MAGIC, hashed := [], count := 0 }
  .ok (encoder.written ++ leBytes 4 END ++ leBytes 8 encoder.count ++
    (prims.sha256 encoder.hashed).toList)

/-! ### Reading -/

/-- `read_exact`. -/
def read (width : ℕ) (reader : Bytes) : Result (Bytes × Bytes) :=
  readExact (.io "failed to fill whole buffer") width reader

/-- A record as it is read: the two length fields as they stand in the file, the key and the
value. -/
structure RawRecord where
  keyLenBytes : Bytes
  valueLenBytes : Bytes
  key : Bytes
  value : Bytes

/-- What `decode_records_sync` reads of a record after a key length other than the end mark. -/
def readRecord (keyLenBytes reader : Bytes) : Result (RawRecord × Bytes) := do
  let (valueLenBytes, reader) ← read 4 reader
  validateLengths (leNat keyLenBytes) (leNat valueLenBytes)
  let (key, reader) ← read (leNat keyLenBytes) reader
  let (value, reader) ← read (leNat valueLenBytes) reader
  .ok ({ keyLenBytes, valueLenBytes, key, value }, reader)

variable {S : Type}

/-- Where `decode_records_sync` stands: the callback's state, what the hasher has taken, and the
record count. -/
structure Decoder (S : Type) where
  state : S
  hashed : Bytes
  count : ℕ

/-- What a turn of the loop does with the record it read. -/
def Decoder.accept (record : S → Bytes → Bytes → Result S) (decoder : Decoder S) (raw : RawRecord) :
    Result (Decoder S) := do
  let hashed := decoder.hashed ++ raw.keyLenBytes ++ raw.valueLenBytes ++ raw.key ++ raw.value
  let state ← record decoder.state raw.key raw.value
  let count ← nextCount decoder.count
  .ok { state, hashed, count }

variable {record : S → Bytes → Bytes → Result S} {decoder : Decoder S} {reader : Bytes}

theorem length_eq_of_read {width : ℕ} {piece rest : Bytes}
    (h : read width reader = .ok (piece, rest)) : reader.length = width + rest.length := by
  obtain ⟨rfl, rfl⟩ := readExact_eq_ok_iff.mp h
  exact List.length_append

theorem length_le_of_readRecord {keyLenBytes rest : Bytes} {raw : RawRecord}
    (h : readRecord keyLenBytes reader = .ok (raw, rest)) : rest.length ≤ reader.length := by
  simp only [readRecord, bind_eq_ok_iff] at h
  obtain ⟨⟨_, afterLen⟩, hlen, _, -, ⟨_, afterKey⟩, hkey, ⟨_, afterValue⟩, hvalue, h⟩ := h
  obtain ⟨-, rfl⟩ := Prod.mk.inj (Except.ok.inj h)
  calc afterValue.length
    _ ≤ afterKey.length := (length_eq_of_read hvalue).ge.trans' (Nat.le_add_left _ _)
    _ ≤ afterLen.length := (length_eq_of_read hkey).ge.trans' (Nat.le_add_left _ _)
    _ ≤ reader.length := (length_eq_of_read hlen).ge.trans' (Nat.le_add_left _ _)

/-- The loop of `decode_records_sync`, and what it leaves unread after the end mark. -/
def decodeLoop (record : S → Bytes → Bytes → Result S) (decoder : Decoder S) (reader : Bytes) :
    Result (Decoder S × Bytes) :=
  match _ : read 4 reader with
  | .error error => .error error
  | .ok (keyLenBytes, afterLen) =>
    if leNat keyLenBytes = END then .ok (decoder, afterLen)
    else
      match _ : readRecord keyLenBytes afterLen with
      | .error error => .error error
      | .ok (raw, rest) => do
        let decoder ← decoder.accept record raw
        decodeLoop record decoder rest
termination_by reader.length
decreasing_by
  have hlen := length_eq_of_read ‹read 4 reader = _›
  have hrecord := length_le_of_readRecord ‹readRecord _ _ = _›
  omega

/-- What `decode_records_sync` checks after the end mark. -/
def checkFooter (prims : Primitives) (decoder : Decoder S) (reader : Bytes) : Result S := do
  let (expectedCount, reader) ← read 8 reader
  let (expectedDigest, reader) ← read 32 reader
  throwIf (leNat expectedCount ≠ decoder.count) (.codec "snapshot record count mismatch")
  throwIf ((prims.sha256 decoder.hashed).toList ≠ expectedDigest)
    (.codec "snapshot checksum mismatch")
  throwIf (reader ≠ []) (.codec "trailing bytes after snapshot footer")
  .ok decoder.state

/-- `decode_records_sync` on a file of the bytes `file`, with a callback that keeps a state. -/
def decodeRecordsSync (prims : Primitives) (record : S → Bytes → Bytes → Result S) (state : S)
    (file : Bytes) : Result S := do
  let (magic, reader) ← read MAGIC.length file
  throwIf (magic ≠ MAGIC) (.codec "invalid snapshot magic")
  let (decoder, reader) ← decodeLoop record { state, hashed := [], count := 0 } reader
  checkFooter prims decoder reader

/-- The callback that collects the records it is handed. -/
def collect (records : List Record) (key value : Bytes) : Result (List Record) :=
  .ok (records ++ [(key, value)])

/-! ### The bytes of a snapshot -/

/-- The bytes a record takes in the stream. -/
def frame (record : Record) : Bytes :=
  leBytes 4 record.1.length ++ leBytes 4 record.2.length ++ record.1 ++ record.2

def body (records : List Record) : Bytes := records.flatMap frame

/-- The file that holds the records. -/
def snapshotBytes (prims : Primitives) (records : List Record) : Bytes :=
  MAGIC ++ body records ++ leBytes 4 END ++ leBytes 8 records.length ++
    (prims.sha256 (body records)).toList

@[simp] theorem body_nil : body [] = [] := rfl

@[simp] theorem body_cons (record : Record) (records : List Record) :
    body (record :: records) = frame record ++ body records := rfl

theorem leNat_leBytes_of_lt {width value : ℕ} (h : value < 256 ^ width) :
    leNat (leBytes width value) = value := by
  rw [leNat_leBytes, Nat.mod_eq_of_lt h]

theorem eq_leBytes_of_length {width : ℕ} {bytes : Bytes} (h : bytes.length = width) :
    bytes = leBytes width (leNat bytes) := by
  rw [← h, leBytes_leNat]

theorem nextCount_eq_ok_iff {count next : ℕ} :
    nextCount count = .ok next ↔ count + 1 < 2 ^ 64 ∧ next = count + 1 := by
  simp only [nextCount, bind_eq_ok_iff, throwIf_eq_ok_iff, exists_const, Except.ok.injEq, not_le]
  exact and_congr_right fun _ ↦ eq_comm

theorem u32Length_of_lt {length : ℕ} (h : length < END) (message : String) :
    u32Length length message = .ok length := by
  have hshort : ¬2 ^ 32 ≤ length := by
    have : END < 2 ^ 32 := by decide
    omega
  rw [u32Length, throwIf_of_not hshort, ok_bind]

/-- A turn of the writer's loop appends the record's frame to the file and to what is hashed. -/
theorem encodeRecord_eq_ok_iff {encoder next : Encoder} {record : Record} :
    encodeRecord encoder (.ok record) = .ok next ↔
      WithinLimits record ∧ encoder.count + 1 < 2 ^ 64 ∧
        next = { written := encoder.written ++ frame record,
                 hashed := encoder.hashed ++ frame record, count := encoder.count + 1 } := by
  rw [encodeRecord, ok_bind, bind_eq_ok_iff]
  simp only [validateLengths_eq_ok_iff, exists_and_left, exists_const]
  refine and_congr_right fun hlimits ↦ ?_
  rw [u32Length_of_lt hlimits.length_lt.1, ok_bind, u32Length_of_lt hlimits.length_lt.2, ok_bind,
    bind_eq_ok_iff]
  simp only [nextCount_eq_ok_iff, writeHashed, frame, List.append_assoc, Except.ok.injEq]
  constructor
  · rintro ⟨_, ⟨hcount, rfl⟩, rfl⟩
    exact ⟨hcount, rfl⟩
  · rintro ⟨hcount, rfl⟩
    exact ⟨_, ⟨hcount, rfl⟩, rfl⟩

theorem foldlM_encodeRecord_eq_ok_iff {records : List Record} {encoder last : Encoder}
    (hstart : encoder.count < 2 ^ 64) :
    (records.map .ok).foldlM encodeRecord encoder = .ok last ↔
      (∀ record ∈ records, WithinLimits record) ∧ encoder.count + records.length < 2 ^ 64 ∧
        last = { written := encoder.written ++ body records,
                 hashed := encoder.hashed ++ body records,
                 count := encoder.count + records.length } := by
  induction records generalizing encoder with
  | nil =>
    simp only [List.map_nil, List.foldlM_nil, List.not_mem_nil, false_implies, implies_true,
      List.length_nil, Nat.add_zero, hstart, body_nil, List.append_nil, true_and, pure, Except.pure,
      Except.ok.injEq]
    exact eq_comm
  | cons record records ih =>
    rw [List.map_cons, List.foldlM_cons, bind_eq_ok_iff, List.forall_mem_cons, List.length_cons]
    constructor
    · rintro ⟨next, hnext, hrest⟩
      obtain ⟨hlimits, hcount, rfl⟩ := encodeRecord_eq_ok_iff.mp hnext
      obtain ⟨htail, hlength, rfl⟩ := (ih hcount).mp hrest
      simp only [body_cons, List.append_assoc, Encoder.mk.injEq, true_and] at hlength ⊢
      exact ⟨⟨hlimits, htail⟩, by omega, by omega⟩
    · rintro ⟨⟨hlimits, htail⟩, hlength, rfl⟩
      have hcount : encoder.count + 1 < 2 ^ 64 := by omega
      refine ⟨_, encodeRecord_eq_ok_iff.mpr ⟨hlimits, hcount, rfl⟩, (ih hcount).mpr ⟨htail, ?_, ?_⟩⟩
      · change encoder.count + 1 + records.length < 2 ^ 64
        omega
      · simp only [body_cons, List.append_assoc, Encoder.mk.injEq, true_and]
        omega

/-- What `encode_records` writes, and when. -/
theorem encodeRecords_eq_ok_iff {prims : Primitives} {records : List Record} {file : Bytes} :
    encodeRecords prims (records.map .ok) = .ok file ↔
      (∀ record ∈ records, WithinLimits record) ∧ records.length < 2 ^ 64 ∧
        file = snapshotBytes prims records := by
  have hstart : ({ written := MAGIC, hashed := [], count := 0 } : Encoder).count < 2 ^ 64 := by
    decide
  rw [encodeRecords, bind_eq_ok_iff]
  simp only [foldlM_encodeRecord_eq_ok_iff hstart, Nat.zero_add, List.nil_append, Except.ok.injEq,
    snapshotBytes]
  constructor
  · rintro ⟨_, ⟨hlimits, hlength, rfl⟩, rfl⟩
    exact ⟨hlimits, hlength, rfl⟩
  · rintro ⟨hlimits, hlength, rfl⟩
    exact ⟨_, ⟨hlimits, hlength, rfl⟩, rfl⟩

/-! ### What is accepted -/

/-- A record as it stands in the stream. -/
def RawRecord.of (record : Record) : RawRecord :=
  { keyLenBytes := leBytes 4 record.1.length, valueLenBytes := leBytes 4 record.2.length,
    key := record.1, value := record.2 }

/-- The callback over a list of records. -/
def handOver (record : S → Bytes → Bytes → Result S) (state : S) (records : List Record) :
    Result S :=
  records.foldlM (fun state item ↦ record state item.1 item.2) state

theorem read_append {width : ℕ} {piece : Bytes} (h : piece.length = width) (rest : Bytes) :
    read width (piece ++ rest) = .ok (piece, rest) := readExact_append h rest

theorem read_eq_ok_iff {width : ℕ} {piece rest : Bytes} :
    read width reader = .ok (piece, rest) ↔ piece.length = width ∧ reader = piece ++ rest :=
  readExact_eq_ok_iff

theorem WithinLimits.leNat_length {record : Record} (h : WithinLimits record) :
    leNat (leBytes 4 record.1.length) = record.1.length ∧
      leNat (leBytes 4 record.2.length) = record.2.length := by
  have hwidth : END < 256 ^ 4 := by decide
  exact ⟨leNat_leBytes_of_lt (h.length_lt.1.trans hwidth),
    leNat_leBytes_of_lt (h.length_lt.2.trans hwidth)⟩

theorem readRecord_append {record : Record} (h : WithinLimits record) (rest : Bytes) :
    readRecord (leBytes 4 record.1.length)
        (leBytes 4 record.2.length ++ record.1 ++ record.2 ++ rest) =
      .ok (.of record, rest) := by
  obtain ⟨hkey, hvalue⟩ := h.leNat_length
  rw [readRecord, List.append_assoc, List.append_assoc, read_append (length_leBytes _ _), ok_bind]
  simp only [hkey, hvalue]
  rw [(validateLengths_eq_ok_iff (u := ())).mpr h, ok_bind, read_append rfl, ok_bind,
    read_append rfl, ok_bind]
  rfl

/-- Assumes: a key length of four bytes. What is read as a record is a record's frame. -/
theorem exists_of_readRecord {keyLenBytes rest : Bytes} {raw : RawRecord}
    (hwidth : keyLenBytes.length = 4) (h : readRecord keyLenBytes reader = .ok (raw, rest)) :
    ∃ record, WithinLimits record ∧ raw = .of record ∧
      keyLenBytes ++ reader = frame record ++ rest := by
  simp only [readRecord, bind_eq_ok_iff] at h
  obtain ⟨⟨valueLenBytes, _⟩, hlen, _, hvalid, ⟨key, _⟩, hkey, ⟨value, _⟩, hvalue, h⟩ := h
  obtain ⟨rfl, rfl⟩ := Prod.mk.inj (Except.ok.inj h)
  obtain ⟨hvalueWidth, rfl⟩ := read_eq_ok_iff.mp hlen
  obtain ⟨hkeyLength, rfl⟩ := read_eq_ok_iff.mp hkey
  obtain ⟨hvalueLength, rfl⟩ := read_eq_ok_iff.mp hvalue
  have hkeyBytes : keyLenBytes = leBytes 4 key.length := hkeyLength ▸ eq_leBytes_of_length hwidth
  have hvalueBytes : valueLenBytes = leBytes 4 value.length :=
    hvalueLength ▸ eq_leBytes_of_length hvalueWidth
  refine ⟨(key, value), validateLengths_eq_ok_iff.mp (hkeyLength ▸ hvalueLength ▸ hvalid), ?_, ?_⟩
  · rw [RawRecord.of, ← hkeyBytes, ← hvalueBytes]
  · simp only [frame, ← hkeyBytes, ← hvalueBytes, List.append_assoc]

theorem decodeLoop_end (record : S → Bytes → Bytes → Result S) (decoder : Decoder S)
    (rest : Bytes) : decodeLoop record decoder (leBytes 4 END ++ rest) = .ok (decoder, rest) := by
  have hend : leNat (leBytes 4 END) = END := leNat_leBytes_of_lt (by decide)
  rw [decodeLoop, read_append (length_leBytes _ _)]
  exact if_pos hend

theorem decodeLoop_frame (record : S → Bytes → Bytes → Result S) (decoder : Decoder S)
    {item : Record} (h : WithinLimits item) (rest : Bytes) :
    decodeLoop record decoder (frame item ++ rest) =
      (decoder.accept record (.of item) >>= fun next ↦ decodeLoop record next rest) := by
  have hend : leNat (leBytes 4 item.1.length) ≠ END := by
    rw [h.leNat_length.1]
    exact h.length_lt.1.ne
  have hframe : frame item ++ rest = leBytes 4 item.1.length ++
      (leBytes 4 item.2.length ++ item.1 ++ item.2 ++ rest) := by
    simp only [frame, List.append_assoc]
  rw [hframe, decodeLoop, read_append (length_leBytes _ _)]
  simp only [hend, if_false]
  rw [readRecord_append h]

/-- What the loop reads without an error starts with the end mark or with a record. -/
theorem decodeLoop_cases
    {out : Decoder S × Bytes} (h : decodeLoop record decoder reader = .ok out) :
    (∃ rest, reader = leBytes 4 END ++ rest) ∨
      ∃ item rest, WithinLimits item ∧ reader = frame item ++ rest := by
  rw [decodeLoop] at h
  split at h
  · cases h
  · next keyLenBytes afterLen hlen =>
    obtain ⟨hwidth, rfl⟩ := read_eq_ok_iff.mp hlen
    split at h
    · next hend => exact .inl ⟨afterLen, by rw [← hend, ← eq_leBytes_of_length hwidth]⟩
    · split at h
      · cases h
      · next raw rest hrecord =>
        obtain ⟨item, hlimits, -, hreader⟩ := exists_of_readRecord hwidth hrecord
        exact .inr ⟨item, rest, hlimits, hreader⟩

theorem accept_eq_ok_iff {next : Decoder S} {item : Record} :
    decoder.accept record (.of item) = .ok next ↔
      ∃ state, record decoder.state item.1 item.2 = .ok state ∧ decoder.count + 1 < 2 ^ 64 ∧
        next = { state, hashed := decoder.hashed ++ frame item, count := decoder.count + 1 } := by
  simp only [Decoder.accept, RawRecord.of, bind_eq_ok_iff, nextCount_eq_ok_iff,
    Except.ok.injEq, frame, List.append_assoc]
  refine exists_congr fun state ↦ and_congr_right fun _ ↦ ⟨?_, ?_⟩
  · rintro ⟨_, ⟨hcount, rfl⟩, rfl⟩
    exact ⟨hcount, rfl⟩
  · rintro ⟨hcount, rfl⟩
    exact ⟨_, ⟨hcount, rfl⟩, rfl⟩

/-- The loop over the frames of some records and the end mark hands over the records. -/
theorem decodeLoop_body
    {records : List Record} {last : S} (hlimits : ∀ item ∈ records, WithinLimits item)
    (hcount : decoder.count + records.length < 2 ^ 64)
    (hlast : handOver record decoder.state records = .ok last) (rest : Bytes) :
    decodeLoop record decoder (body records ++ leBytes 4 END ++ rest) =
      .ok ({ state := last, hashed := decoder.hashed ++ body records,
             count := decoder.count + records.length }, rest) := by
  induction records generalizing decoder with
  | nil =>
    obtain rfl : decoder.state = last := Except.ok.inj hlast
    simpa only [body_nil, List.nil_append, List.append_nil, List.length_nil, Nat.add_zero] using
      decodeLoop_end record decoder rest
  | cons item records ih =>
    rw [List.length_cons] at hcount
    rw [handOver, List.foldlM_cons, bind_eq_ok_iff] at hlast
    obtain ⟨state, hstate, hrest⟩ := hlast
    rw [List.forall_mem_cons] at hlimits
    let next : Decoder S :=
      { state, hashed := decoder.hashed ++ frame item, count := decoder.count + 1 }
    have haccept : decoder.accept record (.of item) = .ok next :=
      accept_eq_ok_iff.mpr ⟨state, hstate, by omega, rfl⟩
    have hnext : next.count + records.length < 2 ^ 64 := by
      change decoder.count + 1 + records.length < 2 ^ 64
      omega
    rw [body_cons, List.append_assoc, List.append_assoc, decodeLoop_frame record decoder hlimits.1,
      haccept, ok_bind, ← List.append_assoc, ih hlimits.2 hnext hrest]
    simp only [next, List.append_assoc, List.length_cons, Except.ok.injEq, Prod.mk.injEq,
      Decoder.mk.injEq, true_and, and_true]
    omega

/-- What the loop reads without an error is the frames of the records it handed over, and the end
mark. -/
theorem exists_of_decodeLoop {last : Decoder S} {rest : Bytes} (hstart : decoder.count < 2 ^ 64)
    (h : decodeLoop record decoder reader = .ok (last, rest)) :
    ∃ records, (∀ item ∈ records, WithinLimits item) ∧ decoder.count + records.length < 2 ^ 64 ∧
      handOver record decoder.state records = .ok last.state ∧
      reader = body records ++ leBytes 4 END ++ rest := by
  -- Each frame is at least eight bytes, so the induction is on what is left to read.
  induction hsize : reader.length using Nat.strong_induction_on generalizing reader decoder with
  | _ size ih =>
    obtain ⟨tail, rfl⟩ | ⟨item, tail, hlimits, rfl⟩ := decodeLoop_cases h
    · rw [decodeLoop_end] at h
      obtain ⟨rfl, rfl⟩ := Prod.mk.inj (Except.ok.inj h)
      exact ⟨[], by simp, hstart, rfl, by simp⟩
    · rw [decodeLoop_frame record decoder hlimits, bind_eq_ok_iff] at h
      obtain ⟨next, hnext, htail⟩ := h
      obtain ⟨state, hstate, hcount, rfl⟩ := accept_eq_ok_iff.mp hnext
      have hshorter : tail.length < size := by
        simp only [← hsize, frame, List.length_append, length_leBytes]
        omega
      obtain ⟨records, hrecords, hlength, hhanded, rfl⟩ := ih _ hshorter hcount htail rfl
      refine ⟨item :: records, List.forall_mem_cons.mpr ⟨hlimits, hrecords⟩, ?_, ?_, ?_⟩
      · simp only [List.length_cons] at hlength ⊢
        omega
      · rw [handOver, List.foldlM_cons, hstate]
        exact hhanded
      · simp only [body_cons, List.append_assoc]

theorem checkFooter_eq_ok_iff {prims : Primitives} {last : S} (hcount : decoder.count < 2 ^ 64) :
    checkFooter prims decoder reader = .ok last ↔
      reader = leBytes 8 decoder.count ++ (prims.sha256 decoder.hashed).toList ∧
        decoder.state = last := by
  simp only [checkFooter, bind_eq_ok_iff, throwIf_eq_ok_iff, not_not, Except.ok.injEq]
  constructor
  · rintro ⟨⟨count, _⟩, hreadCount, ⟨digest, rest⟩, hreadDigest, _, hequal, _, hdigest, _,
      hrest, hlast⟩
    obtain ⟨hwidth, rfl⟩ := read_eq_ok_iff.mp hreadCount
    obtain ⟨-, rfl⟩ := read_eq_ok_iff.mp hreadDigest
    refine ⟨?_, hlast⟩
    rw [hdigest, ← hequal, ← eq_leBytes_of_length hwidth, show rest = [] from hrest,
      List.append_nil]
  · rintro ⟨rfl, hlast⟩
    exact ⟨_, read_append (length_leBytes _ _) _, (_, []),
      read_eq_ok_iff.mpr ⟨Vector.length_toList, (List.append_nil _).symm⟩, (),
      leNat_leBytes_of_lt hcount, (), rfl, (), rfl, hlast⟩

/-- What `decode_records_sync` accepts: the files of the records it hands over. -/
theorem decodeRecordsSync_eq_ok_iff {prims : Primitives} {state last : S} {file : Bytes} :
    decodeRecordsSync prims record state file = .ok last ↔
      ∃ records, (∀ item ∈ records, WithinLimits item) ∧ records.length < 2 ^ 64 ∧
        file = snapshotBytes prims records ∧ handOver record state records = .ok last := by
  simp only [decodeRecordsSync, bind_eq_ok_iff, throwIf_eq_ok_iff, not_not]
  constructor
  · rintro ⟨⟨_, _⟩, hmagic, _, rfl, ⟨decoder, reader⟩, hloop, hfooter⟩
    obtain ⟨-, rfl⟩ := read_eq_ok_iff.mp hmagic
    obtain ⟨records, hlimits, hlength, hhanded, rfl⟩ :=
      exists_of_decodeLoop (Nat.two_pow_pos 64) hloop
    obtain ⟨hdecoder, -⟩ := Prod.mk.inj
      (Except.ok.inj (hloop.symm.trans (decodeLoop_body hlimits hlength hhanded reader)))
    rw [hdecoder] at hfooter
    obtain ⟨hreader, hlast⟩ := (checkFooter_eq_ok_iff hlength).mp hfooter
    simp only [Nat.zero_add, List.nil_append] at hlength hreader
    refine ⟨records, hlimits, hlength, ?_, hhanded.trans (congrArg _ hlast)⟩
    simp only [snapshotBytes, hreader, List.append_assoc]
  · rintro ⟨records, hlimits, hlength, rfl, hlast⟩
    have hstart : (Decoder.mk state [] 0).count + records.length < 2 ^ 64 := by
      rwa [Nat.zero_add]
    have hloop := decodeLoop_body hlimits hstart hlast
      (leBytes 8 records.length ++ (prims.sha256 (body records)).toList)
    simp only [Nat.zero_add, List.nil_append] at hloop
    refine ⟨(MAGIC, _), read_eq_ok_iff.mpr ⟨rfl, ?_⟩, (), rfl, _, hloop,
      (checkFooter_eq_ok_iff hlength).mpr ⟨rfl, rfl⟩⟩
    simp only [snapshotBytes, List.append_assoc]

theorem handOver_collect (collected records : List Record) :
    handOver collect collected records = .ok (collected ++ records) := by
  induction records generalizing collected with
  | nil => rw [List.append_nil]; rfl
  | cons item records ih =>
    rw [handOver, List.foldlM_cons, collect, ok_bind]
    exact (ih _).trans (by rw [List.append_assoc, List.singleton_append])

/-! ### Exactness -/

/-- The snapshot codec is exact. Records within the limits that are fewer than `2 ^ 64` are written,
more are refused, and a file that is written is read back as its records. A file that is read is the
one written for the records it handed over, under every callback. -/
theorem snapshot_codec_exact (prims : Primitives) :
    (∀ records : List Record, (∀ item ∈ records, WithinLimits item) →
      ((∃ file, encodeRecords prims (records.map .ok) = .ok file) ↔ records.length < 2 ^ 64) ∧
      ∀ file, encodeRecords prims (records.map .ok) = .ok file →
        decodeRecordsSync prims collect [] file = .ok records) ∧
    (∀ file records, decodeRecordsSync prims collect [] file = .ok records →
      encodeRecords prims (records.map .ok) = .ok file) ∧
    ∀ {S : Type} (record : S → Bytes → Bytes → Result S) (state last : S) (file : Bytes),
      decodeRecordsSync prims record state file = .ok last ↔
        ∃ records, encodeRecords prims (records.map .ok) = .ok file ∧
          handOver record state records = .ok last := by
  refine ⟨fun records hlimits ↦ ⟨⟨?_, ?_⟩, ?_⟩, ?_, ?_⟩
  · rintro ⟨file, hfile⟩
    exact (encodeRecords_eq_ok_iff.mp hfile).2.1
  · intro hlength
    exact ⟨_, encodeRecords_eq_ok_iff.mpr ⟨hlimits, hlength, rfl⟩⟩
  · intro file hfile
    obtain ⟨-, hlength, hbytes⟩ := encodeRecords_eq_ok_iff.mp hfile
    exact decodeRecordsSync_eq_ok_iff.mpr
      ⟨records, hlimits, hlength, hbytes, handOver_collect [] records⟩
  · intro file records h
    obtain ⟨handed, hlimits, hlength, hbytes, hhanded⟩ := decodeRecordsSync_eq_ok_iff.mp h
    rw [handOver_collect, List.nil_append] at hhanded
    obtain rfl := Except.ok.inj hhanded
    exact encodeRecords_eq_ok_iff.mpr ⟨hlimits, hlength, hbytes⟩
  · intro S record state last file
    simp only [decodeRecordsSync_eq_ok_iff, encodeRecords_eq_ok_iff, and_assoc]

/-- Two records, one with an empty value, and their file under a digest of zeros. -/
theorem snapshot_codec_exact_two_records :
    let prims : Primitives := { sha256 := fun _ ↦ Vector.replicate 32 0, debugText := id }
    let records : List Record := [([107], [118, 118]), ([108], [])]
    (∀ item ∈ records, WithinLimits item) ∧
      encodeRecords prims (records.map .ok) = .ok (snapshotBytes prims records) ∧
      decodeRecordsSync prims collect [] (snapshotBytes prims records) = .ok records := by
  intro prims records
  have hlimits : ∀ item ∈ records, WithinLimits item := by decide
  have hencode : encodeRecords prims (records.map .ok) = .ok (snapshotBytes prims records) := rfl
  exact ⟨hlimits, hencode, ((snapshot_codec_exact prims).1 records hlimits).2 _ hencode⟩

end DalService.Storage.SnapshotCodec
