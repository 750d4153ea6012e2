import SqliteGcs.Storage
import SqliteGcs.Metadata

set_option relaxedAutoImplicit false
set_option autoImplicit false

/-!
# The record format

The log is a sequence of 4105-byte records: a block index (8 bytes), a payload (4096 bytes) and
the flag `is_good` (1 byte). Block index `-1` marks a metadata record, whose payload is a length
(8 bytes) and a serialised `MetadataBlock`. This file has the encoder of `BlockMapper::Sync`, the
validation of `BlockMapper::Init`, and the proof that the second accepts what the first writes.

## Main definitions

* `SqliteGcs.Block` — a payload, `uint8_t[4096]`.
* `SqliteGcs.PendingRecord`, `SqliteGcs.PendingRecord.encode` — a buffered record and its bytes.
* `SqliteGcs.RecoveredRecord`, `SqliteGcs.parseRecord` — what recovery reads from a record.
* `SqliteGcs.truncateRecord` — the metadata record that `BlockMapper::Truncate` buffers.

## Main results

* `SqliteGcs.parseRecord_encode` — an encoded record passes validation and reads back.
* `SqliteGcs.newSize_truncateRecord` — a truncate record carries its size.
* `SqliteGcs.parseRecord_ok` — what validation lets through.
-/

namespace SqliteGcs

open Bytes

/-- A payload: `uint8_t payload[4096]`. -/
structure Block where
  /-- The bytes of the payload. -/
  bytes : List UInt8
  length_eq : bytes.length = 4096
  deriving DecidableEq

/-- The block that holds the first 4096 of the given bytes, and zeros after them. -/
def Block.ofList (l : List UInt8) : Block where
  bytes := l.take 4096 ++ List.replicate (4096 - l.length) 0
  length_eq := by
    rw [List.length_append, List.length_take, List.length_replicate]
    omega

/-- A list of the size of a block is its content. -/
@[simp] lemma Block.bytes_ofList {l : List UInt8} (h : l.length = 4096) :
    (Block.ofList l).bytes = l := by
  simp [ofList, h, List.take_of_length_le]

/-- A block is made from its content. -/
lemma Block.ofList_bytes (B : Block) : Block.ofList B.bytes = B := by
  obtain ⟨l, hl⟩ := B
  exact congrArg (fun p : {l : List UInt8 // l.length = 4096} => (⟨p.1, p.2⟩ : Block))
    (Subtype.ext (bytes_ofList hl) : (⟨_, (Block.ofList l).length_eq⟩ : {l : List UInt8 //
      l.length = 4096}) = ⟨l, hl⟩)

/-- `BlockMapper::PendingRecord`. -/
structure PendingRecord where
  /-- The block the payload is for, or `-1` for metadata. -/
  blockIndex : ℤ
  /-- The payload. -/
  payload : Block
  deriving DecidableEq

/-- The 4105 bytes of a record with the given flag. -/
def PendingRecord.encode (pr : PendingRecord) (isGood : UInt8) : List UInt8 :=
  encodeInt64 pr.blockIndex ++ pr.payload.bytes ++ [isGood]

/-- A record takes 4105 bytes. -/
@[simp] lemma PendingRecord.length_encode (pr : PendingRecord) (isGood : UInt8) :
    (pr.encode isGood).length = 4105 := by
  simp [encode, pr.payload.length_eq]

/-- `RecoveredRecord` in `BlockMapper::Init`. -/
structure RecoveredRecord where
  /-- Where the record starts. -/
  offset : ℤ
  /-- The block index. -/
  blockIndex : ℤ
  /-- The flag. -/
  isGood : UInt8
  /-- The size a truncate record sets, or `-1`. -/
  newSize : ℤ
  deriving DecidableEq

/-- The flag of an encoded record. -/
lemma PendingRecord.getD_encode (pr : PendingRecord) (isGood : UInt8) :
    (pr.encode isGood).getD 4104 0 = isGood := by
  have hlen : (encodeInt64 pr.blockIndex ++ pr.payload.bytes).length = 4104 := by
    simp [pr.payload.length_eq]
  rw [encode, List.getD_eq_getElem?_getD, List.getElem?_append_right (by omega), hlen]
  rfl

/-- The block index of an encoded record. -/
lemma PendingRecord.slice_index_encode (pr : PendingRecord) (isGood : UInt8) :
    slice 0 8 (pr.encode isGood) = encodeInt64 pr.blockIndex := by
  rw [encode, List.append_assoc, slice_append_left _ (by simp)]
  exact slice_zero_length (encodeInt64 pr.blockIndex)

/-- The payload of an encoded record. -/
lemma PendingRecord.slice_payload_encode (pr : PendingRecord) (isGood : UInt8) :
    slice 8 4096 (pr.encode isGood) = pr.payload.bytes := by
  have h := slice_append_right (o := 0) (n := 4096) (encodeInt64 pr.blockIndex)
    (pr.payload.bytes ++ [isGood])
  rw [length_encodeInt64] at h
  rw [encode, List.append_assoc, h, slice_append_left _ (by rw [pr.payload.length_eq]),
    ← pr.payload.length_eq, slice_zero_length]

/-- The metadata record that `BlockMapper::Truncate` buffers for a serialised message. -/
def truncateRecord (serialized : List UInt8) : PendingRecord where
  blockIndex := -1
  payload := Block.ofList (encodeInt64 serialized.length ++ serialized ++
    List.replicate (4088 - serialized.length) 0)

/-- The payload of a truncate record: the length of the message, the message, and zeros. -/
lemma bytes_truncateRecord {serialized : List UInt8} (h : serialized.length ≤ 4088) :
    (truncateRecord serialized).payload.bytes = encodeInt64 serialized.length ++
      (serialized ++ List.replicate (4088 - serialized.length) 0) := by
  rw [truncateRecord, Block.bytes_ofList, List.append_assoc]
  simp
  omega

section Parse

variable [MetadataProto]

/-- The validation of a metadata payload: the size it sets, or `-1` if it sets none. -/
def parseMetadata (payload : List UInt8) : Except Status ℤ :=
  let protoSize := decodeInt64 (slice 0 8 payload)
  if protoSize < 0 ∨ protoSize > 4088 then
    .error ⟨.internal, "Invalid proto size during recovery"⟩
  else
    match MetadataProto.parseFromArray (slice 8 protoSize.toNat payload) with
    | none => .error ⟨.internal, "Failed to parse MetadataBlock during recovery"⟩
    | some none => .ok (-1)
    | some (some newSize) =>
      if newSize < 0 ∨ newSize > 1000000 * 4096 then
        .error ⟨.internal, "Invalid size in MetadataBlock during recovery"⟩
      else .ok newSize

/-- The validation of the fields of the record at `offset`; only records with flag 1 or 2 are
looked into. -/
def validateFields (offset blockIndex : ℤ) (payload : List UInt8) (isGood : UInt8) :
    Except Status RecoveredRecord :=
  if isGood = 1 ∨ isGood = 2 then
    if blockIndex < -1 ∨ blockIndex ≥ 1000000 then
      .error ⟨.internal, "Invalid block index during recovery"⟩
    else if blockIndex = -1 then
      match parseMetadata payload with
      | .error e => .error e
      | .ok newSize => .ok ⟨offset, blockIndex, isGood, newSize⟩
    else .ok ⟨offset, blockIndex, isGood, -1⟩
  else .ok ⟨offset, 0, isGood, -1⟩

/-- The validation of the record at `offset`. -/
def parseRecord (offset : ℤ) (recordBuf : List UInt8) : Except Status RecoveredRecord :=
  validateFields offset (decodeInt64 (slice 0 8 recordBuf)) (slice 8 4096 recordBuf)
    (recordBuf.getD 4104 0)

/-- The size a buffered record sets when it is recovered, or `-1`. -/
def PendingRecord.newSize (pr : PendingRecord) : ℤ :=
  if pr.blockIndex = -1 then (parseMetadata pr.payload.bytes).toOption.getD (-1) else -1

/-- What recovery reads from a buffered record that was written at `offset`. -/
def PendingRecord.recovered (pr : PendingRecord) (offset : ℤ) (isGood : UInt8) :
    RecoveredRecord :=
  ⟨offset, pr.blockIndex, isGood, pr.newSize⟩

/-- A buffered record that passes validation once it is written. -/
structure PendingRecord.Decodes (pr : PendingRecord) : Prop where
  lower : -1 ≤ pr.blockIndex
  upper : pr.blockIndex < 1000000
  metadata : pr.blockIndex = -1 → ∃ n, parseMetadata pr.payload.bytes = .ok n

/-- **An encoded record reads back**: with flag 1 or 2 it passes validation, and recovery gets
its block index, its flag and the size it sets. -/
theorem parseRecord_encode {pr : PendingRecord} (h : pr.Decodes) (offset : ℤ) {isGood : UInt8}
    (hf : isGood = 1 ∨ isGood = 2) :
    parseRecord offset (pr.encode isGood) = .ok (pr.recovered offset isGood) := by
  have hidx : decodeInt64 (slice 0 8 (pr.encode isGood)) = pr.blockIndex := by
    have h0 := h.lower
    have h1 := h.upper
    rw [pr.slice_index_encode, decodeInt64_encodeInt64 (by omega) (by omega)]
  have hbad : ¬ (pr.blockIndex < -1 ∨ pr.blockIndex ≥ 1000000) := by
    have h0 := h.lower
    have h1 := h.upper
    omega
  rw [parseRecord, pr.getD_encode, pr.slice_payload_encode, hidx, validateFields, if_pos hf,
    if_neg hbad]
  by_cases hm : pr.blockIndex = -1
  · obtain ⟨n, hn⟩ := h.metadata hm
    have hnew : pr.newSize = n := by
      rw [PendingRecord.newSize, if_pos hm, hn]
      rfl
    rw [if_pos hm, hn, PendingRecord.recovered, hnew]
  · have hnew : pr.newSize = -1 := by rw [PendingRecord.newSize, if_neg hm]
    rw [if_neg hm, PendingRecord.recovered, hnew]

/-- A record whose flag is neither 1 nor 2 passes validation whatever its content. -/
lemma parseRecord_of_flag {recordBuf : List UInt8} (offset : ℤ)
    (h1 : recordBuf.getD 4104 0 ≠ 1) (h2 : recordBuf.getD 4104 0 ≠ 2) :
    parseRecord offset recordBuf = .ok ⟨offset, 0, recordBuf.getD 4104 0, -1⟩ := by
  rw [parseRecord, validateFields, if_neg (by tauto)]

/-- What validation lets through. -/
structure RecoveredRecord.Valid (rec : RecoveredRecord) : Prop where
  lower : -1 ≤ rec.blockIndex
  upper : rec.blockIndex < 1000000
  newSize_lower : -1 ≤ rec.newSize
  newSize_upper : rec.newSize ≤ 1000000 * 4096

/-- A metadata payload that passes validation sets a size in range, or none. -/
lemma parseMetadata_range {payload : List UInt8} {n : ℤ} (h : parseMetadata payload = .ok n) :
    -1 ≤ n ∧ n ≤ 1000000 * 4096 := by
  unfold parseMetadata at h
  simp only at h
  split_ifs at h with h1
  split at h
  · simp at h
  · obtain rfl : -1 = n := by simpa using h
    omega
  · split_ifs at h with h2
    obtain rfl := Except.ok.inj h
    omega

/-- **What validation lets through**: the offset and the flag are those of the record, and block
index and size are in range. -/
theorem parseRecord_ok {offset : ℤ} {recordBuf : List UInt8} {rec : RecoveredRecord}
    (h : parseRecord offset recordBuf = .ok rec) :
    rec.offset = offset ∧ rec.isGood = recordBuf.getD 4104 0 ∧ rec.Valid := by
  unfold parseRecord validateFields at h
  split_ifs at h with h1 h2 h3
  · cases hm : parseMetadata (slice 8 4096 recordBuf) with
    | error e => simp [hm] at h
    | ok n =>
      obtain ⟨hn0, hn1⟩ := parseMetadata_range hm
      rw [hm] at h
      obtain rfl := Except.ok.inj h
      exact ⟨rfl, rfl, ⟨by dsimp only; omega, by dsimp only; omega, hn0, hn1⟩⟩
  · obtain rfl := Except.ok.inj h
    exact ⟨rfl, rfl, ⟨by dsimp only; omega, by dsimp only; omega, by simp, by simp⟩⟩
  · obtain rfl := Except.ok.inj h
    exact ⟨rfl, rfl, ⟨by simp, by simp, by simp, by simp⟩⟩

/-- The block index of a record with flag 1 or 2 is the one in its first eight bytes. -/
lemma blockIndex_of_parseRecord {offset : ℤ} {recordBuf : List UInt8} {rec : RecoveredRecord}
    (h : parseRecord offset recordBuf = .ok rec) (hf : rec.isGood = 1 ∨ rec.isGood = 2) :
    rec.blockIndex = decodeInt64 (slice 0 8 recordBuf) := by
  have hflag := (parseRecord_ok h).2.1
  rw [hflag] at hf
  rw [parseRecord, validateFields, if_pos hf] at h
  split_ifs at h with h1 h2
  · cases hm : parseMetadata (slice 8 4096 recordBuf) with
    | error e => simp [hm] at h
    | ok n =>
      rw [hm] at h
      rw [← Except.ok.inj h]
  · rw [← Except.ok.inj h]

/-! ## Truncate records -/

/-- **A truncate record carries its size**: recovery reads back the size it was made from. -/
theorem parseMetadata_truncateRecord (hp : MetadataProto.RoundTrips) {n : ℤ} (h0 : 0 ≤ n)
    (h1 : n ≤ 1000000 * 4096) {serialized : List UInt8}
    (hs : MetadataProto.serializeToString n = some serialized)
    (hl : serialized.length ≤ 4088) :
    parseMetadata (truncateRecord serialized).payload.bytes = .ok n := by
  have hlen : decodeInt64 (encodeInt64 serialized.length) = serialized.length :=
    decodeInt64_encodeInt64 (by omega) (by omega)
  have hhead : slice 0 8 (truncateRecord serialized).payload.bytes =
      encodeInt64 serialized.length := by
    rw [bytes_truncateRecord hl, slice_append_left _ (by simp)]
    exact slice_zero_length (encodeInt64 serialized.length)
  have hbody : slice 8 serialized.length (truncateRecord serialized).payload.bytes =
      serialized := by
    have h := slice_append_right (o := 0) (n := serialized.length)
      (encodeInt64 serialized.length)
      (serialized ++ List.replicate (4088 - serialized.length) 0)
    rw [length_encodeInt64] at h
    rw [bytes_truncateRecord hl, h, slice_append_left _ (by omega), slice_zero_length]
  unfold parseMetadata
  rw [hhead, hlen]
  simp only [Int.toNat_natCast, hbody, hp n serialized h0 h1 hs]
  rw [if_neg (by omega), if_neg (by omega)]

/-- A truncate record passes validation. -/
lemma decodes_truncateRecord (hp : MetadataProto.RoundTrips) {n : ℤ} (h0 : 0 ≤ n)
    (h1 : n ≤ 1000000 * 4096) {serialized : List UInt8}
    (hs : MetadataProto.serializeToString n = some serialized)
    (hl : serialized.length ≤ 4088) : (truncateRecord serialized).Decodes where
  lower := le_rfl
  upper := by simp [truncateRecord]
  metadata _ := ⟨n, parseMetadata_truncateRecord hp h0 h1 hs hl⟩

/-- The size of a truncate record is the one it was made from. -/
lemma newSize_truncateRecord (hp : MetadataProto.RoundTrips) {n : ℤ} (h0 : 0 ≤ n)
    (h1 : n ≤ 1000000 * 4096) {serialized : List UInt8}
    (hs : MetadataProto.serializeToString n = some serialized)
    (hl : serialized.length ≤ 4088) : (truncateRecord serialized).newSize = n := by
  have hidx : (truncateRecord serialized).blockIndex = -1 := rfl
  rw [PendingRecord.newSize, if_pos hidx, parseMetadata_truncateRecord hp h0 h1 hs hl]
  rfl

end Parse

end SqliteGcs
