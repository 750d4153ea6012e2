import SqliteGcs.SizedStorage

set_option relaxedAutoImplicit false
set_option autoImplicit false

/-!
# `Init` in 64-bit arithmetic

`Init` in the integer types of the source, with its loops, its vectors and its buffers: the padding,
the scan through `record_buf`, the backward pass over `applied` and the forward pass. An index that
is not one of its vector, a copy that leaves its buffer and a signed operation that overflows are
undefined, and local arrays start with arbitrary bytes. Nothing of this happens, whatever bytes the
storage holds: `Init` ends as it does on mathematical integers.

## Main definitions

* `SqliteGcs.FixedWidth.Stack` — the bytes of local arrays that are not initialized.
* `SqliteGcs.FixedWidth.Recovered` — `RecoveredRecord`.
* `SqliteGcs.FixedWidth.scanLoop`, `backwardLoop`, `forwardLoop`, `init` — the code.

## Main results

* `SqliteGcs.FixedWidth.init_refines` — `Init` ends as it does on mathematical integers.
-/

namespace SqliteGcs

open Bytes Machine

/-- The values of the message have their types: a size is an `int64`, and a serialized message is a
string. -/
structure MetadataProto.Typed [MetadataProto] : Prop where
  newSize : ∀ bs n, parseFromArray bs = some (some n) → -2 ^ 63 ≤ n ∧ n < 2 ^ 63
  length_lt : ∀ n bs, serializeToString n = some bs → bs.length < 2 ^ 63

namespace FixedWidth

/-! ## Vectors and buffers -/

section Memory

variable {S α : Type}

/-- `v[i]`. -/
def element (v : List α) (i : UInt64) : Code S α :=
  match v[i.toNat]? with
  | some a => pure a
  | none => throw .undefined

/-- `v[i] = a`. -/
def assign (v : List α) (i : UInt64) (a : α) : Code S (List α) :=
  if i.toNat < v.length then pure (v.set i.toNat a) else throw .undefined

/-- `resize(count, a)`. A vector of `2 ^ 60` elements is longer than any can be; the exception that
asking for one throws is not caught anywhere. -/
def resize (v : List α) (count : UInt64) (a : α) : Code S (List α) :=
  if count.toNat < 2 ^ 60 then pure (PageTable.resize a count.toNat v) else throw .undefined

/-- `memcpy` of eight bytes of a buffer to an `int64_t`. -/
def loadInt64 (source : List UInt8) (position : ℤ) : Code S Int64 := do
  let bytes ← load source position 8
  pure (Int64.ofInt (decodeInt64 bytes))

end Memory

variable {σ : Type} [AppendOnlyStorage σ]

/-- A call of `storage_`. -/
def onStorage {α : Type} (f : σ → Except Status α × σ) : Code (BlockMapper σ) α := fun m =>
  outcome (BlockMapper.onStorage (fun _ => f) m)

/-! ## The code -/

/-- `RecoveredRecord`. -/
structure Recovered where
  /-- `offset`. -/
  offset : Int64
  /-- `block_index`. -/
  blockIndex : Int64
  /-- `is_good`. -/
  isGood : UInt8
  /-- `new_size`. -/
  newSize : Int64

/-- The padding of `Init`, and `P` after it. -/
def padStorage : Code (BlockMapper σ) Int64 := do
  let size ← onStorage getSize
  let P := Int64.ofInt size
  if P % 4105 ≠ 0 then do
    let padSize ← signed (4105 - (P % 4105).toInt)
    let padding ← resize [] padSize.toUInt64 0
    let _ ← onStorage (append padding)
    let newSize ← onStorage getSize
    pure (Int64.ofInt newSize)
  else pure P

/-- `PRead` into `record_buf`. -/
def readRecord (stack : Stack) (offset : Int64) : Code (BlockMapper σ) (List UInt8) := do
  let bytes ← onStorage (pRead 4105 offset.toInt)
  let recordBuf ← overwrite (stack.array 4105) 0 bytes
  if UInt64.ofNat bytes.length ≠ 4105 then
    throw (.failed
      ⟨.internal, "Corrupt database file or unexpected EOF during recovery"⟩)
  else pure recordBuf

section Parse

variable [MetadataProto] {S : Type}

/-- The checks of a metadata record, and its `new_size`. -/
def parseNewSize (recordBuf : List UInt8) : Code S Int64 := do
  let protoSize ← loadInt64 recordBuf 8
  if protoSize < 0 ∨ protoSize > 4088 then
    throw (.failed ⟨.internal, "Invalid proto size during recovery"⟩)
  else do
    let message ← load recordBuf 16 protoSize.toUInt64
    match MetadataProto.parseFromArray message with
    | none => throw (.failed ⟨.internal, "Failed to parse MetadataBlock during recovery"⟩)
    | some none => pure (-1)
    | some (some n) =>
      if Int64.ofInt n < 0 ∨ Int64.ofInt n > 1000000 * 4096 then
        throw (.failed ⟨.internal, "Invalid size in MetadataBlock during recovery"⟩)
      else pure (Int64.ofInt n)

/-- The record in `record_buf`. -/
def parse (recordBuf : List UInt8) (offset : Int64) : Code S Recovered := do
  let isGood ← element recordBuf 4104
  if isGood = 1 ∨ isGood = 2 then do
    let blockIndex ← loadInt64 recordBuf 0
    if blockIndex < -1 ∨ blockIndex ≥ 1000000 then
      throw (.failed ⟨.internal, "Invalid block index during recovery"⟩)
    else if blockIndex = -1 then do
      let newSize ← parseNewSize recordBuf
      pure ⟨offset, blockIndex, isGood, newSize⟩
    else pure ⟨offset, blockIndex, isGood, -1⟩
  else pure ⟨offset, 0, isGood, -1⟩

/-- The scan. -/
def scanLoop (stack : Stack) (P : Int64) :
    ℕ → Int64 → List Recovered → Code (BlockMapper σ) (List Recovered)
  | 0, _, _ => throw .unfinished
  | fuel + 1, offset, recoveredRecords =>
    if offset < P then do
      let recordBuf ← readRecord stack offset
      let record ← parse recordBuf offset
      let offset ← signed (offset.toInt + 4105)
      scanLoop stack P fuel offset (recoveredRecords ++ [record])
    else pure recoveredRecords

end Parse

section Passes

variable {S : Type}

/-- The loop of the backward pass. -/
def backwardLoop (recoveredRecords : List Recovered) :
    ℕ → Int64 → Bool → List Bool → Code S (List Bool)
  | 0, _, _, _ => throw .unfinished
  | fuel + 1, i, appliedNext, applied =>
    if i ≥ 0 then do
      let record ← element recoveredRecords i.toUInt64
      let appliedNext :=
        if record.isGood = 1 then true
        else if record.isGood = 0 then false
        else if record.isGood = 2 then appliedNext
        else false
      let applied ← assign applied i.toUInt64 appliedNext
      let i ← signed (i.toInt - 1)
      backwardLoop recoveredRecords fuel i appliedNext applied
    else pure applied

end Passes

/-- The entry of a block is set to the payload of the record at an offset, and the table grows if it
is too short, as in the loops of `Init` and `Sync`. -/
def mapBlock (blockIndex offset : Int64) : Code (BlockMapper σ) Unit := do
  let m ← get
  let table ←
    if blockIndex ≥ (UInt64.ofNat m.logicalToPhysical.length).toInt64 then do
      let count ← signed (blockIndex.toInt + 1)
      resize m.logicalToPhysical count.toUInt64 (-1)
    else pure m.logicalToPhysical
  let payload ← signed (offset.toInt + 8)
  let table ← assign table blockIndex.toUInt64 payload.toInt
  set { m with logicalToPhysical := table }

/-- `ceil_blocks`. -/
def ceilBlocks {S : Type} (newSize : Int64) : Code S Int64 := do
  let sum ← signed (newSize.toInt + 4095)
  pure (sum / 4096)

/-- `logical_to_physical_.resize(ceil_blocks, -1)`. -/
def cutTable (count : Int64) : Code (BlockMapper σ) Unit := do
  let m ← get
  let table ← resize m.logicalToPhysical count.toUInt64 (-1)
  set { m with logicalToPhysical := table }

/-- The body of the forward pass. -/
def applyRecord (record : Recovered) : Code (BlockMapper σ) Unit :=
  if record.blockIndex ≥ 0 then do
    mapBlock record.blockIndex record.offset
    let next ← signed (record.blockIndex.toInt + 1)
    let blockEnd ← signed (next.toInt * 4096)
    modify fun m => { m with logicalSize := max m.logicalSize blockEnd.toInt }
  else if record.blockIndex = -1 then
    if record.newSize ≠ -1 then do
      modify fun m => { m with logicalSize := record.newSize.toInt }
      let count ← ceilBlocks record.newSize
      cutTable count
    else pure ()
  else pure ()

/-- The forward pass. -/
def forwardLoop (recoveredRecords : List Recovered) (applied : List Bool) :
    ℕ → UInt64 → Code (BlockMapper σ) Unit
  | 0, _ => throw .unfinished
  | fuel + 1, i =>
    if i < UInt64.ofNat recoveredRecords.length then do
      let isApplied ← element applied i
      if isApplied then do
        let record ← element recoveredRecords i
        applyRecord record
        forwardLoop recoveredRecords applied fuel (i + 1)
      else forwardLoop recoveredRecords applied fuel (i + 1)
    else pure ()

/-- `Init`. -/
def init [MetadataProto] (stack : Stack) (fuel : ℕ) : Code (BlockMapper σ) Unit := do
  let m ← get
  if m.initialized then
    throw (.failed ⟨.failedPrecondition, "BlockMapper already initialized"⟩)
  else do
    let P ← padStorage
    let recoveredRecords ← scanLoop stack P fuel 0 []
    let last ← signed ((UInt64.ofNat recoveredRecords.length).toInt64.toInt - 1)
    let applied ← backwardLoop recoveredRecords fuel last false
      (List.replicate recoveredRecords.length false)
    forwardLoop recoveredRecords applied fuel 0
    modify fun m => { m with initialized := true }

/-! ## Accesses in range -/

section Access

variable {S α : Type}

/-- An element of a vector. -/
lemma element_eq {v : List α} {i : ℕ} (h : i < v.length) (hlt : v.length < 2 ^ 64) :
    element v (.ofNat i) = (pure v[i] : Code S α) := by
  rw [element, toNat_ofNat (by omega), List.getElem?_eq_getElem h]

/-- An element of a vector is set. -/
lemma assign_eq {v : List α} {i : ℕ} (h : i < v.length) (hlt : v.length < 2 ^ 64) (a : α) :
    assign v (.ofNat i) a = (pure (v.set i a) : Code S (List α)) := by
  rw [assign, toNat_ofNat (by omega), if_pos h]

/-- A vector gets a length that it can have. -/
lemma resize_eq (v : List α) {n : ℕ} (h : n < 2 ^ 60) (a : α) :
    resize v (.ofNat n) a = (pure (PageTable.resize a n v) : Code S (List α)) := by
  rw [resize, toNat_ofNat (by omega), if_pos h]

/-- A copy out of a buffer. -/
lemma load_eq {source : List UInt8} {position n : ℕ} (h : position + n ≤ source.length)
    (hlt : source.length < 2 ^ 64) :
    load source position (.ofNat n) = (pure (slice position n source) : Code S (List UInt8)) := by
  rw [load, toNat_ofNat (by omega), if_pos ⟨by omega, by omega⟩, Int.toNat_natCast]

/-- A copy of eight bytes out of a buffer. -/
lemma loadInt64_eq {source : List UInt8} {position : ℕ} (h : position + 8 ≤ source.length)
    (hlt : source.length < 2 ^ 64) :
    loadInt64 source position =
      (pure (Int64.ofInt (decodeInt64 (slice position 8 source))) : Code S Int64) := by
  rw [loadInt64, show (8 : UInt64) = .ofNat 8 from rfl, load_eq h hlt, pure_bind]

/-- The value of eight bytes is one of an `int64_t`. -/
lemma decodeInt64_range (bs : List UInt8) :
    -2 ^ 63 ≤ decodeInt64 bs ∧ decodeInt64 bs < 2 ^ 63 := by
  unfold decodeInt64 s64
  constructor
  · exact (Int.le_bmod (by omega)).trans' (by omega)
  · exact (Int.bmod_lt (by omega)).trans_le (by omega)

/-- An exact result in range, of a signed operation. -/
lemma signed_of_range {x : ℤ} (h0 : -2 ^ 63 ≤ x) (h1 : x < 2 ^ 63) :
    signed x = (pure (Int64.ofInt x) : Code S Int64) := if_pos ⟨h0, h1⟩

end Access

/-- The value of an `int64_t` in range. -/
lemma toInt_ofInt {x : ℤ} (h0 : -2 ^ 63 ≤ x) (h1 : x < 2 ^ 63) : (Int64.ofInt x).toInt = x :=
  Int64.toInt_ofInt_of_le h0 h1

/-- The comparison of an `int64_t` with a value in range. -/
lemma lt_ofInt {x : Int64} {y : ℤ} (h0 : -2 ^ 63 ≤ y) (h1 : y < 2 ^ 63) :
    x < Int64.ofInt y ↔ x.toInt < y := by
  rw [Int64.lt_iff_toInt_lt, toInt_ofInt h0 h1]

/-- The comparison of a value in range with an `int64_t`. -/
lemma ofInt_lt {x : Int64} {y : ℤ} (h0 : -2 ^ 63 ≤ y) (h1 : y < 2 ^ 63) :
    Int64.ofInt y < x ↔ y < x.toInt := by
  rw [Int64.lt_iff_toInt_lt, toInt_ofInt h0 h1]

/-- An `int64_t` that is a value in range. -/
lemma eq_ofInt {x : Int64} {y : ℤ} (h0 : -2 ^ 63 ≤ y) (h1 : y < 2 ^ 63) :
    x = Int64.ofInt y ↔ x.toInt = y := by
  rw [← Int64.toInt_inj, toInt_ofInt h0 h1]

/-! ## The record -/

/-- The record of `BlockMapper` in the types of the source. -/
def Recovered.ofModel (record : RecoveredRecord) : Recovered :=
  ⟨.ofInt record.offset, .ofInt record.blockIndex, record.isGood, .ofInt record.newSize⟩

/-- Return a value or a status. -/
def returned {S α : Type} : Except Status α → Code S α
  | .ok a => pure a
  | .error e => throw (.failed e)

section Parse

variable [MetadataProto] {S : Type}

/-- **The checks of a metadata record** in 64-bit arithmetic are those of `BlockMapper`. -/
lemma parseNewSize_eq (htyped : MetadataProto.Typed) {recordBuf : List UInt8}
    (hlen : recordBuf.length = 4105) :
    parseNewSize recordBuf =
      (returned ((parseMetadata (slice 8 4096 recordBuf)).map Int64.ofInt) : Code S Int64) := by
  have hsize : slice 0 8 (slice 8 4096 recordBuf) = slice 8 8 recordBuf :=
    slice_slice recordBuf (by omega)
  rw [parseNewSize, show (8 : ℤ) = ((8 : ℕ) : ℤ) from rfl, loadInt64_eq (by omega) (by omega),
    pure_bind, parseMetadata, hsize]
  obtain ⟨protoSize, hproto⟩ : ∃ protoSize, protoSize = decodeInt64 (slice 8 8 recordBuf) :=
    ⟨_, rfl⟩
  obtain ⟨hr0, hr1⟩ := decodeInt64_range (slice 8 8 recordBuf)
  rw [← hproto] at hr0 hr1 ⊢
  have hcheck : (Int64.ofInt protoSize < 0 ∨ Int64.ofInt protoSize > 4088) ↔
      (protoSize < 0 ∨ protoSize > 4088) := by
    rw [gt_iff_lt, ofInt_lt hr0 hr1, show (4088 : Int64) = .ofInt 4088 from rfl,
      lt_ofInt hr0 hr1, toInt_ofInt (by omega) (by omega)]
    exact Iff.rfl
  by_cases hbad : protoSize < 0 ∨ protoSize > 4088
  · rw [if_pos (hcheck.mpr hbad), if_pos hbad]
    rfl
  rw [if_neg (mt hcheck.mp hbad), if_neg hbad]
  obtain ⟨n, rfl⟩ : ∃ n : ℕ, protoSize = n := ⟨protoSize.toNat, by omega⟩
  have hmessage : slice 8 n (slice 8 4096 recordBuf) = slice 16 n recordBuf :=
    slice_slice recordBuf (by omega)
  have hcount : (Int64.ofInt n).toUInt64 = .ofNat n := by
    rw [Int64.ofInt_eq_ofNat, Int64.toUInt64_ofNat']
  rw [hcount, show (16 : ℤ) = ((16 : ℕ) : ℤ) from rfl, load_eq (by omega) (by omega), pure_bind,
    Int.toNat_natCast, hmessage]
  cases hp : MetadataProto.parseFromArray (slice 16 n recordBuf) with
  | none => rfl
  | some newSize =>
    cases newSize with
    | none => rfl
    | some newSize =>
      obtain ⟨h0, h1⟩ := htyped.newSize _ _ hp
      have hvalid : (Int64.ofInt newSize < 0 ∨ Int64.ofInt newSize > 1000000 * 4096) ↔
          (newSize < 0 ∨ newSize > 1000000 * 4096) := by
        rw [gt_iff_lt, ofInt_lt h0 h1,
          show (1000000 * 4096 : Int64) = .ofInt 4096000000 from by decide,
          lt_ofInt h0 h1, toInt_ofInt (by omega) (by omega)]
        exact Iff.rfl
      dsimp only
      by_cases hbad' : newSize < 0 ∨ newSize > 1000000 * 4096
      · rw [if_pos (hvalid.mpr hbad'), if_pos hbad']
        rfl
      · rw [if_neg (mt hvalid.mp hbad'), if_neg hbad']
        rfl

/-- **The checks of a record** in 64-bit arithmetic are those of `BlockMapper`. -/
lemma parse_eq (htyped : MetadataProto.Typed) {recordBuf : List UInt8}
    (hlen : recordBuf.length = 4105) (offset : ℤ) :
    parse recordBuf (.ofInt offset) =
      (returned ((parseRecord offset recordBuf).map Recovered.ofModel) : Code S Recovered) := by
  have hgood : recordBuf[4104] = recordBuf.getD 4104 0 := by
    rw [List.getD_eq_getElem _ _ (by omega)]
  rw [parse, show (4104 : UInt64) = .ofNat 4104 from rfl, element_eq (by omega) (by omega),
    pure_bind, parseRecord, validateFields, hgood]
  by_cases hflag : recordBuf.getD 4104 0 = 1 ∨ recordBuf.getD 4104 0 = 2
  · rw [if_pos hflag, if_pos hflag, show (0 : ℤ) = ((0 : ℕ) : ℤ) from rfl,
      loadInt64_eq (by omega) (by omega), pure_bind]
    obtain ⟨b, hb⟩ : ∃ b, b = decodeInt64 (slice 0 8 recordBuf) := ⟨_, rfl⟩
    obtain ⟨h0, h1⟩ := decodeInt64_range (slice 0 8 recordBuf)
    rw [← hb] at h0 h1 ⊢
    have hcheck : (Int64.ofInt b < -1 ∨ Int64.ofInt b ≥ 1000000) ↔ (b < -1 ∨ b ≥ 1000000) := by
      rw [ofInt_lt h0 h1, ge_iff_le, Int64.le_iff_toInt_le, toInt_ofInt h0 h1]
      exact Iff.rfl
    have hmeta : Int64.ofInt b = -1 ↔ b = -1 := by
      rw [show (-1 : Int64) = .ofInt (-1) from rfl, eq_ofInt (by omega) (by omega),
        toInt_ofInt h0 h1]
    by_cases hbad : b < -1 ∨ b ≥ 1000000
    · rw [if_pos (hcheck.mpr hbad), if_pos hbad]
      rfl
    rw [if_neg (mt hcheck.mp hbad), if_neg hbad]
    by_cases hm : b = -1
    · rw [if_pos (hmeta.mpr hm), if_pos hm, parseNewSize_eq htyped hlen]
      cases parseMetadata (slice 8 4096 recordBuf) with
      | error e => rfl
      | ok newSize => rfl
    · rw [if_neg (mt hmeta.mp hm), if_neg hm]
      rfl
  · rw [if_neg hflag, if_neg hflag]
    rfl

end Parse

/-! ## Padding and scanning -/

omit [AppendOnlyStorage σ] in
/-- A call of the storage that succeeds. -/
lemma onStorage_ok {α : Type} {f : σ → Except Status α × σ} {m : BlockMapper σ} {a : α} {s : σ}
    (h : f m.storage = (.ok a, s)) : onStorage f m = (.ok a, { m with storage := s }) := by
  rw [onStorage, BlockMapper.onStorage, h]
  rfl

omit [AppendOnlyStorage σ] in
/-- A call of the storage that fails. -/
lemma onStorage_error {α : Type} {f : σ → Except Status α × σ} {m : BlockMapper σ} {e : Status}
    {s : σ} (h : f m.storage = (.error e, s)) :
    onStorage f m = (.error (.failed e), { m with storage := s }) := by
  rw [onStorage, BlockMapper.onStorage, h]
  rfl

section Scan

/-- The scan returns at most one record an iteration. -/
lemma length_scan [MetadataProto] (P : ℤ) (fuel : ℕ) (offset : ℤ) (s : σ)
    (recs : List RecoveredRecord) (h : (BlockMapper.scan P fuel offset s).1 = .ok recs) :
    recs.length ≤ fuel := by
  induction fuel generalizing offset s recs with
  | zero =>
    obtain rfl := Except.ok.inj h
    exact le_rfl
  | succ fuel ih =>
    rw [BlockMapper.scan] at h
    by_cases hlt : offset < P
    · rw [if_pos hlt] at h
      generalize pRead 4105 offset s = p at h
      obtain ⟨e | recordBuf, t⟩ := p
      · cases h
      dsimp only at h
      split_ifs at h
      cases hparse : parseRecord offset recordBuf with
      | error e =>
        rw [hparse] at h
        cases h
      | ok rec =>
        rw [hparse] at h
        have hrest := ih (offset + 4105) t
        dsimp only at h
        generalize BlockMapper.scan P fuel (offset + 4105) t = p at h hrest
        obtain ⟨e | rest, t'⟩ := p
        · cases h
        · obtain rfl := Except.ok.inj h
          exact Nat.succ_le_succ (hrest rest rfl)
    · rw [if_neg hlt] at h
      obtain rfl := Except.ok.inj h
      exact Nat.zero_le _

variable [SizedStorage σ]

/-- **The padding** in 64-bit arithmetic is that of `BlockMapper`. -/
lemma padStorage_eq {m : BlockMapper σ} (hc : SizedStorage.Consistent m.storage)
    (hlt : SizedStorage.size (BlockMapper.padStorage m.storage).2 < 2 ^ 63) :
    padStorage m = outcome ((BlockMapper.padStorage m.storage).1.map Int64.ofInt,
      { m with storage := (BlockMapper.padStorage m.storage).2 }) := by
  obtain ⟨hc1, hsize, hn⟩ := SizedStorage.getSize_spec hc
  have hle := (BlockMapper.padStorage_sized hc).2.1
  rw [padStorage]
  rw [BlockMapper.padStorage] at hlt hle ⊢
  generalize hget : getSize m.storage = p at hc1 hsize hn hlt hle ⊢
  obtain ⟨e | P, s⟩ := p
  · rw [Code.bind_error (onStorage_error hget)]
    rfl
  rw [Code.bind_ok (onStorage_ok hget)]
  obtain rfl := hn P rfl
  generalize SizedStorage.size m.storage = n at hn hsize hlt hle ⊢
  dsimp only at hc1 hlt hle ⊢
  have hn63 : n < 2 ^ 63 := by omega
  have hmod : (Int64.ofInt n) % 4105 = .ofInt ((n % 4105 : ℕ) : ℤ) := by
    rw [Int64.ofInt_eq_ofNat, Int64.ofInt_eq_ofNat, ← Int64.toInt_inj, Int64.toInt_mod,
      Int64.toInt_ofNat_of_lt hn63, Int64.toInt_ofNat_of_lt (by omega)]
    exact Int.ofNat_tmod n 4105
  rw [hmod]
  by_cases hal : (n : ℤ) % 4105 ≠ 0
  · have hpad : (4105 : ℤ) - (n % 4105 : ℕ) = ((4105 - n % 4105 : ℕ) : ℤ) := by omega
    have hne : Int64.ofInt ((n % 4105 : ℕ) : ℤ) ≠ 0 := by
      rw [show (0 : Int64) = .ofInt 0 from rfl, ne_eq, eq_ofInt (by omega) (by omega),
        toInt_ofInt (by omega) (by omega)]
      omega
    have hbytes : PageTable.resize (0 : UInt8) (4105 - n % 4105) [] =
        List.replicate (4105 - (n : ℤ) % 4105).toNat 0 := by
      rw [PageTable.resize, List.take_nil, List.nil_append, List.length_nil]
      congr 1
      omega
    rw [if_pos hne, toInt_ofInt (by omega) (by omega), hpad, signed_of_range (by omega) (by omega),
      pure_bind, Int64.ofInt_eq_ofNat, Int64.toUInt64_ofNat', resize_eq _ (by omega), pure_bind,
      hbytes]
    rw [if_pos hal] at hlt hle ⊢
    generalize happ : append (List.replicate (4105 - (n : ℤ) % 4105).toNat 0) s = p at hlt hle ⊢
    obtain ⟨e | o, t⟩ := p
    · rw [Code.bind_error (onStorage_error happ)]
      rfl
    rw [Code.bind_ok (onStorage_ok happ)]
    dsimp only
    generalize hget' : getSize t = p
    obtain ⟨e | P', t'⟩ := p
    · rw [Code.bind_error (onStorage_error hget')]
      rfl
    · rw [Code.bind_ok (onStorage_ok hget')]
      rfl
  · have heq : ¬ Int64.ofInt ((n % 4105 : ℕ) : ℤ) ≠ 0 := by
      rw [show (0 : Int64) = .ofInt 0 from rfl, not_not, eq_ofInt (by omega) (by omega),
        toInt_ofInt (by omega) (by omega)]
      omega
    rw [if_neg heq, if_neg hal]
    rfl

omit [SizedStorage σ] in
/-- Reading a record: all of `record_buf` is set, or an error is returned. -/
lemma readRecord_eq (stack : Stack) {m : BlockMapper σ} {offset : ℤ} {bs : List UInt8} {s : σ}
    (hread : pRead 4105 offset m.storage = (.ok bs, s)) (hlen : bs.length ≤ 4105)
    (h0 : 0 ≤ offset) (h1 : offset < 2 ^ 63) :
    readRecord stack (.ofInt offset) m =
      if bs.length ≠ 4105 then
        (.error (.failed
          ⟨.internal, "Corrupt database file or unexpected EOF during recovery"⟩),
          { m with storage := s })
      else (.ok bs, { m with storage := s }) := by
  have hcount : UInt64.ofNat bs.length ≠ 4105 ↔ bs.length ≠ 4105 := by
    rw [ne_eq, ← UInt64.toNat_inj, toNat_ofNat (by omega)]
    exact Iff.rfl
  have hstack := stack.length_array 4105
  rw [readRecord, toInt_ofInt (by omega) h1, Code.bind_ok (onStorage_ok hread), overwrite,
    if_pos ⟨le_rfl, by omega⟩, pure_bind]
  by_cases hshort : bs.length ≠ 4105
  · rw [if_pos (hcount.mpr hshort), if_pos hshort]
    rfl
  · rw [if_neg (mt hcount.mp hshort), if_neg hshort, Int.toNat_zero, List.take_zero,
      List.nil_append, List.drop_of_length_le (by omega), List.append_nil]
    rfl

/-- What the scan comes to if `BlockMapper` comes to `r`, with the records that it had before. -/
def scanned (m : BlockMapper σ) (before : List Recovered)
    (r : Except Status (List RecoveredRecord) × σ) :
    Except Halt (List Recovered) × BlockMapper σ :=
  outcome (r.1.map fun recs => before ++ recs.map Recovered.ofModel, { m with storage := r.2 })

/-- **The scan** in 64-bit arithmetic is that of `BlockMapper`.

**Proof sketch.** Induction on the records that are left. An iteration reads one of them into
`record_buf`, and the checks on it are those of `BlockMapper` (`parse_eq`). -/
lemma scanLoop_eq [MetadataProto] (htyped : MetadataProto.Typed) (stack : Stack) {n o : ℕ}
    (hend : o + 4105 * n < 2 ^ 63) {fuel fuel' : ℕ} (hfuel : n < fuel) (hfuel' : n ≤ fuel')
    {m : BlockMapper σ} (hc : SizedStorage.Consistent m.storage) (before : List Recovered) :
    scanLoop stack (.ofInt ((o + 4105 * n : ℕ) : ℤ)) fuel (.ofInt o) before m =
      scanned m before (BlockMapper.scan ((o + 4105 * n : ℕ) : ℤ) fuel' o m.storage) := by
  induction n generalizing o fuel fuel' m before with
  | zero =>
    obtain ⟨fuel, rfl⟩ : ∃ k, fuel = k + 1 := ⟨fuel - 1, by omega⟩
    have hdone : ¬ Int64.ofInt o < Int64.ofInt ((o + 4105 * 0 : ℕ) : ℤ) := by
      rw [lt_ofInt (by omega) (by omega), toInt_ofInt (by omega) (by omega)]
      omega
    have hscan : BlockMapper.scan ((o + 4105 * 0 : ℕ) : ℤ) fuel' o m.storage =
        (.ok [], m.storage) := by
      cases fuel' with
      | zero => rfl
      | succ fuel' => rw [BlockMapper.scan, if_neg (by omega)]
    rw [scanLoop, if_neg hdone, hscan, scanned]
    show (Except.ok before, m) = (Except.ok (before ++ []), m)
    rw [List.append_nil]
  | succ n ih =>
    obtain ⟨fuel, rfl⟩ : ∃ k, fuel = k + 1 := ⟨fuel - 1, by omega⟩
    obtain ⟨fuel', rfl⟩ : ∃ k, fuel' = k + 1 := ⟨fuel' - 1, by omega⟩
    have hmore : Int64.ofInt o < Int64.ofInt ((o + 4105 * (n + 1) : ℕ) : ℤ) := by
      rw [lt_ofInt (by omega) (by omega), toInt_ofInt (by omega) (by omega)]
      omega
    have hlast : o + 4105 * (n + 1) = (o + 4105) + 4105 * n := by omega
    have hnext : (o : ℤ) + 4105 = ((o + 4105 : ℕ) : ℤ) := by omega
    rw [scanLoop, if_pos hmore, BlockMapper.scan, if_pos (by omega)]
    have hframe := SizedStorage.pRead_frame 4105 (o : ℤ) m.storage
    have hlength : ∀ bs, (pRead 4105 (o : ℤ) m.storage).1 = .ok bs → bs.length ≤ 4105 :=
      fun bs => SizedStorage.pRead_length hc
    generalize hread : pRead 4105 (o : ℤ) m.storage = p at hframe hlength ⊢
    obtain ⟨e | bs, s⟩ := p
    · have hrecord : readRecord stack (.ofInt o) m =
          (.error (.failed e), { m with storage := s }) := by
        rw [readRecord, toInt_ofInt (by omega) (by omega),
          Code.bind_error (onStorage_error hread)]
      rw [Code.bind_error hrecord]
      rfl
    have hrecord := readRecord_eq stack hread (hlength bs rfl) (by omega) (by omega)
    dsimp only
    by_cases hshort : bs.length ≠ 4105
    · rw [if_pos hshort] at hrecord
      rw [Code.bind_error hrecord, if_pos hshort]
      rfl
    rw [if_neg hshort] at hrecord
    rw [Code.bind_ok hrecord, if_neg hshort, parse_eq htyped (not_not.mp hshort)]
    cases hparse : parseRecord o bs with
    | error e => rfl
    | ok record =>
      have hconsistent : SizedStorage.Consistent s := (Prod.mk.inj hframe).2.symm ▸ hc
      have hrest := ih (o := o + 4105) (by omega) (by omega : n < fuel) (by omega : n ≤ fuel')
        (m := { m with storage := s }) hconsistent (before ++ [Recovered.ofModel record])
      rw [Except.map, returned, pure_bind, toInt_ofInt (by omega) (by omega), hnext,
        signed_of_range (by omega) (by omega), pure_bind, hlast, hrest]
      dsimp only
      generalize BlockMapper.scan _ fuel' _ s = q
      obtain ⟨e | recs, t⟩ := q
      · rfl
      · rw [scanned, scanned]
        dsimp only
        rw [Except.map, Except.map, List.map_cons, List.append_assoc, List.singleton_append]

end Scan

/-! ## The passes -/

/-- There is a decision for each record. -/
lemma length_appliedPass (recs : List RecoveredRecord) :
    (appliedPass recs).1.length = recs.length := by
  induction recs with
  | nil => rfl
  | cons r recs ih =>
    rw [appliedPass]
    dsimp only
    rw [List.length_cons, List.length_cons, ih]

/-- **The backward pass** in 64-bit arithmetic is that of `BlockMapper`: it has decided on the
records behind the first ones, and comes to those.

**Proof sketch.** Induction on the records that are left, from the last one on. -/
lemma backwardLoop_eq {S : Type} (first rest : List RecoveredRecord)
    (hlt : (first ++ rest).length < 2 ^ 63) {fuel : ℕ} (hfuel : first.length < fuel) :
    backwardLoop ((first ++ rest).map Recovered.ofModel) fuel (.ofInt ((first.length : ℤ) - 1))
        (appliedPass rest).2 (List.replicate first.length false ++ (appliedPass rest).1) =
      (pure (appliedPass (first ++ rest)).1 : Code S (List Bool)) := by
  induction first using List.reverseRecOn generalizing rest fuel with
  | nil =>
    obtain ⟨fuel, rfl⟩ : ∃ k, fuel = k + 1 := ⟨fuel - 1, by omega⟩
    have hdone : ¬ Int64.ofInt ((([] : List RecoveredRecord).length : ℤ) - 1) ≥ 0 := by
      decide
    rw [backwardLoop, if_neg hdone]
    rfl
  | append_singleton first r ih =>
    obtain ⟨fuel, rfl⟩ : ∃ k, fuel = k + 1 := ⟨fuel - 1, by omega⟩
    rw [List.length_append, List.length_append, List.length_singleton] at hlt
    rw [List.length_append, List.length_singleton] at hfuel
    have hindex : ((first ++ [r]).length : ℤ) - 1 = (first.length : ℕ) := by
      rw [List.length_append, List.length_singleton]
      omega
    have hmore : Int64.ofInt (first.length : ℕ) ≥ 0 := by
      rw [ge_iff_le, Int64.le_iff_toInt_le, toInt_ofInt (by omega) (by omega)]
      exact Int.natCast_nonneg _
    have hlen : ((first ++ [r] ++ rest).map Recovered.ofModel).length =
        first.length + 1 + rest.length := by
      rw [List.length_map, List.length_append, List.length_append, List.length_singleton]
    have hin : first.length < ((first ++ [r] ++ rest).map Recovered.ofModel).length := by omega
    have hget : ((first ++ [r] ++ rest).map Recovered.ofModel)[first.length] =
        Recovered.ofModel r := by
      rw [List.getElem_map]
      congr 1
      rw [List.getElem_append_left (by
          rw [List.length_append, List.length_singleton]; omega),
        List.getElem_append_right le_rfl]
      simp
    have hdecision : ∃ v, (if r.isGood = 1 then true else if r.isGood = 0 then false
          else if r.isGood = 2 then (appliedPass rest).2 else false) = v ∧
        appliedPass (r :: rest) = (v :: (appliedPass rest).1, v) := ⟨_, rfl, rfl⟩
    obtain ⟨v, hv, hpass⟩ := hdecision
    have hset : (List.replicate (first ++ [r]).length false ++ (appliedPass rest).1).set
        first.length v = List.replicate first.length false ++ (appliedPass (r :: rest)).1 := by
      rw [hpass, List.length_append, List.length_singleton, List.replicate_succ', List.append_assoc,
        List.set_append_right _ _ (by rw [List.length_replicate])]
      simp
    have happlied : (List.replicate (first ++ [r]).length false ++ (appliedPass rest).1).length =
        first.length + 1 + rest.length := by
      rw [List.length_append, List.length_replicate, length_appliedPass, List.length_append,
        List.length_singleton]
    have hrest := ih (r :: rest) (by
      rw [List.length_append, List.length_cons]; omega) (by omega : first.length < fuel)
    rw [hpass] at hrest
    dsimp only at hrest
    rw [hindex, backwardLoop, if_pos hmore]
    dsimp only
    rw [Int64.ofInt_eq_ofNat, Int64.toUInt64_ofNat', element_eq hin (by omega), hget,
      pure_bind]
    have hgood : (Recovered.ofModel r).isGood = r.isGood := rfl
    rw [hgood, hv, assign_eq (by omega) (by omega), pure_bind, hset, ← Int64.ofInt_eq_ofNat,
      toInt_ofInt (by omega) (by omega), signed_of_range (by omega) (by omega), pure_bind, hpass]
    rw [List.append_assoc, List.singleton_append]
    exact hrest

omit [AppendOnlyStorage σ] in
/-- **An entry is set** in 64-bit arithmetic as on mathematical integers. -/
lemma mapBlock_eq {m : BlockMapper σ} (htable : m.logicalToPhysical.length ≤ 1000000) {b : ℕ}
    (hb : b < 1000000) {p : ℤ} (h0 : 0 ≤ p) (h1 : p + 8 < 2 ^ 63) :
    mapBlock (.ofInt b) (.ofInt p) m = (.ok (), { m with
      logicalToPhysical := PageTable.put (-1) b (p + 8) m.logicalToPhysical }) := by
  have hsize : (UInt64.ofNat m.logicalToPhysical.length).toInt64 =
      .ofInt m.logicalToPhysical.length := by
    rw [toInt64_eq, toNat_ofNat (by omega), Int64.ofInt_eq_ofNat]
  have hcheck : Int64.ofInt b ≥ .ofInt m.logicalToPhysical.length ↔
      ¬ b < m.logicalToPhysical.length := by
    rw [ge_iff_le, Int64.le_iff_toInt_le, toInt_ofInt (by omega) (by omega),
      toInt_ofInt (by omega) (by omega)]
    omega
  have hindex : (Int64.ofInt b).toUInt64 = .ofNat b := by
    rw [Int64.ofInt_eq_ofNat, Int64.toUInt64_ofNat']
  have hnext : (b : ℤ) + 1 = ((b + 1 : ℕ) : ℤ) := by omega
  have hset : ∀ table : List ℤ, b < table.length → table.length ≤ 1000000 →
      ((signed ((Int64.ofInt p).toInt + 8) >>= fun payload =>
        assign table (Int64.ofInt b).toUInt64 payload.toInt >>= fun table =>
          set { m with logicalToPhysical := table }) : Code (BlockMapper σ) Unit) m =
        (.ok (), { m with logicalToPhysical := table.set b (p + 8) }) := by
    intro table hin hle
    rw [toInt_ofInt (by omega) (by omega), signed_of_range (by omega) (by omega), pure_bind,
      hindex, assign_eq hin (by omega), pure_bind, toInt_ofInt (by omega) (by omega)]
    rfl
  rw [mapBlock, Code.get_bind, hsize, PageTable.put]
  by_cases hin : b < m.logicalToPhysical.length
  · rw [if_neg (mt hcheck.mp (not_not.mpr hin)), pure_bind, if_pos hin]
    exact hset _ hin htable
  · have hgrown := PageTable.length_resize (-1 : ℤ) (b + 1) m.logicalToPhysical
    rw [if_pos (hcheck.mpr hin), toInt_ofInt (by omega) (by omega), hnext,
      signed_of_range (by omega) (by omega), pure_bind, Int64.ofInt_eq_ofNat,
      Int64.toUInt64_ofNat', resize_eq _ (by omega), pure_bind, if_neg hin]
    exact hset _ (by omega) (by omega)

/-- The number of blocks of a size in range. -/
lemma ceilBlocks_eq {S : Type} {n : ℤ} (h0 : 0 ≤ n) (h1 : n ≤ 1000000 * 4096) :
    ceilBlocks (.ofInt n) =
      (pure (.ofNat (SqliteGcs.ceilBlocks n).toNat) : Code S Int64) := by
  obtain ⟨k, rfl⟩ := Int.eq_ofNat_of_zero_le h0
  have hsum : (k : ℤ) + 4095 = ((k + 4095 : ℕ) : ℤ) := by omega
  rw [ceilBlocks, toInt_ofInt (by omega) (by omega), hsum, signed_of_range (by omega) (by omega),
    pure_bind, Int64.ofInt_eq_ofNat, ofNat_div (by omega), SqliteGcs.ceilBlocks, hsum]
  rfl

omit [AppendOnlyStorage σ] in
/-- **The table is cut** in 64-bit arithmetic as on mathematical integers. -/
lemma cutTable_eq (m : BlockMapper σ) {c : ℕ} (hc : c ≤ 1000000) :
    cutTable (.ofNat c) m = (.ok (), { m with
      logicalToPhysical := PageTable.resize (-1) c m.logicalToPhysical }) := by
  rw [cutTable, Code.get_bind, Int64.toUInt64_ofNat', resize_eq _ (by omega), pure_bind]
  rfl

omit [AppendOnlyStorage σ] in
/-- **A record is applied** in 64-bit arithmetic as on mathematical integers. -/
lemma applyRecord_eq {m : BlockMapper σ} (htable : m.logicalToPhysical.length ≤ 1000000)
    {rec : RecoveredRecord} (hvalid : rec.Valid) (h0 : 0 ≤ rec.offset)
    (h1 : rec.offset + 8 < 2 ^ 63) :
    applyRecord (.ofModel rec) m =
      (.ok (), { m with toLogical := m.toLogical.apply rec }) := by
  have hlower := hvalid.lower
  have hupper := hvalid.upper
  have hsize0 := hvalid.newSize_lower
  have hsize1 := hvalid.newSize_upper
  have hindex : (Recovered.ofModel rec).blockIndex = .ofInt rec.blockIndex := rfl
  have hoffset : (Recovered.ofModel rec).offset = .ofInt rec.offset := rfl
  have hnew : (Recovered.ofModel rec).newSize = .ofInt rec.newSize := rfl
  have hblock : Int64.ofInt rec.blockIndex ≥ 0 ↔ rec.blockIndex ≥ 0 := by
    rw [ge_iff_le, Int64.le_iff_toInt_le, toInt_ofInt (by omega) (by omega)]
    exact Iff.rfl
  have hmeta : ∀ x : ℤ, -1 ≤ x → x ≤ 1000000 * 4096 → (Int64.ofInt x = -1 ↔ x = -1) := by
    intro x hx0 hx1
    rw [show (-1 : Int64) = .ofInt (-1) from rfl, eq_ofInt (by omega) (by omega),
      toInt_ofInt (by omega) (by omega)]
  rw [applyRecord, hindex, hoffset, hnew, Logical.apply]
  by_cases hb : rec.blockIndex ≥ 0
  · obtain ⟨b, hb'⟩ := Int.eq_ofNat_of_zero_le hb
    rw [if_pos (hblock.mpr hb), if_pos hb, hb', Code.bind_ok (mapBlock_eq htable (by omega) h0 h1),
      toInt_ofInt (by omega) (by omega), signed_of_range (by omega) (by omega), pure_bind,
      toInt_ofInt (by omega) (by omega), signed_of_range (by omega) (by omega), pure_bind,
      toInt_ofInt (by omega) (by omega), Int.toNat_natCast]
    rfl
  rw [if_neg (mt hblock.mp hb), if_neg hb]
  by_cases hm : rec.blockIndex = -1
  · rw [if_pos ((hmeta _ (by omega) (by omega)).mpr hm), if_pos hm]
    by_cases hn : rec.newSize ≠ -1
    · have hcount : (SqliteGcs.ceilBlocks rec.newSize).toNat ≤ 1000000 := by
        rw [SqliteGcs.ceilBlocks]
        omega
      rw [if_pos (mt (hmeta _ (by omega) (by omega)).mp hn), if_pos hn,
        toInt_ofInt (by omega) (by omega), ceilBlocks_eq (by omega) (by omega)]
      exact cutTable_eq _ hcount
    · rw [if_neg (not_not.mpr ((hmeta _ (by omega) (by omega)).mpr (not_not.mp hn))), if_neg hn]
      rfl
  · rw [if_neg (mt (hmeta _ (by omega) (by omega)).mp hm), if_neg hm]
    rfl

omit [AppendOnlyStorage σ] in
/-- **The forward pass** in 64-bit arithmetic is that of `BlockMapper`.

**Proof sketch.** Induction on the records that are left. The table stays within the limit of blocks
(`Logical.Within`), so that its size is a number in range. -/
lemma forwardLoop_eq {L : ℕ} (hL : L < 2 ^ 63) {before rest : List RecoveredRecord}
    (hrest : ∀ rec ∈ rest, rec.Valid ∧ 0 ≤ rec.offset ∧ rec.offset + 4105 ≤ L)
    {flags flags' : List Bool} (hflags : flags.length = before.length)
    (hflags' : flags'.length = rest.length) (hlt : (before ++ rest).length < 2 ^ 63) {fuel : ℕ}
    (hfuel : rest.length < fuel) {m : BlockMapper σ} (hm : m.toLogical.Within L) :
    forwardLoop ((before ++ rest).map Recovered.ofModel) (flags ++ flags') fuel
        (.ofNat before.length) m =
      (.ok (), { m with toLogical := applyRecords m.toLogical (rest.zip flags') }) := by
  rw [List.length_append] at hlt
  induction rest generalizing before flags flags' fuel m with
  | nil =>
    obtain ⟨fuel, rfl⟩ : ∃ k, fuel = k + 1 := ⟨fuel - 1, by omega⟩
    have hdone : ¬ UInt64.ofNat before.length <
        UInt64.ofNat ((before ++ []).map Recovered.ofModel).length := by
      rw [List.length_map, List.append_nil]
      exact UInt64.lt_irrefl _
    rw [forwardLoop, if_neg hdone]
    rfl
  | cons r rest ih =>
    obtain ⟨fuel, rfl⟩ : ∃ k, fuel = k + 1 := ⟨fuel - 1, by omega⟩
    obtain ⟨flag, flags', rfl⟩ : ∃ flag rest, flags' = flag :: rest := by
      cases flags' with
      | nil => cases hflags'
      | cons flag flags' => exact ⟨flag, flags', rfl⟩
    rw [List.length_cons] at hlt hfuel
    rw [List.length_cons, List.length_cons] at hflags'
    have hcount : ((before ++ r :: rest).map Recovered.ofModel).length =
        before.length + (rest.length + 1) := by
      rw [List.length_map, List.length_append, List.length_cons]
    have hmore : UInt64.ofNat before.length <
        UInt64.ofNat ((before ++ r :: rest).map Recovered.ofModel).length := by
      rw [UInt64.lt_iff_toNat_lt, toNat_ofNat (by omega), toNat_ofNat (by omega)]
      omega
    have hin : before.length < ((before ++ r :: rest).map Recovered.ofModel).length := by omega
    have hget : ((before ++ r :: rest).map Recovered.ofModel)[before.length] = .ofModel r := by
      rw [List.getElem_map, List.getElem_append_right le_rfl]
      simp
    have hlen : (flags ++ flag :: flags').length = before.length + (rest.length + 1) := by
      rw [List.length_append, List.length_cons]
      omega
    have hin' : before.length < (flags ++ flag :: flags').length := by omega
    have hget' : (flags ++ flag :: flags')[before.length] = flag := by
      rw [List.getElem_append_right hflags.le]
      simp [hflags]
    have hnext : UInt64.ofNat before.length + 1 = .ofNat (before ++ [r]).length := by
      rw [List.length_append, List.length_singleton, UInt64.ofNat_add]
      rfl
    obtain ⟨hvalid, h0, h1⟩ := hrest r List.mem_cons_self
    have hgo : ∀ {m : BlockMapper σ}, m.toLogical.Within L →
        forwardLoop ((before ++ r :: rest).map Recovered.ofModel) (flags ++ flag :: flags') fuel
          (.ofNat before.length + 1) m =
          (.ok (), { m with toLogical := applyRecords m.toLogical (rest.zip flags') }) := by
      intro m hm
      have htail : forwardLoop ((before ++ [r] ++ rest).map Recovered.ofModel)
          (flags ++ [flag] ++ flags') fuel (.ofNat (before ++ [r]).length) m = _ :=
        ih (fun rec hrec => hrest rec (List.mem_cons_of_mem _ hrec))
          (by rw [List.length_append, List.length_append, hflags]; rfl) (by omega)
          (by rw [List.length_append, List.length_singleton]; omega) (by omega) hm
      rw [List.append_assoc, List.append_assoc, List.singleton_append, List.singleton_append,
        ← hnext] at htail
      exact htail
    rw [forwardLoop, if_pos hmore, element_eq hin' (by omega), pure_bind, hget', List.zip_cons_cons,
      applyRecords, List.foldl_cons, ← applyRecords]
    cases flag with
    | false =>
      rw [if_neg Bool.false_ne_true]
      exact hgo hm
    | true =>
      rw [if_pos rfl, element_eq hin (by omega), pure_bind, hget,
        Code.bind_ok (applyRecord_eq hm.length_le hvalid h0 (by omega))]
      exact hgo (hm.apply hvalid h0 h1)

/-- **`Init` in 64-bit arithmetic** ends as it does on mathematical integers, whatever bytes the
storage holds and local arrays start with: no signed operation overflows, no access is outside its
vector or buffer, and the loops end.

**Proof sketch.** The padding, the scan and the passes agree (`padStorage_eq`, `scanLoop_eq`,
`backwardLoop_eq`, `forwardLoop_eq`). The offsets stay in range as they are at most the size of the
storage. -/
theorem init_refines [SizedStorage σ] [MetadataProto] (htyped : MetadataProto.Typed)
    (stack : Stack) {fuel : ℕ} (hfuel : 2 ^ 63 ≤ fuel) {m : BlockMapper σ} (hm : m.InBounds)
    (hlog : SizedStorage.size m.init.2.storage < 2 ^ 63) :
    init stack fuel m = outcome m.init := by
  rw [init, Code.get_bind]
  rw [BlockMapper.init] at hlog ⊢
  by_cases hinit : m.initialized = true
  · rw [if_pos hinit, if_pos hinit]
    rfl
  rw [if_neg hinit] at hlog ⊢
  rw [if_neg hinit]
  rw [BlockMapper.scanStorage] at hlog ⊢
  obtain ⟨hc, hle, -, hok⟩ := BlockMapper.padStorage_sized hm.consistent
  have hpad := padStorage_eq (m := m) hm.consistent
  generalize BlockMapper.padStorage m.storage = p at hc hle hok hpad hlog ⊢
  obtain ⟨e | P, s⟩ := p
  · rw [Code.bind_error (hpad hlog)]
    rfl
  obtain ⟨hP, hal⟩ := hok P rfl
  dsimp only at hc hle hP hpad hlog ⊢
  have hframe := BlockMapper.scan_frame
    (φ := fun s : σ => (SizedStorage.size s, SizedStorage.Consistent s)) SizedStorage.pRead_frame P
    P.toNat 0 s
  have hsize := (Prod.mk.inj hframe).1
  obtain ⟨n, hn⟩ : ∃ n : ℕ, SizedStorage.size s = 4105 * n :=
    ⟨SizedStorage.size s / 4105, by omega⟩
  have hrecs : ∀ recs, (BlockMapper.scan P P.toNat 0 s).1 = .ok recs →
      ∀ rec ∈ recs, rec.Valid ∧ 0 ≤ rec.offset ∧ rec.offset + 4105 ≤ P :=
    BlockMapper.scan_sized le_rfl (by omega) s
  have hlt : SizedStorage.size s < 2 ^ 63 := by
    generalize BlockMapper.scan P P.toNat 0 s = p at hsize hlog
    obtain ⟨e | recs, t⟩ := p
    · exact hsize ▸ hlog
    · exact hsize ▸ hlog
  have hscan := scanLoop_eq htyped stack (n := n) (o := 0) (by omega) (by omega : n < fuel)
    (by omega : n ≤ P.toNat) (m := { m with storage := s }) hc []
  rw [Nat.zero_add, ← hn, ← hP, Nat.cast_zero] at hscan
  have hlength := fun recs => length_scan P P.toNat 0 s recs
  have hzero : (0 : Int64) = .ofInt 0 := rfl
  rw [Code.bind_ok (hpad hlt), hzero]
  dsimp only at hscan ⊢
  generalize BlockMapper.scan P P.toNat 0 s = p at hscan hrecs hlength hsize hlog ⊢
  obtain ⟨e | recs, t⟩ := p
  · rw [Code.bind_error hscan]
    rfl
  have hcount := hlength recs rfl
  have hvalid := hrecs recs rfl
  have hlast : (recs.length : ℤ) - 1 < 2 ^ 63 := by omega
  have hback := backwardLoop_eq (S := BlockMapper σ) recs [] (by rw [List.append_nil]; omega)
    (by omega : recs.length < fuel)
  rw [List.append_nil, appliedPass] at hback
  dsimp only at hback
  rw [List.append_nil] at hback
  have hforward : forwardLoop (([] ++ recs).map Recovered.ofModel) ([] ++ (appliedPass recs).1) fuel
      (.ofNat 0) { m with storage := t } = _ :=
    forwardLoop_eq (L := SizedStorage.size t) (by rw [hsize]; exact hlt)
      (fun rec hrec => by
        obtain ⟨hv, h0, h1⟩ := hvalid rec hrec
        exact ⟨hv, h0, by rw [hsize, ← hP]; exact h1⟩)
      rfl (length_appliedPass recs) (by rw [List.nil_append]; omega) (by omega)
      (hm.within.mono (by rw [hsize]; exact hle))
  have hscan' : scanLoop stack (.ofInt P) fuel (.ofInt 0) [] { m with storage := s } =
      (.ok (recs.map Recovered.ofModel), { m with storage := t }) := hscan
  rw [List.nil_append, List.nil_append] at hforward
  rw [Code.bind_ok hscan', List.length_map, toInt64_eq, toNat_ofNat (by omega),
    Int64.toInt_ofNat_of_lt (by omega), signed_of_range (by omega) hlast, pure_bind, hback,
    pure_bind]
  exact Code.bind_ok hforward

end FixedWidth

end SqliteGcs
