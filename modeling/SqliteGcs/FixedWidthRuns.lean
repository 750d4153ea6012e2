import SqliteGcs.FixedWidthInit

set_option relaxedAutoImplicit false
set_option autoImplicit false

/-!
# Runs of a mapper in 64-bit arithmetic

`Truncate` and `Sync` in the integer types of the source, as `Init`, `Read` and `Write` before, and
any run of the five member functions. On each of the three storages, whatever bytes the storage
holds and whichever of its calls fail, a run is the one on mathematical integers: no call is
undefined and no loop runs on.

## Main definitions

* `SqliteGcs.FixedWidth.truncate`, `SqliteGcs.FixedWidth.sync` — the member functions.
* `SqliteGcs.FixedWidth.Call` — a call with arguments of the types of the source.

## Main results

* `SqliteGcs.FixedWidth.call_refines` — a call ends as it does on mathematical integers.
* `SqliteGcs.FixedWidth.mapper_run_defined` — so does each call of a run.
-/

namespace SqliteGcs

open Bytes Machine

namespace FixedWidth

variable {σ : Type} [AppendOnlyStorage σ]

/-! ## `Truncate` -/

/-- The payload of a truncate record: its size, the message and zeros. -/
def truncatePayload {S : Type} (stack : Stack) (serialized : List UInt8) :
    Code S (List UInt8) := do
  let protoSize := (UInt64.ofNat serialized.length).toInt64
  let payload ← overwrite (stack.array 4096) 0 (encodeInt64 protoSize.toInt)
  let message ← load serialized 0 protoSize.toUInt64
  let payload ← overwrite payload 8 message
  let rest ← signed (4088 - protoSize.toInt)
  overwrite payload (8 + protoSize.toInt) (List.replicate rest.toUInt64.toNat 0)

/-- `Truncate`. -/
def truncate [MetadataProto] (stack : Stack) (newSize : Int64) : Code (BlockMapper σ) Unit :=
  if newSize < 0 ∨ newSize > 1000000 * 4096 then
    throw (.failed ⟨.invalidArgument, "new_size cannot be negative or exceed 4GB"⟩)
  else do
    let m ← get
    if ¬ m.initialized then
      throw (.failed ⟨.failedPrecondition, "BlockMapper not initialized"⟩)
    else
      match MetadataProto.serializeToString newSize.toInt with
      | none => throw (.failed ⟨.internal, "Failed to serialize MetadataBlock proto"⟩)
      | some serialized =>
        if UInt64.ofNat serialized.length > 4088 then
          throw (.failed
            ⟨.internal, "Serialized MetadataBlock exceeds maximum metadata payload size"⟩)
        else do
          let payload ← truncatePayload stack serialized
          modify fun m => { m with
            pendingRecords := m.pendingRecords ++ [⟨-1, Block.ofList payload⟩]
            logicalSize := newSize.toInt }
          let count ← ceilBlocks newSize
          modify fun m => { m with
            pendingRecords := m.pendingRecords.filter fun r => ¬ r.blockIndex ≥ count.toInt }
          cutTable count

/-! ## `Sync` -/

/-- `record_buf` of `Sync`, for the record at an index among `count` of them. -/
def encodeRecord {S : Type} (stack : Stack) (pr : PendingRecord) (i count : UInt64) :
    Code S (List UInt8) := do
  let recordBuf ← overwrite (stack.array 4105) 0 (encodeInt64 pr.blockIndex)
  let recordBuf ← overwrite recordBuf 8 pr.payload.bytes
  assign recordBuf 4104 (if i = count - 1 then 1 else 2)

/-- The loop of `Sync`. -/
def syncLoop (stack : Stack) : ℕ → UInt64 → Code (BlockMapper σ) Unit
  | 0, _ => throw .unfinished
  | fuel + 1, i => do
    let m ← get
    if i < UInt64.ofNat m.pendingRecords.length then do
      let pr ← element m.pendingRecords i
      let recordBuf ← encodeRecord stack pr i (UInt64.ofNat m.pendingRecords.length)
      let physicalOffset ← onStorage (append recordBuf)
      if pr.blockIndex ≥ 0 then do
        mapBlock (.ofInt pr.blockIndex) (.ofInt physicalOffset)
        syncLoop stack fuel (i + 1)
      else syncLoop stack fuel (i + 1)
    else pure ()

/-- `Sync`. -/
def sync (stack : Stack) (fuel : ℕ) : Code (BlockMapper σ) Unit := do
  let m ← get
  if ¬ m.initialized then
    throw (.failed ⟨.failedPrecondition, "BlockMapper not initialized"⟩)
  else if m.pendingRecords = [] then onStorage AppendOnlyStorage.sync
  else do
    syncLoop stack fuel 0
    modify fun m => { m with pendingRecords := [] }
    onStorage AppendOnlyStorage.sync

/-! ## Calls -/

/-- A buffer of a caller. -/
structure Buffer where
  /-- The bytes. -/
  bytes : List UInt8
  length_lt : bytes.length < 2 ^ 64

/-- `size()` of a buffer. -/
def Buffer.size (buf : Buffer) : UInt64 := .ofNat buf.bytes.length

/-- A call, with arguments of the types of the source. A buffer that is read into holds arbitrary
bytes before. -/
inductive Call
  | init
  | read (buf : Buffer) (logicalOffset : Int64)
  | write (buf : Buffer) (logicalOffset : Int64)
  | truncate (newSize : Int64)
  | sync

/-- The call on mathematical integers. -/
def Call.exact : Call → MapperCall
  | .init => .init
  | .read buf logicalOffset => .call (.read buf.bytes.length logicalOffset.toInt)
  | .write buf logicalOffset => .call (.op (.write buf.bytes logicalOffset.toInt))
  | .truncate newSize => .call (.op (.truncate newSize.toInt))
  | .sync => .call (.op .sync)

/-- What a call that returns OK has in the buffer that it reads into, or how it ends, and the state
after it. -/
def Call.run [MetadataProto] (stack : Stack) (fuel : ℕ) :
    Call → BlockMapper σ → Except Halt (List UInt8) × BlockMapper σ
  | .init, m =>
    let r := FixedWidth.init stack fuel m
    (r.1.map fun _ => [], r.2)
  | .read buf logicalOffset, m =>
    let r := FixedWidth.read fuel buf.size logicalOffset ⟨m, buf.bytes⟩
    (r.1.map fun _ => r.2.buf, r.2.mapper)
  | .write buf logicalOffset, m =>
    let r := FixedWidth.write stack fuel buf.bytes buf.size logicalOffset m
    (r.1.map fun _ => [], r.2)
  | .truncate newSize, m =>
    let r := FixedWidth.truncate stack newSize m
    (r.1.map fun _ => [], r.2)
  | .sync, m =>
    let r := FixedWidth.sync stack fuel m
    (r.1.map fun _ => [], r.2)

/-- The reply of a call on mathematical integers, as the end of a call. -/
def ended : Reply → Except Halt (List UInt8)
  | .data result => result.mapError .failed
  | .done result => (result.map fun _ => []).mapError .failed

/-! ## Filling a local array -/

section Filling

variable {S : Type}

/-- **A local array is filled from its start**: the bytes behind those that are set are still the
ones that it started with. -/
lemma overwrite_filled (array set bytes : List UInt8) (position : ℤ)
    (hposition : position = set.length) (hfit : set.length + bytes.length ≤ array.length) :
    overwrite (set ++ array.drop set.length) position bytes =
      (pure (set ++ bytes ++ array.drop (set ++ bytes).length) : Code S (List UInt8)) := by
  subst hposition
  have hlen : (set ++ array.drop set.length).length = array.length := by
    rw [List.length_append, List.length_drop]
    omega
  rw [overwrite, if_pos ⟨by omega, by omega⟩, Int.toNat_natCast, List.take_left', List.drop_append,
    List.drop_of_length_le (by omega), List.nil_append, List.drop_drop, List.length_append]
  · congr 4
    omega
  · rfl

/-- The payload of a truncate record, whatever the local array started with. -/
lemma truncatePayload_eq (stack : Stack) {serialized : List UInt8}
    (hlen : serialized.length ≤ 4088) :
    truncatePayload stack serialized =
      (pure (truncateRecord serialized).payload.bytes : Code S (List UInt8)) := by
  have harray := stack.length_array 4096
  have hsize : (UInt64.ofNat serialized.length).toInt64 = .ofNat serialized.length := by
    rw [toInt64_eq, toNat_ofNat (by omega)]
  have hvalue : (Int64.ofNat serialized.length).toInt = serialized.length :=
    Int64.toInt_ofNat_of_lt (by omega)
  have hrest : (4088 : ℤ) - serialized.length = ((4088 - serialized.length : ℕ) : ℤ) := by omega
  have hfirst := overwrite_filled (S := S) (stack.array 4096) [] (encodeInt64 serialized.length)
    0 rfl (by rw [length_encodeInt64, harray]; decide)
  rw [List.length_nil, List.drop_zero, List.nil_append, List.nil_append] at hfirst
  have hsecond := overwrite_filled (S := S) (stack.array 4096) (encodeInt64 serialized.length)
    serialized 8 (by rw [length_encodeInt64]; rfl) (by rw [length_encodeInt64, harray]; omega)
  have hthird := overwrite_filled (S := S) (stack.array 4096)
    (encodeInt64 serialized.length ++ serialized) (List.replicate (4088 - serialized.length) 0)
    (8 + serialized.length) (by rw [List.length_append, length_encodeInt64]; push_cast; rfl)
    (by
      rw [List.length_append, length_encodeInt64, List.length_replicate, harray]
      omega)
  rw [truncatePayload, hsize, hvalue, hfirst, pure_bind, Int64.toUInt64_ofNat',
    show (0 : ℤ) = ((0 : ℕ) : ℤ) from rfl, load_eq (by omega) (by omega), pure_bind,
    slice_zero_length, hsecond, pure_bind, hrest, signed_of_range (by omega) (by omega), pure_bind,
    Int64.ofInt_eq_ofNat, Int64.toUInt64_ofNat', toNat_ofNat (by omega), hthird,
    bytes_truncateRecord hlen, List.drop_of_length_le, List.append_nil, List.append_assoc]
  rw [List.length_append, List.length_append, length_encodeInt64, List.length_replicate, harray]
  omega

/-- `record_buf` of `Sync`, whatever the local array started with. -/
lemma encodeRecord_eq (stack : Stack) (pr : PendingRecord) {i count : ℕ} (hcount : 0 < count)
    (hi : i < count) (hlt : count < 2 ^ 64) :
    encodeRecord stack pr (.ofNat i) (.ofNat count) =
      (pure (pr.encode (if i + 1 = count then 1 else 2)) : Code S (List UInt8)) := by
  have harray := stack.length_array 4105
  have hpayload := pr.payload.length_eq
  have hlast : UInt64.ofNat i = .ofNat count - 1 ↔ i + 1 = count := by
    have hone : (1 : UInt64).toNat = 1 := rfl
    have hle : 1 ≤ UInt64.ofNat count := by
      rw [UInt64.le_iff_toNat_le, toNat_ofNat hlt, hone]
      exact hcount
    rw [← UInt64.toNat_inj, UInt64.toNat_sub_of_le _ _ hle, toNat_ofNat (by omega),
      toNat_ofNat hlt, hone]
    omega
  have hflag : (if UInt64.ofNat i = .ofNat count - 1 then (1 : UInt8) else 2) =
      if i + 1 = count then 1 else 2 := by
    by_cases h : i + 1 = count
    · rw [if_pos h, if_pos (hlast.mpr h)]
    · rw [if_neg h, if_neg (mt hlast.mp h)]
  have hfirst := overwrite_filled (S := S) (stack.array 4105) [] (encodeInt64 pr.blockIndex) 0 rfl
    (by rw [length_encodeInt64, harray]; decide)
  rw [List.length_nil, List.drop_zero, List.nil_append, List.nil_append] at hfirst
  have hsecond := overwrite_filled (S := S) (stack.array 4105) (encodeInt64 pr.blockIndex)
    pr.payload.bytes 8 (by rw [length_encodeInt64]; rfl)
    (by rw [length_encodeInt64, harray, hpayload]; decide)
  have hset : (encodeInt64 pr.blockIndex ++ pr.payload.bytes).length = 4104 := by
    rw [List.length_append, length_encodeInt64, hpayload]
  rw [hset] at hsecond
  have hend : ((stack.array 4105).drop 4104).length = 1 := by
    rw [List.length_drop, harray]
  obtain ⟨last, hend⟩ := List.length_eq_one_iff.mp hend
  rw [hend] at hsecond
  have hfull : (encodeInt64 pr.blockIndex ++ pr.payload.bytes ++ [last]).length = 4105 := by
    rw [List.length_append, hset]
    rfl
  rw [encodeRecord, hfirst, pure_bind, hsecond, pure_bind,
    show (4104 : UInt64) = .ofNat 4104 from rfl,
    assign_eq (by rw [hfull]; decide) (by rw [hfull]; decide), hflag, PendingRecord.encode,
    List.set_append_right _ _ hset.le, hset]
  rfl

end Filling

/-! ## The calls -/

omit [AppendOnlyStorage σ] in
/-- **`Truncate` in 64-bit arithmetic** ends as it does on mathematical integers. -/
theorem truncate_refines [MetadataProto] (htyped : MetadataProto.Typed) (stack : Stack)
    (newSize : Int64) (m : BlockMapper σ) :
    truncate stack newSize m = outcome (m.truncate newSize.toInt) := by
  have hcheck : (newSize < 0 ∨ newSize > 1000000 * 4096) ↔
      (newSize.toInt < 0 ∨ newSize.toInt > 1000000 * 4096) := by
    rw [gt_iff_lt, Int64.lt_iff_toInt_lt, Int64.lt_iff_toInt_lt]
    exact Iff.rfl
  rw [truncate, BlockMapper.truncate]
  by_cases hrange : newSize.toInt < 0 ∨ newSize.toInt > 1000000 * 4096
  · rw [if_pos (hcheck.mpr hrange), if_pos hrange]
    rfl
  rw [if_neg (mt hcheck.mp hrange), if_neg hrange, Code.get_bind]
  by_cases hinit : ¬ m.initialized
  · rw [if_pos hinit, if_pos hinit]
    rfl
  rw [if_neg hinit, if_neg hinit]
  cases hs : MetadataProto.serializeToString newSize.toInt with
  | none => rfl
  | some serialized =>
    have hlt := htyped.length_lt _ _ hs
    have hlong : UInt64.ofNat serialized.length > 4088 ↔ serialized.length > 4088 := by
      rw [gt_iff_lt, UInt64.lt_iff_toNat_lt, toNat_ofNat (by omega)]
      exact Iff.rfl
    dsimp only
    by_cases hl : serialized.length > 4088
    · rw [if_pos (hlong.mpr hl), if_pos hl]
      rfl
    have hvalue : Int64.ofInt newSize.toInt = newSize := Int64.ofInt_toInt newSize
    have hcount : (SqliteGcs.ceilBlocks newSize.toInt).toNat ≤ 1000000 := by
      rw [SqliteGcs.ceilBlocks]
      omega
    have hcast : ((SqliteGcs.ceilBlocks newSize.toInt).toNat : ℤ) =
        SqliteGcs.ceilBlocks newSize.toInt := by
      rw [SqliteGcs.ceilBlocks]
      omega
    have hceil := ceilBlocks_eq (S := BlockMapper σ) (by omega : 0 ≤ newSize.toInt) (by omega)
    rw [hvalue] at hceil
    rw [if_neg (mt hlong.mp hl), if_neg hl, truncatePayload_eq stack (by omega), pure_bind, hceil]
    refine (cutTable_eq _ hcount).trans ?_
    rw [Int64.toInt_ofNat_of_lt (by omega), hcast, Block.ofList_bytes]
    rfl

/-- **The loop of `Sync` in 64-bit arithmetic** ends as it does on mathematical integers.

**Proof sketch.** Induction on the records that are left. The offset that `Append` returns is the
size of the storage before, so it stays in range with 4105 bytes to spare. -/
lemma syncLoop_refines [SizedStorage σ] (stack : Stack) {before rest : List PendingRecord}
    (hcount : (before ++ rest).length < 2 ^ 63) {fuel : ℕ} (hfuel : rest.length < fuel)
    {m : BlockMapper σ} (hm : m.InBounds) (hpending : m.pendingRecords = before ++ rest)
    (hlog : SizedStorage.size (BlockMapper.syncLoop rest m).2.storage < 2 ^ 63) :
    syncLoop stack fuel (.ofNat before.length) m = outcome (BlockMapper.syncLoop rest m) := by
  rw [List.length_append] at hcount
  induction rest generalizing before fuel m with
  | nil =>
    obtain ⟨fuel, rfl⟩ : ∃ k, fuel = k + 1 := ⟨fuel - 1, by omega⟩
    have hdone : ¬ UInt64.ofNat before.length < UInt64.ofNat m.pendingRecords.length := by
      rw [hpending, List.append_nil]
      exact UInt64.lt_irrefl _
    rw [syncLoop, Code.get_bind, if_neg hdone]
    rfl
  | cons pr rest ih =>
    obtain ⟨fuel, rfl⟩ : ∃ k, fuel = k + 1 := ⟨fuel - 1, by omega⟩
    rw [List.length_cons] at hcount hfuel
    have hlen : m.pendingRecords.length = before.length + (rest.length + 1) := by
      rw [hpending, List.length_append, List.length_cons]
    have hin : before.length < m.pendingRecords.length := by omega
    have hmore : UInt64.ofNat before.length < UInt64.ofNat m.pendingRecords.length := by
      rw [UInt64.lt_iff_toNat_lt, toNat_ofNat (by omega), toNat_ofNat (by omega)]
      exact hin
    have hget : m.pendingRecords[before.length] = pr := by
      have hoption : m.pendingRecords[before.length]? = some pr := by
        rw [hpending, List.getElem?_append_right le_rfl, Nat.sub_self]
        rfl
      rw [List.getElem?_eq_getElem hin] at hoption
      exact Option.some.inj hoption
    have hflag : (if before.length + 1 = m.pendingRecords.length then (1 : UInt8) else 2) =
        if rest = [] then 1 else 2 := by
      by_cases hnil : rest = []
      · rw [if_pos hnil, if_pos (by rw [hlen, hnil]; rfl)]
      · have := List.length_pos_iff.mpr hnil
        rw [if_neg hnil, if_neg (by omega)]
    have hnext : UInt64.ofNat before.length + 1 = .ofNat (before ++ [pr]).length := by
      rw [List.length_append, List.length_singleton, UInt64.ofNat_add]
      rfl
    have hgo : ∀ {t : BlockMapper σ}, t.InBounds → t.pendingRecords = m.pendingRecords →
        SizedStorage.size (BlockMapper.syncLoop rest t).2.storage < 2 ^ 63 →
        syncLoop stack fuel (.ofNat before.length + 1) t =
          outcome (BlockMapper.syncLoop rest t) := by
      intro t ht hsame hlog
      rw [hnext]
      exact ih (by rw [List.length_append, List.length_singleton]; omega) (by omega) ht
        (by rw [hsame, hpending, List.append_assoc, List.singleton_append]) hlog
    have hmem : pr ∈ m.pendingRecords := by
      rw [hpending]
      exact List.mem_append_right _ List.mem_cons_self
    obtain ⟨hlower, hupper⟩ := hm.pending pr hmem
    have hblock : ∀ r ∈ rest, r.blockIndex < 1000000 := by
      intro r hr
      refine (hm.pending r ?_).2
      rw [hpending]
      exact List.mem_append_right _ (List.mem_cons_of_mem _ hr)
    rw [syncLoop, Code.get_bind, if_pos hmore, element_eq hin (by omega), pure_bind, hget,
      encodeRecord_eq stack pr (by omega) hin (by omega), pure_bind, hflag]
    obtain ⟨hc, hle, -, hok⟩ := SizedStorage.append_spec
      (pr.encode (if rest = [] then 1 else 2)) hm.consistent
    generalize happend : append (pr.encode (if rest = [] then 1 else 2)) m.storage = a
      at hc hle hok
    obtain ⟨e | n, s⟩ := a
    · rw [Code.bind_error (onStorage_error happend), BlockMapper.syncLoop_cons_error happend]
      rfl
    obtain ⟨rfl, hsize⟩ := hok n rfl
    rw [PendingRecord.length_encode] at hsize
    dsimp only at hc hle hsize
    rw [BlockMapper.syncLoop_cons_ok happend] at hlog ⊢
    rw [Code.bind_ok (onStorage_ok happend)]
    have hwithin := hm.within.mono hle
    -- the mapper with the entry of the record
    by_cases hb : pr.blockIndex ≥ 0
    · rw [if_pos hb] at hlog ⊢
      rw [if_pos hb]
      obtain ⟨b, hb'⟩ := Int.eq_ofNat_of_zero_le hb
      rw [hb', Int.toNat_natCast] at hlog ⊢
      have hnew : BlockMapper.InBounds { m with
          storage := s
          logicalToPhysical := PageTable.put (-1) b ((SizedStorage.size m.storage : ℤ) + 8)
            m.logicalToPhysical } :=
        ⟨hc, hwithin.put (by omega) (by omega) (by omega) hwithin.size_nonneg hwithin.size_upper,
          hm.pending⟩
      have hlast := (hnew.syncLoop hblock).2.1
      dsimp only at hlast
      rw [Code.bind_ok (mapBlock_eq (m := { m with storage := s }) hm.within.length_le
        (by omega : b < 1000000) (by omega) (by omega))]
      exact hgo hnew rfl hlog
    · rw [if_neg hb] at hlog ⊢
      rw [if_neg hb]
      exact hgo ⟨hc, hwithin, hm.pending⟩ rfl hlog

/-- **`Sync` in 64-bit arithmetic** ends as it does on mathematical integers. -/
theorem sync_refines [SizedStorage σ] (stack : Stack) {fuel : ℕ} (hfuel : 2 ^ 63 ≤ fuel)
    {m : BlockMapper σ} (hm : m.InBounds) (hcount : m.pendingRecords.length < 2 ^ 63)
    (hlog : SizedStorage.size m.sync.2.storage < 2 ^ 63) :
    sync stack fuel m = outcome m.sync := by
  rw [sync, Code.get_bind]
  rw [BlockMapper.sync] at hlog ⊢
  by_cases hinit : ¬ m.initialized
  · rw [if_pos hinit, if_pos hinit]
    rfl
  by_cases hnil : m.pendingRecords = []
  · rw [if_neg hinit, if_pos hnil, if_neg hinit, if_pos hnil]
    rfl
  rw [if_neg hinit, if_neg hnil] at hlog ⊢
  rw [if_neg hinit, if_neg hnil]
  have hinner := (hm.syncLoop fun pr hpr => (hm.pending pr hpr).2).1
  have hloop : _ → syncLoop stack fuel (.ofNat ([] : List PendingRecord).length) m = _ :=
    syncLoop_refines stack (by rw [List.nil_append]; exact hcount)
      (by omega : m.pendingRecords.length < fuel) hm rfl
  rw [List.length_nil, show UInt64.ofNat 0 = 0 from rfl] at hloop
  generalize BlockMapper.syncLoop m.pendingRecords m = p at hlog hinner hloop ⊢
  obtain ⟨e | u, t⟩ := p
  · exact Code.bind_error (hloop hlog)
  · have hsize : SizedStorage.size
        (BlockMapper.syncStorage { t with pendingRecords := [] }).2.storage =
        SizedStorage.size t.storage := (SizedStorage.sync_spec hinner.consistent).2
    rw [Code.bind_ok (hloop (hsize ▸ hlog))]
    rfl

/-- The end of a call that returns a status. -/
lemma ended_outcome {τ : Type} (r : Except Status Unit × τ) :
    ((outcome r).1.map fun _ => [], (outcome r).2) = (ended (.done r.1), r.2) := by
  obtain ⟨e | u, t⟩ := r <;> rfl

/-- **A call in 64-bit arithmetic** ends as it does on mathematical integers, on any storage that
keeps account of its size. -/
theorem call_refines [SizedStorage σ] [MetadataProto] (htyped : MetadataProto.Typed)
    (stack : Stack) {fuel : ℕ} (hfuel : 2 ^ 63 ≤ fuel) (c : Call) {m : BlockMapper σ}
    (hm : m.InBounds) (hcount : m.pendingRecords.length < 2 ^ 63)
    (hlog : SizedStorage.size (c.exact.run m).2.storage < 2 ^ 63) :
    c.run stack fuel m = (ended (c.exact.run m).1, (c.exact.run m).2) := by
  -- an end of `Read` or `Write` needs the table to point into the storage
  have hreads : SizedStorage.size m.storage < 2 ^ 63 →
      ReadsWithin (fun s : σ => SizedStorage.Consistent s ∧
        SizedStorage.size s = SizedStorage.size m.storage) (SizedStorage.size m.storage) := by
    intro hlt
    refine ⟨hlt, fun n off s hs _ => ?_, fun n off s bs hs _ hok =>
      SizedStorage.pRead_length hs.1 hok⟩
    obtain ⟨hsize, hc⟩ := Prod.mk.inj (SizedStorage.pRead_frame n (off : ℤ) s)
    exact ⟨hc.symm ▸ hs.1, hsize.trans hs.2⟩
  have htable : m.initialized = true → m.TableWithin (SizedStorage.size m.storage) ∧
      SizedStorage.Consistent m.storage ∧
        SizedStorage.size m.storage = SizedStorage.size m.storage :=
    fun _ => ⟨hm.within.entry, hm.consistent, rfl⟩
  cases c with
  | init =>
    have h := init_refines htyped stack hfuel hm hlog
    show ((FixedWidth.init stack fuel m).1.map fun _ => [], (FixedWidth.init stack fuel m).2) = _
    rw [h]
    exact ended_outcome m.init
  | read buf logicalOffset =>
    have hlen : buf.bytes.length = buf.size.toNat := (toNat_ofNat buf.length_lt).symm
    have hframe := hm.read buf.bytes.length logicalOffset.toInt
    have h := read_refines (hreads (hframe.2.1 ▸ hlog)) htable (by omega : 1000000 < fuel) buf.size
      logicalOffset hlen
    rw [← hlen] at h
    show ((FixedWidth.read fuel buf.size logicalOffset ⟨m, buf.bytes⟩).1.map fun _ =>
      (FixedWidth.read fuel buf.size logicalOffset ⟨m, buf.bytes⟩).2.buf,
      (FixedWidth.read fuel buf.size logicalOffset ⟨m, buf.bytes⟩).2.mapper) =
      (ended (.data (m.read buf.bytes.length logicalOffset.toInt).1),
        (m.read buf.bytes.length logicalOffset.toInt).2)
    rw [h.result, h.mapper]
    refine Prod.ext ?_ rfl
    cases hr : (m.read buf.bytes.length logicalOffset.toInt).1 with
    | error e => rfl
    | ok data => exact congrArg Except.ok (h.buf data hr)
  | write buf logicalOffset =>
    have hlen : buf.bytes.length = buf.size.toNat := (toNat_ofNat buf.length_lt).symm
    have hframe := hm.write buf.bytes logicalOffset.toInt
    have h := write_refines (hreads (hframe.2.1 ▸ hlog)) htable stack (by omega : 1000000 < fuel)
      buf.size logicalOffset hlen
    show ((FixedWidth.write stack fuel buf.bytes buf.size logicalOffset m).1.map fun _ => [],
      (FixedWidth.write stack fuel buf.bytes buf.size logicalOffset m).2) = _
    rw [h]
    exact ended_outcome (m.write buf.bytes logicalOffset.toInt)
  | truncate newSize =>
    have h := truncate_refines htyped stack newSize m
    show ((FixedWidth.truncate stack newSize m).1.map fun _ => [],
      (FixedWidth.truncate stack newSize m).2) = _
    rw [h]
    exact ended_outcome (m.truncate newSize.toInt)
  | sync =>
    have h := sync_refines stack hfuel hm hcount hlog
    show ((FixedWidth.sync stack fuel m).1.map fun _ => [], (FixedWidth.sync stack fuel m).2) = _
    rw [h]
    exact ended_outcome m.sync

/-- **A run in 64-bit arithmetic** is the one on mathematical integers, from any mapper in bounds.

**Proof sketch.** Induction on the calls. A call keeps the bounds and buffers at most 1000001
records (`BlockMapper.InBounds.call`), and the storage is longest at the end. -/
lemma run_refines [SizedStorage σ] [MetadataProto] (htyped : MetadataProto.Typed)
    (stack : Stack) {fuel : ℕ} (hfuel : 2 ^ 63 ≤ fuel) (calls : List Call) {m : BlockMapper σ}
    (hm : m.InBounds) (hcount : m.pendingRecords.length + 1000001 * calls.length < 2 ^ 63)
    (hlog : SizedStorage.size
      (final MapperCall.run (calls.map Call.exact) m).storage < 2 ^ 63) :
    replies (Call.run stack fuel) calls m =
        (replies MapperCall.run (calls.map Call.exact) m).map ended ∧
      final (Call.run stack fuel) calls m = final MapperCall.run (calls.map Call.exact) m := by
  induction calls generalizing m with
  | nil => exact ⟨rfl, rfl⟩
  | cons c calls ih =>
    obtain ⟨hm', -, hpending⟩ := hm.call c.exact
    have hmono : ∀ (cs : List MapperCall) {t : BlockMapper σ}, t.InBounds →
        SizedStorage.size t.storage ≤ SizedStorage.size (final MapperCall.run cs t).storage := by
      intro cs
      induction cs with
      | nil => exact fun _ => le_rfl
      | cons d cs ih =>
        intro t ht
        obtain ⟨ht', hle, -⟩ := ht.call d
        exact hle.trans (ih ht')
    rw [List.length_cons] at hcount
    have hlog' : SizedStorage.size (final MapperCall.run (calls.map Call.exact)
        (c.exact.run m).2).storage < 2 ^ 63 := hlog
    have hstep := call_refines htyped stack hfuel c hm (by omega)
      (lt_of_le_of_lt (hmono (calls.map Call.exact) hm') hlog')
    obtain ⟨hreplies, hfinal⟩ := ih hm' (by omega) hlog'
    rw [replies, List.map_cons, replies, List.map_cons, hstep]
    dsimp only
    rw [hreplies]
    refine ⟨rfl, ?_⟩
    show final (Call.run stack fuel) calls (c.run stack fuel m).2 = _
    rw [hstep]
    exact hfinal

/-- **A mapper never does anything undefined.** On each storage that keeps account of its size (all
three do, whichever of their calls fail), whatever bytes the storage holds and local arrays and
buffers start with, any run of at most `2 ^ 43` calls after the constructor that leaves less than
`2 ^ 63` bytes in the storage:

* ends each call with OK or a status: no signed operation overflows, no access is outside its vector
  or buffer, and every loop ends;
* has the replies and the states of the run on mathematical integers. -/
theorem mapper_run_defined {σ : Type} [AppendOnlyStorage σ] [SizedStorage σ] [MetadataProto]
    (htyped : MetadataProto.Typed) (stack : Stack) {fuel : ℕ} (hfuel : 2 ^ 63 ≤ fuel) {s : σ}
    (hs : SizedStorage.Consistent s) (calls : List FixedWidth.Call) (hcalls : calls.length ≤ 2 ^ 43)
    (hlog : SizedStorage.size
      (final MapperCall.run (calls.map Call.exact) (BlockMapper.new s)).storage < 2 ^ 63) :
    (∀ reply ∈ replies (Call.run stack fuel) calls (BlockMapper.new s),
      reply ≠ .error .undefined ∧ reply ≠ .error .unfinished) ∧
    replies (Call.run stack fuel) calls (BlockMapper.new s) =
      (replies MapperCall.run (calls.map Call.exact) (BlockMapper.new s)).map ended ∧
    final (Call.run stack fuel) calls (BlockMapper.new s) =
      final MapperCall.run (calls.map Call.exact) (BlockMapper.new s) := by
  have hcount : (BlockMapper.new s).pendingRecords.length + 1000001 * calls.length < 2 ^ 63 := by
    have hnil : (BlockMapper.new s).pendingRecords.length = 0 := rfl
    omega
  obtain ⟨hreplies, hfinal⟩ := run_refines htyped stack hfuel calls (.new hs) hcount hlog
  refine ⟨fun reply hreply => ?_, hreplies, hfinal⟩
  rw [hreplies] at hreply
  obtain ⟨r, -, rfl⟩ := List.mem_map.mp hreply
  cases r with
  | data result => cases result <;> exact ⟨by simp [ended, Except.mapError], by
      simp [ended, Except.mapError]⟩
  | done result => cases result <;> exact ⟨by simp [ended, Except.mapError, Except.map], by
      simp [ended, Except.mapError, Except.map]⟩

/-! ## A torn append -/

/-- The sizes that the fields of a message are parsed to are values of an `int64`. -/
lemma parseFields_range {k : ℕ} {newSize : Option ℤ} {bs : List UInt8}
    (hstart : ∀ n ∈ newSize, -2 ^ 63 ≤ n ∧ n < 2 ^ 63) {n : ℤ}
    (h : parseFields k newSize bs = some (some n)) : -2 ^ 63 ≤ n ∧ n < 2 ^ 63 := by
  induction k generalizing newSize bs with
  | zero =>
    cases bs with
    | nil => exact hstart n (Option.some.inj h)
    | cons b bs => cases h
  | succ k ih =>
    cases bs with
    | nil => exact hstart n (Option.some.inj h)
    | cons tag bs =>
      rw [parseFields] at h
      by_cases htag : tag = 8
      · rw [if_pos htag] at h
        cases hv : ofVarint 10 bs with
        | none =>
          rw [hv] at h
          cases h
        | some p =>
          rw [hv] at h
          refine ih (fun x hx => ?_) h
          obtain rfl := Option.some.inj hx
          unfold s64
          exact ⟨(Int.le_bmod (by omega)).trans' (by omega),
            (Int.bmod_lt (by omega)).trans_le (by omega)⟩
      · rw [if_neg htag] at h
        cases h

/-- The messages of the wire format have their types. -/
lemma wireProto_typed : @MetadataProto.Typed wireProto := by
  refine @MetadataProto.Typed.mk wireProto (fun bs n h => ?_) fun n bs h => ?_
  · exact parseFields_range (by simp) h
  · obtain rfl := Option.some.inj h
    have := length_toVarint 10 (u64 n)
    rw [List.length_cons]
    omega

/-- `mapper_run_defined` for a session on a full disk: the first append of a `Sync` is torn, and the
calls after it find a file of one byte. -/
theorem mapper_run_defined_full_disk :
    letI := wireProto
    let calls : List Call := [.init, .write ⟨[1, 2, 3], by decide⟩ 4095, .sync, .init, .sync,
      .read ⟨[9, 9], by decide⟩ 4094, .truncate 1]
    ∀ reply ∈ replies (Call.run Stack.zeros (2 ^ 63)) calls (BlockMapper.new fullDisk),
      reply ≠ .error .undefined ∧ reply ≠ .error .unfinished := by
  let _ := wireProto
  intro calls
  have hcalls : calls.length ≤ 2 ^ 43 := by
    show 7 ≤ 2 ^ 43
    omega
  have hs : SizedStorage.Consistent fullDisk := trivial
  have hrun := mapper_run_defined wireProto_typed Stack.zeros (le_refl (2 ^ 63)) hs calls hcalls
  refine (hrun ?_).1
  decide +kernel

end FixedWidth

end SqliteGcs
