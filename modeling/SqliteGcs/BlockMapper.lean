import SqliteGcs.Lib.PageTable
import SqliteGcs.Record

set_option relaxedAutoImplicit false
set_option autoImplicit false

/-!
# The block mapper

`BlockMapper` of `block_mapper.cc` over any storage: crash recovery (`init`), reading and writing
byte ranges of the logical file, truncation, and committing the buffered records (`sync`). Every
function is translated with its checks, its error statuses and the state it leaves behind when it
fails. Each call holds the mapper's lock from its first to its last access of the state, so calls
are modelled as atomic.

Integers are mathematical integers; where the source mixes signed and unsigned 64-bit operands
the conversions are written out (`Bytes.u64`, `Bytes.s64`).

## Main definitions

* `SqliteGcs.BlockMapper` — the state of a mapper.
* `SqliteGcs.Logical`, `SqliteGcs.Logical.apply` — what recovery reconstructs, record by record.
* `SqliteGcs.BlockMapper.init`, `read`, `write`, `truncate`, `sync`, `isBlockMapped` — the member
  functions.
-/

namespace SqliteGcs

open Bytes

variable {σ : Type}

/-! ## Recovered state -/

/-- The part of the state that recovery reconstructs: the physical offset of each logical block's
payload, `-1` for unmapped blocks, and the size of the logical file. -/
structure Logical where
  /-- `logical_to_physical_`. -/
  logicalToPhysical : List ℤ
  /-- `logical_size_`. -/
  logicalSize : ℤ
  deriving DecidableEq

/-- The state of a mapper before recovery. -/
def Logical.empty : Logical := ⟨[], 0⟩

/-- `(size + 4095) / 4096`. -/
def ceilBlocks (size : ℤ) : ℤ := (size + 4095) / 4096

/-- The body of the forward pass of `BlockMapper::Init` for a record that is applied. -/
def Logical.apply (l : Logical) (rec : RecoveredRecord) : Logical :=
  if rec.blockIndex ≥ 0 then
    { logicalToPhysical :=
        PageTable.put (-1) rec.blockIndex.toNat (rec.offset + 8) l.logicalToPhysical
      logicalSize := max l.logicalSize ((rec.blockIndex + 1) * 4096) }
  else if rec.blockIndex = -1 then
    if rec.newSize ≠ -1 then
      { logicalToPhysical :=
          PageTable.resize (-1) (ceilBlocks rec.newSize).toNat l.logicalToPhysical
        logicalSize := rec.newSize }
    else l
  else l

/-- The backward pass of `BlockMapper::Init`: whether each record is applied, and `applied_next`
in front of the records. -/
def appliedPass : List RecoveredRecord → List Bool × Bool
  | [] => ([], false)
  | rec :: recs =>
    let (applied, appliedNext) := appliedPass recs
    let appliedNext :=
      if rec.isGood = 1 then true
      else if rec.isGood = 0 then false
      else if rec.isGood = 2 then appliedNext
      else false
    (appliedNext :: applied, appliedNext)

/-- The forward pass of `BlockMapper::Init`. -/
def applyRecords (l : Logical) (recs : List (RecoveredRecord × Bool)) : Logical :=
  recs.foldl (fun l (rec, applied) => if applied then l.apply rec else l) l

/-! ## The mapper -/

/-- The state of a `BlockMapper`. -/
structure BlockMapper (σ : Type) extends Logical where
  /-- `storage_`. -/
  storage : σ
  /-- `pending_records_`. -/
  pendingRecords : List PendingRecord
  /-- `initialized_`. -/
  initialized : Bool

namespace BlockMapper

/-- The constructor: a mapper over a storage, not yet initialised. -/
def new (storage : σ) : BlockMapper σ where
  toLogical := Logical.empty
  storage := storage
  pendingRecords := []
  initialized := false

/-- The range check of `Read` and `Write`, in the arithmetic of the source: the right-hand side of
the last comparison is a signed difference converted to `size_t`. -/
def outOfRange (size : ℕ) (logicalOffset : ℤ) : Bool :=
  logicalOffset < 0 || logicalOffset > 1000000 * 4096 ||
    size > u64 (1000000 * 4096 - logicalOffset)

/-- `IsBlockMapped`. -/
def isBlockMapped (m : BlockMapper σ) (blockIndex : ℤ) : Bool :=
  if m.pendingRecords.reverse.any (·.blockIndex = blockIndex) then true
  else if blockIndex ≥ 0 ∧ blockIndex < m.logicalToPhysical.length then
    m.logicalToPhysical.getD blockIndex.toNat (-1) ≠ -1
  else false

/-- The lookup of a block in the table: a table has no entries behind its end. -/
lemma lookup_eq (m : BlockMapper σ) (b : ℕ) :
    (if (b : ℤ) ≥ 0 ∧ (b : ℤ) < m.logicalToPhysical.length then
      m.logicalToPhysical.getD (b : ℤ).toNat (-1) else -1) = m.logicalToPhysical.getD b (-1) := by
  rw [Int.toNat_natCast]
  split_ifs with h
  · rfl
  · rw [List.getD_eq_default _ _ (by omega)]

section Storage

variable [AppendOnlyStorage σ]

/-- The alignment padding of `Init`: the physical size afterwards. -/
def padStorage (s : σ) : Except Status ℤ × σ :=
  match getSize s with
  | (.error e, s) => (.error e, s)
  | (.ok P, s) =>
    if P % 4105 ≠ 0 then
      match append (List.replicate (4105 - P % 4105).toNat 0) s with
      | (.error e, s) => (.error e, s)
      | (.ok _, s) => getSize s
    else (.ok P, s)

/-- The part of one iteration of `ReadLocked` that fetches bytes of one block: from the newest
pending record for the block, else from the storage if the block is mapped, else zeros. -/
def readBlock (m : BlockMapper σ) (blockIndex blockOffset blockLen : ℤ) (s : σ) :
    Except Status (List UInt8) × σ :=
  match m.pendingRecords.reverse.find? (·.blockIndex = blockIndex) with
  | some pr => (.ok (slice blockOffset.toNat blockLen.toNat pr.payload.bytes), s)
  | none =>
    let physicalBase :=
      if blockIndex ≥ 0 ∧ blockIndex < m.logicalToPhysical.length then
        m.logicalToPhysical.getD blockIndex.toNat (-1)
      else -1
    if physicalBase ≠ -1 then
      match pRead blockLen.toNat (physicalBase + blockOffset) s with
      | (.error e, s) => (.error e, s)
      | (.ok bytes, s) =>
        if (bytes.length : ℤ) < blockLen then
          (.error ⟨.internal, "Short read from physical storage"⟩, s)
        else (.ok bytes, s)
    else (.ok (List.replicate blockLen.toNat 0), s)

/-- The loop of `ReadLocked`. Every iteration takes at least one byte, so as many iterations as
there are bytes are enough. -/
def readLoop (m : BlockMapper σ) : ℕ → ℤ → ℤ → σ → Except Status (List UInt8) × σ
  | 0, _, _, s => (.ok [], s)
  | fuel + 1, remainingSize, currentOffset, s =>
    if remainingSize > 0 then
      let blockIndex := currentOffset / 4096
      let blockOffset := currentOffset % 4096
      let blockLen := min (4096 - blockOffset) remainingSize
      match m.readBlock blockIndex blockOffset blockLen s with
      | (.error e, s) => (.error e, s)
      | (.ok part, s) =>
        match m.readLoop fuel (remainingSize - blockLen) (currentOffset + blockLen) s with
        | (.error e, s) => (.error e, s)
        | (.ok rest, s) => (.ok (part ++ rest), s)
    else (.ok [], s)

/-- `ReadLocked`. -/
def readLocked (size : ℕ) (logicalOffset : ℤ) (m : BlockMapper σ) :
    Except Status (List UInt8) × BlockMapper σ :=
  if logicalOffset < 0 then
    (.error ⟨.invalidArgument, "logical_offset cannot be negative"⟩, m)
  else if size = 0 then (.ok [], m)
  else
    let (result, s) := m.readLoop size (s64 size) logicalOffset m.storage
    (result, { m with storage := s })

/-- `Read`: the bytes read into the caller's buffer of the given size. -/
def read (size : ℕ) (logicalOffset : ℤ) (m : BlockMapper σ) :
    Except Status (List UInt8) × BlockMapper σ :=
  if outOfRange size logicalOffset then
    (.error ⟨.invalidArgument, "Read offset/size is out of range"⟩, m)
  else if ¬ m.initialized then
    (.error ⟨.failedPrecondition, "BlockMapper not initialized"⟩, m)
  else m.readLocked size logicalOffset

/-- The loop of `Write` over the blocks from `b` on, as many as the first argument says. A failed
read leaves the records of the blocks before it buffered. -/
def writeLoop (buf : List UInt8) (logicalOffset : ℤ) :
    ℕ → ℤ → BlockMapper σ → Except Status Unit × BlockMapper σ
  | 0, _, m => (.ok (), m)
  | n + 1, b, m =>
    let blockStartLogicalOffset := b * 4096
    let writeStartOffset := max logicalOffset blockStartLogicalOffset
    let writeEndOffset := min (logicalOffset + s64 buf.length) (blockStartLogicalOffset + 4096)
    let blockLen := writeEndOffset - writeStartOffset
    let blockOff := writeStartOffset - blockStartLogicalOffset
    let source := slice (writeStartOffset - logicalOffset).toNat blockLen.toNat buf
    if blockLen < 4096 then
      match m.readLocked 4096 blockStartLogicalOffset with
      | (.error e, m) => (.error e, m)
      | (.ok blockData, m) =>
        let blockData := blockData.take blockOff.toNat ++ source ++
          blockData.drop (blockOff.toNat + source.length)
        let pr : PendingRecord := ⟨b, Block.ofList blockData⟩
        writeLoop buf logicalOffset n (b + 1)
          { m with pendingRecords := m.pendingRecords ++ [pr] }
    else
      let pr : PendingRecord := ⟨b, Block.ofList source⟩
      writeLoop buf logicalOffset n (b + 1)
        { m with pendingRecords := m.pendingRecords ++ [pr] }

/-- `Write`. -/
def write (buf : List UInt8) (logicalOffset : ℤ) (m : BlockMapper σ) :
    Except Status Unit × BlockMapper σ :=
  if outOfRange buf.length logicalOffset then
    (.error ⟨.invalidArgument, "Write offset/size is out of range"⟩, m)
  else if ¬ m.initialized then
    (.error ⟨.failedPrecondition, "BlockMapper not initialized"⟩, m)
  else if buf.length = 0 then (.ok (), m)
  else
    let startBlock := logicalOffset / 4096
    -- `logical_offset + size - 1` is unsigned: `size` is a `size_t`
    let endBlock := s64 (u64 (logicalOffset + buf.length - 1) / 4096)
    match writeLoop buf logicalOffset (endBlock - startBlock + 1).toNat startBlock m with
    | (.error e, m) => (.error e, m)
    | (.ok _, m) =>
      (.ok (), { m with logicalSize := max m.logicalSize (logicalOffset + s64 buf.length) })

/-- The loop of `Sync` over the records still to be appended. Records that were appended stay
buffered until the whole batch is. -/
def syncLoop : List PendingRecord → BlockMapper σ → Except Status Unit × BlockMapper σ
  | [], m => (.ok (), m)
  | pr :: rest, m =>
    match append (pr.encode (if rest = [] then 1 else 2)) m.storage with
    | (.error e, s) => (.error e, { m with storage := s })
    | (.ok physicalOffset, s) =>
      if pr.blockIndex ≥ 0 then
        syncLoop rest { m with
          storage := s
          logicalToPhysical :=
            PageTable.put (-1) pr.blockIndex.toNat (physicalOffset + 8) m.logicalToPhysical }
      else syncLoop rest { m with storage := s }

/-- The loop of `Sync` after a record whose append succeeded. -/
lemma syncLoop_cons_ok {pr : PendingRecord} {rest : List PendingRecord} {m : BlockMapper σ}
    {physicalOffset : ℤ} {s : σ}
    (h : append (pr.encode (if rest = [] then 1 else 2)) m.storage = (.ok physicalOffset, s)) :
    syncLoop (pr :: rest) m = syncLoop rest { m with
      storage := s
      logicalToPhysical := if pr.blockIndex ≥ 0 then
          PageTable.put (-1) pr.blockIndex.toNat (physicalOffset + 8) m.logicalToPhysical
        else m.logicalToPhysical } := by
  rw [syncLoop, h]
  dsimp only
  split_ifs <;> rfl

/-- The loop of `Sync` stops at a record whose append failed. -/
lemma syncLoop_cons_error {pr : PendingRecord} {rest : List PendingRecord} {m : BlockMapper σ}
    {e : Status} {s : σ}
    (h : append (pr.encode (if rest = [] then 1 else 2)) m.storage = (.error e, s)) :
    syncLoop (pr :: rest) m = (.error e, { m with storage := s }) := by
  rw [syncLoop, h]

/-- `storage_->Sync()`. -/
def syncStorage (m : BlockMapper σ) : Except Status Unit × BlockMapper σ :=
  let (result, s) := AppendOnlyStorage.sync m.storage
  (result, { m with storage := s })

/-- `Sync`. -/
def sync (m : BlockMapper σ) : Except Status Unit × BlockMapper σ :=
  if ¬ m.initialized then
    (.error ⟨.failedPrecondition, "BlockMapper not initialized"⟩, m)
  else if m.pendingRecords = [] then m.syncStorage
  else
    match syncLoop m.pendingRecords m with
    | (.error e, m) => (.error e, m)
    | (.ok _, m) => { m with pendingRecords := [] }.syncStorage

end Storage

section Metadata

variable [MetadataProto]

/-- `Truncate`. -/
def truncate (newSize : ℤ) (m : BlockMapper σ) : Except Status Unit × BlockMapper σ :=
  if newSize < 0 ∨ newSize > 1000000 * 4096 then
    (.error ⟨.invalidArgument, "new_size cannot be negative or exceed 4GB"⟩, m)
  else if ¬ m.initialized then
    (.error ⟨.failedPrecondition, "BlockMapper not initialized"⟩, m)
  else
    match MetadataProto.serializeToString newSize with
    | none => (.error ⟨.internal, "Failed to serialize MetadataBlock proto"⟩, m)
    | some serialized =>
      if serialized.length > 4088 then
        (.error ⟨.internal, "Serialized MetadataBlock exceeds maximum metadata payload size"⟩, m)
      else
        (.ok (), { m with
          pendingRecords := (m.pendingRecords ++ [truncateRecord serialized]).filter
            fun r => ¬ r.blockIndex ≥ ceilBlocks newSize
          logicalSize := newSize
          logicalToPhysical :=
            PageTable.resize (-1) (ceilBlocks newSize).toNat m.logicalToPhysical })

variable [AppendOnlyStorage σ]

/-- The scan of `Init`: read and validate the records from `offset` to the physical size `P`. As
many iterations as there are bytes are enough. -/
def scan (P : ℤ) : ℕ → ℤ → σ → Except Status (List RecoveredRecord) × σ
  | 0, _, s => (.ok [], s)
  | fuel + 1, offset, s =>
    if offset < P then
      match pRead 4105 offset s with
      | (.error e, s) => (.error e, s)
      | (.ok recordBuf, s) =>
        if recordBuf.length ≠ 4105 then
          (.error ⟨.internal, "Corrupt database file or unexpected EOF during recovery"⟩, s)
        else
          match parseRecord offset recordBuf with
          | .error e => (.error e, s)
          | .ok rec =>
            match scan P fuel (offset + 4105) s with
            | (.error e, s) => (.error e, s)
            | (.ok recs, s) => (.ok (rec :: recs), s)
    else (.ok [], s)

/-- The part of `Init` that pads and scans the storage: the recovered records. -/
def scanStorage (s : σ) : Except Status (List RecoveredRecord) × σ :=
  match padStorage s with
  | (.error e, s) => (.error e, s)
  | (.ok P, s) => scan P P.toNat 0 s

/-- `Init`. -/
def init (m : BlockMapper σ) : Except Status Unit × BlockMapper σ :=
  if m.initialized then
    (.error ⟨.failedPrecondition, "BlockMapper already initialized"⟩, m)
  else
    match scanStorage m.storage with
    | (.error e, s) => (.error e, { m with storage := s })
    | (.ok recoveredRecords, s) =>
      let (applied, _) := appliedPass recoveredRecords
      (.ok (), { m with
        toLogical := applyRecords m.toLogical (recoveredRecords.zip applied)
        storage := s
        initialized := true })

/-- The vector `applied` that `Init` computes: its decision on each record of the log. -/
def decisions (s : σ) : Except Status (List Bool) :=
  match (scanStorage s).1 with
  | .error e => .error e
  | .ok recoveredRecords => .ok (appliedPass recoveredRecords).1

end Metadata

end BlockMapper

end SqliteGcs
