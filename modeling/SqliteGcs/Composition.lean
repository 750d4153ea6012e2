import SqliteGcs.BlockMapper
import SqliteGcs.Lib.Lockstep

set_option relaxedAutoImplicit false
set_option autoImplicit false

/-!
# The functions of a mapper as compositions

Every function of the mapper that uses the storage is a composition of storage calls: it goes on
with the value of a call, or returns its error. The equations of this file say so, one for each
function, so that a rule for compositions is a rule for the functions.

## Main definitions

* `SqliteGcs.BlockMapper.onStorage` — a function of the storage that a mapper calls.

## Main results

* `SqliteGcs.BlockMapper.readBlock_eq`, `readLoop_succ`, `readLoop_nat`, `readLocked_eq` — reading.
* `SqliteGcs.BlockMapper.writeLoop_succ`, `write_eq`, `syncLoop_cons`, `sync_eq` — writing.
* `SqliteGcs.BlockMapper.padStorage_eq`, `scan_succ`, `init_eq` — recovery.
-/

namespace SqliteGcs

open Bytes Machine

namespace BlockMapper

variable {σ : Type} [AppendOnlyStorage σ]

/-- A function of the storage, called by a mapper. -/
def onStorage {α : Type} (f : BlockMapper σ → σ → α × σ) (m : BlockMapper σ) :
    α × BlockMapper σ :=
  ((f m m.storage).1, { m with storage := (f m m.storage).2 })

/-- The padding of `Init` as a composition. -/
lemma padStorage_eq : (padStorage : σ → _) = andThen getSize fun P =>
    if P % 4105 ≠ 0 then
      andThen (append (List.replicate (4105 - P % 4105).toNat 0)) fun _ => getSize
    else fun s => (.ok P, s) := by
  funext s
  rw [padStorage, andThen]
  rcases getSize s with ⟨e | P, s₁⟩
  · rfl
  · dsimp only
    split_ifs
    · rw [andThen]
      rcases append _ s₁ with ⟨e | _, s₂⟩ <;> rfl
    · rfl

/-- The part of `readBlock` for a block that has no pending record. -/
lemma readBlock_eq (m : BlockMapper σ) (blockIndex blockOffset blockLen : ℤ) :
    m.readBlock blockIndex blockOffset blockLen =
      match m.pendingRecords.reverse.find? (·.blockIndex = blockIndex) with
      | some pr => fun s => (.ok (slice blockOffset.toNat blockLen.toNat pr.payload.bytes), s)
      | none =>
        let physicalBase :=
          if blockIndex ≥ 0 ∧ blockIndex < m.logicalToPhysical.length then
            m.logicalToPhysical.getD blockIndex.toNat (-1)
          else -1
        if physicalBase ≠ -1 then
          andThen (pRead blockLen.toNat (physicalBase + blockOffset)) fun bytes s =>
            if (bytes.length : ℤ) < blockLen then
              (.error ⟨.internal, "Short read from physical storage"⟩, s)
            else (.ok bytes, s)
        else fun s => (.ok (List.replicate blockLen.toNat 0), s) := by
  funext s
  rw [readBlock]
  cases m.pendingRecords.reverse.find? (·.blockIndex = blockIndex) with
  | some pr => rfl
  | none =>
    dsimp only
    by_cases hbase : (if blockIndex ≥ 0 ∧ blockIndex < m.logicalToPhysical.length then
        m.logicalToPhysical.getD blockIndex.toNat (-1) else -1) ≠ -1
    · rw [if_pos hbase, if_pos hbase, andThen]
      rcases pRead _ _ s with ⟨e | bytes, s₁⟩ <;> rfl
    · rw [if_neg hbase, if_neg hbase]

/-- An iteration of the loop of `ReadLocked` as a composition. -/
lemma readLoop_succ (m : BlockMapper σ) (fuel : ℕ) (remainingSize currentOffset : ℤ) :
    m.readLoop (fuel + 1) remainingSize currentOffset =
      if remainingSize > 0 then
        let blockLen := min (4096 - currentOffset % 4096) remainingSize
        andThen (m.readBlock (currentOffset / 4096) (currentOffset % 4096) blockLen) fun part =>
          andThen (m.readLoop fuel (remainingSize - blockLen) (currentOffset + blockLen))
            fun rest s => (.ok (part ++ rest), s)
      else fun s => (.ok [], s) := by
  funext s
  rw [readLoop]
  by_cases hrem : remainingSize > 0
  · rw [if_pos hrem, if_pos hrem]
    dsimp only
    rw [andThen]
    rcases m.readBlock _ _ _ s with ⟨e | part, s₁⟩
    · rfl
    · dsimp only
      rw [andThen]
      rcases m.readLoop fuel _ _ s₁ with ⟨e | rest, s₂⟩ <;> rfl
  · rw [if_neg hrem, if_neg hrem]

/-- An iteration of the loop of `ReadLocked` for a range of natural numbers. -/
lemma readLoop_nat (m : BlockMapper σ) (fuel : ℕ) {n o len : ℕ} (hn : 0 < n)
    (hlen : len = min (4096 - o % 4096) n) :
    m.readLoop (fuel + 1) n o =
      andThen (m.readBlock (o / 4096 : ℕ) (o % 4096 : ℕ) len) fun part =>
        andThen (m.readLoop fuel (n - len : ℕ) (o + len : ℕ)) fun rest s =>
          (.ok (part ++ rest), s) := by
  have hblock : (o : ℤ) / 4096 = ((o / 4096 : ℕ) : ℤ) := by omega
  have hoffset : (o : ℤ) % 4096 = ((o % 4096 : ℕ) : ℤ) := by omega
  have hpart : min (4096 - ((o % 4096 : ℕ) : ℤ)) n = (len : ℤ) := by omega
  have hrest : (n : ℤ) - len = ((n - len : ℕ) : ℤ) := by omega
  have hnext : (o : ℤ) + len = ((o + len : ℕ) : ℤ) := by omega
  rw [readLoop_succ, if_pos (by omega)]
  dsimp only
  rw [hblock, hoffset, hpart, hrest, hnext]

/-- `ReadLocked` calls its loop on the storage. -/
lemma readLocked_eq (size : ℕ) (logicalOffset : ℤ) :
    (readLocked size logicalOffset : BlockMapper σ → _) =
      if logicalOffset < 0 then
        fun m => (.error ⟨.invalidArgument, "logical_offset cannot be negative"⟩, m)
      else if size = 0 then fun m => (.ok [], m)
      else onStorage fun m => m.readLoop size (s64 size) logicalOffset := by
  funext m
  rw [readLocked]
  split_ifs <;> rfl

/-- An iteration of the loop of `Write` as a composition. -/
lemma writeLoop_succ (buf : List UInt8) (logicalOffset : ℤ) (n : ℕ) (b : ℤ) :
    (writeLoop buf logicalOffset (n + 1) b : BlockMapper σ → _) =
      let writeStartOffset := max logicalOffset (b * 4096)
      let writeEndOffset := min (logicalOffset + s64 buf.length) (b * 4096 + 4096)
      let blockLen := writeEndOffset - writeStartOffset
      let blockOff := writeStartOffset - b * 4096
      let source := slice (writeStartOffset - logicalOffset).toNat blockLen.toNat buf
      if blockLen < 4096 then
        andThen (readLocked 4096 (b * 4096)) fun blockData m =>
          writeLoop buf logicalOffset n (b + 1) { m with
            pendingRecords := m.pendingRecords ++ [⟨b, Block.ofList (blockData.take blockOff.toNat ++
              source ++ blockData.drop (blockOff.toNat + source.length))⟩] }
      else fun m =>
        writeLoop buf logicalOffset n (b + 1)
          { m with pendingRecords := m.pendingRecords ++ [⟨b, Block.ofList source⟩] } := by
  funext m
  rw [writeLoop]
  dsimp only
  split_ifs
  · rw [andThen]
    rcases readLocked 4096 (b * 4096) m with ⟨e | blockData, m₁⟩ <;> rfl
  · rfl

/-- `Write` as a composition. -/
lemma write_eq (buf : List UInt8) (logicalOffset : ℤ) :
    (write buf logicalOffset : BlockMapper σ → _) = fun m =>
      if outOfRange buf.length logicalOffset then
        (.error ⟨.invalidArgument, "Write offset/size is out of range"⟩, m)
      else if ¬ m.initialized then
        (.error ⟨.failedPrecondition, "BlockMapper not initialized"⟩, m)
      else if buf.length = 0 then (.ok (), m)
      else
        andThen (writeLoop buf logicalOffset (s64 (u64 (logicalOffset + buf.length - 1) / 4096) -
            logicalOffset / 4096 + 1).toNat (logicalOffset / 4096)) (fun _ m =>
          (.ok (), { m with
            logicalSize := max m.logicalSize (logicalOffset + s64 buf.length) })) m := by
  funext m
  obtain ⟨endBlock, hend⟩ : ∃ endBlock,
      s64 (u64 (logicalOffset + buf.length - 1) / 4096) = endBlock := ⟨_, rfl⟩
  rw [write, hend, andThen]
  dsimp only
  generalize writeLoop buf logicalOffset (endBlock - logicalOffset / 4096 + 1).toNat
    (logicalOffset / 4096) m = p
  obtain ⟨e | _, m₁⟩ := p
  · dsimp only
  · dsimp only

/-- An iteration of the loop of `Sync` as a composition. -/
lemma syncLoop_cons (pr : PendingRecord) (rest : List PendingRecord) :
    (syncLoop (pr :: rest) : BlockMapper σ → _) =
      andThen (onStorage fun _ => append (pr.encode (if rest = [] then 1 else 2)))
        fun physicalOffset m => syncLoop rest { m with
          logicalToPhysical := if pr.blockIndex ≥ 0 then
              PageTable.put (-1) pr.blockIndex.toNat (physicalOffset + 8) m.logicalToPhysical
            else m.logicalToPhysical } := by
  funext m
  rw [andThen, onStorage]
  obtain ⟨p, hp⟩ : ∃ p, append (pr.encode (if rest = [] then 1 else 2)) m.storage = p := ⟨_, rfl⟩
  rw [hp]
  obtain ⟨e | physicalOffset, s⟩ := p
  · exact syncLoop_cons_error hp
  · exact syncLoop_cons_ok hp

/-- `Sync` as a composition. -/
lemma sync_eq : (sync : BlockMapper σ → _) = fun m =>
    if ¬ m.initialized then
      (.error ⟨.failedPrecondition, "BlockMapper not initialized"⟩, m)
    else if m.pendingRecords = [] then onStorage (fun _ => AppendOnlyStorage.sync) m
    else andThen (syncLoop m.pendingRecords) (fun _ m =>
      onStorage (fun _ => AppendOnlyStorage.sync) { m with pendingRecords := [] }) m := by
  funext m
  rw [sync, andThen]
  rcases syncLoop m.pendingRecords m with ⟨e | _, m₁⟩
  · rfl
  · rfl

variable [MetadataProto]

/-- An iteration of the scan of `Init` as a composition. -/
lemma scan_succ (P : ℤ) (fuel : ℕ) (offset : ℤ) :
    (scan P (fuel + 1) offset : σ → _) =
      if offset < P then
        andThen (pRead 4105 offset) fun recordBuf =>
          if recordBuf.length ≠ 4105 then fun s =>
            (.error ⟨.internal, "Corrupt database file or unexpected EOF during recovery"⟩, s)
          else
            match parseRecord offset recordBuf with
            | .error e => fun s => (.error e, s)
            | .ok rec => andThen (scan P fuel (offset + 4105)) fun recs s => (.ok (rec :: recs), s)
      else fun s => (.ok [], s) := by
  funext s
  rw [scan]
  by_cases hlt : offset < P
  · rw [if_pos hlt, if_pos hlt, andThen]
    rcases pRead 4105 offset s with ⟨e | recordBuf, s₁⟩
    · rfl
    · dsimp only
      split_ifs
      · rfl
      · cases parseRecord offset recordBuf with
        | error e => rfl
        | ok rec =>
          dsimp only
          rw [andThen]
          rcases scan P fuel (offset + 4105) s₁ with ⟨e | recs, s₂⟩ <;> rfl
  · rw [if_neg hlt, if_neg hlt]

/-- `Init` as a composition. -/
lemma init_eq : (init : BlockMapper σ → _) = fun m =>
    if m.initialized then
      (.error ⟨.failedPrecondition, "BlockMapper already initialized"⟩, m)
    else andThen (onStorage fun _ => andThen padStorage fun P => scan P P.toNat 0)
      (fun recoveredRecords m => (.ok (), { m with
        toLogical := applyRecords m.toLogical
          (recoveredRecords.zip (appliedPass recoveredRecords).1)
        initialized := true })) m := by
  funext m
  rw [init, scanStorage, andThen, onStorage, andThen]
  rcases padStorage m.storage with ⟨e | P, s₁⟩
  · rfl
  · dsimp only
    rcases scan P P.toNat 0 s₁ with ⟨e | recs, s₂⟩
    · rfl
    · rfl

end BlockMapper

end SqliteGcs
