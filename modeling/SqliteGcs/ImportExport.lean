import SqliteGcs.LogicalSize
import SqliteGcs.Posix

set_option relaxedAutoImplicit false
set_option autoImplicit false

/-!
# Import and export of raw files

`ImportLog` and `ExportLog` of `import_export.cc`: the first writes a raw file into a log, chunk by
chunk as `read` delivers it, and cuts the log's file to the size of the raw file; the second writes
the file that a log recovers to into a raw file. This file proves that the second undoes the
first, whatever the log held before, and that a raw file above the size limit leaves the log as it
was.

The log may end with an uncommitted tail, which the import's own batch commits. That does no harm:
the batch has a record for every block of the imported file, and ends with the truncate record
that sets its size.

## Main definitions

* `SqliteGcs.RawFile` — a raw file and what the calls on it do.
* `SqliteGcs.importLog`, `SqliteGcs.exportLog` — the two functions.
* `SqliteGcs.exportLogOnto` — the second, if the raw file may be the file under the log.

## Main results

* `SqliteGcs.importLoop_spec` — what the import buffers.
* `SqliteGcs.exportLog_spec` — what the export writes.
* `SqliteGcs.export_import` — importing and exporting is the identity.
-/

namespace SqliteGcs

open Bytes PageTable BlockMapper

/-! ## The functions -/

/-- A raw file, and the outcomes of the calls on it. The outcome of a `read` or `write` may depend
on the position in the file; on success each position is transferred once. -/
structure RawFile where
  /-- The path. -/
  path : String
  /-- The content. -/
  data : List UInt8
  /-- The failure of `open`, if it fails. -/
  openError : Option Errno
  /-- The failure of `fstat`, if it fails. -/
  statError : Option Errno
  /-- The outcome of the `read` or `write` at a position. -/
  transfer : ℕ → Transfer

section Functions

variable {σ : Type} [AppendOnlyStorage σ] [MetadataProto]

/-- The loop of `ImportLog`, reading from position `offset` on. Every iteration but the last reads
at least one byte, so one iteration more than there are bytes is enough. -/
def importLoop (raw : RawFile) : ℕ → ℕ → BlockMapper σ → Except Status Unit × BlockMapper σ
  | 0, _, mapper => (.ok (), mapper)
  | fuel + 1, offset, mapper =>
    match raw.transfer offset with
    | .failed errno => (.error (errno ("Failed to read from raw file: " ++ raw.path)), mapper)
    | .bytes k =>
      let res := Transfer.count k 4096 (raw.data.length - offset)
      if res = 0 then (.ok (), mapper)
      else
        match mapper.write (slice offset res raw.data) offset with
        | (.error e, mapper) => (.error e, mapper)
        | (.ok _, mapper) => importLoop raw fuel (offset + res) mapper

/-- `ImportLog`: the status, and the mapper when the function returns. -/
def importLog (raw : RawFile) (logStorage : σ) : Except Status Unit × BlockMapper σ :=
  match init (.new logStorage) with
  | (.error e, mapper) => (.error e, mapper)
  | (.ok _, mapper) =>
    match raw.openError with
    | some errno =>
      (.error (errno ("Failed to open raw file for reading: " ++ raw.path)), mapper)
    | none =>
      match raw.statError with
      | some errno => (.error (errno ("Failed to stat raw file: " ++ raw.path)), mapper)
      | none =>
        match importLoop raw (raw.data.length + 1) 0 mapper with
        | (.error e, mapper) => (.error e, mapper)
        | (.ok _, mapper) =>
          match mapper.truncate raw.data.length with
          | (.error e, mapper) => (.error e, mapper)
          | (.ok _, mapper) => mapper.sync

omit [AppendOnlyStorage σ] [MetadataProto] in
/-- The inner loop of `ExportLog`: write the rest of the buffer to the raw file. Every call writes
at least one byte, so as many iterations as there are bytes are enough. -/
def writeRaw (raw : RawFile) : ℕ → List UInt8 → List UInt8 → Except Status Unit × List UInt8
  | 0, _, file => (.ok (), file)
  | fuel + 1, buffer, file =>
    if buffer.length > 0 then
      match raw.transfer file.length with
      | .failed errno => (.error (errno ("Failed to write to raw file: " ++ raw.path)), file)
      | .bytes k =>
        let res := Transfer.count k buffer.length buffer.length
        writeRaw raw fuel (buffer.drop res) (file ++ buffer.take res)
    else (.ok (), file)

omit [MetadataProto] in
/-- The outer loop of `ExportLog`. Every iteration takes at least one byte, so as many iterations
as there are bytes are enough. The storage of the log is told every content of the raw file, since
the two may be one file. -/
def exportLoop (share : List UInt8 → σ → σ) (raw : RawFile) (totalSize : ℤ) :
    ℕ → ℤ → BlockMapper σ → List UInt8 → Except Status Unit × BlockMapper σ × List UInt8
  | 0, _, mapper, file => (.ok (), mapper, file)
  | fuel + 1, offset, mapper, file =>
    if offset < totalSize then
      let toRead := min 4096 (totalSize - offset)
      match mapper.read toRead.toNat offset with
      | (.error e, mapper) => (.error e, mapper, file)
      | (.ok buffer, mapper) =>
        match writeRaw raw buffer.length buffer file with
        | (.error e, file) => (.error e, { mapper with storage := share file mapper.storage }, file)
        | (.ok _, file) =>
          exportLoop share raw totalSize fuel (offset + toRead)
            { mapper with storage := share file mapper.storage } file
    else (.ok (), mapper, file)

/-- `ExportLog` onto a raw file that may be the file under the storage of the log: the status, the
mapper and the raw file when the function returns. -/
def exportLogOnto (share : List UInt8 → σ → σ) (logStorage : σ) (raw : RawFile) :
    Except Status Unit × BlockMapper σ × List UInt8 :=
  match init (.new logStorage) with
  | (.error e, mapper) => (.error e, mapper, raw.data)
  | (.ok _, mapper) =>
    let totalSize := mapper.logicalSize
    match raw.openError with
    | some errno =>
      (.error (errno ("Failed to open raw file for writing: " ++ raw.path)), mapper, raw.data)
    | none =>
      -- the file is opened with `O_TRUNC`
      exportLoop share raw totalSize totalSize.toNat 0
        { mapper with storage := share [] mapper.storage } []

/-- `ExportLog` onto a raw file that is not the log. -/
def exportLog (logStorage : σ) (raw : RawFile) :
    Except Status Unit × BlockMapper σ × List UInt8 :=
  exportLogOnto (fun _ storage => storage) logStorage raw

end Functions

/-- No call on the file fails. -/
structure RawFile.NoErrors (raw : RawFile) : Prop where
  openError : raw.openError = none
  statError : raw.statError = none
  transfer : ∀ offset, ∃ k, raw.transfer offset = .bytes k

/-! ## Export -/

/-- Without errors the whole buffer is written. -/
lemma writeRaw_spec {raw : RawFile} (h : raw.NoErrors) {fuel : ℕ} {buffer : List UInt8}
    (hfuel : buffer.length ≤ fuel) (file : List UInt8) :
    writeRaw raw fuel buffer file = (.ok (), file ++ buffer) := by
  induction fuel generalizing buffer file with
  | zero =>
    obtain rfl : buffer = [] := List.length_eq_zero_iff.mp (by omega)
    rw [writeRaw, List.append_nil]
  | succ fuel ih =>
    rw [writeRaw]
    split_ifs with hpos
    · obtain ⟨k, hk⟩ := h.transfer file.length
      have hcount := Transfer.count_pos (k := k) hpos hpos
      rw [hk]
      dsimp only
      rw [ih (by rw [List.length_drop]; omega), List.append_assoc, List.take_append_drop]
    · obtain rfl : buffer = [] := List.length_eq_zero_iff.mp (by omega)
      rw [List.append_nil]

section Export

variable {σ : Type} [AtomicLog σ]

/-- The loop of the export appends the rest of the file that the mapper holds.

**Proof sketch.** Induction on the fuel: each iteration appends one window of the byte function,
and the windows join. -/
lemma exportLoop_spec {raw : RawFile} (hraw : raw.NoErrors) {n : ℕ} (hn : n ≤ 1000000 * 4096)
    {fuel offset : ℕ} {m : BlockMapper σ} (h : Ready m) {f : ℕ → UInt8} (hf : m.byteAt = f)
    (hle : offset ≤ n) (hfuel : n - offset ≤ fuel) :
    ∃ m', exportLoop (fun _ s => s) raw n fuel offset m (window f 0 offset) =
      (.ok (), m', window f 0 n) := by
  induction fuel generalizing offset m with
  | zero =>
    obtain rfl : offset = n := by omega
    exact ⟨m, rfl⟩
  | succ fuel ih =>
    rw [exportLoop]
    by_cases hlt : offset < n
    · obtain ⟨len, hlen⟩ : ∃ len, len = min 4096 (n - offset) := ⟨_, rfl⟩
      have hread : min 4096 ((n : ℤ) - offset) = (len : ℤ) := by omega
      have hnext : (offset : ℤ) + len = ((offset + len : ℕ) : ℤ) := by omega
      obtain ⟨s, hr, hb, hv⟩ := read_spec h.initialized h.valid h.sound (n := len)
        (o := offset) (by omega)
      have hready : Ready { m with storage := s } := ⟨h.initialized, hv, hb ▸ h.sound⟩
      have hbyte : BlockMapper.byteAt { m with storage := s } = f := by
        rw [← hf]
        funext i
        unfold BlockMapper.byteAt
        rw [hb]
      obtain ⟨m', ih'⟩ := ih hready hbyte (by omega : offset + len ≤ n) (by omega)
      refine ⟨m', ?_⟩
      have hjoin := window_append f 0 offset len
      rw [Nat.zero_add] at hjoin
      rw [if_pos (by omega)]
      dsimp only
      rw [hread, Int.toNat_natCast, hr]
      dsimp only
      rw [writeRaw_spec hraw le_rfl, hf, hjoin, hnext]
      exact ih'
    · obtain rfl : offset = n := by omega
      rw [if_neg (by omega)]
      exact ⟨m, rfl⟩

/-- **What the export writes**: the file that the log recovers to. -/
lemma exportLog_spec [MetadataProto] {raw : RawFile} (hraw : raw.NoErrors) {s : σ}
    {m : BlockMapper σ} (hi : init (new s) = (.ok (), m)) (h : Ready m) {n : ℕ}
    (hsize : m.logicalSize = n) (hn : n ≤ 1000000 * 4096) :
    ∃ m', exportLog s raw = (.ok (), m', window m.byteAt 0 n) := by
  obtain ⟨m', hloop⟩ := exportLoop_spec hraw hn h rfl (Nat.zero_le n) (by omega : n - 0 ≤ n)
  refine ⟨m', ?_⟩
  rw [exportLog, exportLogOnto, hi]
  dsimp only
  rw [hraw.openError, hsize, Int.toNat_natCast]
  exact hloop

end Export

/-! ## Import -/

section Import

variable {σ : Type} [AtomicLog σ]

/-- The state of an import that has read the first `offset` bytes: the buffered records alone
determine these bytes, whatever the file and the block table hold. -/
structure Imported (raw : RawFile) (offset : ℕ) (file : List UInt8) (m : BlockMapper σ) : Prop
    extends Ready m where
  file_eq : bytes m.storage = file
  upper : offset ≤ 1000000 * 4096
  index : ∀ pr ∈ m.pendingRecords, 0 ≤ pr.blockIndex ∧ pr.blockIndex * 4096 < offset
  content : ∀ i < offset, ∀ (file : List UInt8) (table : List ℤ),
    SqliteGcs.byteAt file table m.pendingRecords i = raw.data.getD i 0

/-- Importing one more chunk. -/
lemma Imported.write {raw : RawFile} {offset : ℕ} {file : List UInt8} {m : BlockMapper σ}
    (h : Imported raw offset file m) {res : ℕ} (hpos : 0 < res)
    (hres : offset + res ≤ raw.data.length) (hrange : offset + res ≤ 1000000 * 4096) :
    (m.write (slice offset res raw.data) offset).1 = .ok () ∧
      Imported raw (offset + res) file (m.write (slice offset res raw.data) offset).2 := by
  have hlen : (slice offset res raw.data).length = res := by
    rw [length_slice]
    omega
  have hbuf : 0 < (slice offset res raw.data).length := by omega
  obtain ⟨s, hw, hb, hv⟩ := write_spec h.initialized h.valid h.sound hbuf
    (o := offset) (by omega)
  have hready := (h.toReady.write (slice offset res raw.data) offset).1
  rw [hw] at hready ⊢
  rw [hlen] at hready ⊢
  refine ⟨rfl, hready, hb.trans h.file_eq, hrange, ?_, ?_⟩
  · intro pr hpr
    rcases List.mem_append.mp hpr with hpr | hpr
    · have := h.index pr hpr
      omega
    · have := blockIndex_of_mem_blockRecords hpr
      omega
  · intro i hi file' table
    dsimp only
    rw [SqliteGcs.byteAt, blockBytes_blockRecords]
    have hdiv : 4096 * (i / 4096) + i % 4096 = i := by omega
    split_ifs with hblock
    · rw [getD_window _ _ _ (by omega), hdiv, patch, hlen]
      split_ifs with hin
      · have hsub : offset + (i - offset) = i := by omega
        rw [getD_slice _ _ (by omega), hsub]
      · exact h.content i (by omega) _ _
    · exact h.content i (by omega) file' table

/-- **What the loop of the import does**: a raw file within the size limit is buffered as a whole;
for a larger one the loop fails.

**Proof sketch.** Induction on the fuel. A chunk that ends within the limit is written
(`Imported.write`); one that ends beyond it is refused by the range check of `Write`. -/
lemma importLoop_spec {raw : RawFile} (hraw : raw.NoErrors) {file : List UInt8} {fuel offset : ℕ}
    {m : BlockMapper σ} (h : Imported raw offset file m) (hle : offset ≤ raw.data.length)
    (hfuel : raw.data.length - offset < fuel) :
    (raw.data.length ≤ 1000000 * 4096 ∧ ∃ m', importLoop raw fuel offset m = (.ok (), m') ∧
        Imported raw raw.data.length file m') ∨
      (1000000 * 4096 < raw.data.length ∧ ∃ e m', importLoop raw fuel offset m = (.error e, m') ∧
        Ready m' ∧ bytes m'.storage = file) := by
  induction fuel generalizing offset m with
  | zero => omega
  | succ fuel ih =>
    have hupper := h.upper
    obtain ⟨k, hk⟩ := hraw.transfer offset
    obtain ⟨res, hres⟩ : ∃ res, res = Transfer.count k 4096 (raw.data.length - offset) := ⟨_, rfl⟩
    have hcount := Transfer.count_le k 4096 (raw.data.length - offset)
    rw [importLoop, hk]
    dsimp only
    rw [← hres] at hcount ⊢
    by_cases hend : offset = raw.data.length
    · rw [if_pos (by omega)]
      exact Or.inl ⟨by omega, m, rfl, hend ▸ h⟩
    · have hpos : 0 < res := by
        rw [hres]
        exact Transfer.count_pos (by decide) (by omega)
      rw [if_neg (by omega)]
      by_cases hrange : offset + res ≤ 1000000 * 4096
      · obtain ⟨hok, h'⟩ := h.write hpos (by omega) hrange
        generalize m.write (slice offset res raw.data) offset = p at hok h'
        obtain ⟨r, m'⟩ := p
        obtain rfl : r = .ok () := hok
        exact ih h' (by omega) (by omega)
      · have hor : outOfRange (slice offset res raw.data).length offset = true := by
          rw [← Bool.not_eq_false, outOfRange_eq_false_iff, length_slice]
          omega
        rw [BlockMapper.write, if_pos hor]
        exact Or.inr ⟨by omega, _, m, rfl, h.toReady, h.file_eq⟩

end Import

/-! ## Recovery of an import -/

/-- The content of an unbuffered block depends on the entry of the table for it. -/
lemma blockBytes_congr_table (file : List UInt8) {table table' : List ℤ}
    (pending : List PendingRecord) {b : ℕ} (h : table.getD b (-1) = table'.getD b (-1)) :
    blockBytes file table pending b = blockBytes file table' pending b := by
  unfold blockBytes
  rw [h]

section Recovery

variable [MetadataProto]

/-- Replaying a batch of block records and a final truncate record: below the cut, the table has
the puts of the batch. -/
lemma getD_replay_cut {Q : List PendingRecord} (hQ : ∀ pr ∈ Q, pr.blockIndex ≥ 0)
    {tr : PendingRecord} (htr : tr.blockIndex = -1) {newSize : ℤ} (hnew : tr.newSize = newSize)
    (h0 : 0 ≤ newSize) {c : ℕ} (hc : ceilBlocks newSize = c) (offset : ℤ) (table : List ℤ)
    {b : ℕ} (hb : b < c) :
    (replay (-1) (edits (batchRecords offset (Q ++ [tr]))) table).getD b (-1) =
      (puts (-1) (edits (batchRecords offset (Q ++ [tr]))) table).getD b (-1) := by
  have hshapes := shapes_batchRecords (Q ++ [tr]) offset
  have hlast := PendingRecord.shapes_of_newSize htr hnew h0 hc
  rw [batchShapes, List.flatMap_append, List.flatMap_singleton, hlast] at hshapes
  obtain ⟨es, hes, hes'⟩ := exists_append_resize hshapes
  have hput : ∀ e ∈ es, e.isPut = true := by
    intro e he
    have hmem : e.shape ∈ batchShapes Q := by
      rw [batchShapes, ← hes']
      exact List.mem_map_of_mem he
    obtain ⟨pr, hpr, hsh⟩ := List.mem_flatMap.mp hmem
    rw [PendingRecord.shapes_of_nonneg (hQ pr hpr), List.mem_singleton] at hsh
    cases e with
    | put i x => rfl
    | resize n => simp [Edit.shape] at hsh
  rw [hes, replay_append_resize, puts_append_resize, puts_of_isPut (-1) hput, getD_resize,
    if_pos hb]

section Buffered

variable {σ : Type} [AtomicLog σ]

/-- The truncation at the end of an import keeps every record that the import buffered. -/
lemma Imported.truncate (hp : MetadataProto.RoundTrips) (hser : MetadataProto.Serializes)
    {raw : RawFile} {n : ℕ} {file : List UInt8} {m : BlockMapper σ} (h : Imported raw n file m) :
    ∃ tr m₁, m.truncate n = (.ok (), m₁) ∧ Ready m₁ ∧ bytes m₁.storage = file ∧
      m₁.pendingRecords = m.pendingRecords ++ [tr] ∧ tr.Decodes ∧ tr.blockIndex = -1 ∧
        tr.newSize = (n : ℤ) := by
  have hupper := h.upper
  obtain ⟨serialized, hs, hl⟩ := hser n (by omega) (by omega)
  have hidx : (truncateRecord serialized).blockIndex = -1 := rfl
  have hkeep : (m.pendingRecords ++ [truncateRecord serialized]).filter
      (fun r => ¬ r.blockIndex ≥ ceilBlocks n) =
        m.pendingRecords ++ [truncateRecord serialized] := by
    rw [List.filter_eq_self]
    intro pr hpr
    rw [decide_eq_true_eq]
    unfold ceilBlocks
    rcases List.mem_append.mp hpr with hpr | hpr
    · have := h.index pr hpr
      omega
    · obtain rfl := List.mem_singleton.mp hpr
      omega
  have htr : m.truncate n = (.ok (), m.truncated n serialized) := by
    rw [BlockMapper.truncate, if_neg (by omega), if_neg (by rw [h.initialized]; decide), hs]
    dsimp only
    rw [if_neg (by omega)]
    rfl
  obtain ⟨hready, hfile⟩ := h.toReady.truncate n
  rw [htr] at hready hfile
  refine ⟨truncateRecord serialized, m.truncated n serialized, htr, hready,
    hfile.trans h.file_eq, ?_, ?_, hidx, ?_⟩
  · rw [truncated, hkeep]
  · exact decodes_truncateRecord hp (by omega) (by omega) hs (by omega)
  · exact newSize_truncateRecord hp (by omega) (by omega) hs (by omega)

/-- The records that an import buffered can be encoded and decoded. -/
lemma Imported.decodes {raw : RawFile} {n : ℕ} {file : List UInt8} {m : BlockMapper σ}
    (h : Imported raw n file m) : ∀ pr ∈ m.pendingRecords, pr.Decodes := by
  intro pr hpr
  have hupper := h.upper
  have := h.index pr hpr
  exact ⟨by omega, by omega, fun hm => by omega⟩

/-- **The bytes that a batch of an import leaves behind.** The batch ends with the truncate record,
which cuts the table to the blocks of the file; each of these blocks has a record in the batch. -/
lemma Imported.byteAt_replay {raw : RawFile} {n : ℕ} {file : List UInt8} {m : BlockMapper σ}
    (h : Imported raw n file m) {D : List ℤ} (hsound : Sound file D) {tr : PendingRecord}
    (hidx : tr.blockIndex = -1) (hnew : tr.newSize = n) {i : ℕ} (hi : i < n) :
    SqliteGcs.byteAt (file ++ (encodeBatch (m.pendingRecords ++ [tr])).flatten)
      (replay (-1) (edits (batchRecords file.length (m.pendingRecords ++ [tr]))) D) [] i =
        raw.data.getD i 0 := by
  obtain ⟨c, hc⟩ : ∃ c : ℕ, ceilBlocks n = c := ⟨(n + 4095) / 4096, by unfold ceilBlocks; omega⟩
  have hblock : i / 4096 < c := by
    unfold ceilBlocks at hc
    omega
  have hputs : ∀ pr ∈ m.pendingRecords, pr.blockIndex ≥ 0 := fun pr hpr => (h.index pr hpr).1
  have hcut := getD_replay_cut hputs hidx hnew (by omega) hc file.length D hblock
  have hbatch := blockBytes_batch hsound (m.pendingRecords ++ [tr]) (i / 4096)
  have hconcat := blockBytes_concat file D m.pendingRecords tr (i / 4096)
  rw [hidx, if_neg (by omega)] at hconcat
  rw [SqliteGcs.byteAt, blockBytes_congr_table _ [] hcut, hbatch, hconcat]
  exact h.content i hi file D

omit [MetadataProto] in
/-- An import that has read nothing yet. -/
lemma imported_zero (raw : RawFile) {s : σ} {l : Logical} (h : Ready (opened l s)) :
    Imported raw 0 (bytes s) (opened l s) where
  toReady := h
  file_eq := rfl
  upper := by decide
  index := by simp [opened]
  content := fun i hi => absurd hi (Nat.not_lt_zero i)

end Buffered

variable {σ τ : Type} [ReliableLog σ] [AtomicLog τ]

/-- **What recovery finds after an import.** The import succeeds, and `Init` on its log recovers
the size and the bytes of the raw file, whatever the log held before.

**Proof sketch.** The batch ends with a commit, so it is replayed after whatever of the old log
counts then (`init_append_batch`). The truncate record sets the size, and the bytes are those of
the batch (`Imported.byteAt_replay`). -/
lemma init_imported (hp : MetadataProto.RoundTrips) (hser : MetadataProto.Serializes)
    {raw : RawFile} {file : List UInt8} {recs : List RecoveredRecord} {m : BlockMapper σ}
    (h : Imported raw raw.data.length file m) (hal : file.length % 4105 = 0)
    (hrecs : records file = .ok recs) :
    ∃ m₁ m₂, m.truncate raw.data.length = (.ok (), m₁) ∧ m₁.sync = (.ok (), m₂) ∧
      ∀ t : τ, Valid t → bytes t = bytes m₂.storage →
        ∃ m₃, init (new t) = (.ok (), m₃) ∧ Ready m₃ ∧ m₃.logicalSize = raw.data.length ∧
          ∀ i < raw.data.length, m₃.byteAt i = raw.data.getD i 0 := by
  obtain ⟨tr, m₁, htr, hready, hfile, hpending, hdec, hidx, hnew⟩ := h.truncate hp hser
  obtain ⟨s₂, hsync, hb₂, -⟩ := sync_reliable hready.initialized hready.valid
  obtain ⟨P, hP⟩ : ∃ P, P = m.pendingRecords ++ [tr] := ⟨_, rfl⟩
  rw [hpending, hfile, ← hP] at hb₂
  refine ⟨m₁, _, htr, hsync, fun t hv hbt => ?_⟩
  replace hbt := hbt.trans hb₂
  have hne : P ≠ [] := by
    rw [hP]
    simp
  have hdecodes : ∀ pr ∈ P, pr.Decodes := by
    intro pr hpr
    rw [hP] at hpr
    rcases List.mem_append.mp hpr with hpr | hpr
    · exact h.decodes pr hpr
    · obtain rfl := List.mem_singleton.mp hpr
      exact hdec
  obtain ⟨t', l, hl, hi, hready', hbt'⟩ := init_append_batch hv hal hrecs hne hdecodes hbt
  refine ⟨_, hi, hready', ?_, fun i hin => ?_⟩
  · -- the truncate record sets the size
    have hlast : ∀ size, PendingRecord.sizeStep size tr = raw.data.length := by
      intro size
      rw [PendingRecord.sizeStep, hnew, hidx, if_neg (by omega), if_pos rfl, if_pos (by omega)]
    show l.logicalSize = raw.data.length
    rw [hl, logicalSize_applyAll_batch, hP, List.foldl_append, List.foldl_cons, List.foldl_nil,
      hlast]
  · have hsound : Sound file (recoveredBefore recs).logicalToPhysical :=
      sound_committed hrecs true
    show SqliteGcs.byteAt (bytes t') l.logicalToPhysical [] i = raw.data.getD i 0
    rw [hbt', hbt, hl, logicalToPhysical_applyAll, hP]
    exact h.byteAt_replay hsound hidx hnew hin

/-- **Import then export is the identity.** Let `Init` succeed on a log, and let no call on the raw
files fail. If the raw file is within the size limit, `ImportLog` succeeds, and `ExportLog` of the
resulting log writes the bytes of the raw file. If it is larger, `ImportLog` fails, and the log
still recovers to the state it recovered to before.

**Proof sketch.** The import buffers the whole file (`importLoop_spec`), and recovery finds it
(`init_imported`); the export writes what recovery finds (`exportLog_spec`). A file that is too
large fails in the loop, before anything but the padding is written to the log. -/
theorem export_import (hp : MetadataProto.RoundTrips) (hser : MetadataProto.Serializes) {s : σ}
    (hv : Valid s) (hinit : (init (new s)).1 = .ok ()) {raw : RawFile} (hraw : raw.NoErrors) :
    (raw.data.length ≤ 1000000 * 4096 →
      (importLog raw s).1 = .ok () ∧
        ∀ (t : τ) (out : RawFile), Valid t → bytes t = bytes (importLog raw s).2.storage →
          out.NoErrors → (exportLog t out).1 = .ok () ∧ (exportLog t out).2.2 = raw.data) ∧
      (1000000 * 4096 < raw.data.length →
        (∃ e, (importLog raw s).1 = .error e) ∧
          ∀ t : τ, Valid t → bytes t = bytes (importLog raw s).2.storage →
            (init (new t)).1 = .ok () ∧
              (init (new t)).2.toLogical = (init (new s)).2.toLogical) := by
  obtain ⟨recs, s', hrecs, hi, hb, hready⟩ := ready_of_init hv hinit
  have hal : (padded (bytes s)).length % 4105 = 0 := by
    rw [length_padded]
    omega
  have hloop := importLoop_spec hraw (imported_zero raw hready) (Nat.zero_le _)
    (by omega : raw.data.length - 0 < raw.data.length + 1)
  have himport : importLog raw s =
      match importLoop raw (raw.data.length + 1) 0 (opened (recovered recs) s') with
      | (.error e, mapper) => (.error e, mapper)
      | (.ok _, mapper) =>
        match mapper.truncate raw.data.length with
        | (.error e, mapper) => (.error e, mapper)
        | (.ok _, mapper) => mapper.sync := by
    rw [importLog, hi]
    dsimp only
    rw [hraw.openError, hraw.statError]
  rw [hb] at hloop
  constructor
  · intro hsize
    rcases hloop with ⟨-, m, hl, himp⟩ | ⟨hlarge, -⟩
    · obtain ⟨m₁, m₂, htr, hsync, hrecover⟩ := init_imported (τ := τ) hp hser himp hal hrecs
      rw [himport, hl]
      dsimp only
      rw [htr]
      dsimp only
      rw [hsync]
      refine ⟨rfl, fun t out hvt hbt hout => ?_⟩
      obtain ⟨m₃, hi₃, hready₃, hsize₃, hbyte₃⟩ := hrecover t hvt hbt
      obtain ⟨m₄, hexport⟩ := exportLog_spec hout hi₃ hready₃ hsize₃ hsize
      rw [hexport]
      refine ⟨rfl, (eq_window 0 rfl fun i hin => ?_).symm⟩
      rw [Nat.zero_add, hbyte₃ i hin]
    · omega
  · intro hlarge
    rcases hloop with ⟨hsize, -⟩ | ⟨-, e, m, hl, -, hfile⟩
    · omega
    · rw [himport, hl]
      refine ⟨⟨e, rfl⟩, fun t hvt hbt => ?_⟩
      dsimp only at hbt
      rw [hfile] at hbt
      have halt : (bytes t).length % 4105 = 0 := by
        rw [hbt]
        exact hal
      have hrecs' : records (padded (bytes t)) = .ok recs := by
        rw [hbt, padded_of_aligned hal, hrecs]
      obtain ⟨t', hi', -, -⟩ := init_of_records hvt (padStorage_of_aligned hvt halt) hrecs'
      rw [hi', hi]
      exact ⟨rfl, rfl⟩

end Recovery

/-- `export_import` for a raw file of three bytes that is read byte by byte into an empty log. -/
theorem export_import_three_bytes :
    letI := wireProto
    (importLog ⟨"raw", [1, 2, 3], none, none, fun _ => .bytes 0⟩ InMemoryStorage.new).1 =
        .ok () ∧
      ∀ (t : InMemoryStorage), Valid t → bytes t = bytes (importLog
          ⟨"raw", [1, 2, 3], none, none, fun _ => .bytes 0⟩ InMemoryStorage.new).2.storage →
        (exportLog t ⟨"out", [], none, none, fun _ => .bytes 1⟩).1 = .ok () ∧
          (exportLog t ⟨"out", [], none, none, fun _ => .bytes 1⟩).2.2 = [1, 2, 3] := by
  have hv : Valid InMemoryStorage.new := rfl
  obtain ⟨s, hi, -⟩ := @init_empty wireProto InMemoryStorage _ _ hv rfl
  obtain ⟨h, -⟩ := @export_import wireProto InMemoryStorage InMemoryStorage _ _
    wireProto_roundTrips wireProto_serializes _ hv (congrArg Prod.fst hi)
    ⟨"raw", [1, 2, 3], none, none, fun _ => .bytes 0⟩ ⟨rfl, rfl, fun _ => ⟨0, rfl⟩⟩
  obtain ⟨hok, hexport⟩ := h (by decide)
  exact ⟨hok, fun t hvt hbt => hexport t _ hvt hbt ⟨rfl, rfl, fun _ => ⟨1, rfl⟩⟩⟩

end SqliteGcs
