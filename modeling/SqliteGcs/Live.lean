import SqliteGcs.Contents
import SqliteGcs.Crash
import SqliteGcs.InMemoryStorage

set_option relaxedAutoImplicit false
set_option autoImplicit false

/-!
# The live state and the recovered state

A mapper keeps its block table up to date while it runs; recovery rebuilds the table from the log.
This file proves that the two agree whenever nothing is buffered, for all runs of `Write`,
`Truncate` and `Sync` on a log whose appends are atomic but may fail.

The invariant speaks about the future of the log: whatever offsets the buffered records will be
written at, replaying them after the log gives the same table as making their puts in the live
one. `Sync` writes them from the start after a failure, and a history absorbs a first part of
itself (`PageTable.replay_replay_of_shapes`); `Truncate` drops buffered records, which a cut
makes irrelevant (`PageTable.resize_replay_prune`).

## Main definitions

* `SqliteGcs.Op`, `SqliteGcs.runOps` — calls of the mapper, and running a list of them.
* `SqliteGcs.Live` — the invariant.

## Main results

* `SqliteGcs.Live.op` — every call keeps the invariant.
* `SqliteGcs.live_eq_recovered` — the live table is the recovered one.
-/

namespace SqliteGcs

open Bytes PageTable BlockMapper

/-! ## Runs -/

/-- A call of a mapper that may change its state. -/
inductive Op
  | write (buf : List UInt8) (logicalOffset : ℤ)
  | truncate (newSize : ℤ)
  | sync
  deriving DecidableEq

section Runs

variable {σ : Type} [AppendOnlyStorage σ] [MetadataProto]

/-- The outcome of a call and the state after it. -/
def Op.run : Op → BlockMapper σ → Except Status Unit × BlockMapper σ
  | .write buf logicalOffset, m => m.write buf logicalOffset
  | .truncate newSize, m => m.truncate newSize
  | .sync, m => m.sync

/-- A call of a mapper that is not initialised does nothing. -/
lemma Op.run_new (op : Op) (s : σ) : (op.run (new s)).2 = new s := by
  have hni : ¬ (new s).initialized = true := Bool.false_ne_true
  cases op with
  | write buf off =>
    show (BlockMapper.write buf off (new s)).2 = new s
    by_cases hor : outOfRange buf.length off = true
    · rw [BlockMapper.write, if_pos hor]
    · rw [BlockMapper.write, if_neg hor, if_pos hni]
  | truncate newSize =>
    show (BlockMapper.truncate newSize (new s)).2 = new s
    by_cases hr : newSize < 0 ∨ newSize > 1000000 * 4096
    · rw [BlockMapper.truncate, if_pos hr]
    · rw [BlockMapper.truncate, if_neg hr, if_pos hni]
  | sync => rfl

/-- The state after calls that may fail: the caller goes on after a failure. -/
def runOps (ops : List Op) (m : BlockMapper σ) : BlockMapper σ :=
  ops.foldl (fun m op => (op.run m).2) m

/-- A run that ends with a `Sync`. -/
lemma runOps_concat_sync (ops : List Op) (m : BlockMapper σ) :
    runOps (ops ++ [.sync]) m = (runOps ops m).sync.2 := by
  rw [runOps, List.foldl_append]
  rfl

end Runs

/-! ## Records in front of a commit -/

/-- The state that the records of a log recover to when a committed batch follows them. -/
def recoveredBefore (recs : List RecoveredRecord) : Logical :=
  Logical.empty.applyAll (TxnLog.committed mark recs true)

/-- If the log has no open chain at its end, what follows does not matter. -/
lemma recoveredBefore_of_settled {recs : List RecoveredRecord}
    (h : TxnLog.Settled mark recs) : recoveredBefore recs = recovered recs := by
  rw [recoveredBefore, TxnLog.committed_of_settled mark h true false, recovered]

/-- Replaying records of the log keeps the table sound. -/
lemma sound_applyAll {file : List UInt8} {l : Logical} (hl : Sound file l.logicalToPhysical)
    {recs : List RecoveredRecord}
    (hrecs : ∀ rec ∈ recs, 0 ≤ rec.offset ∧ rec.offset + 4105 ≤ file.length) :
    Sound file (l.applyAll recs).logicalToPhysical := by
  induction recs generalizing l with
  | nil => exact hl
  | cons rec recs ih =>
    refine ih ?_ fun r hr => hrecs r (List.mem_cons_of_mem rec hr)
    obtain ⟨h0, h1⟩ := hrecs rec List.mem_cons_self
    unfold Logical.apply
    split_ifs
    · exact hl.put _ (by omega) (by omega)
    · exact hl.resize _
    · exact hl
    · exact hl

section Invariant

variable [MetadataProto]

/-- The first records of a batch are replayed after what is in front of them. -/
lemma recoveredBefore_append_batch (recs : List RecoveredRecord) (P : List PendingRecord)
    (offset : ℤ) (k : ℕ) :
    recoveredBefore (recs ++ (batchRecords offset P).take k) =
      (recoveredBefore recs).applyAll ((batchRecords offset P).take k) := by
  have hmarks : ∀ rec ∈ (batchRecords offset P).take k, mark rec ≠ .abort :=
    fun rec hrec => mark_of_mem_batchRecords rec (List.mem_of_mem_take hrec)
  obtain ⟨h1, h2⟩ := TxnLog.committed_of_forall mark hmarks
  rw [recoveredBefore, TxnLog.committed_append, h2, h1, applyAll_append, recoveredBefore]

/-- A batch at the end of the log commits itself, whatever is in front of it. -/
lemma recovered_append_batch (recs : List RecoveredRecord) {P : List PendingRecord} (hP : P ≠ [])
    (offset : ℤ) : recovered (recs ++ batchRecords offset P) =
      (recoveredBefore recs).applyAll (batchRecords offset P) := by
  have hbatch := recoveredBefore_append_batch recs P offset P.length
  rw [List.take_of_length_le (by simp)] at hbatch
  rw [← recoveredBefore_of_settled (settled_batchRecords hP offset recs), hbatch]

/-- The records of a file lie in it. -/
lemma offset_of_mem_records {file : List UInt8} {recs : List RecoveredRecord}
    (h : records file = .ok recs) {rec : RecoveredRecord} (hrec : rec ∈ recs) :
    0 ≤ rec.offset ∧ rec.offset + 4105 ≤ file.length := by
  obtain ⟨i, hi, rfl⟩ := List.getElem_of_mem hrec
  have hlen := length_of_parseLog h
  rw [length_chunks] at hlen
  rw [offset_getElem_records h hi]
  omega

/-- What the records of a file recover to is sound, whatever follows them in the log. -/
lemma sound_committed {file : List UInt8} {recs : List RecoveredRecord}
    (h : records file = .ok recs) (next : Bool) :
    Sound file (Logical.empty.applyAll (TxnLog.committed mark recs next)).logicalToPhysical := by
  refine sound_applyAll (fun p hp => ?_) fun rec hrec =>
    offset_of_mem_records h (TxnLog.mem_of_mem_committed mark hrec)
  simp [Logical.empty] at hp

/-- The records of a file pass validation. -/
lemma valid_of_mem_records {file : List UInt8} {recs : List RecoveredRecord}
    (h : records file = .ok recs) {rec : RecoveredRecord} (hrec : rec ∈ recs) : rec.Valid := by
  obtain ⟨i, hi, rfl⟩ := List.getElem_of_mem hrec
  have hi' : i < (chunks 4105 (file.length / 4105) file).length := by
    rwa [← length_of_parseLog h]
  exact (parseRecord_ok (getElem_parseLog h hi hi')).2.2

/-- The state that the records of a file recover to is covered. -/
lemma covered_recovered {file : List UInt8} {recs : List RecoveredRecord}
    (h : records file = .ok recs) : (recovered recs).Covered :=
  ceilBlocks_applyAll covered_empty fun _ hrec =>
    valid_of_mem_records h (TxnLog.mem_of_mem_committed mark hrec)

/-- A log whose last byte is not 2 has no uncommitted tail. -/
lemma settled_of_getLast {file : List UInt8} {recs : List RecoveredRecord}
    (hal : file.length % 4105 = 0) (h : records file = .ok recs) (hlast : file.getLast? ≠ some 2) :
    TxnLog.Settled mark recs := by
  intro rec hrec
  have hlen := length_of_parseLog h
  rw [length_chunks] at hlen
  rw [List.getLast?_eq_getElem?] at hrec
  obtain ⟨hi, rfl⟩ := List.getElem?_eq_some_iff.mp hrec
  have hi' : recs.length - 1 < (chunks 4105 (file.length / 4105) file).length := by
    rwa [← length_of_parseLog h]
  obtain ⟨-, hgood, -⟩ := parseRecord_ok (getElem_parseLog h hi hi')
  have hpos : 4105 * (recs.length - 1) + 4104 = file.length - 1 := by omega
  have hbyte : recs[recs.length - 1].isGood ≠ 2 := by
    intro h2
    rw [hgood, getElem_chunks, getD_slice _ _ (by omega), hpos] at h2
    rw [List.getLast?_eq_getElem?, List.getElem?_eq_getElem (by omega)] at hlast
    rw [List.getD_eq_getElem _ _ (by omega)] at h2
    exact hlast (congrArg some h2)
  rw [mark]
  split_ifs <;> simp_all

variable {σ : Type} [AtomicLog σ]

/-! ## Mappers that can read their blocks -/

/-- A mapper that is initialised and whose mapped blocks have their payloads in the file. -/
structure Ready (m : BlockMapper σ) : Prop where
  initialized : m.initialized = true
  valid : Valid m.storage
  sound : Sound (bytes m.storage) m.logicalToPhysical

/-- A mapper that was just initialised is ready. -/
lemma ready_opened {s : σ} {recs : List RecoveredRecord} (hv : Valid s)
    (h : records (bytes s) = .ok recs) : Ready (opened (recovered recs) s) where
  initialized := rfl
  valid := hv
  sound := sound_committed h false

/-- **A mapper after a successful `Init`**: it holds what the records of the padded file recover to,
and is ready. -/
lemma ready_of_init {s : σ} (hv : Valid s) (h : (init (new s)).1 = .ok ()) :
    ∃ recs s', records (padded (bytes s)) = .ok recs ∧
      init (new s) = (.ok (), opened (recovered recs) s') ∧ bytes s' = padded (bytes s) ∧
      Ready (opened (recovered recs) s') := by
  obtain ⟨recs, s', hrecs, hi, hb, hv'⟩ := records_of_init hv h
  exact ⟨recs, s', hrecs, hi, hb, ready_opened hv' (by rw [hb, hrecs])⟩

/-- **`Init` on a log with a batch behind it**: the batch is replayed after what counts of the
log in front of a commit. -/
lemma init_append_batch {s : σ} (hv : Valid s) {file : List UInt8}
    (hal : file.length % 4105 = 0) {recs : List RecoveredRecord} (hrecs : records file = .ok recs)
    {P : List PendingRecord} (hP : P ≠ []) (hdec : ∀ pr ∈ P, pr.Decodes)
    (hb : bytes s = file ++ (encodeBatch P).flatten) :
    ∃ s' l, l = (recoveredBefore recs).applyAll (batchRecords file.length P) ∧
      init (new s) = (.ok (), opened l s') ∧ Ready (opened l s') ∧ bytes s' = bytes s := by
  have hrecs' := records_append hal length_of_mem_encodeBatch hrecs
    (parseLog_batch hdec file.length)
  rw [← hb] at hrecs'
  have hal' : (bytes s).length % 4105 = 0 := by
    rw [hb, List.length_append, length_flatten_of_forall length_of_mem_encodeBatch]
    omega
  obtain ⟨s', hi, hb', hv'⟩ := init_of_aligned hv hal' hrecs'
  have hready := ready_opened hv' (by rw [hb', hrecs'])
  rw [recovered_append_batch recs hP] at hi hready
  exact ⟨s', _, rfl, hi, hready, hb'⟩

omit [MetadataProto] in
/-- `Write` keeps a mapper ready and does not touch the file. -/
lemma Ready.write {m : BlockMapper σ} (h : Ready m) (buf : List UInt8) (off : ℤ) :
    Ready (m.write buf off).2 ∧ bytes (m.write buf off).2.storage = bytes m.storage := by
  rcases write_cases h.initialized buf off with ⟨hsame, -⟩ | ⟨o, rfl, hpos, hrange⟩
  · rw [hsame]
    exact ⟨h, rfl⟩
  · obtain ⟨s, hw, hb, hv⟩ := write_spec h.initialized h.valid h.sound hpos hrange
    rw [hw]
    exact ⟨⟨h.initialized, hv, hb ▸ h.sound⟩, hb⟩

/-- `Truncate` keeps a mapper ready and does not touch the file. -/
lemma Ready.truncate {m : BlockMapper σ} (h : Ready m) (newSize : ℤ) :
    Ready (m.truncate newSize).2 ∧ bytes (m.truncate newSize).2.storage = bytes m.storage := by
  rcases truncate_cases h.initialized newSize with ⟨e, he⟩ | ⟨-, -, serialized, -, -, ht⟩
  · rw [he]
    exact ⟨h, rfl⟩
  · rw [ht]
    exact ⟨⟨h.initialized, h.valid, h.sound.resize _⟩, rfl⟩

/-- `Sync` keeps a mapper ready and appends to the file. -/
lemma Ready.sync {m : BlockMapper σ} (h : Ready m) :
    Ready m.sync.2 ∧ bytes m.storage <+: bytes m.sync.2.storage := by
  have hstore : ∀ {m : BlockMapper σ}, Ready m →
      Ready m.syncStorage.2 ∧ bytes m.syncStorage.2.storage = bytes m.storage := by
    intro m h
    obtain ⟨hb, hv⟩ := AtomicLog.sync_spec m.storage h.valid
    exact ⟨⟨h.initialized, hv, hb ▸ h.sound⟩, hb⟩
  rcases sync_cases h.initialized h.valid with
    ⟨-, hsync⟩ | ⟨-, k, s, hv, hb, ⟨-, hsync⟩ | ⟨e, hsync⟩⟩
  · rw [hsync]
    obtain ⟨h', hb⟩ := hstore h
    exact ⟨h', [], by rw [List.append_nil, hb]⟩
  · have hsound := h.sound.puts_batch m.pendingRecords k
    rw [← hb] at hsound
    obtain ⟨h', hb'⟩ := hstore (m := { m with
        storage := s
        pendingRecords := []
        logicalToPhysical :=
          puts (-1) (edits ((batchRecords (bytes m.storage).length m.pendingRecords).take k))
            m.logicalToPhysical }) ⟨h.initialized, hv, hsound⟩
    rw [hsync]
    exact ⟨h', ⟨_, (hb'.trans hb).symm⟩⟩
  · have hsound := h.sound.puts_batch m.pendingRecords k
    rw [← hb] at hsound
    rw [hsync]
    exact ⟨⟨h.initialized, hv, hsound⟩, ⟨_, hb.symm⟩⟩

/-- **Every call keeps a mapper ready**, and the file only grows. -/
lemma Ready.op {m : BlockMapper σ} (h : Ready m) (op : Op) :
    Ready (op.run m).2 ∧ bytes m.storage <+: bytes (op.run m).2.storage := by
  cases op with
  | write buf off =>
    obtain ⟨h', hb⟩ := h.write buf off
    exact ⟨h', [], by rw [List.append_nil]; exact hb.symm⟩
  | truncate newSize =>
    obtain ⟨h', hb⟩ := h.truncate newSize
    exact ⟨h', [], by rw [List.append_nil]; exact hb.symm⟩
  | sync => exact h.sync

/-- Every run keeps a mapper ready, and the file only grows. -/
lemma Ready.runOps {m : BlockMapper σ} (h : Ready m) (ops : List Op) :
    Ready (SqliteGcs.runOps ops m) ∧
      bytes m.storage <+: bytes (SqliteGcs.runOps ops m).storage := by
  induction ops generalizing m with
  | nil => exact ⟨h, List.prefix_rfl⟩
  | cons op ops ih =>
    obtain ⟨h', hb⟩ := h.op op
    obtain ⟨h'', hb'⟩ := ih h'
    exact ⟨h'', hb.trans hb'⟩

/-! ## The invariant -/

/-- **The invariant of a running mapper** over a log with the given records. The field `coherent`
says that the buffered records may be written at any offsets: after the log they replay to the
table that their puts make of the live one. -/
structure Live (m : BlockMapper σ) (recs : List RecoveredRecord) : Prop extends Ready m where
  aligned : (bytes m.storage).length % 4105 = 0
  records_eq : records (bytes m.storage) = .ok recs
  decodes : ∀ pr ∈ m.pendingRecords, pr.Decodes
  size_nonneg : 0 ≤ m.logicalSize
  size_upper : m.logicalSize ≤ 1000000 * 4096
  settled : m.pendingRecords = [] → TxnLog.Settled mark recs
  coherent : ∀ es : List (Edit ℤ), es.map Edit.shape = batchShapes m.pendingRecords →
    replay (-1) es (recoveredBefore recs).logicalToPhysical = puts (-1) es m.logicalToPhysical ∧
      ((replay (-1) es (recoveredBefore recs).logicalToPhysical).length : ℤ) =
        ceilBlocks m.logicalSize

/-- A mapper that was just initialised on a log with no uncommitted tail is live. -/
lemma live_opened {s : σ} {recs : List RecoveredRecord} (hv : Valid s)
    (hal : (bytes s).length % 4105 = 0) (h : records (bytes s) = .ok recs)
    (hset : TxnLog.Settled mark recs) : Live (opened (recovered recs) s) recs := by
  have hcov := covered_recovered h
  constructor
  case toReady => exact ready_opened hv h
  case aligned => exact hal
  case records_eq => exact h
  case decodes => simp [opened]
  case size_nonneg => exact hcov.nonneg
  case size_upper => exact hcov.upper
  case settled => exact fun _ => hset
  case coherent =>
    intro es hes
    obtain rfl : es = [] := List.map_eq_nil_iff.mp hes
    rw [recoveredBefore_of_settled hset]
    exact ⟨rfl, hcov.length_eq.symm⟩

/-! ### `Write` -/

/-- The edits that records for consecutive blocks are: puts, which make the table long enough. -/
lemma replay_blockRecords {f : ℕ → UInt8} {b n : ℕ} {es : List (Edit ℤ)}
    (hes : es.map Edit.shape = batchShapes (blockRecords f b n)) :
    (∀ e ∈ es, e.isPut = true) ∧ ∀ v : List ℤ, (replay (-1) es v).length =
      if n = 0 then v.length else max v.length (b + n) := by
  induction n generalizing b es with
  | zero =>
    obtain rfl : es = [] := List.map_eq_nil_iff.mp hes
    exact ⟨by simp, fun v => rfl⟩
  | succ n ih =>
    have hcons : batchShapes (blockRecords f b (n + 1)) =
        .put b :: batchShapes (blockRecords f (b + 1) n) := by
      simp [batchShapes, blockRecords, PendingRecord.shapes_of_nonneg]
    rw [hcons] at hes
    obtain ⟨e, rest, rfl, he, hrest⟩ := List.map_eq_cons_iff.mp hes
    obtain ⟨ih1, ih2⟩ := ih hrest
    cases e with
    | resize m => simp [Edit.shape] at he
    | put i x =>
      obtain rfl : i = b := by simpa [Edit.shape] using he
      refine ⟨fun e he => ?_, fun v => ?_⟩
      · rcases List.mem_cons.mp he with rfl | he
        · rfl
        · exact ih1 e he
      · have hstep : replay (-1) (.put i x :: rest) v =
            replay (-1) rest (PageTable.put (-1) i x v) := rfl
        rw [hstep, ih2, length_put, if_neg n.succ_ne_zero]
        by_cases hn : n = 0
        · rw [if_pos hn, hn]
        · rw [if_neg hn, max_assoc]
          congr 1
          omega

/-- The records that `Write` buffers pass validation once they are written. -/
lemma decodes_blockRecords {f : ℕ → UInt8} {b n : ℕ} (h : b + n ≤ 1000000) :
    ∀ pr ∈ blockRecords f b n, pr.Decodes := by
  intro pr hpr
  obtain ⟨h0, h1⟩ := blockIndex_of_mem_blockRecords hpr
  exact ⟨by omega, by omega, fun hm => by omega⟩

/-- **`Write` keeps the invariant**, whether it succeeds or fails. -/
lemma Live.write {m : BlockMapper σ} {recs : List RecoveredRecord} (h : Live m recs)
    (buf : List UInt8) (off : ℤ) : Live (m.write buf off).2 recs := by
  rcases write_cases h.initialized buf off with ⟨hsame, -⟩ | ⟨o, rfl, hpos, hrange⟩
  · rwa [hsame]
  · obtain ⟨s, hw, hb, hv⟩ := write_spec h.initialized h.valid h.sound hpos hrange
    have hready := (h.toReady.write buf o).1
    rw [hw] at hready ⊢
    have hsize := h.size_upper
    have hnonneg := h.size_nonneg
    constructor
    case toReady => exact hready
    case aligned => exact hb ▸ h.aligned
    case records_eq => exact hb ▸ h.records_eq
    case decodes =>
      intro pr hpr
      rcases List.mem_append.mp hpr with hpr | hpr
      · exact h.decodes pr hpr
      · exact decodes_blockRecords (by omega) pr hpr
    case size_nonneg => dsimp only; omega
    case size_upper => dsimp only; omega
    case settled =>
      intro hnil
      simp [blockRecords] at hnil
    case coherent =>
      intro es hes
      rw [batchShapes, List.flatMap_append, ← batchShapes, ← batchShapes] at hes
      obtain ⟨es₁, es₂, rfl, hes₁, hes₂⟩ := List.map_eq_append_iff.mp hes
      obtain ⟨hput, hlen⟩ := replay_blockRecords hes₂
      obtain ⟨hco, hcolen⟩ := h.coherent es₁ hes₁
      rw [replay_append, puts_append, ← hco, puts_of_isPut (-1) hput]
      refine ⟨rfl, ?_⟩
      rw [hlen, if_neg (by omega)]
      unfold ceilBlocks at hcolen ⊢
      dsimp only
      omega

/-! ### `Truncate` -/

/-- The shapes of the records that a cut leaves. -/
lemma batchShapes_cut (P : List PendingRecord) {tr : PendingRecord} (htr : tr.blockIndex = -1)
    {newSize : ℤ} (hnew : tr.newSize = newSize) (h0 : 0 ≤ newSize) {c : ℕ}
    (hc : ceilBlocks newSize = c) :
    batchShapes ((P ++ [tr]).filter fun r => ¬ r.blockIndex ≥ (c : ℤ)) =
      (batchShapes P).filter (Shape.below c) ++ [.resize c] := by
  have htail : batchShapes ([tr].filter fun r => ¬ r.blockIndex ≥ (c : ℤ)) = [.resize c] := by
    have hkeep : ¬ (-1 : ℤ) ≥ c := by omega
    rw [List.filter_singleton, htr]
    simp [hkeep, batchShapes, PendingRecord.shapes_of_newSize htr hnew h0 hc]
  have hhead : batchShapes (P.filter fun r => ¬ r.blockIndex ≥ (c : ℤ)) =
      (batchShapes P).filter (Shape.below c) := by
    induction P with
    | nil => rfl
    | cons pr rest ih =>
      rw [List.filter_cons]
      simp only [batchShapes, List.flatMap_cons, List.filter_append] at ih ⊢
      rw [← ih]
      by_cases hidx : pr.blockIndex ≥ 0
      · have hsh := PendingRecord.shapes_of_nonneg hidx
        have hbelow : Shape.below c (.put pr.blockIndex.toNat) =
            decide (¬ pr.blockIndex ≥ (c : ℤ)) := by
          rw [Shape.below, decide_eq_decide]
          omega
        by_cases hlt : ¬ pr.blockIndex ≥ (c : ℤ)
        · rw [if_pos (by simpa using hlt), List.flatMap_cons, hsh,
            List.filter_cons_of_pos (by rw [hbelow]; simpa using hlt), List.filter_nil]
        · rw [if_neg (by simpa using hlt), hsh,
            List.filter_cons_of_neg (by rw [hbelow]; simpa using hlt), List.filter_nil,
            List.nil_append]
      · have hkeep : ¬ pr.blockIndex ≥ (c : ℤ) := by omega
        have hsh : pr.shapes.filter (Shape.below c) = pr.shapes := by
          unfold PendingRecord.shapes RecoveredRecord.edit PendingRecord.recovered
          rw [if_neg hidx]
          split_ifs <;> rfl
        rw [hsh, if_pos (by simpa using hkeep), List.flatMap_cons]
  rw [List.filter_append, batchShapes, List.flatMap_append, ← batchShapes, ← batchShapes, hhead,
    htail]

/-- **`Truncate` keeps the invariant**, whether it succeeds or fails. -/
lemma Live.truncate (hp : MetadataProto.RoundTrips) {m : BlockMapper σ}
    {recs : List RecoveredRecord} (h : Live m recs) (newSize : ℤ) :
    Live (m.truncate newSize).2 recs := by
  rcases truncate_cases h.initialized newSize with ⟨e, he⟩ | ⟨h0, h1, serialized, hs, hl, ht⟩
  · rwa [he]
  · have hready := (h.toReady.truncate newSize).1
    rw [ht] at hready ⊢
    obtain ⟨c, hc⟩ : ∃ c : ℕ, ceilBlocks newSize = c :=
      ⟨(ceilBlocks newSize).toNat, by unfold ceilBlocks; omega⟩
    constructor
    case toReady => exact hready
    case aligned => exact h.aligned
    case records_eq => exact h.records_eq
    case decodes =>
      intro pr hpr
      rcases List.mem_append.mp (List.mem_filter.mp hpr).1 with hpr | hpr
      · exact h.decodes pr hpr
      · obtain rfl := List.mem_singleton.mp hpr
        exact decodes_truncateRecord hp h0 h1 hs hl
    case size_nonneg => exact h0
    case size_upper => exact h1
    case settled =>
      intro hnil
      have hmem : truncateRecord serialized ∈ (m.truncated newSize serialized).pendingRecords := by
        refine List.mem_filter.mpr ⟨List.mem_append_right _ List.mem_cons_self, ?_⟩
        rw [hc]
        simp only [truncateRecord, ge_iff_le, not_le, decide_eq_true_eq]
        omega
      rw [hnil] at hmem
      cases hmem
    case coherent =>
      intro es hes
      rw [truncated, hc, batchShapes_cut m.pendingRecords rfl
        (newSize_truncateRecord hp h0 h1 hs hl) h0 hc] at hes
      obtain ⟨es₁, rfl, hes₁⟩ := exists_append_resize hes
      obtain ⟨es', hes', rfl⟩ := exists_prune (-1 : ℤ) hes₁
      obtain ⟨hco, -⟩ := h.coherent es' hes'
      have htable : (m.truncated newSize serialized).logicalToPhysical =
          PageTable.resize (-1) c m.logicalToPhysical := by
        rw [truncated, hc]
        rfl
      rw [htable, replay_append_resize, puts_append_resize, resize_replay_prune,
        resize_puts_prune, hco]
      refine ⟨rfl, ?_⟩
      rw [length_resize]
      exact hc.symm

/-! ### `Sync` -/

/-- The state after the first `k` records of the buffered batch are in the log is live, as long
as the batch stays buffered until all of it is. -/
lemma Live.synced {m : BlockMapper σ} {recs : List RecoveredRecord} (h : Live m recs) {k : ℕ}
    {s : σ} (hv : Valid s)
    (hb : bytes s = bytes m.storage ++ ((encodeBatch m.pendingRecords).take k).flatten)
    {P : List PendingRecord}
    (hP : P = m.pendingRecords ∧ m.pendingRecords ≠ [] ∨ P = [] ∧ k = m.pendingRecords.length ∧
      m.pendingRecords ≠ []) :
    Live { m with
        storage := s
        pendingRecords := P
        logicalToPhysical :=
          puts (-1) (edits ((batchRecords (bytes m.storage).length m.pendingRecords).take k))
            m.logicalToPhysical }
      (recs ++ (batchRecords (bytes m.storage).length m.pendingRecords).take k) := by
  have hbufs : ∀ buf ∈ (encodeBatch m.pendingRecords).take k, buf.length = 4105 :=
    fun buf hbuf => length_of_mem_encodeBatch buf (List.mem_of_mem_take hbuf)
  have hal := h.aligned
  have hshapes := shapes_batchRecords m.pendingRecords (bytes m.storage).length
  have hsize := h.size_nonneg
  constructor
  case toReady =>
    refine ⟨h.initialized, hv, ?_⟩
    dsimp only
    rw [hb]
    exact h.sound.puts_batch m.pendingRecords k
  case aligned =>
    dsimp only
    rw [hb, List.length_append, length_flatten_of_forall hbufs]
    omega
  case records_eq =>
    dsimp only
    rw [hb]
    exact records_append hal hbufs h.records_eq (parseLog_encodeBatch h.decodes _ k)
  case decodes =>
    rcases hP with ⟨rfl, -⟩ | ⟨rfl, -⟩
    · exact h.decodes
    · simp
  case size_nonneg => exact h.size_nonneg
  case size_upper => exact h.size_upper
  case settled =>
    intro hnil
    rcases hP with ⟨rfl, hne⟩ | ⟨-, rfl, hne⟩
    · exact absurd hnil hne
    · rw [List.take_of_length_le (by simp)]
      exact settled_batchRecords hne _ recs
  case coherent =>
    intro es hes
    dsimp only at hes ⊢
    rw [recoveredBefore_append_batch, logicalToPhysical_applyAll]
    rcases hP with ⟨rfl, -⟩ | ⟨rfl, rfl, -⟩
    · -- the batch is still buffered, and contains the edits that are in the log now
      have hsub : ∀ f ∈ edits ((batchRecords (bytes m.storage).length m.pendingRecords).take k),
          f.shape ∈ es.map Edit.shape := by
        intro f hf
        rw [hes, ← hshapes]
        refine List.mem_map_of_mem ?_
        obtain ⟨rec, hrec, hedit⟩ := List.mem_filterMap.mp hf
        exact List.mem_filterMap.mpr ⟨rec, List.mem_of_mem_take hrec, hedit⟩
      rw [replay_replay_of_shapes _ hsub, puts_puts_of_shapes _ hsub]
      exact h.coherent es hes
    · -- the whole batch is in the log
      obtain rfl : es = [] := List.map_eq_nil_iff.mp hes
      rw [List.take_of_length_le (by simp)]
      exact h.coherent _ hshapes

/-- **`Sync` keeps the invariant**, whether an append fails, the final sync fails, or nothing
does. If it succeeds, the whole batch is in the log. -/
lemma Live.sync {m : BlockMapper σ} {recs : List RecoveredRecord} (h : Live m recs) :
    ∃ recs', Live m.sync.2 recs' ∧ m.sync.2.logicalSize = m.logicalSize ∧
      (m.sync.1 = .ok () → m.sync.2.pendingRecords = [] ∧
        recs' = recs ++ batchRecords (bytes m.storage).length m.pendingRecords) := by
  have hstore : ∀ {m : BlockMapper σ} {recs : List RecoveredRecord}, Live m recs →
      Live m.syncStorage.2 recs := by
    intro m recs h
    obtain ⟨hb, hv⟩ := AtomicLog.sync_spec m.storage h.valid
    constructor
    case toReady => exact ⟨h.initialized, hv, hb ▸ h.sound⟩
    case aligned => exact hb ▸ h.aligned
    case records_eq => exact hb ▸ h.records_eq
    case decodes => exact h.decodes
    case size_nonneg => exact h.size_nonneg
    case size_upper => exact h.size_upper
    case settled => exact h.settled
    case coherent => exact h.coherent
  rcases sync_cases h.initialized h.valid with
    ⟨hnil, hsync⟩ | ⟨hne, k, s, hv, hb, ⟨hfull, hsync⟩ | ⟨e, hsync⟩⟩
  · rw [hsync]
    refine ⟨recs, hstore h, rfl, fun _ => ⟨hnil, ?_⟩⟩
    rw [hnil, batchRecords, List.append_nil]
  · rw [hsync]
    refine ⟨_, hstore (h.synced hv hb (Or.inr ⟨rfl, hfull, hne⟩)), rfl, fun _ => ⟨rfl, ?_⟩⟩
    rw [List.take_of_length_le (by simp [hfull])]
  · rw [hsync]
    refine ⟨_, h.synced hv hb (Or.inl ⟨rfl, hne⟩), rfl, fun hok => ?_⟩
    cases hok

/-- **Every call keeps the invariant.** -/
theorem Live.op (hp : MetadataProto.RoundTrips) {m : BlockMapper σ} {recs : List RecoveredRecord}
    (h : Live m recs) (op : Op) : ∃ recs', Live (op.run m).2 recs' := by
  cases op with
  | write buf off => exact ⟨recs, h.write buf off⟩
  | truncate newSize => exact ⟨recs, h.truncate hp newSize⟩
  | sync =>
    obtain ⟨recs', h', -⟩ := h.sync
    exact ⟨recs', h'⟩

/-- Every run keeps the invariant. -/
lemma Live.runOps (hp : MetadataProto.RoundTrips) {m : BlockMapper σ}
    {recs : List RecoveredRecord} (h : Live m recs) (ops : List Op) :
    ∃ recs', Live (SqliteGcs.runOps ops m) recs' := by
  induction ops generalizing m recs with
  | nil => exact ⟨recs, h⟩
  | cons op ops ih =>
    obtain ⟨recs', h'⟩ := h.op hp op
    exact ih h'

/-- **`Init` on the log of a live mapper** that buffers nothing succeeds, and recovers the live
block table and as many blocks. -/
lemma Live.recovered_eq {m : BlockMapper σ} {recs : List RecoveredRecord} (h : Live m recs)
    (hempty : m.pendingRecords = []) :
    ∃ s, init (new m.storage) = (.ok (), opened (recovered recs) s) ∧
      bytes s = bytes m.storage ∧ Valid s ∧
      (recovered recs).logicalToPhysical = m.logicalToPhysical ∧
      ceilBlocks (recovered recs).logicalSize = ceilBlocks m.logicalSize := by
  obtain ⟨s, hi, hb, hv⟩ := init_of_aligned h.valid h.aligned h.records_eq
  have hcov := covered_recovered h.records_eq
  obtain ⟨hco, hlen⟩ := h.coherent [] (by rw [hempty]; rfl)
  rw [recoveredBefore_of_settled (h.settled hempty)] at hco hlen
  exact ⟨s, hi, hb, hv, hco, by rw [hcov.length_eq, ← hlen]; rfl⟩

/-- The mapper after `Init` on a log with no uncommitted tail is live. -/
lemma live_init {s : σ} (hv : Valid s) (hinit : (init (new s)).1 = .ok ())
    (htail : (padded (bytes s)).getLast? ≠ some 2) :
    ∃ recs s', init (new s) = (.ok (), opened (recovered recs) s') ∧
      bytes s' = padded (bytes s) ∧ Live (opened (recovered recs) s') recs := by
  obtain ⟨recs, s', hrecs, hi, hb, hv'⟩ := records_of_init hv hinit
  have hal : (padded (bytes s)).length % 4105 = 0 := by
    rw [length_padded]
    omega
  exact ⟨recs, s', hi, hb, live_opened hv' (by rwa [hb]) (by rwa [hb])
    (settled_of_getLast hal hrecs htail)⟩

/-- An empty log recovers to the empty state. -/
lemma init_empty {s : σ} (hv : Valid s) (hs : bytes s = []) :
    ∃ s', init (new s) = (.ok (), opened Logical.empty s') ∧ bytes s' = [] ∧ Valid s' := by
  have hrecs : records (bytes s) = .ok [] := by
    rw [hs]
    rfl
  have hal : (bytes s).length % 4105 = 0 := by
    rw [hs]
    rfl
  obtain ⟨s', hi, hb, hv'⟩ := init_of_aligned hv hal hrecs
  exact ⟨s', hi, hb.trans hs, hv'⟩

/-- A `Sync` at the end of a run on a reliable log leaves nothing buffered. -/
lemma pendingRecords_runOps_concat_sync {τ : Type} [ReliableLog τ] {m : BlockMapper τ}
    (h : Ready m) (ops : List Op) :
    (runOps (ops ++ [.sync]) m).pendingRecords = [] := by
  obtain ⟨hready, -⟩ := h.runOps ops
  obtain ⟨s, hsync, -, -⟩ := sync_reliable hready.initialized hready.valid
  rw [runOps_concat_sync, hsync]

/-- **The live mapping is the recovered one.** Start a mapper on any log with no uncommitted tail
and run any calls on it, some of which may fail. Whenever nothing is buffered, `Init` on the same
storage succeeds, recovers the live block table, and recovers as many blocks.

**Proof sketch.** The mapper is live after `Init` (`live_init`), every call keeps it live
(`Live.op`), and a live mapper that buffers nothing agrees with its log (`Live.recovered_eq`). -/
theorem live_eq_recovered (hp : MetadataProto.RoundTrips) {s : σ} (hv : Valid s)
    (hinit : (init (new s)).1 = .ok ()) (htail : (padded (bytes s)).getLast? ≠ some 2)
    (ops : List Op) (hempty : (runOps ops (init (new s)).2).pendingRecords = []) :
    (init (new (runOps ops (init (new s)).2).storage)).1 = .ok () ∧
      (init (new (runOps ops (init (new s)).2).storage)).2.logicalToPhysical =
        (runOps ops (init (new s)).2).logicalToPhysical ∧
      ceilBlocks (init (new (runOps ops (init (new s)).2).storage)).2.logicalSize =
        ceilBlocks (runOps ops (init (new s)).2).logicalSize := by
  obtain ⟨recs, s', hi, -, hlive⟩ := live_init hv hinit htail
  rw [hi] at hempty ⊢
  obtain ⟨recs', hlive'⟩ := hlive.runOps hp ops
  obtain ⟨s'', hi', -, -, htable, hblocks⟩ := hlive'.recovered_eq hempty
  rw [hi']
  exact ⟨rfl, htable, hblocks⟩

end Invariant

/-- The live mapping is the recovered one after a write and a sync on an empty log. -/
theorem live_eq_recovered_write_sync :
    letI := wireProto
    (init (new (runOps [.write [1] 0, .sync] (init (new InMemoryStorage.new)).2).storage)).1 =
        .ok () ∧
      (init (new (runOps [.write [1] 0, .sync]
          (init (new InMemoryStorage.new)).2).storage)).2.logicalToPhysical =
        (runOps [.write [1] 0, .sync] (init (new InMemoryStorage.new)).2).logicalToPhysical ∧
      ceilBlocks (init (new (runOps [.write [1] 0, .sync]
          (init (new InMemoryStorage.new)).2).storage)).2.logicalSize =
        ceilBlocks (runOps [.write [1] 0, .sync]
          (init (new InMemoryStorage.new)).2).logicalSize := by
  let _ := wireProto
  have hv : Valid InMemoryStorage.new := rfl
  have hlast : (padded (bytes InMemoryStorage.new)).getLast? ≠ some 2 := by
    have hpad : padded (bytes InMemoryStorage.new) = [] := rfl
    rw [hpad]
    simp
  obtain ⟨s, hi, hb, hvs⟩ := init_empty hv rfl
  have hready : Ready (opened Logical.empty s) := ⟨rfl, hvs, by simp [Sound, opened, Logical.empty]⟩
  refine live_eq_recovered wireProto_roundTrips hv (by rw [hi]) hlast [.write [1] 0, .sync] ?_
  rw [hi]
  exact pendingRecords_runOps_concat_sync hready [.write [1] 0]

end SqliteGcs
