import Mathlib.Data.List.Forall2
import SqliteGcs.CleanClose
import SqliteGcs.Sessions

set_option relaxedAutoImplicit false
set_option autoImplicit false

/-!
# The lifetime of a database

A database lives through many openings. Each opens the log, makes calls, and ends: the process
closes the file or dies, in the middle of a `Sync` as well, and bytes that no successful `Sync`
covers may be lost. This file relates the whole lifetime of a log to the file of blocks that it
stands for: each opening amounts to a first part of its calls that no acknowledged `Sync` is
missing from, and the database is what these parts, one opening after the other, make of an empty
file.

The exception is an opening that finds the log ending with complete records of flag 2 (see
`unapplied_later_applied_iff`); the lifetimes of this file have none.

## Main definitions

* `SqliteGcs.BlockFile.Same` — two files have the same blocks.
* `SqliteGcs.BlockFile.after` — a file after calls.
* `SqliteGcs.Opening` — one opening of the database, and `SqliteGcs.Lifetime` — many.
* `SqliteGcs.Opening.Keeps` — which calls of an opening are kept.
* `SqliteGcs.StandsFor` — the file that a log stands for.

## Main results

* `SqliteGcs.kept_of_run` — what is kept of a run that is cut off at any byte.
* `SqliteGcs.lifetime_keeps_first_parts` — what is kept of a lifetime.
-/

namespace SqliteGcs

open Bytes PageTable BlockMapper Machine

/-! ## Files of blocks -/

namespace BlockFile

/-- The files have the same blocks and bytes, and their sizes the same number of blocks. -/
structure Same (f g : BlockFile) : Prop where
  blocks : ceilBlocks f.size = ceilBlocks g.size
  mapped : f.mapped = g.mapped
  byte : f.byte = g.byte

lemma Same.refl (f : BlockFile) : Same f f := ⟨rfl, rfl, rfl⟩

lemma Same.trans {f g h : BlockFile} (hfg : Same f g) (hgh : Same g h) : Same f h :=
  ⟨hfg.blocks.trans hgh.blocks, hfg.mapped.trans hgh.mapped, hfg.byte.trans hgh.byte⟩

/-- Writing does the same to files with the same blocks. -/
lemma Same.write {f g : BlockFile} (h : Same f g) (buf : List UInt8) (off : ℕ) :
    Same (f.write buf off) (g.write buf off) := by
  rw [BlockFile.write, BlockFile.write]
  split_ifs
  · exact h
  · refine ⟨?_, ?_, ?_⟩
    · have hblocks := h.blocks
      unfold ceilBlocks at hblocks ⊢
      dsimp only
      omega
    · funext b
      dsimp only
      rw [h.mapped]
    · dsimp only
      rw [h.byte]

/-- Cutting does the same to files with the same blocks. -/
lemma Same.truncate {f g : BlockFile} (h : Same f g) (n : ℤ) :
    Same (f.truncate n) (g.truncate n) := by
  refine ⟨rfl, ?_, ?_⟩
  · funext b
    show (f.mapped b && _) = (g.mapped b && _)
    rw [h.mapped]
  · funext i
    show (if _ then f.byte i else 0) = if _ then g.byte i else 0
    rw [h.byte]

variable [MetadataProto]

/-- The effect of a call on an open file. -/
def onFile (c : Call) (f : BlockFile) : BlockFile := ((step c (some f)).2).getD f

/-- A file after calls. -/
def after (calls : List Call) (f : BlockFile) : BlockFile := calls.foldl (fun f c => onFile c f) f

lemma after_append (calls calls' : List Call) (f : BlockFile) :
    after (calls ++ calls') f = after calls' (after calls f) := List.foldl_append ..

/-- An open file stays open. -/
lemma step_some (c : Call) (f : BlockFile) : (step c (some f)).2 = some (onFile c f) := by
  have hsome : ((step c (some f)).2).isSome = true := by
    cases c with
    | read n off => rfl
    | op op =>
      cases op with
      | write buf off =>
        rw [step, tryWrite]
        split_ifs <;> rfl
      | truncate n =>
        rw [step, tryTruncate]
        split_ifs
        · rfl
        · dsimp only
          cases MetadataProto.serializeToString n with
          | none => rfl
          | some serialized =>
            dsimp only
            split_ifs <;> rfl
      | sync => rfl
  obtain ⟨g, hg⟩ := Option.isSome_iff_exists.mp hsome
  rw [onFile, hg, Option.getD_some]

/-- A call does the same to files with the same blocks. -/
lemma Same.onFile {f g : BlockFile} (h : Same f g) (c : Call) :
    Same (BlockFile.onFile c f) (BlockFile.onFile c g) := by
  unfold BlockFile.onFile
  cases c with
  | read n off => exact h
  | op op =>
    cases op with
    | write buf off =>
      rw [step, step, tryWrite, tryWrite]
      split_ifs
      · exact h
      · exact h.write buf off.toNat
    | truncate n =>
      rw [step, step, tryTruncate, tryTruncate]
      split_ifs
      · exact h
      · dsimp only
        cases MetadataProto.serializeToString n with
        | none => exact h
        | some serialized =>
          dsimp only
          split_ifs
          · exact h
          · exact h.truncate n
    | sync => exact h

/-- Calls do the same to files with the same blocks. -/
lemma Same.after {f g : BlockFile} (h : Same f g) (calls : List Call) :
    Same (BlockFile.after calls f) (BlockFile.after calls g) := by
  induction calls generalizing f g with
  | nil => exact h
  | cons c calls ih => exact ih (h.onFile c)

end BlockFile

open BlockFile (Same)

/-- The file that a table stands for, over a log. -/
def Logical.file (l : Logical) (log : List UInt8) : BlockFile where
  size := l.logicalSize
  mapped b := decide (l.logicalToPhysical.getD b (-1) ≠ -1)
  byte := byteAt log l.logicalToPhysical []

/-- What is appended to the log does not change the file. -/
lemma Logical.file_append {l : Logical} {log : List UInt8} (h : Sound log l.logicalToPhysical)
    (more : List UInt8) [MetadataProto] : l.file (log ++ more) = l.file log := by
  refine BlockFile.ext rfl rfl (funext fun i => ?_)
  have hblock := blockBytes_batch_part h [] 0 more (i / 4096)
  show (blockBytes (log ++ more) l.logicalToPhysical [] (i / 4096)).getD _ 0 = _
  rw [show blockBytes (log ++ more) l.logicalToPhysical [] (i / 4096) =
    blockBytes log l.logicalToPhysical [] (i / 4096) from hblock]
  rfl

/-- A run that ends with a `Sync`. -/
lemma final_concat_sync {σ : Type} [AppendOnlyStorage σ] [MetadataProto] (calls : List Call)
    (m : BlockMapper σ) :
    final Call.run (calls ++ [.op .sync]) m = (final Call.run calls m).sync.2 :=
  final_append Call.run calls [.op .sync] m

/-- The last of some calls of a run is followed by a `Sync`, which is made in a state of a kind. -/
def SyncFollows {σ : Type} [AppendOnlyStorage σ] [MetadataProto] (P : BlockMapper σ → Prop)
    (m : BlockMapper σ) (calls pre : List Call) : Prop :=
  pre ++ [.op .sync] <+: calls ∧ P (final Call.run pre m)

section Openings

variable {σ : Type} [AtomicLog σ] [MetadataProto]

/-! ## Openings -/

/-- One opening of the database: the storage that is opened, the calls that return, and how many
bytes of the log are left when it ends, by which time a further `Sync` may have begun. -/
structure Opening (σ : Type) where
  /-- The storage. -/
  storage : σ
  /-- The calls that return. -/
  calls : List Call
  /-- The bytes that are left. -/
  left : ℕ

/-- The last of some calls of a run is followed by a `Sync` that returns OK. -/
def Acknowledged (m : BlockMapper σ) (calls pre : List Call) : Prop :=
  SyncFollows (fun m => m.sync.1 = .ok ()) m calls pre

namespace Opening

/-- The mapper after `Init`. -/
def mapper (o : Opening σ) : BlockMapper σ := (init (new o.storage)).2

/-- The log that an opening leaves. -/
def log (o : Opening σ) : List UInt8 :=
  (bytes (final Call.run o.calls o.mapper).sync.2.storage).take o.left

/-- What a crash may not take: the log that is opened, and what it was when a `Sync` returned OK. -/
structure Durable (o : Opening σ) : Prop where
  opened : (bytes o.storage).length ≤ o.left
  synced : ∀ pre, Acknowledged o.mapper o.calls pre →
    (bytes (final Call.run (pre ++ [.op .sync]) o.mapper).storage).length ≤ o.left

/-- The calls that are kept are first ones, and contain every `Sync` that returned OK. The `Sync`
that was cut off may be one of them. -/
structure Keeps (o : Opening σ) (kept : List Call) : Prop where
  first : kept <+: o.calls ++ [.op .sync]
  acknowledged : ∀ pre, Acknowledged o.mapper o.calls pre → pre ++ [.op .sync] <+: kept

end Opening

/-- The openings of a log that is empty at first, and the log that they leave. Each finds the log
of the one before, without a record of flag 2 at its end. -/
inductive Lifetime (σ : Type) [AtomicLog σ] : List (Opening σ) → List UInt8 → Prop
  | new : Lifetime σ [] []
  | next {os : List (Opening σ)} {log : List UInt8} {o : Opening σ} (h : Lifetime σ os log)
    (hv : Valid o.storage) (hlog : bytes o.storage = log)
    (htail : (padded log).getLast? ≠ some 2) (hdurable : o.Durable) :
    Lifetime σ (os ++ [o]) o.log

/-- The file that a log stands for: the one that it recovers to. -/
def StandsFor (log : List UInt8) (f : BlockFile) : Prop :=
  ∃ recs, records (padded log) = .ok recs ∧ Same ((recovered recs).file (padded log)) f

/-! ## What a mapper and its log stand for -/

/-- A call has its effect on the file of a mapper. -/
lemma Ready.file_call {m : BlockMapper σ} (h : Ready m) (c : Call) :
    (c.run m).2.file = BlockFile.onFile c m.file := by
  have hstep : Holds (c.run m).2 (some (BlockFile.onFile c m.file)) :=
    BlockFile.step_some c m.file ▸ ((Holds.ready h).step c).1
  exact hstep.file_eq.2

omit [MetadataProto] in
/-- The file of a mapper that buffers nothing is that of its table. -/
lemma file_of_synced {m : BlockMapper σ} (h : m.pendingRecords = []) :
    m.file = m.toLogical.file (bytes m.storage) := by
  refine BlockFile.ext rfl ?_ ?_
  · funext b
    rw [Bool.eq_iff_iff, file_mapped_eq_true, h]
    simp [Logical.file]
  · show SqliteGcs.byteAt (bytes m.storage) m.logicalToPhysical m.pendingRecords = _
    rw [h]
    rfl

/-- The log of a live mapper that buffers nothing stands for its file. -/
lemma Live.same_of_synced {m : BlockMapper σ} {recs : List RecoveredRecord} (h : Live m recs)
    (hempty : m.pendingRecords = []) :
    Same ((recovered recs).file (bytes m.storage)) m.file := by
  obtain ⟨-, -, -, -, htable, hsize⟩ := h.recovered_eq hempty
  rw [file_of_synced hempty]
  unfold Logical.file
  rw [htable]
  exact ⟨hsize, rfl, rfl⟩

/-- A log of whole records stands for the file that they recover to. -/
lemma standsFor_of_aligned {log : List UInt8} (hal : log.length % 4105 = 0)
    {recs : List RecoveredRecord} (h : records log = .ok recs) {f : BlockFile}
    (hf : Same ((recovered recs).file log) f) : StandsFor log f := by
  refine ⟨recs, ?_, ?_⟩ <;> rwa [padded_of_aligned hal]

/-! ## Runs of calls -/

/-- A call of a mapper that is not initialised does nothing. -/
lemma Call.run_new (c : Call) (s : σ) : (c.run (new s)).2 = new s := by
  cases c with
  | read n off =>
    show ((new s).read n off).2 = new s
    rw [BlockMapper.read, if_pos (not_initialized_new s)]
    split_ifs <;> rfl
  | op op => exact op.run_new s

/-- Calls of such a mapper do nothing. -/
lemma final_new (calls : List Call) (s : σ) : final Call.run calls (new s) = new s :=
  final_induction (I := fun m => m = new s) (fun c _ hm => hm ▸ c.run_new s) calls rfl

omit [MetadataProto] in
/-- `Read` leaves everything but the storage alone, and the log too. -/
lemma Ready.read {m : BlockMapper σ} (h : Ready m) (n : ℕ) (off : ℤ) :
    ∃ s, (m.read n off).2 = { m with storage := s } ∧ bytes s = bytes m.storage ∧ Valid s := by
  by_cases hor : outOfRange n off = true
  · rw [BlockMapper.read, if_pos hor]
    exact ⟨m.storage, rfl, rfl, h.valid⟩
  · obtain ⟨h0, h1⟩ := outOfRange_eq_false_iff.mp ((Bool.not_eq_true _).mp hor)
    obtain ⟨o, rfl⟩ : ∃ o : ℕ, off = o := ⟨off.toNat, by omega⟩
    obtain ⟨s, hr, hb, hv⟩ := read_spec h.initialized h.valid h.sound (n := n) (o := o) (by omega)
    exact ⟨s, congrArg Prod.snd hr, hb, hv⟩

omit [MetadataProto] in
lemma Ready.bytes_read {m : BlockMapper σ} (h : Ready m) (n : ℕ) (off : ℤ) :
    bytes (m.read n off).2.storage = bytes m.storage := by
  obtain ⟨s, hs, hb, -⟩ := h.read n off
  exact (congrArg (fun m => bytes m.storage) hs).trans hb

/-- Every call keeps a mapper ready, and the log only grows. -/
lemma Ready.call {m : BlockMapper σ} (h : Ready m) (c : Call) :
    Ready (c.run m).2 ∧ bytes m.storage <+: bytes (c.run m).2.storage := by
  cases c with
  | read n off =>
    exact ⟨(read_reply h n off).2.1, [],
      by rw [List.append_nil]; exact (h.bytes_read n off).symm⟩
  | op op => exact h.op op

/-- Every run keeps a mapper ready, and the log only grows. -/
lemma Ready.calls {m : BlockMapper σ} (h : Ready m) (calls : List Call) :
    Ready (final Call.run calls m) ∧
      bytes m.storage <+: bytes (final Call.run calls m).storage :=
  final_induction (I := fun m' => Ready m' ∧ bytes m.storage <+: bytes m'.storage)
    (fun c _ hm => ⟨(hm.1.call c).1, hm.2.trans (hm.1.call c).2⟩) calls ⟨h, List.prefix_rfl⟩

/-- `Read` keeps the invariant. -/
lemma Live.read {m : BlockMapper σ} {recs : List RecoveredRecord} (h : Live m recs) (n : ℕ)
    (off : ℤ) : Live (m.read n off).2 recs := by
  obtain ⟨s, hs, hb, hv⟩ := h.toReady.read n off
  rw [hs]
  exact ⟨⟨h.initialized, hv, hb ▸ h.sound⟩, hb ▸ h.aligned, hb ▸ h.records_eq, h.decodes,
    h.size_nonneg, h.size_upper, h.settled, h.coherent⟩

omit [AtomicLog σ] [MetadataProto] in
/-- The only call that is not visible is `Sync`. -/
lemma Call.eq_sync {c : Call} (hc : ¬ c.visible = true) : c = .op .sync := by
  cases c with
  | read n off => exact absurd rfl hc
  | op op =>
    cases op with
    | sync => rfl
    | _ => exact absurd rfl hc

/-- **A call other than `Sync`** keeps the invariant, and leaves the log alone. -/
lemma Live.quiet (hp : MetadataProto.RoundTrips) {m : BlockMapper σ} {recs : List RecoveredRecord}
    (h : Live m recs) {c : Call} (hc : c.visible = true) :
    Live (c.run m).2 recs ∧ bytes (c.run m).2.storage = bytes m.storage := by
  cases c with
  | read n off => exact ⟨h.read n off, h.toReady.bytes_read n off⟩
  | op op =>
    cases op with
    | write buf off => exact ⟨h.write buf off, (h.toReady.write buf off).2⟩
    | truncate size => exact ⟨h.truncate hp size, (h.toReady.truncate size).2⟩
    | sync => cases hc

/-! ## A `Sync` that is cut off -/

/-- The records of a batch that is not complete in the log are an open chain. -/
lemma allChain_take_batchRecords (P : List PendingRecord) (offset : ℤ) {k : ℕ}
    (hk : k < P.length) : TxnLog.AllChain mark ((batchRecords offset P).take k) := by
  induction P generalizing offset k with
  | nil => exact absurd hk (Nat.not_lt_zero k)
  | cons pr rest ih =>
    cases k with
    | zero => simp [TxnLog.AllChain]
    | succ k =>
      rw [List.length_cons] at hk
      have hrest : rest ≠ [] := by
        rw [← List.length_pos_iff]
        omega
      intro rec hrec
      rw [batchRecords, List.take_succ_cons] at hrec
      rcases List.mem_cons.mp hrec with rfl | hrec
      · rw [if_neg hrest]
        rfl
      · exact ih (offset + 4105) (by omega) rec hrec

/-- A batch that is not complete in the log does not count. -/
lemma recovered_incomplete (recs : List RecoveredRecord) (P : List PendingRecord) (offset : ℤ)
    {k : ℕ} (hk : k < P.length) :
    recovered (recs ++ (batchRecords offset P).take k) = recovered recs := by
  have hchain := allChain_take_batchRecords P offset hk
  rw [recovered, TxnLog.committed_append, TxnLog.carry_of_allChain mark hchain,
    TxnLog.committed_of_allChain mark hchain, List.append_nil, recovered]

/-- What `Sync` does to the log: it appends a first part of the batch, and if that is not the whole
batch then the batch stays buffered and the `Sync` fails. -/
lemma Ready.sync_log {m : BlockMapper σ} (h : Ready m) :
    ∃ k, bytes m.sync.2.storage =
        bytes m.storage ++ ((encodeBatch m.pendingRecords).take k).flatten ∧
      (k = m.pendingRecords.length ∧ m.sync.2.pendingRecords = [] ∨
        k < m.pendingRecords.length ∧ m.sync.2.pendingRecords = m.pendingRecords ∧
          m.sync.1 ≠ .ok ()) := by
  have hstore : ∀ {t : BlockMapper σ}, Valid t.storage →
      bytes t.syncStorage.2.storage = bytes t.storage :=
    fun {t} ht => (AtomicLog.sync_spec t.storage ht).1
  rw [BlockMapper.sync, if_neg (by rw [h.initialized]; decide)]
  by_cases hnil : m.pendingRecords = []
  · rw [if_pos hnil, hnil]
    exact ⟨0, by rw [hstore h.valid]; simp, Or.inl ⟨rfl, hnil⟩⟩
  rw [if_neg hnil]
  obtain ⟨k, s, -, hv, hb, hstate, hres⟩ := syncLoop_spec m.pendingRecords m h.valid
  generalize syncLoop m.pendingRecords m = p at hstate hres
  obtain ⟨r, m'⟩ := p
  dsimp only at hstate hres
  subst hstate
  refine ⟨k, ?_⟩
  rcases hres with ⟨rfl, hfull⟩ | ⟨⟨e, rfl⟩, hlt⟩
  · refine ⟨?_, Or.inl ⟨hfull, rfl⟩⟩
    dsimp only
    rw [hstore hv]
    exact hb
  · exact ⟨hb, Or.inr ⟨hlt, rfl, by simp⟩⟩

/-- The log of a live mapper with a first part of its batch behind it. -/
lemma Live.records_batch {m : BlockMapper σ} {recs : List RecoveredRecord} (h : Live m recs)
    (k : ℕ) :
    records (bytes m.storage ++ ((encodeBatch m.pendingRecords).take k).flatten) =
      .ok (recs ++ (batchRecords (bytes m.storage).length m.pendingRecords).take k) :=
  records_append h.aligned
    (fun buf hbuf => length_of_mem_encodeBatch buf (List.mem_of_mem_take hbuf)) h.records_eq
    (parseLog_encodeBatch h.decodes _ k)

omit [AtomicLog σ] in
/-- **A batch that is cut off counts for nothing**, wherever the cut is.

**Proof sketch.** The whole records of the batch in front of the cut are an open chain, and padding
turns the record that is cut, if there is one, into one that is not applied. -/
lemma recovered_cut {file : List UInt8} (hal : file.length % 4105 = 0)
    {recs : List RecoveredRecord} (hrecs : records file = .ok recs) {P : List PendingRecord}
    (hdec : ∀ pr ∈ P, pr.Decodes) {k n : ℕ} (hk : k ≤ P.length) (hn : file.length ≤ n)
    (hcut : k < P.length ∨ n < (file ++ ((encodeBatch P).take k).flatten).length) :
    ∃ recs', records (padded ((file ++ ((encodeBatch P).take k).flatten).take n)) = .ok recs' ∧
      recovered recs' = recovered recs := by
  have hlen : recs.length = file.length / 4105 := by
    rw [length_of_parseLog hrecs, length_chunks]
  have hbatch : (file ++ ((encodeBatch P).take k).flatten).length = file.length + 4105 * k := by
    rw [List.length_append, length_flatten_of_forall fun buf hbuf =>
      length_of_mem_encodeBatch buf (List.mem_of_mem_take hbuf), List.length_take,
      length_encodeBatch, min_eq_left hk]
  have hwhole := records_append hal
    (fun buf hbuf => length_of_mem_encodeBatch buf (List.mem_of_mem_take hbuf)) hrecs
    (parseLog_encodeBatch hdec file.length k)
  -- the whole records in front of the cut
  obtain ⟨j, hj, hrecs'⟩ : ∃ j < P.length,
      records ((file ++ ((encodeBatch P).take k).flatten).take n) =
        .ok (recs ++ (batchRecords file.length P).take j) := by
    rw [hbatch] at hcut
    by_cases hle : n ≤ file.length + 4105 * k
    · have htake := records_take hwhole (n := n) (by rw [hbatch]; exact hle)
      obtain ⟨j, hj⟩ : ∃ j, n / 4105 = recs.length + j := ⟨n / 4105 - recs.length, by omega⟩
      rw [hj, List.take_length_add_append, List.take_take, min_eq_left (by omega)] at htake
      exact ⟨j, by omega, htake⟩
    · refine ⟨k, by omega, ?_⟩
      rw [List.take_of_length_le (by rw [hbatch]; omega), hwhole]
  obtain ⟨torn, hpadded, htorn⟩ := records_padded hrecs'
  refine ⟨_, hpadded, ?_⟩
  rw [recovered_torn _ htorn, recovered_incomplete recs P _ hj]

omit [AtomicLog σ] [MetadataProto] in
/-- A log that is cut off behind a first part of it still starts with that part. -/
lemma exists_padded_take {file : List UInt8} (more : List UInt8) {n : ℕ} (hn : file.length ≤ n) :
    ∃ rest, padded ((file ++ more).take n) = file ++ rest := by
  obtain ⟨rest, hrest⟩ : file <+: padded ((file ++ more).take n) := by
    refine List.IsPrefix.trans ?_ (List.prefix_append _ _)
    exact List.prefix_take_iff.mpr ⟨List.prefix_append _ _, hn⟩
  exact ⟨rest, hrest.symm⟩

/-- A log with a batch behind it that is cut off stands for what it did. -/
lemma Live.standsFor_cut {m : BlockMapper σ} {recs : List RecoveredRecord} (h : Live m recs)
    {f : BlockFile} (hf : Same ((recovered recs).file (bytes m.storage)) f) {k n : ℕ}
    (hk : k ≤ m.pendingRecords.length) (hn : (bytes m.storage).length ≤ n)
    (hcut : n <
      (bytes m.storage ++ ((encodeBatch m.pendingRecords).take k).flatten).length) :
    StandsFor
      ((bytes m.storage ++ ((encodeBatch m.pendingRecords).take k).flatten).take n) f := by
  obtain ⟨recs', hrecs', hrecovered⟩ :=
    recovered_cut h.aligned h.records_eq h.decodes hk hn (Or.inr hcut)
  obtain ⟨rest, hrest⟩ := exists_padded_take ((encodeBatch m.pendingRecords).take k).flatten hn
  have hsound : Sound (bytes m.storage) (recovered recs).logicalToPhysical :=
    sound_committed h.records_eq false
  refine ⟨recs', hrecs', ?_⟩
  rw [hrecovered, hrest, Logical.file_append hsound]
  exact hf

/-- **A `Sync` and a cut behind the log before it**: the cut is in the batch, and the log stands for
what it did; or the `Sync` is complete, and the log stands for the file of the mapper; or the
`Sync` has failed, and the log stands for what it did. -/
lemma Live.sync_step {m : BlockMapper σ} {recs : List RecoveredRecord} (h : Live m recs)
    {f : BlockFile} (hf : Same ((recovered recs).file (bytes m.storage)) f) {n : ℕ}
    (hn : (bytes m.storage).length ≤ n) :
    n < (bytes m.sync.2.storage).length ∧ StandsFor ((bytes m.sync.2.storage).take n) f ∨
    (bytes m.sync.2.storage).length ≤ n ∧ ∃ recs' f', Live m.sync.2 recs' ∧
      Same ((recovered recs').file (bytes m.sync.2.storage)) f' ∧
      (f' = m.file ∨ f' = f ∧ m.sync.1 ≠ .ok ()) := by
  obtain ⟨k, hb, hcase⟩ := h.toReady.sync_log
  have hk : k ≤ m.pendingRecords.length := by
    rcases hcase with ⟨rfl, -⟩ | ⟨hlt, -⟩
    · exact le_rfl
    · exact hlt.le
  by_cases hcut : n < (bytes m.sync.2.storage).length
  · refine Or.inl ⟨hcut, ?_⟩
    rw [hb] at hcut ⊢
    exact h.standsFor_cut hf hk hn hcut
  refine Or.inr ⟨not_lt.mp hcut, ?_⟩
  obtain ⟨recs', hlive, -⟩ := h.sync
  rcases hcase with ⟨-, hempty⟩ | ⟨hlt, -, hfail⟩
  · refine ⟨recs', m.file, hlive, ?_, Or.inl rfl⟩
    rw [← file_sync h.toReady]
    exact hlive.same_of_synced hempty
  · obtain rfl :
        recs' = recs ++ (batchRecords (bytes m.storage).length m.pendingRecords).take k := by
      have hrecs := hlive.records_eq
      rw [hb, h.records_batch k] at hrecs
      exact (Except.ok.inj hrecs).symm
    refine ⟨_, f, hlive, ?_, Or.inr ⟨rfl, hfail⟩⟩
    have hsound : Sound (bytes m.storage) (recovered recs).logicalToPhysical :=
      sound_committed h.records_eq false
    rw [recovered_incomplete recs m.pendingRecords _ hlt, hb, Logical.file_append hsound]
    exact hf

/-! ## A run that is cut off -/

/-- The parts of a run that such a `Sync` follows are those of the run behind its first call, and
the empty one if that call is such a `Sync`. -/
lemma syncFollows_cons {P : BlockMapper σ → Prop} {m : BlockMapper σ} {c : Call}
    {calls pre : List Call} :
    SyncFollows P m (c :: calls) pre ↔
      pre = [] ∧ c = .op .sync ∧ P m ∨
        ∃ pre', pre = c :: pre' ∧ SyncFollows P (c.run m).2 calls pre' := by
  cases pre with
  | nil =>
    rw [SyncFollows, List.nil_append, List.cons_prefix_cons]
    constructor
    · rintro ⟨⟨rfl, -⟩, hok⟩
      exact Or.inl ⟨rfl, rfl, hok⟩
    · rintro (⟨-, rfl, hok⟩ | ⟨pre', hpre, -⟩)
      · exact ⟨⟨rfl, List.nil_prefix⟩, hok⟩
      · cases hpre
  | cons c' pre =>
    rw [SyncFollows, List.cons_append, List.cons_prefix_cons]
    constructor
    · rintro ⟨⟨rfl, hpre⟩, hok⟩
      exact Or.inr ⟨pre, rfl, hpre, hok⟩
    · rintro (⟨hpre, -⟩ | ⟨pre', hpre, hfollows⟩)
      · cases hpre
      · obtain ⟨rfl, rfl⟩ := List.cons.inj hpre
        exact ⟨⟨rfl, hfollows.1⟩, hfollows.2⟩

/-- The only `Sync` of a run follows the calls in front of it. -/
lemma SyncFollows.eq_of_one_sync {P : BlockMapper σ → Prop} {m : BlockMapper σ}
    {first rest pre : List Call} (h : SyncFollows P m (first ++ .op .sync :: rest) pre)
    (hfirst : Call.op .sync ∉ first) (hrest : Call.op .sync ∉ rest) : pre = first := by
  have hprefix := h.1
  clear h
  induction first generalizing pre with
  | nil =>
    cases pre with
    | nil => rfl
    | cons c pre =>
      obtain ⟨-, htail⟩ := List.cons_prefix_cons.mp hprefix
      exact absurd (htail.mem (List.mem_append_right _ List.mem_cons_self)) hrest
  | cons c first ih =>
    rw [List.mem_cons, not_or] at hfirst
    cases pre with
    | nil => exact absurd (List.cons_prefix_cons.mp hprefix).1 hfirst.1
    | cons c' pre =>
      obtain ⟨rfl, htail⟩ := List.cons_prefix_cons.mp hprefix
      rw [ih hfirst.2 htail]

/-- What is kept of a run that is cut off: nothing, and there was no `Sync` of the kind; or a first
part of the run that contains every such `Sync`. -/
def Kept (P : BlockMapper σ → Prop) (m : BlockMapper σ) (calls : List Call) (f : BlockFile)
    (log : List UInt8) : Prop :=
  StandsFor log f ∧ (∀ pre, ¬ SyncFollows P m calls pre) ∨
    ∃ kept, kept <+: calls ++ [.op .sync] ∧
      (∀ pre, SyncFollows P m calls pre → pre ++ [.op .sync] <+: kept) ∧
      StandsFor log (BlockFile.after kept m.file)

/-- What is kept of a run whose first call is not a `Sync` of the kind. -/
lemma Kept.cons {P : BlockMapper σ → Prop} {m : BlockMapper σ} (hm : Ready m) {c : Call}
    {calls : List Call} {f : BlockFile} {log : List UInt8} (h : Kept P (c.run m).2 calls f log)
    (hc : ¬ (c = .op .sync ∧ P m)) : Kept P m (c :: calls) f log := by
  rcases h with ⟨hlog, hnone⟩ | ⟨kept, hfirst, hall, hlog⟩
  · refine Or.inl ⟨hlog, fun pre hpre => ?_⟩
    rcases syncFollows_cons.mp hpre with ⟨-, hsync⟩ | ⟨pre', -, hpre'⟩
    · exact hc hsync
    · exact hnone pre' hpre'
  · refine Or.inr ⟨c :: kept, List.cons_prefix_cons.mpr ⟨rfl, hfirst⟩, fun pre hpre => ?_, ?_⟩
    · rcases syncFollows_cons.mp hpre with ⟨-, hsync⟩ | ⟨pre', rfl, hpre'⟩
      · exact absurd hsync hc
      · exact List.cons_prefix_cons.mpr ⟨rfl, hall pre' hpre'⟩
    · rw [hm.file_call c] at hlog
      exact hlog

/-- What is kept of a run that starts with a `Sync` which is complete in the log. -/
lemma Kept.cons_sync {P : BlockMapper σ → Prop} {m : BlockMapper σ} (hm : Ready m)
    {calls : List Call} {log : List UInt8} (h : Kept P m.sync.2 calls m.file log)
    (f : BlockFile) : Kept P m (.op .sync :: calls) f log := by
  refine Or.inr ?_
  rcases h with ⟨hlog, hnone⟩ | ⟨kept, hfirst, hall, hlog⟩
  · refine ⟨[.op .sync], List.cons_prefix_cons.mpr ⟨rfl, List.nil_prefix⟩, fun pre hpre => ?_, hlog⟩
    rcases syncFollows_cons.mp hpre with ⟨rfl, -⟩ | ⟨pre', -, hpre'⟩
    · exact List.prefix_rfl
    · exact absurd hpre' (hnone pre')
  · refine ⟨.op .sync :: kept, List.cons_prefix_cons.mpr ⟨rfl, hfirst⟩, fun pre hpre => ?_, ?_⟩
    · rcases syncFollows_cons.mp hpre with ⟨rfl, -⟩ | ⟨pre', rfl, hpre'⟩
      · exact List.cons_prefix_cons.mpr ⟨rfl, List.nil_prefix⟩
      · exact List.cons_prefix_cons.mpr ⟨rfl, hall pre' hpre'⟩
    · rw [file_sync hm] at hlog
      exact hlog

/-- **What is kept of a run that is cut off at any byte**, in a further `Sync` as well, if nothing
is cut off that was in the log when a `Sync` of some kind had returned OK.

**Proof sketch.** Induction on the calls, with the file that the log stands for as the invariant:
it is the one of the last `Sync` whose whole batch is in the log. Only a `Sync` changes the log
(`Live.sync_step`); if the cut is in its batch then no `Sync` of the kind is behind it. -/
theorem kept_of_run (hp : MetadataProto.RoundTrips) {P : BlockMapper σ → Prop}
    (hP : ∀ m, P m → m.sync.1 = .ok ()) {m : BlockMapper σ}
    {recs : List RecoveredRecord} (h : Live m recs) {f : BlockFile}
    (hf : Same ((recovered recs).file (bytes m.storage)) f) (calls : List Call) {n : ℕ}
    (hn : (bytes m.storage).length ≤ n)
    (hsynced : ∀ pre, SyncFollows P m calls pre →
      (bytes (final Call.run (pre ++ [.op .sync]) m).storage).length ≤ n) :
    Kept P m calls f ((bytes (final Call.run calls m).sync.2.storage).take n) := by
  induction calls generalizing m recs f with
  | nil =>
    have hnone : ∀ pre, ¬ SyncFollows P m [] pre := fun pre hpre => by
      have := hpre.1.length_le
      simp at this
    rcases h.sync_step hf hn with ⟨-, hlog⟩ | ⟨hle, recs', f', hlive, hf', hcase⟩
    · exact Or.inl ⟨hlog, hnone⟩
    · have hlog : StandsFor ((bytes m.sync.2.storage).take n) f' := by
        rw [List.take_of_length_le hle]
        exact standsFor_of_aligned hlive.aligned hlive.records_eq hf'
      rcases hcase with rfl | ⟨rfl, -⟩
      · exact Or.inr ⟨[.op .sync], List.prefix_rfl, fun pre hpre => absurd hpre (hnone pre), hlog⟩
      · exact Or.inl ⟨hlog, hnone⟩
  | cons c calls ih =>
    have hlater : ∀ pre, SyncFollows P (c.run m).2 calls pre →
        (bytes (final Call.run (pre ++ [.op .sync]) (c.run m).2).storage).length ≤ n :=
      fun pre hpre => hsynced (c :: pre) (syncFollows_cons.mpr (Or.inr ⟨pre, rfl, hpre⟩))
    by_cases hc : c.visible = true
    · obtain ⟨hlive, hb⟩ := h.quiet hp hc
      have hrest := ih hlive (by rw [hb]; exact hf) (by rw [hb]; exact hn) hlater
      exact Kept.cons h.toReady hrest fun hsync => by rw [hsync.1] at hc; cases hc
    obtain rfl := Call.eq_sync hc
    rcases h.sync_step hf hn with ⟨hlt, hlog⟩ | ⟨hle, recs', f', hlive, hf', hcase⟩
    · -- the cut is in the batch of this `Sync`
      have hready := h.toReady.sync.1
      have hgrow : ∀ (calls : List Call), bytes m.sync.2.storage <+:
          bytes (final Call.run calls m.sync.2).storage := fun calls => (hready.calls calls).2
      obtain ⟨more, hmore⟩ : bytes m.sync.2.storage <+:
          bytes (final Call.run calls m.sync.2).sync.2.storage :=
        (hgrow calls).trans (hready.calls calls).1.sync.2
      have htake : (bytes (final Call.run calls m.sync.2).sync.2.storage).take n =
          (bytes m.sync.2.storage).take n := by
        rw [← hmore, List.take_append_of_le_length hlt.le]
      refine Or.inl ⟨?_, fun pre hpre => ?_⟩
      · show StandsFor ((bytes (final Call.run calls m.sync.2).sync.2.storage).take n) f
        rw [htake]
        exact hlog
      · have hle := hsynced pre hpre
        rcases syncFollows_cons.mp hpre with ⟨rfl, -⟩ | ⟨pre', rfl, -⟩
        · exact absurd hle (not_le.mpr hlt)
        · have hlong := (hgrow (pre' ++ [.op .sync])).length_le
          exact absurd (hlong.trans hle) (not_le.mpr hlt)
    · have hrest := ih hlive hf' hle hlater
      rcases hcase with rfl | ⟨rfl, hfail⟩
      · exact Kept.cons_sync h.toReady hrest f
      · exact Kept.cons h.toReady hrest fun hsync => hfail (hP m hsync.2)

/-! ## Lifetimes -/

omit [AtomicLog σ] in
/-- A log also stands for a file with the same blocks. -/
lemma StandsFor.of_same {log : List UInt8} {f g : BlockFile} (h : StandsFor log f)
    (hfg : Same f g) : StandsFor log g := by
  obtain ⟨recs, hrecs, hf⟩ := h
  exact ⟨recs, hrecs, hf.trans hfg⟩

omit [AtomicLog σ] in
/-- What a log stands for depends on the padded log only. -/
lemma StandsFor.of_padded {log log' : List UInt8} {f : BlockFile} (h : StandsFor log f)
    (heq : padded log' = padded log) : StandsFor log' f := by
  unfold StandsFor at h ⊢
  rwa [heq]

omit [AtomicLog σ] [MetadataProto] in
/-- A log whose padding is cut off is padded again. -/
lemma padded_take {log : List UInt8} {n : ℕ} (hn : log.length ≤ n) :
    padded ((padded log).take n) = padded log := by
  by_cases hle : (padded log).length ≤ n
  · rw [List.take_of_length_le hle, padded_padded]
  rw [length_padded] at hle
  have htake : (padded log).take n = log ++ List.replicate (n - log.length) 0 := by
    rw [padded, List.take_append, List.take_of_length_le hn, List.take_replicate,
      min_eq_left (by omega)]
  rw [htake, padded, padded, List.length_append, List.length_replicate, List.append_assoc,
    List.replicate_append_replicate]
  congr 2
  omega

/-- `Init` on a log that can be read and padded gives the file that the log recovers to. -/
lemma ready_of_records {s : σ} {recs : List RecoveredRecord}
    (h : records (padded (bytes s)) = .ok recs) (hv : Valid s)
    (hpad : ∃ P, (padStorage s).1 = .ok P) :
    ∃ m, init (new s) = (.ok (), m) ∧ Ready m ∧
      m.file = (recovered recs).file (padded (bytes s)) := by
  obtain ⟨s', hi, hb, hv'⟩ := init_of_records hv hpad h
  refine ⟨opened (recovered recs) s', hi, ready_opened hv' (by rw [hb]; exact h), ?_⟩
  rw [file_of_synced rfl, show bytes (opened (recovered recs) s').storage = _ from hb]
  rfl

/-- `Init` on a log that stands for a file, and the file that is read. -/
lemma StandsFor.init {s : σ} {f : BlockFile} (h : StandsFor (bytes s) f) (hv : Valid s)
    (hpad : ∃ P, (padStorage s).1 = .ok P) :
    (BlockMapper.init (new s)).1 = .ok () ∧ Same (BlockMapper.init (new s)).2.file f ∧
      ∀ (n : ℕ) (off : ℤ), outOfRange n off = false →
        ((BlockMapper.init (new s)).2.read n off).1 = .ok (window f.byte off.toNat n) := by
  obtain ⟨recs, hrecs, hf⟩ := h
  obtain ⟨m, hi, hready, hfile⟩ := ready_of_records hrecs hv hpad
  have hsame : Same m.file f := hfile ▸ hf
  rw [hi]
  refine ⟨rfl, hsame, fun n off hrange => ?_⟩
  rw [(read_reply hready n off).1, hrange, if_neg Bool.false_ne_true, hsame.byte]

/-- **What is kept of a run on a log that is opened**, and cut off at any byte behind what it
held. -/
lemma kept_of_init (hp : MetadataProto.RoundTrips) {P : BlockMapper σ → Prop}
    (hP : ∀ m, P m → m.sync.1 = .ok ()) {s : σ} (hv : Valid s) {f : BlockFile}
    (h : StandsFor (bytes s) f) (htail : (padded (bytes s)).getLast? ≠ some 2) {m : BlockMapper σ}
    (hm : m = (init (new s)).2) (calls : List Call) {n : ℕ} (hopened : (bytes s).length ≤ n)
    (hsynced : ∀ pre, SyncFollows P m calls pre →
      (bytes (final Call.run (pre ++ [.op .sync]) m).storage).length ≤ n) :
    ∃ kept, kept <+: calls ++ [.op .sync] ∧
      (∀ pre, SyncFollows P m calls pre → pre ++ [.op .sync] <+: kept) ∧
      StandsFor ((bytes (final Call.run calls m).sync.2.storage).take n)
        (BlockFile.after kept f) := by
  have hnothing : (∀ pre, ¬ SyncFollows P m calls pre) →
      StandsFor ((bytes (final Call.run calls m).sync.2.storage).take n) f →
      ∃ kept, kept <+: calls ++ [.op .sync] ∧
        (∀ pre, SyncFollows P m calls pre → pre ++ [.op .sync] <+: kept) ∧
        StandsFor ((bytes (final Call.run calls m).sync.2.storage).take n)
          (BlockFile.after kept f) :=
    fun hnone hlog => ⟨[], List.nil_prefix, fun pre hpre => absurd hpre (hnone pre), hlog⟩
  by_cases hinit : (init (new s)).1 = .ok ()
  · obtain ⟨recs, s', hi, hb, hlive⟩ := live_init hv hinit htail
    obtain rfl : m = opened (recovered recs) s' := hm.trans (congrArg Prod.snd hi)
    have hsame : Same (opened (recovered recs) s').file f := by
      obtain ⟨recs', hrecs', hf⟩ := h
      rw [← hb] at hrecs' hf
      obtain rfl : recs = recs' := Except.ok.inj (hlive.records_eq.symm.trans hrecs')
      rw [file_of_synced rfl]
      exact hf
    have hstored : (bytes (opened (recovered recs) s').storage) = padded (bytes s) := hb
    by_cases hpadding : (padded (bytes s)).length ≤ n
    · rcases kept_of_run hp hP hlive (hlive.same_of_synced rfl) calls
        (by rw [hstored]; exact hpadding) hsynced with
        ⟨hlog, hnone⟩ | ⟨kept, hfirst, hall, hlog⟩
      · exact hnothing hnone (hlog.of_same hsame)
      · exact ⟨kept, hfirst, hall, hlog.of_same (hsame.after kept)⟩
    · -- the padding is cut off, and nothing behind it is left
      have hready := hlive.toReady
      obtain ⟨hready', hgrow⟩ := hready.calls calls
      obtain ⟨more, hmore⟩ := hgrow.trans hready'.sync.2
      refine hnothing (fun pre hpre => ?_) (h.of_padded ?_)
      · have hlong := (hready.calls (pre ++ [.op .sync])).2.length_le
        rw [hstored] at hlong
        exact hpadding (hlong.trans (hsynced pre hpre))
      · rw [← hmore, hstored, List.take_append_of_le_length (by omega), padded_take hopened]
  · -- the mapper is not initialized
    obtain ⟨s', hnew, -, hb⟩ := new_of_init hv hinit
    obtain rfl : m = new s' := hm.trans hnew
    refine hnothing (fun pre hpre => ?_) (h.of_padded ?_)
    · have hok := hP _ hpre.2
      rw [final_new] at hok
      cases hok
    · have hsync : (new s').sync.2 = new s' := Op.run_new .sync s'
      rw [final_new, hsync]
      show padded ((bytes s').take n) = _
      rcases hb with hb | hb
      · rw [hb, List.take_of_length_le hopened]
      · rw [hb, padded_take hopened]

/-- **What is kept of one opening.** -/
lemma Opening.keeps_first_part (hp : MetadataProto.RoundTrips) {o : Opening σ}
    (hv : Valid o.storage) {f : BlockFile} (h : StandsFor (bytes o.storage) f)
    (htail : (padded (bytes o.storage)).getLast? ≠ some 2) (hdurable : o.Durable) :
    ∃ kept, o.Keeps kept ∧ StandsFor o.log (BlockFile.after kept f) := by
  obtain ⟨kept, hfirst, hall, hlog⟩ := kept_of_init hp (fun _ => id) hv h htail
    (rfl : o.mapper = _) o.calls hdurable.opened hdurable.synced
  exact ⟨kept, ⟨hfirst, hall⟩, hlog⟩

/-- A log of nothing stands for an empty file. -/
lemma standsFor_nil : StandsFor [] .empty := by
  refine ⟨[], rfl, ?_, ?_, ?_⟩
  · rfl
  · funext b
    simp [Logical.file, recovered, TxnLog.committed, Logical.applyAll, Logical.empty]
    rfl
  · funext i
    exact List.getD_replicate _ (Nat.mod_lt i (by decide))

/-- **The log of a lifetime** stands for the file that the parts that are kept make of an empty
one. -/
lemma Lifetime.standsFor (hp : MetadataProto.RoundTrips) {os : List (Opening σ)}
    {log : List UInt8} (h : Lifetime σ os log) :
    ∃ kept : List (List Call), List.Forall₂ Opening.Keeps os kept ∧
      StandsFor log (BlockFile.after kept.flatten .empty) := by
  induction h with
  | new => exact ⟨[], .nil, standsFor_nil⟩
  | @next os log o h hv hlog htail hdurable ih =>
    obtain ⟨kept, hkeeps, hrep⟩ := ih
    subst hlog
    obtain ⟨last, hlast, hrep'⟩ := Opening.keeps_first_part hp hv hrep htail hdurable
    refine ⟨kept ++ [last], List.rel_append hkeeps (.cons hlast .nil), ?_⟩
    rw [List.flatten_append, BlockFile.after_append, List.flatten_singleton]
    exact hrep'

end Openings

/-- An opening of a new log: it writes a block and syncs, and is cut off 100 bytes into the `Sync`
of a second block. -/
def tornOpening : Opening InMemoryStorage where
  storage := .ofBytes []
  calls := [.op (.write [1, 2, 3] 0), .op .sync, .op (.write [4] 4096), .read 3 4095]
  left := 4205

/-- The opening behind `tornOpening`: it truncates the file, and is closed without a `Sync`. -/
def nextOpening [MetadataProto] : Opening InMemoryStorage where
  storage := .ofBytes tornOpening.log
  calls := [.op (.truncate 0)]
  left := 8210

/-- The lifetime of `tornOpening` and `nextOpening`. -/
lemma lifetime_torn :
    letI := wireProto
    Lifetime InMemoryStorage [tornOpening, nextOpening] nextOpening.log := by
  let _ := wireProto
  have hfirst : Lifetime InMemoryStorage ([] ++ [tornOpening]) tornOpening.log := by
    refine .next .new (InMemoryStorage.valid_ofBytes []) rfl (by decide) ⟨Nat.zero_le _, ?_⟩
    intro pre hpre
    have hone : SyncFollows _ tornOpening.mapper
      ([.op (.write [1, 2, 3] 0)] ++ .op .sync :: [.op (.write [4] 4096), .read 3 4095]) pre :=
        hpre
    obtain rfl := hone.eq_of_one_sync (by simp) (by simp)
    decide +kernel
  refine .next hfirst (InMemoryStorage.valid_ofBytes _) (InMemoryStorage.bytes_ofBytes _) ?_
    ⟨?_, ?_⟩
  · decide +kernel
  · decide +kernel
  · intro pre hpre
    have hsync := hpre.1.mem (List.mem_append_right pre List.mem_cons_self)
    cases List.mem_singleton.mp hsync

end SqliteGcs
