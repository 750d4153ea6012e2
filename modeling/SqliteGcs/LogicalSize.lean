import SqliteGcs.Live

set_option relaxedAutoImplicit false
set_option autoImplicit false

/-!
# The logical size before and after recovery

The live size counts bytes: a `Write` raises it to the end of the written range and a `Truncate`
sets it. Recovery sees whole blocks: a block record raises the size to the end of its block, and
only a truncate record carries an exact size. This file proves what both sizes are after a run of
successful calls on an empty log, and when they are equal.

## Main definitions

* `SqliteGcs.runOk` — a run of calls that all succeed.
* `SqliteGcs.sizeStep` — the last truncation and the end of the writes after it.
* `SqliteGcs.ExactSize` — the condition for the size to survive recovery.

## Main results

* `SqliteGcs.Sized.op` — what both sizes are, call by call.
* `SqliteGcs.recovered_size_eq_iff` — the recovered size is the live one exactly under
  `ExactSize`.
* `SqliteGcs.recovered_size_of_one_byte` — a file of one byte is recovered as one of 4096.
-/

namespace SqliteGcs

open Bytes PageTable BlockMapper

/-- The state after calls that all have to succeed. -/
def runOk {σ : Type} [AppendOnlyStorage σ] [MetadataProto] :
    List Op → BlockMapper σ → Except Status (BlockMapper σ)
  | [], m => .ok m
  | op :: ops, m =>
    match op.run m with
    | (.error e, _) => .error e
    | (.ok _, m) => runOk ops m

/-! ## What the calls say about the size -/

/-- The size of the last `Truncate` and the largest end of a non-empty `Write` after it, each 0 if
there is none, after one more call. -/
def sizeStep : ℤ × ℤ → Op → ℤ × ℤ
  | (n, e), .write buf off => if buf = [] then (n, e) else (n, max e (off + buf.length))
  | _, .truncate newSize => (newSize, 0)
  | t, .sync => t

/-- The size of the last `Truncate` of a run, and the largest end of a `Write` after it. -/
def sizeTrace (ops : List Op) : ℤ × ℤ := ops.foldl sizeStep (0, 0)

/-- The size survives recovery: the writes after the last truncation end on a block boundary, or
their last block lies below the size that the truncation set. -/
def ExactSize (ops : List Op) : Prop :=
  (sizeTrace ops).2 % 4096 = 0 ∨ ceilBlocks (sizeTrace ops).2 * 4096 ≤ (sizeTrace ops).1

instance (ops : List Op) : Decidable (ExactSize ops) :=
  inferInstanceAs (Decidable (_ ∨ _))

section Sizes

variable [MetadataProto]

/-- The effect of a buffered record on the size when it is recovered. -/
def PendingRecord.sizeStep (size : ℤ) (pr : PendingRecord) : ℤ :=
  if pr.blockIndex ≥ 0 then max size ((pr.blockIndex + 1) * 4096)
  else if pr.blockIndex = -1 then if pr.newSize ≠ -1 then pr.newSize else size
  else size

/-- Recovering a record has its effect on the size. -/
lemma logicalSize_apply_recovered (l : Logical) (pr : PendingRecord) (offset : ℤ) (flag : UInt8) :
    (l.apply (pr.recovered offset flag)).logicalSize = pr.sizeStep l.logicalSize := by
  unfold Logical.apply PendingRecord.sizeStep PendingRecord.recovered
  split_ifs <;> rfl

/-- Recovering a batch has the effects of its records on the size. -/
lemma logicalSize_applyAll_batch (l : Logical) (P : List PendingRecord) (offset : ℤ) :
    (l.applyAll (batchRecords offset P)).logicalSize =
      P.foldl PendingRecord.sizeStep l.logicalSize := by
  induction P generalizing l offset with
  | nil => rfl
  | cons pr rest ih =>
    rw [batchRecords, List.foldl_cons,
      ← logicalSize_apply_recovered l pr offset (if rest = [] then 1 else 2)]
    exact ih _ _

/-- Records for consecutive blocks raise the size to the end of the last one. -/
lemma foldl_sizeStep_blockRecords (f : ℕ → UInt8) (b n : ℕ) (size : ℤ) :
    (blockRecords f b (n + 1)).foldl PendingRecord.sizeStep size =
      max size (((b + n : ℕ) + 1) * 4096) := by
  have hstep : ∀ (b : ℕ) (size : ℤ), PendingRecord.sizeStep size
      ⟨b, Block.ofList (window f (4096 * b) 4096)⟩ = max size ((b + 1) * 4096) := by
    intro b size
    rw [PendingRecord.sizeStep, if_pos (Int.natCast_nonneg b)]
  induction n generalizing b size with
  | zero =>
    rw [blockRecords, List.foldl_cons, hstep]
    rfl
  | succ n ih =>
    rw [blockRecords, List.foldl_cons, hstep, ih, max_assoc]
    congr 1
    push_cast
    omega

variable {σ : Type} [AtomicLog σ]

/-- **Both sizes of a live mapper** after calls with last truncation `n` and end of writes `e`:
the live size, and the size that the log and the buffered records recover to. -/
structure Sized (m : BlockMapper σ) (recs : List RecoveredRecord) (n e : ℤ) : Prop
    extends Live m recs where
  cut_nonneg : 0 ≤ n
  end_nonneg : 0 ≤ e
  size_eq : m.logicalSize = max n e
  recovered_size :
    m.pendingRecords.foldl PendingRecord.sizeStep (recoveredBefore recs).logicalSize =
    max n (ceilBlocks e * 4096)

/-- A mapper on an empty log. -/
lemma sized_empty {s : σ} (hv : Valid s) (hs : bytes s = []) :
    Sized (opened Logical.empty s) [] 0 0 where
  toLive := by
    have hrecs : records (bytes s) = .ok [] := by
      rw [hs]
      rfl
    exact live_opened hv (by rw [hs]; rfl) hrecs (by simp [TxnLog.Settled])
  cut_nonneg := le_rfl
  end_nonneg := le_rfl
  size_eq := rfl
  recovered_size := rfl

/-- A successful `Write` raises both sizes. -/
lemma Sized.write {m : BlockMapper σ} {recs : List RecoveredRecord} {n e : ℤ}
    (h : Sized m recs n e) {buf : List UInt8} {off : ℤ} (hok : (m.write buf off).1 = .ok ()) :
    Sized (m.write buf off).2 recs (sizeStep (n, e) (.write buf off)).1
      (sizeStep (n, e) (.write buf off)).2 := by
  obtain ⟨hlive, hn, he, hsize, hrec⟩ := h
  rcases write_cases hlive.initialized buf off with
    ⟨hsame, ⟨e', he'⟩ | rfl⟩ | ⟨o, rfl, hpos, hrange⟩
  · rw [he'] at hok
    cases hok
  · rw [hsame]
    exact ⟨hlive, hn, he, hsize, hrec⟩
  · obtain ⟨s, hw, -, -⟩ := write_spec hlive.initialized hlive.valid hlive.sound hpos hrange
    have hne : buf ≠ [] := List.length_pos_iff.mp hpos
    rw [sizeStep, if_neg hne]
    refine ⟨hlive.write buf o, hn, by dsimp only; omega, ?_, ?_⟩
    · rw [hw]
      dsimp only
      omega
    · rw [hw]
      dsimp only
      rw [List.foldl_append, hrec, foldl_sizeStep_blockRecords]
      unfold ceilBlocks
      omega

/-- A successful `Truncate` sets both sizes. -/
lemma Sized.truncate (hp : MetadataProto.RoundTrips) {m : BlockMapper σ}
    {recs : List RecoveredRecord} {n e : ℤ} (h : Sized m recs n e) {newSize : ℤ}
    (hok : (m.truncate newSize).1 = .ok ()) : Sized (m.truncate newSize).2 recs newSize 0 := by
  rcases truncate_cases h.initialized newSize with ⟨e', he'⟩ | ⟨h0, h1, serialized, hs, hl, ht⟩
  · rw [he'] at hok
    cases hok
  · refine ⟨h.toLive.truncate hp newSize, h0, le_rfl, ?_, ?_⟩
    · rw [ht]
      exact (max_eq_left h0).symm
    · have hkeep : ¬ (truncateRecord serialized).blockIndex ≥ ceilBlocks newSize := by
        unfold ceilBlocks truncateRecord
        dsimp only
        omega
      have hidx : (truncateRecord serialized).blockIndex = -1 := rfl
      have hlast : PendingRecord.sizeStep
          ((m.pendingRecords.filter fun r => ¬ r.blockIndex ≥ ceilBlocks newSize).foldl
            PendingRecord.sizeStep (recoveredBefore recs).logicalSize)
          (truncateRecord serialized) = newSize := by
        rw [PendingRecord.sizeStep, newSize_truncateRecord hp h0 h1 hs hl, hidx,
          if_neg (by omega), if_pos rfl, if_pos (by omega)]
      have hpending : (m.truncated newSize serialized).pendingRecords =
          (m.pendingRecords.filter fun r => ¬ r.blockIndex ≥ ceilBlocks newSize) ++
            [truncateRecord serialized] := by
        rw [truncated, List.filter_append, List.filter_cons_of_pos (by simpa using hkeep),
          List.filter_nil]
      have hzero : max newSize (ceilBlocks 0 * 4096) = newSize := max_eq_left h0
      rw [ht, hzero]
      dsimp only
      rw [hpending, List.foldl_append, List.foldl_cons, List.foldl_nil, hlast]

/-- A successful `Sync` changes neither size. -/
lemma Sized.sync {m : BlockMapper σ} {recs : List RecoveredRecord} {n e : ℤ}
    (h : Sized m recs n e) (hok : m.sync.1 = .ok ()) :
    ∃ recs', Sized m.sync.2 recs' n e ∧ m.sync.2.pendingRecords = [] := by
  obtain ⟨recs', hlive', hsame, hdone⟩ := h.toLive.sync
  obtain ⟨hempty, rfl⟩ := hdone hok
  have hbatch := recoveredBefore_append_batch recs m.pendingRecords (bytes m.storage).length
    m.pendingRecords.length
  rw [List.take_of_length_le (by simp)] at hbatch
  refine ⟨_, ⟨hlive', h.cut_nonneg, h.end_nonneg, hsame.trans h.size_eq, ?_⟩, hempty⟩
  rw [hempty, List.foldl_nil, hbatch, logicalSize_applyAll_batch, h.recovered_size]

/-- **What both sizes are, call by call.** -/
lemma Sized.op (hp : MetadataProto.RoundTrips) {m m' : BlockMapper σ}
    {recs : List RecoveredRecord} {n e : ℤ} (h : Sized m recs n e) {op : Op}
    (hop : op.run m = (.ok (), m')) :
    ∃ recs', Sized m' recs' (sizeStep (n, e) op).1 (sizeStep (n, e) op).2 := by
  obtain rfl : (op.run m).2 = m' := by rw [hop]
  have hok : (op.run m).1 = .ok () := by rw [hop]
  cases op with
  | write buf off => exact ⟨recs, h.write hok⟩
  | truncate newSize => exact ⟨recs, h.truncate hp hok⟩
  | sync =>
    obtain ⟨recs', h', -⟩ := h.sync hok
    exact ⟨recs', h'⟩

/-- What both sizes are after a run. -/
lemma Sized.runOk (hp : MetadataProto.RoundTrips) {m m' : BlockMapper σ}
    {recs : List RecoveredRecord} {t : ℤ × ℤ} (h : Sized m recs t.1 t.2) {ops : List Op}
    (hrun : SqliteGcs.runOk ops m = .ok m') :
    ∃ recs', Sized m' recs' (ops.foldl SqliteGcs.sizeStep t).1
      (ops.foldl SqliteGcs.sizeStep t).2 := by
  induction ops generalizing m recs t with
  | nil =>
    obtain rfl := Except.ok.inj hrun
    exact ⟨recs, h⟩
  | cons op ops ih =>
    rw [SqliteGcs.runOk] at hrun
    generalize hop : op.run m = p at hrun
    obtain ⟨r, m₁⟩ := p
    cases r with
    | error e => cases hrun
    | ok u =>
      obtain ⟨recs₁, h₁⟩ := h.op hp hop
      exact ih h₁ hrun

omit [AtomicLog σ] in
/-- A run that starts with a call that succeeds. -/
lemma runOk_cons [AppendOnlyStorage σ] {op : Op} {m m' : BlockMapper σ} {ops : List Op}
    (h : op.run m = (.ok (), m')) : SqliteGcs.runOk (op :: ops) m = SqliteGcs.runOk ops m' := by
  rw [SqliteGcs.runOk, h]

/-- A run of two parts. -/
lemma runOk_append {σ : Type} [AppendOnlyStorage σ] {m m' : BlockMapper σ} {ops ops' : List Op}
    (h : SqliteGcs.runOk (ops ++ ops') m = .ok m') :
    ∃ m₁, SqliteGcs.runOk ops m = .ok m₁ ∧ SqliteGcs.runOk ops' m₁ = .ok m' := by
  induction ops generalizing m with
  | nil => exact ⟨m, rfl, h⟩
  | cons op ops ih =>
    rw [List.cons_append, SqliteGcs.runOk] at h
    rw [SqliteGcs.runOk]
    generalize op.run m = p at h ⊢
    obtain ⟨r, m₁⟩ := p
    cases r with
    | error e => cases h
    | ok u => exact ih h

/-- **Both sizes after a run on an empty log** that ends with a successful `Sync`. -/
lemma sizes_of_runOk (hp : MetadataProto.RoundTrips) {s : σ} (hv : Valid s) (hs : bytes s = [])
    {ops : List Op} {m : BlockMapper σ}
    (hrun : runOk (ops ++ [.sync]) (init (new s)).2 = .ok m) :
    (init (new m.storage)).1 = .ok () ∧
      m.logicalSize = max (sizeTrace ops).1 (sizeTrace ops).2 ∧
      (init (new m.storage)).2.logicalSize =
        max (sizeTrace ops).1 (ceilBlocks (sizeTrace ops).2 * 4096) := by
  obtain ⟨s', hi, hb, hv'⟩ := init_empty hv hs
  rw [hi] at hrun
  obtain ⟨m₁, h₁, h₂⟩ := runOk_append hrun
  obtain ⟨recs, hsized⟩ := (sized_empty hv' hb).runOk hp (t := (0, 0)) h₁
  rw [runOk] at h₂
  generalize hop : Op.run .sync m₁ = p at h₂
  obtain ⟨r, m₂⟩ := p
  cases r with
  | error e => cases h₂
  | ok u =>
    obtain rfl : m₂ = m := Except.ok.inj h₂
    obtain rfl : m₁.sync.2 = m₂ := congrArg Prod.snd hop
    obtain ⟨recs', h', hempty⟩ := hsized.sync (congrArg Prod.fst hop)
    obtain ⟨s'', hi', -, -, -, -⟩ := h'.toLive.recovered_eq hempty
    have hrec := h'.recovered_size
    rw [hempty, List.foldl_nil, recoveredBefore_of_settled (h'.settled hempty)] at hrec
    rw [hi']
    exact ⟨rfl, h'.size_eq, hrec⟩

/-- On a reliable empty log, writing a byte at the start and syncing succeeds. -/
lemma runOk_write_byte {τ : Type} [ReliableLog τ] {s : τ} (hv : Valid s) (hs : bytes s = []) :
    ∃ m, runOk [.write [1] 0, .sync] (init (new s)).2 = .ok m := by
  obtain ⟨s', hi, hb, hv'⟩ := init_empty hv hs
  have hready : Ready (opened Logical.empty s') :=
    ⟨rfl, hv', by simp [Sound, opened, Logical.empty]⟩
  obtain ⟨s₁, hw, -, -⟩ := write_spec hready.initialized hready.valid hready.sound
    (by decide : 0 < ([1] : List UInt8).length) (o := 0) (by decide)
  have hready' := (hready.write [1] ((0 : ℕ) : ℤ)).1
  rw [hw] at hready'
  obtain ⟨s₂, hsync, -, -⟩ := sync_reliable hready'.initialized hready'.valid
  have hwrite : Op.run (.write [1] 0) (opened Logical.empty s') = (.ok (), _) := hw
  have hsync' : Op.run .sync _ = (.ok (), _) := hsync
  rw [hi]
  exact ⟨_, (runOk_cons hwrite).trans (runOk_cons hsync')⟩

/-- **When the logical size is durable.** After a run of successful calls on an empty log that
ends with a `Sync`, `Init` on the same storage succeeds, and recovers the live size exactly when
the writes after the last truncation end on a block boundary, or their last block lies below the
size that truncation set.

**Proof sketch.** The live size is the larger of the last truncation and the end of the writes
after it; recovery rounds the end of the writes up to whole blocks (`sizes_of_runOk`). -/
theorem recovered_size_eq_iff (hp : MetadataProto.RoundTrips) {s : σ} (hv : Valid s)
    (hs : bytes s = []) {ops : List Op} {m : BlockMapper σ}
    (hrun : runOk (ops ++ [.sync]) (init (new s)).2 = .ok m) :
    (init (new m.storage)).1 = .ok () ∧
      ((init (new m.storage)).2.logicalSize = m.logicalSize ↔ ExactSize ops) := by
  obtain ⟨hok, hlive, hrec⟩ := sizes_of_runOk hp hv hs hrun
  refine ⟨hok, ?_⟩
  rw [hlive, hrec, ExactSize]
  unfold ceilBlocks
  omega

end Sizes

/-- `recovered_size_eq_iff` for a file of one byte: the size survives exactly if 1 is the end of a
block. -/
theorem recovered_size_eq_iff_one_byte :
    letI := wireProto
    ∃ m, runOk ([.write [1] 0] ++ [.sync]) (init (new InMemoryStorage.new)).2 = .ok m ∧
      (init (new m.storage)).1 = .ok () ∧
      ((init (new m.storage)).2.logicalSize = m.logicalSize ↔ ExactSize [.write [1] 0]) := by
  have hv : Valid InMemoryStorage.new := rfl
  obtain ⟨m, hm⟩ := @runOk_write_byte wireProto InMemoryStorage _ _ hv rfl
  exact ⟨m, hm, @recovered_size_eq_iff wireProto InMemoryStorage _ wireProto_roundTrips _ hv rfl
    [.write [1] 0] m hm⟩

/-- **The size of a file of one byte is not durable**: after writing one byte and syncing, the
live size is 1, and `Init` recovers 4096. -/
theorem recovered_size_of_one_byte :
    letI := wireProto
    ∃ m, runOk ([.write [1] 0] ++ [.sync]) (init (new InMemoryStorage.new)).2 = .ok m ∧
      m.logicalSize = 1 ∧ (init (new m.storage)).1 = .ok () ∧
      (init (new m.storage)).2.logicalSize = 4096 := by
  have hv : Valid InMemoryStorage.new := rfl
  obtain ⟨m, hm⟩ := @runOk_write_byte wireProto InMemoryStorage _ _ hv rfl
  obtain ⟨hok, hlive, hrec⟩ := @sizes_of_runOk wireProto InMemoryStorage _ wireProto_roundTrips
    _ hv rfl [.write [1] 0] m hm
  exact ⟨m, hm, hlive, hok, hrec⟩

end SqliteGcs
