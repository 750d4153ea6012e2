import SqliteGcs.Composition
import SqliteGcs.Contents
import SqliteGcs.Recovery

set_option relaxedAutoImplicit false
set_option autoImplicit false

/-!
# What the calls of a mapper leave alone

The facts of this file hold on every storage, also on one whose calls fail halfway: `Write` only
reads from the storage, and what it buffers, and what `Truncate` buffers, passes validation. An
observation of the storage that `pRead` does not change is the same after `Write` and after the
scan of `Init`.

## Main results

* `SqliteGcs.BlockMapper.write_frame`, `SqliteGcs.BlockMapper.truncate_frame` — the two calls that
  buffer records.
* `SqliteGcs.BlockMapper.read_ok` — what `Read` returns.
* `SqliteGcs.BlockMapper.scan_frame`, `SqliteGcs.BlockMapper.scan_ok` — the scan of `Init`.
-/

namespace SqliteGcs

open Bytes Machine

namespace BlockMapper

variable {σ β : Type} [AppendOnlyStorage σ] {φ : σ → β}

/-- Fetching a part of a block only reads. -/
lemma readBlock_frame (hφ : ∀ n off s, φ (pRead n off s).2 = φ s) (m : BlockMapper σ)
    (blockIndex blockOffset blockLen : ℤ) (s : σ) :
    φ (m.readBlock blockIndex blockOffset blockLen s).2 = φ s := by
  rw [readBlock_eq]
  cases m.pendingRecords.reverse.find? (·.blockIndex = blockIndex) with
  | some pr => rfl
  | none =>
    dsimp only
    generalize (if blockIndex ≥ 0 ∧ blockIndex < m.logicalToPhysical.length then
      m.logicalToPhysical.getD blockIndex.toNat (-1) else -1) = base
    by_cases hbase : base ≠ -1
    · rw [if_pos hbase]
      refine andThen_frame (hφ _ _) (fun bytes s => ?_) s
      split_ifs <;> rfl
    · rw [if_neg hbase]

/-- The loop of `ReadLocked` only reads. -/
lemma readLoop_frame (hφ : ∀ n off s, φ (pRead n off s).2 = φ s) (m : BlockMapper σ) (fuel : ℕ)
    (remainingSize currentOffset : ℤ) (s : σ) :
    φ (m.readLoop fuel remainingSize currentOffset s).2 = φ s := by
  induction fuel generalizing remainingSize currentOffset s with
  | zero => rfl
  | succ fuel ih =>
    rw [readLoop_succ]
    split_ifs
    · exact andThen_frame (readBlock_frame hφ m _ _ _)
        (fun part => andThen_frame (ih _ _) fun rest s => rfl) s
    · rfl

/-- `ReadLocked` changes nothing but the storage, and only reads from it. -/
lemma readLocked_frame (hφ : ∀ n off s, φ (pRead n off s).2 = φ s) (size : ℕ)
    (logicalOffset : ℤ) (m : BlockMapper σ) :
    ∃ s, (readLocked size logicalOffset m).2 = { m with storage := s } ∧ φ s = φ m.storage := by
  rw [readLocked]
  split_ifs
  · exact ⟨m.storage, rfl, rfl⟩
  · exact ⟨m.storage, rfl, rfl⟩
  · exact ⟨_, rfl, readLoop_frame hφ m size (s64 size) logicalOffset m.storage⟩

/-- The blocks of a non-empty range that passes the check of `Write`. -/
lemma blocks_of_range {n : ℕ} {off : ℤ} (h : outOfRange n off = false) (hpos : 0 < n) :
    0 ≤ off / 4096 ∧ off / 4096 ≤ s64 (u64 (off + n - 1) / 4096) ∧
      s64 (u64 (off + n - 1) / 4096) < 1000000 := by
  obtain ⟨h0, h1⟩ := outOfRange_eq_false_iff.mp h
  have hu : (u64 (off + n - 1) : ℤ) = off + n - 1 := u64_of_range (by omega) (by omega)
  rw [hu, s64_of_range (by omega) (by omega)]
  omega

/-! ## Reads that tell the truth -/

section Truth

variable {φ : σ → List UInt8} (hφ : ∀ n off s, φ (pRead n off s).2 = φ s)
  (htruth : ∀ (n off : ℕ) s bs, (pRead n off s).1 = .ok bs → bs = slice off n (φ s))

include htruth in
/-- A part of a block that is fetched is a window of the byte function, on a storage whose reads
may fail but tell the truth if they do not. -/
lemma readBlock_ok {m : BlockMapper σ} {s : σ} (hm : Sound (φ s) m.logicalToPhysical) {b o n : ℕ}
    (hon : o + n ≤ 4096) {part : List UInt8} (h : (m.readBlock b o n s).1 = .ok part) :
    part = window (SqliteGcs.byteAt (φ s) m.logicalToPhysical m.pendingRecords)
      (4096 * b + o) n := by
  rw [← slice_blockBytes hm _ _ hon]
  unfold readBlock at h
  unfold blockBytes
  rw [Int.toNat_natCast o, Int.toNat_natCast n] at h
  cases hf : m.pendingRecords.reverse.find? (·.blockIndex = (b : ℤ)) with
  | some pr =>
    rw [hf] at h
    exact (Except.ok.inj h).symm
  | none =>
    simp only [hf, lookup_eq] at h
    by_cases hb : m.logicalToPhysical.getD b (-1) = -1
    · rw [if_neg (by simpa using hb)] at h
      rw [← Except.ok.inj h]
      dsimp only
      rw [if_neg (by simpa using hb), slice, List.drop_replicate, List.take_replicate]
      congr 1
      omega
    · obtain ⟨p, hp, h1⟩ := hm.exists_position hb
      rw [if_pos (by simpa using hb), hp] at h
      dsimp only
      rw [if_pos (by simpa using hb), hp, Int.toNat_natCast, slice_slice _ hon]
      have hread := htruth n (p + o) s
      rw [Nat.cast_add] at hread
      generalize pRead n ((p : ℤ) + o) s = q at h hread
      obtain ⟨r, s'⟩ := q
      cases r with
      | error e => cases h
      | ok bs =>
        obtain rfl := hread bs rfl
        dsimp only at h
        split_ifs at h
        exact (Except.ok.inj h).symm

include hφ htruth in
/-- The loop of `ReadLocked` returns a window of the byte function if it succeeds. -/
lemma readLoop_ok {m : BlockMapper σ} {fuel n o : ℕ} {s : σ}
    (hm : Sound (φ s) m.logicalToPhysical) (hfuel : n ≤ fuel) {data : List UInt8}
    (h : (m.readLoop fuel n o s).1 = .ok data) :
    data = window (SqliteGcs.byteAt (φ s) m.logicalToPhysical m.pendingRecords) o n := by
  induction fuel generalizing n o s data with
  | zero =>
    obtain rfl : n = 0 := by omega
    exact (Except.ok.inj h).symm
  | succ fuel ih =>
    by_cases hn : n = 0
    · subst hn
      rw [readLoop] at h
      exact (Except.ok.inj h).symm
    obtain ⟨len, hlen⟩ : ∃ len, len = min (4096 - o % 4096) n := ⟨_, rfl⟩
    have hplace : 4096 * (o / 4096) + o % 4096 = o := by omega
    have hsum : len + (n - len) = n := by omega
    rw [readLoop_nat m fuel (by omega) hlen, andThen] at h
    have hframe := readBlock_frame hφ m ((o / 4096 : ℕ) : ℤ) ((o % 4096 : ℕ) : ℤ) len s
    have hblock : ∀ part, (m.readBlock ((o / 4096 : ℕ) : ℤ) ((o % 4096 : ℕ) : ℤ) len s).1 =
        .ok part →
          part = window (SqliteGcs.byteAt (φ s) m.logicalToPhysical m.pendingRecords) o len := by
      intro part hpart
      have hwindow := readBlock_ok htruth hm (by omega : o % 4096 + len ≤ 4096) hpart
      rwa [hplace] at hwindow
    generalize m.readBlock ((o / 4096 : ℕ) : ℤ) ((o % 4096 : ℕ) : ℤ) len s = p at h hframe hblock
    obtain ⟨r, s₁⟩ := p
    cases r with
    | error e => cases h
    | ok part =>
      dsimp only at h hframe
      have hrest : ∀ rest, (m.readLoop fuel ((n - len : ℕ) : ℤ) ((o + len : ℕ) : ℤ) s₁).1 =
          .ok rest →
            rest = window (SqliteGcs.byteAt (φ s) m.logicalToPhysical m.pendingRecords) (o + len)
              (n - len) := by
        intro rest hrest
        rw [← hframe] at hm ⊢
        exact ih hm (by omega) hrest
      rw [andThen] at h
      generalize m.readLoop fuel ((n - len : ℕ) : ℤ) ((o + len : ℕ) : ℤ) s₁ = q at h hrest
      obtain ⟨r, s₂⟩ := q
      cases r with
      | error e => cases h
      | ok rest =>
        obtain rfl := hblock part rfl
        obtain rfl := hrest rest rfl
        rw [← Except.ok.inj h, window_append, hsum]

include hφ htruth in
/-- **What a successful `Read` returns**, on a storage whose reads may fail but tell the truth if
they do not: a window of the byte function. -/
theorem read_ok {m : BlockMapper σ} (hm : Sound (φ m.storage) m.logicalToPhysical) {n o : ℕ}
    (hn : n < 2 ^ 63) {data : List UInt8} (h : (m.read n o).1 = .ok data) :
    data = window (SqliteGcs.byteAt (φ m.storage) m.logicalToPhysical m.pendingRecords) o n := by
  rw [read] at h
  split_ifs at h
  rw [readLocked, if_neg (by omega)] at h
  split_ifs at h with h0
  · subst h0
    exact (Except.ok.inj h).symm
  · rw [s64_of_range (by omega) (by omega)] at h
    exact readLoop_ok hφ htruth hm le_rfl h

include hφ in
/-- `Read` changes nothing but the storage, and only reads from it. -/
lemma read_frame (size : ℕ) (logicalOffset : ℤ) (m : BlockMapper σ) :
    ∃ s, (m.read size logicalOffset).2 = { m with storage := s } ∧ φ s = φ m.storage := by
  rw [read]
  split_ifs
  · exact ⟨m.storage, rfl, rfl⟩
  · exact readLocked_frame hφ size logicalOffset m
  · exact ⟨m.storage, rfl, rfl⟩

end Truth

section Metadata

variable [MetadataProto]

/-- The loop of `Write` buffers records of its blocks, and only reads from the storage. -/
lemma writeLoop_frame (hφ : ∀ n off s, φ (pRead n off s).2 = φ s) (buf : List UInt8)
    (logicalOffset : ℤ) (n : ℕ) {b : ℤ} (m : BlockMapper σ) (h0 : 0 ≤ b)
    (h1 : b + n ≤ 1000000) :
    ∃ s new, (writeLoop buf logicalOffset n b m).2 =
        { m with storage := s, pendingRecords := m.pendingRecords ++ new } ∧
      φ s = φ m.storage ∧ ∀ pr ∈ new, pr.Decodes := by
  induction n generalizing b m with
  | zero => exact ⟨m.storage, [], by rw [writeLoop, List.append_nil], rfl, by simp⟩
  | succ n ih =>
    have hdec : ∀ block : Block, (⟨b, block⟩ : PendingRecord).Decodes := fun block =>
      ⟨by dsimp only; omega, by dsimp only; omega, fun hm => by dsimp only at hm; omega⟩
    -- one more record is buffered after the storage was read
    have hpush : ∀ (s : σ) (block : Block), φ s = φ m.storage →
        ∃ s' new, (writeLoop buf logicalOffset n (b + 1) { m with
            storage := s
            pendingRecords := m.pendingRecords ++ [⟨b, block⟩] }).2 =
            { m with storage := s', pendingRecords := m.pendingRecords ++ new } ∧
          φ s' = φ m.storage ∧ ∀ pr ∈ new, pr.Decodes := by
      intro s block hs
      obtain ⟨s', new, hrun, hs', hnew⟩ := ih (b := b + 1) { m with
        storage := s
        pendingRecords := m.pendingRecords ++ [⟨b, block⟩] } (by omega) (by omega)
      refine ⟨s', ⟨b, block⟩ :: new, ?_, hs'.trans hs, ?_⟩
      · rw [hrun, List.append_assoc]
        rfl
      · intro pr hpr
        rcases List.mem_cons.mp hpr with rfl | hpr
        · exact hdec block
        · exact hnew pr hpr
    rw [writeLoop]
    dsimp only
    split_ifs
    · obtain ⟨s, hread, hs⟩ := readLocked_frame hφ 4096 (b * 4096) m
      generalize readLocked 4096 (b * 4096) m = p at hread
      obtain ⟨r, m₁⟩ := p
      obtain rfl : m₁ = { m with storage := s } := hread
      cases r with
      | error e => exact ⟨s, [], by rw [List.append_nil], hs, by simp⟩
      | ok blockData => exact hpush s _ hs
    · exact hpush m.storage _ rfl

/-- **`Write` only reads from the storage** and buffers records that pass validation. -/
theorem write_frame (hφ : ∀ n off s, φ (pRead n off s).2 = φ s) (buf : List UInt8)
    (logicalOffset : ℤ) (m : BlockMapper σ) :
    (m.write buf logicalOffset).2.initialized = m.initialized ∧
      φ (m.write buf logicalOffset).2.storage = φ m.storage ∧
      ∃ new, (m.write buf logicalOffset).2.pendingRecords = m.pendingRecords ++ new ∧
        ∀ pr ∈ new, pr.Decodes := by
  by_cases hrange : outOfRange buf.length logicalOffset = true
  · rw [write, if_pos hrange]
    exact ⟨rfl, rfl, [], (List.append_nil _).symm, by simp⟩
  by_cases hinit : ¬ m.initialized
  · rw [write, if_neg hrange, if_pos hinit]
    exact ⟨rfl, rfl, [], (List.append_nil _).symm, by simp⟩
  by_cases hempty : buf.length = 0
  · rw [write, if_neg hrange, if_neg hinit, if_pos hempty]
    exact ⟨rfl, rfl, [], (List.append_nil _).symm, by simp⟩
  obtain ⟨h0, h1, h2⟩ := blocks_of_range ((Bool.not_eq_true _).mp hrange) (by omega)
  rw [write, if_neg hrange, if_neg hinit, if_neg hempty]
  obtain ⟨endBlock, hend⟩ : ∃ endBlock,
      endBlock = s64 (u64 (logicalOffset + buf.length - 1) / 4096) := ⟨_, rfl⟩
  rw [← hend] at h1 h2 ⊢
  obtain ⟨n, hn⟩ : ∃ n, n = (endBlock - logicalOffset / 4096 + 1).toNat := ⟨_, rfl⟩
  obtain ⟨s, new, hrun, hs, hnew⟩ := writeLoop_frame hφ buf logicalOffset n m h0 (by omega)
  simp only [← hn]
  generalize writeLoop buf logicalOffset n (logicalOffset / 4096) m = p at hrun
  obtain ⟨r, m₁⟩ := p
  obtain rfl : m₁ = { m with storage := s, pendingRecords := m.pendingRecords ++ new } := hrun
  cases r <;> exact ⟨rfl, hs, new, rfl, hnew⟩

omit [AppendOnlyStorage σ] in
/-- `Truncate` does not touch the storage, and what it leaves buffered passes validation. A
successful one leaves a record buffered. -/
theorem truncate_frame (hp : MetadataProto.RoundTrips) {m : BlockMapper σ}
    (hi : m.initialized = true) (hdec : ∀ pr ∈ m.pendingRecords, pr.Decodes) (newSize : ℤ) :
    (m.truncate newSize).2.initialized = true ∧ (m.truncate newSize).2.storage = m.storage ∧
      (∀ pr ∈ (m.truncate newSize).2.pendingRecords, pr.Decodes) ∧
      (m.pendingRecords ≠ [] → (m.truncate newSize).2.pendingRecords ≠ []) := by
  rcases truncate_cases hi newSize with ⟨e, he⟩ | ⟨h0, h1, serialized, hs, hl, ht⟩
  · rw [he]
    exact ⟨hi, rfl, hdec, id⟩
  · rw [ht]
    refine ⟨hi, rfl, fun pr hpr => ?_, fun _ hnil => ?_⟩
    · rcases List.mem_append.mp (List.mem_filter.mp hpr).1 with hpr | hpr
      · exact hdec pr hpr
      · obtain rfl := List.mem_singleton.mp hpr
        exact decodes_truncateRecord hp h0 h1 hs hl
    · have hmem : truncateRecord serialized ∈ (m.truncated newSize serialized).pendingRecords := by
        refine List.mem_filter.mpr ⟨List.mem_append_right _ List.mem_cons_self, ?_⟩
        unfold ceilBlocks
        simp only [truncateRecord, ge_iff_le, not_le, decide_eq_true_eq]
        omega
      dsimp only at hnil
      rw [hnil] at hmem
      cases hmem

/-- **The scan of `Init` only reads.** -/
theorem scan_frame (hφ : ∀ n off s, φ (pRead n off s).2 = φ s) (P : ℤ) (fuel : ℕ) (offset : ℤ)
    (s : σ) : φ (scan P fuel offset s).2 = φ s := by
  induction fuel generalizing offset s with
  | zero => rfl
  | succ fuel ih =>
    rw [scan_succ]
    by_cases hlt : offset < P
    · rw [if_pos hlt]
      refine andThen_frame (hφ _ _) (fun recordBuf s => ?_) s
      by_cases hlen : recordBuf.length ≠ 4105
      · rw [if_pos hlen]
      · rw [if_neg hlen]
        cases parseRecord offset recordBuf with
        | error e => rfl
        | ok rec => exact andThen_frame (ih _) (fun recs s => rfl) s
    · rw [if_neg hlt]

/-- **What a successful scan has read**, on a storage whose reads may fail but tell the truth if
they do not: every record of the file is valid.

**Proof sketch.** Induction on the number of records left, as for `scan_spec`. -/
theorem scan_ok {φ : σ → List UInt8} (hφ : ∀ n off s, φ (pRead n off s).2 = φ s)
    (htruth : ∀ (n off : ℕ) s bs, (pRead n off s).1 = .ok bs → bs = slice off n (φ s))
    {i n fuel : ℕ} {s : σ} {recs : List RecoveredRecord}
    (hlen : (φ s).length = 4105 * (i + n)) (hfuel : n ≤ fuel)
    (h : (scan ((4105 * (i + n) : ℕ) : ℤ) fuel ((4105 * i : ℕ) : ℤ) s).1 = .ok recs) :
    parseLog ((4105 * i : ℕ) : ℤ) (chunks 4105 n ((φ s).drop (4105 * i))) = .ok recs := by
  induction n generalizing i fuel s recs with
  | zero =>
    have hnil : recs = [] := by
      cases fuel with
      | zero => exact (Except.ok.inj h).symm
      | succ fuel =>
        rw [scan, if_neg (by omega)] at h
        exact (Except.ok.inj h).symm
    rw [hnil]
    rfl
  | succ n ih =>
    obtain ⟨fuel, rfl⟩ : ∃ f, fuel = f + 1 := ⟨fuel - 1, by omega⟩
    rw [scan, if_pos (by omega)] at h
    have hread := hφ 4105 ((4105 * i : ℕ) : ℤ) s
    have hbuf := htruth 4105 (4105 * i) s
    generalize pRead 4105 ((4105 * i : ℕ) : ℤ) s = p at h hread hbuf
    obtain ⟨r, s₁⟩ := p
    dsimp only at hread
    cases r with
    | error e => cases h
    | ok recordBuf =>
      obtain rfl := hbuf recordBuf rfl
      have hfull : ¬ (slice (4105 * i) 4105 (φ s)).length ≠ 4105 := by
        rw [length_slice]
        omega
      have hoff : ((4105 * i : ℕ) : ℤ) + 4105 = ((4105 * (i + 1) : ℕ) : ℤ) := by
        push_cast
        ring
      simp only [if_neg hfull, hoff] at h
      rw [chunks_succ_drop, parseLog, hoff]
      cases hrec : parseRecord ((4105 * i : ℕ) : ℤ) (slice (4105 * i) 4105 (φ s)) with
      | error e =>
        rw [hrec] at h
        cases h
      | ok rec =>
        rw [hrec] at h
        dsimp only at h ⊢
        rw [show i + (n + 1) = i + 1 + n by omega] at h hlen
        cases hscan :
            (scan ((4105 * (i + 1 + n) : ℕ) : ℤ) fuel ((4105 * (i + 1) : ℕ) : ℤ) s₁).1 with
        | error e =>
          generalize scan ((4105 * (i + 1 + n) : ℕ) : ℤ) fuel ((4105 * (i + 1) : ℕ) : ℤ) s₁ = q
            at h hscan
          obtain ⟨r, s₂⟩ := q
          obtain rfl : r = .error e := hscan
          cases h
        | ok rest =>
          have hparse := ih (by rw [hread]; exact hlen) (by omega) hscan
          generalize scan ((4105 * (i + 1 + n) : ℕ) : ℤ) fuel ((4105 * (i + 1) : ℕ) : ℤ) s₁ = q
            at h hscan
          obtain ⟨r, s₂⟩ := q
          obtain rfl : r = .ok rest := hscan
          rw [hread] at hparse
          rw [hparse]
          exact h

end Metadata

end BlockMapper

end SqliteGcs
