import SqliteGcs.LocalStorage

set_option relaxedAutoImplicit false
set_option autoImplicit false

/-!
# Writes that fail

`Write` buffers one record for each block it touches, in order, and reads the blocks that it covers
only in part before it buffers them. The first and the last block are the only ones that it may
cover in part. If reading the first block fails, nothing was buffered; if reading the last one does,
the records of all blocks before it stay buffered, although the call returns an error.

## Main definitions

* `SqliteGcs.BlockMapper.ReadOnly` — a call did no more than read from the storage.
* `SqliteGcs.BlockMapper.LateReadFailure` — the read of the last block is the one that fails.

## Main results

* `SqliteGcs.write_error_readOnly_iff` — a `Write` that fails changes nothing exactly if it does
  not fail at its last block.
* `SqliteGcs.failed_write_visible` — a `Write` that fails and changes what `Read` returns.
-/

namespace SqliteGcs

open Bytes BlockMapper

namespace BlockMapper

variable {σ : Type} [AppendOnlyStorage σ]

/-! ## Reading one block -/

/-- Records of other blocks do not change what is fetched of a block. -/
lemma readBlock_pending {m : BlockMapper σ} {new : List PendingRecord} {b : ℤ}
    (hnew : ∀ pr ∈ new, pr.blockIndex ≠ b) (blockOffset blockLen : ℤ) (s : σ) :
    readBlock { m with pendingRecords := m.pendingRecords ++ new } b blockOffset blockLen s =
      m.readBlock b blockOffset blockLen s := by
  have hnone : new.reverse.find? (·.blockIndex = b) = none :=
    List.find?_eq_none.mpr fun pr hpr => by simpa using hnew pr (List.mem_reverse.mp hpr)
  have hfind : (m.pendingRecords ++ new).reverse.find? (·.blockIndex = b) =
      m.pendingRecords.reverse.find? (·.blockIndex = b) := by
    rw [List.reverse_append, List.find?_append, hnone, Option.none_or]
  unfold readBlock
  rw [hfind]

/-- Reading one whole block is fetching it. -/
lemma readLocked_block (m : BlockMapper σ) {b : ℤ} (hb : 0 ≤ b) :
    (∃ e s, m.readBlock b 0 4096 m.storage = (.error e, s) ∧
      m.readLocked 4096 (b * 4096) = (.error e, { m with storage := s })) ∨
    ∃ part s, m.readBlock b 0 4096 m.storage = (.ok part, s) ∧
      m.readLocked 4096 (b * 4096) = (.ok part, { m with storage := s }) := by
  have hsize : s64 ((4096 : ℕ) : ℤ) = 4096 := rfl
  have hindex : b * 4096 / 4096 = b := by omega
  have hoffset : b * 4096 % 4096 = 0 := by omega
  have hlen : min (4096 - 0) 4096 = (4096 : ℤ) := by decide
  rw [readLocked, if_neg (by omega), if_neg (by decide), hsize, readLoop, if_pos (by decide),
    hindex, hoffset]
  dsimp only
  rw [hlen]
  generalize m.readBlock b 0 4096 m.storage = p
  obtain ⟨r, s⟩ := p
  cases r with
  | error e => exact Or.inl ⟨e, s, rfl, rfl⟩
  | ok part =>
    have hrest : m.readLoop 4095 (4096 - 4096) (b * 4096 + 4096) s = (.ok [], s) := by
      rw [readLoop, if_neg (by decide)]
    dsimp only
    rw [hrest]
    dsimp only
    rw [List.append_nil]
    exact Or.inr ⟨part, s, rfl, rfl⟩

/-- Whether a block can be read, and what is left of the storage, do not depend on the records of
other blocks. -/
lemma readLocked_block_pending {m : BlockMapper σ} {new : List PendingRecord} {b : ℤ} (hb : 0 ≤ b)
    (hnew : ∀ pr ∈ new, pr.blockIndex ≠ b) :
    (readLocked 4096 (b * 4096) { m with pendingRecords := m.pendingRecords ++ new }).1 =
      (m.readLocked 4096 (b * 4096)).1 := by
  have hsame := readBlock_pending (m := m) hnew 0 4096 m.storage
  rcases readLocked_block m hb with ⟨e, s, hm, hread⟩ | ⟨part, s, hm, hread⟩ <;>
    rcases readLocked_block { m with pendingRecords := m.pendingRecords ++ new } hb with
      ⟨e', s', hm', hread'⟩ | ⟨part', s', hm', hread'⟩ <;>
    rw [hread, hread'] <;> rw [hsame, hm] at hm' <;> cases hm' <;> rfl

/-! ## The loop of `Write` -/

/-- The loop of `Write` buffers one record for each block that it covers. -/
lemma writeLoop_covered (buf : List UInt8) (off : ℤ) (k n : ℕ) {b : ℤ} (m : BlockMapper σ)
    (h0 : off ≤ b * 4096) (h1 : (b + k) * 4096 ≤ off + s64 buf.length) :
    ∃ new : List PendingRecord, new.length = k ∧ (∀ pr ∈ new, pr.blockIndex < b + k) ∧
      writeLoop buf off (n + k) b m =
        writeLoop buf off n (b + k) { m with pendingRecords := m.pendingRecords ++ new } := by
  induction k generalizing b m with
  | zero =>
    refine ⟨[], rfl, by simp, ?_⟩
    rw [Nat.add_zero, List.append_nil, Nat.cast_zero, add_zero]
  | succ k ih =>
    push_cast at h1
    have hlen : ¬ min (off + s64 buf.length) (b * 4096 + 4096) - max off (b * 4096) < 4096 := by
      omega
    rw [← Nat.add_assoc, writeLoop]
    dsimp only
    rw [if_neg hlen]
    obtain ⟨pr, hpr⟩ : ∃ pr : PendingRecord, pr = ⟨b, Block.ofList (slice
        (max off (b * 4096) - off).toNat (min (off + s64 buf.length) (b * 4096 + 4096) -
          max off (b * 4096)).toNat buf)⟩ := ⟨_, rfl⟩
    rw [← hpr]
    obtain ⟨new, hlength, hindex, hrun⟩ := ih (b := b + 1)
      { m with pendingRecords := m.pendingRecords ++ [pr] } (by omega) (by omega)
    refine ⟨pr :: new, by rw [List.length_cons, hlength], ?_, ?_⟩
    · intro r hr
      push_cast
      rcases List.mem_cons.mp hr with rfl | hr
      · rw [hpr]
        dsimp only
        omega
      · have := hindex r hr
        omega
    · rw [hrun, List.append_assoc]
      push_cast
      rw [show b + ((k : ℤ) + 1) = b + 1 + k by omega]
      rfl

/-- The loop of `Write` at a block that it covers in part: it reads the block, and buffers a record
for it if that succeeds. -/
lemma writeLoop_partial (buf : List UInt8) (off : ℤ) (n : ℕ) {b : ℤ} (m : BlockMapper σ)
    (h : off > b * 4096 ∨ off + s64 buf.length < b * 4096 + 4096) :
    (∃ e m', m.readLocked 4096 (b * 4096) = (.error e, m') ∧
      writeLoop buf off (n + 1) b m = (.error e, m')) ∨
    ∃ blockData m' pr, m.readLocked 4096 (b * 4096) = (.ok blockData, m') ∧
      pr.blockIndex = b ∧ writeLoop buf off (n + 1) b m =
        writeLoop buf off n (b + 1) { m' with pendingRecords := m'.pendingRecords ++ [pr] } := by
  have hlen : min (off + s64 buf.length) (b * 4096 + 4096) - max off (b * 4096) < 4096 := by
    omega
  rw [writeLoop]
  dsimp only
  rw [if_pos hlen]
  generalize m.readLocked 4096 (b * 4096) = p
  obtain ⟨r, m'⟩ := p
  cases r with
  | error e => exact Or.inl ⟨e, m', rfl, rfl⟩
  | ok blockData => exact Or.inr ⟨blockData, m', _, rfl, rfl, rfl⟩

/-! ## When a failed `Write` changes nothing -/

/-- `m'` is `m` after no more than reads from the storage: everything that reads leave alone about
the storage is as it was. -/
def ReadOnly (m m' : BlockMapper σ) : Prop :=
  ∃ s, m' = { m with storage := s } ∧ ∀ (β : Type) (φ : σ → β),
    (∀ n off t, φ (AppendOnlyStorage.pRead n off t).2 = φ t) → φ s = φ m.storage

/-- `ReadLocked` does no more than read. -/
lemma readOnly_readLocked (size : ℕ) (off : ℤ) (m : BlockMapper σ) :
    m.ReadOnly (m.readLocked size off).2 := by
  obtain ⟨s, hs, -⟩ := readLocked_frame (φ := fun _ : σ => ()) (fun _ _ _ => rfl) size off m
  refine ⟨s, hs, fun β φ hφ => ?_⟩
  obtain ⟨s', hs', hφs⟩ := readLocked_frame hφ size off m
  rw [hs] at hs'
  obtain rfl : s = s' := congrArg BlockMapper.storage hs'
  exact hφs

/-- `m'` is `m` when `Write` has come past its first block: the block was read if it is covered in
part. -/
def FirstBlockDone (off : ℤ) (m m' : BlockMapper σ) : Prop :=
  if off % 4096 = 0 then m' = m
  else ∃ block, m.readLocked 4096 (off / 4096 * 4096) = (.ok block, m')

/-- The state past the first block is determined. -/
lemma FirstBlockDone.unique {off : ℤ} {m m₁ m₂ : BlockMapper σ} (h₁ : FirstBlockDone off m m₁)
    (h₂ : FirstBlockDone off m m₂) : m₁ = m₂ := by
  unfold FirstBlockDone at h₁ h₂
  split_ifs at h₁ h₂
  · rw [h₁, h₂]
  · obtain ⟨block₁, h₁⟩ := h₁
    obtain ⟨block₂, h₂⟩ := h₂
    rw [h₁] at h₂
    exact congrArg Prod.snd h₂

/-- Reading the first block buffers nothing. -/
lemma FirstBlockDone.pendingRecords_eq {off : ℤ} {m m' : BlockMapper σ}
    (h : FirstBlockDone off m m') : m'.pendingRecords = m.pendingRecords := by
  unfold FirstBlockDone at h
  split_ifs at h
  · rw [h]
  · obtain ⟨block, h⟩ := h
    obtain ⟨s, hs, -⟩ := readOnly_readLocked 4096 (off / 4096 * 4096) m
    rw [h] at hs
    dsimp only at hs
    rw [hs]

/-- The read of the last block of a `Write` fails after the blocks before it were buffered: the
range is valid and goes over more than one block, it ends inside its last block, the first block
can be read if it is covered in part, and the last one cannot be read then. -/
def LateReadFailure (buf : List UInt8) (off : ℤ) (m : BlockMapper σ) : Prop :=
  outOfRange buf.length off = false ∧ m.initialized = true ∧
    off / 4096 < (off + buf.length - 1) / 4096 ∧ (off + buf.length) % 4096 ≠ 0 ∧
    ∃ m', FirstBlockDone off m m' ∧
      ∃ e, (m'.readLocked 4096 ((off + buf.length - 1) / 4096 * 4096)).1 = .error e

/-- A `Write` of a valid range is its loop: it fails as the loop does, and leaves what the loop
leaves. -/
lemma write_of_range {m : BlockMapper σ} (hi : m.initialized = true) {buf : List UInt8} {off : ℤ}
    (hr : outOfRange buf.length off = false) (hpos : 0 < buf.length) :
    (∃ e m', writeLoop buf off ((off + buf.length - 1) / 4096 - off / 4096 + 1).toNat (off / 4096)
        m = (.error e, m') ∧ m.write buf off = (.error e, m')) ∨
      ∃ m' m'', writeLoop buf off ((off + buf.length - 1) / 4096 - off / 4096 + 1).toNat
        (off / 4096) m = (.ok (), m') ∧ m.write buf off = (.ok (), m'') := by
  obtain ⟨h0, h1⟩ := outOfRange_eq_false_iff.mp hr
  have hend : s64 (u64 (off + buf.length - 1) / 4096) = (off + buf.length - 1) / 4096 := by
    have hu : (u64 (off + buf.length - 1) : ℤ) = off + buf.length - 1 :=
      u64_of_range (by omega) (by omega)
    rw [hu, s64_of_range (by omega) (by omega)]
  rw [write, if_neg (by rw [hr]; decide), if_neg (by rw [hi]; decide), if_neg (by omega), hend]
  dsimp only
  generalize writeLoop buf off ((off + buf.length - 1) / 4096 - off / 4096 + 1).toNat (off / 4096)
    m = p
  obtain ⟨r, m'⟩ := p
  cases r with
  | error e => exact Or.inl ⟨e, m', rfl, rfl⟩
  | ok u => exact Or.inr ⟨m', _, rfl, rfl⟩

/-- The loop of `Write` up to its last block, if there is more than one: it fails at the first
block, or goes on to the last with records of the blocks before it buffered. -/
lemma writeLoop_before_last {buf : List UInt8} {off : ℤ} (m : BlockMapper σ)
    (hr : outOfRange buf.length off = false)
    (hlt : off / 4096 < (off + buf.length - 1) / 4096) :
    (off % 4096 ≠ 0 ∧ ∃ e m', m.readLocked 4096 (off / 4096 * 4096) = (.error e, m') ∧
      writeLoop buf off ((off + buf.length - 1) / 4096 - off / 4096 + 1).toNat (off / 4096) m =
        (.error e, m')) ∨
    ∃ m' new, FirstBlockDone off m m' ∧ new ≠ [] ∧
      (∀ pr ∈ new, pr.blockIndex ≠ (off + buf.length - 1) / 4096) ∧
      writeLoop buf off ((off + buf.length - 1) / 4096 - off / 4096 + 1).toNat (off / 4096) m =
        writeLoop buf off 1 ((off + buf.length - 1) / 4096)
          { m' with pendingRecords := m'.pendingRecords ++ new } := by
  obtain ⟨h0, h1⟩ := outOfRange_eq_false_iff.mp hr
  have hs : s64 buf.length = buf.length := s64_of_range (by omega) (by omega)
  obtain ⟨j, hj⟩ : ∃ j : ℕ, (off + buf.length - 1) / 4096 = off / 4096 + 1 + j :=
    ⟨((off + buf.length - 1) / 4096 - off / 4096 - 1).toNat, by omega⟩
  have hcount : (off / 4096 + 1 + (j : ℤ) - off / 4096 + 1).toNat = 1 + j + 1 := by omega
  rw [hj, hcount]
  by_cases hmod : off % 4096 = 0
  · obtain ⟨new, hlength, hindex, hrun⟩ := writeLoop_covered buf off (j + 1) 1
      (b := off / 4096) m (by omega) (by omega)
    refine Or.inr ⟨m, new, by rw [FirstBlockDone, if_pos hmod], ?_, fun pr hpr => ?_, ?_⟩
    · rintro rfl
      cases hlength
    · have := hindex pr hpr
      omega
    · rw [Nat.add_assoc, hrun]
      push_cast
      rw [show off / 4096 + ((j : ℤ) + 1) = off / 4096 + 1 + j by omega]
  · rcases writeLoop_partial buf off (1 + j) (b := off / 4096) m (Or.inl (by omega)) with
      ⟨e, m', hread, hrun⟩ | ⟨block, m', pr, hread, hpr, hrun⟩
    · exact Or.inl ⟨hmod, e, m', hread, hrun⟩
    · obtain ⟨new, -, hindex, hrest⟩ := writeLoop_covered buf off j 1
        (b := off / 4096 + 1) { m' with pendingRecords := m'.pendingRecords ++ [pr] }
        (by omega) (by omega)
      refine Or.inr ⟨m', pr :: new, by rw [FirstBlockDone, if_neg hmod]; exact ⟨block, hread⟩,
        List.cons_ne_nil pr new, fun r hr' => ?_, ?_⟩
      · rcases List.mem_cons.mp hr' with rfl | hr'
        · omega
        · have := hindex r hr'
          omega
      · rw [hrun, hrest, List.append_assoc]
        rfl

/-- The loop of `Write` on a single block: what fails is the read before anything is buffered. -/
lemma readOnly_of_one_block {buf : List UInt8} {off : ℤ} (m : BlockMapper σ)
    (hr : outOfRange buf.length off = false) (hpos : 0 < buf.length)
    (hone : (off + buf.length - 1) / 4096 = off / 4096) {e : Status} {m' : BlockMapper σ}
    (h : writeLoop buf off 1 (off / 4096) m = (.error e, m')) : m.ReadOnly m' := by
  obtain ⟨h0, h1⟩ := outOfRange_eq_false_iff.mp hr
  have hs : s64 buf.length = buf.length := s64_of_range (by omega) (by omega)
  by_cases hfull : off % 4096 = 0 ∧ (off + buf.length) % 4096 = 0
  · obtain ⟨new, -, -, hend⟩ := writeLoop_covered buf off 1 0 (b := off / 4096) m (by omega)
      (by omega)
    rw [hend, writeLoop] at h
    cases h
  · rcases writeLoop_partial buf off 0 (b := off / 4096) m (by omega) with
      ⟨e', m'', hread, hend⟩ | ⟨block, m'', pr, -, -, hend⟩
    · rw [hend] at h
      cases h
      have hro := readOnly_readLocked 4096 (off / 4096 * 4096) m
      rwa [hread] at hro
    · rw [hend, writeLoop] at h
      cases h

/-- The loop of `Write` at its last block, with records of other blocks buffered: what fails leaves
them buffered. -/
lemma readOnly_last_iff {buf : List UInt8} {off last : ℤ} {m m' : BlockMapper σ}
    {new : List PendingRecord} (hr : outOfRange buf.length off = false)
    (hlast : last = (off + buf.length - 1) / 4096) (hlt : off / 4096 < last)
    (hpending : m'.pendingRecords = m.pendingRecords) (hne : new ≠ [])
    (hnew : ∀ pr ∈ new, pr.blockIndex ≠ last) :
    (∀ e m'', writeLoop buf off 1 last { m' with pendingRecords := m'.pendingRecords ++ new } =
        (.error e, m'') → m.ReadOnly m'') ↔
      ¬ ((off + buf.length) % 4096 ≠ 0 ∧ ∃ e, (m'.readLocked 4096 (last * 4096)).1 = .error e) := by
  obtain ⟨h0, h1⟩ := outOfRange_eq_false_iff.mp hr
  have hs : s64 buf.length = buf.length := s64_of_range (by omega) (by omega)
  by_cases hfull : (off + buf.length) % 4096 = 0
  · obtain ⟨new', -, -, hend⟩ := writeLoop_covered buf off 1 0 (b := last)
      { m' with pendingRecords := m'.pendingRecords ++ new } (by omega) (by omega)
    rw [hend, writeLoop]
    exact iff_of_true (fun _ _ h => by cases h) fun h => h.1 hfull
  have hread := readLocked_block_pending (m := m') (by omega : 0 ≤ last) hnew
  rcases writeLoop_partial buf off 0 (b := last)
      { m' with pendingRecords := m'.pendingRecords ++ new } (Or.inr (by omega)) with
    ⟨e, m'', hlate, hend⟩ | ⟨block, m'', pr, hlate, -, hend⟩
  · rw [hend]
    rw [hlate] at hread
    refine iff_of_false (fun h => ?_) (not_not.mpr ⟨hfull, e, hread.symm⟩)
    obtain ⟨s, hs, -⟩ := h e m'' rfl
    obtain ⟨s', hs', -⟩ := readOnly_readLocked 4096 (last * 4096)
      { m' with pendingRecords := m'.pendingRecords ++ new }
    rw [hlate, hs] at hs'
    have hlen := congrArg (fun m => m.pendingRecords.length) hs'
    dsimp only at hlen
    rw [hpending, List.length_append] at hlen
    have := List.length_pos_iff.mpr hne
    omega
  · rw [hend, writeLoop]
    refine iff_of_true (fun _ _ h => by cases h) ?_
    rintro ⟨-, e, he⟩
    rw [← hread, hlate] at he
    cases he

end BlockMapper

/-- **When a `Write` that fails changes nothing.** On every storage and in every state, a `Write`
that returns an error has done no more than read from the storage (nothing is buffered, and the
size and the block table are as they were) exactly if it is not the read of its last block that
failed after the blocks before it were buffered.

**Proof sketch.** Blocks that are covered as a whole are buffered without a read, so only the first
and the last block can fail (`writeLoop_before_last`). Before the first nothing is buffered. Before
the last the records of the other blocks are, and whether it can be read does not depend on them
(`readLocked_block_pending`). -/
theorem write_error_readOnly_iff {σ : Type} [AppendOnlyStorage σ] (m : BlockMapper σ)
    (buf : List UInt8) (off : ℤ) :
    (∀ e, (m.write buf off).1 = .error e → m.ReadOnly (m.write buf off).2) ↔
      ¬ m.LateReadFailure buf off := by
  have hsame : m.ReadOnly m := ⟨m.storage, rfl, fun _ _ _ => rfl⟩
  by_cases hr : outOfRange buf.length off = true
  · rw [write, if_pos hr]
    exact iff_of_true (fun _ _ => hsame) fun h => by rw [h.1] at hr; cases hr
  by_cases hi : ¬ m.initialized = true
  · rw [write, if_neg hr, if_pos hi]
    exact iff_of_true (fun _ _ => hsame) fun h => hi h.2.1
  by_cases hpos : buf.length = 0
  · rw [write, if_neg hr, if_neg hi, if_pos hpos]
    refine iff_of_true (fun _ _ => hsame) fun h => ?_
    have := h.2.2.1
    omega
  rw [Bool.not_eq_true] at hr
  rw [not_not] at hi
  obtain ⟨last, hlast⟩ : ∃ last, last = (off + buf.length - 1) / 4096 := ⟨_, rfl⟩
  -- `Write` fails as its loop does, with the state of the loop
  have hloop : (∀ e, (m.write buf off).1 = .error e → m.ReadOnly (m.write buf off).2) ↔
      ∀ e m', writeLoop buf off (last - off / 4096 + 1).toNat (off / 4096) m = (.error e, m') →
        m.ReadOnly m' := by
    rw [hlast]
    rcases write_of_range hi hr (by omega) with ⟨e, m', hl, hw⟩ | ⟨m', m'', hl, hw⟩
    · rw [hl, hw]
      constructor
      · rintro h e' m'' heq
        cases heq
        exact h e rfl
      · rintro h e' -
        exact h e m' rfl
    · rw [hl, hw]
      exact iff_of_true (fun e h => by cases h) fun e _ h => by cases h
  rw [hloop]
  by_cases hlt : off / 4096 < last
  · rcases writeLoop_before_last m hr (hlast ▸ hlt) with
      ⟨hmod, e, m', hread, hrun⟩ | ⟨m', new, hfirst, hne, hnew, hrun⟩
    · rw [← hlast] at hrun
      rw [hrun]
      refine iff_of_true ?_ ?_
      · rintro e' m'' heq
        cases heq
        have hro := readOnly_readLocked 4096 (off / 4096 * 4096) m
        rwa [hread] at hro
      · rintro ⟨-, -, -, -, m'', hfirst, -⟩
        rw [FirstBlockDone, if_neg hmod, hread] at hfirst
        obtain ⟨block, heq⟩ := hfirst
        cases heq
    · rw [← hlast] at hnew hrun
      rw [hrun, readOnly_last_iff hr hlast hlt hfirst.pendingRecords_eq hne hnew]
      refine not_congr ⟨?_, ?_⟩
      · rintro ⟨hpart, he⟩
        exact ⟨hr, hi, hlast ▸ hlt, hpart, m', hfirst, hlast ▸ he⟩
      · rintro ⟨-, -, -, hpart, m₁, hfirst₁, he⟩
        rw [hfirst₁.unique hfirst, ← hlast] at he
        exact ⟨hpart, he⟩
  · have hle : off / 4096 ≤ last := hlast ▸ Int.ediv_le_ediv (by decide) (by omega)
    have hone : (last - off / 4096 + 1).toNat = 1 := by omega
    rw [hone]
    refine iff_of_true ?_ fun h => hlt (hlast ▸ h.2.2.1)
    exact fun e m' h => readOnly_of_one_block m hr (by omega) (by omega) h

/-- A file with one record, for block 1, whose `pread` succeeds during recovery and fails with
`EIO` when the block is read again. -/
def unreadableBlock : LocalStorage where
  file := (⟨1, Block.ofList zeroBlock⟩ : PendingRecord).encode 1
  appends := []
  preads := [.all, ⟨[], some fun message => ⟨.unknown, message ++ ": Input/output error"⟩⟩]
  fstats := []
  fsyncs := []
  appended := []

/-- **A `Write` that fails can be seen.** It covers block 0 and the first byte of block 1, which
cannot be read. The record of block 0 stays buffered: `Read` returns it, the next `Sync` succeeds
and appends it, and a fresh `Init` on the file recovers it. -/
theorem failed_write_visible :
    letI := wireProto
    let m := (init (new unreadableBlock)).2
    let m' := (m.write (List.replicate 4097 1) 0).2
    (init (new unreadableBlock)).1 = .ok () ∧
      (m.write (List.replicate 4097 1) 0).1 =
        .error ⟨.unknown, "Failed to pread from file: Input/output error"⟩ ∧
      (m.read 1 0).1 = .ok [0] ∧ (m'.read 1 0).1 = .ok [1] ∧ m'.sync.1 = .ok () ∧
      ((init (new (LocalStorage.ofFile m'.sync.2.storage.file))).2.read 1 0).1 = .ok [1] := by
  decide +kernel

end SqliteGcs
