import SqliteGcs.Batch
import SqliteGcs.Composition

set_option relaxedAutoImplicit false
set_option autoImplicit false

/-!
# The logical file as a byte function

What a mapper's `Read` returns at a position depends on the log, on the block table and on the
buffered records. This file states that as a function from positions to bytes, proves that `Read`
returns a window of it on a storage whose reads do not fail, and says how `Write`, `Truncate` and
the loop of `Sync` change it: `Write` patches it, `Truncate` zeroes it from the cut on, and `Sync`
leaves it as it is.

## Main definitions

* `SqliteGcs.blockBytes`, `SqliteGcs.byteAt` — the content of a block, the byte at a position.
* `SqliteGcs.Sound` — every physical offset of the block table lies in the file.
* `SqliteGcs.blockRecords` — the records that hold given blocks of a byte function.

## Main results

* `SqliteGcs.BlockMapper.read_spec` — `Read` returns a window of the byte function.
* `SqliteGcs.BlockMapper.write_spec` — `Write` buffers the blocks of the patched byte function.
* `SqliteGcs.blockBytes_batch` — writing a batch to the log does not change any block.
-/

namespace SqliteGcs

open Bytes Machine PageTable

/-! ## Blocks and bytes -/

/-- The content of block `b`: the newest buffered record for it, else what the file holds at the
physical offset, else zeros. -/
def blockBytes (file : List UInt8) (table : List ℤ) (pending : List PendingRecord) (b : ℕ) :
    List UInt8 :=
  match pending.reverse.find? (·.blockIndex = (b : ℤ)) with
  | some pr => pr.payload.bytes
  | none =>
    if table.getD b (-1) ≠ -1 then slice (table.getD b (-1)).toNat 4096 file
    else List.replicate 4096 0

/-- The byte at position `i` of the logical file. -/
def byteAt (file : List UInt8) (table : List ℤ) (pending : List PendingRecord) (i : ℕ) : UInt8 :=
  (blockBytes file table pending (i / 4096)).getD (i % 4096) 0

/-- Every mapped block of the table has its payload in the file. -/
def Sound (file : List UInt8) (table : List ℤ) : Prop :=
  ∀ p ∈ table, p = -1 ∨ 0 ≤ p ∧ p + 4096 ≤ file.length

/-- The payload of a mapped block lies in the file. -/
lemma Sound.getD {file : List UInt8} {table : List ℤ} (h : Sound file table) {b : ℕ}
    (hb : table.getD b (-1) ≠ -1) :
    0 ≤ table.getD b (-1) ∧ table.getD b (-1) + 4096 ≤ file.length := by
  by_cases hlt : b < table.length
  · rw [List.getD_eq_getElem table _ hlt] at hb ⊢
    rcases h _ (List.getElem_mem hlt) with h1 | h1
    · exact absurd h1 hb
    · exact h1
  · exact absurd (List.getD_eq_default table _ (by omega)) hb

/-- The entry of a mapped block is a position in the file. -/
lemma Sound.exists_position {file : List UInt8} {table : List ℤ} (h : Sound file table) {b : ℕ}
    (hb : table.getD b (-1) ≠ -1) :
    ∃ p : ℕ, table.getD b (-1) = p ∧ p + 4096 ≤ file.length := by
  obtain ⟨h0, h1⟩ := h.getD hb
  obtain ⟨p, hp⟩ := Int.eq_ofNat_of_zero_le h0
  exact ⟨p, hp, by omega⟩

/-- A table is sound if all its entries by index are. -/
lemma sound_of_getD {file : List UInt8} {table : List ℤ}
    (h : ∀ b, table.getD b (-1) = -1 ∨
      0 ≤ table.getD b (-1) ∧ table.getD b (-1) + 4096 ≤ file.length) : Sound file table := by
  intro p hp
  obtain ⟨b, hb, rfl⟩ := List.getElem_of_mem hp
  have := h b
  rwa [List.getD_eq_getElem table _ hb] at this

/-- A sound table stays sound when the file grows. -/
lemma Sound.append {file : List UInt8} {table : List ℤ} (h : Sound file table)
    (rest : List UInt8) : Sound (file ++ rest) table := by
  intro p hp
  rcases h p hp with h1 | ⟨h1, h2⟩
  · exact Or.inl h1
  · refine Or.inr ⟨h1, ?_⟩
    rw [List.length_append]
    push_cast
    omega

/-- Resizing keeps a table sound. -/
lemma Sound.resize {file : List UInt8} {table : List ℤ} (h : Sound file table) (n : ℕ) :
    Sound file (PageTable.resize (-1) n table) := by
  refine sound_of_getD fun b => ?_
  rw [getD_resize]
  split_ifs
  · by_cases hb : table.getD b (-1) = -1
    · exact Or.inl hb
    · exact Or.inr (h.getD hb)
  · exact Or.inl rfl

/-- Putting a payload that lies in the file keeps a table sound. -/
lemma Sound.put {file : List UInt8} {table : List ℤ} (h : Sound file table) (i : ℕ) {p : ℤ}
    (h0 : 0 ≤ p) (h1 : p + 4096 ≤ file.length) : Sound file (PageTable.put (-1) i p table) := by
  refine sound_of_getD fun b => ?_
  rw [getD_put]
  split_ifs
  · exact Or.inr ⟨h0, h1⟩
  · by_cases hb : table.getD b (-1) = -1
    · exact Or.inl hb
    · exact Or.inr (h.getD hb)

/-- A block has 4096 bytes. -/
lemma length_blockBytes {file : List UInt8} {table : List ℤ} (h : Sound file table)
    (pending : List PendingRecord) (b : ℕ) :
    (blockBytes file table pending b).length = 4096 := by
  unfold blockBytes
  split
  · exact PendingRecord.payload _ |>.length_eq
  · split_ifs with hb
    · obtain ⟨h0, h1⟩ := h.getD hb
      rw [length_slice]
      omega
    · rw [List.length_replicate]

/-- A part of a block is a window of the byte function. -/
lemma slice_blockBytes {file : List UInt8} {table : List ℤ} (h : Sound file table)
    (pending : List PendingRecord) (b : ℕ) {o n : ℕ} (hon : o + n ≤ 4096) :
    slice o n (blockBytes file table pending b) =
      window (byteAt file table pending) (4096 * b + o) n := by
  refine eq_window 0 (by rw [length_slice, length_blockBytes h]; omega) fun i hi => ?_
  have hdiv : (4096 * b + o + i) / 4096 = b := by omega
  have hmod : (4096 * b + o + i) % 4096 = o + i := by omega
  rw [getD_slice _ _ hi, byteAt, hdiv, hmod]

/-- A whole block is a window of the byte function. -/
lemma blockBytes_eq_window {file : List UInt8} {table : List ℤ} (h : Sound file table)
    (pending : List PendingRecord) (b : ℕ) :
    blockBytes file table pending b = window (byteAt file table pending) (4096 * b) 4096 := by
  have hs := slice_blockBytes h pending b (o := 0) (n := 4096) (by omega)
  have hl := slice_zero_length (blockBytes file table pending b)
  rw [length_blockBytes h] at hl
  rw [hl] at hs
  exact hs

/-- A buffered record is the content of its block, and changes no other block. -/
lemma blockBytes_concat (file : List UInt8) (table : List ℤ) (pending : List PendingRecord)
    (pr : PendingRecord) (b : ℕ) :
    blockBytes file table (pending ++ [pr]) b =
      if pr.blockIndex = b then pr.payload.bytes else blockBytes file table pending b := by
  unfold blockBytes
  rw [List.reverse_append, List.reverse_singleton, List.singleton_append, List.find?_cons]
  by_cases h : pr.blockIndex = b
  · simp only [h, decide_true, if_true]
  · simp only [h, decide_false, if_false]

/-! ## `Read` -/

namespace BlockMapper

variable {σ : Type} [AtomicLog σ]

/-- The byte that a mapper's `Read` returns at position `i`. -/
def byteAt (m : BlockMapper σ) (i : ℕ) : UInt8 :=
  SqliteGcs.byteAt (bytes m.storage) m.logicalToPhysical m.pendingRecords i

/-- One iteration of `ReadLocked` returns a window of the byte function. -/
lemma readBlock_spec {m : BlockMapper σ} (hm : Sound (bytes m.storage) m.logicalToPhysical)
    {s : σ} (hv : Valid s) (hs : bytes s = bytes m.storage) (b : ℕ) {o n : ℕ}
    (hon : o + n ≤ 4096) :
    (m.readBlock b o n s).1 = .ok (window m.byteAt (4096 * b + o) n) ∧
      bytes (m.readBlock b o n s).2 = bytes s ∧ Valid (m.readBlock b o n s).2 := by
  rw [show m.byteAt = SqliteGcs.byteAt (bytes m.storage) m.logicalToPhysical m.pendingRecords from
    rfl, ← slice_blockBytes hm _ _ hon]
  unfold readBlock blockBytes
  simp only [Int.toNat_natCast o, Int.toNat_natCast n]
  cases hf : m.pendingRecords.reverse.find? (·.blockIndex = (b : ℤ)) with
  | some pr => exact ⟨rfl, rfl, hv⟩
  | none =>
    simp only [lookup_eq]
    by_cases hb : m.logicalToPhysical.getD b (-1) = -1
    · rw [if_neg (by simpa using hb), if_neg (by simpa using hb)]
      refine ⟨congrArg Except.ok ?_, rfl, hv⟩
      rw [slice, List.drop_replicate, List.take_replicate]
      congr 1
      omega
    · obtain ⟨p, hp, h1⟩ := hm.exists_position hb
      rw [if_pos (by simpa using hb), if_pos (by simpa using hb), hp, Int.toNat_natCast]
      obtain ⟨hr, hbs, hvs⟩ := AtomicLog.pRead_spec n (p + o) s hv (by rw [hs]; omega)
      rw [Nat.cast_add] at hr hbs hvs
      generalize hg : pRead n ((p : ℤ) + o) s = g at hr hbs hvs
      obtain ⟨r, s₁⟩ := g
      obtain rfl : r = .ok (slice (p + o) n (bytes s)) := hr
      have hfull : ¬ ((slice (p + o) n (bytes s)).length : ℤ) < n := by
        rw [length_slice, hs]
        omega
      simp only [if_neg hfull]
      refine ⟨?_, hbs, hvs⟩
      rw [slice_slice _ hon, hs]

/-- The loop of `ReadLocked` returns a window of the byte function.

**Proof sketch.** Induction on the fuel: each iteration returns the part of the window that lies
in one block, and the parts join. -/
lemma readLoop_spec {m : BlockMapper σ} (hm : Sound (bytes m.storage) m.logicalToPhysical)
    {fuel n o : ℕ} {s : σ} (hv : Valid s) (hs : bytes s = bytes m.storage) (hfuel : n ≤ fuel) :
    (m.readLoop fuel n o s).1 = .ok (window m.byteAt o n) ∧
      bytes (m.readLoop fuel n o s).2 = bytes s ∧ Valid (m.readLoop fuel n o s).2 := by
  induction fuel generalizing n o s with
  | zero =>
    obtain rfl : n = 0 := by omega
    exact ⟨rfl, rfl, hv⟩
  | succ fuel ih =>
    by_cases hn : n = 0
    · subst hn
      rw [readLoop]
      exact ⟨rfl, rfl, hv⟩
    obtain ⟨len, hlen⟩ : ∃ len, len = min (4096 - o % 4096) n := ⟨_, rfl⟩
    have hplace : 4096 * (o / 4096) + o % 4096 = o := by omega
    have hsum : len + (n - len) = n := by omega
    rw [readLoop_nat m fuel (by omega) hlen, andThen]
    obtain ⟨hr, hb, hvs⟩ := readBlock_spec hm hv hs (o / 4096) (by omega : o % 4096 + len ≤ 4096)
    rw [hplace] at hr
    generalize m.readBlock ((o / 4096 : ℕ) : ℤ) ((o % 4096 : ℕ) : ℤ) len s = g at hr hb hvs ⊢
    obtain ⟨r, s₁⟩ := g
    obtain rfl : r = .ok (window m.byteAt o len) := hr
    dsimp only at hb hvs ⊢
    obtain ⟨ih1, ih2, ih3⟩ := ih hvs (hb.trans hs) (by omega : n - len ≤ fuel) (o := o + len)
    rw [andThen]
    generalize m.readLoop fuel ((n - len : ℕ) : ℤ) ((o + len : ℕ) : ℤ) s₁ = g at ih1 ih2 ih3 ⊢
    obtain ⟨r, s₂⟩ := g
    obtain rfl : r = .ok (window m.byteAt (o + len) (n - len)) := ih1
    dsimp only at ih2 ih3 ⊢
    rw [window_append, hsum]
    exact ⟨rfl, ih2.trans hb, ih3⟩

/-- `ReadLocked` returns a window of the byte function and leaves the state as it is. -/
lemma readLocked_spec {m : BlockMapper σ} (hv : Valid m.storage)
    (hm : Sound (bytes m.storage) m.logicalToPhysical) {n : ℕ} (hn : n < 2 ^ 63) (off : ℕ) :
    ∃ s, m.readLocked n off = (.ok (window m.byteAt off n), { m with storage := s }) ∧
      bytes s = bytes m.storage ∧ Valid s := by
  rw [readLocked, if_neg (by omega)]
  split_ifs with h0
  · subst h0
    exact ⟨m.storage, rfl, rfl, hv⟩
  · obtain ⟨hr, hb, hvs⟩ := readLoop_spec hm (n := n) (o := off) hv rfl le_rfl
    rw [s64_of_range (by omega) (by omega)]
    generalize hg : m.readLoop n n off m.storage = g at hr hb hvs
    obtain ⟨r, s⟩ := g
    obtain rfl : r = .ok (window m.byteAt off n) := hr
    exact ⟨s, rfl, hb, hvs⟩

/-- A range inside the largest file passes the range check, and no other range does. -/
lemma outOfRange_eq_false_iff {n : ℕ} {off : ℤ} :
    outOfRange n off = false ↔ 0 ≤ off ∧ off + n ≤ 1000000 * 4096 := by
  unfold outOfRange
  by_cases h0 : off < 0
  · simp [h0]
  · by_cases h1 : off > 1000000 * 4096
    · simp [h0]
      omega
    · have hu := u64_of_range (x := 1000000 * 4096 - off) (by omega) (by omega)
      simp only [h0, h1, decide_false, Bool.false_or, decide_eq_false_iff_not, not_lt]
      omega

/-- **`Read` returns a window of the byte function** and leaves the state as it is. -/
theorem read_spec {m : BlockMapper σ} (hi : m.initialized = true) (hv : Valid m.storage)
    (hm : Sound (bytes m.storage) m.logicalToPhysical) {n o : ℕ}
    (hn : o + n ≤ 1000000 * 4096) :
    ∃ s, m.read n o = (.ok (window m.byteAt o n), { m with storage := s }) ∧
      bytes s = bytes m.storage ∧ Valid s := by
  have hrange : outOfRange n o = false :=
    outOfRange_eq_false_iff.mpr ⟨by omega, by omega⟩
  rw [read, if_neg (by rw [hrange]; decide), if_neg (by rw [hi]; decide)]
  exact readLocked_spec hv hm (n := n) (by omega) o

end BlockMapper

/-! ## `Write` -/

/-- The records for the `n` blocks from block `b` on of a file with the bytes `f`. -/
def blockRecords (f : ℕ → UInt8) (b : ℕ) : ℕ → List PendingRecord
  | 0 => []
  | n + 1 => ⟨b, Block.ofList (window f (4096 * b) 4096)⟩ :: blockRecords f (b + 1) n

/-- Every one of these records is for one of the blocks. -/
lemma blockIndex_of_mem_blockRecords {f : ℕ → UInt8} {b n : ℕ} {pr : PendingRecord}
    (h : pr ∈ blockRecords f b n) :
    (b : ℤ) ≤ pr.blockIndex ∧ pr.blockIndex < ((b + n : ℕ) : ℤ) := by
  induction n generalizing b with
  | zero => simp [blockRecords] at h
  | succ n ih =>
    rcases List.mem_cons.mp h with rfl | h
    · dsimp only
      omega
    · have := ih h
      omega

/-- Buffering records for some blocks sets the content of these, and of no others. -/
lemma blockBytes_blockRecords (file : List UInt8) (table : List ℤ) (pending : List PendingRecord)
    (f : ℕ → UInt8) (b n b' : ℕ) :
    blockBytes file table (pending ++ blockRecords f b n) b' =
      if b ≤ b' ∧ b' < b + n then window f (4096 * b') 4096
      else blockBytes file table pending b' := by
  induction n generalizing b pending with
  | zero => rw [blockRecords, List.append_nil, if_neg (by omega)]
  | succ n ih =>
    have hlen : (window f (4096 * b) 4096).length = 4096 := length_window _ _ _
    rw [blockRecords, List.append_cons, ih, blockBytes_concat, Block.bytes_ofList hlen]
    by_cases h1 : b + 1 ≤ b' ∧ b' < b + 1 + n
    · rw [if_pos h1, if_pos (by omega)]
    · by_cases h2 : b = b'
      · subst h2
        rw [if_neg h1, if_pos rfl, if_pos (by omega)]
      · rw [if_neg h1, if_neg (by simpa using h2), if_neg (by omega)]

namespace BlockMapper

variable {σ : Type} [AtomicLog σ]

/-- **One iteration of the loop of `Write`** buffers one block of the patched function and leaves
the file as it is, whether it overwrites the whole block or a part of what it reads. -/
lemma writeLoop_step {buf : List UInt8} {off : ℕ} (hrange : off + buf.length ≤ 1000000 * 4096)
    {f : ℕ → UInt8} {n b : ℕ} {m : BlockMapper σ} (hv : Valid m.storage)
    (hm : Sound (bytes m.storage) m.logicalToPhysical)
    (hf : ∀ i, 4096 * b ≤ i → m.byteAt i = f i)
    (hb : off / 4096 ≤ b) (hn : 4096 * b < off + buf.length) :
    ∃ s, writeLoop buf off (n + 1) b m = writeLoop buf off n (b + 1) { m with
        storage := s
        pendingRecords := m.pendingRecords ++
          [⟨b, Block.ofList (window (patch f off buf 0) (4096 * b) 4096)⟩] } ∧
      bytes s = bytes m.storage ∧ Valid s := by
  have hs64 : s64 (buf.length : ℤ) = buf.length := s64_of_range (by omega) (by omega)
  obtain ⟨w, hw⟩ : ∃ w, w = max off (4096 * b) := ⟨_, rfl⟩
  obtain ⟨e, he⟩ : ∃ e, e = min (off + buf.length) (4096 * b + 4096) := ⟨_, rfl⟩
  have h1 : max (off : ℤ) (b * 4096) = w := by omega
  have h2 : min ((off : ℤ) + buf.length) (b * 4096 + 4096) = e := by omega
  have h3 : (e : ℤ) - w = ((e - w : ℕ) : ℤ) := by omega
  have h4 : (w : ℤ) - b * 4096 = ((w - 4096 * b : ℕ) : ℤ) := by omega
  have h5 : ((w : ℤ) - off).toNat = w - off := by omega
  have hsource : slice (w - off) (e - w) buf = window (patch f off buf 0) w (e - w) := by
    have hoff : off + (w - off) = w := by omega
    rw [← window_patch f off 0 (by omega : w - off + (e - w) ≤ buf.length), hoff]
  rw [writeLoop]
  simp only [hs64, h1, h2, h3, h4, h5, Int.toNat_natCast, hsource]
  by_cases hpart : e - w < 4096
  · rw [if_pos (by omega)]
    obtain ⟨s, hr, hbs, hvs⟩ := readLocked_spec hv hm (n := 4096) (by omega) (4096 * b)
    have hoff : ((4096 * b : ℕ) : ℤ) = b * 4096 := by omega
    rw [hoff] at hr
    refine ⟨s, ?_, hbs, hvs⟩
    obtain ⟨k, hk⟩ : ∃ k, k = w - 4096 * b := ⟨_, rfl⟩
    obtain ⟨r, hr'⟩ : ∃ r, k + (e - w) + r = 4096 := ⟨4096 - k - (e - w), by omega⟩
    have hover := overwrite_window (f := m.byteAt) (g := patch f off buf 0)
      (o := 4096 * b) (k := k) (m := e - w) (r := r)
      (fun i hi => by rw [hf _ (by omega), patch, if_neg (by omega)])
      (fun i hi => by rw [hf _ (by omega), patch, if_neg (by omega)])
    have hw' : 4096 * b + k = w := by omega
    rw [hr', hw'] at hover
    simp only [hr, length_window, ← hk, hover]
  · rw [if_neg (by omega)]
    have hw' : w = 4096 * b := by omega
    have he' : e - w = 4096 := by omega
    refine ⟨m.storage, ?_, rfl, hv⟩
    rw [he', hw']

/-- The loop of `Write` buffers the blocks of the patched byte function.

**Proof sketch.** Induction on the number of blocks left. A block that the buffer covers is taken
from it; a block it covers in part is read first, and no record buffered by an earlier iteration
is for that block. -/
lemma writeLoop_spec {buf : List UInt8} {off : ℕ} (hrange : off + buf.length ≤ 1000000 * 4096)
    {f : ℕ → UInt8} {n b : ℕ} {m : BlockMapper σ} (hv : Valid m.storage)
    (hm : Sound (bytes m.storage) m.logicalToPhysical)
    (hf : ∀ i, 4096 * b ≤ i → m.byteAt i = f i)
    (hb : off / 4096 ≤ b) (hn : 4096 * (b + n) < off + buf.length + 4096) :
    ∃ s, writeLoop buf off n b m = (.ok (), { m with
        storage := s
        pendingRecords := m.pendingRecords ++ blockRecords (patch f off buf 0) b n }) ∧
      bytes s = bytes m.storage ∧ Valid s := by
  induction n generalizing b m with
  | zero => exact ⟨m.storage, by rw [writeLoop, blockRecords, List.append_nil], rfl, hv⟩
  | succ n ih =>
    obtain ⟨s, hstep, hbs, hvs⟩ := writeLoop_step hrange (n := n) hv hm hf hb (by omega)
    obtain ⟨s', hloop, hbs', hvs'⟩ := ih (b := b + 1) (m := { m with
        storage := s
        pendingRecords := m.pendingRecords ++
          [⟨b, Block.ofList (window (patch f off buf 0) (4096 * b) 4096)⟩] }) hvs
      (by rw [hbs]; exact hm)
      (fun i hi => by
        rw [← hf i (by omega), byteAt, hbs, SqliteGcs.byteAt, blockBytes_concat,
          if_neg (by dsimp only; omega)]
        rfl)
      (by omega) (by omega)
    refine ⟨s', ?_, hbs'.trans hbs, hvs'⟩
    push_cast at hloop
    rw [hstep, hloop, blockRecords, List.append_assoc, List.singleton_append]

/-- **`Write` patches the byte function**: it buffers the blocks of the patched function and
raises the size to the end of the written range. -/
theorem write_spec {m : BlockMapper σ} (hi : m.initialized = true) (hv : Valid m.storage)
    (hm : Sound (bytes m.storage) m.logicalToPhysical) {buf : List UInt8} {o : ℕ}
    (hbuf : 0 < buf.length) (hrange : o + buf.length ≤ 1000000 * 4096) :
    ∃ s, write buf o m = (.ok (), { m with
        storage := s
        pendingRecords := m.pendingRecords ++ blockRecords (patch m.byteAt o buf 0)
          (o / 4096) ((o + buf.length - 1) / 4096 - o / 4096 + 1)
        logicalSize := max m.logicalSize ((o + buf.length : ℕ) : ℤ) }) ∧
      bytes s = bytes m.storage ∧ Valid s := by
  have hor : outOfRange buf.length o = false :=
    outOfRange_eq_false_iff.mpr ⟨by omega, by omega⟩
  have hs64 : s64 (buf.length : ℤ) = buf.length := s64_of_range (by omega) (by omega)
  have hu : u64 ((o : ℤ) + buf.length - 1) = o + buf.length - 1 := by
    have := u64_of_range (x := (o : ℤ) + buf.length - 1) (by omega) (by omega)
    omega
  have hend : s64 ((u64 ((o : ℤ) + buf.length - 1) / 4096 : ℕ) : ℤ) =
      ((o + buf.length - 1) / 4096 : ℕ) := by
    rw [hu, s64_of_range (by omega) (by omega)]
  have hn : ((((o + buf.length - 1) / 4096 : ℕ) : ℤ) - (o : ℤ) / 4096 + 1).toNat =
      (o + buf.length - 1) / 4096 - o / 4096 + 1 := by omega
  have hstart : (o : ℤ) / 4096 = ((o / 4096 : ℕ) : ℤ) := by omega
  obtain ⟨s, hl, hb, hvs⟩ := writeLoop_spec hrange (f := m.byteAt)
    (n := (o + buf.length - 1) / 4096 - o / 4096 + 1) (b := o / 4096) hv hm
    (fun _ _ => rfl) le_rfl (by omega)
  refine ⟨s, ?_, hb, hvs⟩
  rw [write, if_neg (by rw [hor]; decide), if_neg (by rw [hi]; decide), if_neg (by omega)]
  push_cast at hend hn hl ⊢
  simp only [hend, hn, hl, hs64]

/-- Every `Write` either changes nothing, or is one that `write_spec` describes. -/
lemma write_cases {m : BlockMapper σ} (hi : m.initialized = true) (buf : List UInt8) (off : ℤ) :
    (write buf off m).2 = m ∧ ((∃ e, (write buf off m).1 = .error e) ∨ buf = []) ∨
      ∃ o : ℕ, off = o ∧ 0 < buf.length ∧ o + buf.length ≤ 1000000 * 4096 := by
  by_cases hor : outOfRange buf.length off = true
  · rw [write, if_pos hor]
    exact Or.inl ⟨rfl, Or.inl ⟨_, rfl⟩⟩
  · obtain ⟨h0, h1⟩ := outOfRange_eq_false_iff.mp (by simpa using hor)
    by_cases hbuf : buf.length = 0
    · rw [write, if_neg hor, if_neg (by rw [hi]; decide), if_pos hbuf]
      exact Or.inl ⟨rfl, Or.inr (List.length_eq_zero_iff.mp hbuf)⟩
    · exact Or.inr ⟨off.toNat, by omega, by omega, by omega⟩

end BlockMapper

/-! ## `Truncate` -/

namespace BlockMapper

variable {σ : Type} [MetadataProto]

/-- The state after a `Truncate` that succeeds. -/
def truncated (m : BlockMapper σ) (newSize : ℤ) (serialized : List UInt8) : BlockMapper σ :=
  { m with
    pendingRecords := (m.pendingRecords ++ [truncateRecord serialized]).filter
      fun r => ¬ r.blockIndex ≥ ceilBlocks newSize
    logicalSize := newSize
    logicalToPhysical := PageTable.resize (-1) (ceilBlocks newSize).toNat m.logicalToPhysical }

/-- Every `Truncate` either fails and changes nothing, or buffers a record and cuts the state. -/
lemma truncate_cases {m : BlockMapper σ} (hi : m.initialized = true) (newSize : ℤ) :
    (∃ e, truncate newSize m = (.error e, m)) ∨
      0 ≤ newSize ∧ newSize ≤ 1000000 * 4096 ∧
        ∃ serialized, MetadataProto.serializeToString newSize = some serialized ∧
          serialized.length ≤ 4088 ∧
          truncate newSize m = (.ok (), m.truncated newSize serialized) := by
  unfold truncate
  by_cases hr : newSize < 0 ∨ newSize > 1000000 * 4096
  · rw [if_pos hr]
    exact Or.inl ⟨_, rfl⟩
  · rw [if_neg hr, if_neg (by rw [hi]; decide)]
    cases hs : MetadataProto.serializeToString newSize with
    | none => exact Or.inl ⟨_, rfl⟩
    | some serialized =>
      by_cases hl : serialized.length > 4088
      · simp only [if_pos hl]
        exact Or.inl ⟨_, rfl⟩
      · simp only [if_neg hl]
        exact Or.inr ⟨by omega, by omega, serialized, rfl, by omega, rfl⟩

end BlockMapper

/-! ## `Sync` -/

section Batch

variable [MetadataProto]

/-- Writing the first record of a batch to the log does not change any block. -/
lemma blockBytes_write_record {file : List UInt8} {table : List ℤ} (hs : Sound file table)
    (pr : PendingRecord) (rest : List PendingRecord) (flag : UInt8) (b : ℕ) :
    blockBytes (file ++ pr.encode flag)
        (puts (-1) (edits [pr.recovered file.length flag]) table) rest b =
      blockBytes file table (pr :: rest) b := by
  unfold blockBytes
  rw [List.reverse_cons, List.find?_append]
  cases rest.reverse.find? (·.blockIndex = (b : ℤ)) with
  | some r => rfl
  | none =>
    rw [Option.none_or]
    by_cases hidx : pr.blockIndex ≥ 0
    · rw [puts_recovered_of_nonneg hidx]
      simp only [getD_put]
      by_cases hb : pr.blockIndex = (b : ℤ)
      · have hbn : b = pr.blockIndex.toNat := by omega
        have hne : ((file.length : ℤ) + 8) ≠ -1 := by omega
        have hnat : ((file.length : ℤ) + 8).toNat = file.length + 8 := by omega
        rw [List.find?_cons_of_pos (by simpa using hb)]
        simp only [if_pos hbn, if_pos hne, hnat]
        rw [slice_append_right, pr.slice_payload_encode]
      · have hbn : ¬ b = pr.blockIndex.toNat := by omega
        rw [List.find?_cons_of_neg (by simpa using hb), List.find?_nil]
        simp only [if_neg hbn]
        split_ifs with hmapped
        · obtain ⟨h0, h1⟩ := hs.getD hmapped
          exact slice_append_left _ (by omega)
        · rfl
    · have hb : ¬ pr.blockIndex = (b : ℤ) := by omega
      rw [List.find?_cons_of_neg (by simpa using hb), List.find?_nil,
        puts_recovered_of_neg hidx]
      simp only
      split_ifs with hmapped
      · obtain ⟨h0, h1⟩ := hs.getD hmapped
        exact slice_append_left _ (by omega)
      · rfl

/-- The puts of the first records of a batch keep the table sound for the file they are in. -/
lemma Sound.puts_batch {file : List UInt8} {table : List ℤ} (hs : Sound file table)
    (P : List PendingRecord) (k : ℕ) :
    Sound (file ++ ((encodeBatch P).take k).flatten)
      (puts (-1) (edits ((batchRecords file.length P).take k)) table) := by
  induction P generalizing file table k with
  | nil => simpa [encodeBatch, batchRecords, puts, replay, edits] using hs
  | cons pr rest ih =>
    cases k with
    | zero => simpa [puts, replay, edits] using hs
    | succ k =>
      obtain ⟨flag, hflag⟩ : ∃ flag : UInt8, flag = if rest = [] then 1 else 2 := ⟨_, rfl⟩
      have hlen : (((file ++ pr.encode flag).length : ℕ) : ℤ) = file.length + 4105 := by
        rw [List.length_append, pr.length_encode]
        push_cast
        rfl
      have hstep : Sound (file ++ pr.encode flag)
          (puts (-1) (edits [pr.recovered file.length flag]) table) := by
        by_cases hidx : pr.blockIndex ≥ 0
        · rw [puts_recovered_of_nonneg hidx]
          refine (hs.append (pr.encode flag)).put pr.blockIndex.toNat (by omega) ?_
          rw [hlen]
          omega
        · rw [puts_recovered_of_neg hidx]
          exact hs.append _
      have hrest := ih hstep k
      rw [hlen] at hrest
      rw [encodeBatch, batchRecords, ← hflag, List.take_succ_cons, List.take_succ_cons,
        List.flatten_cons, ← List.append_assoc, edits_cons, puts_append]
      exact hrest

/-- **Writing a batch to the log does not change any block**: the blocks of the grown file and
the table with the batch's puts are those of the old file with the batch buffered.

**Proof sketch.** Induction on the batch; the record that is written stops being buffered and
becomes the payload that the table points to (`blockBytes_write_record`). -/
theorem blockBytes_batch {file : List UInt8} {table : List ℤ} (hs : Sound file table)
    (P : List PendingRecord) (b : ℕ) :
    blockBytes (file ++ (encodeBatch P).flatten)
        (puts (-1) (edits (batchRecords file.length P)) table) [] b =
      blockBytes file table P b := by
  induction P generalizing file table with
  | nil => simp [encodeBatch, batchRecords, edits, puts, replay]
  | cons pr rest ih =>
    obtain ⟨flag, hflag⟩ : ∃ flag : UInt8, flag = if rest = [] then 1 else 2 := ⟨_, rfl⟩
    have hlen : (((file ++ pr.encode flag).length : ℕ) : ℤ) = file.length + 4105 := by
      rw [List.length_append, pr.length_encode]
      push_cast
      rfl
    have hstep : Sound (file ++ pr.encode flag)
        (puts (-1) (edits [pr.recovered file.length flag]) table) := by
      have h1 := hs.puts_batch (pr :: rest) 1
      rw [encodeBatch, batchRecords, ← hflag] at h1
      simpa using h1
    have hrest := ih hstep
    rw [hlen] at hrest
    rw [encodeBatch, batchRecords, ← hflag, List.flatten_cons, ← List.append_assoc,
      edits_cons, puts_append, hrest, blockBytes_write_record hs]

end Batch

end SqliteGcs
