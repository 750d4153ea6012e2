import SqliteGcs.Lib.Simulation
import SqliteGcs.Live

set_option relaxedAutoImplicit false
set_option autoImplicit false

/-!
# The logical file

What a mapper is for: a file of bytes that is written, cut and read. This file states that
abstract file, with the blocks that were ever written and not cut off again, and proves that a
mapper on an atomic log refines it: `Write` and `Truncate` have their effect on the file, `Read`
returns its bytes, and `Sync` does not change it, however much of it fails.

## Main definitions

* `SqliteGcs.BlockFile` — a size, the mapped blocks and the bytes, with `write` and `truncate`.
* `SqliteGcs.BlockMapper.file` — the file that a mapper holds.
* `SqliteGcs.Call`, `SqliteGcs.Reply` — the calls of a mapper's clients, and what they return.
* `SqliteGcs.Reachable` — the states that a mapper on a storage can be in.

## Main results

* `SqliteGcs.BlockMapper.file_write`, `file_truncate`, `file_sync` — the refinement.
* `SqliteGcs.BlockMapper.read_reply` — what `Read` returns.
* `SqliteGcs.Holds.step` — a mapper refines the file that it holds, call by call.
* `SqliteGcs.holds_of_reachable` — a reachable mapper holds a file, or was never initialised.
-/

namespace SqliteGcs

open Bytes PageTable BlockMapper

/-! ## The abstract file -/

/-- A file of bytes, stored in blocks of 4096. -/
@[ext]
structure BlockFile where
  /-- The size. -/
  size : ℤ
  /-- The blocks that are stored. -/
  mapped : ℕ → Bool
  /-- The byte at each position, also beyond the size. -/
  byte : ℕ → UInt8

namespace BlockFile

/-- Write a buffer at an offset; an empty buffer changes nothing. -/
def write (buf : List UInt8) (off : ℕ) (f : BlockFile) : BlockFile :=
  if buf = [] then f
  else
    { size := max f.size (off + buf.length)
      mapped := fun b => f.mapped b || (off / 4096 ≤ b && b ≤ (off + buf.length - 1) / 4096)
      byte := patch f.byte off buf 0 }

/-- Cut the file to a size, block by block: the last block that is kept is kept as a whole. -/
def truncate (n : ℤ) (f : BlockFile) : BlockFile where
  size := n
  mapped b := f.mapped b && (b : ℤ) < ceilBlocks n
  byte i := if ((i / 4096 : ℕ) : ℤ) < ceilBlocks n then f.byte i else 0

/-- Writing nothing changes nothing. -/
lemma write_nil (off : ℕ) (f : BlockFile) : f.write [] off = f := if_pos rfl

/-- The bytes of a file after a write. -/
lemma byte_write (buf : List UInt8) (off : ℕ) (f : BlockFile) :
    (f.write buf off).byte = patch f.byte off buf 0 := by
  unfold write
  split_ifs with h
  · funext i
    rw [patch, h, if_neg (by simp)]
  · rfl

/-- The size of a file after a write. -/
lemma size_write (buf : List UInt8) (off : ℕ) (f : BlockFile) :
    (f.write buf off).size =
      if buf.length > 0 then max f.size (off + buf.length) else f.size := by
  unfold write
  by_cases h : buf = []
  · rw [if_pos h, if_neg (by simp [h])]
  · rw [if_neg h, if_pos (List.length_pos_iff.mpr h)]

end BlockFile

/-! ## Mapped blocks -/

section Mapped

variable {σ : Type}

/-- A block is mapped if a record for it is buffered, or its entry of the table is set. -/
lemma isBlockMapped_eq_true {m : BlockMapper σ} {b : ℕ} :
    m.isBlockMapped b = true ↔
      (∃ pr ∈ m.pendingRecords, pr.blockIndex = b) ∨ m.logicalToPhysical.getD b (-1) ≠ -1 := by
  have hpending : m.pendingRecords.reverse.any (·.blockIndex = (b : ℤ)) = true ↔
      ∃ pr ∈ m.pendingRecords, pr.blockIndex = b := by
    simp
  rw [isBlockMapped]
  by_cases h : ∃ pr ∈ m.pendingRecords, pr.blockIndex = b
  · rw [if_pos (hpending.mpr h)]
    exact ⟨fun _ => Or.inl h, fun _ => rfl⟩
  · rw [if_neg (mt hpending.mp h)]
    by_cases hlt : b < m.logicalToPhysical.length
    · rw [if_pos ⟨by omega, by omega⟩, Int.toNat_natCast]
      simp [h]
    · rw [if_neg (by omega), List.getD_eq_default _ _ (by omega)]
      simp [h]

end Mapped

section Batch

variable [MetadataProto]

/-- The edits of the first records of a batch are those of a batch of them: they do not depend on
the flags. -/
lemma edits_take_batchRecords (P : List PendingRecord) (offset : ℤ) (k : ℕ) :
    edits ((batchRecords offset P).take k) = edits (batchRecords offset (P.take k)) := by
  induction P generalizing offset k with
  | nil => rw [List.take_nil, batchRecords, List.take_nil]
  | cons pr rest ih =>
    cases k with
    | zero => rfl
    | succ k =>
      have hflag : ∀ flag flag' : UInt8, (pr.recovered offset flag).edit =
          (pr.recovered offset flag').edit := fun _ _ => rfl
      rw [batchRecords, List.take_succ_cons, List.take_succ_cons, batchRecords, edits, edits,
        List.filterMap_cons, List.filterMap_cons, ← edits, ← edits, ih,
        hflag (if rest = [] then 1 else 2) (if rest.take k = [] then 1 else 2)]

/-- **The table after the puts of a batch**: an entry is that of the last record for its block, or
the old one if there is none. -/
lemma getD_puts_batchRecords (P : List PendingRecord) (offset : ℤ) (table : List ℤ) (b : ℕ) :
    (∀ pr ∈ P, pr.blockIndex ≠ b) ∧
        (puts (-1) (edits (batchRecords offset P)) table).getD b (-1) = table.getD b (-1) ∨
      ∃ i, ∃ h : i < P.length, P[i].blockIndex = b ∧
        (puts (-1) (edits (batchRecords offset P)) table).getD b (-1) =
          offset + 4105 * i + 8 := by
  induction P generalizing offset table with
  | nil => exact Or.inl ⟨by simp, rfl⟩
  | cons pr rest ih =>
    obtain ⟨flag, hflag⟩ : ∃ flag : UInt8, flag = if rest = [] then 1 else 2 := ⟨_, rfl⟩
    rw [batchRecords, ← hflag, edits_cons, puts_append]
    rcases ih (offset + 4105) (puts (-1) (edits [pr.recovered offset flag]) table) with
      ⟨hne, hrest⟩ | ⟨i, hi, hidx, hrest⟩
    · rw [hrest]
      by_cases hb : pr.blockIndex = b
      · refine Or.inr ⟨0, by simp, hb, ?_⟩
        rw [puts_recovered_of_nonneg (by omega), getD_put, if_pos (by omega)]
        omega
      · refine Or.inl ⟨?_, ?_⟩
        · intro r hr
          rcases List.mem_cons.mp hr with rfl | hr
          · exact hb
          · exact hne r hr
        · by_cases h0 : pr.blockIndex ≥ 0
          · rw [puts_recovered_of_nonneg h0, getD_put, if_neg (by omega)]
          · rw [puts_recovered_of_neg h0]
    · refine Or.inr ⟨i + 1, by simpa using hi, by simpa using hidx, ?_⟩
      rw [hrest]
      push_cast
      omega

/-- **Writing a part of a buffered batch to the log does not change any block**: the records that
are still buffered hide the entries of the table that the part sets. -/
lemma blockBytes_batch_part {file : List UInt8} {table : List ℤ} (hs : Sound file table)
    (P : List PendingRecord) (k : ℕ) (more : List UInt8) (b : ℕ) :
    blockBytes (file ++ more)
        (puts (-1) (edits ((batchRecords file.length P).take k)) table) P b =
      blockBytes file table P b := by
  unfold blockBytes
  cases hf : P.reverse.find? (·.blockIndex = (b : ℤ)) with
  | some pr => rfl
  | none =>
    have hnone : ∀ pr ∈ P, pr.blockIndex ≠ b := by
      intro pr hpr
      have := List.find?_eq_none.mp hf pr (List.mem_reverse.mpr hpr)
      simpa using this
    have hentry : (puts (-1) (edits ((batchRecords file.length P).take k)) table).getD b (-1) =
        table.getD b (-1) := by
      rw [edits_take_batchRecords]
      rcases getD_puts_batchRecords (P.take k) file.length table b with
        ⟨-, h⟩ | ⟨i, hi, hidx, -⟩
      · exact h
      · exact absurd hidx (hnone _ (List.mem_of_mem_take (List.getElem_mem hi)))
    simp only [hentry]
    split_ifs with hmapped
    · obtain ⟨h0, h1⟩ := hs.getD hmapped
      exact slice_append_left _ (by omega)
    · rfl

/-- The blocks that the puts of a batch set are those that it has records for. -/
lemma getD_puts_batchRecords_ne_iff (P : List PendingRecord) {offset : ℤ} (h0 : 0 ≤ offset)
    (table : List ℤ) (b : ℕ) :
    (puts (-1) (edits (batchRecords offset P)) table).getD b (-1) ≠ -1 ↔
      (∃ pr ∈ P, pr.blockIndex = b) ∨ table.getD b (-1) ≠ -1 := by
  rcases getD_puts_batchRecords P offset table b with ⟨hne, h⟩ | ⟨i, hi, hidx, h⟩
  · rw [h]
    refine ⟨Or.inr, ?_⟩
    rintro (⟨pr, hpr, hb⟩ | hb)
    · exact absurd hb (hne pr hpr)
    · exact hb
  · rw [h]
    exact ⟨fun _ => Or.inl ⟨_, List.getElem_mem hi, hidx⟩, fun _ => by omega⟩

end Batch

/-! ## The file of a mapper -/

namespace BlockMapper

variable {σ : Type} [AtomicLog σ]

/-- The file that a mapper holds. -/
def file (m : BlockMapper σ) : BlockFile := ⟨m.logicalSize, fun b => m.isBlockMapped b, m.byteAt⟩

/-- The blocks of the file are those with a buffered record or an entry of the table. -/
lemma file_mapped_eq_true {m : BlockMapper σ} {b : ℕ} :
    m.file.mapped b = true ↔
      (∃ pr ∈ m.pendingRecords, pr.blockIndex = b) ∨ m.logicalToPhysical.getD b (-1) ≠ -1 :=
  isBlockMapped_eq_true

/-- The file does not depend on the state of the storage, but on its bytes. -/
lemma file_of_bytes {m : BlockMapper σ} {s : σ} (hs : bytes s = bytes m.storage) :
    file { m with storage := s } = m.file := by
  have hbyte : byteAt { m with storage := s } = m.byteAt := by
    funext i
    unfold byteAt
    rw [hs]
  rw [file, hbyte]
  rfl

/-- What `Read` returns: a range that passes the check is read from the file. -/
theorem read_reply {m : BlockMapper σ} (h : Ready m) (n : ℕ) (off : ℤ) :
    (m.read n off).1 = (if outOfRange n off then
        .error ⟨.invalidArgument, "Read offset/size is out of range"⟩
      else .ok (window m.file.byte off.toNat n)) ∧
      Ready (m.read n off).2 ∧ (m.read n off).2.file = m.file := by
  by_cases hor : outOfRange n off = true
  · rw [read, if_pos hor, if_pos hor]
    exact ⟨rfl, h, rfl⟩
  · obtain ⟨h0, h1⟩ := outOfRange_eq_false_iff.mp (by simpa using hor)
    obtain ⟨o, rfl⟩ : ∃ o : ℕ, off = o := ⟨off.toNat, by omega⟩
    obtain ⟨s, hr, hb, hv⟩ := read_spec h.initialized h.valid h.sound (n := n) (o := o) (by omega)
    rw [hr, if_neg hor, Int.toNat_natCast]
    exact ⟨rfl, ⟨h.initialized, hv, hb ▸ h.sound⟩, file_of_bytes hb⟩

/-- Among the records for consecutive blocks there is one for each of them. -/
lemma exists_mem_blockRecords {f : ℕ → UInt8} {b n b' : ℕ} :
    (∃ pr ∈ blockRecords f b n, pr.blockIndex = b') ↔ b ≤ b' ∧ b' < b + n := by
  constructor
  · rintro ⟨pr, hpr, hidx⟩
    have := blockIndex_of_mem_blockRecords hpr
    omega
  · intro hb
    induction n generalizing b with
    | zero => omega
    | succ n ih =>
      by_cases heq : b = b'
      · exact ⟨_, List.mem_cons_self, congrArg Nat.cast heq⟩
      · obtain ⟨pr, hpr, hidx⟩ := ih (b := b + 1) (by omega)
        exact ⟨pr, List.mem_cons_of_mem _ hpr, hidx⟩

/-- **`Write` writes to the file**: a range that passes the check is written. -/
theorem file_write {m : BlockMapper σ} (h : Ready m) (buf : List UInt8) {o : ℕ}
    (hrange : o + buf.length ≤ 1000000 * 4096) :
    (m.write buf o).1 = .ok () ∧ (m.write buf o).2.file = m.file.write buf o := by
  by_cases hbuf : buf = []
  · subst hbuf
    have hor : outOfRange ([] : List UInt8).length o = false :=
      outOfRange_eq_false_iff.mpr ⟨by omega, by omega⟩
    rw [write, if_neg (by rw [hor]; decide), if_neg (by rw [h.initialized]; decide),
      if_pos List.length_nil]
    exact ⟨rfl, rfl⟩
  · have hpos := List.length_pos_iff.mpr hbuf
    obtain ⟨s, hw, hb, -⟩ := write_spec h.initialized h.valid h.sound hpos hrange
    rw [hw, BlockFile.write, if_neg hbuf]
    refine ⟨rfl, BlockFile.ext ?_ ?_ ?_⟩
    · show max m.logicalSize ((o + buf.length : ℕ) : ℤ) = max m.logicalSize (o + buf.length)
      push_cast
      rfl
    · funext b
      rw [Bool.eq_iff_iff]
      rw [file_mapped_eq_true, Bool.or_eq_true, file_mapped_eq_true, Bool.and_eq_true,
        decide_eq_true_eq, decide_eq_true_eq]
      have hrecords := @exists_mem_blockRecords (patch m.byteAt o buf 0) (o / 4096)
        ((o + buf.length - 1) / 4096 - o / 4096 + 1) b
      simp only [List.mem_append, or_and_right, exists_or, hrecords]
      have hle : o / 4096 ≤ (o + buf.length - 1) / 4096 := Nat.div_le_div_right (by omega)
      have hcount : b < o / 4096 + ((o + buf.length - 1) / 4096 - o / 4096 + 1) ↔
          b ≤ (o + buf.length - 1) / 4096 := by omega
      rw [hcount]
      exact or_right_comm
    · funext i
      show SqliteGcs.byteAt (bytes s) m.logicalToPhysical _ i = patch m.byteAt o buf 0 i
      have hi : 4096 * (i / 4096) + i % 4096 = i := by omega
      rw [SqliteGcs.byteAt, hb, blockBytes_blockRecords]
      split_ifs with hin
      · rw [getD_window _ _ _ (by omega), hi]
      · rw [patch, if_neg (by omega)]
        rfl

end BlockMapper

section Truncate

/-- Cutting the buffered records and the table cuts the blocks. -/
lemma blockBytes_cut (file : List UInt8) (table : List ℤ) (P : List PendingRecord)
    {tr : PendingRecord} (htr : tr.blockIndex = -1) (c : ℤ) (b : ℕ) :
    blockBytes file (PageTable.resize (-1) c.toNat table)
        ((P ++ [tr]).filter fun r => ¬ r.blockIndex ≥ c) b =
      if (b : ℤ) < c then blockBytes file table P b else List.replicate 4096 0 := by
  have htr' : ¬ tr.blockIndex = (b : ℤ) := by omega
  have hentry : (PageTable.resize (-1) c.toNat table).getD b (-1) =
      if (b : ℤ) < c then table.getD b (-1) else -1 := by
    rw [getD_resize]
    by_cases hb : (b : ℤ) < c
    · rw [if_pos hb, if_pos (by omega)]
    · rw [if_neg hb, if_neg (by omega)]
  have hfind : ((P ++ [tr]).filter fun r => ¬ r.blockIndex ≥ c).reverse.find?
      (·.blockIndex = (b : ℤ)) =
      if (b : ℤ) < c then P.reverse.find? (·.blockIndex = (b : ℤ)) else none := by
    rw [← List.filter_reverse, List.find?_filter, List.reverse_append, List.reverse_singleton,
      List.singleton_append, List.find?_cons_of_neg (by simp [htr'])]
    by_cases hb : (b : ℤ) < c
    · rw [if_pos hb]
      congr 1
      funext r
      rw [Bool.eq_iff_iff]
      simp only [decide_not, Bool.not_eq_true', decide_eq_false_iff_not, decide_eq_true_eq]
      omega
    · rw [if_neg hb, List.find?_eq_none]
      intro r _
      simp only [decide_not, Bool.not_eq_true', decide_eq_false_iff_not, decide_eq_true_eq]
      omega
  unfold blockBytes
  rw [hfind, hentry]
  by_cases hb : (b : ℤ) < c
  · rw [if_pos hb, if_pos hb, if_pos hb]
  · rw [if_neg hb, if_neg hb, if_neg hb]
    rfl

/-- The records of a block that the cut keeps are kept. -/
lemma exists_mem_cut (P : List PendingRecord) {tr : PendingRecord} (htr : tr.blockIndex = -1)
    (c : ℤ) (b : ℕ) :
    (∃ pr ∈ (P ++ [tr]).filter (fun r => ¬ r.blockIndex ≥ c), pr.blockIndex = b) ↔
      (∃ pr ∈ P, pr.blockIndex = b) ∧ (b : ℤ) < c := by
  constructor
  · rintro ⟨pr, hpr, hidx⟩
    obtain ⟨hmem, hkeep⟩ := List.mem_filter.mp hpr
    have hlt : ¬ pr.blockIndex ≥ c := of_decide_eq_true hkeep
    rcases List.mem_append.mp hmem with hmem | hmem
    · exact ⟨⟨pr, hmem, hidx⟩, by omega⟩
    · obtain rfl := List.mem_singleton.mp hmem
      omega
  · rintro ⟨⟨pr, hpr, hidx⟩, hlt⟩
    exact ⟨pr, List.mem_filter.mpr ⟨List.mem_append_left _ hpr, decide_eq_true (by omega)⟩, hidx⟩

end Truncate

namespace BlockMapper

variable {σ : Type} [AtomicLog σ] [MetadataProto]

omit [MetadataProto] in
/-- **`Truncate` cuts the file.** -/
theorem file_truncated (m : BlockMapper σ) (newSize : ℤ) (serialized : List UInt8) :
    (m.truncated newSize serialized).file = m.file.truncate newSize := by
  refine BlockFile.ext rfl ?_ ?_
  · funext b
    have hcut : (m.file.truncate newSize).mapped b =
        (m.file.mapped b && decide ((b : ℤ) < ceilBlocks newSize)) := rfl
    rw [Bool.eq_iff_iff, hcut, file_mapped_eq_true, Bool.and_eq_true, file_mapped_eq_true,
      decide_eq_true_eq]
    unfold truncated
    rw [exists_mem_cut m.pendingRecords rfl (ceilBlocks newSize) b, getD_resize]
    by_cases hb : (b : ℤ) < ceilBlocks newSize
    · rw [if_pos (by omega), and_iff_left hb, and_iff_left hb]
    · rw [if_neg (by omega), and_iff_right_of_imp (fun h => absurd h hb)]
      simp [hb]
  · funext i
    show SqliteGcs.byteAt (bytes m.storage) _ _ i =
      if ((i / 4096 : ℕ) : ℤ) < ceilBlocks newSize then m.byteAt i else 0
    rw [SqliteGcs.byteAt]
    unfold truncated
    rw [blockBytes_cut _ _ m.pendingRecords rfl (ceilBlocks newSize)]
    split_ifs
    · rfl
    · rw [List.getD_replicate]
      omega

/-- **`Sync` does not change the file**, however much of it fails. -/
theorem file_sync {m : BlockMapper σ} (h : Ready m) : m.sync.2.file = m.file := by
  have hstore : ∀ {m : BlockMapper σ}, Ready m → m.syncStorage.2.file = m.file := fun h =>
    file_of_bytes (AtomicLog.sync_spec _ h.valid).1
  have h0 : (0 : ℤ) ≤ (bytes m.storage).length := Int.natCast_nonneg _
  rcases sync_cases h.initialized h.valid with
    ⟨-, hsync⟩ | ⟨-, k, s, hv, hb, ⟨hfull, hsync⟩ | ⟨e, hsync⟩⟩
  · rw [hsync, hstore h]
  · -- the whole batch is in the log, and not buffered any more
    have hsound := h.sound.puts_batch m.pendingRecords k
    rw [← hb] at hsound
    rw [List.take_of_length_le (by simp [hfull])] at hb hsound hsync
    rw [hsync]
    refine (hstore (m := { m with
      storage := s
      pendingRecords := []
      logicalToPhysical :=
        puts (-1) (edits (batchRecords (bytes m.storage).length m.pendingRecords))
          m.logicalToPhysical }) ⟨h.initialized, hv, hsound⟩).trans ?_
    refine BlockFile.ext rfl ?_ ?_
    · funext b
      rw [Bool.eq_iff_iff]
      rw [file_mapped_eq_true, file_mapped_eq_true]
      dsimp only
      rw [getD_puts_batchRecords_ne_iff _ h0]
      simp
    · funext i
      show SqliteGcs.byteAt (bytes s) _ [] i = m.byteAt i
      rw [SqliteGcs.byteAt, hb, blockBytes_batch h.sound]
      rfl
  · -- a part of the batch is in the log, and all of it is still buffered
    rw [hsync]
    refine BlockFile.ext rfl ?_ ?_
    · funext b
      rw [Bool.eq_iff_iff]
      rw [file_mapped_eq_true, file_mapped_eq_true]
      dsimp only
      rw [edits_take_batchRecords, getD_puts_batchRecords_ne_iff _ h0]
      constructor
      · rintro (hb' | ⟨pr, hpr, hidx⟩ | hb')
        · exact Or.inl hb'
        · exact Or.inl ⟨pr, List.mem_of_mem_take hpr, hidx⟩
        · exact Or.inr hb'
      · rintro (hb' | hb')
        · exact Or.inl hb'
        · exact Or.inr (Or.inr hb')
    · funext i
      show SqliteGcs.byteAt (bytes s) _ m.pendingRecords i = m.byteAt i
      rw [SqliteGcs.byteAt, hb, blockBytes_batch_part h.sound]
      rfl

end BlockMapper

/-! ## Calls -/

/-- A call of a mapper. -/
inductive Call
  | read (size : ℕ) (logicalOffset : ℤ)
  | op (op : Op)
  deriving DecidableEq

/-- What a call returns: the bytes of a `Read`, or a status. -/
inductive Reply
  | data (result : Except Status (List UInt8))
  | done (result : Except Status Unit)

/-- A call other than `Sync`. -/
def Call.visible : Call → Bool
  | .op .sync => false
  | _ => true

section Calls

variable {σ : Type} [AppendOnlyStorage σ] [MetadataProto]

/-- The reply to a call, and the state after it. -/
def Call.run : Call → BlockMapper σ → Reply × BlockMapper σ
  | .read size logicalOffset, m =>
    let (result, m) := m.read size logicalOffset
    (.data result, m)
  | .op o, m =>
    let (result, m) := o.run m
    (.done result, m)

/-- **The states that a mapper on the storage `s` can be in**: any calls in any order after the
constructor, `Init` among them. -/
inductive Reachable (s : σ) : BlockMapper σ → Prop
  | new : Reachable s (new s)
  | init {m : BlockMapper σ} (h : Reachable s m) : Reachable s m.init.2
  | call {m : BlockMapper σ} (h : Reachable s m) (c : Call) : Reachable s (c.run m).2

/-- Calls lead from reachable states to reachable ones. -/
lemma Reachable.runOps {s : σ} {m : BlockMapper σ} (h : Reachable s m) (ops : List Op) :
    Reachable s (SqliteGcs.runOps ops m) := by
  induction ops generalizing m with
  | nil => exact h
  | cons op ops ih => exact ih (h.call (.op op))

end Calls

/-! ## The refinement -/

/-- A mapper and what it holds: nothing if it was never initialised. -/
inductive Holds {σ : Type} [AtomicLog σ] : BlockMapper σ → Option BlockFile → Prop
  | new {s : σ} (hv : Valid s) : Holds (new s) none
  | ready {m : BlockMapper σ} (h : Ready m) : Holds m (some m.file)

/-- A mapper that was never initialised is not. -/
lemma not_initialized_new {σ : Type} (s : σ) : ¬ (new s).initialized = true := Bool.false_ne_true

section Refinement

variable [MetadataProto]

namespace BlockFile

/-- The status of a call on a file that is not open. -/
def notOpen : Status := ⟨.failedPrecondition, "BlockMapper not initialized"⟩

/-- Read from a file that is open, or is not (`none`). -/
def tryRead (size : ℕ) (off : ℤ) (f : Option BlockFile) : Except Status (List UInt8) :=
  if outOfRange size off then .error ⟨.invalidArgument, "Read offset/size is out of range"⟩
  else
    match f with
    | none => .error notOpen
    | some f => .ok (window f.byte off.toNat size)

/-- Write to a file that is open, or is not. -/
def tryWrite (buf : List UInt8) (off : ℤ) (f : Option BlockFile) :
    Except Status Unit × Option BlockFile :=
  if outOfRange buf.length off then
    (.error ⟨.invalidArgument, "Write offset/size is out of range"⟩, f)
  else
    match f with
    | none => (.error notOpen, none)
    | some f => (.ok (), some (f.write buf off.toNat))

/-- Cut a file that is open, or is not. The new size goes into a message that must fit. -/
def tryTruncate (n : ℤ) (f : Option BlockFile) : Except Status Unit × Option BlockFile :=
  if n < 0 ∨ n > 1000000 * 4096 then
    (.error ⟨.invalidArgument, "new_size cannot be negative or exceed 4GB"⟩, f)
  else
    match f with
    | none => (.error notOpen, none)
    | some f =>
      match MetadataProto.serializeToString n with
      | none => (.error ⟨.internal, "Failed to serialize MetadataBlock proto"⟩, some f)
      | some serialized =>
        if serialized.length > 4088 then
          (.error ⟨.internal, "Serialized MetadataBlock exceeds maximum metadata payload size"⟩,
            some f)
        else (.ok (), some (f.truncate n))

/-- The effect of a call and its reply. `Sync` has no effect; whether it succeeds is a matter of the
storage. -/
def step : Call → Option BlockFile → Reply × Option BlockFile
  | .read size off, f => (.data (tryRead size off f), f)
  | .op (.write buf off), f => (.done (tryWrite buf off f).1, (tryWrite buf off f).2)
  | .op (.truncate n), f => (.done (tryTruncate n f).1, (tryTruncate n f).2)
  | .op .sync, f => (.done (.ok ()), f)

end BlockFile

variable {σ : Type} [AtomicLog σ]

omit [MetadataProto] in
/-- `Read` refines reading from the file. -/
lemma Holds.read {m : BlockMapper σ} {f : Option BlockFile} (h : Holds m f) (n : ℕ) (off : ℤ) :
    (m.read n off).1 = BlockFile.tryRead n off f ∧ Holds (m.read n off).2 f := by
  unfold BlockFile.tryRead
  cases h with
  | @new s hv =>
    rw [BlockMapper.read, if_pos (not_initialized_new s)]
    split_ifs <;> exact ⟨rfl, .new hv⟩
  | ready h =>
    obtain ⟨hreply, hready, hfile⟩ := read_reply h n off
    refine ⟨hreply, ?_⟩
    rw [← hfile]
    exact .ready hready

omit [MetadataProto] in
/-- `Write` refines writing to the file. -/
lemma Holds.write {m : BlockMapper σ} {f : Option BlockFile} (h : Holds m f) (buf : List UInt8)
    (off : ℤ) : (m.write buf off).1 = (BlockFile.tryWrite buf off f).1 ∧
      Holds (m.write buf off).2 (BlockFile.tryWrite buf off f).2 := by
  unfold BlockFile.tryWrite
  by_cases hor : outOfRange buf.length off = true
  · rw [BlockMapper.write, if_pos hor, if_pos hor]
    exact ⟨rfl, h⟩
  rw [if_neg hor]
  cases h with
  | @new s hv =>
    rw [BlockMapper.write, if_neg hor, if_pos (not_initialized_new s)]
    exact ⟨rfl, .new hv⟩
  | ready h =>
    obtain ⟨h0, h1⟩ := outOfRange_eq_false_iff.mp (by simpa using hor)
    obtain ⟨o, rfl⟩ : ∃ o : ℕ, off = o := ⟨off.toNat, by omega⟩
    obtain ⟨hok, hfile⟩ := file_write h buf (o := o) (by omega)
    refine ⟨hok, ?_⟩
    dsimp only
    rw [Int.toNat_natCast, ← hfile]
    exact .ready (h.write buf o).1

/-- `Truncate` refines cutting the file. -/
lemma Holds.truncate {m : BlockMapper σ} {f : Option BlockFile} (h : Holds m f) (n : ℤ) :
    (m.truncate n).1 = (BlockFile.tryTruncate n f).1 ∧
      Holds (m.truncate n).2 (BlockFile.tryTruncate n f).2 := by
  unfold BlockFile.tryTruncate
  rw [BlockMapper.truncate]
  by_cases hr : n < 0 ∨ n > 1000000 * 4096
  · rw [if_pos hr, if_pos hr]
    exact ⟨rfl, h⟩
  rw [if_neg hr, if_neg hr]
  cases h with
  | @new s hv =>
    rw [if_pos (not_initialized_new s)]
    exact ⟨rfl, .new hv⟩
  | ready h =>
    rw [if_neg (by rw [h.initialized]; decide)]
    cases MetadataProto.serializeToString n with
    | none => exact ⟨rfl, .ready h⟩
    | some serialized =>
      dsimp only
      split_ifs
      · exact ⟨rfl, .ready h⟩
      · refine ⟨rfl, ?_⟩
        dsimp only
        rw [← file_truncated m n serialized]
        exact .ready ⟨h.initialized, h.valid, h.sound.resize _⟩

/-- `Sync` does not change what a mapper holds. -/
lemma Holds.sync {m : BlockMapper σ} {f : Option BlockFile} (h : Holds m f) :
    Holds m.sync.2 f := by
  cases h with
  | new hv => exact .new hv
  | ready h =>
    rw [← file_sync h]
    exact .ready h.sync.1

/-- **A mapper refines the file that it holds**: a call has the same effect on both, and the same
reply unless it is a `Sync`. -/
theorem Holds.step {m : BlockMapper σ} {f : Option BlockFile} (h : Holds m f) (c : Call) :
    Holds (c.run m).2 (BlockFile.step c f).2 ∧
      (c.visible = true → (c.run m).1 = (BlockFile.step c f).1) := by
  cases c with
  | read n off =>
    obtain ⟨hreply, hholds⟩ := h.read n off
    exact ⟨hholds, fun _ => congrArg Reply.data hreply⟩
  | op o =>
    cases o with
    | write buf off =>
      obtain ⟨hreply, hholds⟩ := h.write buf off
      exact ⟨hholds, fun _ => congrArg Reply.done hreply⟩
    | truncate n =>
      obtain ⟨hreply, hholds⟩ := h.truncate n
      exact ⟨hholds, fun _ => congrArg Reply.done hreply⟩
    | sync => exact ⟨h.sync, fun hvisible => by cases hvisible⟩

/-- The size of a file is one that the range checks allow. -/
def BlockFile.InRange (f : BlockFile) : Prop := 0 ≤ f.size ∧ f.size ≤ 1000000 * 4096

omit [MetadataProto] in
/-- A write keeps the size of a file in range. -/
lemma BlockFile.InRange.tryWrite {f : Option BlockFile} (h : ∀ g ∈ f, g.InRange)
    (buf : List UInt8) (off : ℤ) : ∀ g ∈ (BlockFile.tryWrite buf off f).2, g.InRange := by
  unfold BlockFile.tryWrite
  by_cases hor : outOfRange buf.length off = true
  · rw [if_pos hor]
    exact h
  rw [if_neg hor]
  cases f with
  | none => exact h
  | some f =>
    obtain ⟨h0, h1⟩ := outOfRange_eq_false_iff.mp (by simpa using hor)
    obtain ⟨hsize0, hsize1⟩ := h f rfl
    rintro g ⟨⟩
    unfold BlockFile.InRange
    rw [BlockFile.size_write]
    split_ifs <;> omega

/-- A cut keeps the size of a file in range. -/
lemma BlockFile.InRange.tryTruncate {f : Option BlockFile} (h : ∀ g ∈ f, g.InRange) (n : ℤ) :
    ∀ g ∈ (BlockFile.tryTruncate n f).2, g.InRange := by
  unfold BlockFile.tryTruncate
  by_cases hr : n < 0 ∨ n > 1000000 * 4096
  · rw [if_pos hr]
    exact h
  rw [if_neg hr]
  cases f with
  | none => exact h
  | some f =>
    cases MetadataProto.serializeToString n with
    | none => exact h
    | some serialized =>
      dsimp only
      split_ifs
      · exact h
      · rintro g ⟨⟩
        show 0 ≤ n ∧ n ≤ 1000000 * 4096
        omega

/-- The calls keep the size of a file in range. -/
lemma BlockFile.InRange.step {f : Option BlockFile} (h : ∀ g ∈ f, g.InRange) (c : Call) :
    ∀ g ∈ (BlockFile.step c f).2, g.InRange := by
  cases c with
  | read n off => exact h
  | op o =>
    cases o with
    | write buf off => exact .tryWrite h buf off
    | truncate n => exact .tryTruncate h n
    | sync => exact h

/-- What a mapper holds after `Init`: still nothing if it fails, and a file if it succeeds; a second
`Init` changes nothing. -/
lemma Holds.init {m : BlockMapper σ} {f : Option BlockFile} (h : Holds m f)
    (hf : ∀ g ∈ f, g.InRange) : ∃ f', Holds m.init.2 f' ∧ ∀ g ∈ f', g.InRange := by
  cases h with
  | @new s hv =>
    by_cases hinit : (BlockMapper.init (BlockMapper.new s)).1 = .ok ()
    · obtain ⟨recs, s', hrecs, hi, -, hready⟩ := ready_of_init hv hinit
      have hcov := covered_recovered hrecs
      rw [hi]
      refine ⟨_, .ready hready, ?_⟩
      rintro g ⟨⟩
      exact ⟨hcov.nonneg, hcov.upper⟩
    · obtain ⟨s', hm, hv', -⟩ := new_of_init hv hinit
      rw [hm]
      exact ⟨none, .new hv', hf⟩
  | ready h =>
    rw [BlockMapper.init, if_pos h.initialized]
    exact ⟨_, .ready h, hf⟩

/-- **A reachable mapper holds a file** whose size is in range, or was never initialised. -/
theorem holds_of_reachable {s : σ} (hv : Valid s) {m : BlockMapper σ} (h : Reachable s m) :
    ∃ f, Holds m f ∧ ∀ g ∈ f, g.InRange := by
  induction h with
  | new => exact ⟨none, .new hv, by simp⟩
  | init _ ih =>
    obtain ⟨f, hf, hrange⟩ := ih
    exact hf.init hrange
  | call _ c ih =>
    obtain ⟨f, hf, hrange⟩ := ih
    exact ⟨_, (hf.step c).1, .step hrange c⟩

/-- A reachable mapper that is initialised is ready, and the size of its file is in range. -/
lemma ready_of_reachable {s : σ} (hv : Valid s) {m : BlockMapper σ} (h : Reachable s m)
    (hi : m.initialized = true) : Ready m ∧ m.file.InRange := by
  obtain ⟨f, hf, hrange⟩ := holds_of_reachable hv h
  cases hf with
  | new hv' => cases hi
  | ready h => exact ⟨h, hrange _ rfl⟩

end Refinement

end SqliteGcs
