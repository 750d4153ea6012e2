import SqliteGcs.ReadLaws

set_option relaxedAutoImplicit false
set_option autoImplicit false

/-!
# Bytes behind a cut

In an ordinary file a byte that was cut off reads as 0 when the file grows again. The mapper cuts
whole blocks: the last block that is kept keeps its bytes behind the cut, and these come back when
a later call raises the size over them. This file proves that nothing comes back exactly if the
bytes from the cut to the end of its block read as 0 before.

## Main definitions

* `SqliteGcs.Op.Writes` — a call writes a position.

## Main results

* `SqliteGcs.byte_eq_zero_of_not_writes` — a byte that is 0 stays 0 until it is written.
* `SqliteGcs.truncated_bytes_stay_zero_iff` — when the bytes behind a cut do not come back.
* `SqliteGcs.truncated_byte_comes_back` — a byte that comes back.
-/

namespace SqliteGcs

open Bytes PageTable BlockMapper

/-- A call writes the position `i`: it is a `Write` that passes the range check, and `i` lies in the
range. -/
def Op.Writes (i : ℕ) : Op → Prop
  | .write buf off => outOfRange buf.length off = false ∧ off ≤ i ∧ i < off + buf.length
  | .truncate _ => False
  | .sync => False

section Truncation

variable {σ : Type} [AtomicLog σ] [MetadataProto]

/-- One call leaves a byte 0 unless it writes it. -/
lemma byte_op_eq_zero {m : BlockMapper σ} (h : Ready m) {i : ℕ} (hzero : m.file.byte i = 0)
    {op : Op} (hop : ¬ op.Writes i) : (op.run m).2.file.byte i = 0 := by
  cases op with
  | write buf off =>
    show (m.write buf off).2.file.byte i = 0
    by_cases hor : outOfRange buf.length off = true
    · rw [BlockMapper.write, if_pos hor]
      exact hzero
    · have hrange : outOfRange buf.length off = false := by simpa using hor
      obtain ⟨h0, h1⟩ := outOfRange_eq_false_iff.mp hrange
      obtain ⟨o, rfl⟩ : ∃ o : ℕ, off = o := ⟨off.toNat, by omega⟩
      have hout : ¬ (o ≤ i ∧ i < o + buf.length) := fun hin =>
        hop ⟨hrange, by omega, by omega⟩
      rw [(file_write h buf (o := o) (by omega)).2, BlockFile.byte_write, patch,
        if_neg hout, hzero]
  | truncate newSize =>
    show (m.truncate newSize).2.file.byte i = 0
    rcases truncate_cases h.initialized newSize with ⟨e, he⟩ | ⟨-, -, serialized, -, -, ht⟩
    · rw [he]
      exact hzero
    · rw [ht, file_truncated]
      show (if _ then m.file.byte i else 0) = 0
      rw [hzero, ite_self]
  | sync =>
    show m.sync.2.file.byte i = 0
    rw [file_sync h, hzero]

/-- **A byte that is 0 stays 0 until it is written**, whatever else is written, cut and synced. -/
theorem byte_eq_zero_of_not_writes {m : BlockMapper σ} (h : Ready m) {i : ℕ}
    (hzero : m.file.byte i = 0) {ops : List Op} (hops : ∀ op ∈ ops, ¬ op.Writes i) :
    (runOps ops m).file.byte i = 0 := by
  induction ops generalizing m with
  | nil => exact hzero
  | cons op ops ih =>
    exact ih (h.op op).1 (byte_op_eq_zero h hzero (hops op List.mem_cons_self)) fun o ho =>
      hops o (List.mem_cons_of_mem op ho)

omit [MetadataProto] in
/-- Reading one byte that the range check allows. -/
lemma read_one {m : BlockMapper σ} (h : Ready m) {i : ℕ} (hi : i < 1000000 * 4096) :
    (m.read 1 i).1 = .ok [m.file.byte i] := by
  rw [read_ok_of_range h (outOfRange_eq_false_iff.mpr ⟨by omega, by omega⟩)]
  rfl

omit [MetadataProto] in
/-- One byte reads as 0 if it is 0. -/
lemma read_one_eq_zero_iff {m : BlockMapper σ} (h : Ready m) {i : ℕ} (hi : i < 1000000 * 4096) :
    (m.read 1 i).1 = .ok [0] ↔ m.file.byte i = 0 := by
  rw [read_one h hi]
  simp

omit [AtomicLog σ] in
/-- A `Truncate` to a size in range succeeds, if messages are serialised. -/
lemma truncate_ok (hser : MetadataProto.Serializes) {m : BlockMapper σ} (hi : m.initialized = true)
    {n : ℤ} (h0 : 0 ≤ n) (h1 : n ≤ 1000000 * 4096) : (m.truncate n).1 = .ok () := by
  obtain ⟨serialized, hs, hl⟩ := hser n h0 h1
  rw [BlockMapper.truncate, if_neg (by omega), if_neg (by rw [hi]; decide), hs]
  dsimp only
  rw [if_neg (by omega)]

/-- **When the bytes behind a cut do not come back.** In every state of an initialised mapper, a
successful `Truncate` to `n` leaves the bytes below `n` and the old size as they were. After any
further calls every byte at `n` or behind that the size covers and that was not written since reads
as 0, exactly if before the `Truncate` every byte from `n` to the end of its block read as 0.

**Proof sketch.** The bytes behind the last block that is kept are 0 after the cut, those in the
block are what they were, and a byte that is 0 stays 0 until it is written. Conversely, a
`Truncate` to a larger size brings back a byte that is not 0. -/
theorem truncated_bytes_stay_zero_iff (hser : MetadataProto.Serializes) {s : σ} (hs : Valid s)
    {m : BlockMapper σ} (hm : Reachable s m) (hi : m.initialized = true) {n : ℤ}
    (hok : (m.truncate n).1 = .ok ()) :
    ((∀ i : ℕ, i < min n m.logicalSize → ((m.truncate n).2.read 1 i).1 = (m.read 1 i).1) ∧
      ∀ (ops : List Op) (i : ℕ), n ≤ i → i < (runOps ops (m.truncate n).2).logicalSize →
        (∀ op ∈ ops, ¬ op.Writes i) →
          ((runOps ops (m.truncate n).2).read 1 i).1 = .ok [0]) ↔
      ∀ i : ℕ, n ≤ i → i < 4096 * ceilBlocks n → (m.read 1 i).1 = .ok [0] := by
  obtain ⟨h, hrange⟩ := ready_of_reachable hs hm hi
  obtain ⟨hsize0, hsize1⟩ := hrange
  have hmt : Reachable s (m.truncate n).2 := hm.call (.op (.truncate n))
  rcases truncate_cases hi n with ⟨e, he⟩ | ⟨h0, h1, serialized, -, -, ht⟩
  · rw [he] at hok
    cases hok
  have hready : Ready (m.truncate n).2 := (h.truncate n).1
  have hfile : (m.truncate n).2.file = m.file.truncate n := by
    rw [ht, file_truncated]
  have hbyte : ∀ i, (m.truncate n).2.file.byte i =
      if ((i / 4096 : ℕ) : ℤ) < ceilBlocks n then m.file.byte i else 0 := by
    intro i
    rw [hfile]
    rfl
  have hblocks : ∀ i : ℕ, ((i / 4096 : ℕ) : ℤ) < ceilBlocks n ↔ (i : ℤ) < 4096 * ceilBlocks n := by
    intro i
    omega
  have hceil : n ≤ 4096 * ceilBlocks n ∧ 4096 * ceilBlocks n ≤ 1000000 * 4096 := by
    unfold ceilBlocks
    omega
  constructor
  · rintro ⟨-, hzero⟩ i hni hlast
    -- the call that brings the byte back
    have hback := hzero [.truncate (i + 1)] i hni
    have hstep : runOps [.truncate (i + 1)] (m.truncate n).2 =
        ((m.truncate n).2.truncate (i + 1)).2 := rfl
    rw [hstep] at hback
    have hok' := truncate_ok hser hready.initialized (n := (i : ℤ) + 1) (by omega) (by omega)
    have hready' := (hready.truncate ((i : ℤ) + 1)).1
    rcases truncate_cases hready.initialized ((i : ℤ) + 1) with
      ⟨e, he⟩ | ⟨-, -, serialized', -, -, ht'⟩
    · rw [he] at hok'
      cases hok'
    rw [ht'] at hback hready'
    have hzero' := (read_one_eq_zero_iff hready' (by omega)).mp (hback
      (show (i : ℤ) < (i : ℤ) + 1 by omega) (by simp [Op.Writes]))
    rw [file_truncated] at hzero'
    replace hzero' : (if ((i / 4096 : ℕ) : ℤ) < ceilBlocks ((i : ℤ) + 1) then
        (m.truncate n).2.file.byte i else 0) = 0 := hzero'
    rw [if_pos (by unfold ceilBlocks; omega), hbyte, if_pos ((hblocks i).mpr hlast)] at hzero'
    exact (read_one_eq_zero_iff h (by omega)).mpr hzero'
  · intro hcond
    constructor
    · intro i hlt
      rw [read_one hready (by omega), read_one h (by omega), hbyte,
        if_pos ((hblocks i).mpr (by omega))]
    · intro ops i hni hlt hops
      obtain ⟨hready', hsize'⟩ := ready_of_reachable hs (hmt.runOps ops)
        (hready.runOps ops).1.initialized
      have hsize : (runOps ops (m.truncate n).2).logicalSize ≤ 1000000 * 4096 := hsize'.2
      refine (read_one_eq_zero_iff hready' (by omega)).mpr
        (byte_eq_zero_of_not_writes hready ?_ hops)
      rw [hbyte]
      split_ifs with hkept
      · exact (read_one_eq_zero_iff h (by omega)).mp (hcond i hni ((hblocks i).mp hkept))
      · rfl

end Truncation

/-! ## A byte that comes back -/

/-- A mapper that has written two bytes to an empty file. -/
def twoBytes : BlockMapper InMemoryStorage :=
  letI := wireProto
  ((init (new InMemoryStorage.new)).2.write [1, 1] 0).2

/-- That is a state that a mapper can be in, and its second byte is 1. -/
lemma reachable_twoBytes : letI := wireProto
    Reachable InMemoryStorage.new twoBytes ∧ twoBytes.initialized = true ∧ Ready twoBytes ∧
      twoBytes.file.byte 1 = 1 := by
  let _ := wireProto
  obtain ⟨s, hi, -, hv⟩ := init_empty (s := InMemoryStorage.new) rfl rfl
  have hready : Ready (opened Logical.empty s) := ⟨rfl, hv, by simp [Sound, opened, Logical.empty]⟩
  have htwo : twoBytes = ((opened Logical.empty s).write [1, 1] 0).2 := by
    rw [twoBytes, hi]
  have hreach : Reachable InMemoryStorage.new twoBytes :=
    (Reachable.init .new).call (.op (.write [1, 1] 0))
  have hready' : Ready twoBytes := by
    rw [htwo]
    exact (hready.write [1, 1] 0).1
  refine ⟨hreach, hready'.initialized, hready', ?_⟩
  have hfile := (file_write hready [1, 1] (o := 0) (by decide)).2
  rw [Nat.cast_zero] at hfile
  rw [htwo, hfile, BlockFile.byte_write]
  rfl

/-- `truncated_bytes_stay_zero_iff` for cutting a file of two bytes to one. -/
theorem truncated_bytes_stay_zero_iff_two_bytes :
    letI := wireProto
    ((∀ i : ℕ, i < min 1 twoBytes.logicalSize →
          ((twoBytes.truncate 1).2.read 1 i).1 = (twoBytes.read 1 i).1) ∧
        ∀ (ops : List Op) (i : ℕ), (1 : ℤ) ≤ i →
          i < (runOps ops (twoBytes.truncate 1).2).logicalSize → (∀ op ∈ ops, ¬ op.Writes i) →
            ((runOps ops (twoBytes.truncate 1).2).read 1 i).1 = .ok [0]) ↔
      ∀ i : ℕ, (1 : ℤ) ≤ i → i < 4096 * ceilBlocks 1 → (twoBytes.read 1 i).1 = .ok [0] := by
  obtain ⟨hreach, hi, -, -⟩ := reachable_twoBytes
  exact @truncated_bytes_stay_zero_iff InMemoryStorage _ wireProto wireProto_serializes
    InMemoryStorage.new rfl twoBytes hreach hi 1
    (@truncate_ok InMemoryStorage wireProto wireProto_serializes twoBytes hi 1 (by decide)
      (by decide))

/-- **A byte that was cut off comes back.** Two bytes are written, the file is cut to one byte and
then extended to two: the second byte, not written since the cut, reads as 1. -/
theorem truncated_byte_comes_back :
    letI := wireProto
    Reachable InMemoryStorage.new twoBytes ∧ (twoBytes.truncate 1).1 = .ok () ∧
      (∀ op ∈ [Op.truncate 2], ¬ op.Writes 1) ∧
      (runOps [.truncate 2] (twoBytes.truncate 1).2).logicalSize = 2 ∧
      ((runOps [.truncate 2] (twoBytes.truncate 1).2).read 1 1).1 = .ok [1] := by
  let _ := wireProto
  obtain ⟨hreach, hi, hready, hbyte⟩ := reachable_twoBytes
  have h1 : twoBytes.truncate 1 = (.ok (), twoBytes.truncated 1 [8, 1]) := by
    rw [BlockMapper.truncate, hi]
    rfl
  have h2 : (twoBytes.truncated 1 [8, 1]).truncate 2 =
      (.ok (), (twoBytes.truncated 1 [8, 1]).truncated 2 [8, 2]) := by
    rw [BlockMapper.truncate, show (twoBytes.truncated 1 [8, 1]).initialized = true from hi]
    rfl
  have hrun : runOps [.truncate 2] (twoBytes.truncate 1).2 =
      (twoBytes.truncated 1 [8, 1]).truncated 2 [8, 2] := by
    rw [h1]
    show ((twoBytes.truncated 1 [8, 1]).truncate 2).2 = _
    rw [h2]
  have hready' := ((hready.truncate 1).1.truncate 2).1
  rw [h1] at hready'
  rw [h2] at hready'
  rw [hrun]
  refine ⟨hreach, by rw [h1], by simp [Op.Writes], rfl, ?_⟩
  have hread := read_one hready' (i := 1) (by decide)
  rw [file_truncated, file_truncated] at hread
  have hcut : ((twoBytes.file.truncate 1).truncate 2).byte 1 = twoBytes.file.byte 1 := rfl
  rw [hcut, hbyte] at hread
  exact hread

end SqliteGcs
