import SqliteGcs.BlockMapper
import SqliteGcs.Lib.BlockRange

set_option relaxedAutoImplicit false
set_option autoImplicit false

/-!
# `Read` and `Write` in 64-bit arithmetic

`BlockMapper` computes with mathematical integers. This file has `Read` and `Write` once more, in
the integer types of the source: sizes and positions in a buffer are unsigned, offsets are signed,
and operands of both kinds are converted as the source converts them. A signed operation that
overflows and an access outside a buffer are undefined, and a loop may not end. What an iteration
of a loop does with its block is a parameter of the loop, so that the arithmetic is seen apart
from it.

## Main definitions

* `SqliteGcs.Halt`, `SqliteGcs.Code` — code that may be undefined.
* `SqliteGcs.FixedWidth.outOfRange` — the range check.
* `SqliteGcs.FixedWidth.readLocked`, `SqliteGcs.FixedWidth.writeLocked` — the loops.

## Main results

* `SqliteGcs.FixedWidth.outOfRange_eq` — the range check is exact.
* `SqliteGcs.FixedWidth.readLocked_eq`, `SqliteGcs.FixedWidth.writeLocked_eq` — the loops visit the
  slices of the range, in order.
-/

namespace SqliteGcs

open Bytes BlockRange

/-! ## Code that may be undefined -/

/-- How code ends that does not return OK. -/
inductive Halt
  /-- A signed operation has overflowed, or an access was outside its buffer. -/
  | undefined
  /-- A loop has not ended in the iterations that it was given. -/
  | unfinished
  /-- A status was returned. -/
  | failed (status : Status)
  deriving DecidableEq

/-- Code on a state. -/
abbrev Code (S α : Type) : Type := ExceptT Halt (StateM S) α

namespace Code

variable {S α β : Type}

/-- Code goes on with the value of code that ends. -/
lemma bind_ok {x : Code S α} {f : α → Code S β} {s s' : S} {a : α} (h : x s = (.ok a, s')) :
    (x >>= f) s = f a s' := by
  simp only [bind, ExceptT.bind, ExceptT.mk, StateT.bind, h]
  rfl

/-- Code does not go on after code that halts. -/
lemma bind_error {x : Code S α} {f : α → Code S β} {s s' : S} {e : Halt}
    (h : x s = (.error e, s')) : (x >>= f) s = (.error e, s') := by
  simp only [bind, ExceptT.bind, ExceptT.mk, StateT.bind, h]
  rfl

/-- Code that looks at its state. -/
lemma get_bind (f : S → Code S β) (s : S) : ((get : Code S S) >>= f) s = f s s :=
  bind_ok (x := get) rfl

end Code

namespace FixedWidth

variable {S : Type}

/-- The result of a signed operation, of which the exact result is given. -/
def signed (x : ℤ) : Code S Int64 :=
  if -2 ^ 63 ≤ x ∧ x < 2 ^ 63 then pure (Int64.ofInt x) else throw .undefined

/-- The bytes that are copied from a position of a buffer. -/
def load (source : List UInt8) (position : ℤ) (size : UInt64) : Code S (List UInt8) :=
  if 0 ≤ position ∧ position + size.toNat ≤ source.length then
    pure (slice position.toNat size.toNat source)
  else throw .undefined

/-- A buffer after bytes were copied to a position of it. -/
def overwrite (buf : List UInt8) (position : ℤ) (bytes : List UInt8) : Code S (List UInt8) :=
  if 0 ≤ position ∧ position + bytes.length ≤ buf.length then
    pure (buf.take position.toNat ++ bytes ++ buf.drop (position.toNat + bytes.length))
  else throw .undefined

/-! ## The arithmetic -/

/-- The range check of `Read` and `Write`. The last comparison is one of `size_t`. -/
def outOfRange (size : UInt64) (logicalOffset : Int64) : Code S Bool :=
  if logicalOffset < 0 ∨ logicalOffset > 1000000 * 4096 then pure true
  else do
    let rest ← signed ((1000000 * 4096 : Int64).toInt - logicalOffset.toInt)
    pure (decide (size > rest.toUInt64))

/-- The loop of `ReadLocked`. The parameter gets `block_index`, `block_offset`, `block_len` and
`buf_offset`. -/
def readLoop (copy : Int64 → Int64 → Int64 → UInt64 → Code S Unit) :
    ℕ → Int64 → Int64 → UInt64 → Code S Unit
  | 0, _, _, _ => throw .unfinished
  | fuel + 1, remainingSize, currentOffset, bufOffset =>
    if remainingSize > 0 then do
      let blockIndex := currentOffset / 4096
      let blockOffset := currentOffset % 4096
      let room ← signed (4096 - blockOffset.toInt)
      let blockLen := min room remainingSize
      copy blockIndex blockOffset blockLen bufOffset
      let remainingSize ← signed (remainingSize.toInt - blockLen.toInt)
      let currentOffset ← signed (currentOffset.toInt + blockLen.toInt)
      readLoop copy fuel remainingSize currentOffset (bufOffset + blockLen.toUInt64)
    else pure ()

/-- `ReadLocked`. -/
def readLocked (copy : Int64 → Int64 → Int64 → UInt64 → Code S Unit) (fuel : ℕ) (size : UInt64)
    (logicalOffset : Int64) : Code S Unit :=
  if logicalOffset < 0 then
    throw (.failed ⟨.invalidArgument, "logical_offset cannot be negative"⟩)
  else if size = 0 then pure ()
  else readLoop copy fuel size.toInt64 logicalOffset 0

/-- The loop of `Write`. The parameter gets `b`, `block_start_logical_offset`, `block_off`,
`block_len` and the position in `buf`, which is `write_start_offset - logical_offset` in both of
its uses. -/
def writeLoop (copy : Int64 → Int64 → Int64 → Int64 → Int64 → Code S Unit) (size : UInt64)
    (logicalOffset endBlock : Int64) : ℕ → Int64 → Code S Unit
  | 0, _ => throw .unfinished
  | fuel + 1, b =>
    if b ≤ endBlock then do
      let blockStartLogicalOffset ← signed (b.toInt * 4096)
      let writeStartOffset := max logicalOffset blockStartLogicalOffset
      let rangeEnd ← signed (logicalOffset.toInt + size.toInt64.toInt)
      let blockEnd ← signed (blockStartLogicalOffset.toInt + 4096)
      let writeEndOffset := min rangeEnd blockEnd
      let blockLen ← signed (writeEndOffset.toInt - writeStartOffset.toInt)
      let blockOff ← signed (writeStartOffset.toInt - blockStartLogicalOffset.toInt)
      let bufOffset ← signed (writeStartOffset.toInt - logicalOffset.toInt)
      copy b blockStartLogicalOffset blockOff blockLen bufOffset
      let b ← signed (b.toInt + 1)
      writeLoop copy size logicalOffset endBlock fuel b
    else pure ()

/-- The part of `Write` behind the checks. What it does with the end of the range after the loop is
a parameter as well. -/
def writeLocked (copy : Int64 → Int64 → Int64 → Int64 → Int64 → Code S Unit)
    (raise : Int64 → Code S Unit) (fuel : ℕ) (size : UInt64) (logicalOffset : Int64) :
    Code S Unit :=
  if size = 0 then pure ()
  else do
    let startBlock := logicalOffset / 4096
    -- the sum is one of `size_t`
    let endBlock := ((logicalOffset.toUInt64 + size - 1) / 4096).toInt64
    writeLoop copy size logicalOffset endBlock fuel startBlock
    let rangeEnd ← signed (logicalOffset.toInt + size.toInt64.toInt)
    raise rangeEnd

/-! ## Values in range -/

/-- A signed operation whose exact result is a natural number that fits. -/
lemma signed_eq {x : ℤ} {n : ℕ} (hx : x = n) (hn : n < 2 ^ 63) :
    signed x = (pure (Int64.ofNat n) : Code S Int64) := by
  subst hx
  rw [signed, if_pos ⟨by omega, by omega⟩, Int64.ofInt_eq_ofNat]

/-- The comparison of two values in range. -/
lemma ofNat_le {a b : ℕ} (ha : a < 2 ^ 63) (hb : b < 2 ^ 63) :
    Int64.ofNat a ≤ Int64.ofNat b ↔ a ≤ b := by
  rw [Int64.le_iff_toInt_le, Int64.toInt_ofNat_of_lt ha, Int64.toInt_ofNat_of_lt hb]
  omega

/-- The strict comparison of two values in range. -/
lemma ofNat_lt {a b : ℕ} (ha : a < 2 ^ 63) (hb : b < 2 ^ 63) :
    Int64.ofNat a < Int64.ofNat b ↔ a < b := by
  rw [Int64.lt_iff_toInt_lt, Int64.toInt_ofNat_of_lt ha, Int64.toInt_ofNat_of_lt hb]
  omega

/-- The minimum of two values in range. -/
lemma min_ofNat {a b : ℕ} (ha : a < 2 ^ 63) (hb : b < 2 ^ 63) :
    min (Int64.ofNat a) (Int64.ofNat b) = Int64.ofNat (min a b) := by
  show (if Int64.ofNat a ≤ Int64.ofNat b then Int64.ofNat a else Int64.ofNat b) = _
  by_cases h : a ≤ b
  · rw [if_pos ((ofNat_le ha hb).mpr h), Nat.min_eq_left h]
  · rw [if_neg (mt (ofNat_le ha hb).mp h), Nat.min_eq_right (by omega)]

/-- The maximum of two values in range. -/
lemma max_ofNat {a b : ℕ} (ha : a < 2 ^ 63) (hb : b < 2 ^ 63) :
    max (Int64.ofNat a) (Int64.ofNat b) = Int64.ofNat (max a b) := by
  show (if Int64.ofNat a ≤ Int64.ofNat b then Int64.ofNat b else Int64.ofNat a) = _
  by_cases h : a ≤ b
  · rw [if_pos ((ofNat_le ha hb).mpr h), Nat.max_eq_right h]
  · rw [if_neg (mt (ofNat_le ha hb).mp h), Nat.max_eq_left (by omega)]

/-- The block of an offset in range. -/
lemma ofNat_div {n : ℕ} (hn : n < 2 ^ 63) : Int64.ofNat n / 4096 = Int64.ofNat (n / 4096) := by
  have hmin : Int64.ofNat n ≠ Int64.minValue := by
    intro h
    have := congrArg Int64.toInt h
    rw [Int64.toInt_ofNat_of_lt hn, Int64.toInt_minValue] at this
    omega
  rw [← Int64.toInt_inj, Int64.toInt_div_of_ne_left _ _ hmin, Int64.toInt_ofNat_of_lt hn,
    Int64.toInt_ofNat_of_lt (by omega)]
  exact Int.ofNat_tdiv n 4096

/-- The offset in the block of an offset in range. -/
lemma ofNat_mod {n : ℕ} (hn : n < 2 ^ 63) : Int64.ofNat n % 4096 = Int64.ofNat (n % 4096) := by
  rw [← Int64.toInt_inj, Int64.toInt_mod, Int64.toInt_ofNat_of_lt hn,
    Int64.toInt_ofNat_of_lt (by omega)]
  exact Int.ofNat_tmod n 4096

/-- A signed value that is not negative is that of a natural number. -/
lemma eq_ofNat {x : Int64} (h : 0 ≤ x.toInt) : x = Int64.ofNat x.toInt.toNat := by
  have hlt := x.toInt_lt
  rw [← Int64.toInt_inj, Int64.toInt_ofNat_of_lt (by omega)]
  omega

/-- The signed reading of an unsigned value. -/
lemma toInt64_eq (x : UInt64) : x.toInt64 = Int64.ofNat x.toNat := by
  rw [← UInt64.toInt64_ofNat', UInt64.ofNat_toNat]

/-- An unsigned value in range. -/
lemma toNat_ofNat {n : ℕ} (hn : n < 2 ^ 64) : (UInt64.ofNat n).toNat = n :=
  UInt64.toNat_ofNat_of_lt' hn

/-- The unsigned reading of a value in range. -/
lemma toNat_toUInt64 {n : ℕ} (hn : n < 2 ^ 64) : (Int64.ofNat n).toUInt64.toNat = n := by
  rw [Int64.toUInt64_ofNat', toNat_ofNat hn]

/-- The last block of a range, by the unsigned sum of its offset and its size. -/
lemma lastBlock_eq {off : ℕ} {size : UInt64} (hpos : 0 < size.toNat)
    (hend : off + size.toNat ≤ 1000000 * 4096) :
    (((Int64.ofNat off).toUInt64 + size - 1) / 4096).toInt64 =
      Int64.ofNat ((off + size.toNat - 1) / 4096) := by
  have hone : (1 : UInt64).toNat = 1 := rfl
  have hsum : ((Int64.ofNat off).toUInt64 + size).toNat = off + size.toNat := by
    rw [UInt64.toNat_add, toNat_toUInt64 (by omega), Nat.mod_eq_of_lt (by omega)]
  have hle : 1 ≤ (Int64.ofNat off).toUInt64 + size := by
    rw [UInt64.le_iff_toNat_le, hsum, hone]
    omega
  rw [toInt64_eq, UInt64.toNat_div, UInt64.toNat_sub_of_le _ _ hle, hsum, hone]
  rfl

/-! ## The check and the loops -/

/-- **The range check is exact**: it rejects a range exactly if it is not within the first 1000000
blocks. -/
theorem outOfRange_eq (size : UInt64) (logicalOffset : Int64) :
    outOfRange size logicalOffset = (pure (decide (¬ (0 ≤ logicalOffset.toInt ∧
      logicalOffset.toInt + size.toNat ≤ 1000000 * 4096))) : Code S Bool) := by
  have hlimit : (1000000 * 4096 : Int64).toInt = 4096000000 := by decide
  have hzero : (0 : Int64).toInt = 0 := rfl
  unfold outOfRange
  by_cases h : logicalOffset < 0 ∨ logicalOffset > 1000000 * 4096
  · rw [gt_iff_lt, Int64.lt_iff_toInt_lt, Int64.lt_iff_toInt_lt, hlimit, hzero] at h
    rw [if_pos (by rwa [gt_iff_lt, Int64.lt_iff_toInt_lt, Int64.lt_iff_toInt_lt, hlimit, hzero]),
      decide_eq_true (by omega)]
  · rw [if_neg h]
    rw [gt_iff_lt, Int64.lt_iff_toInt_lt, Int64.lt_iff_toInt_lt, hlimit, hzero] at h
    obtain ⟨o, ho⟩ : ∃ o : ℕ, logicalOffset.toInt = o := ⟨logicalOffset.toInt.toNat, by omega⟩
    have hrest : (1000000 * 4096 : Int64).toInt - logicalOffset.toInt =
        ((4096000000 - o : ℕ) : ℤ) := by
      rw [hlimit]
      omega
    rw [signed_eq hrest (by omega), pure_bind]
    refine congrArg pure (decide_eq_decide.mpr ?_)
    rw [gt_iff_lt, UInt64.lt_iff_toNat_lt, toNat_toUInt64 (by omega)]
    omega

/-- The checks of `Read` and `Write`, and what comes behind them. -/
lemma guarded_eq (size : UInt64) (logicalOffset : Int64) (ready : S → Bool)
    (rejection notReady : Status) (body : Code S Unit) (s : S) :
    (outOfRange size logicalOffset >>= fun rejected =>
      if rejected then throw (Halt.failed rejection)
      else get >>= fun s => if ¬ ready s then throw (Halt.failed notReady) else body) s =
      if 0 ≤ logicalOffset.toInt ∧ logicalOffset.toInt + size.toNat ≤ 1000000 * 4096 then
        if ready s then body s else (.error (.failed notReady), s)
      else (.error (.failed rejection), s) := by
  rw [outOfRange_eq, pure_bind]
  by_cases hrange : 0 ≤ logicalOffset.toInt ∧ logicalOffset.toInt + size.toNat ≤ 1000000 * 4096
  · rw [decide_eq_false (not_not.mpr hrange), if_neg Bool.false_ne_true, if_pos hrange,
      Code.get_bind]
    by_cases hready : ready s = true
    · rw [if_neg (not_not.mpr hready), if_pos hready]
    · rw [if_pos hready, if_neg hready]
      rfl
  · rw [decide_eq_true hrange, if_pos rfl, if_neg hrange]
    rfl

/-- **The loop of `ReadLocked` visits the slices of its range, in order.**

**Proof sketch.** Induction on the iterations: all values of an iteration are natural numbers in
range, and those of the next one belong to the rest of the range. -/
theorem readLoop_eq (copy : Int64 → Int64 → Int64 → UInt64 → Code S Unit) {fuel n o k : ℕ}
    (hend : o + n ≤ 1000000 * 4096) (hfuel : (slices 4096 o n k).length < fuel) :
    readLoop copy fuel (Int64.ofNat n) (Int64.ofNat o) (UInt64.ofNat k) =
      forM (slices 4096 o n k) fun c =>
        copy (.ofNat c.block) (.ofNat c.offset) (.ofNat c.length) (.ofNat c.position) := by
  induction fuel generalizing n o k with
  | zero => omega
  | succ fuel ih =>
    rw [readLoop]
    by_cases hn : n = 0
    · subst hn
      rw [slices_zero, List.forM_nil]
      rfl
    obtain ⟨l, hl⟩ : ∃ l, l = min (4096 - o % 4096) n := ⟨_, rfl⟩
    have hmore : Int64.ofNat n > Int64.ofNat 0 := (ofNat_lt (by omega) (by omega)).mpr (by omega)
    have hroom : (4096 - (Int64.ofNat (o % 4096)).toInt) = ((4096 - o % 4096 : ℕ) : ℤ) := by
      rw [Int64.toInt_ofNat_of_lt (by omega)]
      omega
    have hrest : (Int64.ofNat n).toInt - (Int64.ofNat l).toInt = ((n - l : ℕ) : ℤ) := by
      rw [Int64.toInt_ofNat_of_lt (by omega), Int64.toInt_ofNat_of_lt (by omega)]
      omega
    have hnext : (Int64.ofNat o).toInt + (Int64.ofNat l).toInt = ((o + l : ℕ) : ℤ) := by
      rw [Int64.toInt_ofNat_of_lt (by omega), Int64.toInt_ofNat_of_lt (by omega)]
      omega
    rw [slices_of_pos 4096 (by omega), ← hl] at hfuel ⊢
    rw [List.length_cons] at hfuel
    rw [if_pos (show Int64.ofNat n > 0 from hmore), List.forM_cons]
    dsimp only
    rw [ofNat_mod (by omega), ofNat_div (by omega), signed_eq hroom (by omega), pure_bind,
      min_ofNat (by omega) (by omega), ← hl]
    refine bind_congr fun _ => ?_
    rw [signed_eq hrest (by omega), pure_bind, signed_eq hnext (by omega), pure_bind,
      Int64.toUInt64_ofNat', ← UInt64.ofNat_add]
    exact ih (by omega) (by omega)

/-- A range that passes the check has at most 1000000 slices. -/
lemma length_slices_le {o : ℤ} {n : ℕ} (h0 : 0 ≤ o) (hend : o + n ≤ 1000000 * 4096) :
    (slices 4096 o.toNat n 0).length ≤ 1000000 := by
  by_cases hn : n = 0
  · subst hn
    rw [slices_zero]
    exact Nat.zero_le _
  · rw [length_slices 4096 (by omega)]
    omega

/-- **`ReadLocked` visits the slices of its range, in order.** -/
theorem readLocked_eq (copy : Int64 → Int64 → Int64 → UInt64 → Code S Unit) {fuel : ℕ}
    {size : UInt64} {logicalOffset : Int64} (h0 : 0 ≤ logicalOffset.toInt)
    (hend : logicalOffset.toInt + size.toNat ≤ 1000000 * 4096)
    (hfuel : (slices 4096 logicalOffset.toInt.toNat size.toNat 0).length < fuel) :
    readLocked copy fuel size logicalOffset =
      forM (slices 4096 logicalOffset.toInt.toNat size.toNat 0) fun c =>
        copy (.ofNat c.block) (.ofNat c.offset) (.ofNat c.length) (.ofNat c.position) := by
  have hneg : ¬ logicalOffset < 0 := by
    rw [Int64.lt_iff_toInt_lt]
    exact not_lt.mpr h0
  rw [readLocked, if_neg hneg]
  by_cases hs : size = 0
  · subst hs
    rw [if_pos rfl, UInt64.toNat_zero, slices_zero, List.forM_nil]
  · rw [if_neg hs, toInt64_eq]
    have hloop := readLoop_eq copy (by omega) hfuel
    rwa [← eq_ofNat h0] at hloop

/-- An iteration of `Write` gets the first slice of what is left of the range, which starts at the
start of the range or of a block. It computes the slice from the number of its block. -/
lemma writeLoop_first (copy : Int64 → Int64 → Int64 → Int64 → Int64 → Code S Unit) {size : UInt64}
    {off n o k b l : ℕ} (hend : off + size.toNat ≤ 1000000 * 4096)
    (hrange : o + n = off + size.toNat) (hk : off + k = o) (hn : 0 < n) (hblock : o / 4096 = b)
    (hat : o = off ∨ o % 4096 = 0) (hl : l = min (4096 - o % 4096) n) (fuel : ℕ) :
    writeLoop copy size (.ofNat off) (.ofNat ((off + size.toNat - 1) / 4096)) (fuel + 1)
        (.ofNat b) = (do
      copy (.ofNat b) (.ofNat (b * 4096)) (.ofNat (o % 4096)) (.ofNat l) (.ofNat k)
      writeLoop copy size (.ofNat off) (.ofNat ((off + size.toNat - 1) / 4096)) fuel
        (.ofNat (b + 1))) := by
  have hmore : Int64.ofNat b ≤ Int64.ofNat ((off + size.toNat - 1) / 4096) :=
    (ofNat_le (by omega) (by omega)).mpr (by omega)
  have hb : (Int64.ofNat b).toInt = b := Int64.toInt_ofNat_of_lt (by omega)
  have hoff : (Int64.ofNat off).toInt = off := Int64.toInt_ofNat_of_lt (by omega)
  have hsize : (Int64.ofNat size.toNat).toInt = size.toNat := Int64.toInt_ofNat_of_lt (by omega)
  have hblockStart : (Int64.ofNat b).toInt * 4096 = ((b * 4096 : ℕ) : ℤ) := by omega
  have hrangeEnd : (Int64.ofNat off).toInt + (Int64.ofNat size.toNat).toInt =
      ((off + size.toNat : ℕ) : ℤ) := by omega
  have hblockStart' : (Int64.ofNat (b * 4096)).toInt = ((b * 4096 : ℕ) : ℤ) :=
    Int64.toInt_ofNat_of_lt (by omega)
  have hblockEnd : (Int64.ofNat (b * 4096)).toInt + 4096 = ((b * 4096 + 4096 : ℕ) : ℤ) := by
    omega
  -- the slice starts where the rest of the range does
  have hwriteStart : max off (b * 4096) = o := by omega
  have hwriteEnd : min (off + size.toNat) (b * 4096 + 4096) = o + l := by omega
  have ho : (Int64.ofNat o).toInt = o := Int64.toInt_ofNat_of_lt (by omega)
  have hol : (Int64.ofNat (o + l)).toInt = ((o + l : ℕ) : ℤ) :=
    Int64.toInt_ofNat_of_lt (by omega)
  have hblockLen : (Int64.ofNat (o + l)).toInt - (Int64.ofNat o).toInt = l := by omega
  have hblockOff : (Int64.ofNat o).toInt - (Int64.ofNat (b * 4096)).toInt =
      ((o % 4096 : ℕ) : ℤ) := by omega
  have hbufOffset : (Int64.ofNat o).toInt - (Int64.ofNat off).toInt = k := by omega
  have hnext : (Int64.ofNat b).toInt + 1 = ((b + 1 : ℕ) : ℤ) := by omega
  rw [writeLoop, if_pos hmore, toInt64_eq]
  dsimp only
  rw [signed_eq hblockStart (by omega), pure_bind, signed_eq hrangeEnd (by omega), pure_bind,
    max_ofNat (by omega) (by omega), hwriteStart, signed_eq hblockEnd (by omega), pure_bind,
    min_ofNat (by omega) (by omega), hwriteEnd, signed_eq hblockLen (by omega), pure_bind,
    signed_eq hblockOff (by omega), pure_bind, signed_eq hbufOffset (by omega), pure_bind]
  refine bind_congr fun _ => ?_
  rw [signed_eq hnext (by omega), pure_bind]

/-- **The loop of `Write` visits the slices of its range, in order.** The range from `o` on is what
is left of it: it starts at the start of the range or of a block.

**Proof sketch.** Induction on the iterations, as for `ReadLocked`; each of them gets the next
slice (`writeLoop_first`). -/
theorem writeLoop_eq (copy : Int64 → Int64 → Int64 → Int64 → Int64 → Code S Unit) {size : UInt64}
    {off fuel n o k b : ℕ} (hend : off + size.toNat ≤ 1000000 * 4096) (hpos : 0 < size.toNat)
    (hrange : o + n = off + size.toNat) (hk : off + k = o)
    (hstart : 0 < n → o / 4096 = b ∧ (o = off ∨ o % 4096 = 0))
    (hdone : n = 0 → o ≤ b * 4096) (hb : b ≤ 1000000)
    (hfuel : (slices 4096 o n k).length < fuel) :
    writeLoop copy size (.ofNat off) (.ofNat ((off + size.toNat - 1) / 4096)) fuel (.ofNat b) =
      forM (slices 4096 o n k) fun c =>
        copy (.ofNat c.block) (.ofNat (c.block * 4096)) (.ofNat c.offset) (.ofNat c.length)
          (.ofNat c.position) := by
  induction fuel generalizing n o k b with
  | zero => omega
  | succ fuel ih =>
    by_cases hn : n = 0
    · have hlast : ¬ Int64.ofNat b ≤ Int64.ofNat ((off + size.toNat - 1) / 4096) := by
        rw [ofNat_le (by omega) (by omega)]
        have := hdone hn
        omega
      subst hn
      rw [writeLoop, if_neg hlast, slices_zero, List.forM_nil]
    · obtain ⟨hblock, hat⟩ := hstart (Nat.pos_of_ne_zero hn)
      obtain ⟨l, hl⟩ : ∃ l, l = min (4096 - o % 4096) n := ⟨_, rfl⟩
      rw [slices_of_pos 4096 (by omega), ← hl] at hfuel ⊢
      rw [List.length_cons] at hfuel
      rw [writeLoop_first copy hend hrange hk (by omega) hblock hat hl, List.forM_cons]
      dsimp only
      rw [hblock]
      refine bind_congr fun _ => ?_
      exact ih (by omega) (by omega) (by omega) (by omega) (by omega) (by omega)

/-- **`Write` visits the slices of its range, in order**, and then raises the size. -/
theorem writeLocked_eq (copy : Int64 → Int64 → Int64 → Int64 → Int64 → Code S Unit)
    (raise : Int64 → Code S Unit) {fuel : ℕ} {size : UInt64} {logicalOffset : Int64}
    (h0 : 0 ≤ logicalOffset.toInt) (hend : logicalOffset.toInt + size.toNat ≤ 1000000 * 4096)
    (hfuel : (slices 4096 logicalOffset.toInt.toNat size.toNat 0).length < fuel) :
    writeLocked copy raise fuel size logicalOffset = (do
      forM (slices 4096 logicalOffset.toInt.toNat size.toNat 0) fun c =>
        copy (.ofNat c.block) (.ofNat (c.block * 4096)) (.ofNat c.offset) (.ofNat c.length)
          (.ofNat c.position)
      if size = 0 then pure () else raise (.ofInt (logicalOffset.toInt + size.toNat))) := by
  rw [writeLocked]
  by_cases hs : size = 0
  · subst hs
    rw [if_pos rfl, if_pos rfl, UInt64.toNat_zero, slices_zero, List.forM_nil, pure_bind]
  rw [if_neg hs, if_neg hs]
  have hpos : 0 < size.toNat := by
    refine Nat.pos_of_ne_zero fun h => hs ?_
    exact UInt64.toNat_inj.mp h
  obtain ⟨off, hoff⟩ : ∃ off, off = logicalOffset.toInt.toNat := ⟨_, rfl⟩
  have hval : logicalOffset = Int64.ofNat off := by rw [hoff, ← eq_ofNat h0]
  have htoInt : logicalOffset.toInt = off := by omega
  have hrangeEnd : logicalOffset.toInt + size.toInt64.toInt = ((off + size.toNat : ℕ) : ℤ) := by
    rw [toInt64_eq, Int64.toInt_ofNat_of_lt (by omega), htoInt]
    omega
  rw [← hoff] at hfuel
  have hloop := writeLoop_eq copy (b := off / 4096) (by omega) hpos rfl rfl
    (fun _ => ⟨rfl, Or.inl rfl⟩) (by omega) (by omega) hfuel
  dsimp only
  rw [hval, lastBlock_eq hpos (by omega), ofNat_div (by omega), hloop, ← hval, ← hoff]
  refine bind_congr fun _ => ?_
  rw [signed_eq hrangeEnd (by omega), pure_bind, ← Int64.ofInt_eq_ofNat, htoInt, Nat.cast_add]

end FixedWidth

end SqliteGcs
