import Mathlib.Algebra.Order.Ring.Nat
import Mathlib.Data.List.Basic
import Mathlib.Data.List.Range
import Mathlib.Data.Nat.Basic

set_option relaxedAutoImplicit false
set_option autoImplicit false

/-!
# Ranges cut at the bounds of blocks

Positions are divided into blocks of `B`. A range of positions is cut at the bounds of the blocks
that it crosses; all its slices but the first and the last one are whole blocks.

## Main definitions

* `BlockRange.Slice` — a part of a range that lies in one block.
* `BlockRange.slices` — the slices of a range, in order.

## Main results

* `BlockRange.flatMap_slices` — the slices partition the range, in order.
* `BlockRange.inRange_of_mem_slices` — every slice is within its block and within the range.
* `BlockRange.length_slices` — there is one slice for each block from the first to the last.
-/

namespace BlockRange

/-- A part of a range that lies in one block. -/
structure Slice where
  /-- The block. -/
  block : ℕ
  /-- Where the slice starts in its block. -/
  offset : ℕ
  /-- The number of positions. -/
  length : ℕ
  /-- Where the slice starts in the range. -/
  position : ℕ
  deriving DecidableEq

/-- The slices of the `n` positions from `o` on. They are the part of a range that starts `k`
positions after the start of the range. -/
def slices (B : ℕ) [NeZero B] (o n k : ℕ) : List Slice :=
  if n = 0 then []
  else
    ⟨o / B, o % B, min (B - o % B) n, k⟩ ::
      slices B (o + min (B - o % B) n) (n - min (B - o % B) n) (k + min (B - o % B) n)
termination_by n
decreasing_by
  have := Nat.mod_lt o (NeZero.pos B)
  omega

variable (B : ℕ) [NeZero B]

/-- There are no slices of no positions. -/
@[simp] lemma slices_zero (o k : ℕ) : slices B o 0 k = [] := by
  rw [slices, if_pos rfl]

/-- The first slice, and the others. -/
lemma slices_of_pos {n : ℕ} (h : 0 < n) (o k : ℕ) :
    slices B o n k = ⟨o / B, o % B, min (B - o % B) n, k⟩ ::
      slices B (o + min (B - o % B) n) (n - min (B - o % B) n) (k + min (B - o % B) n) := by
  rw [slices, if_neg (by omega)]

/-- **The slices partition the range**: the positions of the slices, one slice after the other, are
those of the range.

**Proof sketch.** Induction along the slices. -/
theorem flatMap_slices (o n k : ℕ) :
    ((slices B o n k).flatMap fun c => List.range' c.position c.length) = List.range' k n := by
  induction o, n, k using slices.induct B with
  | case1 o k => rw [slices_zero, List.flatMap_nil, List.range'_zero]
  | case2 o n k hn ih =>
    have hle : min (B - o % B) n ≤ n := min_le_right _ _
    rw [slices_of_pos B (by omega), List.flatMap_cons, ih]
    show List.range' k (min (B - o % B) n) ++ _ = _
    rw [List.range'_append_1]
    congr 1
    omega

/-- A slice lies in its block, and in the range of `n` positions from `o` on. -/
structure Slice.InRange (o n k : ℕ) (c : Slice) : Prop where
  length_pos : 0 < c.length
  inBlock : c.offset + c.length ≤ B
  place : B * c.block + c.offset + k = o + c.position
  after : k ≤ c.position
  before : c.position + c.length ≤ k + n

/-- **Every slice lies in its block and in the range.** -/
theorem inRange_of_mem_slices {o n k : ℕ} {c : Slice} (h : c ∈ slices B o n k) :
    c.InRange B o n k := by
  induction o, n, k using slices.induct B with
  | case1 o k =>
    rw [slices_zero] at h
    cases h
  | case2 o n k hn ih =>
    have hmod := Nat.mod_lt o (NeZero.pos B)
    have hdiv := Nat.div_add_mod o B
    obtain ⟨l, hl⟩ : ∃ l, l = min (B - o % B) n := ⟨_, rfl⟩
    rw [slices_of_pos B (by omega), ← hl] at h
    rw [← hl] at ih
    rcases List.mem_cons.mp h with rfl | h
    · exact ⟨by dsimp only; omega, by dsimp only; omega, by dsimp only; omega, le_rfl,
        by dsimp only; omega⟩
    · obtain ⟨hpos, hblock, hplace, hafter, hbefore⟩ := ih h
      exact ⟨hpos, hblock, by omega, by omega, by omega⟩

/-- The blocks of the slices are below a bound that the range does not cross. -/
lemma block_lt_of_mem_slices {o n k K : ℕ} (hK : o + n ≤ B * K) {c : Slice}
    (h : c ∈ slices B o n k) : c.block < K := by
  obtain ⟨hpos, -, hplace, hafter, hbefore⟩ := inRange_of_mem_slices B h
  have hlt : B * c.block < B * K := by omega
  exact lt_of_mul_lt_mul_left hlt (Nat.zero_le B)

/-- Behind the first slice, if there is more, the next block starts. -/
lemma div_add_slice (o : ℕ) :
    (o + (B - o % B)) / B = o / B + 1 ∧ (o + (B - o % B)) % B = 0 := by
  have hmod := Nat.mod_lt o (NeZero.pos B)
  have hdiv := Nat.div_add_mod o B
  have hnext : o + (B - o % B) = B * (o / B + 1) := by
    rw [Nat.mul_add]
    omega
  rw [hnext]
  exact ⟨Nat.mul_div_cancel_left _ (NeZero.pos B), Nat.mul_mod_right _ _⟩

/-- **There is one slice for each block** from that of the first position to that of the last. -/
theorem length_slices {o n k : ℕ} (h : 0 < n) :
    (slices B o n k).length = (o + n - 1) / B - o / B + 1 := by
  induction o, n, k using slices.induct B with
  | case1 o k => exact absurd h (lt_irrefl 0)
  | case2 o n k hn ih =>
    have hmod := Nat.mod_lt o (NeZero.pos B)
    have hdiv := Nat.div_add_mod o B
    obtain ⟨hnext, -⟩ := div_add_slice B o
    rw [slices_of_pos B (by omega), List.length_cons]
    rcases le_or_gt n (B - o % B) with hle | hlt
    · have hlast : (o + n - 1) / B = o / B := by
        refine Nat.div_eq_of_lt_le ?_ ?_
        · rw [Nat.mul_comm]
          omega
        · rw [Nat.mul_comm, Nat.mul_add]
          omega
      rw [Nat.min_eq_right hle, Nat.sub_self, slices_zero, hlast, List.length_nil]
      omega
    · rw [Nat.min_eq_left hlt.le] at ih ⊢
      have hend : o + (B - o % B) + (n - (B - o % B)) - 1 = o + n - 1 := by omega
      have hle : o / B + 1 ≤ (o + n - 1) / B := by
        rw [← hnext]
        exact Nat.div_le_div_right (by omega)
      rw [ih (by omega), hend, hnext]
      omega

end BlockRange
