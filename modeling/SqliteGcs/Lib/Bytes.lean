import Mathlib.Data.List.Basic
import Mathlib.Data.List.TakeDrop
import Mathlib.Data.List.GetD
import Mathlib.Tactic.Ring

set_option relaxedAutoImplicit false
set_option autoImplicit false

/-!
# Byte strings: slices, fixed-size chunks, little-endian 64-bit integers

General facts about lists used as byte strings. A *slice* is what a positioned read returns, a
*chunk* list is what a scan over fixed-size records sees, and the integer codec is the
little-endian two's complement layout of a 64-bit signed integer in memory.

## Main definitions

* `Bytes.slice` — the `n` elements starting at position `off`.
* `Bytes.chunks` — the first `n` consecutive pieces of size `k`.
* `Bytes.window` — the values of a function at consecutive positions.
* `Bytes.u64`, `Bytes.s64` — conversion of an integer to 64 bits, unsigned and signed.
* `Bytes.encodeInt64`, `Bytes.decodeInt64` — the eight little-endian bytes of an integer.

## Main results

* `Bytes.slice_append_left`, `Bytes.slice_append_right` — a slice of a concatenation.
* `Bytes.chunks_append`, `Bytes.chunks_flatten` — the chunks of a concatenation of records.
* `Bytes.decodeInt64_encodeInt64`, `Bytes.encodeInt64_decodeInt64` — the codec round-trips, on the
  range of the type and on eight bytes.
-/

namespace Bytes

variable {α : Type*}

/-! ## Slices -/

/-- The `n` elements of `l` from position `off` on (fewer if `l` ends before). -/
def slice (off n : ℕ) (l : List α) : List α := (l.drop off).take n

/-- The length of a slice is the part of the range that lies inside the list. -/
@[simp] lemma length_slice (off n : ℕ) (l : List α) :
    (slice off n l).length = min n (l.length - off) := by
  simp [slice]

/-- A slice of the whole range is the list. -/
lemma slice_zero_length (l : List α) : slice 0 l.length l = l := by
  simp [slice]

/-- A slice that ends inside the left part does not see the right part. -/
lemma slice_append_left {off n : ℕ} {a : List α} (b : List α) (h : off + n ≤ a.length) :
    slice off n (a ++ b) = slice off n a := by
  unfold slice
  rw [List.drop_append_of_le_length (by omega), List.take_append_of_le_length]
  rw [List.length_drop]
  omega

/-- What is in a list stays in it when the list grows. -/
lemma slice_eq_append {l data : List α} {o : ℕ} (hle : o + data.length ≤ l.length)
    (h : slice o data.length l = data) (more : List α) :
    o + data.length ≤ (l ++ more).length ∧ slice o data.length (l ++ more) = data := by
  rw [List.length_append, slice_append_left more hle]
  exact ⟨by omega, h⟩

/-- A slice that starts after the left part is a slice of the right part. -/
lemma slice_append_right {o n : ℕ} (a b : List α) :
    slice (a.length + o) n (a ++ b) = slice o n b := by
  unfold slice
  rw [← List.drop_drop, List.drop_left]

/-- The right part is the slice at the end of the left one. -/
lemma slice_length_append (a b : List α) : slice a.length b.length (a ++ b) = b :=
  (slice_append_right (o := 0) a b).trans (slice_zero_length b)

/-- A slice of a slice is a slice. -/
lemma slice_slice {off n off' n' : ℕ} (l : List α) (h : off' + n' ≤ n) :
    slice off' n' (slice off n l) = slice (off + off') n' l := by
  unfold slice
  rw [List.drop_take, List.drop_drop, List.take_take, min_eq_left (by omega)]

/-- Two adjacent slices join. -/
lemma slice_append_slice (off n m : ℕ) (l : List α) :
    slice off n l ++ slice (off + n) m l = slice off (n + m) l := by
  unfold slice
  rw [← List.drop_drop, List.take_add]

/-- The element at position `i` of a slice. -/
lemma getD_slice {o n i : ℕ} (l : List α) (d : α) (h : i < n) :
    (slice o n l).getD i d = l.getD (o + i) d := by
  simp [slice, List.getD_eq_getElem?_getD, h]

/-! ## Chunks -/

/-- The first `n` consecutive pieces of size `k` of a list. -/
def chunks (k : ℕ) : ℕ → List α → List (List α)
  | 0, _ => []
  | n + 1, l => l.take k :: chunks k n (l.drop k)

/-- There are as many chunks as asked for. -/
@[simp] lemma length_chunks (k n : ℕ) (l : List α) : (chunks k n l).length = n := by
  induction n generalizing l with
  | zero => rfl
  | succ n ih => simp [chunks, ih]

/-- The chunks from the `i`-th one on. -/
lemma chunks_succ_drop (k i n : ℕ) (l : List α) :
    chunks k (n + 1) (l.drop (k * i)) = slice (k * i) k l :: chunks k n (l.drop (k * (i + 1))) := by
  rw [chunks, List.drop_drop, Nat.mul_succ]
  rfl

/-- The chunks of a list whose left part holds exactly `n` of them. -/
lemma chunks_append {k n : ℕ} {a : List α} (h : a.length = k * n) (m : ℕ) (b : List α) :
    chunks k (n + m) (a ++ b) = chunks k n a ++ chunks k m b := by
  induction n generalizing a with
  | zero =>
    have ha : a = [] := List.length_eq_zero_iff.mp (by simpa using h)
    simp [ha, chunks]
  | succ n ih =>
    have hk : k ≤ a.length := by rw [h]; exact Nat.le_mul_of_pos_right k n.succ_pos
    have hd : (a.drop k).length = k * n := by
      rw [List.length_drop, h, Nat.mul_succ, Nat.add_sub_cancel]
    rw [Nat.add_right_comm, chunks, chunks, List.take_append_of_le_length hk,
      List.drop_append_of_le_length hk, ih hd, List.cons_append]

/-- Concatenating pieces of size `k` and cutting again gives the pieces back. -/
lemma chunks_flatten {k : ℕ} {ls : List (List α)} (h : ∀ l ∈ ls, l.length = k) :
    chunks k ls.length ls.flatten = ls := by
  induction ls with
  | nil => rfl
  | cons l ls ih =>
    have hl : l.length = k := h l List.mem_cons_self
    have ht := ih fun x hx => h x (List.mem_cons_of_mem l hx)
    simp only [List.length_cons, List.flatten_cons, chunks]
    rw [← hl, List.take_left, List.drop_left, hl, ht]

/-- The total length of pieces of size `k`. -/
lemma length_flatten_of_forall {k : ℕ} {ls : List (List α)} (h : ∀ l ∈ ls, l.length = k) :
    ls.flatten.length = k * ls.length := by
  induction ls with
  | nil => simp
  | cons l ls ih =>
    rw [List.flatten_cons, List.length_append, h l List.mem_cons_self,
      ih fun x hx => h x (List.mem_cons_of_mem l hx), List.length_cons, Nat.mul_succ, Nat.add_comm]

/-- Cutting fewer chunks is cutting them all and keeping the first ones. -/
lemma chunks_take {k n m : ℕ} (l : List α) (h : n ≤ m) :
    chunks k n l = (chunks k m l).take n := by
  induction n generalizing m l with
  | zero => simp [chunks]
  | succ n ih =>
    obtain ⟨m, rfl⟩ : ∃ m', m = m' + 1 := ⟨m - 1, by omega⟩
    rw [chunks, chunks, List.take_succ_cons, ih _ (by omega : n ≤ m)]

/-- Only the part of the list that the chunks cover matters. -/
lemma chunks_of_take {k n m : ℕ} (l : List α) (h : k * n ≤ m) :
    chunks k n (l.take m) = chunks k n l := by
  induction n generalizing m l with
  | zero => rfl
  | succ n ih =>
    have hk : k ≤ m := le_trans (Nat.le_mul_of_pos_right k n.succ_pos) h
    rw [chunks, chunks, List.take_take, min_eq_left hk, List.drop_take,
      ih _ (by rw [Nat.mul_succ] at h; omega)]

/-- Chunk `i` is the slice at position `k * i`. -/
lemma getElem_chunks {k n i : ℕ} (l : List α) (h : i < (chunks k n l).length) :
    (chunks k n l)[i] = slice (k * i) k l := by
  induction n generalizing l i with
  | zero => simp [chunks] at h
  | succ n ih =>
    cases i with
    | zero => simp [chunks, slice]
    | succ i =>
      simp only [chunks, List.getElem_cons_succ]
      rw [ih, slice, slice, List.drop_drop, Nat.mul_succ, Nat.add_comm]

/-! ## Windows -/

/-- The values of `f` at the `n` positions from `off` on. -/
def window (f : ℕ → α) (off n : ℕ) : List α := (List.range n).map fun i => f (off + i)

/-- A window has the length asked for. -/
@[simp] lemma length_window (f : ℕ → α) (off n : ℕ) : (window f off n).length = n := by
  simp [window]

/-- The element at position `i` of a window. -/
lemma getD_window (f : ℕ → α) (off : ℕ) {n i : ℕ} (d : α) (h : i < n) :
    (window f off n).getD i d = f (off + i) := by
  simp [window, List.getD_eq_getElem?_getD, h]

/-- Two adjacent windows join. -/
lemma window_append (f : ℕ → α) (off n m : ℕ) :
    window f off n ++ window f (off + n) m = window f off (n + m) := by
  simp [window, List.range_add, Nat.add_assoc]

/-- Windows of functions that agree there are equal. -/
lemma window_congr {f g : ℕ → α} {off off' n : ℕ} (h : ∀ i < n, f (off + i) = g (off' + i)) :
    window f off n = window g off' n := by
  refine List.map_congr_left fun i hi => h i (List.mem_range.mp hi)

/-- A list that has the values of `f`, place by place, is a window of `f`. -/
lemma eq_window {f : ℕ → α} {off n : ℕ} {l : List α} (d : α) (hl : l.length = n)
    (h : ∀ i < n, l.getD i d = f (off + i)) : l = window f off n := by
  refine List.ext_getElem (by simp [hl]) fun i h1 h2 => ?_
  have hi := h i (hl ▸ h1)
  rw [List.getD_eq_getElem l d h1] at hi
  simp [window, hi]

/-- The first places of a window. -/
lemma take_window (f : ℕ → α) (off : ℕ) {k n : ℕ} (h : k ≤ n) :
    (window f off n).take k = window f off k := by
  obtain ⟨m, rfl⟩ := Nat.exists_eq_add_of_le h
  rw [← window_append, List.take_left' (length_window f off k)]

/-- The last places of a window. -/
lemma drop_window (f : ℕ → α) (off k m : ℕ) :
    (window f off (k + m)).drop k = window f (off + k) m := by
  rw [← window_append, List.drop_left' (length_window f off k)]

/-- The function `f` with the values of `buf` from position `off` on. -/
def patch (f : ℕ → α) (off : ℕ) (buf : List α) (d : α) (i : ℕ) : α :=
  if off ≤ i ∧ i < off + buf.length then buf.getD (i - off) d else f i

/-- Inside the patch, the patched function has the values of the buffer. -/
lemma window_patch (f : ℕ → α) (off : ℕ) {buf : List α} (d : α) {o n : ℕ}
    (h : o + n ≤ buf.length) : window (patch f off buf d) (off + o) n = slice o n buf := by
  symm
  refine eq_window d (by rw [length_slice]; omega) fun i hi => ?_
  have hsub : off + o + i - off = o + i := by omega
  rw [getD_slice buf d hi, patch, if_pos (by omega), hsub]

/-- Overwriting a part of a window. -/
lemma overwrite_window {f g : ℕ → α} {o k m r : ℕ} (hl : ∀ i < k, f (o + i) = g (o + i))
    (hr : ∀ i < r, f (o + (k + m) + i) = g (o + (k + m) + i)) :
    (window f o (k + m + r)).take k ++ window g (o + k) m ++
      (window f o (k + m + r)).drop (k + m) = window g o (k + m + r) := by
  rw [take_window f o (by omega), drop_window, window_congr hl, window_append, window_congr hr,
    window_append]

/-! ## 64-bit integers -/

/-- Conversion to an unsigned 64-bit integer. -/
def u64 (x : ℤ) : ℕ := (x % 2 ^ 64).toNat

/-- Conversion to a signed 64-bit integer (two's complement). -/
def s64 (x : ℤ) : ℤ := Int.bmod x (2 ^ 64)

/-- On the range of the unsigned type the conversion is the identity. -/
lemma u64_of_range {x : ℤ} (h0 : 0 ≤ x) (h1 : x < 2 ^ 64) : (u64 x : ℤ) = x := by
  unfold u64
  rw [Int.emod_eq_of_lt h0 h1, Int.toNat_of_nonneg h0]

/-- On the range of the signed type the conversion is the identity. -/
lemma s64_of_range {x : ℤ} (h0 : -2 ^ 63 ≤ x) (h1 : x < 2 ^ 63) : s64 x = x := by
  unfold s64
  rw [Int.bmod_def]
  omega

/-- The signed reading of the unsigned conversion is the signed conversion. -/
lemma s64_u64 (x : ℤ) : s64 (u64 x) = s64 x := by
  unfold s64 u64
  rw [Int.toNat_of_nonneg (Int.emod_nonneg x (by decide))]
  exact Int.emod_bmod x (2 ^ 64)

/-- The `w` little-endian bytes of a natural number; higher digits are dropped. -/
def toLE : ℕ → ℕ → List UInt8
  | 0, _ => []
  | w + 1, n => UInt8.ofNat (n % 256) :: toLE w (n / 256)

/-- The natural number with the given little-endian bytes. -/
def ofLE : List UInt8 → ℕ
  | [] => 0
  | b :: bs => b.toNat + 256 * ofLE bs

/-- The encoding has the width asked for. -/
@[simp] lemma length_toLE (w n : ℕ) : (toLE w n).length = w := by
  induction w generalizing n with
  | zero => rfl
  | succ w ih => simp [toLE, ih]

/-- Decoding an encoding gives the number back modulo the width. -/
lemma ofLE_toLE (w n : ℕ) : ofLE (toLE w n) = n % 256 ^ w := by
  induction w generalizing n with
  | zero => simp [toLE, ofLE, Nat.mod_one]
  | succ w ih =>
    have hb : (UInt8.ofNat (n % 256)).toNat = n % 256 := by
      rw [UInt8.toNat_ofNat', Nat.mod_eq_of_lt (Nat.mod_lt n (by decide))]
    rw [toLE, ofLE, ih, hb, pow_succ', Nat.mod_mul]

/-- The eight bytes of a 64-bit integer. -/
def encodeInt64 (x : ℤ) : List UInt8 := toLE 8 (u64 x)

/-- The signed 64-bit integer stored in the given bytes. -/
def decodeInt64 (bs : List UInt8) : ℤ := s64 (ofLE bs)

/-- A 64-bit integer takes eight bytes. -/
@[simp] lemma length_encodeInt64 (x : ℤ) : (encodeInt64 x).length = 8 := length_toLE 8 _

/-- **The integer codec round-trips** on the range of the signed 64-bit type. -/
lemma decodeInt64_encodeInt64 {x : ℤ} (h0 : -2 ^ 63 ≤ x) (h1 : x < 2 ^ 63) :
    decodeInt64 (encodeInt64 x) = x := by
  have hlt : u64 x < 256 ^ 8 := by
    unfold u64
    omega
  unfold decodeInt64 encodeInt64
  rw [ofLE_toLE, Nat.mod_eq_of_lt hlt, s64_u64, s64_of_range h0 h1]

/-- The number in some bytes is below the width's bound. -/
lemma ofLE_lt (bs : List UInt8) : ofLE bs < 256 ^ bs.length := by
  induction bs with
  | nil => simp [ofLE]
  | cons b bs ih =>
    have hb := b.toNat_lt
    rw [ofLE, List.length_cons, pow_succ']
    omega

/-- Encoding a decoding gives the bytes back. -/
lemma toLE_ofLE (bs : List UInt8) : toLE bs.length (ofLE bs) = bs := by
  induction bs with
  | nil => rfl
  | cons b bs ih =>
    have hb : b.toNat < 256 := b.toNat_lt
    have hmod : (b.toNat + 256 * ofLE bs) % 256 = b.toNat := by omega
    have hdiv : (b.toNat + 256 * ofLE bs) / 256 = ofLE bs := by omega
    rw [List.length_cons, ofLE, toLE, hmod, hdiv, ih, UInt8.ofNat_toNat]

/-- The unsigned reading of the signed conversion of a number that fits is the number. -/
lemma u64_s64 {n : ℕ} (h : n < 2 ^ 64) : u64 (s64 n) = n := by
  have hmod : Int.bmod n (2 ^ 64) % 2 ^ 64 = (n : ℤ) % 2 ^ 64 := by
    have := @Int.bmod_emod n (2 ^ 64)
    exact_mod_cast this
  rw [u64, s64, hmod]
  omega

/-- **The integer codec round-trips** on eight bytes. -/
lemma encodeInt64_decodeInt64 {bs : List UInt8} (h : bs.length = 8) :
    encodeInt64 (decodeInt64 bs) = bs := by
  have hlt := ofLE_lt bs
  rw [h] at hlt
  have hback := toLE_ofLE bs
  rw [h] at hback
  rw [encodeInt64, decodeInt64, u64_s64 (by omega), hback]

end Bytes
