import SqliteGcs.Storage

set_option relaxedAutoImplicit false
set_option autoImplicit false

/-!
# System calls that transfer bytes

The outcomes of `read`, `write`, `pread`, `fsync`, `fstat` and `open` as the code of the
repository sees them. A call may transfer fewer bytes than asked for, be interrupted by a signal
(`EINTR`), or fail. An interrupted call has transferred nothing and is made again with the same
arguments: the loops over a buffer below have such calls in their outcomes, while a single
`Transfer` is the outcome of the call that is not interrupted.

## Main definitions

* `SqliteGcs.Errno` — the error of a failed call.
* `SqliteGcs.Transfer` — the outcome of a call that transfers bytes.
* `SqliteGcs.Transfers` — the outcomes of the calls of a loop that transfers a buffer.
-/

namespace SqliteGcs

/-! ## Coming outcomes -/

/-- What holds of every coming outcome, and of the one beyond the end of the list, holds of the
next. -/
lemma headD_of_forall {α : Type} {p : α → Prop} {l : List α} {d : α} (hd : p d)
    (h : ∀ a ∈ l, p a) : p (l.headD d) := by
  cases l with
  | nil => exact hd
  | cons a l => exact h a List.mem_cons_self

/-- If no coming call fails, the next one does not. -/
lemma headD_none {α : Type} {l : List (Option α)} (h : ∀ failure ∈ l, failure = none) :
    l.headD none = none :=
  headD_of_forall (p := fun failure => failure = none) rfl h

/-! ## Transfers -/

/-- The error of a failed call, as `absl::ErrnoToStatus` uses it: the status for a message. -/
abbrev Errno := String → Status

/-- The outcome of a call that transfers bytes. -/
inductive Transfer
  /-- At least one byte is transferred if any can be, and at most `k + 1` are. -/
  | bytes (k : ℕ)
  /-- The call fails and transfers nothing. -/
  | failed (errno : Errno)

/-- The count of a call for `size` bytes that can transfer `available` of them. -/
def Transfer.count (k size available : ℕ) : ℕ := min (min (k + 1) size) available

/-- If bytes are asked for and available, some are transferred. -/
lemma Transfer.count_pos {k size available : ℕ} (hs : 0 < size) (ha : 0 < available) :
    0 < Transfer.count k size available := by
  unfold Transfer.count
  omega

/-- No more bytes are transferred than are asked for and available. -/
lemma Transfer.count_le (k size available : ℕ) :
    Transfer.count k size available ≤ size ∧ Transfer.count k size available ≤ available := by
  unfold Transfer.count
  omega

/-- The outcomes of the calls of a loop that goes on until a buffer is transferred. -/
structure Transfers where
  /-- The first calls: each is interrupted (`none`), or succeeds as `Transfer.bytes` of its number
  says. -/
  counts : List (Option ℕ)
  /-- The call after them fails with this error, or transfers the rest of the buffer. -/
  failure : Option Errno

/-- How many bytes the first calls can transfer. -/
def Transfers.capacity (t : Transfers) : ℕ := (t.counts.map fun c => c.elim 0 (· + 1)).sum

/-- The calls transfer a whole buffer of the given size. -/
def Transfers.Delivers (t : Transfers) (size : ℕ) : Prop := t.failure = none ∨ size ≤ t.capacity

/-- Every call transfers all it is asked for. -/
def Transfers.all : Transfers := ⟨[], none⟩

end SqliteGcs
