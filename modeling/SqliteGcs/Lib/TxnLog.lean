import Mathlib.Data.List.Basic
import Mathlib.Data.List.TakeDrop

set_option relaxedAutoImplicit false
set_option autoImplicit false

/-!
# Transaction logs with chained records

A log whose records are of three kinds: a *commit* record closes a transaction, a *chain* record
belongs to the transaction of the record after it, and an *abort* record belongs to none. Which
records take effect can be decided by one backward pass, or by a forward parser that collects
runs of chain records. This file proves the two equal, and how the decision on a record depends
on what is appended to the log.

## Main definitions

* `TxnLog.carry` — the flag of the backward pass in front of a log, when it starts from a given
  flag behind the log.
* `TxnLog.verdicts` — the decision of the backward pass on each record.
* `TxnLog.committed` — the records the backward pass decides to apply.
* `TxnLog.batches` — the transactions a forward parser finds.

## Main results

* `TxnLog.flatten_batches` — the forward parser finds exactly the committed records.
* `TxnLog.filter_batches` — the transactions of a log that is cut.
* `TxnLog.committed_append`, `TxnLog.verdicts_append` — extending the log.
* `TxnLog.getElem_verdicts_append` — only the records of an open chain at the end of the log can
  have their verdict changed by what is appended.
-/

namespace TxnLog

/-- The kinds of records. -/
inductive Mark
  | commit
  | chain
  | abort
  deriving DecidableEq, Repr

variable {α : Type*} (mark : α → Mark)

/-- The flag of the backward pass in front of a log, when the flag behind it is `next`: it is set
by a commit record, cleared by an abort record and kept by a chain record. -/
def carry : List α → Bool → Bool
  | [], next => next
  | x :: xs, next =>
    match mark x with
    | .commit => true
    | .chain => carry xs next
    | .abort => false

/-- The verdict of the backward pass on each record. -/
def verdicts : List α → Bool → List Bool
  | [], _ => []
  | x :: xs, next => carry mark (x :: xs) next :: verdicts xs next

/-- The records whose verdict is positive, in order. -/
def committed : List α → Bool → List α
  | [], _ => []
  | x :: xs, next =>
    if carry mark (x :: xs) next then x :: committed xs next else committed xs next

/-- The transactions of a log in order, `run` being the chain records collected so far: a commit
record closes the run, an abort record drops it, and so does the end of the log. -/
def batches (run : List α) : List α → List (List α)
  | [] => []
  | x :: xs =>
    match mark x with
    | .commit => (run ++ [x]) :: batches [] xs
    | .chain => batches (run ++ [x]) xs
    | .abort => batches [] xs

/-- There is one verdict for each record. -/
@[simp] lemma length_verdicts (xs : List α) (next : Bool) :
    (verdicts mark xs next).length = xs.length := by
  induction xs with
  | nil => rfl
  | cons x xs ih => simp [verdicts, ih]

/-- The flag in front of a concatenation. -/
lemma carry_append (xs ys : List α) (next : Bool) :
    carry mark (xs ++ ys) next = carry mark xs (carry mark ys next) := by
  induction xs with
  | nil => rfl
  | cons x xs ih =>
    simp only [List.cons_append, carry]
    cases mark x <;> simp [ih]

/-- The verdicts on a concatenation: the left part is judged with the flag in front of the right
part. -/
lemma verdicts_append (xs ys : List α) (next : Bool) :
    verdicts mark (xs ++ ys) next =
      verdicts mark xs (carry mark ys next) ++ verdicts mark ys next := by
  induction xs with
  | nil => rfl
  | cons x xs ih =>
    have hc : carry mark (x :: (xs ++ ys)) next = carry mark (x :: xs) (carry mark ys next) :=
      carry_append mark (x :: xs) ys next
    rw [List.cons_append, verdicts, verdicts, ih, hc, List.cons_append]

/-- The committed records of a concatenation. -/
lemma committed_append (xs ys : List α) (next : Bool) :
    committed mark (xs ++ ys) next =
      committed mark xs (carry mark ys next) ++ committed mark ys next := by
  induction xs with
  | nil => rfl
  | cons x xs ih =>
    have hc : carry mark (x :: (xs ++ ys)) next = carry mark (x :: xs) (carry mark ys next) :=
      carry_append mark (x :: xs) ys next
    rw [List.cons_append, committed, committed, ih, hc]
    split <;> simp

/-- The committed records are the records with a positive verdict. -/
lemma committed_eq_filter_zip (xs : List α) (next : Bool) :
    committed mark xs next =
      ((xs.zip (verdicts mark xs next)).filter (·.2)).map Prod.fst := by
  induction xs with
  | nil => rfl
  | cons x xs ih =>
    simp only [committed, verdicts, List.zip_cons_cons, List.filter_cons, ih]
    split <;> simp_all

/-- A committed record is a record of the log. -/
lemma mem_of_mem_committed {xs : List α} {next : Bool} {x : α}
    (h : x ∈ committed mark xs next) : x ∈ xs := by
  rw [committed_eq_filter_zip, List.mem_map] at h
  obtain ⟨⟨y, b⟩, hy, rfl⟩ := h
  exact (List.of_mem_zip (List.mem_filter.mp hy).1).1

/-- A committed record is not an abort record. -/
lemma ne_abort_of_mem_committed {xs : List α} {next : Bool} {x : α}
    (h : x ∈ committed mark xs next) : mark x ≠ .abort := by
  induction xs with
  | nil => simp [committed] at h
  | cons y ys ih =>
    rw [committed] at h
    split_ifs at h with hc
    · rcases List.mem_cons.mp h with rfl | h
      · intro habort
        simp [carry, habort] at hc
      · exact ih h
    · exact ih h

/-- **The forward parser agrees with the backward pass**: the transactions found after a run of
chain records are, concatenated, the run (if the log closes it) and the committed records.

**Proof sketch.** Induction on the log. A commit record closes the run, and the pass behind it
starts afresh; a chain record joins the run and passes the flag on; an abort record drops the run
and clears the flag. -/
theorem flatten_batches (run xs : List α) :
    (batches mark run xs).flatten =
      (if carry mark xs false then run else []) ++ committed mark xs false := by
  induction xs generalizing run with
  | nil => simp [batches, carry, committed]
  | cons x xs ih =>
    cases hx : mark x with
    | commit => simp [batches, committed, carry, hx, ih]
    | chain =>
      simp only [batches, committed, carry, hx, ih]
      split <;> simp
    | abort => simp [batches, committed, carry, hx, ih]

/-- The transactions found with a run in front end with a record of the log. -/
lemma getLast?_of_mem_batches {run xs b : List α} (hb : b ∈ batches mark run xs) :
    ∃ closing ∈ xs, b.getLast? = some closing := by
  induction xs generalizing run with
  | nil => simp [batches] at hb
  | cons x xs ih =>
    have hlift : ∀ run', b ∈ batches mark run' xs → ∃ closing ∈ x :: xs,
        b.getLast? = some closing := by
      intro run' hb'
      obtain ⟨closing, hc, hl⟩ := ih hb'
      exact ⟨closing, List.mem_cons_of_mem x hc, hl⟩
    simp only [batches] at hb
    cases hx : mark x with
    | commit =>
      rw [hx] at hb
      rcases List.mem_cons.mp hb with rfl | hb
      · exact ⟨x, List.mem_cons_self, by simp⟩
      · exact hlift [] hb
    | chain =>
      rw [hx] at hb
      exact hlift _ hb
    | abort =>
      rw [hx] at hb
      exact hlift [] hb

/-- **Cutting a log keeps the transactions closed before the cut**, and no others: `p` tells the
records before the cut from those behind it. -/
theorem filter_batches (p : α → Bool) (run pre post : List α) (hpre : ∀ x ∈ pre, p x = true)
    (hpost : ∀ x ∈ post, p x = false) :
    (batches mark run (pre ++ post)).filter (fun b => b.getLast?.any p) =
      batches mark run pre := by
  induction pre generalizing run with
  | nil =>
    rw [List.nil_append, batches, List.filter_eq_nil_iff]
    intro b hb
    obtain ⟨closing, hc, hl⟩ := getLast?_of_mem_batches mark hb
    simp [hl, hpost closing hc]
  | cons x xs ih =>
    have hxs := fun run' => ih run' fun y hy => hpre y (List.mem_cons_of_mem x hy)
    have hpx := hpre x List.mem_cons_self
    simp only [List.cons_append, batches]
    cases mark x with
    | commit =>
      simp only [List.filter_cons, List.getLast?_append, List.getLast?_singleton, Option.some_or,
        Option.any_some, hpx, ↓reduceIte, hxs]
    | chain => exact hxs (run ++ [x])
    | abort => exact hxs []

/-! ## Open chains -/

/-- Whether a log is only chain records. -/
def AllChain (xs : List α) : Prop := ∀ x ∈ xs, mark x = .chain

/-- Through a log of chain records the flag passes unchanged. -/
lemma carry_of_allChain {xs : List α} (h : AllChain mark xs) (next : Bool) :
    carry mark xs next = next := by
  induction xs with
  | nil => rfl
  | cons x xs ih =>
    simp only [carry, h x List.mem_cons_self]
    exact ih fun y hy => h y (List.mem_cons_of_mem x hy)

/-- An open chain is not committed. -/
lemma committed_of_allChain {xs : List α} (h : AllChain mark xs) : committed mark xs false = [] := by
  induction xs with
  | nil => rfl
  | cons x xs ih =>
    rw [committed, carry_of_allChain mark h, if_neg Bool.false_ne_true]
    exact ih fun y hy => h y (List.mem_cons_of_mem x hy)

/-- A log with a record that is not a chain record fixes the flag in front of it. -/
lemma carry_of_not_allChain {xs : List α} (h : ¬ AllChain mark xs) (next next' : Bool) :
    carry mark xs next = carry mark xs next' := by
  induction xs with
  | nil => exact absurd (by simp [AllChain]) h
  | cons x xs ih =>
    simp only [carry]
    cases hx : mark x with
    | commit => rfl
    | abort => rfl
    | chain =>
      refine ih fun hxs => h ?_
      intro y hy
      rcases List.mem_cons.mp hy with rfl | hy
      · exact hx
      · exact hxs y hy

/-- The flag in front of a log is set exactly when its first record that is not a chain record is
a commit record. -/
lemma carry_eq_true_iff {xs : List α} :
    carry mark xs false = true ↔
      ∃ pre x post, xs = pre ++ x :: post ∧ AllChain mark pre ∧ mark x = .commit := by
  constructor
  · intro h
    induction xs with
    | nil => simp [carry] at h
    | cons x xs ih =>
      cases hx : mark x with
      | commit => exact ⟨[], x, xs, rfl, by simp [AllChain], hx⟩
      | abort => simp [carry, hx] at h
      | chain =>
        simp only [carry, hx] at h
        obtain ⟨pre, y, post, rfl, hpre, hy⟩ := ih h
        refine ⟨x :: pre, y, post, rfl, fun z hz => ?_, hy⟩
        rcases List.mem_cons.mp hz with rfl | hz
        · exact hx
        · exact hpre z hz
  · rintro ⟨pre, x, post, rfl, hpre, hx⟩
    rw [carry_append, carry_of_allChain mark hpre]
    simp [carry, hx]

/-- The verdict on record `i` is the flag in front of the log from `i` on. -/
lemma getElem_verdicts (xs : List α) (next : Bool) {i : ℕ}
    (h : i < (verdicts mark xs next).length) :
    (verdicts mark xs next)[i] = carry mark (xs.drop i) next := by
  induction xs generalizing i with
  | nil => simp [verdicts] at h
  | cons x xs ih =>
    cases i with
    | zero => rfl
    | succ i =>
      simp only [verdicts, List.getElem_cons_succ, List.drop_succ_cons]
      exact ih _

/-- **The verdict on a record of a log that is extended**: if the log from the record on is an
open chain, the verdict is the flag in front of the extension; otherwise it does not depend on
the extension. -/
theorem getElem_verdicts_append (xs ys : List α) (next : Bool) {i : ℕ} (hi : i < xs.length) :
    (verdicts mark (xs ++ ys) next)[i]? =
      some (carry mark (xs.drop i) (carry mark ys next)) := by
  have hlen : i < (verdicts mark (xs ++ ys) next).length := by
    rw [length_verdicts, List.length_append]
    omega
  rw [List.getElem?_eq_getElem hlen, getElem_verdicts,
    List.drop_append_of_le_length (Nat.le_of_lt hi), carry_append]

/-- A log with no open chain at its end: the flag behind it does not matter. -/
def Settled (xs : List α) : Prop := ∀ x ∈ xs.getLast?, mark x ≠ .chain

/-- In front of a settled log the flag does not depend on the flag behind it, unless the log is
empty. -/
lemma carry_of_settled {xs : List α} (hs : Settled mark xs) (hne : xs ≠ []) (next next' : Bool) :
    carry mark xs next = carry mark xs next' := by
  refine carry_of_not_allChain mark (fun hall => ?_) next next'
  have hl := List.getLast?_eq_some_getLast hne
  exact hs _ hl (hall _ (List.getLast_mem hne))

/-- The committed records of a settled log do not depend on the flag behind it. -/
lemma committed_of_settled {xs : List α} (hs : Settled mark xs) (next next' : Bool) :
    committed mark xs next = committed mark xs next' := by
  induction xs with
  | nil => rfl
  | cons x xs ih =>
    have hxs : Settled mark xs := by
      cases xs with
      | nil => simp [Settled]
      | cons y ys => simpa [Settled] using hs
    rw [committed, committed, ih hxs, carry_of_settled mark hs (by simp) next next']

/-- Records that are never aborted are all committed when the flag behind them is set. -/
lemma committed_of_forall {xs : List α} (h : ∀ x ∈ xs, mark x ≠ .abort) :
    committed mark xs true = xs ∧ carry mark xs true = true := by
  induction xs with
  | nil => exact ⟨rfl, rfl⟩
  | cons x xs ih =>
    obtain ⟨ih1, ih2⟩ := ih fun y hy => h y (List.mem_cons_of_mem x hy)
    have hc : carry mark (x :: xs) true = true := by
      simp only [carry]
      cases hx : mark x with
      | commit => rfl
      | chain => exact ih2
      | abort => exact absurd hx (h x List.mem_cons_self)
    exact ⟨by rw [committed, if_pos hc, ih1], hc⟩

end TxnLog
