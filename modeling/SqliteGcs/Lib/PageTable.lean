import Mathlib.Data.List.Basic
import Mathlib.Data.List.GetD
import Mathlib.Order.Lattice
import Mathlib.Order.Defs.LinearOrder

set_option relaxedAutoImplicit false
set_option autoImplicit false

/-!
# Growable tables and their edit histories

A table is a vector with a default entry: it can be resized, filling new places with the default,
and an entry can be put at any index, growing the table when needed. A *history* is a list of
such edits. The file describes a replayed history place by place, and proves the two facts that
make replaying an interrupted history safe: edits that the history contains are absorbed by it,
and entries beyond a later cut need not be replayed at all.

## Main definitions

* `PageTable.resize`, `PageTable.put` — the two edits of a table with default `d`.
* `PageTable.Edit`, `PageTable.replay` — edits as data, and replaying a list of them.
* `PageTable.puts` — replaying only the `put` edits of a history.
* `PageTable.prune` — a history without its puts at or beyond an index.

## Main results

* `PageTable.getD_replay`, `PageTable.length_replay` — a replay, place by place.
* `PageTable.replay_replay_of_shapes` — a history absorbs edits of the same shapes before it.
* `PageTable.resize_replay_prune`, `PageTable.resize_puts_prune` — cutting after a replay.
-/

namespace PageTable

variable {α : Type*}

/-- An edit of a table. -/
inductive Edit (α : Type*)
  | put (i : ℕ) (x : α)
  | resize (n : ℕ)
  deriving DecidableEq

/-- What an edit touches, without the entry it writes. -/
inductive Shape
  | put (i : ℕ)
  | resize (n : ℕ)
  deriving DecidableEq

/-- The shape of an edit. -/
def Edit.shape : Edit α → Shape
  | .put i _ => .put i
  | .resize n => .resize n

/-- Whether an edit puts an entry. -/
def Edit.isPut : Edit α → Bool
  | .put _ _ => true
  | .resize _ => false

variable (d : α)

/-- Cut a table to `n` places, or extend it to `n` places with the default. -/
def resize (n : ℕ) (v : List α) : List α := v.take n ++ List.replicate (n - v.length) d

/-- Put an entry at an index, extending the table first if the index is beyond its end. -/
def put (i : ℕ) (x : α) (v : List α) : List α :=
  (if i < v.length then v else resize d (i + 1) v).set i x

/-- Carry out an edit. -/
def Edit.run : Edit α → List α → List α
  | .put i x, v => PageTable.put d i x v
  | .resize n, v => PageTable.resize d n v

/-- Carry out a history of edits. -/
def replay (es : List (Edit α)) (v : List α) : List α := es.foldl (fun w e => e.run d w) v

/-- Carry out only the puts of a history. -/
def puts (es : List (Edit α)) (v : List α) : List α := replay d (es.filter Edit.isPut) v

/-- A history without its puts at index `n` or beyond. -/
def prune (n : ℕ) (es : List (Edit α)) : List (Edit α) :=
  es.filter fun
    | .put i _ => i < n
    | .resize _ => true

/-! ## Place by place -/

/-- The effect of an edit on the entry at place `i`. -/
def entryStep (i : ℕ) : Edit α → α → α
  | .put j x, y => if i = j then x else y
  | .resize n, y => if i < n then y else d

/-- The effect of an edit on the length. -/
def lengthStep : Edit α → ℕ → ℕ
  | .put j _, n => max n (j + 1)
  | .resize n, _ => n

/-- Resizing sets the length. -/
@[simp] lemma length_resize (n : ℕ) (v : List α) : (resize d n v).length = n := by
  simp [resize]
  omega

/-- Resizing keeps the entries below the new length and has the default elsewhere. -/
lemma getD_resize (n : ℕ) (v : List α) (i : ℕ) :
    (resize d n v).getD i d = if i < n then v.getD i d else d := by
  unfold resize
  simp only [List.getD_eq_getElem?_getD, List.getElem?_append, List.getElem?_take,
    List.getElem?_replicate, List.length_take]
  split_ifs <;> first | rfl | omega | skip
  all_goals rw [List.getElem?_eq_none (by omega)]; rfl

/-- Putting an entry makes the table long enough for it. -/
lemma length_put (i : ℕ) (x : α) (v : List α) : (put d i x v).length = max v.length (i + 1) := by
  unfold put
  split_ifs with h
  · rw [List.length_set]; omega
  · rw [List.length_set, length_resize]; omega

/-- Putting an entry changes the place it is put at, and no other. -/
lemma getD_put (i : ℕ) (x : α) (v : List α) (j : ℕ) :
    (put d i x v).getD j d = if j = i then x else v.getD j d := by
  obtain ⟨w, hw, hlen, hget⟩ : ∃ w : List α, put d i x v = w.set i x ∧ i < w.length ∧
      w.getD j d = v.getD j d := by
    unfold put
    split_ifs with h
    · exact ⟨v, rfl, h, rfl⟩
    · refine ⟨resize d (i + 1) v, rfl, by rw [length_resize]; omega, ?_⟩
      rw [getD_resize]
      split_ifs with hj
      · rfl
      · rw [List.getD_eq_default v d (by omega)]
  rw [hw, List.getD_eq_getElem?_getD, List.getElem?_set]
  by_cases hij : j = i
  · simp [hij, hlen]
  · rw [if_neg (Ne.symm hij), if_neg hij, ← List.getD_eq_getElem?_getD, hget]

/-- One edit, at one place. -/
lemma getD_run (e : Edit α) (v : List α) (i : ℕ) :
    (e.run d v).getD i d = entryStep d i e (v.getD i d) := by
  cases e with
  | put j x => exact getD_put d j x v i
  | resize n => exact getD_resize d n v i

/-- One edit, on the length. -/
lemma length_run (e : Edit α) (v : List α) : (e.run d v).length = lengthStep e v.length := by
  cases e with
  | put j x => exact length_put d j x v
  | resize n => exact length_resize d n v

/-- A replay, at one place. -/
theorem getD_replay (es : List (Edit α)) (v : List α) (i : ℕ) :
    (replay d es v).getD i d = es.foldl (fun y e => entryStep d i e y) (v.getD i d) := by
  induction es generalizing v with
  | nil => rfl
  | cons e es ih =>
    rw [replay, List.foldl_cons, ← replay, ih, List.foldl_cons, getD_run]

/-- A replay, on the length. -/
theorem length_replay (es : List (Edit α)) (v : List α) :
    (replay d es v).length = es.foldl (fun n e => lengthStep e n) v.length := by
  induction es generalizing v with
  | nil => rfl
  | cons e es ih =>
    rw [replay, List.foldl_cons, ← replay, ih, List.foldl_cons, length_run]

/-- Replaying a concatenation. -/
lemma replay_append (es fs : List (Edit α)) (v : List α) :
    replay d (es ++ fs) v = replay d fs (replay d es v) := by
  simp [replay]

/-- The puts of a concatenation. -/
lemma puts_append (es fs : List (Edit α)) (v : List α) :
    puts d (es ++ fs) v = puts d fs (puts d es v) := by
  rw [puts, puts, puts, List.filter_append, replay_append]

/-- A cut at the end of a history is a cut of what the rest of it leaves. -/
lemma replay_append_resize (es : List (Edit α)) (n : ℕ) (v : List α) :
    replay d (es ++ [.resize n]) v = resize d n (replay d es v) := by
  rw [replay_append]
  rfl

/-- A cut is not among the puts. -/
lemma puts_append_resize (es : List (Edit α)) (n : ℕ) (v : List α) :
    puts d (es ++ [.resize n]) v = puts d es v := by
  rw [puts_append]
  rfl

/-- Edits whose shapes end with a cut end with that cut. -/
lemma exists_append_resize {es : List (Edit α)} {shapes : List Shape} {n : ℕ}
    (h : es.map Edit.shape = shapes ++ [.resize n]) :
    ∃ es', es = es' ++ [.resize n] ∧ es'.map Edit.shape = shapes := by
  obtain ⟨es', last, rfl, hes', hlast⟩ := List.map_eq_append_iff.mp h
  obtain ⟨e, rest, rfl, he, hrest⟩ := List.map_eq_cons_iff.mp hlast
  obtain rfl := List.map_eq_nil_iff.mp hrest
  cases e with
  | put i x => simp [Edit.shape] at he
  | resize m =>
    obtain rfl : m = n := by simpa [Edit.shape] using he
    exact ⟨es', rfl, hes'⟩

/-- Tables of the same length with the same entries are equal. -/
lemma ext_getD {v w : List α} (hl : v.length = w.length)
    (h : ∀ i, v.getD i d = w.getD i d) : v = w := by
  refine List.ext_getElem hl fun i h1 h2 => ?_
  have := h i
  rwa [List.getD_eq_getElem v d h1, List.getD_eq_getElem w d h2] at this

/-! ## Absorption -/

/-- If a history contains an edit that fixes the entry at place `i`, the entry before it does not
matter. -/
lemma foldl_entryStep_congr {es : List (Edit α)} {i : ℕ} {e : Edit α} (he : e ∈ es)
    (hfix : ∀ y z, entryStep d i e y = entryStep d i e z) (y z : α) :
    es.foldl (fun y e => entryStep d i e y) y = es.foldl (fun y e => entryStep d i e y) z := by
  induction es generalizing y z with
  | nil => simp at he
  | cons f es ih =>
    rw [List.foldl_cons, List.foldl_cons]
    rcases List.mem_cons.mp he with rfl | he
    · rw [hfix y z]
    · exact ih he _ _

/-- If a history contains a resize, the length before it does not matter. -/
lemma foldl_lengthStep_congr {es : List (Edit α)} {n : ℕ} (he : Edit.resize n ∈ es) (a b : ℕ) :
    es.foldl (fun n e => lengthStep e n) a = es.foldl (fun n e => lengthStep e n) b := by
  induction es generalizing a b with
  | nil => simp at he
  | cons f es ih =>
    rw [List.foldl_cons, List.foldl_cons]
    rcases List.mem_cons.mp he with rfl | he
    · rfl
    · exact ih he _ _

/-- A history that puts at index `j` reaches the same length from a table already that long. -/
lemma foldl_lengthStep_put {es : List (Edit α)} {j : ℕ} (he : ∃ x, Edit.put j x ∈ es) (a : ℕ) :
    es.foldl (fun n e => lengthStep e n) (max a (j + 1)) =
      es.foldl (fun n e => lengthStep e n) a := by
  obtain ⟨x, he⟩ := he
  induction es generalizing a with
  | nil => simp at he
  | cons f es ih =>
    rw [List.foldl_cons, List.foldl_cons]
    rcases List.mem_cons.mp he with rfl | hes
    · simp only [lengthStep]
      rw [max_assoc, max_self]
    · cases f with
      | put k y =>
        simp only [lengthStep]
        rw [max_assoc, max_comm (j + 1), ← max_assoc]
        exact ih _ hes
      | resize n => rfl

/-- A history absorbs one edit before it whose shape it contains. -/
lemma replay_run_of_shape {es : List (Edit α)} {e : Edit α}
    (he : e.shape ∈ es.map Edit.shape) (v : List α) :
    replay d es (e.run d v) = replay d es v := by
  obtain ⟨f, hf, hs⟩ := List.mem_map.mp he
  refine ext_getD d ?_ fun i => ?_
  · rw [length_replay, length_replay, length_run]
    cases e with
    | put j x =>
      cases f with
      | put k y =>
        obtain rfl : k = j := by simpa [Edit.shape] using hs
        exact foldl_lengthStep_put ⟨y, hf⟩ _
      | resize n => simp [Edit.shape] at hs
    | resize n =>
      cases f with
      | put k y => simp [Edit.shape] at hs
      | resize m => exact foldl_lengthStep_congr hf _ _
  · rw [getD_replay, getD_replay, getD_run]
    cases e with
    | put j x =>
      cases f with
      | put k y =>
        obtain rfl : k = j := by simpa [Edit.shape] using hs
        by_cases hi : i = k
        · exact foldl_entryStep_congr d hf (by simp [entryStep, hi]) _ _
        · simp [entryStep, hi]
      | resize n => simp [Edit.shape] at hs
    | resize n =>
      cases f with
      | put k y => simp [Edit.shape] at hs
      | resize m =>
        obtain rfl : m = n := by simpa [Edit.shape] using hs
        by_cases hi : i < m
        · simp [entryStep, hi]
        · exact foldl_entryStep_congr d hf (by simp [entryStep, hi]) _ _

/-- **A history absorbs edits before it**: replaying after any edits whose shapes all occur in the
history gives the same table as replaying without them.

**Proof sketch.** Induction on the edits before it, each absorbed by `replay_run_of_shape`: an
entry that such an edit fixes is fixed again by the history, and no other entry is touched. -/
theorem replay_replay_of_shapes {es fs : List (Edit α)}
    (h : ∀ f ∈ fs, f.shape ∈ es.map Edit.shape) (v : List α) :
    replay d es (replay d fs v) = replay d es v := by
  induction fs generalizing v with
  | nil => rfl
  | cons f fs ih =>
    have hfs := ih fun g hg => h g (List.mem_cons_of_mem f hg)
    have hcons : replay d (f :: fs) v = replay d fs (f.run d v) := rfl
    rw [hcons, hfs, replay_run_of_shape d (h f List.mem_cons_self)]

/-- The puts of a history absorb puts before them. -/
theorem puts_puts_of_shapes {es fs : List (Edit α)}
    (h : ∀ f ∈ fs, f.shape ∈ es.map Edit.shape) (v : List α) :
    puts d es (puts d fs v) = puts d es v := by
  refine replay_replay_of_shapes d (fun f hf => ?_) v
  obtain ⟨hf, hput⟩ := List.mem_filter.mp hf
  obtain ⟨e, he, hs⟩ := List.mem_map.mp (h f hf)
  refine List.mem_map.mpr ⟨e, List.mem_filter.mpr ⟨he, ?_⟩, hs⟩
  cases f with
  | put i x =>
    cases e with
    | put j y => rfl
    | resize n => simp [Edit.shape] at hs
  | resize n => simp [Edit.isPut] at hput

/-! ## Cutting -/

/-- Below the cut, a pruned history has the same entries. -/
lemma foldl_entryStep_prune (es : List (Edit α)) {n i : ℕ} (hi : i < n) (y : α) :
    (prune n es).foldl (fun y e => entryStep d i e y) y =
      es.foldl (fun y e => entryStep d i e y) y := by
  induction es generalizing y with
  | nil => rfl
  | cons e es ih =>
    cases e with
    | put j x =>
      by_cases hj : j < n
      · simp only [prune, List.filter_cons, hj, decide_true, ↓reduceIte, List.foldl_cons]
        exact ih _
      · have hne : i ≠ j := by omega
        simp only [prune, List.filter_cons, hj, decide_false, Bool.false_eq_true, ↓reduceIte,
          List.foldl_cons, entryStep, if_neg hne]
        exact ih _
    | resize m =>
      simp only [prune, List.filter_cons, ↓reduceIte, List.foldl_cons]
      exact ih _

/-- **Entries beyond a later cut need not be replayed.** -/
theorem resize_replay_prune (n : ℕ) (es : List (Edit α)) (v : List α) :
    resize d n (replay d (prune n es) v) = resize d n (replay d es v) := by
  refine ext_getD d (by simp) fun i => ?_
  rw [getD_resize, getD_resize]
  split_ifs with hi
  · rw [getD_replay, getD_replay, foldl_entryStep_prune d es hi]
  · rfl

/-- Beyond the cut, the puts of a pruned history touch nothing. -/
lemma foldl_entryStep_puts_prune (es : List (Edit α)) {n i : ℕ} (hi : n ≤ i) (y : α) :
    ((prune n es).filter Edit.isPut).foldl (fun y e => entryStep d i e y) y = y := by
  induction es generalizing y with
  | nil => rfl
  | cons e es ih =>
    cases e with
    | put j x =>
      by_cases hj : j < n
      · have hne : i ≠ j := by omega
        simp only [prune, List.filter_cons, hj, decide_true, ↓reduceIte, Edit.isPut,
          List.foldl_cons, entryStep, if_neg hne]
        exact ih _
      · simp only [prune, List.filter_cons, hj, decide_false, Bool.false_eq_true, ↓reduceIte]
        exact ih _
    | resize m =>
      simp only [prune, List.filter_cons, ↓reduceIte, Edit.isPut, Bool.false_eq_true]
      exact ih _

/-- The puts of a pruned history do not grow a table of the length of the cut. -/
lemma foldl_lengthStep_puts_prune (es : List (Edit α)) (n : ℕ) :
    ((prune n es).filter Edit.isPut).foldl (fun n e => lengthStep e n) n = n := by
  induction es with
  | nil => rfl
  | cons e es ih =>
    cases e with
    | put j x =>
      by_cases hj : j < n
      · have hmax : max n (j + 1) = n := max_eq_left (by omega)
        simp only [prune, List.filter_cons, hj, decide_true, ↓reduceIte, Edit.isPut,
          List.foldl_cons, lengthStep, hmax]
        exact ih
      · simp only [prune, List.filter_cons, hj, decide_false, Bool.false_eq_true, ↓reduceIte]
        exact ih
    | resize m =>
      simp only [prune, List.filter_cons, ↓reduceIte, Edit.isPut, Bool.false_eq_true]
      exact ih

/-- Puts of a pruned history are puts of the history, cut. -/
lemma filter_isPut_prune (n : ℕ) (es : List (Edit α)) :
    (prune n es).filter Edit.isPut = prune n (es.filter Edit.isPut) := by
  simp only [prune, List.filter_filter, Bool.and_comm]

/-- Whether an edit of this shape survives pruning at index `n`. -/
def Shape.below (n : ℕ) : Shape → Bool
  | .put i => i < n
  | .resize _ => true

include d in
/-- A history with the shapes of a pruned one is a pruned history with the shapes before. -/
lemma exists_prune {n : ℕ} {shapes : List Shape} {es : List (Edit α)}
    (h : es.map Edit.shape = shapes.filter (Shape.below n)) :
    ∃ es', es'.map Edit.shape = shapes ∧ prune n es' = es := by
  induction shapes generalizing es with
  | nil => exact ⟨[], rfl, (List.map_eq_nil_iff.mp h).symm⟩
  | cons s shapes ih =>
    cases hs : Shape.below n s with
    | true =>
      rw [List.filter_cons_of_pos hs] at h
      obtain ⟨e, rest, rfl, rfl, hrest⟩ := List.map_eq_cons_iff.mp h
      obtain ⟨es', hes', hp⟩ := ih hrest
      refine ⟨e :: es', by rw [List.map_cons, hes'], ?_⟩
      have he : prune n (e :: es') = e :: prune n es' := by
        cases e with
        | put i x => exact List.filter_cons_of_pos hs
        | resize m => exact List.filter_cons_of_pos rfl
      rw [he, hp]
    | false =>
      rw [List.filter_cons_of_neg (by simp [hs])] at h
      obtain ⟨es', hes', hp⟩ := ih h
      cases s with
      | put i =>
        refine ⟨.put i d :: es', by rw [List.map_cons, hes']; rfl, ?_⟩
        rw [← hp]
        exact List.filter_cons_of_neg (by simpa [Shape.below] using hs)
      | resize m => simp [Shape.below] at hs

/-- Replaying a history of puts is replaying its puts. -/
lemma puts_of_isPut {es : List (Edit α)} (h : ∀ e ∈ es, e.isPut = true) (v : List α) :
    puts d es v = replay d es v := by
  rw [puts, List.filter_eq_self.mpr h]

/-- **Cutting before the puts of a pruned history is cutting after all its puts.** -/
theorem resize_puts_prune (n : ℕ) (es : List (Edit α)) (v : List α) :
    puts d (prune n es) (resize d n v) = resize d n (puts d es v) := by
  refine ext_getD d ?_ fun i => ?_
  · rw [puts, length_replay, length_resize, length_resize, foldl_lengthStep_puts_prune]
  · rw [puts, getD_replay, getD_resize, getD_resize]
    split_ifs with hi
    · rw [puts, getD_replay, filter_isPut_prune, foldl_entryStep_prune d _ hi]
    · exact foldl_entryStep_puts_prune d es (by omega) d

end PageTable
