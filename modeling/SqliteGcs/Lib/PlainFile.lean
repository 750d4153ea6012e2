import SqliteGcs.Lib.PageTable

set_option relaxedAutoImplicit false
set_option autoImplicit false

/-!
# Plain files

The content of an ordinary file as a list with a default for the places that were never written. It
is cut and extended by `PageTable.resize`, and overwritten at any place, also behind its end.

## Main definitions

* `PlainFile.write` — overwrite a file from a place on.

## Main results

* `PlainFile.length_write`, `PlainFile.getD_write` — a file that is overwritten, place by place.
-/

namespace PlainFile

variable {α : Type*} (d : α)

/-- Overwrite a file from a place on; a gap behind its end is filled with the default. -/
def write (buf : List α) (off : ℕ) (l : List α) : List α :=
  if buf = [] then l
  else
    let l := if l.length < off then PageTable.resize d off l else l
    l.take off ++ buf ++ l.drop (off + buf.length)

/-- Overwriting makes a file long enough. -/
lemma length_write (buf : List α) (off : ℕ) (l : List α) :
    (write d buf off l).length =
      if buf = [] then l.length else max l.length (off + buf.length) := by
  rw [write]
  by_cases hbuf : buf = []
  · rw [if_pos hbuf, if_pos hbuf]
  rw [if_neg hbuf, if_neg hbuf]
  by_cases hgap : l.length < off
  · simp only [hgap, ↓reduceIte, List.length_append, List.length_take, List.length_drop,
      PageTable.length_resize]
    omega
  · simp only [hgap, ↓reduceIte, List.length_append, List.length_take, List.length_drop]
    omega

/-- A file that is overwritten, place by place. -/
lemma getD_write (buf : List α) (off : ℕ) (l : List α) (i : ℕ) :
    (write d buf off l).getD i d =
      if off ≤ i ∧ i < off + buf.length then buf.getD (i - off) d else l.getD i d := by
  rw [write]
  by_cases hbuf : buf = []
  · rw [if_pos hbuf, if_neg (by rw [hbuf]; simp)]
  rw [if_neg hbuf]
  obtain ⟨l', hl'⟩ : ∃ l', l' = if l.length < off then PageTable.resize d off l else l := ⟨_, rfl⟩
  have hlen : off ≤ l'.length := by
    rw [hl']
    split_ifs
    · exact (PageTable.length_resize d off l).ge
    · omega
  have hsame : ∀ i, l'.getD i d = l.getD i d := by
    intro i
    rw [hl']
    split_ifs with hgap
    · rw [PageTable.getD_resize]
      split_ifs
      · rfl
      · rw [List.getD_eq_default _ _ (by omega)]
    · rfl
  dsimp only
  rw [← hl', ← hsame i]
  have htake : (l'.take off).length = off := by rw [List.length_take, min_eq_left hlen]
  rcases lt_or_ge i off with hbefore | hge
  · rw [if_neg (by omega), List.append_assoc, List.getD_append _ _ _ _ (by omega)]
    simp only [List.getD_eq_getElem?_getD, List.getElem?_take, if_pos hbefore]
  rcases lt_or_ge i (off + buf.length) with hin | hbehind
  · rw [if_pos ⟨hge, hin⟩, List.append_assoc, List.getD_append_right _ _ _ _ (by omega), htake,
      List.getD_append _ _ _ _ (by omega)]
  · rw [if_neg (by omega), List.getD_append_right _ _ _ _ (by rw [List.length_append]; omega),
      List.length_append, htake]
    simp only [List.getD_eq_getElem?_getD, List.getElem?_drop]
    congr 2
    omega

end PlainFile
