import SqliteGcs.Lib.Simulation
import SqliteGcs.Vfs

set_option relaxedAutoImplicit false
set_option autoImplicit false

/-!
# The registry of open files

`xOpen` refuses a path that is in `g_open_files`, and enters the path there when the file is open.
The two happen under the same mutex, but not in one critical section: in between the storage is
opened and recovered. So two threads that open a path may both pass the check, and both enter it.
This file runs the critical sections of any number of threads in any order, and proves that the
registry does its job exactly in the runs in which no such entry is overwritten.

## Main definitions

* `SqliteGcs.Vfs` — the registry, the calls of `xOpen` that are going on, and the open files.
* `SqliteGcs.VfsStep`, `SqliteGcs.Vfs.step` — the critical sections of `xOpen` and `xClose`.
* `SqliteGcs.Exclusive` — every path is open at most once, and the registry has the open paths.
* `SqliteGcs.NoOverwrite` — the condition on a run.

## Main results

* `SqliteGcs.Registered.step` — every step that overwrites no entry keeps the invariant.
* `SqliteGcs.open_once_iff` — when every path is open at most once.
* `SqliteGcs.path_opened_twice` — two threads that open the same file.
-/

namespace SqliteGcs

/-! ## What is opened -/

/-- The flags of `xOpen` that it looks at. -/
structure OpenFlags where
  /-- `SQLITE_OPEN_WAL`. -/
  wal : Bool
  /-- `SQLITE_OPEN_MAIN_DB`. -/
  mainDb : Bool
  /-- `SQLITE_OPEN_MAIN_JOURNAL`. -/
  mainJournal : Bool
  /-- `SQLITE_OPEN_TEMP_JOURNAL`. -/
  tempJournal : Bool
  /-- `SQLITE_OPEN_SUBJOURNAL`. -/
  subjournal : Bool
  /-- `SQLITE_OPEN_SUPER_JOURNAL`. -/
  superJournal : Bool

/-- `is_journal`. -/
def OpenFlags.isJournal (flags : OpenFlags) : Bool :=
  flags.mainJournal || flags.tempJournal || flags.subjournal || flags.superJournal

/-- `is_gcs`: the path starts with `gcs://`. -/
def isGcs (path : String) : Bool := "gcs://".toList.isPrefixOf path.toList

/-- The rest of a path in a bucket has a slash between bucket and object. -/
def hasObject (path : String) : Bool := (path.toList.drop 6).contains '/'

/-- How far a call of `xOpen` has come. -/
inductive OpenPhase
  /-- After the check of the registry. -/
  | checked
  /-- After the path of a journal was added to `g_in_memory_journal_paths`. -/
  | journalAdded
  /-- After the storage was opened and the mapper recovered. -/
  | built
  deriving DecidableEq

/-- A call of `xOpen` that is going on. -/
structure OpenCall where
  /-- `path`. -/
  path : String
  /-- `is_journal`. -/
  isJournal : Bool
  /-- How far it has come. -/
  phase : OpenPhase

/-- The state of the VFS that the threads share, and where each of them is. -/
structure Vfs where
  /-- `g_open_files`; a number stands for the pointer to a file. -/
  gOpenFiles : String → Option ℕ
  /-- `g_in_memory_journal_paths`. -/
  gInMemoryJournalPaths : String → Bool
  /-- The call of `xOpen` that a thread is in. -/
  opening : ℕ → Option OpenCall
  /-- `file->path` of the files that `xOpen` has returned and that are not closed. -/
  openFiles : ℕ → Option String
  /-- The number of the next file. -/
  next : ℕ

/-- Nothing is open. -/
def Vfs.start : Vfs := ⟨fun _ => none, fun _ => false, fun _ => none, fun _ => none, 0⟩

/-! ## The steps -/

/-- A critical section of `xOpen` or `xClose`, or what `xOpen` does in between. -/
inductive VfsStep
  /-- The thread calls `xOpen`, which checks the registry. -/
  | check (thread : ℕ) (zName : Option String) (flags : OpenFlags)
  /-- `xOpen` adds the path of a journal. -/
  | addJournalPath (thread : ℕ)
  /-- `xOpen` opens the storage and recovers the mapper; whether both succeed. -/
  | build (thread : ℕ) (opened : Bool)
  /-- `xOpen` enters the file in the registry and returns. -/
  | insert (thread : ℕ)
  /-- `xClose` of a file, which takes its path out of the registry. -/
  | close (file : ℕ)

namespace Vfs

/-- The first section of `xOpen`. Files that are not the VFS's own are left to the default VFS. -/
def check (thread : ℕ) (zName : Option String) (flags : OpenFlags) (v : Vfs) :
    Option ResultCode × Vfs :=
  if flags.wal then (some .cantopen, v)
  else
    match zName with
    | none => (some .cantopen, v)
    | some path =>
      if ¬ isGcs path ∧ ¬ flags.isJournal ∧ ¬ flags.mainDb then (none, v)
      else if (v.gOpenFiles path).isSome then (some .busy, v)
      else
        (none, { v with
          opening := Function.update v.opening thread (some ⟨path, flags.isJournal, .checked⟩) })

/-- The section of `xOpen` for the path of a journal. -/
def addJournalPath (thread : ℕ) (call : OpenCall) (v : Vfs) : Option ResultCode × Vfs :=
  (none, { v with
    gInMemoryJournalPaths := Function.update v.gInMemoryJournalPaths call.path true
    opening := Function.update v.opening thread (some { call with phase := .journalAdded }) })

/-- The part of `xOpen` between the sections: a path in a bucket needs an object, and the storage
and the mapper may fail to open. -/
def build (thread : ℕ) (call : OpenCall) (opened : Bool) (v : Vfs) : Option ResultCode × Vfs :=
  if (¬ call.isJournal ∧ isGcs call.path ∧ ¬ hasObject call.path) ∨ opened = false then
    (some .cantopen, { v with opening := Function.update v.opening thread none })
  else
    (none, { v with
      opening := Function.update v.opening thread (some { call with phase := .built }) })

/-- The last section of `xOpen`. -/
def insert (thread : ℕ) (call : OpenCall) (v : Vfs) : Option ResultCode × Vfs :=
  (some .ok,
    { v with
      gOpenFiles := Function.update v.gOpenFiles call.path (some v.next)
      opening := Function.update v.opening thread none
      openFiles := Function.update v.openFiles v.next (some call.path)
      next := v.next + 1 })

/-- `xClose`. -/
def close (file : ℕ) (path : String) (v : Vfs) : Option ResultCode × Vfs :=
  (some .ok, { v with
    gOpenFiles := Function.update v.gOpenFiles path none
    openFiles := Function.update v.openFiles file none })

/-- A step, and what the call returns if it returns with it. A thread that is not where the step
begins, and a file that is not open, do nothing. -/
def step : VfsStep → Vfs → Option ResultCode × Vfs
  | .check thread zName flags, v =>
    match v.opening thread with
    | none => v.check thread zName flags
    | some _ => (none, v)
  | .addJournalPath thread, v =>
    match v.opening thread with
    | some ⟨path, true, .checked⟩ => v.addJournalPath thread ⟨path, true, .checked⟩
    | _ => (none, v)
  | .build thread opened, v =>
    match v.opening thread with
    | some ⟨path, false, .checked⟩ => v.build thread ⟨path, false, .checked⟩ opened
    | some ⟨path, isJournal, .journalAdded⟩ =>
      v.build thread ⟨path, isJournal, .journalAdded⟩ opened
    | _ => (none, v)
  | .insert thread, v =>
    match v.opening thread with
    | some ⟨path, isJournal, .built⟩ => v.insert thread ⟨path, isJournal, .built⟩
    | _ => (none, v)
  | .close file, v =>
    match v.openFiles file with
    | some path => v.close file path
    | none => (none, v)

/-- **What a step can do** to the registry and the open files: nothing, or it enters a file, or it
closes one. -/
lemma step_cases (step : VfsStep) (v : Vfs) :
    ((Vfs.step step v).2.gOpenFiles = v.gOpenFiles ∧
      (Vfs.step step v).2.openFiles = v.openFiles ∧ (Vfs.step step v).2.next = v.next) ∨
    (∃ thread path isJournal, step = .insert thread ∧
      v.opening thread = some ⟨path, isJournal, .built⟩ ∧
      Vfs.step step v = v.insert thread ⟨path, isJournal, .built⟩) ∨
    ∃ file path, step = .close file ∧ v.openFiles file = some path ∧
      Vfs.step step v = v.close file path := by
  cases step with
  | check thread zName flags =>
    left
    rw [Vfs.step]
    cases v.opening thread with
    | some call => exact ⟨rfl, rfl, rfl⟩
    | none =>
      dsimp only
      cases zName <;> unfold check <;> dsimp only <;> split_ifs <;> exact ⟨rfl, rfl, rfl⟩
  | addJournalPath thread =>
    left
    rw [Vfs.step]
    split <;> exact ⟨rfl, rfl, rfl⟩
  | build thread opened =>
    left
    rw [Vfs.step]
    split
    · rw [build]
      split_ifs <;> exact ⟨rfl, rfl, rfl⟩
    · rw [build]
      split_ifs <;> exact ⟨rfl, rfl, rfl⟩
    · exact ⟨rfl, rfl, rfl⟩
  | insert thread =>
    rw [Vfs.step]
    split
    case h_1 path isJournal hcall => exact Or.inr (Or.inl ⟨thread, path, isJournal, rfl, hcall, rfl⟩)
    case h_2 => exact Or.inl ⟨rfl, rfl, rfl⟩
  | close file =>
    rw [Vfs.step]
    cases hfile : v.openFiles file with
    | some path => exact Or.inr (Or.inr ⟨file, path, rfl, hfile, rfl⟩)
    | none => exact Or.inl ⟨rfl, rfl, rfl⟩

end Vfs

/-! ## The invariant -/

/-- **Every path is open at most once**, and the registry has exactly the paths that are open. -/
structure Exclusive (v : Vfs) : Prop where
  once : ∀ f g path, v.openFiles f = some path → v.openFiles g = some path → f = g
  registered : ∀ path, v.gOpenFiles path ≠ none ↔ ∃ f, v.openFiles f = some path

/-- The step does not overwrite an entry of the registry: a thread that comes to enter a file finds
none for its path. -/
def VfsStep.OverwritesNothing : VfsStep → Vfs → Prop
  | .insert thread, v => ∀ path isJournal, v.opening thread = some ⟨path, isJournal, .built⟩ →
    v.gOpenFiles path = none
  | _, _ => True

/-- No step of a run overwrites an entry of the registry. -/
def NoOverwrite : List VfsStep → Vfs → Prop
  | [], _ => True
  | step :: steps, v => step.OverwritesNothing v ∧ NoOverwrite steps (Vfs.step step v).2

/-- The invariant: also, an entry is for a file with that path, and files are numbered below the
next one. -/
structure Registered (v : Vfs) : Prop extends Exclusive v where
  entry : ∀ path f, v.gOpenFiles path = some f → v.openFiles f = some path
  bound : ∀ f path, v.openFiles f = some path → f < v.next

/-- Nothing is registered at the start. -/
lemma registered_start : Registered Vfs.start where
  once f g path hf := by cases hf
  registered path := by simp [Vfs.start]
  entry path f hf := by cases hf
  bound f path hf := by cases hf

/-- Entering a file keeps the invariant if there is no entry for its path. -/
lemma Registered.insert {v : Vfs} (h : Registered v) (thread : ℕ) (call : OpenCall)
    (hnone : v.gOpenFiles call.path = none) : Registered (v.insert thread call).2 := by
  have hfree : ∀ f, v.openFiles f ≠ some call.path := fun f hf =>
    (h.registered call.path).mpr ⟨f, hf⟩ hnone
  refine ⟨⟨?once, ?registered⟩, ?entry, ?bound⟩
  case once =>
    intro f g path hf hg
    simp only [Vfs.insert, Function.update_apply] at hf hg
    split_ifs at hf hg with h1 h2 h2
    · rw [h1, h2]
    · rw [← Option.some.inj hf] at hg
      exact absurd hg (hfree g)
    · rw [← Option.some.inj hg] at hf
      exact absurd hf (hfree f)
    · exact h.once f g path hf hg
  case registered =>
    intro path
    simp only [Vfs.insert, Function.update_apply]
    by_cases hpath : path = call.path
    · rw [if_pos hpath]
      exact iff_of_true (by simp) ⟨v.next, by rw [if_pos rfl, hpath]⟩
    · rw [if_neg hpath, h.registered path]
      constructor
      · rintro ⟨f, hf⟩
        exact ⟨f, by rw [if_neg (Nat.ne_of_lt (h.bound f path hf))]; exact hf⟩
      · rintro ⟨f, hf⟩
        split_ifs at hf with hnext
        · exact absurd (Option.some.inj hf).symm hpath
        · exact ⟨f, hf⟩
  case entry =>
    intro path f hf
    simp only [Vfs.insert, Function.update_apply] at hf ⊢
    split_ifs at hf with hpath
    · rw [if_pos (Option.some.inj hf).symm, hpath]
    · have hold := h.entry path f hf
      rw [if_neg (Nat.ne_of_lt (h.bound f path hold))]
      exact hold
  case bound =>
    intro f path hf
    simp only [Vfs.insert, Function.update_apply] at hf ⊢
    split_ifs at hf with hnext
    · omega
    · have := h.bound f path hf
      omega

/-- Closing a file keeps the invariant. -/
lemma Registered.close {v : Vfs} (h : Registered v) {file : ℕ} {path : String}
    (hopen : v.openFiles file = some path) : Registered (v.close file path).2 := by
  refine ⟨⟨?once, ?registered⟩, ?entry, ?bound⟩
  case once =>
    intro f g p hf hg
    simp only [Vfs.close, Function.update_apply] at hf hg
    split_ifs at hf hg
    exact h.once f g p hf hg
  case registered =>
    intro p
    simp only [Vfs.close, Function.update_apply]
    by_cases hp : p = path
    · rw [if_pos hp]
      refine iff_of_false (by simp) ?_
      rintro ⟨f, hf⟩
      split_ifs at hf with hfile
      exact hfile (h.once f file path (hp ▸ hf) hopen)
    · rw [if_neg hp, h.registered p]
      constructor
      · rintro ⟨f, hf⟩
        refine ⟨f, ?_⟩
        rw [if_neg]
        · exact hf
        · rintro rfl
          exact hp (Option.some.inj (hf.symm.trans hopen))
      · rintro ⟨f, hf⟩
        split_ifs at hf
        exact ⟨f, hf⟩
  case entry =>
    intro p f hf
    simp only [Vfs.close, Function.update_apply] at hf ⊢
    split_ifs at hf with hp
    have hold := h.entry p f hf
    rw [if_neg]
    · exact hold
    · rintro rfl
      exact hp (Option.some.inj (hold.symm.trans hopen))
  case bound =>
    intro f p hf
    simp only [Vfs.close, Function.update_apply] at hf
    split_ifs at hf
    exact h.bound f p hf

/-- **Every step that overwrites no entry keeps the invariant.** -/
theorem Registered.step {v : Vfs} (h : Registered v) {step : VfsStep}
    (hstep : step.OverwritesNothing v) : Registered (Vfs.step step v).2 := by
  rcases Vfs.step_cases step v with ⟨hg, hf, hn⟩ | ⟨thread, path, isJournal, rfl, hcall, heq⟩ |
    ⟨file, path, rfl, hopen, heq⟩
  · refine ⟨⟨?once, ?registered⟩, ?entry, ?bound⟩
    case once => rw [hf]; exact h.once
    case registered => rw [hf, hg]; exact h.registered
    case entry => rw [hf, hg]; exact h.entry
    case bound => rw [hf, hn]; exact h.bound
  · rw [heq]
    exact h.insert thread _ (hstep path isJournal hcall)
  · rw [heq]
    exact h.close hopen

/-- A step that overwrites an entry opens a path a second time. -/
lemma Registered.not_exclusive {v : Vfs} (h : Registered v) {step : VfsStep}
    (hstep : ¬ step.OverwritesNothing v) : ¬ Exclusive (Vfs.step step v).2 := by
  cases step with
  | insert thread =>
    simp only [VfsStep.OverwritesNothing, not_forall] at hstep
    obtain ⟨path, isJournal, hcall, hsome⟩ := hstep
    obtain ⟨f, hf⟩ := Option.ne_none_iff_exists'.mp hsome
    have hold := h.entry path f hf
    have hlt := h.bound f path hold
    intro hex
    have hstate : Vfs.step (.insert thread) v = v.insert thread ⟨path, isJournal, .built⟩ := by
      rw [Vfs.step, hcall]
    rw [hstate] at hex
    have hsame := hex.once f v.next path
      ((Function.update_of_ne (Nat.ne_of_lt hlt) ..).trans hold) (Function.update_self ..)
    omega
  | _ => exact absurd trivial hstep

/-- From a state with the invariant, every path is open at most once throughout a run exactly if no
step overwrites an entry. -/
lemma Registered.run_iff {v : Vfs} (h : Registered v) (steps : List VfsStep) :
    (∀ k, Exclusive (Machine.final Vfs.step (steps.take k) v)) ↔ NoOverwrite steps v := by
  induction steps generalizing v with
  | nil => exact iff_of_true (fun k => by rw [List.take_nil]; exact h.toExclusive) trivial
  | cons step steps ih =>
    rw [NoOverwrite]
    by_cases hstep : step.OverwritesNothing v
    · rw [← ih (h.step hstep)]
      constructor
      · exact fun hk => ⟨hstep, fun k => hk (k + 1)⟩
      · rintro ⟨-, hk⟩ k
        cases k with
        | zero => exact h.toExclusive
        | succ k => exact hk k
    · exact iff_of_false (fun hk => h.not_exclusive hstep (hk 1)) fun hno => hstep hno.1

/-- **When a path is open at most once.** Any threads open and close any paths, in any order of the
steps. Then in every state of the run each path is open at most once, and the registry has exactly
the paths that are open, exactly if every thread that comes to enter a file in the registry finds no
entry for its path. In every run the registry changes only in a step in which `xOpen` returns
`SQLITE_OK` or `xClose` takes out a path, so a failing `xOpen` leaves it alone.

**Proof sketch.** A step that overwrites nothing keeps the invariant (`Registered.step`); one that
overwrites an entry leaves two files open on its path (`Registered.not_exclusive`). -/
theorem open_once_iff (steps : List VfsStep) :
    ((∀ k, Exclusive (Machine.final Vfs.step (steps.take k) Vfs.start)) ↔
      NoOverwrite steps Vfs.start) ∧
    ∀ (step : VfsStep) (v : Vfs), (Vfs.step step v).2.gOpenFiles ≠ v.gOpenFiles →
      (∃ thread, step = .insert thread ∧ (Vfs.step step v).1 = some .ok) ∨
        ∃ file, step = .close file := by
  refine ⟨registered_start.run_iff steps, fun step v hne => ?_⟩
  rcases Vfs.step_cases step v with ⟨hg, -, -⟩ | ⟨thread, path, isJournal, rfl, -, heq⟩ |
    ⟨file, path, rfl, -, -⟩
  · exact absurd hg hne
  · exact Or.inl ⟨thread, rfl, by rw [heq]; rfl⟩
  · exact Or.inr ⟨file, rfl⟩

/-- Two threads open the same database; both check the registry before either enters its file. -/
def openRace : List VfsStep :=
  let flags : OpenFlags := ⟨false, true, false, false, false, false⟩
  [.check 0 (some "test.db") flags, .check 1 (some "test.db") flags, .build 0 true, .build 1 true,
    .insert 0, .insert 1]

/-- **A path is opened twice**: both threads get `SQLITE_OK` for it, and once the first file is
closed, the registry does not have the path of the second. -/
theorem path_opened_twice :
    Machine.replies Vfs.step openRace Vfs.start =
        [none, none, none, none, some .ok, some .ok] ∧
      (Machine.final Vfs.step openRace Vfs.start).openFiles 0 = some "test.db" ∧
      (Machine.final Vfs.step openRace Vfs.start).openFiles 1 = some "test.db" ∧
      (Machine.final Vfs.step (openRace ++ [.close 0]) Vfs.start).openFiles 1 = some "test.db" ∧
      (Machine.final Vfs.step (openRace ++ [.close 0]) Vfs.start).gOpenFiles "test.db" = none := by
  decide +kernel

end SqliteGcs
