import SqliteGcs.Lib.Layer
import SqliteGcs.Backend

set_option relaxedAutoImplicit false
set_option autoImplicit false

/-!
# Journals

What the VFS does for journals, next to what it does for databases. A journal is a name that exists
and, while it is open, a sequence of bytes that starts empty. This file states that as a machine of
its own, which answers the calls about journals and passes on the others, and proves that the VFS is
this machine in front of the VFS without journals. So no call about a journal reaches a disk or a
bucket, and databases do not depend on them.

## Main definitions

* `SqliteGcs.JournalStore` — the journals, with `SqliteGcs.JournalStore.answer`.
* `SqliteGcs.Allowed` — calls as the database engine makes them: a name is for journals or for other
  files, a file is opened in free memory, and journals are truncated with nothing left behind.
* `SqliteGcs.Related` — the states of the VFS and of the two machines.

## Main results

* `SqliteGcs.Related.step` — every call keeps the relation.
* `SqliteGcs.journals_stay_in_memory` — the VFS is the store of journals in front of the VFS without
  journals.
-/

namespace SqliteGcs

open Bytes BlockMapper Machine

/-! ## The store of journals -/

/-- Journals as the database engine sees them. -/
structure JournalStore where
  /-- The names that exist. -/
  names : String → Bool
  /-- The names of the journals that are open. -/
  busy : String → Bool
  /-- The journals that are open, with their contents. -/
  files : ℕ → Option (String × List UInt8)

namespace JournalStore

/-- There are no journals. -/
def empty : JournalStore := ⟨fun _ => false, fun _ => false, fun _ => none⟩

/-- A journal is opened: its name exists, and it is empty. -/
def openJournal (path : String) (pFile : ℕ) (flags : OpenFlags) (j : JournalStore) :
    VfsReply × JournalStore :=
  if j.busy path then (.code .busy, j)
  else
    (.opened flags,
      { names := Function.update j.names path true
        busy := Function.update j.busy path true
        files := Function.update j.files pFile (some (path, [])) })

/-- A method of a journal: the one of an ordinary file. -/
def io (path : String) (content : List UInt8) (pFile : ℕ) (c : IoCall) (j : JournalStore) :
    VfsReply × JournalStore :=
  (.io (c.onContent content).1,
    { j with files := Function.update j.files pFile (some (path, (c.onContent content).2)) })

/-- A journal is closed. Its content is gone, and its name exists. -/
def closeJournal (path : String) (pFile : ℕ) (j : JournalStore) : VfsReply × JournalStore :=
  (.code .ok,
    { j with
      busy := Function.update j.busy path false
      files := Function.update j.files pFile none })

/-- What the store answers to a call, if it is about a journal. -/
def answer : VfsCall → JournalStore → Option (VfsReply × JournalStore)
  | .xOpen (some path) pFile flags, j =>
    if ¬ flags.wal ∧ flags.isJournal then some (j.openJournal path pFile flags) else none
  | .xOpen none _ _, _ => none
  | .xDelete (some path) _, j =>
    if j.names path then
      some (.code .ok, { j with names := Function.update j.names path false })
    else none
  | .xDelete none _, _ => none
  | .xAccess (some path) _, j => if j.names path then some (.access 1, j) else none
  | .xAccess none _, _ => none
  | .io pFile c, j =>
    match j.files pFile with
    | some (path, content) => some (j.io path content pFile c)
    | none => none
  | .xClose pFile, j =>
    match j.files pFile with
    | some (path, _) => some (j.closeJournal path pFile)
    | none => none

end JournalStore

section Related

variable {φ δ : Type}

/-- What the database engine keeps to: names that `isName` tells are for journals and others are
not, a file is opened in memory that holds none, and a truncation of a journal leaves nothing
behind. -/
def Allowed (isName : String → Bool) : VfsCall → JournalStore × Backend φ δ → Prop
  | .xOpen zName pFile flags, s =>
    (∀ path, zName = some path → isName path = flags.isJournal) ∧
      s.1.files pFile = none ∧ s.2.files pFile = none
  | .io pFile c, s => ∀ path content, s.1.files pFile = some (path, content) → c.Clears content
  | _, _ => True

/-- What the memory of a file holds: nothing, a journal with its content, or a database. -/
inductive SameFile (isName : String → Bool) :
    Option (String × List UInt8) → Option (String × OpenFile φ) → Option (String × OpenFile φ) →
      Prop
  | none : SameFile isName none none none
  | journal {path : String} {m : BlockMapper InMemoryStorage} {content : List UInt8}
    (hname : isName path = true) (h : Plain m content) :
    SameFile isName (some (path, content)) none (some (path, .journal ⟨some m⟩))
  | database {path : String} {file : AppendOnlyFile φ} (hname : isName path = false) :
    SameFile isName none (some (path, .database file)) (some (path, .database file))

/-- The VFS, and the store of journals in front of the VFS without journals. -/
structure Related (isName : String → Bool) (v : Backend φ δ) (s : JournalStore × Backend φ δ) :
    Prop where
  names : v.gInMemoryJournalPaths = s.1.names
  noNames : s.2.gInMemoryJournalPaths = fun _ => false
  busy : ∀ path, isName path = true → (v.gOpenFiles path).isSome = s.1.busy path
  registry : ∀ path, isName path = false → v.gOpenFiles path = s.2.gOpenFiles path
  files : ∀ pFile, SameFile isName (s.1.files pFile) (s.2.files pFile) (v.files pFile)
  outside : v.outside = s.2.outside

/-- Nothing is open. -/
lemma related_start (isName : String → Bool) (d : δ) :
    Related isName (Backend.start (φ := φ) d) (.empty, .start d) :=
  ⟨rfl, rfl, fun _ _ => rfl, fun _ _ => rfl, fun _ => .none, rfl⟩

/-- A change of the memory of one file. -/
lemma sameFile_update {isName : String → Bool} {f : ℕ → Option (String × List UInt8)}
    {g h : ℕ → Option (String × OpenFile φ)} (hsame : ∀ q, SameFile isName (f q) (g q) (h q))
    (p : ℕ) {x : Option (String × List UInt8)} {y z : Option (String × OpenFile φ)}
    (hp : SameFile isName x y z) (q : ℕ) :
    SameFile isName (Function.update f p x q) (Function.update g p y q)
      (Function.update h p z q) := by
  simp only [Function.update_apply]
  split_ifs
  · exact hp
  · exact hsame q

namespace Related

variable {isName : String → Bool} {v : Backend φ δ} {s : JournalStore × Backend φ δ}

/-- The world outside changes. -/
lemma setOutside (h : Related isName v s) (d : δ) :
    Related isName { v with outside := d } (s.1, { s.2 with outside := d }) :=
  ⟨h.names, h.noNames, h.busy, h.registry, h.files, rfl⟩

/-- The names of the journals change. -/
lemma setName (h : Related isName v s) (path : String) (b : Bool) :
    Related isName
      { v with gInMemoryJournalPaths := Function.update v.gInMemoryJournalPaths path b }
      ({ s.1 with names := Function.update s.1.names path b }, s.2) :=
  ⟨by rw [h.names], h.noNames, h.busy, h.registry, h.files, h.outside⟩

/-- The content of a journal changes. -/
lemma setJournal (h : Related isName v s) {path : String} (hname : isName path = true) (pFile : ℕ)
    {m : BlockMapper InMemoryStorage} {content : List UInt8} (hplain : Plain m content)
    (hfree : s.2.files pFile = none) :
    Related isName
      { v with files := Function.update v.files pFile (some (path, .journal ⟨some m⟩)) }
      ({ s.1 with files := Function.update s.1.files pFile (some (path, content)) }, s.2) := by
  refine ⟨h.names, h.noNames, h.busy, h.registry, fun q => ?_, h.outside⟩
  have hsame := sameFile_update h.files pFile (.journal hname hplain) q
  rwa [← hfree, Function.update_eq_self] at hsame

/-- A database file changes. -/
lemma setDatabase (h : Related isName v s) {path : String} (hname : isName path = false) (pFile : ℕ)
    (file : AppendOnlyFile φ) (hfree : s.1.files pFile = none) :
    Related isName { v with files := Function.update v.files pFile (some (path, .database file)) }
      (s.1, { s.2 with
        files := Function.update s.2.files pFile (some (path, .database file)) }) := by
  refine ⟨h.names, h.noNames, h.busy, h.registry, fun q => ?_, h.outside⟩
  have hsame := sameFile_update h.files pFile
    (SameFile.database hname : SameFile isName none (some (path, .database file)) _) q
  rwa [← hfree, Function.update_eq_self] at hsame

/-- A journal is taken out of its memory. -/
lemma clearJournal (h : Related isName v s) {pFile : ℕ} (hfree : s.2.files pFile = none) :
    Related isName { v with files := Function.update v.files pFile none }
      ({ s.1 with files := Function.update s.1.files pFile none }, s.2) := by
  refine ⟨h.names, h.noNames, h.busy, h.registry, fun q => ?_, h.outside⟩
  have hnone : SameFile isName none (s.2.files pFile) none := by
    rw [hfree]
    exact .none
  have hsame := sameFile_update h.files pFile hnone q
  rwa [Function.update_eq_self] at hsame

/-- A database is taken out of its memory. -/
lemma clearDatabase (h : Related isName v s) {pFile : ℕ} (hfree : s.1.files pFile = none) :
    Related isName { v with files := Function.update v.files pFile none }
      (s.1, { s.2 with files := Function.update s.2.files pFile none }) := by
  refine ⟨h.names, h.noNames, h.busy, h.registry, fun q => ?_, h.outside⟩
  have hnone : SameFile isName (φ := φ) (s.1.files pFile) none none := by
    rw [hfree]
    exact .none
  have hsame := sameFile_update h.files pFile hnone q
  rwa [Function.update_eq_self] at hsame

/-- The entry of a journal in the registry changes. -/
lemma setBusy (h : Related isName v s) {path : String} (hname : isName path = true)
    (entry : Option ℕ) :
    Related isName { v with gOpenFiles := Function.update v.gOpenFiles path entry }
      ({ s.1 with busy := Function.update s.1.busy path entry.isSome }, s.2) := by
  refine ⟨h.names, h.noNames, fun p hp => ?_, fun p hp => ?_, h.files, h.outside⟩
  · simp only [Function.update_apply]
    split_ifs
    · rfl
    · exact h.busy p hp
  · have hne : p ≠ path := by
      rintro rfl
      rw [hname] at hp
      cases hp
    exact (Function.update_of_ne hne ..).trans (h.registry p hp)

/-- The entry of a database in the registry changes. -/
lemma setRegistry (h : Related isName v s) {path : String} (hname : isName path = false)
    (entry : Option ℕ) :
    Related isName { v with gOpenFiles := Function.update v.gOpenFiles path entry }
      (s.1, { s.2 with gOpenFiles := Function.update s.2.gOpenFiles path entry }) := by
  refine ⟨h.names, h.noNames, fun p hp => ?_, fun p hp => ?_, h.files, h.outside⟩
  · have hne : p ≠ path := by
      rintro rfl
      rw [hname] at hp
      cases hp
    show (Function.update v.gOpenFiles path entry p).isSome = _
    rw [Function.update_of_ne hne, h.busy p hp]
  · simp only [Function.update_apply]
    split_ifs
    · rfl
    · exact h.registry p hp

/-- A file that is not a journal. -/
lemma files_none (h : Related isName v s) {pFile : ℕ} (hnone : s.1.files pFile = none) :
    v.files pFile = s.2.files pFile := by
  have hsame := h.files pFile
  rw [hnone] at hsame
  generalize s.2.files pFile = y, v.files pFile = z at hsame
  cases hsame <;> rfl

/-- A journal. -/
lemma files_some (h : Related isName v s) {pFile : ℕ} {path : String} {content : List UInt8}
    (hsome : s.1.files pFile = some (path, content)) :
    isName path = true ∧ s.2.files pFile = none ∧
      ∃ m, v.files pFile = some (path, .journal ⟨some m⟩) ∧ Plain m content := by
  have hsame := h.files pFile
  rw [hsome] at hsame
  generalize s.2.files pFile = y, v.files pFile = z at hsame
  cases hsame with
  | journal hname hplain => exact ⟨hname, rfl, _, rfl, hplain⟩

/-- A file of the VFS without journals is a database. -/
lemma files_database (h : Related isName v s) {pFile : ℕ} {path : String} {file : OpenFile φ}
    (hsome : s.2.files pFile = some (path, file)) :
    isName path = false ∧ ∃ f, file = .database f := by
  have hsame := h.files pFile
  rw [hsome] at hsame
  generalize s.1.files pFile = y, v.files pFile = z at hsame
  cases hsame with
  | database hname => exact ⟨hname, _, rfl⟩

/-! ## The calls -/

variable [AppendOnlyStorage (φ × δ)] [MetadataProto] (out : Outside φ δ)

/-- A call has the same reply in related states and keeps them related. -/
def Keeps (isName : String → Bool) (call : VfsCall) (v : Backend φ δ)
    (s : JournalStore × Backend φ δ) : Prop :=
  (Backend.step out call v).1 =
      (layered JournalStore.answer (Backend.step out) call s).1 ∧
    Related isName (Backend.step out call v).2
      (layered JournalStore.answer (Backend.step out) call s).2

/-- `xDelete` forgets the name of a journal, or is passed on. -/
lemma xDelete (h : Related isName v s) (zName : Option String) (syncDir : ℤ) :
    Keeps out isName (.xDelete zName syncDir) v s := by
  unfold Keeps
  cases zName with
  | none =>
    rw [layered_of_none rfl]
    exact ⟨rfl, h⟩
  | some path =>
    have hnames : v.gInMemoryJournalPaths path = s.1.names path := congrFun h.names path
    cases hexists : s.1.names path with
    | true =>
      have hanswer : JournalStore.answer (.xDelete (some path) syncDir) s.1 =
          some (.code .ok, { s.1 with names := Function.update s.1.names path false }) := by
        rw [JournalStore.answer, if_pos hexists]
      rw [layered_of_some hanswer, Backend.step, Backend.xDelete]
      dsimp only
      rw [if_pos (hnames.trans hexists)]
      exact ⟨rfl, h.setName path false⟩
    | false =>
      have hanswer : JournalStore.answer (.xDelete (some path) syncDir) s.1 = none := by
        rw [JournalStore.answer, if_neg (by rw [hexists]; decide)]
      have hv : ¬ v.gInMemoryJournalPaths path = true := by simp [hnames, hexists]
      have hs : ¬ s.2.gInMemoryJournalPaths path = true := by simp [h.noNames]
      rw [layered_of_none hanswer, Backend.step, Backend.step, Backend.xDelete, Backend.xDelete]
      dsimp only
      rw [if_neg hv, if_neg hs, h.outside]
      by_cases hgcs : isGcs path = true
      · rw [if_pos hgcs, if_pos hgcs]
        cases bucketAndObject path with
        | none => exact ⟨rfl, h⟩
        | some p => exact ⟨rfl, h.setOutside _⟩
      · rw [if_neg hgcs, if_neg hgcs]
        exact ⟨rfl, h.setOutside _⟩

/-- `xAccess` finds the name of a journal, or is passed on. -/
lemma xAccess (h : Related isName v s) (zName : Option String) (flags : ℤ) :
    Keeps out isName (.xAccess zName flags) v s := by
  unfold Keeps
  cases zName with
  | none =>
    rw [layered_of_none rfl]
    exact ⟨rfl, h⟩
  | some path =>
    have hnames : v.gInMemoryJournalPaths path = s.1.names path := congrFun h.names path
    cases hexists : s.1.names path with
    | true =>
      have hanswer : JournalStore.answer (.xAccess (some path) flags) s.1 =
          some (.access 1, s.1) := by
        rw [JournalStore.answer, if_pos hexists]
      rw [layered_of_some hanswer, Backend.step, Backend.xAccess]
      dsimp only
      rw [if_pos (hnames.trans hexists)]
      exact ⟨rfl, h⟩
    | false =>
      have hanswer : JournalStore.answer (.xAccess (some path) flags) s.1 = none := by
        rw [JournalStore.answer, if_neg (by rw [hexists]; decide)]
      have hv : ¬ v.gInMemoryJournalPaths path = true := by simp [hnames, hexists]
      have hs : ¬ s.2.gInMemoryJournalPaths path = true := by simp [h.noNames]
      rw [layered_of_none hanswer, Backend.step, Backend.step, Backend.xAccess, Backend.xAccess]
      dsimp only
      rw [if_neg hv, if_neg hs, h.outside]
      by_cases hgcs : isGcs path = true
      · rw [if_pos hgcs, if_pos hgcs]
        cases bucketAndObject path with
        | none => exact ⟨rfl, h⟩
        | some p => exact ⟨rfl, h.setOutside _⟩
      · rw [if_neg hgcs, if_neg hgcs]
        exact ⟨rfl, h.setOutside _⟩

/-- A method of a journal is the one of an ordinary file, and a method of a database is passed
on. -/
lemma io (hser : MetadataProto.Serializes) (h : Related isName v s) {pFile : ℕ} {c : IoCall}
    (hclear : Allowed isName (.io pFile c) s) : Keeps out isName (.io pFile c) v s := by
  unfold Keeps
  cases hjournal : s.1.files pFile with
  | some entry =>
    obtain ⟨path, content⟩ := entry
    obtain ⟨hname, hfree, m, hfile, hplain⟩ := h.files_some hjournal
    have hanswer : JournalStore.answer (.io pFile c) s.1 = some (s.1.io path content pFile c) := by
      rw [JournalStore.answer, hjournal]
    obtain ⟨hreply, m', hrun, hplain'⟩ := hplain.step_reliable hser (hclear path content hjournal)
    rw [layered_of_some hanswer, Backend.step, Backend.io, hfile]
    dsimp only
    rw [hreply, hrun]
    exact ⟨rfl, h.setJournal hname pFile hplain' hfree⟩
  | none =>
    have hanswer : JournalStore.answer (.io pFile c) s.1 = none := by
      rw [JournalStore.answer, hjournal]
    have hfile := h.files_none hjournal
    rw [layered_of_none hanswer, Backend.step, Backend.step, Backend.io, Backend.io, hfile]
    cases hrest : s.2.files pFile with
    | none => exact ⟨rfl, h⟩
    | some entry =>
      obtain ⟨path, file⟩ := entry
      obtain ⟨hname, f, rfl⟩ := h.files_database hrest
      dsimp only
      rw [h.outside]
      exact ⟨rfl, (h.setDatabase hname pFile _ hjournal).setOutside _⟩

/-- `xClose` of a journal forgets its content, and of a database is passed on. -/
lemma xClose (h : Related isName v s) (pFile : ℕ) : Keeps out isName (.xClose pFile) v s := by
  unfold Keeps
  cases hjournal : s.1.files pFile with
  | some entry =>
    obtain ⟨path, content⟩ := entry
    obtain ⟨hname, hfree, m, hfile, -⟩ := h.files_some hjournal
    have hanswer :
        JournalStore.answer (.xClose pFile) s.1 = some (s.1.closeJournal path pFile) := by
      rw [JournalStore.answer, hjournal]
    rw [layered_of_some hanswer, Backend.step, Backend.xClose, hfile]
    exact ⟨rfl, (h.setBusy hname none).clearJournal hfree⟩
  | none =>
    have hanswer : JournalStore.answer (.xClose pFile) s.1 = none := by
      rw [JournalStore.answer, hjournal]
    have hfile := h.files_none hjournal
    rw [layered_of_none hanswer, Backend.step, Backend.step, Backend.xClose, Backend.xClose, hfile]
    cases hrest : s.2.files pFile with
    | none => exact ⟨rfl, h⟩
    | some entry =>
      obtain ⟨path, file⟩ := entry
      obtain ⟨hname, -⟩ := h.files_database hrest
      dsimp only
      rw [h.outside]
      exact ⟨rfl, ((h.setRegistry hname none).clearDatabase hjournal).setOutside _⟩

/-- `xOpen` of a journal adds an empty one. -/
lemma xOpen_journal (h : Related isName v s) {path : String} {pFile : ℕ} {flags : OpenFlags}
    (hwal : flags.wal = false) (hjournal : flags.isJournal = true)
    (hopen : Allowed isName (.xOpen (some path) pFile flags) s) :
    Keeps out isName (.xOpen (some path) pFile flags) v s := by
  obtain ⟨hname, -, hfree⟩ := hopen
  replace hname : isName path = true := (hname path rfl).trans hjournal
  have hanswer : JournalStore.answer (.xOpen (some path) pFile flags) s.1 =
      some (s.1.openJournal path pFile flags) := by
    rw [JournalStore.answer, if_pos ⟨by simp [hwal], hjournal⟩]
  have hstep : Backend.step out (.xOpen (some path) pFile flags) v =
      Backend.xOpen out (some path) pFile flags v := rfl
  unfold Keeps
  rw [hstep, Backend.xOpen, hwal, if_neg Bool.false_ne_true]
  dsimp only
  rw [if_neg (by simp [hjournal]), h.busy path hname]
  unfold JournalStore.openJournal at hanswer
  by_cases hbusy : s.1.busy path = true
  · rw [if_pos hbusy] at hanswer
    rw [if_pos hbusy, layered_of_some hanswer]
    exact ⟨rfl, h⟩
  · obtain ⟨m, hinit, hplain⟩ := plain_init (s := InMemoryStorage.new) rfl rfl
    rw [if_neg hbusy] at hanswer
    rw [if_neg hbusy, if_pos hjournal, hinit, layered_of_some hanswer]
    exact ⟨rfl, ((h.setName path true).setBusy hname (some pFile)).setJournal hname pFile hplain
      hfree⟩

/-- `xOpen` of what is not a journal is passed on. -/
lemma xOpen_rest (h : Related isName v s) {path : String} {pFile : ℕ} {flags : OpenFlags}
    (hwal : flags.wal = false) (hjournal : flags.isJournal = false)
    (hopen : Allowed isName (.xOpen (some path) pFile flags) s) :
    Keeps out isName (.xOpen (some path) pFile flags) v s := by
  obtain ⟨hname, hfree, -⟩ := hopen
  replace hname : isName path = false := (hname path rfl).trans hjournal
  have hanswer : JournalStore.answer (.xOpen (some path) pFile flags) s.1 = none := by
    rw [JournalStore.answer, if_neg (by simp [hjournal])]
  unfold Keeps
  rw [layered_of_none hanswer, Backend.step, Backend.step, Backend.xOpen, Backend.xOpen, hwal,
    if_neg Bool.false_ne_true, if_neg Bool.false_ne_true]
  dsimp only
  rw [h.registry path hname, h.outside]
  by_cases hdefault : ¬ isGcs path ∧ ¬ flags.isJournal ∧ ¬ flags.mainDb
  · rw [if_pos hdefault, if_pos hdefault]
    exact ⟨rfl, h.setOutside _⟩
  rw [if_neg hdefault, if_neg hdefault]
  by_cases hopened : (s.2.gOpenFiles path).isSome = true
  · rw [if_pos hopened, if_pos hopened]
    exact ⟨rfl, h⟩
  · rw [if_neg hopened, if_neg hopened, if_neg (by rw [hjournal]; decide),
      if_neg (by rw [hjournal]; decide)]
    generalize openDatabase out path s.2.outside = r
    obtain ⟨file | file, d⟩ := r
    · exact ⟨rfl, h.setOutside d⟩
    · exact ⟨rfl, ((h.setOutside d).setRegistry hname (some pFile)).setDatabase hname pFile file
        hfree⟩

/-- `xOpen` without a path, or for a write-ahead log. -/
lemma xOpen_refused (h : Related isName v s) {zName : Option String} {pFile : ℕ} {flags : OpenFlags}
    (hrefused : flags.wal = true ∨ zName = none) :
    Keeps out isName (.xOpen zName pFile flags) v s := by
  have hanswer : JournalStore.answer (.xOpen zName pFile flags) s.1 = none := by
    cases zName with
    | none => rfl
    | some path =>
      have hwal : flags.wal = true := hrefused.resolve_right (by simp)
      rw [JournalStore.answer, if_neg (by simp [hwal])]
  have hcode : ∀ w : Backend φ δ, w.xOpen out zName pFile flags = (.code .cantopen, w) := by
    intro w
    unfold Backend.xOpen
    rcases hrefused with hwal | rfl
    · rw [if_pos hwal]
    · split_ifs <;> rfl
  unfold Keeps
  rw [layered_of_none hanswer, Backend.step, Backend.step, hcode, hcode]
  exact ⟨rfl, h⟩

/-- **Every call keeps the relation.** -/
theorem step (hser : MetadataProto.Serializes) (h : Related isName v s) {call : VfsCall}
    (hcall : Allowed isName call s) : Keeps out isName call v s := by
  cases call with
  | xOpen zName pFile flags =>
    cases zName with
    | none => exact h.xOpen_refused out (Or.inr rfl)
    | some path =>
      cases hwal : flags.wal with
      | true => exact h.xOpen_refused out (Or.inl hwal)
      | false =>
        cases hjournal : flags.isJournal with
        | true => exact h.xOpen_journal out hwal hjournal hcall
        | false => exact h.xOpen_rest out hwal hjournal hcall
  | xDelete zName syncDir => exact h.xDelete out zName syncDir
  | xAccess zName flags => exact h.xAccess out zName flags
  | io pFile c => exact h.io out hser hcall
  | xClose pFile => exact h.xClose out pFile

/-- The relation as a simulation. -/
def simulation (hser : MetadataProto.Serializes) (isName : String → Bool) :
    GuardedSimulation (Backend.step out) (layered JournalStore.answer (Backend.step out))
      (fun _ => true) (Allowed isName) where
  R := Related isName
  step_related _ _ _ hcall h :=
    let hstep := h.step out hser hcall
    ⟨fun _ => hstep.1, hstep.2⟩

end Related

/-- **Journals stay in memory.** In any run of calls as the database engine makes them, the VFS
replies like the store of journals in front of the VFS without journals: each journal is an ordinary
file that starts empty, and its name exists from when it is opened until it is deleted. The world
outside is changed only by the calls that are passed on, as if they were the whole run.

**Proof sketch.** Every call keeps the relation (`Related.step`), and what is passed on is a run of
its own (`Machine.final_layered`). -/
theorem journals_stay_in_memory [AppendOnlyStorage (φ × δ)] [MetadataProto]
    (hser : MetadataProto.Serializes) (out : Outside φ δ) (isName : String → Bool) (d : δ)
    {calls : List VfsCall}
    (hcalls : Along (layered JournalStore.answer (Backend.step out)) (Allowed isName) calls
      (.empty, .start d)) :
    replies (Backend.step out) calls (.start d) =
        replies (layered JournalStore.answer (Backend.step out)) calls (.empty, .start d) ∧
      (final (Backend.step out) calls (.start d)).outside =
        (final (Backend.step out) (passedOn JournalStore.answer calls .empty)
          (.start d)).outside := by
  obtain ⟨hreplies, hfinal⟩ := (Related.simulation out hser isName).observed_eq hcalls
    (related_start isName d)
  rw [observed_true, observed_true] at hreplies
  refine ⟨hreplies, hfinal.outside.trans ?_⟩
  rw [final_layered]

end Related

/-- A disk with one file. -/
@[reducible] def oneFileStorage : AppendOnlyStorage (Unit × InMemoryStorage) where
  append data s := ((s.2.append data).1, ((), (s.2.append data).2))
  pRead size offset s := ((s.2.pRead size offset).1, ((), (s.2.pRead size offset).2))
  getSize s := (s.2.getSize.1, ((), s.2.getSize.2))
  sync s := (s.2.sync.1, ((), s.2.sync.2))

/-- The world outside with this disk and no bucket. -/
def oneFile : Outside Unit InMemoryStorage where
  openLocal _ d := (some (), d)
  createGcs _ _ d := (none, d)
  destroy _ d := d
  deleteObject _ _ d := (.failed, d)
  getObjectMetadata _ _ d := (false, d)
  defaultOpen _ _ _ d := (14, d)
  defaultDelete _ _ _ := (0, .new)
  defaultAccess path _ d := ((0, if path = "test.db" then 1 else 0), d)

/-- A transaction with a journal: the journal is written and read, the database is written, and the
journal is deleted. -/
def journaledWrite : List VfsCall :=
  let database : OpenFlags := ⟨false, true, false, false, false, false⟩
  let journal : OpenFlags := ⟨false, false, true, false, false, false⟩
  [.xOpen (some "test.db") 0 database, .xOpen (some "test.db-journal") 1 journal,
    .io 1 (.write [7, 8] 0), .io 0 (.write [1] 0), .io 0 .sync, .io 1 (.read 2 0),
    .io 1 (.truncate 0), .xClose 1, .xAccess (some "test.db-journal") 0,
    .xDelete (some "test.db-journal") 0, .xAccess (some "test.db-journal") 0, .xClose 0]

/-- `journals_stay_in_memory` for a transaction with a journal. -/
theorem journals_stay_in_memory_transaction :
    letI := wireProto
    letI := oneFileStorage
    replies (Backend.step oneFile) journaledWrite (.start .new) =
        replies (layered JournalStore.answer (Backend.step oneFile)) journaledWrite
          (.empty, .start .new) ∧
      (final (Backend.step oneFile) journaledWrite (.start .new)).outside =
        (final (Backend.step oneFile) (passedOn JournalStore.answer journaledWrite .empty)
          (.start .new)).outside := by
  let _ := wireProto
  let _ := oneFileStorage
  refine journals_stay_in_memory wireProto_serializes oneFile
    (fun path => decide (path = "test.db-journal")) .new ?_
  refine ⟨⟨?_, rfl, rfl⟩, ⟨?_, rfl, rfl⟩, fun _ _ _ => trivial, fun _ _ _ => trivial,
    fun _ _ _ => trivial, fun _ _ _ => trivial, fun _ content _ => ?_, trivial, trivial, trivial,
    trivial, trivial, trivial⟩
  · intro path hpath
    obtain rfl := Option.some.inj hpath
    decide
  · intro path hpath
    obtain rfl := Option.some.inj hpath
    decide
  · exact IoCall.clears_of_aligned (by decide) content

end SqliteGcs
