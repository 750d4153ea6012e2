import SqliteGcs.Live

set_option relaxedAutoImplicit false
set_option autoImplicit false

/-!
# The file methods of the VFS

The file methods of `vfs_backend.cc`: the file as the database engine sees it. A read within the
file returns its bytes; a read that reaches past the end returns what there is, filled up with
zeros, and the status of a short read. The other methods pass on what the mapper does.

## Main definitions

* `SqliteGcs.AppendOnlyFile` — an open file.
* `SqliteGcs.openMapper`, `SqliteGcs.xClose` — what `xOpen` and `xClose` do to a mapper.
* `SqliteGcs.xRead`, `SqliteGcs.xWrite`, `SqliteGcs.xTruncate`, `SqliteGcs.xSync`,
  `SqliteGcs.xFileSize` — the methods.
* `SqliteGcs.FileView` — a size and a byte function, which is all that a reader can see.

## Main results

* `SqliteGcs.xRead_spec` — `xRead` is a function of the size and the byte function.
-/

namespace SqliteGcs

open Bytes PageTable BlockMapper

/-- The result codes of the methods. -/
inductive ResultCode
  | ok
  | ioerr
  | ioerrRead
  | ioerrShortRead
  | ioerrWrite
  | ioerrTruncate
  | ioerrDirty
  | cantopen
  | busy
  deriving DecidableEq, Repr

/-- `AppendOnlyFile`: an open file of the VFS. -/
structure AppendOnlyFile (σ : Type) where
  /-- `mapper`; `none` for a null pointer. -/
  mapper : Option (BlockMapper σ)

section Methods

variable {σ : Type} [AppendOnlyStorage σ]

/-- `xRead`: the result code and the content of the caller's buffer. After `SQLITE_IOERR_READ` the
buffer holds nothing that a caller may look at, and the model returns no bytes. -/
def xRead (iAmt : ℕ) (iOfst : ℤ) (file : AppendOnlyFile σ) :
    (ResultCode × List UInt8) × AppendOnlyFile σ :=
  match file.mapper with
  | none => ((.ioerrRead, []), file)
  | some mapper =>
    let logicalSize := mapper.logicalSize
    if iOfst ≥ logicalSize then ((.ioerrShortRead, List.replicate iAmt 0), file)
    else if iOfst + iAmt > logicalSize then
      let readLen := logicalSize - iOfst
      match mapper.read (u64 readLen) iOfst with
      | (.error _, mapper) => ((.ioerrRead, []), ⟨some mapper⟩)
      | (.ok bytes, mapper) =>
        ((.ioerrShortRead, bytes ++ List.replicate (iAmt - readLen).toNat 0), ⟨some mapper⟩)
    else
      match mapper.read iAmt iOfst with
      | (.error _, mapper) => ((.ioerrRead, []), ⟨some mapper⟩)
      | (.ok bytes, mapper) => ((.ok, bytes), ⟨some mapper⟩)

omit [AppendOnlyStorage σ] in
/-- `xFileSize`. -/
def xFileSize (file : AppendOnlyFile σ) : ResultCode × ℤ :=
  match file.mapper with
  | none => (.ioerr, 0)
  | some mapper => (.ok, mapper.logicalSize)

/-- `xWrite`. -/
def xWrite (buf : List UInt8) (iOfst : ℤ) (file : AppendOnlyFile σ) :
    ResultCode × AppendOnlyFile σ :=
  match file.mapper with
  | none => (.ioerrWrite, file)
  | some mapper =>
    match mapper.write buf iOfst with
    | (.error _, mapper) => (.ioerrWrite, ⟨some mapper⟩)
    | (.ok _, mapper) => (.ok, ⟨some mapper⟩)

/-- `xTruncate`. -/
def xTruncate [MetadataProto] (size : ℤ) (file : AppendOnlyFile σ) :
    ResultCode × AppendOnlyFile σ :=
  match file.mapper with
  | none => (.ioerrTruncate, file)
  | some mapper =>
    match mapper.truncate size with
    | (.error _, mapper) => (.ioerrTruncate, ⟨some mapper⟩)
    | (.ok _, mapper) => (.ok, ⟨some mapper⟩)

/-- `xSync`. -/
def xSync (file : AppendOnlyFile σ) : ResultCode × AppendOnlyFile σ :=
  match file.mapper with
  | none => (.ioerrDirty, file)
  | some mapper =>
    match mapper.sync with
    | (.error _, mapper) => (.ioerrDirty, ⟨some mapper⟩)
    | (.ok _, mapper) => (.ok, ⟨some mapper⟩)

/-- The part of `xOpen` after it has the storage: the file with a mapper over it. -/
def openMapper [MetadataProto] (storage : σ) : ResultCode × Option (AppendOnlyFile σ) :=
  match init (new storage) with
  | (.error _, _) => (.cantopen, none)
  | (.ok _, mapper) => (.ok, some ⟨some mapper⟩)

omit [AppendOnlyStorage σ] in
/-- The part of `xClose` after the registry: the storage as the destructors leave it. What the
mapper has buffered goes with the mapper. -/
def xClose (file : AppendOnlyFile σ) : ResultCode × Option σ :=
  (.ok, file.mapper.map (·.storage))

end Methods

/-! ## What a reader can see -/

/-- The part of a file's state that its readers can see: its size and its bytes. -/
structure FileView where
  /-- The size. -/
  size : ℕ
  /-- The byte at each position. -/
  byte : ℕ → UInt8

/-- What a read of `amt` bytes at offset `ofst` returns. -/
def FileView.read (v : FileView) (amt : ℕ) (ofst : ℤ) : ResultCode × List UInt8 :=
  if ofst ≥ v.size then (.ioerrShortRead, List.replicate amt 0)
  else if ofst < 0 then (.ioerrRead, [])
  else if ofst + amt > v.size then
    (.ioerrShortRead, window v.byte ofst.toNat (v.size - ofst.toNat) ++
      List.replicate (amt - (v.size - ofst.toNat)) 0)
  else (.ok, window v.byte ofst.toNat amt)

/-- Files of the same size with the same bytes inside look the same. -/
lemma FileView.read_congr {v w : FileView} (hs : v.size = w.size)
    (hb : ∀ i < v.size, v.byte i = w.byte i) (amt : ℕ) (ofst : ℤ) :
    v.read amt ofst = w.read amt ofst := by
  unfold FileView.read
  rw [← hs]
  split_ifs with h1 h2 h3
  · rfl
  · rfl
  · rw [window_congr fun i hi => hb (ofst.toNat + i) (by omega)]
  · rw [window_congr fun i hi => hb (ofst.toNat + i) (by omega)]

section Spec

variable {σ : Type} [AtomicLog σ]

/-- The view of a mapper's file. -/
def BlockMapper.view (m : BlockMapper σ) : FileView := ⟨m.logicalSize.toNat, m.byteAt⟩

/-- **`xRead` is a function of the size and the bytes of the file.** -/
theorem xRead_spec {m : BlockMapper σ} (h : Ready m) (h0 : 0 ≤ m.logicalSize)
    (h1 : m.logicalSize ≤ 1000000 * 4096) (iAmt : ℕ) (iOfst : ℤ) :
    (xRead iAmt iOfst ⟨some m⟩).1 = m.view.read iAmt iOfst := by
  obtain ⟨n, hn⟩ : ∃ n : ℕ, m.logicalSize = n := ⟨m.logicalSize.toNat, by omega⟩
  have hview : m.view = ⟨n, m.byteAt⟩ := by
    rw [view, hn, Int.toNat_natCast]
  rw [hview]
  unfold xRead FileView.read
  dsimp only
  rw [hn]
  by_cases hpast : iOfst ≥ (n : ℤ)
  · rw [if_pos hpast, if_pos hpast]
  rw [if_neg hpast, if_neg hpast]
  by_cases hneg : iOfst < 0
  · -- both reads of a negative offset are refused
    have hrefused : ∀ size, m.read size iOfst =
        (.error ⟨.invalidArgument, "Read offset/size is out of range"⟩, m) := by
      intro size
      have hor : outOfRange size iOfst = true := by
        simp [outOfRange, hneg]
      rw [BlockMapper.read, if_pos hor]
    rw [if_pos hneg, hrefused, hrefused]
    split_ifs <;> rfl
  rw [if_neg hneg]
  obtain ⟨o, rfl⟩ : ∃ o : ℕ, iOfst = o := ⟨iOfst.toNat, by omega⟩
  rw [Int.toNat_natCast]
  by_cases hshort : (o : ℤ) + iAmt > n
  · have hlen : u64 ((n : ℤ) - o) = n - o := by
      have := u64_of_range (x := (n : ℤ) - o) (by omega) (by omega)
      omega
    have hrest : ((iAmt : ℤ) - ((n : ℤ) - o)).toNat = iAmt - (n - o) := by omega
    obtain ⟨s, hr, -, -⟩ := read_spec h.initialized h.valid h.sound (n := n - o) (o := o)
      (by omega)
    rw [if_pos hshort, if_pos hshort, hlen, hr, hrest]
  · obtain ⟨s, hr, -, -⟩ := read_spec h.initialized h.valid h.sound (n := iAmt) (o := o)
      (by omega)
    rw [if_neg hshort, if_neg hshort, hr]

end Spec

end SqliteGcs
