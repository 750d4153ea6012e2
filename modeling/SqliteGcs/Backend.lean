import SqliteGcs.Lib.Simulation
import SqliteGcs.OpenRegistry
import SqliteGcs.OrdinaryFile

set_option relaxedAutoImplicit false
set_option autoImplicit false

/-!
# The VFS

`vfs_backend.cc` as a whole: names and open files together. Journals are kept in memory, with a set
of the names that exist; databases are in local files or in a bucket, and what is neither is left to
the default VFS. The world outside of the process is a parameter: a state that the storages and the
default VFS read and change.

## Main definitions

* `SqliteGcs.Outside` — the world outside of the process.
* `SqliteGcs.Backend` — the registry, the names of the journals, the open files and the outside.
* `SqliteGcs.Backend.xOpen`, `SqliteGcs.Backend.xDelete`, `SqliteGcs.Backend.xAccess`,
  `SqliteGcs.Backend.xClose` — the methods of the VFS.
* `SqliteGcs.VfsCall`, `SqliteGcs.Backend.step` — a call of the VFS or of one of its files.
-/

namespace SqliteGcs

open BlockMapper

/-! ## The world outside -/

/-- What `DeleteObject` returns. -/
inductive DeleteStatus
  | ok
  | notFound
  | failed
  deriving DecidableEq

/-- The world outside of the process, in states of type `δ`. A storage of type `φ` is an open local
file or an open session with a bucket. -/
structure Outside (φ δ : Type) where
  /-- `LocalStorage::Open`. -/
  openLocal : String → δ → Option φ × δ
  /-- `GcsRapidStorage::Create`. -/
  createGcs : String → String → δ → Option φ × δ
  /-- The destructor of a storage. -/
  destroy : φ → δ → δ
  /-- `Client::DeleteObject`. -/
  deleteObject : String → String → δ → DeleteStatus × δ
  /-- `Client::GetObjectMetadata`, and whether it succeeds. -/
  getObjectMetadata : String → String → δ → Bool × δ
  /-- `g_default_vfs->xOpen`, and the code that it returns. -/
  defaultOpen : String → ℕ → OpenFlags → δ → ℤ × δ
  /-- `g_default_vfs->xDelete`, and the code that it returns. -/
  defaultDelete : String → ℤ → δ → ℤ × δ
  /-- `g_default_vfs->xAccess`, the code that it returns, and `*pResOut`. -/
  defaultAccess : String → ℤ → δ → (ℤ × ℤ) × δ

/-- The bucket and the object of a path that starts with `gcs://`: what is in front of the first
slash behind it, and what is behind that slash. -/
def bucketAndObject (path : String) : Option (String × String) :=
  let sub := path.toList.drop 6
  if sub.contains '/' then
    some (.ofList (sub.takeWhile (· ≠ '/')), .ofList ((sub.dropWhile (· ≠ '/')).drop 1))
  else none

/-! ## The state -/

/-- What is behind the `mapper` of an open file: a storage in memory, or one outside. -/
inductive OpenFile (φ : Type)
  | journal (file : AppendOnlyFile InMemoryStorage)
  | database (file : AppendOnlyFile φ)

/-- The state of the VFS. A file is named by the memory that the database engine has for it. -/
structure Backend (φ δ : Type) where
  /-- `g_open_files`. -/
  gOpenFiles : String → Option ℕ
  /-- `g_in_memory_journal_paths`. -/
  gInMemoryJournalPaths : String → Bool
  /-- The files that are open, with their paths. -/
  files : ℕ → Option (String × OpenFile φ)
  /-- The world outside. -/
  outside : δ

/-- A call of the VFS or of one of its files. -/
inductive VfsCall
  | xOpen (zName : Option String) (pFile : ℕ) (flags : OpenFlags)
  | xDelete (zName : Option String) (syncDir : ℤ)
  | xAccess (zName : Option String) (flags : ℤ)
  | io (pFile : ℕ) (c : IoCall)
  | xClose (pFile : ℕ)

/-- What a call returns. -/
inductive VfsReply
  /-- `SQLITE_OK` of `xOpen`, and `*pOutFlags`. -/
  | opened (pOutFlags : OpenFlags)
  /-- `SQLITE_OK` of `xAccess`, and `*pResOut`. -/
  | access (pResOut : ℤ)
  /-- `SQLITE_IOERR_DELETE`. -/
  | ioerrDelete
  /-- Another result code. -/
  | code (code : ResultCode)
  /-- What a method of a file returns. -/
  | io (reply : IoReply)
  /-- What the default VFS returns. -/
  | default (code : ℤ)
  /-- What `xAccess` of the default VFS returns, and `*pResOut`. -/
  | defaultAccess (code pResOut : ℤ)
  /-- There is no such file. -/
  | noFile

/-! ## Databases -/

section Database

variable {φ δ : Type}

/-- A mapper over a storage in the world outside. -/
def AppendOnlyFile.over (file : AppendOnlyFile φ) (d : δ) : AppendOnlyFile (φ × δ) :=
  ⟨file.mapper.map fun m =>
    { toLogical := m.toLogical, storage := (m.storage, d), pendingRecords := m.pendingRecords,
      initialized := m.initialized }⟩

/-- The mapper without the world outside. -/
def AppendOnlyFile.inside (file : AppendOnlyFile (φ × δ)) : AppendOnlyFile φ :=
  ⟨file.mapper.map fun m =>
    { toLogical := m.toLogical, storage := m.storage.1, pendingRecords := m.pendingRecords,
      initialized := m.initialized }⟩

/-- The world outside of a mapper; without a mapper, nothing has changed it. -/
def AppendOnlyFile.outside (file : AppendOnlyFile (φ × δ)) (d : δ) : δ :=
  (file.mapper.map (·.storage.2)).getD d

/-- The part of `xOpen` that opens the storage of a database. -/
def openStorage (out : Outside φ δ) (path : String) (d : δ) : Option φ × δ :=
  if isGcs path then
    match bucketAndObject path with
    | none => (none, d)
    | some (bucket, object) => out.createGcs bucket object d
  else out.openLocal path d

variable [AppendOnlyStorage (φ × δ)] [MetadataProto]

/-- A method of a database file. -/
def runDatabase (c : IoCall) (file : AppendOnlyFile φ) (d : δ) :
    IoReply × AppendOnlyFile φ × δ :=
  let r := c.run (file.over d)
  (r.1, r.2.inside, r.2.outside d)

/-- The part of `xOpen` that opens the storage and recovers the mapper of a database. A storage that
cannot be recovered is destroyed. -/
def openDatabase (out : Outside φ δ) (path : String) (d : δ) : Option (AppendOnlyFile φ) × δ :=
  match openStorage out path d with
  | (none, d) => (none, d)
  | (some storage, d) =>
    match init (new (storage, d)) with
    | (.error _, mapper) => (none, out.destroy mapper.storage.1 mapper.storage.2)
    | (.ok _, mapper) =>
      let file : AppendOnlyFile (φ × δ) := ⟨some mapper⟩
      (some file.inside, mapper.storage.2)

end Database

/-! ## The methods -/

namespace Backend

variable {φ δ : Type}

/-- Nothing is open. -/
def start (d : δ) : Backend φ δ := ⟨fun _ => none, fun _ => false, fun _ => none, d⟩

/-- The end of `xOpen`: the file is put into its memory and into the registry. -/
def enter (path : String) (pFile : ℕ) (file : OpenFile φ) (v : Backend φ δ) : Backend φ δ :=
  { v with
    gOpenFiles := Function.update v.gOpenFiles path (some pFile)
    files := Function.update v.files pFile (some (path, file)) }

section Methods

variable (out : Outside φ δ)

/-- `xDelete`. -/
def xDelete (zName : Option String) (syncDir : ℤ) (v : Backend φ δ) : VfsReply × Backend φ δ :=
  match zName with
  | none => (.ioerrDelete, v)
  | some path =>
    if v.gInMemoryJournalPaths path then
      (.code .ok, { v with
        gInMemoryJournalPaths := Function.update v.gInMemoryJournalPaths path false })
    else if isGcs path then
      match bucketAndObject path with
      | none => (.ioerrDelete, v)
      | some (bucket, object) =>
        let r := out.deleteObject bucket object v.outside
        (if r.1 = .failed then .ioerrDelete else .code .ok, { v with outside := r.2 })
    else
      let r := out.defaultDelete path syncDir v.outside
      (.default r.1, { v with outside := r.2 })

/-- `xAccess`; `SQLITE_ACCESS_EXISTS` is 0. -/
def xAccess (zName : Option String) (flags : ℤ) (v : Backend φ δ) : VfsReply × Backend φ δ :=
  match zName with
  | none => (.access 0, v)
  | some path =>
    if v.gInMemoryJournalPaths path then (.access 1, v)
    else if isGcs path then
      match bucketAndObject path with
      | none => (.access 0, v)
      | some (bucket, object) =>
        let r := out.getObjectMetadata bucket object v.outside
        (.access (if flags = 0 then if r.1 then 1 else 0 else 1), { v with outside := r.2 })
    else
      let r := out.defaultAccess path flags v.outside
      (.defaultAccess r.1.1 r.1.2, { v with outside := r.2 })

/-- What the destructor of a mapper does outside. -/
def destroyed (file : OpenFile φ) (d : δ) : δ :=
  match file with
  | .journal _ => d
  | .database file => (file.mapper.map fun m => out.destroy m.storage d).getD d

/-- `xClose`. -/
def xClose (pFile : ℕ) (v : Backend φ δ) : VfsReply × Backend φ δ :=
  match v.files pFile with
  | none => (.noFile, v)
  | some (path, file) =>
    (.code .ok, { v with
      gOpenFiles := Function.update v.gOpenFiles path none
      files := Function.update v.files pFile none
      outside := destroyed out file v.outside })

variable [AppendOnlyStorage (φ × δ)] [MetadataProto]

/-- `xOpen`. -/
def xOpen (zName : Option String) (pFile : ℕ) (flags : OpenFlags) (v : Backend φ δ) :
    VfsReply × Backend φ δ :=
  if flags.wal then (.code .cantopen, v)
  else
    match zName with
    | none => (.code .cantopen, v)
    | some path =>
      if ¬ isGcs path ∧ ¬ flags.isJournal ∧ ¬ flags.mainDb then
        let r := out.defaultOpen path pFile flags v.outside
        (.default r.1, { v with outside := r.2 })
      else if (v.gOpenFiles path).isSome then (.code .busy, v)
      else if flags.isJournal then
        let v := { v with
          gInMemoryJournalPaths := Function.update v.gInMemoryJournalPaths path true }
        match init (new InMemoryStorage.new) with
        | (.error _, _) => (.code .cantopen, v)
        | (.ok _, mapper) => (.opened flags, v.enter path pFile (.journal ⟨some mapper⟩))
      else
        match openDatabase out path v.outside with
        | (none, d) => (.code .cantopen, { v with outside := d })
        | (some file, d) =>
          (.opened flags, ({ v with outside := d } : Backend φ δ).enter path pFile (.database file))

/-- A method of an open file. -/
def io (pFile : ℕ) (c : IoCall) (v : Backend φ δ) : VfsReply × Backend φ δ :=
  match v.files pFile with
  | none => (.noFile, v)
  | some (path, .journal file) =>
    let r := c.run file
    (.io r.1, { v with files := Function.update v.files pFile (some (path, .journal r.2)) })
  | some (path, .database file) =>
    let r := runDatabase c file v.outside
    (.io r.1, { v with
      files := Function.update v.files pFile (some (path, .database r.2.1))
      outside := r.2.2 })

/-- A call. -/
def step : VfsCall → Backend φ δ → VfsReply × Backend φ δ
  | .xOpen zName pFile flags, v => v.xOpen out zName pFile flags
  | .xDelete zName syncDir, v => v.xDelete out zName syncDir
  | .xAccess zName flags, v => v.xAccess out zName flags
  | .io pFile c, v => v.io pFile c
  | .xClose pFile, v => v.xClose out pFile

end Methods

end Backend

end SqliteGcs
