import SqliteGcs.AtomicImport

set_option relaxedAutoImplicit false
set_option autoImplicit false

/-!
# The log tool

`sqlite_log_tool_main.cc`: the command that imports raw files into logs and exports them. A log is
an object in a bucket, in two spellings, or a local file, of which there may be several spellings
too. The world outside is a parameter again, with the laws of a file system and of a bucket as
hypotheses.

The raw file of a command may be the file of its log. An import then reads what it has just
deleted, and an export empties the log before it reads it; the model has both, and the theorems are
about raw files that are not the log.

## Main definitions

* `SqliteGcs.LogTool.parseGcsPath`, `SqliteGcs.LogTool.deleteStoragePath`,
  `SqliteGcs.LogTool.openStoragePath`, `SqliteGcs.LogTool.main` — the tool.
* `SqliteGcs.LogTool.LogPath`, `SqliteGcs.LogTool.World.logPath` — what a path names.
* `SqliteGcs.LogTool.World.Lawful` — the laws of the world outside.

## Main results

* `SqliteGcs.LogTool.import_outcome` — what an import leaves behind, whatever its exit code is.
* `SqliteGcs.LogTool.import_then_export` — an export writes what the last import read.
-/

namespace SqliteGcs.LogTool

open BlockMapper Machine

/-! ## Paths -/

/-- `ParseGcsPath`: the bucket and the object. -/
def parseGcsPath (path : String) : Option (String × String) :=
  let sub :=
    if "gcs://".toList.isPrefixOf path.toList then some (path.toList.drop 6)
    else if "gs://".toList.isPrefixOf path.toList then some (path.toList.drop 5)
    else none
  match sub with
  | none => none
  | some sub =>
    if sub.contains '/' then
      some (.ofList (sub.takeWhile (· ≠ '/')), .ofList ((sub.dropWhile (· ≠ '/')).drop 1))
    else none

/-- What a path names: an object in a bucket, or a local file. -/
inductive LogPath
  | object (bucket object : String)
  | file (name : String)
  deriving DecidableEq

/-! ## The tool -/

/-- What `unlink` returns. -/
inductive UnlinkResult
  | ok
  | noEntry
  | failed (errno : Errno)

/-- The world outside of the tool, in states of type `δ`, with storages of type `σ`. -/
structure World (σ δ : Type) where
  /-- The local file that a path leads to. Several paths may lead to one file. -/
  resolve : String → String
  /-- `Client::DeleteObject`. -/
  deleteObject : String → String → δ → Except Status Unit × δ
  /-- `unlink`. -/
  unlink : String → δ → UnlinkResult × δ
  /-- `GcsRapidStorage::Create`. -/
  createGcs : String → String → δ → Except Status σ × δ
  /-- `LocalStorage::Open`. -/
  openLocal : String → δ → Except Status σ × δ
  /-- The world that others see while the storage of a log is open and has come to this state. -/
  stored : LogPath → σ → δ → δ
  /-- The storage of a log when the raw file at a path, which may be the file under the storage, has
  got a content. -/
  share : LogPath → String → List UInt8 → σ → σ
  /-- The destructor of the storage of a log. -/
  destroy : LogPath → σ → δ → δ
  /-- A raw file, with the outcomes of the coming calls on it. -/
  rawFile : String → δ → RawFile
  /-- A raw file gets a content. -/
  setRawFile : String → List UInt8 → δ → δ

section Tool

variable {σ δ : Type} (w : World σ δ)

/-- The file that the path of a raw file names. -/
def World.rawPath (path : String) : LogPath := .file (w.resolve path)

/-- What the path of a log names. -/
def World.logPath (path : String) : LogPath :=
  match parseGcsPath path with
  | some (bucket, object) => .object bucket object
  | none => .file (w.resolve path)

/-- `DeleteStoragePath`. -/
def deleteStoragePath (path : String) (d : δ) : Except Status Unit × δ :=
  match parseGcsPath path with
  | some (bucket, object) =>
    match w.deleteObject bucket object d with
    | (.ok _, d) => (.ok (), d)
    | (.error e, d) => if e.code ≠ .notFound then (.error e, d) else (.ok (), d)
  | none =>
    match w.unlink path d with
    | (.failed errno, d) =>
      (.error (errno ("Failed to delete existing local file: " ++ path)), d)
    | (_, d) => (.ok (), d)

/-- `OpenStoragePath`. -/
def openStoragePath (path : String) (d : δ) : Except Status σ × δ :=
  match parseGcsPath path with
  | some (bucket, object) => w.createGcs bucket object d
  | none => w.openLocal path d

/-- `PrintUsage`. -/
def printUsage (prog : String) : List String :=
  ["Usage:\n", "  " ++ prog ++ " import <raw_sqlite3_db> <log_storage_path>\n",
    "  " ++ prog ++ " export <log_storage_path> <raw_sqlite3_db>\n", "\n",
    "Where <log_storage_path> can be a local file or a GCS path " ++
      "starting with gcs:// or gs://\n"]

variable [AppendOnlyStorage σ] [MetadataProto]

/-- The mode `import` of `main`: the exit code and the output. -/
def runImport (rawDb logPath : String) (d : δ) : (ℕ × List String) × δ :=
  let start := "Importing " ++ rawDb ++ " into " ++ logPath ++ "...\n"
  let deleted := deleteStoragePath w logPath d
  let warning :=
    match deleted.1 with
    | .error e => ["Warning: failed to clear existing target log: " ++ e.message ++ "\n"]
    | .ok _ => []
  match openStoragePath w logPath deleted.2 with
  | (.error e, d) =>
    ((1, start :: warning ++ ["Failed to open log storage: " ++ e.message ++ "\n"]), d)
  | (.ok storage, d) =>
    -- the raw file is opened after `Init`, which may have padded the log
    let raw := w.rawFile rawDb (w.stored (w.logPath logPath) (init (.new storage)).2.storage d)
    let imported := importLog raw storage
    let d := w.destroy (w.logPath logPath) imported.2.storage d
    match imported.1 with
    | .error e => ((1, start :: warning ++ ["Import failed: " ++ e.message ++ "\n"]), d)
    | .ok _ => ((0, start :: warning ++ ["Import completed successfully!\n"]), d)

/-- The mode `export` of `main`: the exit code and the output. -/
def runExport (logPath rawDb : String) (d : δ) : (ℕ × List String) × δ :=
  let start := "Exporting " ++ logPath ++ " into " ++ rawDb ++ "...\n"
  match openStoragePath w logPath d with
  | (.error e, d) => ((1, [start, "Failed to open log storage: " ++ e.message ++ "\n"]), d)
  | (.ok storage, d) =>
    let initialized := init (.new storage)
    let raw := w.rawFile rawDb (w.stored (w.logPath logPath) initialized.2.storage d)
    let exported := exportLogOnto (w.share (w.logPath logPath) rawDb) storage raw
    -- a raw file that is not opened stays as it is
    let written :=
      if initialized.1 = .ok () ∧ raw.openError.isNone then w.setRawFile rawDb exported.2.2 d else d
    let d := w.destroy (w.logPath logPath) exported.2.1.storage written
    match exported.1 with
    | .error e => ((1, [start, "Export failed: " ++ e.message ++ "\n"]), d)
    | .ok _ => ((0, [start, "Export completed successfully!\n"]), d)

/-- `main`: the exit code and the output. -/
def main (argv : List String) (d : δ) : (ℕ × List String) × δ :=
  match argv with
  | [prog, mode, first, second] =>
    if mode = "import" then runImport w first second d
    else if mode = "export" then runExport w first second d
    else ((1, printUsage prog), d)
  | argv => ((1, printUsage (argv.headD "")), d)

end Tool

/-! ## The world outside -/

section Laws

variable {σ δ : Type} [AtomicLog σ]

/-- What happens to the logs and the raw files in a call that deletes the log at `p`. -/
structure World.Deletes (w : World σ δ) (log : LogPath → δ → List UInt8) (p : LogPath) (d d' : δ) :
    Prop where
  deleted : log p d' = [] ∨ log p d' = log p d
  others : ∀ q ≠ p, log q d' = log q d
  raws : ∀ path, w.rawPath path ≠ p → (w.rawFile path d').data = (w.rawFile path d).data

/-- What happens in a call that opens the log at `p`: nothing, and the storage has its bytes. -/
structure World.Opens (w : World σ δ) (log : LogPath → δ → List UInt8) (p : LogPath) (d : δ)
    (r : Except Status σ × δ) : Prop where
  storage : ∀ s, r.1 = .ok s → Valid s ∧ bytes s = log p d
  logs : ∀ q, log q r.2 = log q d
  raws : ∀ path, w.rawPath path ≠ p → (w.rawFile path r.2).data = (w.rawFile path d).data

/-- **The laws of the world outside**, in which the file that a path leads to does not change:
deleting a log empties it or does nothing, and opening a log delivers its bytes. When its storage is
destroyed, a log is what the storage has, if it has just been synced; if not, some of what came to it
since it was opened may be missing. Other logs and files are left alone. -/
structure World.Lawful (w : World σ δ) (log : LogPath → δ → List UInt8) : Prop where
  deleteObject_spec : ∀ bucket object d,
    w.Deletes log (.object bucket object) d (w.deleteObject bucket object d).2
  unlink_spec : ∀ path d, w.Deletes log (w.rawPath path) d (w.unlink path d).2
  createGcs_spec : ∀ bucket object d,
    w.Opens log (.object bucket object) d (w.createGcs bucket object d)
  openLocal_spec : ∀ path d, w.Opens log (w.rawPath path) d (w.openLocal path d)
  stored_raw : ∀ p s d path, w.rawPath path ≠ p →
    (w.rawFile path (w.stored p s d)).data = (w.rawFile path d).data
  share_eq : ∀ p path data s, w.rawPath path ≠ p → w.share p path data s = s
  destroy_self : ∀ p s d, ∃ n, (log p d).length ≤ n ∧ log p (w.destroy p s d) = (bytes s).take n
  destroy_synced : ∀ p s d, (AppendOnlyStorage.sync s).1 = .ok () →
    log p (w.destroy p (AppendOnlyStorage.sync s).2 d) = bytes (AppendOnlyStorage.sync s).2
  destroy_log : ∀ p s d, ∀ q ≠ p, log q (w.destroy p s d) = log q d
  destroy_raw : ∀ p s d path, w.rawPath path ≠ p →
    (w.rawFile path (w.destroy p s d)).data = (w.rawFile path d).data
  setRawFile_self : ∀ path data d, (w.rawFile path (w.setRawFile path data d)).data = data
  setRawFile_log : ∀ path data d q, q ≠ w.rawPath path → log q (w.setRawFile path data d) = log q d

variable {w : World σ δ} {log : LogPath → δ → List UInt8}

omit [AtomicLog σ] in
/-- The path of a log in a bucket. -/
lemma logPath_of_some {path bucket object : String}
    (h : parseGcsPath path = some (bucket, object)) : w.logPath path = .object bucket object := by
  rw [World.logPath, h]

omit [AtomicLog σ] in
/-- The path of a log in a local file. -/
lemma logPath_of_none {path : String} (h : parseGcsPath path = none) :
    w.logPath path = w.rawPath path := by
  rw [World.logPath, h, World.rawPath]

/-- `DeleteStoragePath` deletes the log. -/
lemma World.Lawful.delete (hw : w.Lawful log) (path : String) (d : δ) :
    w.Deletes log (w.logPath path) d (deleteStoragePath w path d).2 := by
  rw [deleteStoragePath]
  cases hparse : parseGcsPath path with
  | some p =>
    obtain ⟨bucket, object⟩ := p
    have hspec := hw.deleteObject_spec bucket object d
    rw [logPath_of_some hparse]
    dsimp only
    generalize w.deleteObject bucket object d = r at hspec
    obtain ⟨e | u, d'⟩ := r
    · dsimp only
      split_ifs <;> exact hspec
    · exact hspec
  | none =>
    have hspec := hw.unlink_spec path d
    rw [logPath_of_none hparse]
    dsimp only
    generalize w.unlink path d = r at hspec
    obtain ⟨_ | _ | _, d'⟩ := r <;> exact hspec

/-- `OpenStoragePath` opens the log. -/
lemma World.Lawful.open (hw : w.Lawful log) (path : String) (d : δ) :
    w.Opens log (w.logPath path) d (openStoragePath w path d) := by
  rw [openStoragePath]
  cases hparse : parseGcsPath path with
  | some p =>
    rw [logPath_of_some hparse]
    exact hw.createGcs_spec p.1 p.2 d
  | none =>
    rw [logPath_of_none hparse]
    exact hw.openLocal_spec path d

variable [MetadataProto]

/-- An import changes no other log. -/
lemma runImport_others (hw : w.Lawful log) {rawDb path : String} (d : δ) {q : LogPath}
    (hq : q ≠ w.logPath path) : log q (runImport w rawDb path d).2 = log q d := by
  have hopen := (hw.open path (deleteStoragePath w path d).2).logs q
  have hbefore := hopen.trans ((hw.delete path d).others q hq)
  rw [runImport]
  dsimp only
  generalize openStoragePath w path (deleteStoragePath w path d).2 = r at hbefore
  obtain ⟨e | s, d₁⟩ := r
  · exact hbefore
  · dsimp only
    have hafter := fun t => (hw.destroy_log (w.logPath path) t d₁ q hq).trans hbefore
    generalize importLog _ s = r
    obtain ⟨e | u, m⟩ := r <;> exact hafter m.storage

/-- **What an import leaves behind.** The log stands for what it did, for the empty file, or for the
raw file; and for the raw file if the exit code is 0. -/
theorem import_outcome (hp : MetadataProto.RoundTrips) (hser : MetadataProto.Serializes)
    (hw : w.Lawful log) {rawDb path : String} (hne : w.rawPath rawDb ≠ w.logPath path) (d : δ) :
    (contentOf (log (w.logPath path) (runImport w rawDb path d).2) =
          contentOf (log (w.logPath path) d) ∨
        contentOf (log (w.logPath path) (runImport w rawDb path d).2) = some [] ∨
        contentOf (log (w.logPath path) (runImport w rawDb path d).2) =
          some (w.rawFile rawDb d).data) ∧
      ((runImport w rawDb path d).1.1 = 0 →
        contentOf (log (w.logPath path) (runImport w rawDb path d).2) =
          some (w.rawFile rawDb d).data) := by
  have hdelete := hw.delete path d
  obtain ⟨hstorage, hlogs, hraws⟩ := hw.open path (deleteStoragePath w path d).2
  have hraw := (hraws rawDb hne).trans (hdelete.raws rawDb hne)
  have hdeleted : contentOf (log (w.logPath path) (deleteStoragePath w path d).2) =
        contentOf (log (w.logPath path) d) ∨
      contentOf (log (w.logPath path) (deleteStoragePath w path d).2) = some [] := by
    rcases hdelete.deleted with hempty | hsame
    · rw [hempty]
      exact Or.inr rfl
    · rw [hsame]
      exact Or.inl rfl
  rw [runImport]
  dsimp only
  generalize openStoragePath w path (deleteStoragePath w path d).2 = r at hstorage hlogs hraw
  obtain ⟨e | s, d₁⟩ := r
  · dsimp only at hlogs ⊢
    refine ⟨?_, fun hok => absurd hok one_ne_zero⟩
    rw [hlogs]
    exact hdeleted.imp_right Or.inl
  · obtain ⟨hv, hbytes⟩ := hstorage s rfl
    dsimp only at hraw hlogs ⊢
    have hread := (hw.stored_raw (w.logPath path) (init (new s)).2.storage d₁ rawDb hne).trans hraw
    generalize w.rawFile rawDb (w.stored (w.logPath path) (init (new s)).2.storage d₁) = raw
      at hread
    obtain ⟨after, hafter⟩ : ∃ after, after = log (w.logPath path)
        (w.destroy (w.logPath path) (importLog raw s).2.storage d₁) := ⟨_, rfl⟩
    obtain ⟨n, hn, hself⟩ := hw.destroy_self (w.logPath path) (importLog raw s).2.storage d₁
    rw [hlogs, ← hbytes] at hn
    have hcut := (import_atomic hp hser hv raw hn).1
    rw [← hself, ← hafter, hbytes, hread] at hcut
    have hleft : contentOf after = contentOf (log (w.logPath path) d) ∨
        contentOf after = some [] ∨ contentOf after = some (w.rawFile rawDb d).data := by
      rcases hcut with hsame | hnew
      · rw [hsame]
        exact hdeleted.imp_right Or.inl
      · exact Or.inr (Or.inr hnew)
    have hwhole : (importLog raw s).1 = .ok () →
        contentOf after = some (w.rawFile rawDb d).data := by
      intro hok
      obtain ⟨t, hsync, ht⟩ := importLog_synced hok
      have hatomic := (import_atomic hp hser hv raw (le_max_left (bytes s).length
        (bytes (importLog raw s).2.storage).length)).2 hok (le_max_right _ _)
      rw [List.take_of_length_le (le_max_right _ _), ht] at hatomic
      rw [hafter, ht, hw.destroy_synced _ t d₁ hsync, hatomic, hread]
    generalize importLog raw s = r at hafter hwhole
    obtain ⟨e | u, m⟩ := r
    · dsimp only
      rw [← hafter]
      exact ⟨hleft, fun hok => absurd hok one_ne_zero⟩
    · dsimp only
      rw [← hafter]
      exact ⟨hleft, fun _ => hwhole rfl⟩

omit [MetadataProto] in
/-- A raw file that is not the log is nothing to its storage. -/
lemma share_eq_of_ne (hw : w.Lawful log) {p : LogPath} {path : String} (hne : w.rawPath path ≠ p) :
    w.share p path = fun _ s => s := by
  funext data s
  exact hw.share_eq p path data s hne

/-- An export changes the content of no log, except that of a log that it overwrites. -/
lemma runExport_log (hw : w.Lawful log) {path out : String} (d : δ) {q : LogPath}
    (hq : q ≠ w.rawPath out) :
    contentOf (log q (runExport w path out d).2) = contentOf (log q d) := by
  obtain ⟨hstorage, hlogs, -⟩ := hw.open path d
  rw [runExport]
  dsimp only
  generalize openStoragePath w path d = r at hstorage hlogs
  obtain ⟨e | s, d₁⟩ := r
  · exact congrArg contentOf (hlogs q)
  obtain ⟨hv, hbytes⟩ := hstorage s rfl
  dsimp only at hlogs ⊢
  generalize w.rawFile out (w.stored (w.logPath path) (init (new s)).2.storage d₁) = raw
  obtain ⟨r, hr⟩ : ∃ r, r = exportLogOnto (w.share (w.logPath path) out) s raw := ⟨_, rfl⟩
  rw [← hr]
  obtain ⟨d₂, hd₂⟩ : ∃ d₂, d₂ = if (init (new s)).1 = .ok () ∧ raw.openError.isNone = true then
      w.setRawFile out r.2.2 d₁ else d₁ := ⟨_, rfl⟩
  rw [← hd₂]
  have hwritten : ∀ q', q' ≠ w.rawPath out → log q' d₂ = log q' d := by
    intro q' hq'
    rw [hd₂]
    split_ifs
    · exact (hw.setRawFile_log _ _ _ q' hq').trans (hlogs q')
    · exact hlogs q'
  have hafter : contentOf (log q (w.destroy (w.logPath path) r.2.1.storage d₂)) =
      contentOf (log q d) := by
    by_cases hself : q = w.logPath path
    · -- the log itself, which the export may have padded
      subst hself
      rw [share_eq_of_ne hw (Ne.symm hq)] at hr
      obtain ⟨n, hn, hlog⟩ := hw.destroy_self (w.logPath path) r.2.1.storage d₂
      rw [hwritten _ hq, ← hbytes] at hn
      rw [hlog, ← hbytes, hr]
      rcases (exportLog_cases hv raw).1 with hkeep | hpad
      · rw [show bytes (exportLogOnto (fun _ s => s) s raw).2.1.storage = _ from hkeep,
          List.take_of_length_le hn]
      · rw [show bytes (exportLogOnto (fun _ s => s) s raw).2.1.storage = _ from hpad]
        exact contentOf_of_padded (padded_take hn)
    · rw [hw.destroy_log _ _ _ q hself, hwritten q hq]
  obtain ⟨e | u, m, data⟩ := r <;> exact hafter

/-- An export with the exit code 0 writes the content of the log. -/
lemma runExport_raw (hw : w.Lawful log) {path out : String}
    (hne : w.rawPath out ≠ w.logPath path) (d : δ) (hok : (runExport w path out d).1.1 = 0) :
    contentOf (log (w.logPath path) d) =
      some (w.rawFile out (runExport w path out d).2).data := by
  obtain ⟨hstorage, -, -⟩ := hw.open path d
  rw [runExport, share_eq_of_ne hw hne] at hok ⊢
  dsimp only at hok ⊢
  generalize openStoragePath w path d = r at hstorage hok
  obtain ⟨e | s, d₁⟩ := r
  · exact absurd hok one_ne_zero
  obtain ⟨hv, hbytes⟩ := hstorage s rfl
  dsimp only at hok ⊢
  generalize w.rawFile out (w.stored (w.logPath path) (init (new s)).2.storage d₁) = raw at hok ⊢
  have hwritten := (exportLog_cases hv raw).2
  rw [exportLog] at hwritten
  have hopened : (exportLogOnto (fun _ s => s) s raw).1 = .ok () → _ := exportLogOnto_ok
  generalize exportLogOnto (fun _ s => s) s raw = r at hwritten hopened hok ⊢
  obtain ⟨e | u, m, data⟩ := r
  · exact absurd hok one_ne_zero
  · dsimp only
    rw [if_pos (hopened rfl), hw.destroy_raw _ _ _ out hne, hw.setRawFile_self, ← hbytes]
    exact hwritten rfl

/-! ## Runs of the tool -/

/-- The command does not import into a log, or export over it. -/
def World.Spares (w : World σ δ) (p : LogPath) : List String → Prop
  | [_, mode, _, second] =>
    (mode = "import" → p ≠ w.logPath second) ∧ (mode = "export" → p ≠ w.rawPath second)
  | _ => True

/-- A command that spares a log keeps its content. -/
lemma main_spares (hw : w.Lawful log) {p : LogPath} {argv : List String} (h : w.Spares p argv)
    (d : δ) : contentOf (log p (main w argv d).2) = contentOf (log p d) := by
  unfold main
  split
  · rename_i prog mode first second
    obtain ⟨himport, hexport⟩ := h
    split_ifs with h1 h2
    · exact congrArg contentOf (runImport_others hw d (himport h1))
    · exact runExport_log hw d (hexport h2)
    · rfl
  · rfl

/-- A run of commands that spare a log keeps its content. -/
lemma final_spares (hw : w.Lawful log) {p : LogPath} {runs : List (List String)}
    (h : ∀ argv ∈ runs, w.Spares p argv) (d : δ) :
    contentOf (log p (final (main w) runs d)) = contentOf (log p d) := by
  induction runs generalizing d with
  | nil => rfl
  | cons argv runs ih =>
    exact (ih (fun a ha => h a (List.mem_cons_of_mem _ ha)) _).trans
      (main_spares hw (h argv List.mem_cons_self) d)

/-- **An export writes what the last import read.** After an import with the exit code 0 and any
commands that spare its log, an export of the log with the exit code 0, under any path that names
it, writes the raw file that was imported; neither the raw file nor the output is the log.

**Proof sketch.** The log stands for the raw file (`import_outcome`), the commands between keep what
it stands for (`final_spares`), and an export writes that (`runExport_raw`). -/
theorem import_then_export (hp : MetadataProto.RoundTrips) (hser : MetadataProto.Serializes)
    (hw : w.Lawful log) {prog prog' rawDb path path' out : String} {between : List (List String)}
    (hraw : w.rawPath rawDb ≠ w.logPath path) (hout : w.rawPath out ≠ w.logPath path)
    (hpath : w.logPath path' = w.logPath path)
    (hbetween : ∀ argv ∈ between, w.Spares (w.logPath path) argv) (d : δ)
    (himport : (main w [prog, "import", rawDb, path] d).1.1 = 0)
    (hexport : (main w [prog', "export", path', out]
      (final (main w) ([prog, "import", rawDb, path] :: between) d)).1.1 = 0) :
    (w.rawFile out (final (main w) ([prog, "import", rawDb, path] :: between ++
      [[prog', "export", path', out]]) d)).data = (w.rawFile rawDb d).data := by
  obtain ⟨-, hnew⟩ := import_outcome hp hser hw hraw d
  have hlog := (final_spares hw hbetween (runImport w rawDb path d).2).trans (hnew himport)
  have hwritten := runExport_raw hw (hpath ▸ hout) _ hexport
  rw [hpath] at hwritten
  have hfinal : final (main w) ([prog, "import", rawDb, path] :: between ++
      [[prog', "export", path', out]]) d =
      (runExport w path' out
        (final (main w) between (runImport w rawDb path d).2)).2 := by
    rw [final, List.foldl_append]
    rfl
  rw [hfinal]
  exact Option.some.inj (hwritten.symm.trans hlog)

end Laws

/-- The file that a path leads to, in a directory without links. -/
def resolveDot (path : String) : String :=
  if "./".toList.isPrefixOf path.toList then .ofList (path.toList.drop 2) else path

/-- A world in which no call fails. -/
def calmWorld : World InMemoryStorage (LogPath → List UInt8) where
  resolve := resolveDot
  deleteObject bucket object d := (.ok (), Function.update d (.object bucket object) [])
  unlink path d := (.ok, Function.update d (.file (resolveDot path)) [])
  createGcs bucket object d := (.ok (.ofBytes (d (.object bucket object))), d)
  openLocal path d := (.ok (.ofBytes (d (.file (resolveDot path)))), d)
  stored p s d := Function.update d p s.data
  share p path data s := if LogPath.file (resolveDot path) = p then .ofBytes data else s
  destroy p s d := Function.update d p s.data
  rawFile path d := ⟨path, d (.file (resolveDot path)), none, none, fun _ => .bytes 4095⟩
  setRawFile path data d := Function.update d (.file (resolveDot path)) data

/-- It is lawful. -/
lemma lawful_calmWorld : calmWorld.Lawful fun p d => d p := by
  have hdeletes : ∀ p d, calmWorld.Deletes (fun p (d : LogPath → List UInt8) => d p) p d
      (Function.update d p []) := fun p d =>
    ⟨Or.inl (Function.update_self ..), fun q hq => Function.update_of_ne hq .., fun path hpath =>
      Function.update_of_ne hpath ..⟩
  have hopens : ∀ p d, calmWorld.Opens (fun p (d : LogPath → List UInt8) => d p) p d
      (.ok (InMemoryStorage.ofBytes (d p)), d) := fun p d =>
    ⟨fun s hs => Except.ok.inj hs ▸ ⟨rfl, rfl⟩, fun _ => rfl, fun _ _ => rfl⟩
  exact
    { deleteObject_spec := fun _ _ => hdeletes _
      unlink_spec := fun _ => hdeletes _
      createGcs_spec := fun _ _ => hopens _
      openLocal_spec := fun _ => hopens _
      stored_raw := fun _ _ _ _ hpath => Function.update_of_ne hpath ..
      share_eq := fun _ _ _ _ hpath => if_neg hpath
      destroy_self := fun p s d =>
        ⟨max (d p).length s.data.length, le_max_left _ _,
          (Function.update_self ..).trans (List.take_of_length_le (le_max_right _ _)).symm⟩
      destroy_synced := fun _ _ _ _ => Function.update_self ..
      destroy_log := fun _ _ _ _ hq => Function.update_of_ne hq ..
      destroy_raw := fun _ _ _ _ hpath => Function.update_of_ne hpath ..
      setRawFile_self := fun _ _ _ => Function.update_self ..
      setRawFile_log := fun _ _ _ _ hq => Function.update_of_ne hq .. }

/-- A file of three bytes. -/
def threeBytes : LogPath → List UInt8
  | .file "raw.db" => [1, 2, 3]
  | _ => []

/-- The tool imports a raw file into a log, exports another one, is mistyped, and exports the log
under another path. -/
def spellings (path path' : String) : List (List String) :=
  [["tool", "import", "./raw.db", path], ["tool", "export", "gs://bucket/other", "other.db"],
    ["tool", "exprot"], ["tool", "export", path', "out.db"]]

/-- `import_then_export` for a log in a bucket and for one in a local file, under two paths each. -/
theorem import_then_export_spellings :
    letI := wireProto
    (calmWorld.rawFile "out.db" (final (main calmWorld)
        (spellings "gs://bucket/db" "gcs://bucket/db") threeBytes)).data = [1, 2, 3] ∧
      (calmWorld.rawFile "out.db" (final (main calmWorld)
        (spellings "log.db" "./log.db") threeBytes)).data = [1, 2, 3] := by
  let _ := wireProto
  have hbetween : ∀ p, p ≠ calmWorld.rawPath "other.db" →
      ∀ argv ∈ [["tool", "export", "gs://bucket/other", "other.db"], ["tool", "exprot"]],
        calmWorld.Spares p argv := by
    intro p hp argv hargv
    rcases List.mem_cons.mp hargv with rfl | hargv
    · exact ⟨fun himport => absurd himport (by decide), fun _ => hp⟩
    · obtain rfl := List.mem_singleton.mp hargv
      trivial
  exact ⟨import_then_export wireProto_roundTrips wireProto_serializes lawful_calmWorld (by decide)
      (by decide) (by decide) (hbetween _ (by decide)) threeBytes (by decide +kernel)
      (by decide +kernel),
    import_then_export wireProto_roundTrips wireProto_serializes lawful_calmWorld (by decide)
      (by decide) (by decide) (hbetween _ (by decide)) threeBytes (by decide +kernel)
      (by decide +kernel)⟩

end SqliteGcs.LogTool
