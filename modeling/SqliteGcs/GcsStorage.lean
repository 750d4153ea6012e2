import SqliteGcs.Lib.Bytes
import SqliteGcs.Lib.ObjectStore
import SqliteGcs.Storage

set_option relaxedAutoImplicit false
set_option autoImplicit false

/-!
# The object storage

`GcsRapidStorage` of `gcs_storage.cc`, the storage over one appendable object. `Append` only
buffers; `Sync` hands the buffer to the object's writer and flushes it; `PRead` reads from the
buffer and from a descriptor of the object, which it opens by name, again and again if a read
comes out short. The client library and the service are not part of the repository: what their
calls return is an input of the functions here.

Clearing the buffer before the write is known to have succeeded loses the buffered bytes when it
fails, and the next `Sync` finds nothing to do and succeeds; neither does a later `Sync` repeat a
flush that failed. This file proves when a successful `Sync` does mean that all accepted bytes are
durable.

## Main definitions

* `SqliteGcs.GcsRapidStorage` — the storage, with `create`, `append`, `sync`, `pRead`, `getSize`.
* `SqliteGcs.GcsSession` — a storage, the object, and what was appended so far.
* `SqliteGcs.GcsCall`, `SqliteGcs.runCalls` — calls, and running a list of them.
* `SqliteGcs.AllFlushed` — no data-carrying write failed, and the last one was flushed.

## Main results

* `SqliteGcs.runCalls_cases` — what a run leaves in the object.
* `SqliteGcs.sync_durable_iff` — when a successful `Sync` has made everything durable.
* `SqliteGcs.sync_ok_after_failed_write` — a `Sync` that succeeds after one that lost data.
-/

namespace SqliteGcs

open Bytes
open ObjectStore (Grown)

/-! ## The storage -/

/-- `ConvertStatus`: the codes of the client library have the same names. -/
def convertStatus (s : Status) : Status := ⟨s.code, s.message⟩

/-- An open `ObjectDescriptor`. -/
structure Descriptor where
  /-- The generation that it reads. -/
  generation : ℕ
  /-- The size in its metadata, if it has metadata. -/
  size : Option ℤ
  deriving DecidableEq

/-- `GcsRapidStorage`. -/
structure GcsRapidStorage where
  /-- `bucket_`. -/
  bucket : String
  /-- `object_`. -/
  object : String
  /-- The generation that `writer_` was opened on. -/
  generation : ℕ
  /-- Whether `token_` holds a token. -/
  token : Bool
  /-- `descriptor_`. -/
  descriptor : Option Descriptor
  /-- `initial_offset_`. -/
  initialOffset : ℤ
  /-- `file_length_`. -/
  fileLength : ℤ
  /-- `buffer_`. -/
  buffer : List UInt8

/-- What the calls of one `Sync` return: the error of each that fails. -/
structure SyncCalls where
  /-- `writer_.Write`. -/
  write : Option Status
  /-- `writer_.Flush`. -/
  flush : Option Status

/-- What happens in one iteration of the loop of `PRead`. -/
structure Attempt where
  /-- The object is replaced by these contents before the iteration. -/
  replaced : List (List UInt8)
  /-- What `Open` returns if it is called: an error, or a descriptor whose metadata has this size,
  if it has any. -/
  open_ : Except Status (Option ℤ)
  /-- What the read returns: an error, or at most so many bytes. -/
  read : Except Status ℕ

/-- What the calls of `Create` return, and what happens between them. -/
structure CreateCalls where
  /-- The error of `GetObjectMetadata`, if it fails although the object exists. -/
  metadata : Option Status
  /-- The object is replaced by these contents before the upload is opened. -/
  replacedBeforeUpload : List (List UInt8)
  /-- The error of `ResumeAppendableObjectUpload` or `StartAppendableObjectUpload`. -/
  upload : Option Status
  /-- The object is replaced by these contents before the descriptor is opened. -/
  replacedBeforeOpen : List (List UInt8)
  /-- What `Open` returns. -/
  open_ : Except Status (Option ℤ)

/-- Replacements of the object by compactions, which find it if it exists. -/
def replaceAll (replaced : List (List UInt8)) (store : ObjectStore UInt8) : ObjectStore UInt8 :=
  replaced.foldl (fun store data => if store.live.isSome then store.create data else store) store

/-- The status of a call on an object that does not exist. -/
def objectNotFound : Status := ⟨.notFound, "Object not found"⟩

namespace GcsRapidStorage

/-- `Append`. -/
def append (data : List UInt8) (s : GcsRapidStorage) : Except Status ℤ × GcsRapidStorage :=
  let writeOffset := s.fileLength
  if data.length > 0 then
    (.ok writeOffset, { s with
      buffer := s.buffer ++ data
      fileLength := s.fileLength + data.length })
  else (.ok writeOffset, s)

/-- `Sync`. The buffer and the token are moved into the call of `Write`. -/
def sync (calls : SyncCalls) (s : GcsRapidStorage) (store : ObjectStore UInt8) :
    Except Status Unit × GcsRapidStorage × ObjectStore UInt8 :=
  if s.buffer = [] then (.ok (), s, store)
  else
    let payload := s.buffer
    let s := { s with buffer := [], token := false }
    match calls.write with
    | some e => (.error (convertStatus e), s, store)
    | none =>
      let store := store.append s.generation payload
      let s := { s with token := true }
      match calls.flush with
      | some e => (.error (convertStatus e), s, store)
      | none => (.ok (), s, store.flush s.generation)

/-- `async_client_->Open` without a generation, and the assignment of `descriptor_`. -/
def openDescriptor (result : Except Status (Option ℤ)) (s : GcsRapidStorage)
    (store : ObjectStore UInt8) : Except Status Unit × GcsRapidStorage :=
  match result, store.live with
  | .error e, _ => (.error (convertStatus e), s)
  | .ok _, none => (.error (convertStatus objectNotFound), s)
  | .ok size, some g =>
    (.ok (), { s with descriptor := some ⟨g, size⟩ })

/-- `ReadDescriptorRange`. -/
def readDescriptorRange (result : Except Status ℕ) (descriptor : Descriptor) (offset : ℤ)
    (limit : ℕ) (store : ObjectStore UInt8) : Except Status (List UInt8) :=
  match result with
  | .error e => .error (convertStatus e)
  | .ok k => .ok (slice offset.toNat (min k limit) (store.contents descriptor.generation))

/-- Whether an iteration of the loop of `PRead` opens the descriptor anew: there is none, its size
is too small for the read, or it is not the first iteration. -/
def Reopens (offset : ℤ) (gcsReadSize attempt : ℕ) (s : GcsRapidStorage) : Prop :=
  let currentDescSize := (s.descriptor.bind Descriptor.size).getD 0
  s.descriptor = none ∨ offset + gcsReadSize > currentDescSize ∨ attempt > 1

instance (offset : ℤ) (gcsReadSize attempt : ℕ) (s : GcsRapidStorage) :
    Decidable (s.Reopens offset gcsReadSize attempt) :=
  inferInstanceAs (Decidable (_ ∨ _ ∨ _))

/-- The body of the loop of `PRead`: a result, or none if the read came out short or out of range
and is to be made again. -/
def pReadAttempt (offset : ℤ) (gcsReadSize attempt : ℕ) (calls : Attempt) (s : GcsRapidStorage)
    (store : ObjectStore UInt8) : Option (Except Status (List UInt8)) × GcsRapidStorage :=
  let (opened, s) :=
    if s.Reopens offset gcsReadSize attempt then s.openDescriptor calls.open_ store
    else (.ok (), s)
  match s.descriptor with
  | none =>
    match opened with
    | .error e => (some (.error e), s)
    | .ok _ => (none, s)
  | some descriptor =>
    -- if the descriptor could not be opened anew, the old one is used
    match readDescriptorRange calls.read descriptor offset gcsReadSize store with
    | .error e =>
      if e.code = .outOfRange then (none, s)
      else (some (.error ⟨e.code, s!"GcsRapidStorage::PRead read failed: {e.message}"⟩), s)
    | .ok data => if data.length < gcsReadSize then (none, s) else (some (.ok data), s)

/-- The loop of `PRead`. The first argument is the number of iterations that may follow this one:
there are at most `kMaxAttempts = 15`. -/
def pReadLoop (offset : ℤ) (gcsReadSize remaining : ℕ) (attempts : List Attempt)
    (s : GcsRapidStorage) (store : ObjectStore UInt8) :
    Except Status (List UInt8) × GcsRapidStorage × ObjectStore UInt8 :=
  let calls := attempts.headD ⟨[], .ok none, .ok gcsReadSize⟩
  let store := replaceAll calls.replaced store
  match s.pReadAttempt offset gcsReadSize (15 - remaining) calls store with
  | (some result, s) => (result, s, store)
  | (none, s) =>
    match remaining with
    | 0 =>
      (.error ⟨.deadlineExceeded,
        s!"Timed out waiting for GCS object to be readable at offset {offset} " ++
          s!"size {gcsReadSize}"⟩, s, store)
    | remaining + 1 => pReadLoop offset gcsReadSize remaining attempts.tail s store

/-- `PRead`. No buffer is longer than `2 ^ 63 - 1` bytes, so the sums of the source do not wrap. -/
def pRead (size : ℕ) (offset : ℤ) (attempts : List Attempt) (s : GcsRapidStorage)
    (store : ObjectStore UInt8) :
    Except Status (List UInt8) × GcsRapidStorage × ObjectStore UInt8 :=
  if offset < 0 then (.error ⟨.invalidArgument, "Offset cannot be negative"⟩, s, store)
  else if offset + size > s.fileLength then
    (.error ⟨.outOfRange, s!"Attempted to read past EOF (offset={offset}, size={size}, " ++
      s!"file_length={s.fileLength})"⟩, s, store)
  else
    let bufferStartOffset := s.fileLength - s.buffer.length
    if offset ≥ bufferStartOffset then
      (.ok (slice (offset - bufferStartOffset).toNat size s.buffer), s, store)
    else
      let gcsReadSize :=
        if offset + size > bufferStartOffset then (bufferStartOffset - offset).toNat else size
      let bufferReadSize :=
        if offset + size > bufferStartOffset then (offset + size - bufferStartOffset).toNat else 0
      match pReadLoop offset gcsReadSize 14 attempts s store with
      | (.error e, s, store) => (.error e, s, store)
      | (.ok data, s, store) => (.ok (data ++ s.buffer.take bufferReadSize), s, store)

/-- `GetSize`. -/
def getSize (s : GcsRapidStorage) : Except Status ℤ := .ok s.fileLength

/-- The constructor, on a writer of a generation and the persisted size that it reports, whichever
of its two forms that takes. -/
def ofWriter (bucket object : String) (generation : ℕ) (store : ObjectStore UInt8) :
    GcsRapidStorage :=
  let size : ℤ := (store.contents generation).length
  ⟨bucket, object, generation, true, none, size, size, []⟩

/-- The part of `Create` for an object that exists: the upload is resumed, and a descriptor is
opened. -/
def createResumed (bucket object : String) (generation : ℕ) (calls : CreateCalls)
    (store : ObjectStore UInt8) : Except Status GcsRapidStorage × ObjectStore UInt8 :=
  match calls.upload with
  | some e => (.error ⟨(convertStatus e).code, s!"Failed to resume appendable upload for " ++
      s!"bucket={bucket} object={object} generation={generation}: {e.message}"⟩, store)
  | none =>
    let s := ofWriter bucket object generation store
    let store := replaceAll calls.replacedBeforeOpen store
    match s.openDescriptor calls.open_ store with
    | (.error e, _) => (.error ⟨e.code, s!"Failed to open GCS object descriptor for " ++
        s!"bucket={bucket} object={object}: {e.message}"⟩, store)
    | (.ok _, s) => (.ok s, store)

/-- The part of `Create` for an object whose metadata cannot be read: if there is none, an upload is
started. If that fails, the source takes the generation for its message from the metadata that it
does not have, which is undefined behaviour; here it returns the error without a generation. -/
def createStarted (bucket object : String) (e : Status) (calls : CreateCalls)
    (store : ObjectStore UInt8) : Except Status GcsRapidStorage × ObjectStore UInt8 :=
  if e.code ≠ .notFound then
    (.error ⟨(convertStatus e).code, s!"Failed to get GCS object metadata for " ++
      s!"bucket={bucket} object={object}: {e.message}"⟩, store)
  else
    match calls.upload with
    -- undefined in the source, which evaluates `metadata->generation()` of a `StatusOr` error
    | some e => (.error ⟨(convertStatus e).code, s!"Failed to resume appendable upload for " ++
        s!"bucket={bucket} object={object} generation=: {e.message}"⟩, store)
    | none => (.ok (ofWriter bucket object store.next (store.create [])), store.create [])

/-- `Create`. -/
def create (bucket object : String) (calls : CreateCalls) (store : ObjectStore UInt8) :
    Except Status GcsRapidStorage × ObjectStore UInt8 :=
  let metadata : Except Status ℕ :=
    match calls.metadata, store.live with
    | some e, _ => .error e
    | none, none => .error objectNotFound
    | none, some g => .ok g
  let store := replaceAll calls.replacedBeforeUpload store
  match metadata with
  | .ok generation => createResumed bucket object generation calls store
  | .error e => createStarted bucket object e calls store

end GcsRapidStorage

/-! ## What other processes leave alone -/

/-- Replacements leave the generations that exist alone. -/
lemma grown_replaceAll (replaced : List (List UInt8)) (store : ObjectStore UInt8) :
    Grown store (replaceAll replaced store) := by
  induction replaced generalizing store with
  | nil => exact Grown.refl store
  | cons data replaced ih =>
    rw [replaceAll, List.foldl_cons, ← replaceAll]
    split_ifs
    · exact (ObjectStore.grown_create data store).trans (ih (store.create data))
    · exact ih store

namespace GcsRapidStorage

/-- Opening a descriptor changes nothing but the descriptor. -/
lemma openDescriptor_frame (result : Except Status (Option ℤ)) (s : GcsRapidStorage)
    (store : ObjectStore UInt8) :
    ∃ d, (openDescriptor result s store).2 = { s with descriptor := d } := by
  unfold openDescriptor
  cases result with
  | error e => exact ⟨s.descriptor, rfl⟩
  | ok size =>
    cases store.live with
    | none => exact ⟨s.descriptor, rfl⟩
    | some g => exact ⟨_, rfl⟩

/-- **One iteration of `PRead`** leaves the storage as the opening of the descriptor does, if there
is one, and the bytes it returns are those of the generation that the descriptor reads. -/
lemma pReadAttempt_spec (offset : ℤ) (gcsReadSize attempt : ℕ) (calls : Attempt)
    (s : GcsRapidStorage) (store : ObjectStore UInt8) :
    (pReadAttempt offset gcsReadSize attempt calls s store).2 =
        (if s.Reopens offset gcsReadSize attempt then (s.openDescriptor calls.open_ store).2
          else s) ∧
      ∀ data, (pReadAttempt offset gcsReadSize attempt calls s store).1 = some (.ok data) →
        ∃ d, (pReadAttempt offset gcsReadSize attempt calls s store).2.descriptor = some d ∧
          data = slice offset.toNat gcsReadSize (store.contents d.generation) ∧
          data.length = gcsReadSize := by
  have hopen : ∃ opened s', (if s.Reopens offset gcsReadSize attempt then
        s.openDescriptor calls.open_ store else (.ok (), s)) = (opened, s') ∧
      s' = if s.Reopens offset gcsReadSize attempt then (s.openDescriptor calls.open_ store).2
        else s := by
    split_ifs
    · exact ⟨_, _, rfl, rfl⟩
    · exact ⟨_, _, rfl, rfl⟩
  obtain ⟨opened, s', hs', hstate⟩ := hopen
  rw [pReadAttempt, hs', ← hstate]
  dsimp only
  cases hd : s'.descriptor with
  | none =>
    cases opened with
    | error e => exact ⟨rfl, fun data h => by cases h⟩
    | ok u => exact ⟨rfl, fun data h => by cases h⟩
  | some descriptor =>
    dsimp only
    cases hr : calls.read with
    | error e =>
      dsimp only [readDescriptorRange]
      split_ifs
      · exact ⟨rfl, fun data h => by cases h⟩
      · exact ⟨rfl, fun data h => by cases h⟩
    | ok k =>
      dsimp only [readDescriptorRange]
      split_ifs with hshort
      · exact ⟨rfl, fun data h => by cases h⟩
      · refine ⟨rfl, fun data h => ⟨descriptor, hd, ?_⟩⟩
        obtain rfl := Except.ok.inj (Option.some.inj h)
        rw [length_slice] at hshort
        have hk : min k gcsReadSize = gcsReadSize := by omega
        rw [hk]
        refine ⟨rfl, ?_⟩
        rw [length_slice]
        omega

/-- One iteration of `PRead` changes nothing but the descriptor. -/
lemma pReadAttempt_frame (offset : ℤ) (gcsReadSize attempt : ℕ) (calls : Attempt)
    (s : GcsRapidStorage) (store : ObjectStore UInt8) :
    ∃ d, (pReadAttempt offset gcsReadSize attempt calls s store).2 =
      { s with descriptor := d } := by
  rw [(pReadAttempt_spec offset gcsReadSize attempt calls s store).1]
  split_ifs
  · exact openDescriptor_frame calls.open_ s store
  · exact ⟨s.descriptor, rfl⟩

/-- **The rule for the loop of `PRead`**: if an iteration that starts in `I` either ends the loop in
`Q`, or is the last one and any error is in `Q`, or goes on in `I`, then the loop ends in `Q`.

**Proof sketch.** Induction on the number of iterations left. -/
lemma pReadLoop_rule {offset : ℤ} {gcsReadSize : ℕ}
    {I : ℕ → List Attempt → GcsRapidStorage → ObjectStore UInt8 → Prop}
    {Q : Except Status (List UInt8) → GcsRapidStorage → ObjectStore UInt8 → Prop}
    (hstep : ∀ remaining attempts s store calls store' r s', I remaining attempts s store →
      calls = attempts.headD ⟨[], .ok none, .ok gcsReadSize⟩ →
      store' = replaceAll calls.replaced store →
      pReadAttempt offset gcsReadSize (15 - remaining) calls s store' = (r, s') →
      (∀ result, r = some result → Q result s' store') ∧
        (r = none → remaining = 0 → ∀ e, Q (.error e) s' store') ∧
          ∀ n, r = none → remaining = n + 1 → I n attempts.tail s' store')
    {remaining : ℕ} {attempts : List Attempt} {s : GcsRapidStorage} {store : ObjectStore UInt8}
    (h : I remaining attempts s store) :
    Q (pReadLoop offset gcsReadSize remaining attempts s store).1
      (pReadLoop offset gcsReadSize remaining attempts s store).2.1
      (pReadLoop offset gcsReadSize remaining attempts s store).2.2 := by
  induction remaining generalizing attempts s store with
  | zero =>
    unfold pReadLoop
    dsimp only
    generalize hp : pReadAttempt offset gcsReadSize (15 - 0) _ s _ = p
    obtain ⟨r, s'⟩ := p
    obtain ⟨hsome, hlast, -⟩ := hstep 0 attempts s store _ _ r s' h rfl rfl hp
    cases r with
    | none => exact hlast rfl rfl _
    | some result => exact hsome result rfl
  | succ remaining ih =>
    unfold pReadLoop
    dsimp only
    generalize hp : pReadAttempt offset gcsReadSize (15 - (remaining + 1)) _ s _ = p
    obtain ⟨r, s'⟩ := p
    obtain ⟨hsome, -, hnext⟩ := hstep (remaining + 1) attempts s store _ _ r s' h rfl rfl hp
    cases r with
    | none => exact ih (hnext remaining rfl rfl)
    | some result => exact hsome result rfl

/-- **The loop of `PRead`** changes nothing but the descriptor, and the bytes it returns are those
of the generation that its last descriptor reads. -/
lemma pReadLoop_spec (offset : ℤ) (gcsReadSize remaining : ℕ) (attempts : List Attempt)
    (s : GcsRapidStorage) (store : ObjectStore UInt8) :
    (∃ d, (pReadLoop offset gcsReadSize remaining attempts s store).2.1 =
        { s with descriptor := d }) ∧
      Grown store (pReadLoop offset gcsReadSize remaining attempts s store).2.2 ∧
      ∀ data, (pReadLoop offset gcsReadSize remaining attempts s store).1 = .ok data →
        ∃ d, (pReadLoop offset gcsReadSize remaining attempts s store).2.1.descriptor = some d ∧
          data = slice offset.toNat gcsReadSize
            ((pReadLoop offset gcsReadSize remaining attempts s store).2.2.contents
              d.generation) ∧
          data.length = gcsReadSize := by
  refine pReadLoop_rule
    (I := fun _ _ s₁ store₁ => (∃ d, s₁ = { s with descriptor := d }) ∧ Grown store store₁)
    (Q := fun result s₁ store₁ => (∃ d, s₁ = { s with descriptor := d }) ∧ Grown store store₁ ∧
      ∀ data, result = .ok data → ∃ d, s₁.descriptor = some d ∧
        data = slice offset.toNat gcsReadSize (store₁.contents d.generation) ∧
        data.length = gcsReadSize)
    ?_ ⟨⟨s.descriptor, rfl⟩, Grown.refl store⟩
  rintro n attempts s₁ store₁ calls store₂ r s₂ ⟨⟨d₁, rfl⟩, hgrown⟩ - rfl hp
  have hframe := pReadAttempt_frame offset gcsReadSize (15 - n) calls
    { s with descriptor := d₁ } (replaceAll calls.replaced store₁)
  have hdata := (pReadAttempt_spec offset gcsReadSize (15 - n) calls
    { s with descriptor := d₁ } (replaceAll calls.replaced store₁)).2
  rw [hp] at hframe hdata
  replace hgrown := hgrown.trans (grown_replaceAll calls.replaced store₁)
  refine ⟨?_, ?_, ?_⟩
  · rintro result rfl
    exact ⟨hframe, hgrown, fun data h => hdata data (congrArg some h)⟩
  · exact fun _ _ e => ⟨hframe, hgrown, fun data h => by cases h⟩
  · exact fun _ _ _ => ⟨hframe, hgrown⟩

/-- **What `PRead` does**: it changes nothing but the descriptor, and the bytes that it returns
come from the buffer or from the generation that its last descriptor reads. -/
lemma pRead_spec (size : ℕ) (offset : ℤ) (attempts : List Attempt) (s : GcsRapidStorage)
    (store : ObjectStore UInt8) :
    (∃ d, (pRead size offset attempts s store).2.1 = { s with descriptor := d }) ∧
      Grown store (pRead size offset attempts s store).2.2 := by
  have hsame : (∃ d, s = { s with descriptor := d }) ∧ Grown store store :=
    ⟨⟨s.descriptor, rfl⟩, Grown.refl store⟩
  rw [pRead]
  by_cases h0 : offset < 0
  · rw [if_pos h0]
    exact hsame
  by_cases h1 : offset + size > s.fileLength
  · rw [if_neg h0, if_pos h1]
    exact hsame
  rw [if_neg h0, if_neg h1]
  dsimp only
  by_cases h2 : offset ≥ s.fileLength - s.buffer.length
  · rw [if_pos h2]
    exact hsame
  rw [if_neg h2]
  generalize (if offset + size > s.fileLength - s.buffer.length then
    (s.fileLength - s.buffer.length - offset).toNat else size) = n
  obtain ⟨hframe, hgrown, -⟩ := pReadLoop_spec offset n 14 attempts s store
  generalize pReadLoop offset n 14 attempts s store = p at hframe hgrown
  obtain ⟨r, s', store'⟩ := p
  cases r <;> exact ⟨hframe, hgrown⟩

end GcsRapidStorage

/-! ## Sessions -/

/-- A storage in use. -/
structure GcsSession where
  /-- The storage. -/
  storage : GcsRapidStorage
  /-- The object. -/
  store : ObjectStore UInt8
  /-- The bytes of the object when the session opened it. -/
  base : List UInt8
  /-- What was appended so far, with the offsets that `Append` returned. -/
  accepted : List (ℤ × List UInt8)

namespace GcsSession

/-- What the writer's generation holds. -/
def written (w : GcsSession) : List UInt8 := w.store.contents w.storage.generation

/-- How much of it is durable. -/
def durable (w : GcsSession) : ℕ := w.store.durable w.storage.generation

/-- The log that the session opened and appended to. -/
def log (w : GcsSession) : List UInt8 := w.base ++ (w.accepted.map Prod.snd).flatten

end GcsSession

/-- A call of a storage, or a compaction by another process. -/
inductive GcsCall
  | append (data : List UInt8)
  | sync (calls : SyncCalls)
  | pRead (size : ℕ) (offset : ℤ) (attempts : List Attempt)
  | replace (contents : List UInt8)

/-- The session after a call. -/
def GcsCall.run : GcsCall → GcsSession → GcsSession
  | .append data, w =>
    match w.storage.append data with
    | (.ok offset, s) => { w with storage := s, accepted := w.accepted ++ [(offset, data)] }
    | (.error _, s) => { w with storage := s }
  | .sync calls, w =>
    let (_, s, store) := w.storage.sync calls w.store
    { w with storage := s, store := store }
  | .pRead size offset attempts, w =>
    let (_, s, store) := w.storage.pRead size offset attempts w.store
    { w with storage := s, store := store }
  | .replace contents, w => { w with store := replaceAll [contents] w.store }

/-- The session after a list of calls. -/
def runCalls (calls : List GcsCall) (w : GcsSession) : GcsSession :=
  calls.foldl (fun w call => call.run w) w

/-- The session that `Create` starts. -/
structure GcsSession.Opened (w : GcsSession) : Prop where
  generation_lt : w.storage.generation < w.store.next
  buffer_eq : w.storage.buffer = []
  fileLength_eq : w.storage.fileLength = w.base.length
  base_eq : w.base = w.written
  accepted_eq : w.accepted = []

/-- A new object that `Create` starts. -/
lemma createStarted_ok {bucket object : String} {e : Status} {calls : CreateCalls}
    {store store' : ObjectStore UInt8} {s : GcsRapidStorage}
    (h : GcsRapidStorage.createStarted bucket object e calls store = (.ok s, store')) :
    store' = store.create [] ∧ s = .ofWriter bucket object store.next store' := by
  unfold GcsRapidStorage.createStarted at h
  by_cases he : e.code ≠ .notFound
  · rw [if_pos he] at h
    cases h
  rw [if_neg he] at h
  cases hu : calls.upload with
  | some e' => rw [hu] at h; cases h
  | none =>
    rw [hu] at h
    obtain ⟨h1, rfl⟩ := Prod.mk.inj h
    exact ⟨rfl, (Except.ok.inj h1).symm⟩

/-- An upload that `Create` resumes, with a descriptor of the generation that is current then. -/
lemma createResumed_ok {bucket object : String} {g : ℕ} {calls : CreateCalls}
    {store store' : ObjectStore UInt8} {s : GcsRapidStorage}
    (h : GcsRapidStorage.createResumed bucket object g calls store = (.ok s, store')) :
    store' = replaceAll calls.replacedBeforeOpen store ∧ ∃ g' size, store'.live = some g' ∧
      s = { GcsRapidStorage.ofWriter bucket object g store with
        descriptor := some ⟨g', size⟩ } := by
  unfold GcsRapidStorage.createResumed at h
  cases hu : calls.upload with
  | some e => rw [hu] at h; cases h
  | none =>
    rw [hu] at h
    dsimp only at h
    generalize replaceAll calls.replacedBeforeOpen store = st at h ⊢
    unfold GcsRapidStorage.openDescriptor at h
    cases ho : calls.open_ with
    | error e => rw [ho] at h; cases h
    | ok size =>
      cases hl : st.live with
      | none => rw [ho, hl] at h; cases h
      | some g' =>
        rw [ho, hl] at h
        obtain ⟨h1, rfl⟩ := Prod.mk.inj h
        exact ⟨rfl, g', size, hl, (Except.ok.inj h1).symm⟩

/-- **A successful `Create`** has a writer of a generation that exists, at its end, and a descriptor
if the object existed: of the generation that is current then. -/
lemma create_ok {bucket object : String} {calls : CreateCalls} {store store' : ObjectStore UInt8}
    {s : GcsRapidStorage} (h : GcsRapidStorage.create bucket object calls store = (.ok s, store')) :
    s.generation < store'.next ∧ s.buffer = [] ∧ s.token = true ∧
      s.fileLength = (store'.contents s.generation).length ∧
      (s.descriptor = none ∨ calls.metadata = none ∧ store.live = some s.generation ∧
        store' = replaceAll calls.replacedBeforeOpen
          (replaceAll calls.replacedBeforeUpload store) ∧
        ∃ d, s.descriptor = some d ∧ store'.live = some d.generation) := by
  unfold GcsRapidStorage.create at h
  dsimp only at h
  have hgrown := grown_replaceAll calls.replacedBeforeUpload store
  have hstarted : ∀ e, GcsRapidStorage.createStarted bucket object e calls
      (replaceAll calls.replacedBeforeUpload store) = (.ok s, store') →
      s.generation < store'.next ∧ s.buffer = [] ∧ s.token = true ∧
        s.fileLength = (store'.contents s.generation).length ∧ s.descriptor = none := by
    intro e he
    obtain ⟨hstore, rfl⟩ := createStarted_ok he
    refine ⟨?_, rfl, rfl, rfl, rfl⟩
    rw [hstore]
    exact Nat.lt_succ_self _
  cases hm : calls.metadata with
  | some e =>
    rw [hm] at h
    obtain ⟨h1, h2, h3, h4, h5⟩ := hstarted e h
    exact ⟨h1, h2, h3, h4, Or.inl h5⟩
  | none =>
    cases hl : store.live with
    | none =>
      rw [hm, hl] at h
      obtain ⟨h1, h2, h3, h4, h5⟩ := hstarted objectNotFound h
      exact ⟨h1, h2, h3, h4, Or.inl h5⟩
    | some g =>
      rw [hm, hl] at h
      obtain ⟨hstore, g', size, hl', rfl⟩ := createResumed_ok h
      have hgrown' := grown_replaceAll calls.replacedBeforeOpen
        (replaceAll calls.replacedBeforeUpload store)
      rw [← hstore] at hgrown'
      have hlt := (hgrown g (store.live_lt g hl)).1
      refine ⟨(hgrown' g hlt).1, rfl, rfl, ?_, Or.inr ⟨rfl, rfl, hstore, _, rfl, hl'⟩⟩
      exact congrArg (fun l : List UInt8 => (l.length : ℤ)) (hgrown' g hlt).2.1.symm

/-- The session that `Create` starts. -/
lemma opened_of_create {bucket object : String} {calls : CreateCalls}
    {store store' : ObjectStore UInt8} {s : GcsRapidStorage}
    (h : GcsRapidStorage.create bucket object calls store = (.ok s, store')) :
    (⟨s, store', store'.contents s.generation, []⟩ : GcsSession).Opened := by
  obtain ⟨h1, h2, -, h3, -⟩ := create_ok h
  exact ⟨h1, h2, h3, rfl, rfl⟩

/-! ## Durability -/

/-- Every byte that was accepted is in the object where `Append` said, and is durable. -/
def GcsSession.AllDurable (w : GcsSession) : Prop :=
  ∀ p ∈ w.accepted, p.2 ≠ [] →
    0 ≤ p.1 ∧ slice p.1.toNat p.2.length w.written = p.2 ∧ p.1 + p.2.length ≤ w.durable

/-- No `Write` of data failed, and the last one was followed by a successful `Flush`. The first two
arguments say whether there is data that no `Write` has been called for, and whether the last
`Write` was flushed. -/
def AllFlushed : Bool → Bool → List GcsCall → Prop
  | _, flushed, [] => flushed = true
  | unsent, flushed, .append data :: calls => AllFlushed (unsent || data ≠ []) flushed calls
  | unsent, flushed, .sync o :: calls =>
    if unsent then o.write = none ∧ AllFlushed false o.flush.isNone calls
    else AllFlushed false flushed calls
  | unsent, flushed, .pRead _ _ _ :: calls => AllFlushed unsent flushed calls
  | unsent, flushed, .replace _ :: calls => AllFlushed unsent flushed calls

/-- **A session that has lost nothing**: the object and the buffer together hold what was accepted,
where `Append` said. -/
structure Intact (unsent flushed : Bool) (w : GcsSession) : Prop where
  generation_lt : w.storage.generation < w.store.next
  unsent_iff : unsent = true ↔ w.storage.buffer ≠ []
  length_eq : w.storage.fileLength = w.written.length + w.storage.buffer.length
  placed : ∀ p ∈ w.accepted, 0 ≤ p.1 ∧ p.1 + p.2.length ≤ w.storage.fileLength ∧
    slice p.1.toNat p.2.length (w.written ++ w.storage.buffer) = p.2
  last : w.storage.buffer ≠ [] → ∃ p ∈ w.accepted, p.2 ≠ [] ∧
    p.1 + p.2.length = w.storage.fileLength
  durable : flushed = true → ∀ p ∈ w.accepted, p.2 ≠ [] →
    p.1 + p.2.length ≤ w.written.length → p.1 + p.2.length ≤ w.durable
  undurable : flushed = false → ∃ p ∈ w.accepted, p.2 ≠ [] ∧ (w.durable : ℤ) < p.1 + p.2.length

/-- **A session that has lost data**: the object and the buffer are shorter than what was
accepted. -/
structure Lost (w : GcsSession) : Prop where
  generation_lt : w.storage.generation < w.store.next
  short : (w.written.length : ℤ) + w.storage.buffer.length < w.storage.fileLength
  last : ∃ p ∈ w.accepted, p.2 ≠ [] ∧ p.1 + p.2.length = w.storage.fileLength

/-- The session that `Create` starts has lost nothing. -/
lemma intact_opened {w : GcsSession} (h : w.Opened) : Intact false true w where
  generation_lt := h.generation_lt
  unsent_iff := by simp [h.buffer_eq]
  length_eq := by rw [h.fileLength_eq, h.buffer_eq, h.base_eq]; simp
  placed := by simp [h.accepted_eq]
  last := fun hne => absurd h.buffer_eq hne
  durable := by simp [h.accepted_eq]
  undurable := fun hf => by cases hf

/-! ### Step by step -/

/-- A call of `Append`. -/
lemma run_append (data : List UInt8) (w : GcsSession) :
    (GcsCall.append data).run w = { w with
      storage := { w.storage with
        buffer := w.storage.buffer ++ data
        fileLength := w.storage.fileLength + data.length }
      accepted := w.accepted ++ [(w.storage.fileLength, data)] } := by
  rw [GcsCall.run, GcsRapidStorage.append]
  by_cases hpos : data.length > 0
  · dsimp only
    rw [if_pos hpos]
  · obtain rfl : data = [] := List.length_eq_zero_iff.mp (by omega)
    simp

/-- A call of `Sync` with nothing buffered. -/
lemma run_sync_of_nil {w : GcsSession} (h : w.storage.buffer = []) (o : SyncCalls) :
    w.storage.sync o w.store = (.ok (), w.storage, w.store) ∧ (GcsCall.sync o).run w = w := by
  have hs : w.storage.sync o w.store = (.ok (), w.storage, w.store) := by
    rw [GcsRapidStorage.sync, if_pos h]
  exact ⟨hs, by rw [GcsCall.run, hs]⟩

/-- A call of `Sync` whose `Write` fails drops the buffer. -/
lemma run_sync_of_error {w : GcsSession} (h : w.storage.buffer ≠ []) {o : SyncCalls} {e : Status}
    (ho : o.write = some e) :
    (w.storage.sync o w.store).1 = .error (convertStatus e) ∧
      (GcsCall.sync o).run w =
        { w with storage := { w.storage with buffer := [], token := false } } := by
  have hs : w.storage.sync o w.store = (.error (convertStatus e),
      { w.storage with buffer := [], token := false }, w.store) := by
    rw [GcsRapidStorage.sync, if_neg h, ho]
  exact ⟨by rw [hs], by rw [GcsCall.run, hs]⟩

/-- A call of `Sync` whose `Write` succeeds extends the object by the buffer. -/
lemma run_sync_of_write {w : GcsSession} (h : w.storage.buffer ≠ []) {o : SyncCalls}
    (ho : o.write = none) :
    ((w.storage.sync o w.store).1 = .ok () ↔ o.flush = none) ∧
      ∃ store, (GcsCall.sync o).run w = { w with
          storage := { w.storage with buffer := [], token := true }
          store := store } ∧
        store.next = w.store.next ∧ store.live = w.store.live ∧
        (∀ g, g ≠ w.storage.generation → store.contents g = w.store.contents g) ∧
        store.contents w.storage.generation = w.written ++ w.storage.buffer ∧
        store.durable w.storage.generation =
          if o.flush = none then w.written.length + w.storage.buffer.length else w.durable := by
  rw [GcsCall.run, GcsRapidStorage.sync, if_neg h, ho]
  dsimp only
  have hself := ObjectStore.contents_append_self w.storage.generation w.storage.buffer w.store
  have hne : ∀ g, g ≠ w.storage.generation →
      (w.store.append w.storage.generation w.storage.buffer).contents g = w.store.contents g :=
    fun g hg => ObjectStore.contents_append_of_ne hg _ _
  cases hf : o.flush with
  | none =>
    refine ⟨by simp, _, rfl, rfl, rfl, hne, hself, ?_⟩
    rw [if_pos rfl, ObjectStore.durable_flush_self, hself, List.length_append]
    rfl
  | some e =>
    refine ⟨by simp, _, rfl, rfl, rfl, hne, hself, ?_⟩
    rw [if_neg (by simp)]
    rfl

/-- A call that neither appends nor syncs leaves the writer's generation alone. -/
structure Unwritten (w w' : GcsSession) : Prop where
  frame : ∃ d, w'.storage = { w.storage with descriptor := d }
  grown : Grown w.store w'.store
  base_eq : w'.base = w.base
  accepted_eq : w'.accepted = w.accepted

/-- Reads and compactions by others are such calls. -/
lemma unwritten_run (call : GcsCall) (w : GcsSession)
    (h : (∃ size offset attempts, call = .pRead size offset attempts) ∨
      ∃ contents, call = .replace contents) : Unwritten w (call.run w) := by
  rcases h with ⟨size, offset, attempts, rfl⟩ | ⟨contents, rfl⟩
  · obtain ⟨hframe, hgrown⟩ := w.storage.pRead_spec size offset attempts w.store
    exact ⟨hframe, hgrown, rfl, rfl⟩
  · exact ⟨⟨_, rfl⟩, grown_replaceAll [contents] w.store, rfl, rfl⟩

/-- Such a call does not change what the session has written. -/
lemma Unwritten.fields {w w' : GcsSession} (h : Unwritten w w')
    (hg : w.storage.generation < w.store.next) :
    w'.storage.generation = w.storage.generation ∧ w'.storage.buffer = w.storage.buffer ∧
      w'.storage.fileLength = w.storage.fileLength ∧ w'.storage.generation < w'.store.next ∧
      w'.written = w.written ∧ w'.durable = w.durable := by
  obtain ⟨⟨d, hs⟩, hgrown, -, -⟩ := h
  obtain ⟨h1, h2, h3⟩ := hgrown _ hg
  have hgen : w'.storage.generation = w.storage.generation := by rw [hs]
  refine ⟨hgen, by rw [hs], by rw [hs], by rw [hgen]; exact h1, ?_, ?_⟩
  · rw [GcsSession.written, hgen]
    exact h2
  · rw [GcsSession.durable, hgen]
    exact h3

/-- Such a call loses nothing. -/
lemma Intact.unwritten {u f : Bool} {w w' : GcsSession} (h : Intact u f w)
    (hw : Unwritten w w') : Intact u f w' := by
  obtain ⟨-, h2, h3, h4, h5, h6⟩ := hw.fields h.generation_lt
  constructor
  case generation_lt => exact h4
  case unsent_iff => rw [h2]; exact h.unsent_iff
  case length_eq => rw [h2, h3, h5]; exact h.length_eq
  case placed => rw [h2, h3, h5, hw.accepted_eq]; exact h.placed
  case last => rw [h2, h3, hw.accepted_eq]; exact h.last
  case durable => rw [h5, h6, hw.accepted_eq]; exact h.durable
  case undurable => rw [h6, hw.accepted_eq]; exact h.undurable

/-- After an `Append`, the last bytes that were accepted are the last of the file, as long as some
were before an `Append` of nothing. -/
lemma last_append {w : GcsSession} {data : List UInt8}
    (h : data = [] → ∃ p ∈ w.accepted, p.2 ≠ [] ∧ p.1 + p.2.length = w.storage.fileLength) :
    ∃ p ∈ ((GcsCall.append data).run w).accepted, p.2 ≠ [] ∧
      p.1 + p.2.length = ((GcsCall.append data).run w).storage.fileLength := by
  rw [run_append]
  by_cases hd : data = []
  · obtain ⟨p, hp, h1, h2⟩ := h hd
    exact ⟨p, List.mem_append_left _ hp, h1, by simpa [hd] using h2⟩
  · exact ⟨_, List.mem_append_right _ List.mem_cons_self, hd, rfl⟩

/-- `Append` loses nothing. -/
lemma Intact.append {u f : Bool} {w : GcsSession} (h : Intact u f w) (data : List UInt8) :
    Intact (u || data ≠ []) f ((GcsCall.append data).run w) := by
  have hlen := h.length_eq
  rw [run_append]
  constructor
  case generation_lt => exact h.generation_lt
  case unsent_iff =>
    dsimp only
    rw [Bool.or_eq_true, h.unsent_iff, decide_eq_true_eq, ne_eq, ne_eq, ne_eq,
      List.append_eq_nil_iff, not_and_or]
  case length_eq =>
    show w.storage.fileLength + _ =
      (w.written.length : ℤ) + ((w.storage.buffer ++ data).length : ℕ)
    rw [List.length_append, hlen]
    push_cast
    ring
  case placed =>
    intro p hp
    show 0 ≤ p.1 ∧ p.1 + p.2.length ≤ w.storage.fileLength + data.length ∧
      slice p.1.toNat p.2.length (w.written ++ (w.storage.buffer ++ data)) = p.2
    rw [← List.append_assoc]
    rcases List.mem_append.mp hp with hp | hp
    · obtain ⟨h0, h1, h2⟩ := h.placed p hp
      refine ⟨h0, by omega, ?_⟩
      rw [slice_append_left _ (by rw [List.length_append]; omega), h2]
    · obtain rfl := List.mem_singleton.mp hp
      dsimp only
      refine ⟨by omega, le_rfl, ?_⟩
      have hoff : w.storage.fileLength.toNat = (w.written ++ w.storage.buffer).length := by
        rw [List.length_append]
        omega
      rw [hoff, slice_length_append]
  case last =>
    intro hne
    rw [← run_append]
    refine last_append fun hd => h.last ?_
    rwa [hd, List.append_nil] at hne
  case durable =>
    intro hf p hp hne hle
    show p.1 + p.2.length ≤ (w.durable : ℤ)
    change p.1 + p.2.length ≤ (w.written.length : ℤ) at hle
    rcases List.mem_append.mp hp with hp | hp
    · exact h.durable hf p hp hne hle
    · obtain rfl := List.mem_singleton.mp hp
      have := List.length_pos_iff.mpr hne
      dsimp only at hle this
      omega
  case undurable =>
    intro hf
    obtain ⟨p, hp, h1, h2⟩ := h.undurable hf
    exact ⟨p, List.mem_append_left _ hp, h1, h2⟩

/-- `Sync` with nothing buffered loses nothing. -/
lemma Intact.sync_of_nil {f : Bool} {w : GcsSession} (h : Intact false f w) (o : SyncCalls) :
    Intact false f ((GcsCall.sync o).run w) := by
  have hnil : w.storage.buffer = [] := by
    by_contra hne
    exact absurd (h.unsent_iff.mpr hne) (by decide)
  rw [(run_sync_of_nil hnil o).2]
  exact h

/-- `Sync` whose `Write` succeeds loses nothing; what it wrote is durable if it was flushed. -/
lemma Intact.sync_of_write {f : Bool} {w : GcsSession} (h : Intact true f w) {o : SyncCalls}
    (ho : o.write = none) : Intact false o.flush.isNone ((GcsCall.sync o).run w) := by
  have hne : w.storage.buffer ≠ [] := h.unsent_iff.mp rfl
  have hlen := h.length_eq
  obtain ⟨-, store, hrun, hnext, -, -, hcontents, hdurable⟩ := run_sync_of_write hne ho
  obtain ⟨w', hw'⟩ : ∃ w', w' = (GcsCall.sync o).run w := ⟨_, rfl⟩
  have hwritten : w'.written = w.written ++ w.storage.buffer := by
    rw [hw', hrun]
    exact hcontents
  have hdur : w'.durable =
      if o.flush = none then w.written.length + w.storage.buffer.length else w.durable := by
    rw [hw', hrun]
    exact hdurable
  have hbuffer : w'.storage.buffer = [] := by rw [hw', hrun]
  have hlength : w'.storage.fileLength = w.storage.fileLength := by rw [hw', hrun]
  have haccepted : w'.accepted = w.accepted := by rw [hw', hrun]
  have hle : w.durable ≤ w.written.length := w.store.durable_le _
  have hpos := List.length_pos_iff.mpr hne
  rw [← hw']
  constructor
  case generation_lt =>
    rw [hw', hrun]
    exact h.generation_lt.trans_le (le_of_eq hnext.symm)
  case unsent_iff => simp [hbuffer]
  case length_eq =>
    rw [hlength, hwritten, hbuffer, List.length_append, List.length_nil, hlen]
    push_cast
    ring
  case placed =>
    rw [hlength, hwritten, hbuffer, haccepted, List.append_nil]
    exact h.placed
  case last => exact fun hne' => absurd hbuffer hne'
  case durable =>
    intro hf p hp hp' hle'
    rw [Option.isNone_iff_eq_none] at hf
    rw [hwritten, List.length_append] at hle'
    rw [hdur, if_pos hf]
    exact hle'
  case undurable =>
    intro hf
    obtain ⟨p, hp, hp', hend⟩ := h.last hne
    have hf' : o.flush ≠ none := by
      intro hnone
      rw [hnone] at hf
      cases hf
    rw [hdur, if_neg hf', haccepted]
    exact ⟨p, hp, hp', by omega⟩

/-- `Sync` whose `Write` fails loses the buffer. -/
lemma Intact.sync_of_error {f : Bool} {w : GcsSession} (h : Intact true f w) {o : SyncCalls}
    (ho : o.write ≠ none) : Lost ((GcsCall.sync o).run w) := by
  have hne : w.storage.buffer ≠ [] := h.unsent_iff.mp rfl
  have hlen := h.length_eq
  have hpos := List.length_pos_iff.mpr hne
  obtain ⟨e, he⟩ := Option.ne_none_iff_exists'.mp ho
  rw [(run_sync_of_error hne he).2]
  constructor
  case generation_lt => exact h.generation_lt
  case short =>
    show (w.written.length : ℤ) + (0 : ℕ) < w.storage.fileLength
    omega
  case last => exact h.last hne

/-- Calls that write nothing do not bring back lost data. -/
lemma Lost.unwritten {w w' : GcsSession} (h : Lost w) (hw : Unwritten w w') : Lost w' := by
  obtain ⟨-, h2, h3, h4, h5, -⟩ := hw.fields h.generation_lt
  constructor
  case generation_lt => exact h4
  case short => rw [h2, h3, h5]; exact h.short
  case last => rw [h3, hw.accepted_eq]; exact h.last

/-- `Append` does not bring back lost data. -/
lemma Lost.append {w : GcsSession} (h : Lost w) (data : List UInt8) :
    Lost ((GcsCall.append data).run w) := by
  have hshort := h.short
  constructor
  case generation_lt => rw [run_append]; exact h.generation_lt
  case short =>
    rw [run_append]
    show (w.written.length : ℤ) + (w.storage.buffer ++ data).length <
      w.storage.fileLength + data.length
    rw [List.length_append]
    push_cast
    omega
  case last => exact last_append fun _ => h.last

/-- `Sync` does not bring back lost data. -/
lemma Lost.sync {w : GcsSession} (h : Lost w) (o : SyncCalls) :
    Lost ((GcsCall.sync o).run w) := by
  have hshort := h.short
  by_cases hb : w.storage.buffer = []
  · rw [(run_sync_of_nil hb o).2]
    exact h
  cases ho : o.write with
  | some e =>
    rw [(run_sync_of_error hb ho).2]
    constructor
    case generation_lt => exact h.generation_lt
    case short =>
      show (w.written.length : ℤ) + (0 : ℕ) < w.storage.fileLength
      omega
    case last => exact h.last
  | none =>
    obtain ⟨-, store, hrun, hnext, -, -, hcontents, -⟩ := run_sync_of_write hb ho
    rw [hrun]
    constructor
    case generation_lt => exact h.generation_lt.trans_le (le_of_eq hnext.symm)
    case short =>
      show ((store.contents w.storage.generation).length : ℤ) + (0 : ℕ) < w.storage.fileLength
      rw [hcontents, List.length_append]
      push_cast
      omega
    case last => exact h.last

/-- **Lost data stays lost**, whatever is called: `Append` makes the file and the buffer longer by
the same number of bytes, and `Sync` at best moves the buffer to the object. -/
lemma Lost.run {w : GcsSession} (h : Lost w) (call : GcsCall) : Lost (call.run w) := by
  cases call with
  | append data => exact h.append data
  | sync o => exact h.sync o
  | pRead size offset attempts =>
    exact h.unwritten (unwritten_run _ w (Or.inl ⟨size, offset, attempts, rfl⟩))
  | replace contents => exact h.unwritten (unwritten_run _ w (Or.inr ⟨contents, rfl⟩))

/-! ### Whole runs -/

/-- A run starts with its first call. -/
@[simp] lemma runCalls_cons (call : GcsCall) (calls : List GcsCall) (w : GcsSession) :
    runCalls (call :: calls) w = runCalls calls (call.run w) := rfl

/-- A run that ends with a given call. -/
lemma runCalls_concat (calls : List GcsCall) (call : GcsCall) (w : GcsSession) :
    runCalls (calls ++ [call]) w = call.run (runCalls calls w) := by
  rw [runCalls, List.foldl_append]
  rfl

/-- A `Sync` without unsent data does not count. -/
@[simp] lemma allFlushed_sync_of_sent (f : Bool) (o : SyncCalls) (calls : List GcsCall) :
    AllFlushed false f (.sync o :: calls) ↔ AllFlushed false f calls := by
  rw [AllFlushed, if_neg (by decide)]

/-- A `Sync` with unsent data counts. -/
@[simp] lemma allFlushed_sync_of_unsent (f : Bool) (o : SyncCalls) (calls : List GcsCall) :
    AllFlushed true f (.sync o :: calls) ↔
      o.write = none ∧ AllFlushed false o.flush.isNone calls := by
  rw [AllFlushed, if_pos rfl]

/-- Lost data stays lost over a run. -/
lemma Lost.runCalls {w : GcsSession} (h : Lost w) (calls : List GcsCall) :
    Lost (runCalls calls w) := by
  induction calls generalizing w with
  | nil => exact h
  | cons call calls ih => exact ih (h.run call)

/-- **What a run leaves**: a session that has lost nothing, durable as far as the calls say; or
one that has lost data, if the `Write` of a `Sync` failed.

**Proof sketch.** Induction on the calls, with the lemma for each kind of call. -/
theorem runCalls_cases (calls : List GcsCall) {u f : Bool} {w : GcsSession} (h : Intact u f w) :
    (∃ u' f', Intact u' f' (runCalls calls w) ∧ (AllFlushed u f calls ↔ f' = true)) ∨
      Lost (runCalls calls w) ∧ ¬ AllFlushed u f calls := by
  induction calls generalizing u f w with
  | nil => exact Or.inl ⟨u, f, h, Iff.rfl⟩
  | cons call calls ih =>
    have hunwritten := fun hc => ih (h.unwritten (unwritten_run call w hc))
    cases call with
    | append data => exact ih (h.append data)
    | pRead size offset attempts => exact hunwritten (Or.inl ⟨size, offset, attempts, rfl⟩)
    | replace contents => exact hunwritten (Or.inr ⟨contents, rfl⟩)
    | sync o =>
      cases u with
      | false => simpa only [runCalls_cons, allFlushed_sync_of_sent] using ih (h.sync_of_nil o)
      | true =>
        by_cases ho : o.write = none
        · simpa only [runCalls_cons, allFlushed_sync_of_unsent, ho, true_and] using
            ih (h.sync_of_write ho)
        · exact Or.inr ⟨(h.sync_of_error ho).runCalls calls, fun hf => ho hf.1⟩

/-- A `Sync` that succeeds leaves nothing buffered. -/
lemma buffer_of_sync_ok {o : SyncCalls} {w : GcsSession}
    (hok : (w.storage.sync o w.store).1 = .ok ()) :
    ((GcsCall.sync o).run w).storage.buffer = [] := by
  by_cases hb : w.storage.buffer = []
  · rw [(run_sync_of_nil hb o).2]
    exact hb
  cases ho : o.write with
  | some e =>
    rw [(run_sync_of_error hb ho).1] at hok
    cases hok
  | none =>
    obtain ⟨-, store, hrun, -⟩ := run_sync_of_write hb ho
    rw [hrun]

/-- **When a successful `Sync` has made everything durable.** After every list of calls that ends
with a `Sync` that succeeds, all accepted bytes are durable in the object at the offsets that
`Append` returned exactly if no `Sync` with unsent data had its `Write` fail and the last of them
had its `Flush` succeed.

**Proof sketch.** By `runCalls_cases` the session has lost nothing or has lost data. If it has lost
nothing, all accepted bytes are in the object, since the buffer is empty, and they are durable if
the last write was flushed; the last byte is not if it was not. If it has lost data, the object ends
before the last accepted byte. -/
theorem sync_durable_iff {w : GcsSession} (hw : w.Opened) (calls : List GcsCall) (o : SyncCalls)
    (hok : ((runCalls calls w).storage.sync o (runCalls calls w).store).1 = .ok ()) :
    (runCalls (calls ++ [.sync o]) w).AllDurable ↔ AllFlushed false true (calls ++ [.sync o]) := by
  have hnil : (runCalls (calls ++ [.sync o]) w).storage.buffer = [] := by
    rw [runCalls_concat]
    exact buffer_of_sync_ok hok
  rcases runCalls_cases (calls ++ [.sync o]) (intact_opened hw) with ⟨u, f, h, hiff⟩ | ⟨h, hnot⟩
  · rw [hiff]
    have hlen := h.length_eq
    rw [hnil, List.length_nil] at hlen
    constructor
    · intro hall
      by_contra hf
      obtain ⟨p, hp, hne, hlt⟩ := h.undurable (by simpa using hf)
      have := (hall p hp hne).2.2
      omega
    · intro hf p hp hne
      obtain ⟨h0, h1, h2⟩ := h.placed p hp
      rw [hnil, List.append_nil] at h2
      exact ⟨h0, h2, h.durable hf p hp hne (by omega)⟩
  · refine iff_of_false (fun hall => ?_) hnot
    obtain ⟨p, hp, hne, hend⟩ := h.last
    have hdur := (hall p hp hne).2.2
    have hshort := h.short
    have hle : (runCalls (calls ++ [.sync o]) w).durable ≤
        (runCalls (calls ++ [.sync o]) w).written.length := ObjectStore.durable_le _ _
    omega

/-! ## A write that fails -/

/-- The calls of a `Create` that all succeed. -/
def CreateCalls.succeed : CreateCalls := ⟨none, [], none, [], .ok none⟩

/-- A session on a new object. -/
def newSession : GcsSession :=
  ⟨⟨"bucket", "object", 0, true, none, 0, 0, []⟩, ObjectStore.empty.create [], [], []⟩

/-- `Create` starts it. -/
lemma create_newSession : GcsRapidStorage.create "bucket" "object" CreateCalls.succeed
    ObjectStore.empty = (.ok newSession.storage, newSession.store) := rfl

/-- `sync_durable_iff` for one byte, whose write and flush succeed. -/
theorem sync_durable_iff_one_byte :
    (runCalls ([.append [1]] ++ [.sync ⟨none, none⟩]) newSession).AllDurable ↔
      AllFlushed false true ([.append [1]] ++ [.sync ⟨none, none⟩]) :=
  sync_durable_iff (opened_of_create create_newSession) [.append [1]] ⟨none, none⟩ rfl

/-- **A `Sync` that succeeds after one that lost data.** One byte is appended, the write of the
first `Sync` fails, and the second `Sync` succeeds although the object is still empty. -/
theorem sync_ok_after_failed_write :
    newSession.Opened ∧
      (let w := runCalls [.append [1], .sync ⟨some ⟨.unavailable, "Write failed"⟩, none⟩] newSession
       (w.storage.sync ⟨none, none⟩ w.store).1 = .ok () ∧ w.accepted = [(0, [1])]) ∧
      (let w := runCalls ([.append [1], .sync ⟨some ⟨.unavailable, "Write failed"⟩, none⟩] ++
          [.sync ⟨none, none⟩]) newSession
       w.written = [] ∧ w.durable = 0 ∧ ¬ w.AllDurable) := by
  refine ⟨opened_of_create create_newSession, ⟨rfl, rfl⟩, rfl, rfl, fun h => ?_⟩
  have hend : ((0 : ℤ) + ([1] : List UInt8).length) ≤ (0 : ℕ) :=
    (h (0, [1]) List.mem_cons_self (by decide)).2.2
  simp at hend

end SqliteGcs
