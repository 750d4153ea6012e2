import SqliteGcs.Compactor
import SqliteGcs.GcsStorage
import SqliteGcs.LocalStorage

set_option relaxedAutoImplicit false
set_option autoImplicit false

/-!
# Compaction of an object

`CompactGcsObject` of `compactor.cc`: it reads the generation of the object, downloads it to a
temporary file, recovers a mapper from that, and replaces the object by what
`WriteCompactedRecords` writes, if the generation is still the same. An append by an open session
does not change the generation, so the precondition of the upload does not see it.

The function is modelled step by step, so that the steps of others can come between any two of
them. The temporary file is a local file whose system calls may fail, and the upload a stream that
may go bad. A write that fails ends the upload: the stream is not open any more, and its destructor
finalises an upload only if the stream is still open.

## Main definitions

* `SqliteGcs.ObjectWriteStream` — the stream of the upload.
* `SqliteGcs.RecoversAs` — what `Init` recovers from a log.
* `SqliteGcs.Compaction`, `SqliteGcs.compactStep` — where `CompactGcsObject` is, and its steps.

## Main results

* `SqliteGcs.compactLoop_ok` — what a successful `WriteCompactedRecords` has written.
* `SqliteGcs.recoversAs_compacted` — what `Init` recovers from it.
* `SqliteGcs.compactStep_written`, `SqliteGcs.compactStep_cases` — what a step does to the object.
-/

namespace SqliteGcs

open Bytes PageTable BlockMapper

/-! ## The stream of the upload -/

/-- `ObjectWriteStream`. -/
structure ObjectWriteStream where
  /-- What was written to it. -/
  contents : List UInt8
  /-- How many more bytes it takes before a write fails. -/
  room : ℕ
  /-- `good()`. -/
  good : Bool
  /-- `IsOpen()`: the upload can still be finalised. -/
  isOpen : Bool

/-- The stream that `WriteObject` opens, which takes so many bytes. -/
def ObjectWriteStream.opened (room : ℕ) : ObjectWriteStream := ⟨[], room, true, true⟩

/-- A write that fails makes the stream bad, and closes it. -/
instance : OStream ObjectWriteStream where
  write data os :=
    ⟨os.contents ++ data.take os.room, os.room - data.length, os.good && data.length ≤ os.room,
      os.isOpen && data.length ≤ os.room⟩
  good os := os.good

/-- If the stream is good after a write, everything was written and the stream is not closed. -/
lemma ObjectWriteStream.write_good {data : List UInt8} {os : ObjectWriteStream}
    (h : OStream.good (OStream.write data os) = true) :
    OStream.good os = true ∧ (OStream.write data os).contents = os.contents ++ data ∧
      (OStream.write data os).isOpen = os.isOpen := by
  obtain ⟨hgood, hroom⟩ := (Bool.and_eq_true _ _).mp h
  refine ⟨hgood, ?_, ?_⟩
  · show os.contents ++ data.take os.room = _
    rw [List.take_of_length_le (of_decide_eq_true hroom)]
  · show (os.isOpen && decide (data.length ≤ os.room)) = _
    rw [hroom, Bool.and_true]

/-! ## What is written for a local file -/

/-- A `PRead` does not change the file. -/
lemma LocalStorage.file_pRead (n : ℕ) (off : ℤ) (s : LocalStorage) :
    (AppendOnlyStorage.pRead n off s).2.file = s.file :=
  congrArg Prod.fst (LocalStorage.pRead_frame n off s)

/-- The content of the file behind a mapper. -/
def localByte (m : BlockMapper LocalStorage) : ℕ → UInt8 :=
  SqliteGcs.byteAt m.storage.file m.logicalToPhysical m.pendingRecords

/-- **What a successful `WriteCompactedRecords` has written**, also if system calls on the file or
writes to the stream may fail: the records of the mapped blocks. The stream is not closed.

**Proof sketch.** Induction on the number of blocks left. A read that succeeds returns the content
of the block, and the stream is only good if everything was written to it. -/
theorem compactLoop_ok {m : BlockMapper LocalStorage}
    (hm : Sound m.storage.file m.logicalToPhysical) {n b : ℕ} {os : ObjectWriteStream}
    (h : (compactLoop n b m os).1 = .ok ()) :
    (compactLoop n b m os).2.2.contents = os.contents ++
        compactedLog (compactedRecords (fun b => m.isBlockMapped b) (localByte m) b n) ∧
      (compactLoop n b m os).2.2.isOpen = os.isOpen := by
  induction n generalizing b m os with
  | zero => simp [compactLoop, compactedRecords, compactedLog]
  | succ n ih =>
    have hcast : ((b : ℤ) + 1) = ((b + 1 : ℕ) : ℤ) := by push_cast; rfl
    rw [compactLoop, hcast] at h ⊢
    rw [compactedRecords]
    by_cases hb : m.isBlockMapped b = true
    · rw [if_pos hb] at h ⊢
      rw [if_pos hb]
      have hoff : ((b : ℤ) * 4096) = ((4096 * b : ℕ) : ℤ) := by push_cast; ring
      rw [hoff] at h ⊢
      have hdata : ∀ data, (m.read 4096 ((4096 * b : ℕ) : ℤ)).1 = .ok data →
          data = window (localByte m) (4096 * b) 4096 := fun data hr =>
        read_ok LocalStorage.file_pRead (fun n off s bs hbs => LocalStorage.pRead_ok hbs) hm
          (by omega) hr
      obtain ⟨s, hs, hfile⟩ := read_frame LocalStorage.file_pRead 4096 ((4096 * b : ℕ) : ℤ) m
      generalize m.read 4096 ((4096 * b : ℕ) : ℤ) = p at h hdata hs ⊢
      obtain ⟨r, m₁⟩ := p
      obtain rfl : m₁ = { m with storage := s } := hs
      cases r with
      | error e => cases h
      | ok data =>
        rw [hdata data rfl] at h ⊢
        dsimp only at h ⊢
        generalize hos : OStream.write [1] (OStream.write (window (localByte m) (4096 * b) 4096)
          (OStream.write (encodeInt64 b) os)) = os₁ at h ⊢
        by_cases hgood : OStream.good os₁ = true
        · rw [if_neg (by simpa using hgood)] at h ⊢
          rw [← hos] at hgood
          obtain ⟨h1, hc1, ho1⟩ := ObjectWriteStream.write_good hgood
          obtain ⟨h2, hc2, ho2⟩ := ObjectWriteStream.write_good h1
          obtain ⟨-, hc3, ho3⟩ := ObjectWriteStream.write_good h2
          have hbyte : localByte { m with storage := s } = localByte m := by
            unfold localByte
            rw [hfile]
          obtain ⟨hrest, hopen⟩ := ih (m := { m with storage := s }) (by rw [hfile]; exact hm) h
          have hblock : (Block.ofList (window (localByte m) (4096 * b) 4096)).bytes =
              window (localByte m) (4096 * b) 4096 := Block.bytes_ofList (length_window _ _ _)
          refine ⟨?_, ?_⟩
          · rw [hrest, hbyte, ← hos, hc1, hc2, hc3, compactedLog, compactedLog, List.map_cons,
              List.flatten_cons, PendingRecord.encode, hblock]
            simp only [List.append_assoc]
            rfl
          · rw [hopen, ← hos, ho1, ho2, ho3]
        · rw [if_pos hgood] at h
          cases h
    · rw [if_neg hb] at h ⊢
      rw [if_neg hb]
      exact ih hm h

/-! ## What is recovered -/

section Recovery

variable [MetadataProto]

/-- What `Init` recovers from a log, as the engine sees it. -/
def RecoversAs (file : List UInt8) (v : FileView) : Prop :=
  ∃ recs, records (padded file) = .ok recs ∧ v = ⟨(recovered recs).logicalSize.toNat,
    SqliteGcs.byteAt (padded file) (recovered recs).logicalToPhysical []⟩

/-- What a successful `Init` recovers. -/
lemma recoversAs_of_init {τ : Type} [AtomicLog τ] {t : τ} (hv : Valid t)
    (h : (init (new t)).1 = .ok ()) : RecoversAs (bytes t) (init (new t)).2.view := by
  obtain ⟨recs, t', hrecs, hi, hb, -⟩ := records_of_init hv h
  refine ⟨recs, hrecs, ?_⟩
  rw [hi, ← hb]
  rfl

/-- A log that `Init` recovers from on any storage that does not fail. -/
lemma init_of_recoversAs {τ : Type} [ReliableLog τ] {t : τ} (hv : Valid t) {v : FileView}
    (h : RecoversAs (bytes t) v) :
    (init (new t)).1 = .ok () ∧ (init (new t)).2.view = v := by
  obtain ⟨recs, hrecs, rfl⟩ := h
  obtain ⟨t', hi, hb, -⟩ := init_of_records hv ⟨_, (padStorage_reliable hv).1⟩ hrecs
  rw [hi, ← hb]
  exact ⟨rfl, rfl⟩

/-- **What `Init` recovers from a compacted log**: what it recovers from the log that was compacted,
if the file that this recovers to ends with a mapped block. -/
theorem recoversAs_compacted {io : LocalStorage} (h : (init (new io)).1 = .ok ())
    (hends : EndsMapped (init (new io)).2) {contents : List UInt8}
    (hc : contents = compactedLog (compactedRecords (fun b => (init (new io)).2.isBlockMapped b)
      (localByte (init (new io)).2) 0 (ceilBlocks (init (new io)).2.logicalSize).toNat))
    {v : FileView} (hv : RecoversAs io.file v) : RecoversAs contents v := by
  obtain ⟨recs, s', hi, hfile, hrecs⟩ := init_file h
  rw [hi] at hends hc
  rw [hfile] at hrecs
  obtain ⟨recs', hrecs', rfl⟩ := hv
  obtain rfl : recs = recs' := Except.ok.inj (hrecs.symm.trans hrecs')
  -- the same mapper over a storage that does not fail
  obtain ⟨m, hm⟩ : ∃ m, m = opened (recovered recs) (InMemoryStorage.ofBytes (padded io.file)) :=
    ⟨_, rfl⟩
  have hready : Ready m := by
    rw [hm]
    exact ready_opened (InMemoryStorage.valid_ofBytes _) hrecs
  have hcov : m.toLogical.Covered := by
    rw [hm]
    exact covered_recovered hrecs
  have hlen := hcov.length_eq
  have hle := hcov.length_le
  have hends' : EndsMapped m := by
    rw [hm]
    exact hends
  have hc' : contents = compactedLog (compactedRecords (fun b => m.isBlockMapped b) m.byteAt 0
      m.logicalToPhysical.length) := by
    have hbyte : localByte (opened (recovered recs) s') = m.byteAt := by
      rw [hm]
      unfold localByte BlockMapper.byteAt
      rw [show (opened (recovered recs) s').storage.file = padded io.file from hfile]
      rfl
    have hsize : (ceilBlocks (opened (recovered recs) s').logicalSize).toNat =
        m.logicalToPhysical.length := by
      have heq : (opened (recovered recs) s').logicalSize = m.logicalSize := by
        rw [hm]
        rfl
      rw [heq, hlen, Int.toNat_natCast]
    rw [hc, hbyte, hsize, hm]
    rfl
  obtain ⟨m', hi', hready', hbyte', hsize'⟩ := init_compacted hready (by rw [hm]; rfl) hle
    (InMemoryStorage.valid_ofBytes contents) rfl hc'
  have hfold := (foldl_sizeStep_eq_iff m.byteAt hcov.nonneg hlen).mpr hends'
  have hrec := recoversAs_of_init (InMemoryStorage.valid_ofBytes contents) (congrArg Prod.fst hi')
  rw [hi'] at hrec
  have hview : m'.view = ⟨(recovered recs).logicalSize.toNat, SqliteGcs.byteAt (padded io.file)
      (recovered recs).logicalToPhysical []⟩ := by
    rw [view, hbyte', hsize', hfold, hm]
    rfl
  rw [← hview]
  exact hrec

end Recovery

/-! ## The steps of `CompactGcsObject` -/

/-- The outcomes of the calls that a step of `CompactGcsObject` makes. -/
structure CompactCalls where
  /-- The error of the call of the client, of `mkstemp` or of `LocalStorage::Open`. -/
  error : Option Status
  /-- The outcomes of the system calls on the temporary file. -/
  io : LocalStorage
  /-- How many bytes the stream of the upload takes before a write fails. -/
  room : ℕ

/-- Where a process that calls `CompactGcsObject` is. -/
inductive Compaction
  /-- Outside of the call, which returned this when it was last made. -/
  | idle (result : Option (Except Status Unit))
  /-- After `GetObjectMetadata`. -/
  | hasMetadata (generation : ℕ)
  /-- After `mkstemp`. -/
  | hasTempFile (generation : ℕ)
  /-- After `DownloadToFile`. -/
  | downloaded (generation : ℕ) (file : List UInt8)
  /-- After `mapper.Init`. -/
  | recovered (generation : ℕ) (file : List UInt8) (mapper : BlockMapper LocalStorage)
  /-- After `WriteObject`. -/
  | uploading (generation : ℕ) (file : List UInt8) (mapper : BlockMapper LocalStorage)
  /-- After `WriteCompactedRecords`, which returned this status and left the stream like this. -/
  | written (generation : ℕ) (file : List UInt8) (mapper : BlockMapper LocalStorage)
    (status : Except Status Unit) (os : ObjectWriteStream)

/-- The status of an upload whose precondition does not hold. -/
def preconditionFailed : Status := ⟨.failedPrecondition, "Precondition failed"⟩

/-- The next step of `CompactGcsObject`; from outside, the call is made. -/
def compactStep [MetadataProto] (bucket object : String) (calls : CompactCalls)
    (store : ObjectStore UInt8) : Compaction → Compaction × ObjectStore UInt8
  | .idle _ =>
    match calls.error, store.live with
    | none, some generation => (.hasMetadata generation, store)
    | some e, _ =>
      if e.code = .notFound then
        (.idle (some (.error ⟨.notFound, s!"GCS object not found: gs://{bucket}/{object}"⟩)), store)
      else (.idle (some (.error (convertStatus e))), store)
    | none, none =>
      (.idle (some (.error ⟨.notFound, s!"GCS object not found: gs://{bucket}/{object}"⟩)), store)
  | .hasMetadata generation =>
    match calls.error with
    | some _ => (.idle (some (.error ⟨.internal, "Failed to create temporary file"⟩)), store)
    | none => (.hasTempFile generation, store)
  | .hasTempFile generation =>
    match calls.error with
    | some e => (.idle (some (.error (convertStatus e))), store)
    | none => (.downloaded generation (store.contents generation), store)
  | .downloaded generation file =>
    match calls.error with
    | some e => (.idle (some (.error e)), store)
    | none =>
      match init (new { calls.io with file := file }) with
      | (.error e, _) => (.idle (some (.error e)), store)
      | (.ok _, mapper) => (.recovered generation file mapper, store)
  | .recovered generation file mapper =>
    match calls.error with
    | some e => (.idle (some (.error (convertStatus e))), store)
    | none => (.uploading generation file mapper, store)
  | .uploading generation file mapper =>
    let (status, _, os) := writeCompactedRecords mapper (ObjectWriteStream.opened calls.room)
    (.written generation file mapper status os, store)
  | .written generation _ _ (.ok _) os =>
    match calls.error, store.replaceIf generation os.contents with
    | some e, _ => (.idle (some (.error (convertStatus e))), store)
    | none, none => (.idle (some (.error preconditionFailed)), store)
    | none, some store => (.idle (some (.ok ())), store)
  | .written generation _ _ (.error e) os =>
    -- the destructor closes a stream that is still open, and the status of that is not seen
    match os.isOpen, calls.error with
    | true, none => (.idle (some (.error e)), (store.replaceIf generation os.contents).getD store)
    | _, _ => (.idle (some (.error e)), store)

section Steps

variable [MetadataProto]

/-- The mapper that the process recovered, and what it has written of it. -/
def Compaction.WellFormed : Compaction → Prop
  | .recovered _ file mapper | .uploading _ file mapper =>
    ∃ io : LocalStorage, io.file = file ∧ init (new io) = (.ok (), mapper)
  | .written _ file mapper status os =>
    (∃ io : LocalStorage, io.file = file ∧ init (new io) = (.ok (), mapper)) ∧
      (status = .ok () → os.isOpen = true ∧ os.contents = compactedLog (compactedRecords
        (fun b => mapper.isBlockMapped b) (localByte mapper) 0
        (ceilBlocks mapper.logicalSize).toNat))
  | _ => True

omit [MetadataProto] in
/-- An upload that is finalised replaces the object if its generation is current. -/
lemma replaceIf_cases (store : ObjectStore UInt8) (generation : ℕ) (contents : List UInt8) :
    store.replaceIf generation contents = none ∨ store.live = some generation ∧
      store.replaceIf generation contents = some (store.create contents) := by
  cases hr : store.replaceIf generation contents with
  | none => exact Or.inl rfl
  | some store' =>
    obtain ⟨hl, rfl⟩ := ObjectStore.replaceIf_eq_some.mp hr
    exact Or.inr ⟨hl, rfl⟩

/-- **The last step** returns a status. It replaces the object only if `WriteCompactedRecords`
succeeded or the stream is still open. -/
lemma compactStep_written (bucket object : String) (calls : CompactCalls)
    (store : ObjectStore UInt8) (g : ℕ) (file : List UInt8) (mapper : BlockMapper LocalStorage)
    (status : Except Status Unit) (os : ObjectWriteStream) :
    ∃ result store', compactStep bucket object calls store (.written g file mapper status os) =
      (.idle result, store') ∧ (store' = store ∨ (status = .ok () ∨ os.isOpen = true) ∧
        calls.error = none ∧ store.live = some g ∧ store' = store.create os.contents) := by
  have hreplace := replaceIf_cases store g os.contents
  cases status with
  | ok u =>
    rw [compactStep]
    cases calls.error with
    | some e => exact ⟨_, _, rfl, Or.inl rfl⟩
    | none =>
      rcases hreplace with hr | ⟨hl, hr⟩
      · rw [hr]
        exact ⟨_, _, rfl, Or.inl rfl⟩
      · rw [hr]
        exact ⟨_, _, rfl, Or.inr ⟨Or.inl rfl, rfl, hl, rfl⟩⟩
  | error e =>
    rw [compactStep]
    cases os.isOpen with
    | false => exact ⟨_, _, rfl, Or.inl rfl⟩
    | true =>
      cases calls.error with
      | some e' => exact ⟨_, _, rfl, Or.inl rfl⟩
      | none =>
        rcases hreplace with hr | ⟨hl, hr⟩
        · rw [hr]
          exact ⟨_, _, rfl, Or.inl rfl⟩
        · rw [hr]
          exact ⟨_, _, rfl, Or.inr ⟨Or.inr rfl, rfl, hl, rfl⟩⟩

/-- A step leaves the object alone, or closes an open stream and replaces the object. -/
lemma compactStep_cases (bucket object : String) (calls : CompactCalls)
    (store : ObjectStore UInt8) {c : Compaction} (h : c.WellFormed) :
    (compactStep bucket object calls store c).1.WellFormed ∧
      ((compactStep bucket object calls store c).2 = store ∨
        ∃ g file mapper status os, c = .written g file mapper status os ∧
          calls.error = none ∧ os.isOpen = true ∧ store.live = some g ∧
          (compactStep bucket object calls store c).2 = store.create os.contents) := by
  cases c with
  | idle result =>
    rw [compactStep]
    cases calls.error with
    | some e =>
      dsimp only
      split_ifs <;> exact ⟨trivial, Or.inl rfl⟩
    | none => cases store.live <;> exact ⟨trivial, Or.inl rfl⟩
  | hasMetadata g =>
    rw [compactStep]
    cases calls.error <;> exact ⟨trivial, Or.inl rfl⟩
  | hasTempFile g =>
    rw [compactStep]
    cases calls.error <;> exact ⟨trivial, Or.inl rfl⟩
  | downloaded g file =>
    rw [compactStep]
    cases calls.error with
    | some e => exact ⟨trivial, Or.inl rfl⟩
    | none =>
      dsimp only
      generalize hp : init (new { calls.io with file := file }) = p
      obtain ⟨r, mapper⟩ := p
      cases r with
      | error e => exact ⟨trivial, Or.inl rfl⟩
      | ok u => exact ⟨⟨_, rfl, hp⟩, Or.inl rfl⟩
  | recovered g file mapper =>
    rw [compactStep]
    cases calls.error with
    | some e => exact ⟨trivial, Or.inl rfl⟩
    | none => exact ⟨h, Or.inl rfl⟩
  | uploading g file mapper =>
    obtain ⟨io, hio, hi⟩ := h
    refine ⟨⟨⟨io, hio, hi⟩, fun hok => ?_⟩, Or.inl rfl⟩
    obtain ⟨recs, s', hs, -, hrecs⟩ := init_file (congrArg Prod.fst hi)
    rw [hi] at hs
    have hsound : Sound mapper.storage.file mapper.logicalToPhysical := by
      obtain rfl : mapper = opened (recovered recs) s' := hs
      exact (ready_opened (InMemoryStorage.valid_ofBytes s'.file) hrecs).sound
    obtain ⟨hcontents, hopen⟩ := compactLoop_ok hsound hok
    exact ⟨hopen, hcontents.trans (List.nil_append _)⟩
  | written g file mapper status os =>
    obtain ⟨result, store', hstep, hcase⟩ :=
      compactStep_written bucket object calls store g file mapper status os
    rw [hstep]
    rcases hcase with hsame | ⟨hstatus, herror, hl, hnew⟩
    · exact ⟨trivial, Or.inl hsame⟩
    · have hopen : os.isOpen = true := hstatus.elim (fun hok => (h.2 hok).1) id
      exact ⟨trivial, Or.inr ⟨g, file, mapper, status, os, rfl, herror, hopen, hl, hnew⟩⟩

end Steps

end SqliteGcs
