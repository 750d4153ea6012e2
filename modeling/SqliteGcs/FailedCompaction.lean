import SqliteGcs.Canonical
import SqliteGcs.CompactGcs
import SqliteGcs.FailedWrite

set_option relaxedAutoImplicit false
set_option autoImplicit false

/-!
# Compactions that fail

`CompactGcsObject` returns as soon as a step fails. An upload whose stream is still open then is
closed by the destructor of the stream, and closing it finalises the upload with whatever was
written so far. So a block that cannot be read in `WriteCompactedRecords` replaces the object by the
records that were written before it. A write to the stream that fails closes the stream, and the
object is left alone.

## Main definitions

* `SqliteGcs.CompactionCalls`, `SqliteGcs.compactGcsObject` — the whole call, with no one else
  changing the object.
* `SqliteGcs.FailsBeforeClose` — the call fails because of a step before the final `Close`.
* `SqliteGcs.ReadsDelivered` — all reads of mapped blocks that are made go through.

## Main results

* `SqliteGcs.writeCompactedRecords_settled_iff` — when `WriteCompactedRecords` succeeds, or leaves a
  stream that is closed.
* `SqliteGcs.failed_compaction_intact_iff` — when a failed call leaves the object intact.
* `SqliteGcs.failed_compaction_truncates` — a call that fails and replaces the object.
-/

namespace SqliteGcs

open Bytes PageTable BlockMapper

/-! ## How `WriteCompactedRecords` leaves the stream -/

/-- Fetching a mapped block from a file takes one `PRead`, of 4096 bytes inside the file. -/
lemma readBlock_mapped {m : BlockMapper LocalStorage}
    (hm : Sound m.storage.file m.logicalToPhysical) (hp : m.pendingRecords = []) {b : ℕ}
    (hmapped : m.isBlockMapped b = true) {calls : Transfers}
    (hcalls : calls = m.storage.preads.headD .all) {s : LocalStorage}
    (hs : s = { m.storage with preads := m.storage.preads.tail }) :
    ∃ p, p + 4096 ≤ m.storage.file.length ∧
      ∀ r, LocalStorage.readLoop m.storage.file calls.counts calls.failure 4096 p = r →
        (∀ bs, r = .ok bs → bs.length = 4096) → m.readBlock b 0 4096 m.storage = (r, s) := by
  have hentry := (isBlockMapped_iff hp b).mp hmapped
  obtain ⟨p, hpos, h1⟩ := hm.exists_position hentry
  refine ⟨p, by omega, fun r hr hlen => ?_⟩
  have hread : AppendOnlyStorage.pRead 4096 ((p : ℤ) + 0) m.storage =
      (LocalStorage.readLoop m.storage.file calls.counts calls.failure 4096 p, s) := by
    show LocalStorage.pRead 4096 ((p : ℤ) + 0) m.storage = _
    rw [LocalStorage.pRead, if_neg (by omega), add_zero, Int.toNat_natCast, hcalls, hs]
  have hsize : (4096 : ℤ).toNat = 4096 := rfl
  unfold readBlock
  rw [hp, List.reverse_nil, List.find?_nil]
  dsimp only
  rw [lookup_eq, hpos, if_pos (by omega), hsize, hread, hr]
  cases r with
  | error e => rfl
  | ok bs =>
    dsimp only
    rw [if_neg (by rw [hlen bs rfl]; omega)]

/-- Reading a mapped block from a file succeeds exactly if the calls of its `PRead` deliver the
block. -/
lemma read_mapped_block {m : BlockMapper LocalStorage} (hi : m.initialized = true)
    (hm : Sound m.storage.file m.logicalToPhysical) (hp : m.pendingRecords = []) {b : ℕ}
    (hb : b < 1000000) (hmapped : m.isBlockMapped b = true) :
    (∃ data, data.length = 4096 ∧ (m.storage.preads.headD .all).Delivers 4096 ∧
      m.read 4096 (b * 4096) = (.ok data,
        { m with storage := { m.storage with preads := m.storage.preads.tail } })) ∨
    ∃ e, ¬ (m.storage.preads.headD .all).Delivers 4096 ∧
      m.read 4096 (b * 4096) = (.error e,
        { m with storage := { m.storage with preads := m.storage.preads.tail } }) := by
  obtain ⟨calls, hcalls⟩ : ∃ calls, calls = m.storage.preads.headD .all := ⟨_, rfl⟩
  obtain ⟨s, hs⟩ : ∃ s : LocalStorage, s = { m.storage with preads := m.storage.preads.tail } :=
    ⟨_, rfl⟩
  obtain ⟨p, hle, hblock⟩ := readBlock_mapped hm hp hmapped hcalls hs
  have hlocked : m.read 4096 (b * 4096) = m.readLocked 4096 (b * 4096) := by
    rw [BlockMapper.read, outOfRange_eq_false_iff.mpr ⟨by omega, by omega⟩,
      if_neg Bool.false_ne_true, if_neg (by rw [hi]; decide)]
  have hiff := LocalStorage.readLoop_isOk_iff calls.counts calls.failure hle
  rw [hlocked, ← hcalls, ← hs]
  rcases LocalStorage.readLoop_spec m.storage.file calls.counts calls.failure 4096 p with
    hok | ⟨-, e, he⟩
  · have hlen : (slice p 4096 m.storage.file).length = 4096 := by
      rw [length_slice]
      omega
    have hslice := hblock _ hok (by rintro bs ⟨⟩; exact hlen)
    rcases readLocked_block m (by omega : (0 : ℤ) ≤ b) with ⟨e, t, hr, hl⟩ | ⟨data, t, hr, hl⟩
    · rw [hslice] at hr
      cases hr
    · rw [hslice] at hr
      cases hr
      exact Or.inl ⟨_, hlen, hiff.mp ⟨_, hok⟩, hl⟩
  · have herror := hblock _ he (by rintro bs ⟨⟩)
    rw [he] at hiff
    rcases readLocked_block m (by omega : (0 : ℤ) ≤ b) with ⟨e, t, hr, hl⟩ | ⟨data, t, hr, hl⟩
    · rw [herror] at hr
      cases hr
      refine Or.inr ⟨e, fun h => ?_, hl⟩
      obtain ⟨bs, hbs⟩ := hiff.mpr h
      cases hbs
    · rw [herror] at hr
      cases hr

/-- A stream takes a record exactly if it has room for it, and is closed if it has not. -/
lemma ObjectWriteStream.write_record {os : ObjectWriteStream} (hgood : os.good = true)
    (hopen : os.isOpen = true) (b : ℕ) {data : List UInt8} (hlen : data.length = 4096) :
    ∃ os' : ObjectWriteStream,
      OStream.write [1] (OStream.write data (OStream.write (encodeInt64 b) os)) = os' ∧
        os'.room = os.room - 4105 ∧ OStream.good os' = decide (4105 ≤ os.room) ∧
        os'.isOpen = decide (4105 ≤ os.room) := by
  have hroom : ((decide ((encodeInt64 b).length ≤ os.room) &&
      decide (data.length ≤ os.room - (encodeInt64 b).length)) &&
      decide (1 ≤ os.room - (encodeInt64 b).length - data.length)) = decide (4105 ≤ os.room) := by
    rw [hlen, length_encodeInt64, Bool.eq_iff_iff]
    simp only [Bool.and_eq_true, decide_eq_true_eq]
    omega
  refine ⟨_, rfl, ?_, ?_, ?_⟩
  · show os.room - (encodeInt64 b).length - data.length - 1 = _
    rw [hlen, length_encodeInt64]
    omega
  · rw [← hroom]
    show (((os.good && _) && _) && _) = _
    rw [hgood, Bool.true_and]
    rfl
  · rw [← hroom]
    show (((os.isOpen && _) && _) && _) = _
    rw [hopen, Bool.true_and]
    rfl

/-- The first outcomes of a list are the next one and the first ones after it. -/
lemma forall_lt_succ_getD {α : Type} {p : ℕ → α → Prop} {l : List α} {d : α} {k : ℕ} :
    (∀ j < k + 1, p j (l.getD j d)) ↔ p 0 (l.headD d) ∧ ∀ j < k, p (j + 1) (l.tail.getD j d) := by
  have hhead : l.headD d = l.getD 0 d := by cases l <;> rfl
  have htail : ∀ j, l.tail.getD j d = l.getD (j + 1) d := by
    intro j
    cases l <;> rfl
  rw [hhead]
  constructor
  · intro h
    refine ⟨h 0 (Nat.succ_pos k), fun j hj => ?_⟩
    rw [htail]
    exact h (j + 1) (by omega)
  · rintro ⟨h0, h⟩ j hj
    cases j with
    | zero => exact h0
    | succ j =>
      rw [← htail]
      exact h j (by omega)

/-- **How `WriteCompactedRecords` leaves the stream** of a file: it succeeds or the stream is closed
exactly if those `PRead`s of mapped blocks deliver their blocks for which the stream has taken all
records before.

**Proof sketch.** Induction on the blocks left. A mapped block takes one `PRead`
(`read_mapped_block`). If it fails, the stream is still open; if not, the stream takes the 4105
bytes of the record or is closed (`write_record`). -/
lemma compactLoop_settled_iff {m : BlockMapper LocalStorage} (hi : m.initialized = true)
    (hm : Sound m.storage.file m.logicalToPhysical) (hp : m.pendingRecords = []) {n b : ℕ}
    (hn : b + n ≤ 1000000) {os : ObjectWriteStream} (hgood : os.good = true)
    (hopen : os.isOpen = true) {k : ℕ}
    (hk : k = ((List.range' b n).filter fun b : ℕ => m.isBlockMapped b).length) :
    ((compactLoop n b m os).1 = .ok () ∨ (compactLoop n b m os).2.2.isOpen = false) ↔
      ∀ j < k, 4105 * j ≤ os.room → (m.storage.preads.getD j .all).Delivers 4096 := by
  induction n generalizing b m os k with
  | zero =>
    obtain rfl : k = 0 := hk
    exact iff_of_true (Or.inl rfl) fun j hj => absurd hj (Nat.not_lt_zero j)
  | succ n ih =>
    have hcast : ((b : ℤ) + 1) = ((b + 1 : ℕ) : ℤ) := by push_cast; rfl
    rw [List.range'_succ, List.filter_cons] at hk
    rw [compactLoop, hcast]
    by_cases hb : m.isBlockMapped b = true
    · rw [if_pos hb, List.length_cons] at hk
      rw [if_pos hb]
      obtain ⟨k, rfl⟩ : ∃ k', k = k' + 1 := ⟨k - 1, by omega⟩
      have hsplit := forall_lt_succ_getD (l := m.storage.preads) (d := Transfers.all) (k := k)
        (p := fun j calls => 4105 * j ≤ os.room → calls.Delivers 4096)
      rw [hsplit]
      rcases read_mapped_block hi hm hp (by omega) hb with ⟨data, hlen, hd, hr⟩ | ⟨e, hd, hr⟩
      · obtain ⟨os', hos', hroom, hgood', hopen'⟩ :=
          ObjectWriteStream.write_record hgood hopen b hlen
        rw [hr]
        dsimp only
        rw [hos', and_iff_right fun _ => hd]
        by_cases hr' : 4105 ≤ os.room
        · rw [decide_eq_true hr'] at hgood' hopen'
          rw [if_neg (by rw [hgood']; decide)]
          have hrest := ih (m := { m with
              storage := { m.storage with preads := m.storage.preads.tail } })
            hi hm hp (by omega) hgood' hopen' (Nat.succ.inj hk)
          rw [hrest, hroom]
          refine forall₂_congr fun j _ => imp_congr_left ?_
          omega
        · rw [decide_eq_false hr'] at hgood' hopen'
          rw [if_pos (by rw [hgood']; decide)]
          refine iff_of_true (Or.inr hopen') fun j _ hroom => ?_
          omega
      · rw [hr]
        refine iff_of_false ?_ fun h => hd (h.1 (Nat.zero_le _))
        simp [hopen]
    · rw [if_neg hb] at hk
      rw [if_neg hb]
      exact ih hi hm hp (by omega) hgood hopen hk

/-! ## The whole call -/

/-- The outcomes of the calls that each step of `CompactGcsObject` makes. -/
structure CompactionCalls where
  /-- `GetObjectMetadata`. -/
  metadata : CompactCalls
  /-- `mkstemp`. -/
  tempFile : CompactCalls
  /-- `DownloadToFile`. -/
  download : CompactCalls
  /-- `LocalStorage::Open` and `mapper.Init`. -/
  recovery : CompactCalls
  /-- `WriteObject`. -/
  upload : CompactCalls
  /-- `WriteCompactedRecords`. -/
  records : CompactCalls
  /-- `Close`, or the destructor of the stream. -/
  close : CompactCalls

/-- What the call has returned. -/
def Compaction.result : Compaction → Option (Except Status Unit)
  | .idle result => result
  | _ => none

/-- `WriteCompactedRecords` has returned OK. -/
def Compaction.recordsWritten : Compaction → Bool
  | .written _ _ _ (.ok _) _ => true
  | _ => false

section Call

variable [MetadataProto]

/-- The next step of the call, unless it has returned. -/
def compactNext (bucket object : String) (y : Compaction × ObjectStore UInt8)
    (calls : CompactCalls) : Compaction × ObjectStore UInt8 :=
  match y with
  | (.idle result, store) => (.idle result, store)
  | (compaction, store) => compactStep bucket object calls store compaction

/-- `CompactGcsObject` up to the final `Close`, while no one else changes the object. -/
def compactBeforeClose (bucket object : String) (calls : CompactionCalls)
    (store : ObjectStore UInt8) : Compaction × ObjectStore UInt8 :=
  [calls.tempFile, calls.download, calls.recovery, calls.upload, calls.records].foldl
    (compactNext bucket object) (compactStep bucket object calls.metadata store (.idle none))

/-- `CompactGcsObject`, while no one else changes the object. -/
def compactGcsObject (bucket object : String) (calls : CompactionCalls)
    (store : ObjectStore UInt8) : Compaction × ObjectStore UInt8 :=
  compactNext bucket object (compactBeforeClose bucket object calls store) calls.close

/-- The call comes to the final `Close`. -/
def ReachesClose (bucket object : String) (calls : CompactionCalls)
    (store : ObjectStore UInt8) : Prop :=
  (compactBeforeClose bucket object calls store).1.recordsWritten = true

instance (bucket object : String) (calls : CompactionCalls) (store : ObjectStore UInt8) :
    Decidable (ReachesClose bucket object calls store) :=
  inferInstanceAs (Decidable (_ = _))

/-- The call returns an error because of a step before the final `Close`. -/
def FailsBeforeClose (bucket object : String) (calls : CompactionCalls)
    (store : ObjectStore UInt8) : Prop :=
  (∃ e, (compactGcsObject bucket object calls store).1.result = some (.error e)) ∧
    ¬ ReachesClose bucket object calls store

/-- The steps up to the opening of the upload succeed, with this generation and mapper. -/
structure Uploads (calls : CompactionCalls) (store : ObjectStore UInt8) (generation : ℕ)
    (mapper : BlockMapper LocalStorage) : Prop where
  live : store.live = some generation
  metadata : calls.metadata.error = none
  tempFile : calls.tempFile.error = none
  download : calls.download.error = none
  recovery : calls.recovery.error = none
  init : init (new { calls.recovery.io with file := store.contents generation }) =
    (.ok (), mapper)
  upload : calls.upload.error = none

/-- The `PRead`s of mapped blocks that are made before the stream of this room is closed deliver
their blocks. -/
def ReadsDelivered (mapper : BlockMapper LocalStorage) (room : ℕ) : Prop :=
  ∀ j < mapper.mappedBlocks.length, 4105 * j ≤ room →
    (mapper.storage.preads.getD j .all).Delivers 4096

/-- The generation and the mapper of the upload are determined. -/
lemma Uploads.unique {calls : CompactionCalls} {store : ObjectStore UInt8} {g g' : ℕ}
    {m m' : BlockMapper LocalStorage} (h : Uploads calls store g m)
    (h' : Uploads calls store g' m') : g' = g ∧ m' = m := by
  obtain rfl : g' = g := Option.some.inj (h'.live.symm.trans h.live)
  exact ⟨rfl, congrArg Prod.snd (h'.init.symm.trans h.init)⟩

/-- A call that has not returned goes on. -/
lemma compactNext_of_ne (bucket object : String) {compaction : Compaction}
    (store : ObjectStore UInt8) (calls : CompactCalls) (h : ∀ result, compaction ≠ .idle result) :
    compactNext bucket object (compaction, store) calls =
      compactStep bucket object calls store compaction := by
  cases compaction with
  | idle result => exact absurd rfl (h result)
  | _ => rfl

/-- A call that has returned goes no further. -/
lemma foldl_compactNext_idle (bucket object : String) (calls : List CompactCalls)
    (result : Option (Except Status Unit)) (store : ObjectStore UInt8) :
    calls.foldl (compactNext bucket object) (.idle result, store) = (.idle result, store) := by
  induction calls with
  | nil => rfl
  | cons c calls ih => exact ih

/-- **The call up to the final `Close`** returns an error before the upload is open, or has written
what `WriteCompactedRecords` writes; the object is as it was. -/
lemma compactBeforeClose_cases (bucket object : String) (calls : CompactionCalls)
    (store : ObjectStore UInt8) :
    ((∃ e, compactBeforeClose bucket object calls store = (.idle (some (.error e)), store)) ∧
      ∀ g mapper, ¬ Uploads calls store g mapper) ∨
    ∃ g mapper, Uploads calls store g mapper ∧
      compactBeforeClose bucket object calls store = (.written g (store.contents g) mapper
        (writeCompactedRecords mapper (ObjectWriteStream.opened calls.records.room)).1
        (writeCompactedRecords mapper (ObjectWriteStream.opened calls.records.room)).2.2,
          store) := by
  unfold compactBeforeClose
  cases hmetadata : calls.metadata.error with
  | some e =>
    refine Or.inl ⟨?_, fun g m h => by rw [h.metadata] at hmetadata; cases hmetadata⟩
    rw [compactStep, hmetadata]
    dsimp only
    split_ifs <;> exact ⟨_, foldl_compactNext_idle ..⟩
  | none =>
  cases hlive : store.live with
  | none =>
    refine Or.inl ⟨?_, fun g m h => by rw [h.live] at hlive; cases hlive⟩
    rw [compactStep, hmetadata, hlive]
    exact ⟨_, foldl_compactNext_idle ..⟩
  | some g =>
  have hstep₁ : compactStep bucket object calls.metadata store (.idle none) =
      (.hasMetadata g, store) := by
    rw [compactStep, hmetadata, hlive]
  rw [hstep₁, List.foldl_cons, compactNext_of_ne _ _ _ _ (by simp), compactStep]
  cases htempFile : calls.tempFile.error with
  | some e =>
    refine Or.inl ⟨⟨_, foldl_compactNext_idle ..⟩, fun g m h => ?_⟩
    rw [h.tempFile] at htempFile
    cases htempFile
  | none =>
  dsimp only
  rw [List.foldl_cons, compactNext_of_ne _ _ _ _ (by simp), compactStep]
  cases hdownload : calls.download.error with
  | some e =>
    refine Or.inl ⟨⟨_, foldl_compactNext_idle ..⟩, fun g m h => ?_⟩
    rw [h.download] at hdownload
    cases hdownload
  | none =>
  dsimp only
  rw [List.foldl_cons, compactNext_of_ne _ _ _ _ (by simp), compactStep]
  cases hrecovery : calls.recovery.error with
  | some e =>
    refine Or.inl ⟨⟨_, foldl_compactNext_idle ..⟩, fun g m h => ?_⟩
    rw [h.recovery] at hrecovery
    cases hrecovery
  | none =>
  dsimp only
  generalize hinit : BlockMapper.init (new { calls.recovery.io with file := store.contents g }) = p
  obtain ⟨r, mapper⟩ := p
  cases r with
  | error e =>
    refine Or.inl ⟨⟨_, foldl_compactNext_idle ..⟩, fun g' m h => ?_⟩
    obtain rfl : g' = g := Option.some.inj (h.live.symm.trans hlive)
    have := h.init
    rw [hinit] at this
    cases this
  | ok u =>
  dsimp only
  rw [List.foldl_cons, compactNext_of_ne _ _ _ _ (by simp), compactStep]
  cases hupload : calls.upload.error with
  | some e =>
    refine Or.inl ⟨⟨_, foldl_compactNext_idle ..⟩, fun g m h => ?_⟩
    rw [h.upload] at hupload
    cases hupload
  | none =>
  exact Or.inr ⟨g, mapper,
    ⟨hlive, hmetadata, htempFile, hdownload, hrecovery, hinit, hupload⟩, rfl⟩

/-- `WriteCompactedRecords` of a mapper that `Init` recovered from a file succeeds or closes the
stream exactly if the reads are delivered. -/
lemma writeCompactedRecords_settled_iff {io : LocalStorage} {mapper : BlockMapper LocalStorage}
    (h : BlockMapper.init (new io) = (.ok (), mapper)) (room : ℕ) :
    ((writeCompactedRecords mapper (ObjectWriteStream.opened room)).1 = .ok () ∨
        (writeCompactedRecords mapper (ObjectWriteStream.opened room)).2.2.isOpen = false) ↔
      ReadsDelivered mapper room := by
  obtain ⟨recs, s', hs, hfile, hrecs⟩ := init_file (congrArg Prod.fst h)
  rw [h] at hs
  obtain rfl : mapper = opened (recovered recs) s' := hs
  have hsound := (ready_opened (InMemoryStorage.valid_ofBytes s'.file) hrecs).sound
  have hcov : (recovered recs).Covered := by
    rw [hfile] at hrecs
    exact covered_recovered hrecs
  have hlen := hcov.length_eq
  have hcount : (ceilBlocks (opened (recovered recs) s').logicalSize).toNat =
      (opened (recovered recs) s').logicalToPhysical.length := by
    show (ceilBlocks (recovered recs).logicalSize).toNat = _
    rw [hlen, Int.toNat_natCast]
    rfl
  have hle := hcov.length_le
  rw [writeCompactedRecords, hcount]
  refine compactLoop_settled_iff rfl hsound rfl (b := 0) ?_ rfl rfl ?_
  · rw [Nat.zero_add]
    exact hle
  · rw [mappedBlocks, List.range_eq_range']

/-- **When a failed compaction leaves the object intact.** For every object and all outcomes of the
calls, with no one else changing the object: a call of `CompactGcsObject` that fails before the
final `Close` leaves the object with its generation and bytes exactly if, provided it came to open
the upload, all reads of mapped blocks that were made went through, or the request that closes the
stream failed.

**Proof sketch.** Up to `Close` the object is as it was (`compactBeforeClose_cases`). If
`WriteCompactedRecords` failed and the stream is still open, which takes a read that failed, its
destructor finalises the upload, whose precondition holds, and the object has a new generation. -/
theorem failed_compaction_intact_iff (bucket object : String) (calls : CompactionCalls)
    (store : ObjectStore UInt8) :
    (FailsBeforeClose bucket object calls store →
      (compactGcsObject bucket object calls store).2.live = store.live ∧
        (compactGcsObject bucket object calls store).2.current = store.current) ↔
      ∀ g mapper, Uploads calls store g mapper →
        ReadsDelivered mapper calls.records.room ∨ calls.close.error ≠ none := by
  unfold FailsBeforeClose ReachesClose compactGcsObject
  rcases compactBeforeClose_cases bucket object calls store with
    ⟨⟨e, he⟩, hnot⟩ | ⟨g, mapper, hup, hbefore⟩
  · rw [he]
    exact iff_of_true (fun _ => ⟨rfl, rfl⟩) fun g mapper h => absurd h (hnot g mapper)
  have hiff := writeCompactedRecords_settled_iff hup.init calls.records.room
  have hright : (∀ g mapper, Uploads calls store g mapper →
      ReadsDelivered mapper calls.records.room ∨ calls.close.error ≠ none) ↔
      ReadsDelivered mapper calls.records.room ∨ calls.close.error ≠ none := by
    refine ⟨fun h => h g mapper hup, fun h g' mapper' hup' => ?_⟩
    rwa [(hup.unique hup').2]
  rw [hright, hbefore, ← hiff]
  generalize writeCompactedRecords mapper (ObjectWriteStream.opened calls.records.room) = w
  obtain ⟨status, m', os⟩ := w
  cases status with
  | ok u =>
    exact iff_of_true (fun h => absurd rfl h.2) (Or.inl (Or.inl rfl))
  | error e =>
    rw [compactNext_of_ne _ _ _ _ (by simp), compactStep]
    cases os.isOpen with
    | false => exact iff_of_true (fun _ => ⟨rfl, rfl⟩) (Or.inl (Or.inr rfl))
    | true =>
    cases hclose : calls.close.error with
    | some e' => exact iff_of_true (fun _ => ⟨rfl, rfl⟩) (Or.inr (by simp))
    | none =>
      -- the destructor of the stream replaces the object
      have hreplace : store.replaceIf g os.contents = some (store.create os.contents) :=
        ObjectStore.replaceIf_eq_some.mpr ⟨hup.live, rfl⟩
      dsimp only
      rw [hreplace]
      refine iff_of_false (fun h => ?_) (by simp)
      have hlive := (h ⟨⟨e, rfl⟩, Bool.false_ne_true⟩).1
      have hnext : some store.next = store.live := hlive
      exact absurd (store.live_lt store.next hnext.symm) (lt_irrefl _)

end Call

/-- A log of two blocks. -/
def twoBlocks : List UInt8 := compactedLog [⟨0, Block.ofList zeroBlock⟩, ⟨1, Block.ofList zeroBlock⟩]

/-- Calls that do not fail, with system calls on the temporary file as given. -/
def callsOf (preads : List Transfers) : CompactionCalls :=
  let calls : CompactCalls := ⟨none, { LocalStorage.ofFile [] with preads := preads }, 4096 * 4096⟩
  ⟨calls, calls, calls, calls, calls, calls, calls⟩

/-- The `pread`s of `Init` and that of the first block succeed; that of the second block fails. -/
def secondBlockUnreadable : List Transfers :=
  [.all, .all, .all, ⟨[], some fun message => ⟨.unknown, message ++ ": Input/output error"⟩⟩]

/-- **A compaction that fails replaces the object** by a log of one block: the second block cannot
be read from the temporary file, the error is returned, and the destructor of the stream finalises
the upload of the first record. -/
theorem failed_compaction_truncates :
    letI := wireProto
    let store := ObjectStore.empty.create twoBlocks
    let final := compactGcsObject "bucket" "object" (callsOf secondBlockUnreadable) store
    final.1.result =
        some (.error ⟨.unknown, "Failed to pread from file: Input/output error"⟩) ∧
      ¬ ReachesClose "bucket" "object" (callsOf secondBlockUnreadable) store ∧
      store.live = some 0 ∧ final.2.live = some 1 ∧
      (init (new (InMemoryStorage.ofBytes twoBlocks))).2.logicalSize = 8192 ∧
      (init (new (InMemoryStorage.ofBytes (final.2.contents 1)))).1 = .ok () ∧
      (init (new (InMemoryStorage.ofBytes (final.2.contents 1)))).2.logicalSize = 4096 := by
  decide +kernel

end SqliteGcs
