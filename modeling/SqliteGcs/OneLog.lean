import SqliteGcs.Interchange
import SqliteGcs.LocalStorage
import SqliteGcs.SessionLog

set_option relaxedAutoImplicit false
set_option autoImplicit false

/-!
# One log behind three storages

`LocalStorage`, `InMemoryStorage` and `GcsRapidStorage` keep their bytes in different places, and
their calls are cut into system calls and requests in different ways, but as long as no call fails
they are the same log: `Append` returns its length and extends it, `GetSize` returns its length,
and `PRead` returns a slice of it. So a mapper cannot tell them apart.

Only the calls that succeed are the subject of the laws of a log. A `PRead` may fail, as one of
an object that is not readable in time does, without an effect on what follows.

## Main definitions

* `SqliteGcs.Log` — the log itself.
* `SqliteGcs.LogStorage` — a storage that implements it.
* `SqliteGcs.Answers` — what the calls on a log return.
* `SqliteGcs.Watched`, `SqliteGcs.NoStorageError` — a run of a mapper in which no storage call fails.
* `SqliteGcs.GcsLog` — a `GcsRapidStorage` with what the coming requests return.

## Main results

* `SqliteGcs.answers_afterCalls` — the answers of a storage that implements a log.
* `SqliteGcs.results_eq` — the results of a mapper over such a storage.
* `SqliteGcs.storages_implement_log` — the three storages do.
-/

namespace SqliteGcs

open Bytes BlockMapper Machine

/-! ## Logs -/

/-- The log itself, a storage whose calls do not fail. -/
structure Log where
  /-- The bytes of the log. -/
  content : List UInt8

instance : AppendOnlyStorage Log where
  append data l := (.ok l.content.length, ⟨l.content ++ data⟩)
  pRead size offset l :=
    (if offset < 0 then .error ⟨.invalidArgument, "Offset cannot be negative"⟩
      else .ok (slice offset.toNat size l.content), l)
  getSize l := (.ok l.content.length, l)
  sync l := (.ok (), l)

/-- **A storage that implements a log.** The laws are about the calls that succeed; one that reads
has no effect on the log if it fails. -/
class LogStorage (σ : Type) [AppendOnlyStorage σ] where
  /-- The storage holds these bytes. -/
  HasLog : σ → List UInt8 → Prop
  append_ok : ∀ {s log data n}, HasLog s log → (append data s).1 = .ok n →
    n = log.length ∧ HasLog (append data s).2 (log ++ data)
  pRead_keeps : ∀ {s log size offset}, HasLog s log → HasLog (pRead size offset s).2 log
  pRead_ok : ∀ {s log size offset bs}, HasLog s log → (pRead size offset s).1 = .ok bs →
    0 ≤ offset ∧ bs = slice offset.toNat size log
  getSize_keeps : ∀ {s log}, HasLog s log → HasLog (getSize s).2 log
  getSize_ok : ∀ {s log n}, HasLog s log → (getSize s).1 = .ok n → n = log.length
  sync_ok : ∀ {s log}, HasLog s log → (sync s).1 = .ok () → HasLog (sync s).2 log
  /-- No coming call meets a permanent I/O error, but for a `PRead`. -/
  Unbroken : σ → Prop
  append_unbroken : ∀ {s} data, Unbroken s →
    (∃ n, (append data s).1 = .ok n) ∧ Unbroken (append data s).2
  pRead_unbroken : ∀ {s} size offset, Unbroken s → Unbroken (pRead size offset s).2
  getSize_unbroken : ∀ {s}, Unbroken s → (∃ n, (getSize s).1 = .ok n) ∧ Unbroken (getSize s).2
  sync_unbroken : ∀ {s}, Unbroken s → (sync s).1 = .ok () ∧ Unbroken (sync s).2

open LogStorage (HasLog Unbroken)

/-! ## Calls of a storage -/

/-- A call of a storage. -/
inductive StorageCall
  | append (data : List UInt8)
  | pRead (size : ℕ) (offset : ℤ)
  | getSize
  | sync

/-- The bytes that a call appends. -/
def StorageCall.data : StorageCall → List UInt8
  | .append data => data
  | .pRead _ _ => []
  | .getSize => []
  | .sync => []

/-- The bytes that some calls append. -/
def appendedBy (calls : List StorageCall) : List UInt8 := (calls.map StorageCall.data).flatten

section Calls

variable {σ : Type} [AppendOnlyStorage σ]

/-- The storage after a call. -/
def StorageCall.after : StorageCall → σ → σ
  | .append data, s => (AppendOnlyStorage.append data s).2
  | .pRead size offset, s => (AppendOnlyStorage.pRead size offset s).2
  | .getSize, s => (AppendOnlyStorage.getSize s).2
  | .sync, s => (AppendOnlyStorage.sync s).2

/-- The storage after some calls. -/
def afterCalls (calls : List StorageCall) (s : σ) : σ := calls.foldl (fun s c => c.after s) s

/-- **What the calls on a log return**: `Append` and `GetSize` its length, and a `PRead` that
succeeds the bytes at the offset, if there are enough. -/
structure Answers (s : σ) (log : List UInt8) : Prop where
  append : ∀ data, (append data s).1 = .ok (log.length : ℤ)
  getSize : (getSize s).1 = .ok (log.length : ℤ)
  sync : (sync s).1 = .ok ()
  pRead : ∀ (size : ℕ) (offset : ℤ) bs, 0 ≤ offset → offset + size ≤ log.length →
    (pRead size offset s).1 = .ok bs → bs.length = size ∧ bs = slice offset.toNat size log

variable [LogStorage σ]

/-- A call on a storage that implements a log and meets no permanent error. -/
lemma StorageCall.hasLog_after (c : StorageCall) {s : σ} {log : List UInt8}
    (h : HasLog s log) (hu : Unbroken s) :
    HasLog (c.after s) (log ++ c.data) ∧ Unbroken (c.after s) := by
  cases c with
  | append data =>
    obtain ⟨⟨n, hn⟩, hu'⟩ := LogStorage.append_unbroken data hu
    exact ⟨(LogStorage.append_ok h hn).2, hu'⟩
  | pRead size offset =>
    refine ⟨?_, LogStorage.pRead_unbroken size offset hu⟩
    rw [StorageCall.data, List.append_nil]
    exact LogStorage.pRead_keeps h
  | getSize =>
    refine ⟨?_, (LogStorage.getSize_unbroken hu).2⟩
    rw [StorageCall.data, List.append_nil]
    exact LogStorage.getSize_keeps h
  | sync =>
    obtain ⟨hok, hu'⟩ := LogStorage.sync_unbroken hu
    refine ⟨?_, hu'⟩
    rw [StorageCall.data, List.append_nil]
    exact LogStorage.sync_ok h hok

/-- A storage that implements a log answers as one. -/
lemma answers_of_hasLog {s : σ} {log : List UInt8} (h : HasLog s log)
    (hu : Unbroken s) : Answers s log where
  append data := by
    obtain ⟨⟨n, hn⟩, -⟩ := LogStorage.append_unbroken data hu
    rw [hn, (LogStorage.append_ok h hn).1]
  getSize := by
    obtain ⟨⟨n, hn⟩, -⟩ := LogStorage.getSize_unbroken hu
    rw [hn, LogStorage.getSize_ok h hn]
  sync := (LogStorage.sync_unbroken hu).1
  pRead size offset bs h0 hle hbs := by
    obtain ⟨-, rfl⟩ := LogStorage.pRead_ok h hbs
    refine ⟨?_, rfl⟩
    rw [length_slice]
    omega

/-- **The answers of a storage that implements a log**, after any calls.

**Proof sketch.** Induction on the calls. -/
theorem answers_afterCalls (calls : List StorageCall) {s : σ} {log : List UInt8}
    (h : HasLog s log) (hu : Unbroken s) :
    Answers (afterCalls calls s) (log ++ appendedBy calls) := by
  induction calls generalizing s log with
  | nil =>
    rw [appendedBy, List.map_nil, List.flatten_nil, List.append_nil]
    exact answers_of_hasLog h hu
  | cons c calls ih =>
    obtain ⟨h', hu'⟩ := c.hasLog_after h hu
    rw [appendedBy, List.map_cons, List.flatten_cons, ← List.append_assoc]
    exact ih h' hu'

end Calls

/-! ## A mapper over a storage -/

/-- A storage, and whether one of its calls has failed. -/
structure Watched (σ : Type) where
  /-- The storage. -/
  storage : σ
  /-- A call has returned an error. -/
  failed : Bool

/-- Call the storage and note whether the call fails. -/
def Watched.watch {σ α : Type} (f : σ → Except Status α × σ) (w : Watched σ) :
    Except Status α × Watched σ :=
  ((f w.storage).1, ⟨(f w.storage).2, w.failed || !(f w.storage).1.isOk⟩)

instance {σ : Type} [AppendOnlyStorage σ] : AppendOnlyStorage (Watched σ) where
  append data := Watched.watch (append data)
  pRead size offset := Watched.watch (pRead size offset)
  getSize := Watched.watch getSize
  sync := Watched.watch sync

section Mapper

variable {σ : Type} [AppendOnlyStorage σ] [MetadataProto]

/-- **The results of a mapper**: the replies to some calls after the constructor, and the state
that they leave, apart from the storage. -/
def results (calls : List MapperCall) (s : σ) : List Reply × BlockMapper Unit :=
  (replies MapperCall.run calls (new s), (final MapperCall.run calls (new s)).withStorage ())

/-- No storage call that a mapper makes fails. -/
def NoStorageError (calls : List MapperCall) (s : σ) : Prop :=
  (final MapperCall.run calls (new (⟨s, false⟩ : Watched σ))).storage.failed = false

instance (calls : List MapperCall) (s : σ) : Decidable (NoStorageError calls s) :=
  inferInstanceAs (Decidable (_ = _))

/-- A mapper has the same results as another one if their replies are equal and their states differ
at most in the storage. -/
lemma results_of_same {τ : Type} [AppendOnlyStorage τ] {calls : List MapperCall} {s : σ} {t : τ}
    {R : σ → τ → Prop}
    (h : replies MapperCall.run calls (new s) = replies MapperCall.run calls (new t) ∧
      SameMapper R (final MapperCall.run calls (new s)) (final MapperCall.run calls (new t))) :
    results calls s = results calls t := by
  obtain ⟨hreplies, t', hfinal, -⟩ := h
  rw [results, results, hreplies, hfinal]
  rfl

omit [MetadataProto] in
/-- Watching a storage does not change its calls. -/
lemma lockstep_watched :
    StorageLockstep (fun (w : Watched σ) s => w.storage = s) (fun _ => False) where
  append _ := ⟨fun _ => id, by rintro w _ rfl -; exact ⟨rfl, rfl⟩⟩
  pRead _ _ := ⟨fun _ => id, by rintro w _ rfl -; exact ⟨rfl, rfl⟩⟩
  getSize := ⟨fun _ => id, by rintro w _ rfl -; exact ⟨rfl, rfl⟩⟩
  sync := ⟨fun _ => id, by rintro w _ rfl -; exact ⟨rfl, rfl⟩⟩

/-- Watching the storage does not change the results. -/
lemma results_watched (calls : List MapperCall) (s : σ) (failed : Bool) :
    results calls (⟨s, failed⟩ : Watched σ) = results calls s := by
  have : Nonempty σ := ⟨s⟩
  have hsame : SameMapper (fun (w : Watched σ) s => w.storage = s) (new ⟨s, failed⟩) (new s) :=
    ⟨s, rfl, rfl⟩
  have hsim := (Lockstep.simulation (lockstep_watched (σ := σ)).call).replies_eq calls hsame
  exact results_of_same (R := fun (w : Watched σ) s => w.storage = s) hsim

variable [LogStorage σ]

omit [MetadataProto] in
/-- A call that is watched goes in lockstep with the one on the log. -/
lemma lockstep_watch {α : Type} {f : σ → Except Status α × σ} {g : Log → Except Status α × Log}
    (h : ∀ s log a, HasLog s log → (f s).1 = .ok a →
      (g ⟨log⟩).1 = .ok a ∧ HasLog (f s).2 (g ⟨log⟩).2.content) :
    Lockstep (fun (w : Watched σ) (l : Log) => HasLog w.storage l.content)
      (fun w => w.failed = true) (Watched.watch f) g where
  bad w hw := by
    show (w.failed || _) = true
    rw [hw, Bool.true_or]
  agree w l hl hbad := by
    have hok : (f w.storage).1.isOk = true := by
      by_contra herr
      refine hbad ?_
      show (w.failed || _) = true
      rw [Bool.not_eq_true] at herr
      rw [herr, Bool.not_false, Bool.or_true]
    cases hr : (f w.storage).1 with
    | error e =>
      rw [hr] at hok
      cases hok
    | ok a =>
      obtain ⟨hg, hrep⟩ := h w.storage l.content a hl hr
      exact ⟨hr.trans hg.symm, hrep⟩

omit [MetadataProto] in
/-- A storage that implements a log goes in lockstep with it until a call fails. -/
lemma lockstep_log :
    StorageLockstep (fun (w : Watched σ) (l : Log) => HasLog w.storage l.content)
      (fun w => w.failed = true) where
  append data := lockstep_watch fun s log n h hn => by
    obtain ⟨rfl, h'⟩ := LogStorage.append_ok h hn
    exact ⟨rfl, h'⟩
  pRead size offset := lockstep_watch fun s log bs h hbs => by
    obtain ⟨h0, rfl⟩ := LogStorage.pRead_ok h hbs
    refine ⟨?_, LogStorage.pRead_keeps h⟩
    show (if offset < 0 then _ else _) = _
    rw [if_neg (by omega)]
  getSize := lockstep_watch fun s log n h hn => by
    obtain rfl := LogStorage.getSize_ok h hn
    exact ⟨rfl, LogStorage.getSize_keeps h⟩
  sync := lockstep_watch fun s log u h hu => ⟨rfl, LogStorage.sync_ok h hu⟩

/-- **The results of a mapper over a storage that implements a log** are those over the log, if no
storage call fails.

**Proof sketch.** The storage goes in lockstep with the log, so the mapper does
(`StorageLockstep.call`), and the replies are equal as nothing has failed at the end. -/
theorem results_eq {calls : List MapperCall} {s : σ} {log : List UInt8} (h : HasLog s log)
    (hok : NoStorageError calls s) : results calls s = results calls (⟨log⟩ : Log) := by
  have : Nonempty Log := ⟨⟨log⟩⟩
  rw [← results_watched calls s false]
  refine results_of_same (Lockstep.replies_eq lockstep_log.call calls ⟨⟨log⟩, rfl, h⟩ ?_)
  exact Bool.eq_false_iff.mp hok

end Mapper

/-! ## The file -/

namespace LocalStorage

/-- No coming `lseek`, `write`, `fstat` or `fsync` fails. -/
structure Unbroken (s : LocalStorage) : Prop where
  appends : ∀ calls ∈ s.appends, calls.lseek = none ∧ calls.write.failure = none
  fstats : ∀ failure ∈ s.fstats, failure = none
  fsyncs : ∀ failure ∈ s.fsyncs, failure = none

/-- An `Append` of which no call fails adds the whole buffer. -/
lemma Unbroken.append {s : LocalStorage} (h : s.Unbroken) (data : List UInt8) :
    (append data s).1 = .ok (s.file.length : ℤ) ∧ (append data s).2.Unbroken := by
  have hcalls : (s.appends.headD ⟨none, .all⟩).lseek = none ∧
      (s.appends.headD ⟨none, .all⟩).write.failure = none :=
    headD_of_forall (p := fun calls : AppendCalls => calls.lseek = none ∧
      calls.write.failure = none) ⟨rfl, rfl⟩ h.appends
  have hrest : ∀ s' : LocalStorage, s'.appends = s.appends.tail → s'.fstats = s.fstats →
      s'.fsyncs = s.fsyncs → s'.Unbroken := by
    intro s' ha hf hs
    exact ⟨fun calls hc => h.appends calls (List.mem_of_mem_tail (ha ▸ hc)), hf ▸ h.fstats,
      hs ▸ h.fsyncs⟩
  rw [LocalStorage.append]
  dsimp only
  rw [hcalls.1]
  dsimp only
  split_ifs
  · exact ⟨rfl, hrest _ rfl rfl rfl⟩
  · rw [hcalls.2, (writeLoop_spec _ none data s.file).1 (Or.inl rfl)]
    exact ⟨rfl, hrest _ rfl rfl rfl⟩

/-- A `GetSize` whose `fstat` does not fail succeeds. -/
lemma Unbroken.getSize {s : LocalStorage} (h : s.Unbroken) :
    (getSize s).1 = .ok (s.file.length : ℤ) ∧ (getSize s).2.Unbroken := by
  rw [LocalStorage.getSize, headD_none h.fstats]
  exact ⟨rfl, h.appends, fun f hf => h.fstats f (List.mem_of_mem_tail hf), h.fsyncs⟩

/-- A `Sync` whose `fsync` does not fail succeeds. -/
lemma Unbroken.sync {s : LocalStorage} (h : s.Unbroken) :
    (sync s).1 = .ok () ∧ (sync s).2.Unbroken := by
  rw [LocalStorage.sync, headD_none h.fsyncs]
  exact ⟨rfl, h.appends, h.fstats, fun f hf => h.fsyncs f (List.mem_of_mem_tail hf)⟩

/-- A `PRead` uses up no outcome but its own. -/
lemma Unbroken.pRead {s : LocalStorage} (h : s.Unbroken) (size : ℕ) (offset : ℤ) :
    (pRead size offset s).2.Unbroken := by
  rw [LocalStorage.pRead]
  split_ifs
  · exact h
  · exact ⟨h.appends, h.fstats, h.fsyncs⟩

/-- An `Append` that succeeds returns the size of the file and adds the whole buffer. -/
lemma append_ok {data : List UInt8} {s : LocalStorage} {n : ℤ}
    (hn : (append data s).1 = .ok n) :
    n = s.file.length ∧ (append data s).2.file = s.file ++ data := by
  by_cases hne : data = []
  · subst hne
    obtain ⟨hfile, -, -, -, hok | ⟨e, he⟩⟩ := append_nil s
    · exact ⟨Except.ok.inj (hn.symm.trans hok), hfile.trans (List.append_nil _).symm⟩
    · cases hn.symm.trans he
  · obtain ⟨a, -, rfl, -, hstate, ⟨hok, hfull⟩ | ⟨⟨e, he⟩, -⟩⟩ := append_spec hne s
    · refine ⟨Except.ok.inj (hn.symm.trans hok), ?_⟩
      rw [hstate, Appended.bytes, hfull, List.take_length]
    · cases hn.symm.trans he

/-- `Sync` does not change the file. -/
lemma file_sync (s : LocalStorage) : (sync s).2.file = s.file := by
  rw [sync]
  cases s.fsyncs.headD none <;> rfl

/-- **A file is a log.** -/
instance : LogStorage LocalStorage where
  HasLog s log := s.file = log
  append_ok := by
    rintro s _ data n rfl hn
    exact append_ok hn
  pRead_keeps := by
    rintro s _ size offset rfl
    exact congrArg Prod.fst (pRead_frame size offset s)
  pRead_ok := by
    rintro s _ size offset bs rfl hbs
    by_cases h0 : offset < 0
    · change (LocalStorage.pRead size offset s).1 = _ at hbs
      rw [LocalStorage.pRead, if_pos h0] at hbs
      cases hbs
    · obtain ⟨o, rfl⟩ := Int.eq_ofNat_of_zero_le (not_lt.mp h0)
      exact ⟨not_lt.mp h0, pRead_ok hbs⟩
  getSize_keeps := by
    rintro s _ rfl
    exact (getSize_ok s).1
  getSize_ok := by
    rintro s _ n rfl hn
    exact (getSize_ok s).2 n hn
  sync_ok := by
    rintro s _ rfl -
    exact file_sync s
  Unbroken := LocalStorage.Unbroken
  append_unbroken data h := ⟨⟨_, (h.append data).1⟩, (h.append data).2⟩
  pRead_unbroken size offset h := h.pRead size offset
  getSize_unbroken h := ⟨⟨_, h.getSize.1⟩, h.getSize.2⟩
  sync_unbroken h := h.sync

end LocalStorage

/-! ## The vector -/

/-- **A vector is a log** as long as its size is kept. -/
instance : LogStorage InMemoryStorage where
  HasLog s log := s.data = log ∧ s.size = s.data.length
  append_ok := by
    rintro s _ data n ⟨rfl, hv⟩ hn
    obtain ⟨h1, h2, h3⟩ := InMemoryStorage.append_consistent data hv
    exact ⟨Except.ok.inj (hn.symm.trans h1), h2, h3⟩
  pRead_keeps := by
    rintro s _ size offset ⟨rfl, hv⟩
    have hs : (AppendOnlyStorage.pRead size offset s).2 = s := by
      show (InMemoryStorage.pRead size offset s).2 = s
      rw [InMemoryStorage.pRead]
      split_ifs <;> rfl
    rw [hs]
    exact ⟨rfl, hv⟩
  pRead_ok := by
    rintro s _ size offset bs ⟨rfl, -⟩ hbs
    change (InMemoryStorage.pRead size offset s).1 = _ at hbs
    rw [InMemoryStorage.pRead] at hbs
    split_ifs at hbs with h0 h1
    exact ⟨by omega, (Except.ok.inj hbs).symm⟩
  getSize_keeps h := h
  getSize_ok := by
    rintro s _ n ⟨rfl, hv⟩ hn
    exact (Except.ok.inj hn).symm.trans hv
  sync_ok h _ := h
  Unbroken _ := True
  append_unbroken data _ := by
    refine ⟨?_, trivial⟩
    show ∃ n, (InMemoryStorage.append data _).1 = .ok n
    rw [InMemoryStorage.append]
    split_ifs <;> exact ⟨_, rfl⟩
  pRead_unbroken _ _ _ := trivial
  getSize_unbroken _ := ⟨⟨_, rfl⟩, trivial⟩
  sync_unbroken _ := ⟨rfl, trivial⟩

/-! ## The object -/

/-- A `GcsRapidStorage` in use, and what the requests of its coming calls return. Calls beyond the
end of a list have requests that succeed. -/
structure GcsLog where
  /-- The storage and its object. -/
  session : GcsSession
  /-- What the requests of the coming `Sync`s return. -/
  syncs : List SyncCalls
  /-- What happens in the coming `PRead`s. -/
  attempts : List (List Attempt)

namespace GcsLog

/-- `Append`. -/
def append (data : List UInt8) (w : GcsLog) : Except Status ℤ × GcsLog :=
  ((w.session.storage.append data).1, { w with session := (GcsCall.append data).run w.session })

/-- `PRead`. -/
def pRead (size : ℕ) (offset : ℤ) (w : GcsLog) : Except Status (List UInt8) × GcsLog :=
  let attempts := w.attempts.headD []
  ((w.session.storage.pRead size offset attempts w.session.store).1, { w with
    session := (GcsCall.pRead size offset attempts).run w.session
    attempts := w.attempts.tail })

/-- `GetSize`. -/
def getSize (w : GcsLog) : Except Status ℤ × GcsLog := (w.session.storage.getSize, w)

/-- `Sync`. -/
def sync (w : GcsLog) : Except Status Unit × GcsLog :=
  let calls := w.syncs.headD ⟨none, none⟩
  ((w.session.storage.sync calls w.session.store).1, { w with
    session := (GcsCall.sync calls).run w.session
    syncs := w.syncs.tail })

instance : AppendOnlyStorage GcsLog := ⟨append, pRead, getSize, sync⟩

/-- **The storage that `Create` returned**, of an object that no one replaces, neither during the
call nor later. -/
structure Opened (w : GcsLog) : Prop where
  created : ∃ bucket object calls store storage store', calls.Pinned store ∧
    GcsRapidStorage.create bucket object calls store = (.ok storage, store') ∧
    w.session = .start storage store'
  alone : ∀ attempts ∈ w.attempts, ∀ a ∈ attempts, a.replaced = []

/-- No `Write` or `Flush` of a coming `Sync` fails. -/
def Unbroken (w : GcsLog) : Prop := ∀ calls ∈ w.syncs, calls.write = none ∧ calls.flush = none

/-- **The object and the buffer hold the log**: the object is that of the writer, which has its
token, and no one replaces it. -/
structure HasLog (w : GcsLog) (log : List UInt8) : Prop where
  faithful : Faithful w.session
  log_eq : w.session.log = log
  token : w.session.storage.token = true
  live : w.session.store.live = some w.session.storage.generation
  alone : ∀ attempts ∈ w.attempts, ∀ a ∈ attempts, a.replaced = []

end GcsLog

/-! ### Reads of an object that no one replaces -/

namespace GcsRapidStorage

/-- The loop of `PRead` leaves the object alone. -/
lemma pReadLoop_store {attempts : List Attempt} (halone : ∀ a ∈ attempts, a.replaced = [])
    (offset : ℤ) (gcsReadSize remaining : ℕ) (s : GcsRapidStorage) (store : ObjectStore UInt8) :
    (s.pReadLoop offset gcsReadSize remaining attempts store).2.2 = store := by
  refine pReadLoop_rule
    (I := fun _ attempts _ store₁ => (∀ a ∈ attempts, a.replaced = []) ∧ store₁ = store)
    (Q := fun _ _ store₁ => store₁ = store) ?_ ⟨halone, rfl⟩
  rintro n attempts s₁ _ calls _ r s₂ ⟨halone, rfl⟩ rfl rfl -
  have hnone : (attempts.headD ⟨[], .ok none, .ok gcsReadSize⟩).replaced = [] :=
    headD_of_forall (p := fun a : Attempt => a.replaced = []) rfl halone
  rw [hnone]
  exact ⟨fun _ _ => rfl, fun _ _ _ => rfl,
    fun _ _ _ => ⟨fun a ha => halone a (List.mem_of_mem_tail ha), rfl⟩⟩

/-- `PRead` leaves the object alone. -/
lemma pRead_store {attempts : List Attempt} (halone : ∀ a ∈ attempts, a.replaced = []) (size : ℕ)
    (offset : ℤ) (s : GcsRapidStorage) (store : ObjectStore UInt8) :
    (s.pRead size offset attempts store).2.2 = store := by
  rw [pRead]
  by_cases h0 : offset < 0
  · rw [if_pos h0]
  by_cases h1 : offset + size > s.fileLength
  · rw [if_neg h0, if_pos h1]
  rw [if_neg h0, if_neg h1]
  dsimp only
  by_cases h2 : offset ≥ s.fileLength - s.buffer.length
  · rw [if_pos h2]
  rw [if_neg h2]
  generalize (if offset + size > s.fileLength - s.buffer.length then
    (s.fileLength - s.buffer.length - offset).toNat else size) = n
  have hloop := pReadLoop_store halone offset n 14 s store
  generalize s.pReadLoop offset n 14 attempts store = p at hloop ⊢
  obtain ⟨r, s', store'⟩ := p
  cases r <;> exact hloop

/-- A descriptor that is opened while no one replaces the object is of the generation of the
writer. -/
lemma pinnedLoop_of_live {offset : ℤ} {gcsReadSize remaining : ℕ} {attempts : List Attempt}
    {s : GcsRapidStorage} {store : ObjectStore UInt8}
    (halone : ∀ a ∈ attempts, a.replaced = []) (hlive : store.live = some s.generation) :
    s.PinnedLoop offset gcsReadSize remaining attempts store := by
  have hreplaced : ∀ attempts : List Attempt, (∀ a ∈ attempts, a.replaced = []) →
      replaceAll (attempts.headD ⟨[], .ok none, .ok gcsReadSize⟩).replaced store = store := by
    intro attempts halone
    rw [headD_of_forall (p := fun a : Attempt => a.replaced = []) rfl halone]
    rfl
  have hattempt : ∀ (s : GcsRapidStorage) attempt calls, store.live = some s.generation →
      s.PinnedAttempt offset gcsReadSize attempt calls store := by
    intro s attempt calls hlive _ _ _ g hg
    rw [hlive] at hg
    exact (Option.some.inj hg).symm
  induction remaining generalizing attempts s with
  | zero =>
    unfold PinnedLoop
    dsimp only
    rw [hreplaced attempts halone]
    exact ⟨hattempt s _ _ hlive, trivial⟩
  | succ n ih =>
    unfold PinnedLoop
    dsimp only
    rw [hreplaced attempts halone]
    refine ⟨hattempt s _ _ hlive, ?_⟩
    obtain ⟨d, hframe⟩ := s.pReadAttempt_frame offset gcsReadSize (15 - (n + 1))
      (attempts.headD ⟨[], .ok none, .ok gcsReadSize⟩) store
    generalize s.pReadAttempt offset gcsReadSize (15 - (n + 1)) _ store = p at hframe
    obtain ⟨r, s'⟩ := p
    obtain rfl : s' = { s with descriptor := d } := hframe
    cases r with
    | some result => trivial
    | none => exact ih (fun a ha => halone a (List.mem_of_mem_tail ha)) hlive

/-- The object that `Create` has opened is the current one, if no one replaces it. -/
lemma live_of_create {bucket object : String} {calls : CreateCalls}
    {store store' : ObjectStore UInt8} {s : GcsRapidStorage}
    (h : create bucket object calls store = (.ok s, store')) (hpin : calls.Pinned store) :
    store'.live = some s.generation := by
  unfold create at h
  dsimp only at h
  have hstarted : ∀ e, createStarted bucket object e calls
      (replaceAll calls.replacedBeforeUpload store) = (.ok s, store') →
      store'.live = some s.generation := by
    intro e he
    obtain ⟨rfl, rfl⟩ := createStarted_ok he
    rfl
  cases hm : calls.metadata with
  | some e =>
    rw [hm] at h
    exact hstarted e h
  | none =>
    cases hl : store.live with
    | none =>
      rw [hm, hl] at h
      exact hstarted objectNotFound h
    | some g =>
      rw [hm, hl] at h
      obtain ⟨h1, h2⟩ := hpin hm (by rw [hl]; exact Option.some_ne_none g)
      obtain ⟨hstore, g', size, -, rfl⟩ := createResumed_ok h
      rw [h1, h2] at hstore
      rw [hstore]
      exact hl

end GcsRapidStorage

namespace GcsLog

/-- The storage that `Create` returned holds the contents of its object. -/
lemma hasLog_of_opened {w : GcsLog} (h : w.Opened) : w.HasLog w.session.base := by
  obtain ⟨⟨bucket, object, calls, store, s, store', hpin, hcreate, hs⟩, halone⟩ := h
  obtain ⟨-, -, htoken, -⟩ := create_ok hcreate
  constructor
  case faithful =>
    rw [hs]
    exact faithful_start hcreate hpin
  case log_eq =>
    rw [hs]
    exact List.append_nil _
  case token =>
    rw [hs]
    exact htoken
  case live =>
    rw [hs]
    exact GcsRapidStorage.live_of_create hcreate hpin
  case alone => exact halone

/-- `Append` extends the log. -/
lemma HasLog.append {w : GcsLog} {log : List UInt8} (h : w.HasLog log)
    (data : List UInt8) :
    (w.append data).1 = .ok (log.length : ℤ) ∧ (w.append data).2.HasLog (log ++ data) := by
  have hreply : (w.session.storage.append data).1 = .ok w.session.storage.fileLength := by
    rw [GcsRapidStorage.append]
    split_ifs <;> rfl
  refine ⟨?_, ?_⟩
  · show (w.session.storage.append data).1 = _
    rw [hreply, h.faithful.length_eq, h.log_eq]
  · constructor
    case faithful => exact h.faithful.append data
    case log_eq => rw [← h.log_eq]; exact log_append w.session data
    case token =>
      show ((GcsCall.append data).run w.session).storage.token = true
      rw [run_append]
      exact h.token
    case live =>
      show ((GcsCall.append data).run w.session).store.live =
        some ((GcsCall.append data).run w.session).storage.generation
      rw [run_append]
      exact h.live
    case alone => exact h.alone

/-- A `Sync` that succeeds keeps the log. -/
lemma HasLog.sync {w : GcsLog} {log : List UInt8} (h : w.HasLog log)
    (hok : w.sync.1 = .ok ()) : w.sync.2.HasLog log := by
  obtain ⟨o, ho⟩ : ∃ o, o = w.syncs.headD ⟨none, none⟩ := ⟨_, rfl⟩
  have hfaithful : Faithful ((GcsCall.sync o).run w.session) :=
    h.faithful.sync fun _ _ => h.token
  change (w.session.storage.sync (w.syncs.headD ⟨none, none⟩) w.session.store).1 = _ at hok
  rw [← ho] at hok
  have hkeep : ((GcsCall.sync o).run w.session).log = w.session.log ∧
      ((GcsCall.sync o).run w.session).storage.token = true ∧
      ((GcsCall.sync o).run w.session).store.live = w.session.store.live ∧
      ((GcsCall.sync o).run w.session).storage.generation = w.session.storage.generation := by
    by_cases hb : w.session.storage.buffer = []
    · rw [(run_sync_of_nil hb o).2]
      exact ⟨rfl, h.token, rfl, rfl⟩
    cases hw : o.write with
    | some e =>
      rw [(run_sync_of_error hb hw).1] at hok
      cases hok
    | none =>
      obtain ⟨-, store, hrun, -, hlive, -⟩ := run_sync_of_write hb hw
      rw [hrun]
      exact ⟨rfl, rfl, hlive, rfl⟩
  obtain ⟨hlog, htoken, hlive, hgen⟩ := hkeep
  rw [ho] at hfaithful hlog htoken hlive hgen
  exact ⟨hfaithful, hlog.trans h.log_eq, htoken, hlive.trans (h.live.trans (congrArg some hgen.symm)),
    h.alone⟩

/-- A `PRead` keeps the log, and returns its bytes if it succeeds. -/
lemma HasLog.pRead {w : GcsLog} {log : List UInt8} (h : w.HasLog log) (size : ℕ)
    (offset : ℤ) :
    (w.pRead size offset).2.HasLog log ∧
      ∀ bs, (w.pRead size offset).1 = .ok bs → 0 ≤ offset ∧ bs = slice offset.toNat size log := by
  obtain ⟨attempts, hattempts⟩ : ∃ attempts, attempts = w.attempts.headD [] := ⟨_, rfl⟩
  have halone : ∀ a ∈ attempts, a.replaced = [] := by
    rw [hattempts]
    exact headD_of_forall
      (p := fun attempts : List Attempt => ∀ a ∈ attempts, a.replaced = []) (by simp) h.alone
  have hpin : w.session.storage.Pinned size offset attempts w.session.store :=
    fun _ _ _ => GcsRapidStorage.pinnedLoop_of_live halone h.live
  have hfaithful : Faithful ((GcsCall.pRead size offset attempts).run w.session) :=
    h.faithful.run hpin
  obtain ⟨⟨d, hframe⟩, -, hbase, haccepted⟩ :=
    unwritten_run _ w.session (Or.inl ⟨size, offset, attempts, rfl⟩)
  have hstore : ((GcsCall.pRead size offset attempts).run w.session).store = w.session.store :=
    GcsRapidStorage.pRead_store halone size offset w.session.storage w.session.store
  rw [hattempts] at hfaithful hframe hbase haccepted hstore hpin
  refine ⟨?_, ?_⟩
  · constructor
    case faithful => exact hfaithful
    case log_eq =>
      rw [← h.log_eq, GcsSession.log, GcsSession.log]
      show GcsSession.base ((GcsCall.pRead size offset _).run w.session) ++
        (List.map Prod.snd ((GcsCall.pRead size offset _).run w.session).accepted).flatten = _
      rw [hbase, haccepted]
    case token =>
      show ((GcsCall.pRead size offset _).run w.session).storage.token = true
      rw [hframe]
      exact h.token
    case live =>
      show ((GcsCall.pRead size offset _).run w.session).store.live =
        some ((GcsCall.pRead size offset _).run w.session).storage.generation
      rw [hframe, hstore]
      exact h.live
    case alone => exact fun attempts ha => h.alone attempts (List.mem_of_mem_tail ha)
  · intro bs hbs
    obtain ⟨h0, hslice, -⟩ := h.faithful.pRead_ok hpin hbs
    rw [h.log_eq] at hslice
    exact ⟨h0, hslice⟩

/-- **An object is a log** as long as no one replaces it. -/
instance : LogStorage GcsLog where
  HasLog := GcsLog.HasLog
  append_ok := by
    intro w log data n h hn
    obtain ⟨hok, h'⟩ := h.append data
    exact ⟨Except.ok.inj (hn.symm.trans hok), h'⟩
  pRead_keeps h := (h.pRead _ _).1
  pRead_ok h hbs := (h.pRead _ _).2 _ hbs
  getSize_keeps h := h
  getSize_ok := by
    intro w log n h hn
    rw [← h.log_eq, ← h.faithful.length_eq]
    exact (Except.ok.inj hn).symm
  sync_ok h hok := h.sync hok
  Unbroken := GcsLog.Unbroken
  append_unbroken := by
    intro w data h
    refine ⟨?_, h⟩
    show ∃ n, (w.session.storage.append data).1 = .ok n
    rw [GcsRapidStorage.append]
    split_ifs <;> exact ⟨_, rfl⟩
  pRead_unbroken _ _ h := h
  getSize_unbroken h := ⟨⟨_, rfl⟩, h⟩
  sync_unbroken := by
    intro w h
    obtain ⟨hw, hf⟩ := headD_of_forall (d := ⟨none, none⟩)
      (p := fun calls : SyncCalls => calls.write = none ∧ calls.flush = none) ⟨rfl, rfl⟩ h
    refine ⟨?_, fun calls hc => h calls (List.mem_of_mem_tail hc)⟩
    show (w.session.storage.sync (w.syncs.headD ⟨none, none⟩) w.session.store).1 = .ok ()
    by_cases hb : w.session.storage.buffer = []
    · rw [(run_sync_of_nil hb _).1]
    · exact (run_sync_of_write hb hw).1.mpr hf

end GcsLog

/-! ## One log -/

/-- **The three storages implement one log.** As long as no call meets a permanent I/O error, each
answers any calls as the log that it held at first, followed by what was appended; and a mapper
has the same results over all storages with the same contents, whenever no storage call fails.

**Proof sketch.** Each of the three is a `LogStorage`, so `answers_afterCalls` gives the answers, and
`results_eq` the results of a mapper: they are those over the log itself. -/
theorem storages_implement_log [MetadataProto] :
    (∀ s : LocalStorage, s.Unbroken → ∀ calls,
      Answers (afterCalls calls s) (s.file ++ appendedBy calls)) ∧
    (∀ s : InMemoryStorage, Valid s → ∀ calls,
      Answers (afterCalls calls s) (s.data ++ appendedBy calls)) ∧
    (∀ w : GcsLog, w.Opened → w.Unbroken → ∀ calls,
      Answers (afterCalls calls w) (w.session.base ++ appendedBy calls)) ∧
    ∀ calls log, ∃ r,
      (∀ s : LocalStorage, s.file = log → NoStorageError calls s → results calls s = r) ∧
      (∀ s : InMemoryStorage, Valid s → s.data = log → NoStorageError calls s →
        results calls s = r) ∧
      ∀ w : GcsLog, w.Opened → w.session.base = log → NoStorageError calls w →
        results calls w = r := by
  refine ⟨?_, ?_, ?_, ?_⟩
  · intro s hu calls
    exact answers_afterCalls calls (σ := LocalStorage) rfl hu
  · intro s hv calls
    exact answers_afterCalls calls (σ := InMemoryStorage) ⟨rfl, hv⟩ trivial
  · intro w hw hu calls
    exact answers_afterCalls calls (σ := GcsLog) (GcsLog.hasLog_of_opened hw) hu
  · intro calls log
    refine ⟨results calls (⟨log⟩ : Log), ?_, ?_, ?_⟩
    · rintro s rfl hok
      exact results_eq (σ := LocalStorage) rfl hok
    · rintro s hv rfl hok
      exact results_eq (σ := InMemoryStorage) ⟨rfl, hv⟩ hok
    · rintro w hw rfl hok
      exact results_eq (σ := GcsLog) (GcsLog.hasLog_of_opened hw) hok

/-- An empty file. The second `write` call is interrupted, and so is the first `pread` call. -/
def interruptedFile : LocalStorage where
  file := []
  appends := [⟨none, ⟨[some 0, none], none⟩⟩]
  preads := [⟨[none, some 0], none⟩]
  fstats := []
  fsyncs := []
  appended := []

/-- A new object. The first read of it comes out short and the second one is out of range, as if
their descriptors did not show what was synced. -/
def staleObject : GcsLog where
  session := .start newSession.storage newSession.store
  syncs := []
  attempts := [[⟨[], .ok none, .ok 0⟩,
    ⟨[], .ok (some 4105), .error ⟨.outOfRange, "Read range out of bounds"⟩⟩]]

/-- `storages_implement_log` for such a file and such an object, and for a mapper that writes a
byte, syncs and reads it. -/
theorem storages_implement_log_one_byte :
    letI := wireProto
    let calls : List MapperCall :=
      [.init, .call (.op (.write [1] 0)), .call (.op .sync), .call (.read 1 0)]
    Answers (afterCalls [.append [1, 2], .sync] interruptedFile) [1, 2] ∧
      Answers (afterCalls [.append [1, 2], .sync] staleObject) [1, 2] ∧
      results calls interruptedFile = results calls staleObject := by
  let _ := wireProto
  intro calls
  obtain ⟨hfile, -, hobject, hmapper⟩ := storages_implement_log
  have hopened : staleObject.Opened :=
    ⟨⟨"bucket", "object", _, _, _, _, by rintro - h; exact absurd rfl h, create_newSession, rfl⟩,
      by decide⟩
  have hunbroken : interruptedFile.Unbroken := ⟨by simp [interruptedFile], by
    simp [interruptedFile], by simp [interruptedFile]⟩
  obtain ⟨r, hr, -, hr'⟩ := hmapper calls []
  have hok : NoStorageError calls interruptedFile := by decide +kernel
  have hok' : NoStorageError calls staleObject := by decide +kernel
  exact ⟨hfile _ hunbroken _, hobject _ hopened (by simp [staleObject, GcsLog.Unbroken]) _,
    (hr _ rfl hok).trans (hr' _ hopened rfl hok').symm⟩

end SqliteGcs
