import SqliteGcs.Lifetime
import SqliteGcs.Upload

set_option relaxedAutoImplicit false
set_option autoImplicit false

/-!
# The lifetime of a database in a bucket

A database whose log is an object is visited by one process after the other. Each process opens the
object, makes calls of which any may fail, and destroys the storage or dies, in the middle of a
`Sync` as well. The object then holds at least what is durable. A `Write` or a `Flush` may fail: a
`Write` that fails loses what it should have written and leaves the object as it is for the rest of
the visit.

Until then an object does what an upload does, which is an atomic log, so that each visit amounts to
a first part of its calls, as each opening of `Lifetime` does.

## Main definitions

* `SqliteGcs.Visit` — one visit of the database, and `SqliteGcs.ObjectLifetime` — many.
* `SqliteGcs.Visit.Keeps` — which calls of a visit are kept.

## Main results

* `SqliteGcs.Visit.ended_spec`, `SqliteGcs.Visit.object_spec` — what a visit leaves.
* `SqliteGcs.object_lifetime_keeps_first_parts` — what is kept of a lifetime.
-/

namespace SqliteGcs

open Bytes PageTable BlockMapper Machine
open BlockFile (Same)

/-! ## What the calls of a mapper keep -/

section Keeps

variable {σ : Type} [AppendOnlyStorage σ] {I : σ → Prop}

/-- Every call of a storage keeps a property. -/
structure StorageKeeps (I : σ → Prop) : Prop where
  append : ∀ data s, I s → I (append data s).2
  pRead : ∀ size offset s, I s → I (pRead size offset s).2
  getSize : ∀ s, I s → I (getSize s).2
  sync : ∀ s, I s → I (AppendOnlyStorage.sync s).2

/-- A storage goes in lockstep with itself. -/
lemma StorageKeeps.lockstep (h : StorageKeeps I) :
    StorageLockstep (fun s t => s = t ∧ I s) (fun _ => False) where
  append data := ⟨fun _ => id, by
    rintro s _ ⟨rfl, hs⟩ -
    exact ⟨rfl, rfl, h.append data s hs⟩⟩
  pRead size offset := ⟨fun _ => id, by
    rintro s _ ⟨rfl, hs⟩ -
    exact ⟨rfl, rfl, h.pRead size offset s hs⟩⟩
  getSize := ⟨fun _ => id, by
    rintro s _ ⟨rfl, hs⟩ -
    exact ⟨rfl, rfl, h.getSize s hs⟩⟩
  sync := ⟨fun _ => id, by
    rintro s _ ⟨rfl, hs⟩ -
    exact ⟨rfl, rfl, h.sync s hs⟩⟩

variable [MetadataProto]

/-- The calls of a mapper keep what the calls of its storage keep. -/
lemma StorageKeeps.call (h : StorageKeeps I) (c : MapperCall) {m : BlockMapper σ}
    (hm : I m.storage) : I (c.run m).2.storage := by
  have : Nonempty σ := ⟨m.storage⟩
  have hsame : SameMapper (fun s t => s = t ∧ I s) m m := ⟨m.storage, rfl, rfl, hm⟩
  obtain ⟨-, t, -, -, hI⟩ := (h.lockstep.call c).agree m m hsame id
  exact hI

/-- Runs of a mapper keep what the calls of its storage keep. -/
lemma StorageKeeps.calls (h : StorageKeeps I) (calls : List Call) {m : BlockMapper σ}
    (hm : I m.storage) : I (final Call.run calls m).storage :=
  final_induction (I := fun m : BlockMapper σ => I m.storage) (fun c _ hm => h.call (.call c) hm)
    calls hm

end Keeps

namespace BlockMapper

variable {σ β : Type} [AppendOnlyStorage σ]

/-- The loop of `Sync` keeps what `Append` keeps. -/
lemma syncLoop_keeps {I : σ → Prop} (happend : ∀ data s, I s → I (append data s).2)
    (P : List PendingRecord) {m : BlockMapper σ} (hm : I m.storage) :
    I (syncLoop P m).2.storage := by
  induction P generalizing m with
  | nil => exact hm
  | cons pr rest ih =>
    have hnext := happend (pr.encode (if rest = [] then 1 else 2)) m.storage hm
    cases hr : append (pr.encode (if rest = [] then 1 else 2)) m.storage with
    | mk r s =>
      rw [hr] at hnext
      cases r with
      | error e =>
        rw [syncLoop_cons_error hr]
        exact hnext
      | ok n =>
        rw [syncLoop_cons_ok hr]
        exact ih hnext

/-- **What a `Sync` does to the storage**: calls of `Append`, and unless it fails before, a `Sync`
as the last one, whose status it returns. -/
lemma sync_storage {I : σ → Prop} (happend : ∀ data s, I s → I (append data s).2)
    {m : BlockMapper σ} (hm : I m.storage) :
    m.sync.1 ≠ .ok () ∧ I m.sync.2.storage ∨
      ∃ s, I s ∧ m.sync.1 = (AppendOnlyStorage.sync s).1 ∧
        m.sync.2.storage = (AppendOnlyStorage.sync s).2 := by
  rw [BlockMapper.sync]
  by_cases hi : ¬ m.initialized = true
  · rw [if_pos hi]
    exact Or.inl ⟨by simp, hm⟩
  rw [if_neg hi]
  by_cases hnil : m.pendingRecords = []
  · rw [if_pos hnil]
    exact Or.inr ⟨m.storage, hm, rfl, rfl⟩
  rw [if_neg hnil]
  have hloop := syncLoop_keeps happend m.pendingRecords hm
  cases hr : syncLoop m.pendingRecords m with
  | mk r m' =>
    rw [hr] at hloop
    cases r with
    | error e => exact Or.inl ⟨by simp, hloop⟩
    | ok u => exact Or.inr ⟨m'.storage, hloop, rfl, rfl⟩

variable [MetadataProto] {φ : σ → β}

omit [AppendOnlyStorage σ] in
/-- `Truncate` leaves the storage alone. -/
lemma storage_truncate (newSize : ℤ) (m : BlockMapper σ) :
    (m.truncate newSize).2.storage = m.storage := by
  rw [truncate]
  cases MetadataProto.serializeToString newSize with
  | none => split_ifs <;> rfl
  | some serialized =>
    dsimp only
    split_ifs <;> rfl

/-- `Init` leaves alone what `Append`, `PRead` and `GetSize` do. -/
lemma init_frame (happend : ∀ data s, φ (append data s).2 = φ s)
    (hpRead : ∀ n off s, φ (pRead n off s).2 = φ s) (hgetSize : ∀ s, φ (getSize s).2 = φ s)
    (m : BlockMapper σ) : φ (init m).2.storage = φ m.storage := by
  rw [init_eq]
  dsimp only
  split_ifs
  · rfl
  have hpad : ∀ s, φ (padStorage s).2 = φ s := by
    rw [padStorage_eq]
    refine andThen_frame hgetSize fun P => ?_
    split_ifs
    · exact andThen_frame (happend _) fun _ => hgetSize
    · exact fun s => rfl
  have hscan := andThen_frame hpad fun P => scan_frame hpRead P P.toNat 0
  refine andThen_frame (φ := fun m : BlockMapper σ => φ m.storage) (fun m => ?_)
    (fun recs m => rfl) m
  exact hscan m.storage

end BlockMapper

/-! ## After a `Write` that fails -/

namespace TokenLog

/-- The object. -/
def store (w : TokenLog) : ObjectStore UInt8 := w.log.session.store

/-- The generation that the writer was opened on. -/
def generation (w : TokenLog) : ℕ := w.log.session.storage.generation

/-- **The object is left alone**: there is no token. -/
structure Broken (store : ObjectStore UInt8) (generation : ℕ) (w : TokenLog) : Prop where
  token : w.token = false
  store_eq : w.store = store
  generation_eq : w.generation = generation
  alone : ∀ attempts ∈ w.log.attempts, ∀ a ∈ attempts, a.replaced = []

/-- A `Sync` that leaves no token leaves the object alone. -/
lemma broken_sync {w : TokenLog} (h : (sync w).2.token = false)
    (halone : ∀ attempts ∈ w.log.attempts, ∀ a ∈ attempts, a.replaced = []) :
    Broken w.store w.generation (sync w).2 := by
  have hsession : (sync w).2.log.session = (GcsCall.sync w.syncCalls).run w.log.session := rfl
  have hsame : (sync w).2.store = w.store ∧ (sync w).2.generation = w.generation := by
    rw [TokenLog.token, hsession] at h
    rw [TokenLog.store, TokenLog.generation, hsession]
    by_cases hb : w.log.session.storage.buffer = []
    · rw [(run_sync_of_nil hb _).2]
      exact ⟨rfl, rfl⟩
    cases hw : w.syncCalls.write with
    | some e =>
      rw [(run_sync_of_error hb hw).2]
      exact ⟨rfl, rfl⟩
    | none =>
      obtain ⟨-, store, hrun, -⟩ := run_sync_of_write hb hw
      rw [hrun] at h
      cases h
  exact ⟨h, hsame.1, hsame.2, halone⟩

/-- No call gets a token back or touches the object. -/
lemma storageKeeps_broken (store : ObjectStore UInt8) (generation : ℕ) :
    StorageKeeps (Broken store generation) where
  append data w h := by
    have hrun : (append data w).2.log.session = _ := run_append data w.log.session
    exact ⟨(token_append data w).1.trans h.token,
      (congrArg GcsSession.store hrun).trans h.store_eq,
      (congrArg (fun s : GcsSession => s.storage.generation) hrun).trans h.generation_eq,
      h.alone⟩
  pRead size offset w h := by
    have halone : ∀ a ∈ w.log.attempts.headD [], a.replaced = [] :=
      headD_of_forall (p := fun l : List Attempt => ∀ a ∈ l, a.replaced = []) (by simp) h.alone
    obtain ⟨⟨d, hframe⟩, -⟩ := w.log.session.storage.pRead_spec size offset
      (w.log.attempts.headD []) w.log.session.store
    have hstore : (pRead size offset w).2.store = w.store :=
      GcsRapidStorage.pRead_store halone size offset w.log.session.storage w.log.session.store
    exact ⟨(token_pRead size offset w).trans h.token, hstore.trans h.store_eq,
      (congrArg GcsRapidStorage.generation hframe).trans h.generation_eq,
      fun attempts ha => h.alone attempts (List.mem_of_mem_tail ha)⟩
  getSize w h := h
  sync w h := by
    have hbroken := broken_sync (token_sync h.token) h.alone
    rwa [h.store_eq, h.generation_eq] at hbroken

end TokenLog

/-! ## Runs -/

/-- The storages of two mappers that differ in them at most. -/
lemma SameMapper.storage {σ τ : Type} {R : σ → τ → Prop} {m : BlockMapper σ} {m' : BlockMapper τ}
    (h : SameMapper R m m') : R m.storage m'.storage := by
  obtain ⟨t, rfl, hR⟩ := h
  exact hR

section Runs

open TokenLog (ActsAs Broken)

variable [MetadataProto]

/-- A call on an object and one on an upload go in lockstep. -/
lemma lockstep_call (c : Call) :
    MapperLockstep ActsAs (fun w : TokenLog => w.token = false) c.run c.run :=
  have : Nonempty Upload := ⟨.ofObject [] []⟩
  TokenLog.lockstep_upload.call (.call c)

omit [MetadataProto] in
/-- `Read` leaves the token alone. -/
lemma token_read (n : ℕ) (off : ℤ) (m : BlockMapper TokenLog) :
    (m.read n off).2.storage.token = m.storage.token := by
  rw [BlockMapper.read]
  split_ifs
  · rfl
  · obtain ⟨s, hs, hframe⟩ := readLocked_frame TokenLog.token_pRead n off m
    rw [hs]
    exact hframe
  · rfl

/-- A call that takes the token away is a `Sync`, and leaves the object as it was. -/
lemma broken_call {c : Call} {m : BlockMapper TokenLog} {u : Upload} (h : ActsAs m.storage u)
    (htoken : (c.run m).2.storage.token = false) :
    c = .op .sync ∧ Broken m.storage.store m.storage.generation m.sync.2.storage := by
  have hhas : m.storage.token = true := h.hasLog.token
  by_cases hc : c.visible = true
  · refine absurd htoken ?_
    have hsame : (c.run m).2.storage.token = m.storage.token := by
      cases c with
      | read n off => exact token_read n off m
      | op op =>
        cases op with
        | write buf off => exact (write_frame TokenLog.token_pRead buf off m).2.1
        | truncate size => exact congrArg TokenLog.token (storage_truncate size m)
        | sync => cases hc
    rw [hsame, hhas]
    decide
  obtain rfl := Call.eq_sync hc
  refine ⟨rfl, ?_⟩
  have hcases := sync_storage (I := fun w : TokenLog => w.store = m.storage.store ∧
    w.generation = m.storage.generation ∧ w.token = true ∧
    w.log.attempts = m.storage.log.attempts) (fun data w hw => ?_) ⟨rfl, rfl, hhas, rfl⟩
  · rcases hcases with ⟨-, -, -, hkeeps, -⟩ | ⟨w, ⟨hstore, hgeneration, -, hattempts⟩, -, hw⟩
    · exact absurd (hkeeps.symm.trans htoken) (by decide)
    · have hbroken := TokenLog.broken_sync (w := w) (hw ▸ htoken)
        (by rw [hattempts]; exact h.hasLog.alone)
      rw [hw, ← hstore, ← hgeneration]
      exact hbroken
  · have hrun : (TokenLog.append data w).2.log.session = _ := run_append data w.log.session
    obtain ⟨hstore, hgeneration, htoken, hattempts⟩ := hw
    exact ⟨(congrArg GcsSession.store hrun).trans hstore,
      (congrArg (fun s : GcsSession => s.storage.generation) hrun).trans hgeneration,
      (TokenLog.token_append data w).1.trans htoken, hattempts⟩

/-- **What a run does**: what it does over an upload; or this is so up to a `Sync` that takes the
token away, after which the object is left alone.

**Proof sketch.** Induction on the calls, with the lockstep for each that leaves the token. -/
theorem calls_cases {m : BlockMapper TokenLog} {m' : BlockMapper Upload}
    (h : SameMapper ActsAs m m') (calls : List Call) :
    SameMapper ActsAs (final Call.run calls m) (final Call.run calls m') ∨
      ∃ pre, pre ++ [.op .sync] <+: calls ∧
        SameMapper ActsAs (final Call.run pre m) (final Call.run pre m') ∧
        Broken (final Call.run pre m).storage.store (final Call.run pre m).storage.generation
          (final Call.run (pre ++ [.op .sync]) m).storage := by
  induction calls generalizing m m' with
  | nil => exact Or.inl h
  | cons c calls ih =>
    by_cases htoken : (c.run m).2.storage.token = false
    · obtain ⟨u, -, hu⟩ := id h
      obtain ⟨rfl, hbroken⟩ := broken_call hu htoken
      exact Or.inr ⟨[], List.cons_prefix_cons.mpr ⟨rfl, List.nil_prefix⟩, h, hbroken⟩
    · rcases ih ((lockstep_call c).agree m m' h htoken).2 with hrest | ⟨pre, hpre, hsame, hbroken⟩
      · exact Or.inl hrest
      · exact Or.inr ⟨c :: pre, List.cons_prefix_cons.mpr ⟨rfl, hpre⟩, hsame, hbroken⟩

/-- The object is left alone in the rest of a run. -/
lemma broken_calls {m : BlockMapper TokenLog} {pre calls : List Call} (hpre : pre <+: calls)
    {store : ObjectStore UInt8} {generation : ℕ}
    (h : Broken store generation (final Call.run pre m).storage) :
    Broken store generation (final Call.run calls m).storage := by
  obtain ⟨rest, rfl⟩ := hpre
  rw [final_append]
  exact (TokenLog.storageKeeps_broken store generation).calls rest h

/-- A run that leaves the token does what it does over an upload. -/
lemma sameMapper_of_token {m : BlockMapper TokenLog} {m' : BlockMapper Upload}
    (h : SameMapper ActsAs m m') {calls : List Call}
    (htoken : (final Call.run calls m).storage.token = true) :
    SameMapper ActsAs (final Call.run calls m) (final Call.run calls m') := by
  rcases calls_cases h calls with hsame | ⟨pre, hpre, -, hbroken⟩
  · exact hsame
  · exact absurd ((broken_calls hpre hbroken).token.symm.trans htoken) (by decide)

end Runs

/-! ## Visits -/

/-- What the object holds, if there is one. -/
def objectContent (store : ObjectStore UInt8) : List UInt8 := store.current.getD []

/-- **The storage that `Create` returned** for the object, which no one replaces, and whose reads
are patient. An object that exists is not reported missing. -/
structure TokenLog.OpenedOn (w : TokenLog) (store : ObjectStore UInt8) : Prop where
  created : ∃ bucket object calls storage store', calls.Pinned store ∧
    (∀ e ∈ calls.metadata, e.code ≠ .notFound) ∧
    GcsRapidStorage.create bucket object calls store = (.ok storage, store') ∧
    w.log.session = .start storage store'
  patient : ∀ attempts ∈ w.log.attempts, Patient attempts

/-- One visit of the database. -/
structure Visit where
  /-- The storage that `Create` returned, and what its requests return. -/
  storage : TokenLog
  /-- The calls that return. -/
  calls : List Call
  /-- Whether the storage is destroyed at the end. Else the process dies, by which time a further
  `Sync` may have begun. -/
  destroyed : Bool
  /-- The bytes that are left of the object. -/
  left : ℕ

section Visits

open TokenLog (ActsAs Broken)

variable [MetadataProto]

/-- A `Sync` in this state returns OK, no `Write` has failed by then, and what was written is
flushed. -/
def Flushes (m : BlockMapper TokenLog) : Prop :=
  m.sync.1 = .ok () ∧ m.sync.2.storage.token = true ∧
    m.sync.2.storage.durable = m.sync.2.storage.written.length

namespace Visit

/-- The mapper after `Init`. -/
def mapper (v : Visit) : BlockMapper TokenLog := (init (new v.storage)).2

/-- The storage at the end. -/
def ended (v : Visit) : TokenLog :=
  if v.destroyed then (final Call.run v.calls v.mapper).storage.destroy.2
  else (final Call.run v.calls v.mapper).sync.2.storage

/-- The object that a visit leaves. -/
def object (v : Visit) : ObjectStore UInt8 := v.ended.store.lose v.ended.generation v.left

/-- The calls that are kept are first ones, and contain every `Sync` that has flushed everything.
The `Sync` that was cut off may be one of them. -/
structure Keeps (v : Visit) (kept : List Call) : Prop where
  first : kept <+: v.calls ++ [.op .sync]
  flushed : ∀ pre, SyncFollows Flushes v.mapper v.calls pre → pre ++ [.op .sync] <+: kept

end Visit

/-- The visits of an object that does not exist at first, and the object that they leave. Each finds
the object of the one before, without a record of flag 2 at its end, and loses nothing that is
durable. -/
inductive ObjectLifetime : List Visit → ObjectStore UInt8 → Prop
  | new {store : ObjectStore UInt8} (h : store.live = none) : ObjectLifetime [] store
  | next {vs : List Visit} {store : ObjectStore UInt8} {v : Visit} (h : ObjectLifetime vs store)
    (hopened : v.storage.OpenedOn store) (htail : (padded (objectContent store)).getLast? ≠ some 2)
    (hdurable : v.ended.durable ≤ v.left) : ObjectLifetime (vs ++ [v]) v.object

/-! ### What a visit leaves -/

/-- **What is left of a log**: the object holds a first part of it, of which so many bytes are
durable. -/
structure Leaves (w : TokenLog) (log : List UInt8) (n : ℕ) : Prop where
  written : w.written <+: log
  durable : n ≤ w.durable
  live : w.store.live = some w.generation

omit [MetadataProto] in
/-- What is left of an upload. -/
lemma TokenLog.ActsAs.leaves {w : TokenLog} {u : Upload} (h : ActsAs w u) :
    Leaves w u.content u.flushed :=
  ⟨h.written ▸ List.take_prefix .., h.durable.ge, h.hasLog.live⟩

omit [MetadataProto] in
/-- An object that is left alone still holds it. -/
lemma Leaves.broken {w w' : TokenLog} {log : List UInt8} {n : ℕ} (h : Leaves w log n)
    (hb : Broken w.store w.generation w') : Leaves w' log n := by
  have hwritten : w'.written = w.written := by
    show w'.store.contents w'.generation = _
    rw [hb.store_eq, hb.generation_eq]
    rfl
  have hdurable : w'.durable = w.durable := by
    show w'.store.durable w'.generation = _
    rw [hb.store_eq, hb.generation_eq]
    rfl
  exact ⟨hwritten ▸ h.written, hdurable ▸ h.durable,
    by rw [hb.store_eq, hb.generation_eq]; exact h.live⟩

omit [MetadataProto] in
/-- It may also be a part of a longer log. -/
lemma Leaves.mono {w : TokenLog} {log log' : List UInt8} {n n' : ℕ} (h : Leaves w log n)
    (hlog : log <+: log') (hn : n' ≤ n) : Leaves w log' n' :=
  ⟨h.written.trans hlog, hn.trans h.durable, h.live⟩

omit [MetadataProto] in
/-- An upload only grows. -/
lemma storageKeeps_grown (log : List UInt8) (n : ℕ) :
    StorageKeeps (fun u : Upload => log <+: u.content ∧ n ≤ u.flushed) where
  append data u h := ⟨h.1.trans (List.prefix_append ..), h.2⟩
  pRead _ _ u h := h
  getSize u h := h
  sync u h := by
    obtain ⟨hcontent, -, hflushed⟩ := Upload.sync_spec u
    exact ⟨by rw [← hcontent] at h; exact h.1, h.2.trans hflushed⟩

/-- What is flushed stays so over a run. -/
lemma flushed_mono {m : BlockMapper Upload} {pre calls : List Call} (h : pre <+: calls) :
    (final Call.run pre m).storage.flushed ≤ (final Call.run calls m).storage.flushed := by
  obtain ⟨rest, rfl⟩ := h
  rw [final_append]
  exact ((storageKeeps_grown [] _).calls rest ⟨List.nil_prefix, le_rfl⟩).2

omit [MetadataProto] in
/-- `Create` opens a generation with the content of the object, all of it durable if it was. -/
lemma objectContent_of_create {bucket object : String} {calls : CreateCalls}
    {store store' : ObjectStore UInt8} {s : GcsRapidStorage} (hpin : calls.Pinned store)
    (hmissing : ∀ e ∈ calls.metadata, e.code ≠ .notFound)
    (h : GcsRapidStorage.create bucket object calls store = (.ok s, store'))
    (hdurable : ∀ g ∈ store.live, store.durable g = (store.contents g).length) :
    store'.contents s.generation = objectContent store ∧
      store'.durable s.generation = (objectContent store).length := by
  unfold GcsRapidStorage.create at h
  dsimp only at h
  cases hm : calls.metadata with
  | some e =>
    rw [hm] at h
    have hstarted : GcsRapidStorage.createStarted bucket object e calls
      (replaceAll calls.replacedBeforeUpload store) = (.ok s, store') := h
    rw [GcsRapidStorage.createStarted, if_pos (hmissing e hm)] at hstarted
    cases hstarted
  | none =>
    cases hl : store.live with
    | none =>
      rw [hm, hl] at h
      obtain ⟨hstore, rfl⟩ := createStarted_ok h
      have hcontent : objectContent store = [] := by
        rw [objectContent, ObjectStore.current, hl]
        rfl
      rw [hcontent, hstore]
      exact ⟨Function.update_self .., Function.update_self ..⟩
    | some g =>
      rw [hm, hl] at h
      obtain ⟨h1, h2⟩ := hpin hm (by rw [hl]; exact Option.some_ne_none g)
      obtain ⟨hstore, g', size, -, rfl⟩ := createResumed_ok h
      rw [h1, h2] at hstore
      have hcontent : objectContent store = store.contents g := by
        rw [objectContent, ObjectStore.current, hl]
        rfl
      rw [hcontent, hstore]
      exact ⟨rfl, hdurable g hl⟩

omit [MetadataProto] in
/-- The storage that `Create` returned does what an upload does that holds the object. -/
lemma TokenLog.OpenedOn.exists_upload {w : TokenLog} {store : ObjectStore UInt8}
    (h : w.OpenedOn store)
    (hdurable : ∀ g ∈ store.live, store.durable g = (store.contents g).length) :
    ∃ u : Upload, ActsAs w u ∧ bytes u = objectContent store ∧
      u.flushed = (objectContent store).length := by
  obtain ⟨⟨bucket, object, calls, storage, store', hpin, hmissing, hcreate, hsession⟩, hpatient⟩ :=
    h
  obtain ⟨hcontents, hdurable'⟩ := objectContent_of_create hpin hmissing hcreate hdurable
  have hlog := GcsLog.hasLog_of_opened (w := w.log)
    ⟨⟨bucket, object, calls, store, storage, store', hpin, hcreate, hsession⟩,
      fun attempts ha => (hpatient attempts ha).alone⟩
  have hbase : w.log.session.base = objectContent store := by
    rw [hsession]
    exact hcontents
  rw [hbase] at hlog
  refine ⟨.ofObject (objectContent store) (w.log.syncs.map SyncCalls.flush),
    ⟨hlog, hpatient, ?_, ?_, rfl⟩, rfl, rfl⟩
  · rw [TokenLog.written, hsession]
    exact hcontents.trans (List.take_length ..).symm
  · rw [TokenLog.durable, hsession]
    exact hdurable'

/-- `Init` does what it does over the upload. -/
lemma sameMapper_init {w : TokenLog} {u : Upload} (h : ActsAs w u) :
    (init (new w)).1 = (init (new u)).1 ∧
      SameMapper ActsAs (init (new w)).2 (init (new u)).2 := by
  have : Nonempty Upload := ⟨u⟩
  have htoken : (init (new w)).2.storage.token = w.token :=
    init_frame (fun data w => (TokenLog.token_append data w).1) TokenLog.token_pRead
      (fun _ => rfl) (new w)
  refine TokenLog.lockstep_upload.init.agree (new w) (new u) ⟨u, rfl, h⟩ ?_
  show ¬ (init (new w)).2.storage.token = false
  rw [htoken, show w.token = true from h.hasLog.token]
  decide

/-- **What a visit leaves**: a first part of the log of an upload, after first calls of the visit
and a further `Sync`. No `Sync` behind them leaves the token.

**Proof sketch.** The calls are all those of the visit, unless the token is taken away in it
(`calls_cases`): then the object is left alone from there on. -/
theorem Visit.ended_spec (v : Visit) {u : Upload} (h : ActsAs v.storage u)
    {m : BlockMapper Upload} (hm : m = (init (new u)).2) :
    ∃ pre, (pre = v.calls ∨ pre ++ [.op .sync] <+: v.calls) ∧
      (∀ p, p ++ [.op .sync] <+: v.calls →
        (final Call.run (p ++ [.op .sync]) v.mapper).storage.token = true →
        p ++ [.op .sync] <+: pre) ∧
      Leaves v.ended (final Call.run pre m).sync.2.storage.content
        (final Call.run pre m).storage.flushed := by
  have hinit : SameMapper ActsAs v.mapper m := hm ▸ (sameMapper_init h).2
  have hgrown : ∀ t : BlockMapper Upload, t.storage.content <+: t.sync.2.storage.content ∧
      t.storage.flushed ≤ t.sync.2.storage.flushed := fun t =>
    (storageKeeps_grown t.storage.content t.storage.flushed).call (.call (.op .sync))
      ⟨List.prefix_rfl, le_rfl⟩
  rcases calls_cases hinit v.calls with hsame | ⟨pre, hpre, hsame, hbroken⟩
  · refine ⟨v.calls, Or.inl rfl, fun p hp _ => hp, ?_⟩
    have hbefore := hsame.storage.leaves.mono (hgrown (final Call.run v.calls m)).1 le_rfl
    rw [Visit.ended]
    split_ifs
    · by_cases htoken : (final Call.run v.calls v.mapper).storage.sync.2.token = true
      · obtain ⟨hcontent, -, hflushed⟩ := Upload.sync_spec (final Call.run v.calls m).storage
        have hafter := (hsame.storage.sync htoken).2.leaves
        rw [hcontent] at hafter
        exact hafter.mono (hgrown (final Call.run v.calls m)).1 hflushed
      · exact hbefore.broken (TokenLog.broken_sync ((Bool.not_eq_true _).mp htoken)
          hsame.storage.hasLog.alone)
    · by_cases htoken : (final Call.run v.calls v.mapper).sync.2.storage.token = false
      · have hlost : ((Call.op .sync).run (final Call.run v.calls v.mapper)).2.storage.token =
          false := htoken
        exact hbefore.broken (broken_call hsame.storage hlost).2
      · have hafter := ((lockstep_call (.op .sync)).agree _ _ hsame htoken).2
        exact hafter.storage.leaves.mono List.prefix_rfl (hgrown (final Call.run v.calls m)).2
  · refine ⟨pre, Or.inr hpre, fun p hp htoken => ?_, ?_⟩
    · have hlater : ¬ pre ++ [.op .sync] <+: p ++ [.op .sync] := fun hle =>
        absurd ((broken_calls hle hbroken).token.symm.trans htoken) (by decide)
      rcases List.prefix_or_prefix_of_prefix hp hpre with hle | hle
      · rcases List.prefix_concat_iff.mp hle with heq | hle
        · exact absurd (heq ▸ List.prefix_rfl) hlater
        · exact hle
      · exact absurd hle hlater
    · have hkeeps := TokenLog.storageKeeps_broken (final Call.run pre v.mapper).storage.store
        (final Call.run pre v.mapper).storage.generation
      have hend := broken_calls hpre hbroken
      refine (hsame.storage.leaves.mono (hgrown (final Call.run pre m)).1 le_rfl).broken ?_
      rw [Visit.ended]
      split_ifs
      · exact hkeeps.sync _ hend
      · exact hkeeps.call (.call (.op .sync)) hend

/-- A `Sync` that has flushed everything is one that does so of the upload. -/
lemma Flushes.upload {m : BlockMapper TokenLog} {m' : BlockMapper Upload}
    (hsame : SameMapper ActsAs m m') (h : Flushes m) :
    m'.sync.1 = .ok () ∧ m'.sync.2.storage.flushed = m'.sync.2.storage.content.length := by
  obtain ⟨hok, htoken, hflushed⟩ := h
  obtain ⟨hreply, hafter⟩ := (lockstep_call (.op .sync)).agree m m' hsame
    (by show ¬ m.sync.2.storage.token = false; rw [htoken]; decide)
  have hok' : m'.sync.1 = .ok () := (Reply.done.inj hreply).symm.trans hok
  refine ⟨hok', ?_⟩
  rcases sync_storage (I := fun _ => True) (fun _ _ _ => trivial) (m := m') trivial with
    ⟨hfail, -⟩ | ⟨u, -, -, hu⟩
  · exact absurd hok' hfail
  · obtain ⟨hcontent, hsent, -⟩ := Upload.sync_spec u
    have hlength : m'.sync.2.storage.sent = m'.sync.2.storage.content.length := by
      rw [hu]
      exact hsent.trans (congrArg List.length hcontent).symm
    have hacts : ActsAs m.sync.2.storage m'.sync.2.storage := hafter.storage
    rw [← hacts.durable, hflushed, hacts.written, hlength, List.take_length]

/-- **What a visit leaves in the bucket**: the log of an upload, after first calls of the visit and
a further `Sync`, cut off behind what is flushed before it. The calls contain every `Sync` that has
flushed everything, of which the upload has then done so, too. -/
lemma Visit.object_spec {v : Visit} {store : ObjectStore UInt8} (hopened : v.storage.OpenedOn store)
    (hstore : ∀ g ∈ store.live, store.durable g = (store.contents g).length)
    (hdurable : v.ended.durable ≤ v.left) :
    ∃ (u : Upload) (m : BlockMapper Upload) (pre : List Call) (n : ℕ),
      u.content = objectContent store ∧ m = (init (new u)).2 ∧
      (pre = v.calls ∨ pre ++ [.op .sync] <+: v.calls) ∧
      (∀ p, SyncFollows Flushes v.mapper v.calls p → SyncFollows (fun m => m.sync.1 = .ok () ∧
        m.sync.2.storage.flushed = m.sync.2.storage.content.length) m pre p) ∧
      objectContent v.object = (final Call.run pre m).sync.2.storage.content.take n ∧
      (objectContent store).length ≤ n ∧ (final Call.run pre m).storage.flushed ≤ n ∧
      ∀ g ∈ v.object.live, v.object.durable g = (v.object.contents g).length := by
  obtain ⟨u, hacts, hbytes, hstart⟩ := hopened.exists_upload hstore
  have hinit : SameMapper ActsAs v.mapper (init (new u)).2 := (sameMapper_init hacts).2
  obtain ⟨pre, hpre, hpromised, hleaves⟩ := v.ended_spec hacts rfl
  -- what is left of the object is a first part of the log of the upload
  have hlive : v.object.live = some v.ended.generation := hleaves.live
  have hleft : v.object.contents v.ended.generation = v.ended.written.take v.left :=
    Function.update_self ..
  have hflushed : (final Call.run pre (init (new u)).2).storage.flushed ≤
      min v.left v.ended.written.length :=
    le_min (hleaves.durable.trans hdurable)
      (hleaves.durable.trans (v.ended.store.durable_le _))
  refine ⟨u, _, pre, min v.left v.ended.written.length, hbytes, rfl, hpre, fun p hp => ?_, ?_, ?_,
    hflushed, fun g hg => ?_⟩
  · obtain ⟨hp, hflushes⟩ := hp
    have htoken : (final Call.run (p ++ [.op .sync]) v.mapper).storage.token = true := by
      rw [final_concat_sync]
      exact hflushes.2.1
    have hbefore : (final Call.run p v.mapper).storage.token = true := by
      by_contra hfalse
      have hlost := (lockstep_call (.op .sync)).bad _ ((Bool.not_eq_true _).mp hfalse)
      rw [final_concat_sync] at htoken
      exact absurd (hlost.symm.trans htoken) (by decide)
    exact ⟨hpromised p hp htoken, hflushes.upload (sameMapper_of_token hinit hbefore)⟩
  · rw [objectContent, ObjectStore.current, hlive, Option.map_some, Option.getD_some, hleft,
      ← List.take_take]
    exact congrArg (List.take v.left) (List.prefix_iff_eq_take.mp hleaves.written)
  · have hopened := (storageKeeps_grown [] u.flushed).call .init (m := new u)
      ⟨List.nil_prefix, le_rfl⟩
    exact hstart.ge.trans (hopened.2.trans ((flushed_mono List.nil_prefix).trans hflushed))
  · obtain rfl := Option.some.inj (hlive.symm.trans hg)
    exact (Function.update_self ..).trans (congrArg List.length hleft).symm

/-- **What is kept of one visit**, and that all that the object holds then is durable. -/
lemma Visit.keeps_first_part (hp : MetadataProto.RoundTrips) {v : Visit}
    {store : ObjectStore UInt8} (hopened : v.storage.OpenedOn store)
    (hstore : ∀ g ∈ store.live, store.durable g = (store.contents g).length) {f : BlockFile}
    (h : StandsFor (objectContent store) f)
    (htail : (padded (objectContent store)).getLast? ≠ some 2)
    (hdurable : v.ended.durable ≤ v.left) :
    (∃ kept, v.Keeps kept ∧ StandsFor (objectContent v.object) (BlockFile.after kept f)) ∧
      ∀ g ∈ v.object.live, v.object.durable g = (v.object.contents g).length := by
  obtain ⟨u, m, pre, n, hbytes, hm, hpre, hpromised, hcontent, hfirst, hflushed, hstore'⟩ :=
    v.object_spec hopened hstore hdurable
  rw [← hbytes] at h htail hfirst
  obtain ⟨kept, hkept, hall, hlog⟩ := kept_of_init hp
    (P := fun m : BlockMapper Upload => m.sync.1 = .ok () ∧
      m.sync.2.storage.flushed = m.sync.2.storage.content.length)
    (fun _ h => h.1) trivial h htail hm pre hfirst (fun p hp' => by
      have hle := (flushed_mono (m := m) hp'.1).trans hflushed
      rw [final_concat_sync] at hle ⊢
      exact hp'.2.2.symm.le.trans hle)
  refine ⟨⟨kept, ⟨?_, fun p hp' => hall p (hpromised p hp')⟩, hcontent ▸ hlog⟩, hstore'⟩
  rcases hpre with rfl | hpre
  · exact hkept
  · exact hkept.trans (hpre.trans (List.prefix_append ..))

/-- **The object of a lifetime** stands for the file that the parts that are kept make of an empty
one, and all that it holds is durable. -/
lemma ObjectLifetime.standsFor (hp : MetadataProto.RoundTrips) {vs : List Visit}
    {store : ObjectStore UInt8} (h : ObjectLifetime vs store) :
    (∃ kept : List (List Call), List.Forall₂ Visit.Keeps vs kept ∧
      StandsFor (objectContent store) (BlockFile.after kept.flatten .empty)) ∧
      ∀ g ∈ store.live, store.durable g = (store.contents g).length := by
  induction h with
  | new hmissing =>
    refine ⟨⟨[], .nil, ?_⟩, fun g hg => ?_⟩
    · rw [objectContent, ObjectStore.current, hmissing]
      exact standsFor_nil
    · rw [hmissing] at hg
      cases hg
  | next h hopened htail hdurable ih =>
    obtain ⟨⟨kept, hkeeps, hlog⟩, hstore⟩ := ih
    obtain ⟨⟨last, hlast, hlog'⟩, hstore'⟩ :=
      Visit.keeps_first_part hp hopened hstore hlog htail hdurable
    refine ⟨⟨kept ++ [last], List.rel_append hkeeps (.cons hlast .nil), ?_⟩, hstore'⟩
    rw [List.flatten_append, BlockFile.after_append, List.flatten_singleton]
    exact hlog'

end Visits

/-- The storage that a `Create` returns whose requests succeed. -/
def reopened (store : ObjectStore UInt8) (syncs : List SyncCalls)
    (attempts : List (List Attempt)) : TokenLog :=
  match store.live with
  | none => ⟨.start (.ofWriter "bucket" "object" store.next (store.create [])) (store.create []),
      syncs, attempts⟩
  | some g => ⟨.start { GcsRapidStorage.ofWriter "bucket" "object" g store with
      descriptor := some ⟨g, none⟩ } store, syncs, attempts⟩

/-- It is such a storage. -/
lemma openedOn_reopened {store : ObjectStore UInt8} {syncs : List SyncCalls}
    {attempts : List (List Attempt)} (h : ∀ l ∈ attempts, TokenLog.Patient l) :
    (reopened store syncs attempts).OpenedOn store := by
  have hmissing : ∀ e ∈ CreateCalls.succeed.metadata, e.code ≠ .notFound := fun e he => nomatch he
  refine ⟨⟨"bucket", "object", .succeed, (reopened store syncs attempts).log.session.storage,
    (reopened store syncs attempts).store, fun _ _ => ⟨rfl, rfl⟩, hmissing, ?_, ?_⟩, ?_⟩
  · unfold GcsRapidStorage.create reopened
    cases hl : store.live with
    | none => rfl
    | some g =>
      show GcsRapidStorage.createResumed "bucket" "object" g .succeed store = _
      unfold GcsRapidStorage.createResumed GcsRapidStorage.openDescriptor
      dsimp only [CreateCalls.succeed, replaceAll, List.foldl_nil]
      rw [hl]
      rfl
  · unfold reopened
    cases store.live <;> rfl
  · unfold reopened
    cases store.live <;> exact h

/-- A read that comes out short once. -/
def staleRead : List Attempt := [⟨[], .ok none, .ok 0⟩]

/-- It is patient. -/
lemma patient_staleRead : ∀ l ∈ [staleRead], TokenLog.Patient l := by
  intro l hl
  obtain rfl := List.mem_singleton.mp hl
  refine ⟨by decide, by decide, ?_, ?_⟩
  · intro a ha
    obtain rfl := List.mem_singleton.mp ha
    exact ⟨none, rfl⟩
  · intro a ha e he
    obtain rfl := List.mem_singleton.mp ha
    cases he

/-- A visit of a new object: it writes a block and syncs, and dies 100 bytes into the `Write` of the
`Sync` of a second block. -/
def tornVisit : Visit where
  storage := reopened .empty [⟨none, none⟩, ⟨none, some ⟨.unavailable, "Flush failed"⟩⟩] []
  calls := [.op (.write [1, 2, 3] 0), .op .sync, .read 3 0, .op (.write [4] 4096)]
  destroyed := false
  left := 4205

/-- The visit behind `tornVisit`: its first `Write` fails, and its storage is destroyed. -/
def failedVisit [MetadataProto] : Visit where
  storage := reopened tornVisit.object [⟨some ⟨.unavailable, "Write failed"⟩, none⟩] [staleRead]
  calls := [.op (.truncate 0), .op .sync]
  destroyed := true
  left := 4205

/-- The lifetime of `tornVisit` and `failedVisit`. -/
lemma objectLifetime_torn :
    letI := wireProto
    ObjectLifetime [tornVisit, failedVisit] failedVisit.object := by
  let _ := wireProto
  have hfirst : ObjectLifetime ([] ++ [tornVisit]) tornVisit.object := by
    refine .next (.new (rfl : ObjectStore.empty.live = none)) ?_ (by decide) (by decide +kernel)
    dsimp only [tornVisit]
    exact openedOn_reopened (by simp)
  refine .next hfirst ?_ (by decide +kernel) (by decide +kernel)
  dsimp only [failedVisit]
  exact openedOn_reopened patient_staleRead

end SqliteGcs
