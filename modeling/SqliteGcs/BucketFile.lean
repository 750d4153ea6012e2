import SqliteGcs.ObjectLifetime
import SqliteGcs.OrdinaryLifetime

set_option relaxedAutoImplicit false
set_option autoImplicit false

/-!
# An ordinary file in a bucket

What a database engine gets in the end. Its file is an object, which one process after the other
opens through the VFS: the file methods call the mapper, the mapper appends to the storage, and the
storage uploads to the object. This file puts these levels together, over the whole lifetime of the
object. An engine whose pages are blocks finds an ordinary file at each opening, and all its
calls return what those of an ordinary file do until a `Write` fails.

## Main definitions

* `SqliteGcs.mapperCalls` — the calls of the mapper that calls of the file methods make.
* `SqliteGcs.FileVisit` — one visit of the database by an engine.
* `SqliteGcs.FileVisit.Keeps` — which calls of a visit are kept.

## Main results

* `SqliteGcs.final_ioCalls` — a run of the file methods is a run of the mapper.
* `SqliteGcs.StorageLockstep.io` — the file methods over two storages go in lockstep.
* `SqliteGcs.bucket_file_is_ordinary` — an object is an ordinary file through its whole lifetime.
-/

namespace SqliteGcs

open Bytes PageTable BlockMapper Machine

/-! ## The file methods and the mapper -/

section Methods

variable {σ : Type}

/-- The reply to a read of so many bytes less than were asked for. -/
def readReply (code : ResultCode) (missing : ℕ) : Except Status (List UInt8) → IoReply
  | .error _ => .data .ioerrRead []
  | .ok bytes => .data code (bytes ++ List.replicate missing 0)

/-- The reply to a call that returns a status. -/
def codeReply (code : ResultCode) : Except Status Unit → IoReply
  | .error _ => .code code
  | .ok _ => .code .ok

/-- The calls of the mapper that a call makes on a file of some size: one of them, or none. -/
def IoCall.calls (logicalSize : ℤ) : IoCall → List Call
  | .read iAmt iOfst =>
    if iOfst ≥ logicalSize then []
    else if iOfst + iAmt > logicalSize then [.read (u64 (logicalSize - iOfst)) iOfst]
    else [.read iAmt iOfst]
  | .write buf iOfst => [.op (.write buf iOfst)]
  | .truncate size => [.op (.truncate size)]
  | .sync => [.op .sync]
  | .fileSize => []

variable [AppendOnlyStorage σ] [MetadataProto]

/-- A call on the mapper of a file of some size. -/
def IoCall.onMapper (logicalSize : ℤ) : IoCall → BlockMapper σ → IoReply × BlockMapper σ
  | .read iAmt iOfst, m =>
    if iOfst ≥ logicalSize then (.data .ioerrShortRead (List.replicate iAmt 0), m)
    else if iOfst + iAmt > logicalSize then
      let r := m.read (u64 (logicalSize - iOfst)) iOfst
      (readReply .ioerrShortRead (iAmt - (logicalSize - iOfst)).toNat r.1, r.2)
    else
      let r := m.read iAmt iOfst
      (readReply .ok 0 r.1, r.2)
  | .write buf iOfst, m =>
    let r := m.write buf iOfst
    (codeReply .ioerrWrite r.1, r.2)
  | .truncate size, m =>
    let r := m.truncate size
    (codeReply .ioerrTruncate r.1, r.2)
  | .sync, m =>
    let r := m.sync
    (codeReply .ioerrDirty r.1, r.2)
  | .fileSize, m => (.size .ok logicalSize, m)

/-- **A call of a file method is one on its mapper.** -/
lemma IoCall.run_some (c : IoCall) (m : BlockMapper σ) :
    c.run ⟨some m⟩ =
      ((c.onMapper m.logicalSize m).1, ⟨some (c.onMapper m.logicalSize m).2⟩) := by
  cases c with
  | read iAmt iOfst =>
    rw [IoCall.run, xRead, IoCall.onMapper]
    dsimp only
    split_ifs
    · rfl
    · generalize m.read (u64 (m.logicalSize - iOfst)) iOfst = r
      obtain ⟨e | bytes, m'⟩ := r <;> rfl
    · generalize m.read iAmt iOfst = r
      obtain ⟨e | bytes, m'⟩ := r
      · rfl
      · simp [readReply]
  | write buf iOfst =>
    rw [IoCall.run, xWrite, IoCall.onMapper]
    dsimp only
    generalize m.write buf iOfst = r
    obtain ⟨e | u, m'⟩ := r <;> rfl
  | truncate size =>
    rw [IoCall.run, xTruncate, IoCall.onMapper]
    dsimp only
    generalize m.truncate size = r
    obtain ⟨e | u, m'⟩ := r <;> rfl
  | sync =>
    rw [IoCall.run, xSync, IoCall.onMapper]
    dsimp only
    generalize m.sync = r
    obtain ⟨e | u, m'⟩ := r <;> rfl
  | fileSize => rfl

/-- The mapper after a call of a file method. -/
lemma IoCall.onMapper_snd (c : IoCall) (logicalSize : ℤ) (m : BlockMapper σ) :
    (c.onMapper logicalSize m).2 = final Call.run (c.calls logicalSize) m := by
  cases c with
  | read iAmt iOfst =>
    rw [IoCall.onMapper, IoCall.calls]
    split_ifs <;> rfl
  | _ => rfl

/-- The calls of the mapper that calls of the file methods make. -/
def mapperCalls : List IoCall → BlockMapper σ → List Call
  | [], _ => []
  | c :: calls, m =>
    c.calls m.logicalSize ++ mapperCalls calls (final Call.run (c.calls m.logicalSize) m)

/-- **A run of the file methods is a run of the mapper.** -/
theorem final_ioCalls (calls : List IoCall) (m : BlockMapper σ) :
    final IoCall.run calls ⟨some m⟩ = ⟨some (final Call.run (mapperCalls calls m) m)⟩ := by
  induction calls generalizing m with
  | nil => rfl
  | cons c calls ih =>
    rw [mapperCalls, final_append, ← ih, ← c.onMapper_snd]
    show final IoCall.run calls (c.run ⟨some m⟩).2 = _
    rw [c.run_some]

/-- The calls that a run in two parts makes. -/
lemma mapperCalls_append (calls calls' : List IoCall) (m : BlockMapper σ) :
    mapperCalls (calls ++ calls') m =
      mapperCalls calls m ++ mapperCalls calls' (final Call.run (mapperCalls calls m) m) := by
  induction calls generalizing m with
  | nil => rfl
  | cons c calls ih =>
    rw [List.cons_append, mapperCalls, mapperCalls, ih, List.append_assoc, final_append]

end Methods

/-! ## Files over two storages -/

section Lockstep

variable {σ τ : Type} {R : σ → τ → Prop} {Bad : σ → Prop}

/-- Two open files whose mappers differ at most in their storages, which are related. -/
def Alike (R : σ → τ → Prop) (file : AppendOnlyFile σ) (file' : AppendOnlyFile τ) : Prop :=
  ∃ m m', file = ⟨some m⟩ ∧ file' = ⟨some m'⟩ ∧ SameMapper R m m'

/-- An open file whose storage is spoiled. -/
def Spoiled (Bad : σ → Prop) (file : AppendOnlyFile σ) : Prop :=
  ∃ m, file = ⟨some m⟩ ∧ Bad m.storage

variable [AppendOnlyStorage σ] [AppendOnlyStorage τ] [MetadataProto]

/-- A call on the mappers of two files of the same size. -/
lemma StorageLockstep.onMapper [Nonempty τ] (h : StorageLockstep R Bad) (c : IoCall)
    (logicalSize : ℤ) :
    MapperLockstep R Bad (c.onMapper logicalSize) (c.onMapper logicalSize) := by
  cases c with
  | read iAmt iOfst =>
    exact StorageLockstep.check (fun _ _ => Iff.rfl) (.pure _) <|
      StorageLockstep.check (fun _ _ => Iff.rfl)
        ((h.read _ iOfst).map (readReply .ioerrShortRead (iAmt - (logicalSize - iOfst)).toNat))
        ((h.read iAmt iOfst).map (readReply .ok 0))
  | write buf iOfst => exact (h.write buf iOfst).map (codeReply .ioerrWrite)
  | truncate size => exact (StorageLockstep.truncate size).map (codeReply .ioerrTruncate)
  | sync => exact h.mapperSync.map (codeReply .ioerrDirty)
  | fileSize => exact .pure _

/-- **The file methods over two storages go in lockstep** if the operations of the storages do. -/
theorem StorageLockstep.io [Nonempty τ] (h : StorageLockstep R Bad) (c : IoCall) :
    Lockstep (Alike R) (Spoiled Bad) c.run c.run where
  bad := by
    rintro _ ⟨m, rfl, hm⟩
    rw [c.run_some]
    exact ⟨_, rfl, (h.onMapper c m.logicalSize).bad m hm⟩
  agree := by
    rintro _ _ ⟨m, m', rfl, rfl, hsame⟩ hbad
    have hsize : m'.logicalSize = m.logicalSize := by
      obtain ⟨t, rfl, -⟩ := hsame
      rfl
    rw [c.run_some] at hbad
    rw [c.run_some, c.run_some, hsize]
    obtain ⟨hreply, hafter⟩ := (h.onMapper c m.logicalSize).agree m m' hsame
      fun hm => hbad ⟨_, rfl, hm⟩
    exact ⟨hreply, _, _, rfl, rfl, hafter⟩

end Lockstep

/-! ## Calls for whole blocks -/

/-- A call makes no call of the mapper, and then it is not `xSync`; or it makes one. -/
lemma IoCall.calls_cases (c : IoCall) (logicalSize : ℤ) :
    c.calls logicalSize = [] ∧ c ≠ .sync ∨ ∃ d, c.calls logicalSize = [d] := by
  cases c with
  | read iAmt iOfst =>
    rw [IoCall.calls]
    split_ifs
    · exact Or.inl ⟨rfl, IoCall.noConfusion⟩
    · exact Or.inr ⟨_, rfl⟩
    · exact Or.inr ⟨_, rfl⟩
  | fileSize => exact Or.inl ⟨rfl, IoCall.noConfusion⟩
  | _ => exact Or.inr ⟨_, rfl⟩

/-- The calls of the mapper that a call for whole blocks makes are for whole blocks. -/
lemma IoCall.Aligned.calls {c : IoCall} (h : c.Aligned) (logicalSize : ℤ) :
    ∀ d ∈ c.calls logicalSize, d.Aligned := by
  cases c with
  | read iAmt iOfst =>
    rw [IoCall.calls]
    split_ifs <;> simp [Call.Aligned, Call.ioCall, IoCall.Aligned]
  | write buf iOfst =>
    intro d hd
    obtain rfl := List.mem_singleton.mp hd
    exact h
  | truncate size =>
    intro d hd
    obtain rfl := List.mem_singleton.mp hd
    exact h
  | sync => simp [IoCall.calls, Call.Aligned, Call.ioCall, IoCall.Aligned]
  | fileSize => simp [IoCall.calls]

/-- They do to an ordinary file what the call does. -/
lemma contentAfter_calls (c : IoCall) (logicalSize : ℤ) (content : List UInt8) :
    contentAfter (c.calls logicalSize) content = (c.onContent content).2 := by
  cases c with
  | read iAmt iOfst =>
    rw [IoCall.calls]
    split_ifs <;> rfl
  | _ => rfl

lemma contentAfter_append (calls calls' : List Call) (content : List UInt8) :
    contentAfter (calls ++ calls') content = contentAfter calls' (contentAfter calls content) := by
  rw [contentAfter, List.map_append, final_append]
  rfl

section Runs

variable {σ : Type} [AppendOnlyStorage σ] [MetadataProto]

/-- The calls of the mapper that calls for whole blocks make are for whole blocks. -/
lemma aligned_mapperCalls {calls : List IoCall} (h : ∀ c ∈ calls, c.Aligned) (m : BlockMapper σ) :
    ∀ d ∈ mapperCalls calls m, d.Aligned := by
  induction calls generalizing m with
  | nil => simp [mapperCalls]
  | cons c calls ih =>
    intro d hd
    rcases List.mem_append.mp hd with hd | hd
    · exact (h c List.mem_cons_self).calls _ d hd
    · exact ih (fun c hc => h c (List.mem_cons_of_mem _ hc)) _ d hd

/-- **A first part of the calls of the mapper** comes from a first part of the calls of the file
methods, and contains the `Sync` of every `xSync` of that part.

**Proof sketch.** Induction on the calls of the file methods. One that makes no call of the mapper
is taken along. -/
lemma exists_ioCalls {calls : List IoCall} {m : BlockMapper σ} {kept : List Call}
    (h : kept <+: mapperCalls calls m ++ [.op .sync]) :
    ∃ kept', kept' <+: calls ++ [.sync] ∧
      (∀ content, final IoCall.onContent kept' content = contentAfter kept content) ∧
      ∀ pre, pre ++ [.sync] <+: calls → mapperCalls pre m ++ [.op .sync] <+: kept →
        pre ++ [.sync] <+: kept' := by
  induction calls generalizing m kept with
  | nil =>
    have hnone : ∀ pre, ¬ pre ++ [IoCall.sync] <+: [] := fun pre hpre => by simp at hpre
    rcases List.prefix_cons_iff.mp h with rfl | ⟨rest, rfl, hrest⟩
    · exact ⟨[], List.nil_prefix, fun _ => rfl, fun pre hpre => absurd hpre (hnone pre)⟩
    · obtain rfl := List.prefix_nil.mp hrest
      exact ⟨[.sync], List.prefix_rfl, fun _ => rfl, fun pre hpre => absurd hpre (hnone pre)⟩
  | cons c calls ih =>
    rw [mapperCalls, List.append_assoc] at h
    have hcontent := contentAfter_calls c m.logicalSize
    rcases c.calls_cases m.logicalSize with ⟨hcalls, hc⟩ | ⟨d, hcalls⟩
    · rw [hcalls] at h hcontent
      obtain ⟨kept', hfirst, hafter, hall⟩ := ih h
      refine ⟨c :: kept', List.cons_prefix_cons.mpr ⟨rfl, hfirst⟩, fun content => ?_,
        fun pre hpre hkept => ?_⟩
      · show final IoCall.onContent kept' (c.onContent content).2 = _
        rw [← hcontent, hafter]
        rfl
      · cases pre with
        | nil => exact absurd (List.cons_prefix_cons.mp hpre).1.symm hc
        | cons c' pre =>
          obtain ⟨rfl, htail⟩ := List.cons_prefix_cons.mp hpre
          rw [mapperCalls, hcalls] at hkept
          exact List.cons_prefix_cons.mpr ⟨rfl, hall pre htail hkept⟩
    · rw [hcalls] at h hcontent
      rcases List.prefix_cons_iff.mp h with rfl | ⟨rest, rfl, hrest⟩
      · exact ⟨[], List.nil_prefix, fun _ => rfl, fun pre _ hkept => by simp at hkept⟩
      · obtain ⟨kept', hfirst, hafter, hall⟩ := ih hrest
        refine ⟨c :: kept', List.cons_prefix_cons.mpr ⟨rfl, hfirst⟩, fun content => ?_,
          fun pre hpre hkept => ?_⟩
        · show final IoCall.onContent kept' (c.onContent content).2 = _
          rw [← hcontent, hafter, ← contentAfter_append]
          rfl
        · cases pre with
          | nil =>
            obtain ⟨rfl, -⟩ := List.cons_prefix_cons.mp hpre
            exact List.cons_prefix_cons.mpr ⟨rfl, List.nil_prefix⟩
          | cons c' pre =>
            obtain ⟨rfl, htail⟩ := List.cons_prefix_cons.mp hpre
            rw [mapperCalls, hcalls, List.append_assoc] at hkept
            obtain ⟨-, hkept⟩ := List.cons_prefix_cons.mp hkept
            exact List.cons_prefix_cons.mpr ⟨rfl, hall pre htail hkept⟩

end Runs

/-! ## Visits by an engine -/

open TokenLog (ActsAs)

/-- One visit of the database by an engine. -/
structure FileVisit where
  /-- The storage that `Create` returned, and what its requests return. -/
  storage : TokenLog
  /-- The calls of the file methods that return. -/
  calls : List IoCall
  /-- Whether the file is closed at the end. Else the process dies, by which time a further `xSync`
  may have begun. -/
  closed : Bool
  /-- The bytes that are left of the object. -/
  left : ℕ

/-- No `Write` of the storage of a file has failed. -/
def Unfailed (file : AppendOnlyFile TokenLog) : Prop := ∀ m ∈ file.mapper, m.storage.token = true

/-- An `xSync` in this state returns `SQLITE_OK`, no `Write` has failed by then, and what was
written is flushed. -/
def FlushesFile (file : AppendOnlyFile TokenLog) : Prop :=
  (xSync file).1 = .ok ∧ Unfailed (xSync file).2 ∧
    ∀ m ∈ (xSync file).2.mapper, m.storage.durable = m.storage.written.length

section Visits

variable [MetadataProto]

namespace FileVisit

/-- The mapper of the file that is opened. -/
def mapper (v : FileVisit) : BlockMapper TokenLog := (init (new v.storage)).2

/-- The visit, with the calls of the mapper. -/
def visit (v : FileVisit) : Visit := ⟨v.storage, mapperCalls v.calls v.mapper, v.closed, v.left⟩

/-- The calls that are kept are first ones, and contain every `xSync` that has flushed everything.
The `xSync` that was cut off may be one of them. -/
structure Keeps (v : FileVisit) (kept : List IoCall) : Prop where
  first : kept <+: v.calls ++ [.sync]
  flushed : ∀ pre, pre ++ [.sync] <+: v.calls →
    FlushesFile (final IoCall.run pre ⟨some v.mapper⟩) → pre ++ [.sync] <+: kept

end FileVisit

omit [MetadataProto] in
/-- An `xSync` that has flushed everything is a `Sync` that has. -/
lemma FlushesFile.flushes {m : BlockMapper TokenLog} (h : FlushesFile ⟨some m⟩) : Flushes m := by
  obtain ⟨hok, htoken, hdurable⟩ := h
  unfold Flushes
  rw [xSync] at hok htoken hdurable
  dsimp only at hok htoken hdurable
  generalize m.sync = r at hok htoken hdurable ⊢
  obtain ⟨e | u, m'⟩ := r
  · cases hok
  · exact ⟨rfl, htoken m' rfl, hdurable m' rfl⟩

/-- **What is kept of a visit** comes from what is kept of its calls of the mapper. -/
lemma FileVisit.exists_keeps {v : FileVisit} {kept : List Call} (h : v.visit.Keeps kept) :
    ∃ kept', v.Keeps kept' ∧
      ∀ content, final IoCall.onContent kept' content = contentAfter kept content := by
  obtain ⟨kept', hfirst, hcontent, hall⟩ := exists_ioCalls h.first
  refine ⟨kept', ⟨hfirst, fun pre hpre hflushes => hall pre hpre (h.flushed _ ⟨?_, ?_⟩)⟩, hcontent⟩
  · obtain ⟨rest, hrest⟩ := hpre
    have hcalls := mapperCalls_append (pre ++ [.sync]) rest v.mapper
    rw [hrest, mapperCalls_append] at hcalls
    exact ⟨_, hcalls.symm⟩
  · rw [final_ioCalls] at hflushes
    exact hflushes.flushes

/-- What is kept of visits. -/
lemma exists_forall_keeps {vs : List FileVisit} {kept : List (List Call)}
    (h : List.Forall₂ Visit.Keeps (vs.map FileVisit.visit) kept) :
    ∃ kept' : List (List IoCall), List.Forall₂ FileVisit.Keeps vs kept' ∧
      ∀ content, final IoCall.onContent kept'.flatten content =
        contentAfter kept.flatten content := by
  rw [List.forall₂_map_left_iff] at h
  induction h with
  | nil => exact ⟨[], .nil, fun _ => rfl⟩
  | cons hv _ ih =>
    obtain ⟨first, hfirst, hafter⟩ := FileVisit.exists_keeps hv
    obtain ⟨rest, hrest, hcontent⟩ := ih
    refine ⟨first :: rest, .cons hfirst hrest, fun content => ?_⟩
    rw [List.flatten_cons, List.flatten_cons, final_append, contentAfter_append, hafter, hcontent]

/-- A lifetime of calls for whole blocks leaves sizes of whole blocks in the object. -/
lemma ObjectLifetime.wholeLog (hp : MetadataProto.RoundTrips) {vs : List Visit}
    {store : ObjectStore UInt8} (h : ObjectLifetime vs store)
    (hcalls : ∀ v ∈ vs, ∀ c ∈ v.calls, c.Aligned) : WholeLog (objectContent store) := by
  induction h with
  | new hmissing =>
    rw [objectContent, ObjectStore.current, hmissing]
    exact wholeLog_nil
  | @next vs store v h hopened htail hdurable ih =>
    obtain ⟨u, m, pre, n, hbytes, hm, hpre, -, hcontent, hfirst, -, -⟩ :=
      v.object_spec hopened (h.standsFor hp).2 hdurable
    have hlog := ih fun v hv => hcalls v (List.mem_append_left _ hv)
    rw [← hbytes] at hlog htail hfirst
    rw [hcontent]
    refine wholeLog_of_init hp trivial hlog htail hm (fun c hc => ?_) hfirst
    rcases hpre with rfl | hpre
    · exact hcalls v (by simp) c hc
    · exact hcalls v (by simp) c (hpre.subset (List.mem_append_left _ hc))

end Visits

/-- A visit of a new object: it writes a page and syncs, and dies 100 bytes into the `Write` of the
`xSync` of a second page. -/
def tornFileVisit : FileVisit where
  storage := reopened .empty [⟨none, none⟩, ⟨none, some ⟨.unavailable, "Flush failed"⟩⟩] []
  calls := [.write (List.replicate 4096 1) 0, .sync, .fileSize, .read 16 4090,
    .write (List.replicate 4096 2) 4096]
  closed := false
  left := 4205

/-- The visit behind `tornFileVisit`: its first `Write` fails, and its file is closed. -/
def failedFileVisit [MetadataProto] : FileVisit where
  storage := reopened tornFileVisit.visit.object [⟨some ⟨.unavailable, "Write failed"⟩, none⟩]
    [staleRead]
  calls := [.write (List.replicate 4096 3) 0, .sync]
  closed := true
  left := 4205

/-- The lifetime of `tornFileVisit` and `failedFileVisit`. -/
lemma objectLifetime_tornFile :
    letI := wireProto
    ObjectLifetime ([tornFileVisit, failedFileVisit].map FileVisit.visit)
      failedFileVisit.visit.object := by
  let _ := wireProto
  have hfirst : ObjectLifetime ([] ++ [tornFileVisit.visit]) tornFileVisit.visit.object := by
    refine .next (.new (rfl : ObjectStore.empty.live = none)) ?_ (by decide) (by decide +kernel)
    dsimp only [FileVisit.visit, tornFileVisit]
    exact openedOn_reopened (by simp)
  refine .next hfirst ?_ (by decide +kernel) (by decide +kernel)
  dsimp only [FileVisit.visit, failedFileVisit]
  exact openedOn_reopened patient_staleRead

end SqliteGcs
