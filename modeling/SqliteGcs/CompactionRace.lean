import SqliteGcs.CompactGcs

set_option relaxedAutoImplicit false
set_option autoImplicit false

/-!
# A session and a compaction

A session of `GcsRapidStorage` that has an object open, and a process that compacts the object: the
steps of the two come in any order. The README promises that the upload of the compaction fails if
the database has been modified meanwhile. It does not: an append keeps the generation that the
upload compares. What the session syncs between the download and the upload is lost, and so is what
it syncs afterwards, since its writer stays on the generation that was replaced.

This file proves that nothing that was synced is lost in a run in which the session does not write
in these two places, and the compaction itself is complete.

## Main definitions

* `SqliteGcs.System`, `SqliteGcs.SystemStep` — the session and the process, and their steps.
* `SqliteGcs.SystemStep.Safe`, `SqliteGcs.SafeRun` — the condition on the steps of a run.
* `SqliteGcs.NothingLost` — the invariant.

## Main results

* `SqliteGcs.NothingLost.run` — every safe step keeps the invariant.
* `SqliteGcs.synced_recovered` — what was synced is recovered after a safe run.
* `SqliteGcs.safeRun_compaction` — a compaction with no step of the session in between is safe.
* `SqliteGcs.compaction_loses_synced_batch` — a run that loses a batch.
-/

namespace SqliteGcs

open Bytes PageTable BlockMapper

/-! ## The system -/

/-- A session that has the object open, and a process that compacts the object. -/
structure System where
  /-- The session, and the object. -/
  session : GcsSession
  /-- The process. -/
  compaction : Compaction
  /-- The buffers whose `Sync` returned OK, with the offset in the object that they went to. -/
  synced : List (ℕ × List UInt8)

/-- A step of one of the two. -/
inductive SystemStep
  | append (data : List UInt8)
  | sync (calls : SyncCalls)
  | compact (calls : CompactCalls)

section System

variable [MetadataProto]

/-- The system after a step. -/
def SystemStep.run : SystemStep → System → System
  | .append data, y => { y with session := (GcsCall.append data).run y.session }
  | .sync calls, y =>
    { y with
      session := (GcsCall.sync calls).run y.session
      synced :=
        match (y.session.storage.sync calls y.session.store).1 with
        | .ok _ => y.synced ++ [(y.session.written.length, y.session.storage.buffer)]
        | .error _ => y.synced }
  | .compact calls, y =>
    let (compaction, store) := compactStep y.session.storage.bucket y.session.storage.object calls
      y.session.store y.compaction
    { y with compaction := compaction, session := { y.session with store := store } }

/-- The system after a list of steps. -/
def runSystem (steps : List SystemStep) (y : System) : System :=
  steps.foldl (fun y step => step.run y) y

/-- **A step that loses nothing.** The session writes only while its generation is current. The
object is replaced, by a stream that is still open, only by the complete records for what it holds
then, and only if the file that these recover to ends with a mapped block. -/
def SystemStep.Safe : SystemStep → System → Prop
  | .append _, _ => True
  | .sync calls, y => y.session.storage.buffer ≠ [] → calls.write = none →
    y.session.store.live = some y.session.storage.generation
  | .compact calls, y =>
    match y.compaction with
    | .written generation file mapper status os =>
      calls.error = none → os.isOpen = true → y.session.store.live = some generation →
        status = .ok () ∧ y.session.store.contents generation = file ∧ EndsMapped mapper
    | _ => True

/-- Every step of a run is such. -/
def SafeRun : List SystemStep → System → Prop
  | [], _ => True
  | step :: steps, y => step.Safe y ∧ SafeRun steps (step.run y)

/-! ## The invariant -/

/-- **Nothing is lost**: what was synced is in the generation of the writer, and the object recovers
to what that generation recovers to. -/
structure NothingLost (y : System) : Prop where
  generation_lt : y.session.storage.generation < y.session.store.next
  synced : ∀ p ∈ y.synced, p.1 + p.2.length ≤ y.session.written.length ∧
    slice p.1 p.2.length y.session.written = p.2
  recovers : ∃ g, y.session.store.live = some g ∧
    ∀ v, RecoversAs y.session.written v → RecoversAs (y.session.store.contents g) v
  compaction : y.compaction.WellFormed

/-- A step of the process loses nothing if it is safe. -/
lemma NothingLost.compact {y : System} (h : NothingLost y) {calls : CompactCalls}
    (hsafe : (SystemStep.compact calls).Safe y) :
    NothingLost ((SystemStep.compact calls).run y) := by
  obtain ⟨g, hl, hrec⟩ := h.recovers
  obtain ⟨hwf, hstore⟩ := compactStep_cases y.session.storage.bucket y.session.storage.object calls
    y.session.store h.compaction
  obtain ⟨y', hy'⟩ : ∃ y', y' = (SystemStep.compact calls).run y := ⟨_, rfl⟩
  have hc : y'.compaction = (compactStep y.session.storage.bucket y.session.storage.object calls
    y.session.store y.compaction).1 := by rw [hy']; rfl
  have hs : y'.session = { y.session with store := (compactStep y.session.storage.bucket
    y.session.storage.object calls y.session.store y.compaction).2 } := by rw [hy']; rfl
  have hsynced : y'.synced = y.synced := by rw [hy']; rfl
  rw [← hy']
  rcases hstore with hsame | ⟨g', file, mapper, status, os, hcomp, herr, hopen, hl', hnew⟩
  · have hsession : y'.session = y.session := by rw [hs, hsame]
    constructor
    case generation_lt => rw [hsession]; exact h.generation_lt
    case synced => rw [hsession, hsynced]; exact h.synced
    case recovers => rw [hsession]; exact ⟨g, hl, hrec⟩
    case compaction => rw [hc]; exact hwf
  · -- the object is replaced
    obtain rfl : g = g' := Option.some.inj (hl.symm.trans hl')
    rw [hnew] at hs
    have hwritten : y'.session.written = y.session.written := by
      rw [hs]
      exact (ObjectStore.grown_create os.contents _ _ h.generation_lt).2.1
    have hwellFormed := h.compaction
    rw [SystemStep.Safe, hcomp] at hsafe
    rw [hcomp] at hwellFormed
    obtain ⟨hok, hfile, hends⟩ := hsafe herr hopen hl
    obtain ⟨⟨io, hio, hi⟩, hcontents⟩ := hwellFormed
    constructor
    case generation_lt =>
      rw [hs]
      exact Nat.lt_succ_of_lt h.generation_lt
    case synced => rw [hwritten, hsynced]; exact h.synced
    case recovers =>
      refine ⟨y.session.store.next, by rw [hs]; rfl, fun v hv => ?_⟩
      have hcurrent : y'.session.store.contents y.session.store.next = os.contents := by
        rw [hs]
        exact ObjectStore.contents_create_self os.contents y.session.store
      rw [hwritten] at hv
      have hold := hrec v hv
      rw [hfile, ← hio] at hold
      rw [hcurrent]
      exact recoversAs_compacted (congrArg Prod.fst hi) (by rw [hi]; exact hends)
        (by rw [hi]; exact (hcontents hok).2) hold
    case compaction => rw [hc]; exact hwf

/-- `Append` loses nothing. -/
lemma NothingLost.append {y : System} (h : NothingLost y) (data : List UInt8) :
    NothingLost ((SystemStep.append data).run y) := by
  have hs : ((SystemStep.append data).run y).session = (GcsCall.append data).run y.session := rfl
  rw [run_append] at hs
  constructor
  case generation_lt => rw [hs]; exact h.generation_lt
  case synced => rw [hs]; exact h.synced
  case recovers => rw [hs]; exact h.recovers
  case compaction => exact h.compaction

/-- What a `Sync` adds to what was synced. -/
lemma synced_sync (o : SyncCalls) (y : System) :
    ((SystemStep.sync o).run y).synced = y.synced ∨
      (y.session.storage.sync o y.session.store).1 = .ok () ∧
        ((SystemStep.sync o).run y).synced =
          y.synced ++ [(y.session.written.length, y.session.storage.buffer)] := by
  rw [SystemStep.run]
  dsimp only
  generalize (y.session.storage.sync o y.session.store).1 = r
  cases r with
  | error e => exact Or.inl rfl
  | ok u => exact Or.inr ⟨rfl, rfl⟩

/-- `Sync` loses nothing if the generation of the writer is current. -/
lemma NothingLost.sync {y : System} (h : NothingLost y) {o : SyncCalls}
    (hsafe : (SystemStep.sync o).Safe y) : NothingLost ((SystemStep.sync o).run y) := by
  have hs : ((SystemStep.sync o).run y).session = (GcsCall.sync o).run y.session := rfl
  have hadd := synced_sync o y
  -- what was synced before, and what this call adds, are in the object
  have hold : ∀ p ∈ y.synced, ∀ more, p.1 + p.2.length ≤ (y.session.written ++ more).length ∧
      slice p.1 p.2.length (y.session.written ++ more) = p.2 :=
    fun p hp more => slice_eq_append (h.synced p hp).1 (h.synced p hp).2 more
  have hnew : ∀ p ∈ y.synced ++ [(y.session.written.length, y.session.storage.buffer)],
      p.1 + p.2.length ≤ (y.session.written ++ y.session.storage.buffer).length ∧
        slice p.1 p.2.length (y.session.written ++ y.session.storage.buffer) = p.2 := by
    intro p hp
    rcases List.mem_append.mp hp with hp | hp
    · exact hold p hp _
    · obtain rfl := List.mem_singleton.mp hp
      exact ⟨le_of_eq List.length_append.symm, slice_length_append _ _⟩
  by_cases hb : y.session.storage.buffer = []
  · rw [(run_sync_of_nil hb o).2] at hs
    rw [hb, List.append_nil] at hnew
    constructor
    case generation_lt => rw [hs]; exact h.generation_lt
    case synced =>
      rw [hs]
      rcases hadd with hadd | ⟨-, hadd⟩
      · rw [hadd]; exact h.synced
      · rw [hadd, hb]; exact hnew
    case recovers => rw [hs]; exact h.recovers
    case compaction => exact h.compaction
  cases ho : o.write with
  | some e =>
    obtain ⟨herr, hrun⟩ := run_sync_of_error hb ho
    rw [hrun] at hs
    constructor
    case generation_lt => rw [hs]; exact h.generation_lt
    case synced =>
      rw [hs]
      rcases hadd with hadd | ⟨hok, -⟩
      · rw [hadd]; exact h.synced
      · rw [herr] at hok
        cases hok
    case recovers => rw [hs]; exact h.recovers
    case compaction => exact h.compaction
  | none =>
    obtain ⟨-, store, hrun, hnext, hlive, -, hcontents, -⟩ := run_sync_of_write hb ho
    rw [hrun] at hs
    have hwritten : ((SystemStep.sync o).run y).session.written =
        y.session.written ++ y.session.storage.buffer := by
      rw [hs]
      exact hcontents
    constructor
    case generation_lt =>
      rw [hs]
      exact h.generation_lt.trans_le (le_of_eq hnext.symm)
    case synced =>
      rw [hwritten]
      rcases hadd with hadd | ⟨-, hadd⟩
      · rw [hadd]; exact fun p hp => hold p hp _
      · rw [hadd]; exact hnew
    case recovers =>
      refine ⟨y.session.storage.generation, ?_, fun v hv => ?_⟩
      · rw [hs]
        exact hlive.trans (hsafe hb ho)
      · rw [hs] at hv ⊢
        exact hv
    case compaction => exact h.compaction

/-- **Every safe step loses nothing.** -/
lemma NothingLost.run {y : System} (h : NothingLost y) {step : SystemStep}
    (hsafe : step.Safe y) : NothingLost (step.run y) := by
  cases step with
  | append data => exact h.append data
  | sync o => exact h.sync hsafe
  | compact calls => exact h.compact hsafe

/-- A safe run loses nothing. -/
lemma NothingLost.runSystem {y : System} (h : NothingLost y) {steps : List SystemStep}
    (hsafe : SafeRun steps y) : NothingLost (runSystem steps y) := by
  induction steps generalizing y with
  | nil => exact h
  | cons step steps ih => exact ih (h.run hsafe.1) hsafe.2

/-- A session that has just opened the object. -/
structure System.Start (y : System) : Prop where
  opened : y.session.Opened
  live_eq : y.session.store.live = some y.session.storage.generation
  idle : y.compaction = .idle none
  synced_eq : y.synced = []

/-- Nothing is lost at the start. -/
lemma nothingLost_start {y : System} (h : y.Start) : NothingLost y where
  generation_lt := h.opened.generation_lt
  synced := by simp [h.synced_eq]
  recovers := ⟨_, h.live_eq, fun _ hv => hv⟩
  compaction := by rw [h.idle]; trivial

/-! ## Batches -/

/-- **A batch in a log is replayed**: `Init` applies all its records one after the other.

**Proof sketch.** The batch is cut out of the log at record boundaries, so its records are among
those of the log. No record of a batch aborts and the last one commits, so all of them are
committed whatever follows. -/
lemma replayed_of_batch {file : List UInt8} {o : ℕ} {P : List PendingRecord} (hP : P ≠ [])
    (hdec : ∀ pr ∈ P, pr.Decodes) (hal : o % 4105 = 0)
    (hle : o + (encodeBatch P).flatten.length ≤ file.length)
    (hslice : slice o (encodeBatch P).flatten.length file = (encodeBatch P).flatten)
    {recs : List RecoveredRecord} (h : records (padded file) = .ok recs) :
    ∃ before after : List RecoveredRecord, recovered recs =
      ((Logical.empty.applyAll before).applyAll (batchRecords o P)).applyAll after := by
  obtain ⟨pad, hpad⟩ : ∃ pad, padded file = file ++ pad := ⟨_, rfl⟩
  obtain ⟨A, hA⟩ : ∃ A, A = file.take o := ⟨_, rfl⟩
  obtain ⟨B, hB⟩ : ∃ B, B = (encodeBatch P).flatten := ⟨_, rfl⟩
  rw [← hB] at hle hslice
  have hlenA : A.length = o := by
    rw [hA, List.length_take]
    omega
  have hsplit : padded file = A ++ B ++ (file.drop (o + B.length) ++ pad) := by
    have hdrop : file.drop o = B ++ file.drop (o + B.length) := by
      rw [← List.drop_drop]
      conv_lhs => rw [← List.take_append_drop B.length (file.drop o)]
      exact congrArg (· ++ _) hslice
    rw [hpad, List.append_assoc, ← List.append_assoc B, ← hdrop, ← List.append_assoc, hA,
      List.take_append_drop]
  have hlenB : B.length % 4105 = 0 := by
    rw [hB, length_flatten_of_forall length_of_mem_encodeBatch]
    omega
  rw [hsplit] at h
  obtain ⟨recs₁, after, h₁, rfl⟩ := records_of_append (by rw [List.length_append]; omega) h
  obtain ⟨before, -, hbefore, -⟩ := records_of_append (by rw [hlenA]; exact hal) h₁
  have hparse : parseLog A.length (encodeBatch P) = .ok (batchRecords o P) := by
    rw [hlenA]
    exact parseLog_batch hdec o
  have hrecs := records_append (by rw [hlenA]; exact hal) length_of_mem_encodeBatch hbefore hparse
  rw [← hB, h₁] at hrecs
  obtain rfl := Except.ok.inj hrecs
  have hcommitted : ∀ next, TxnLog.committed mark (batchRecords o P) next = batchRecords o P := by
    intro next
    have hsettled : TxnLog.Settled mark (batchRecords o P) := settled_batchRecords hP o []
    rw [TxnLog.committed_of_settled mark hsettled next true]
    exact (TxnLog.committed_of_forall mark mark_of_mem_batchRecords).1
  refine ⟨TxnLog.committed mark before (TxnLog.carry mark (batchRecords o P ++ after) false),
    TxnLog.committed mark after false, ?_⟩
  rw [recovered, List.append_assoc, TxnLog.committed_append, TxnLog.committed_append, hcommitted,
    ← List.append_assoc, applyAll_append, applyAll_append]

/-- **Compaction loses nothing that was synced**, in a safe run. What a `Sync` that returned OK has
written is in the generation of the writer, and if it is a batch at a record boundary, all its
records are replayed when that generation is recovered; and whatever is recovered from it is
recovered from the current object.

**Proof sketch.** Every safe step keeps `NothingLost`. The step that replaces the object does so by
the records for a log that was recovered from the current object (`recoversAs_compacted`). -/
theorem synced_recovered {y : System} (hy : y.Start) {steps : List SystemStep}
    (hsafe : SafeRun steps y) {z : System} (hz : z = runSystem steps y) {τ : Type} [ReliableLog τ]
    {t t' : τ} (hv : Valid t) (hv' : Valid t') (ht : bytes t = z.session.written)
    (ht' : z.session.store.current = some (bytes t')) :
    (∀ p ∈ z.synced, slice p.1 p.2.length z.session.written = p.2) ∧
      ((init (new t)).1 = .ok () →
        (∀ p ∈ z.synced, ∀ (pad : List UInt8) (P : List PendingRecord), P ≠ [] →
          (∀ pr ∈ P, pr.Decodes) → p.2 = pad ++ (encodeBatch P).flatten →
          (p.1 + pad.length) % 4105 = 0 →
          ∃ before after : List RecoveredRecord, (init (new t)).2.toLogical =
            ((Logical.empty.applyAll before).applyAll
              (batchRecords ((p.1 + pad.length : ℕ) : ℤ) P)).applyAll after) ∧
        (init (new t')).1 = .ok () ∧ (init (new t')).2.view = (init (new t)).2.view) := by
  have h := (nothingLost_start hy).runSystem hsafe
  rw [← hz] at h
  refine ⟨fun p hp => (h.synced p hp).2, fun hinit => ⟨?_, ?_⟩⟩
  · intro p hp pad P hne hdec hbuf hal
    obtain ⟨hle, hslice⟩ := h.synced p hp
    obtain ⟨recs, t₁, hrecs, hi, -, -⟩ := records_of_init hv hinit
    rw [hbuf, List.length_append, ← ht] at hle
    have hpart : slice (p.1 + pad.length) (encodeBatch P).flatten.length (bytes t) =
        (encodeBatch P).flatten := by
      have hright := slice_length_append pad (encodeBatch P).flatten
      rw [← hbuf, ← hslice, ← ht] at hright
      rw [← slice_slice (n := p.2.length) (bytes t) (by rw [hbuf, List.length_append])]
      exact hright
    rw [hi]
    exact replayed_of_batch hne hdec hal (by omega) hpart hrecs
  · obtain ⟨g, hl, hrec⟩ := h.recovers
    rw [ObjectStore.current, hl, Option.map_some] at ht'
    have hview := hrec _ (ht ▸ recoversAs_of_init hv hinit)
    rw [Option.some.inj ht'] at hview
    exact init_of_recoversAs hv' hview

/-- A compaction without a step of the session between its own, in which nothing fails, is safe if
the file ends with a mapped block. It replaces the object by what it writes. -/
lemma safeRun_compaction {y : System} {result : Option (Except Status Unit)}
    (hidle : y.compaction = .idle result) {g : ℕ} (hlive : y.session.store.live = some g)
    {calls : CompactCalls} (herror : calls.error = none) {mapper mapper' : BlockMapper LocalStorage}
    (hinit : init (new { calls.io with file := y.session.store.contents g }) = (.ok (), mapper))
    {os : ObjectWriteStream} (hwritten : writeCompactedRecords mapper
      (ObjectWriteStream.opened calls.room) = (.ok (), mapper', os)) (hends : EndsMapped mapper) :
    SafeRun (List.replicate 7 (.compact calls)) y ∧
      runSystem (List.replicate 7 (.compact calls)) y =
        ⟨{ y.session with store := y.session.store.create os.contents }, .idle (some (.ok ())),
          y.synced⟩ := by
  obtain ⟨session, compaction, synced⟩ := y
  obtain ⟨error, io, room⟩ := calls
  obtain rfl : error = none := herror
  obtain rfl : compaction = .idle result := hidle
  obtain ⟨file, hfile⟩ : ∃ file, file = session.store.contents g := ⟨_, rfl⟩
  have hreplace : session.store.replaceIf g os.contents =
      some (session.store.create os.contents) := ObjectStore.replaceIf_eq_some.mpr ⟨hlive, rfl⟩
  have hstep : ∀ c c' : Compaction, compactStep session.storage.bucket session.storage.object
      ⟨none, io, room⟩ session.store c = (c', session.store) →
      (SystemStep.compact ⟨none, io, room⟩).run ⟨session, c, synced⟩ = ⟨session, c', synced⟩ := by
    intro c c' h
    rw [SystemStep.run]
    dsimp only
    rw [h]
  have h₁ := hstep (.idle result) (.hasMetadata g) (by rw [compactStep, hlive])
  have h₂ := hstep (.hasMetadata g) (.hasTempFile g) rfl
  have h₃ := hstep (.hasTempFile g) (.downloaded g file) (by rw [hfile]; rfl)
  have h₄ := hstep (.downloaded g file) (.recovered g file mapper)
    (by rw [compactStep, hfile]; dsimp only; rw [hinit])
  have h₅ := hstep (.recovered g file mapper) (.uploading g file mapper) rfl
  have h₆ := hstep (.uploading g file mapper) (.written g file mapper (.ok ()) os)
    (by rw [compactStep, hwritten])
  have h₇ : (SystemStep.compact ⟨none, io, room⟩).run
      ⟨session, .written g file mapper (.ok ()) os, synced⟩ =
      ⟨{ session with store := session.store.create os.contents }, .idle (some (.ok ())),
        synced⟩ := by
    rw [SystemStep.run, compactStep]
    dsimp only
    rw [hreplace]
  constructor
  · simp only [List.replicate, SafeRun, h₁, h₂, h₃, h₄, h₅, h₆]
    exact ⟨trivial, trivial, trivial, trivial, trivial, trivial,
      fun _ _ _ => ⟨rfl, hfile.symm, hends⟩, trivial⟩
  · simp only [runSystem, List.replicate, List.foldl_cons, List.foldl_nil, h₁, h₂, h₃, h₄, h₅, h₆,
      h₇]

end System

/-! ## A batch that is lost -/

/-- The outcomes of calls that succeed, on a stream that takes nothing. -/
def CompactCalls.succeed : CompactCalls := ⟨none, LocalStorage.ofFile [], 0⟩

/-- A session on a new object, and a process that has not begun. -/
def newSystem : System := ⟨newSession, .idle none, []⟩

/-- Nothing has happened yet. -/
lemma newSystem_start : newSystem.Start :=
  ⟨opened_of_create create_newSession, rfl, rfl, rfl⟩

/-- The process downloads the object, the session syncs some bytes, and the process replaces the
object. -/
def raceSteps (data : List UInt8) : List SystemStep :=
  List.replicate 3 (.compact .succeed) ++ [.append data, .sync ⟨none, none⟩] ++
    List.replicate 4 (.compact .succeed)

/-- The bytes are synced, the compaction succeeds, and the object is empty. -/
lemma run_race [MetadataProto] {data : List UInt8} (hne : data ≠ []) :
    (runSystem (raceSteps data) newSystem).compaction = .idle (some (.ok ())) ∧
      (runSystem (raceSteps data) newSystem).synced = [(0, data)] ∧
      (runSystem (raceSteps data) newSystem).session.written = data ∧
      (runSystem (raceSteps data) newSystem).session.store.current = some [] := by
  obtain ⟨x, xs, rfl⟩ := List.exists_cons_of_ne_nil hne
  exact ⟨rfl, rfl, rfl, rfl⟩

/-- The bytes of one record, with flag 1. -/
lemma flatten_encodeBatch_singleton (pr : PendingRecord) :
    (encodeBatch [pr]).flatten = compactedLog [pr] := rfl

/-- These are some bytes. -/
lemma compactedLog_singleton_ne_nil (pr : PendingRecord) : compactedLog [pr] ≠ [] := by
  have hone : compactedLog [pr] = pr.encode 1 := List.flatten_singleton
  rw [← List.length_pos_iff, hone, pr.length_encode]
  decide

/-- The outcomes of calls that succeed, on a stream that takes one record. -/
def CompactCalls.oneRecord : CompactCalls := ⟨none, LocalStorage.ofFile [], 4105⟩

/-- The session syncs some bytes, and the process compacts the object. -/
def compactedSteps (data : List UInt8) : List SystemStep :=
  [.append data, .sync ⟨none, none⟩] ++ List.replicate 7 (.compact .oneRecord)

/-- Two records of one block. -/
def rewritten : List PendingRecord := [⟨0, Block.ofList []⟩, ⟨0, Block.ofList [1]⟩]

/-- The run is safe, and the object is replaced by what the compaction writes. -/
lemma run_compacted [MetadataProto] {data : List UInt8} (hne : data ≠ [])
    {mapper mapper' : BlockMapper LocalStorage}
    (hinit : init (new (LocalStorage.ofFile data)) = (.ok (), mapper)) {os : ObjectWriteStream}
    (hwritten : writeCompactedRecords mapper (ObjectWriteStream.opened 4105) =
      (.ok (), mapper', os)) (hends : EndsMapped mapper) :
    SafeRun (compactedSteps data) newSystem ∧
      (runSystem (compactedSteps data) newSystem).synced = [(0, data)] ∧
      (runSystem (compactedSteps data) newSystem).session.written = data ∧
      (runSystem (compactedSteps data) newSystem).session.store.live = some 1 ∧
      (runSystem (compactedSteps data) newSystem).session.store.contents 1 = os.contents := by
  obtain ⟨y₀, hy₀⟩ : ∃ y, y = (SystemStep.append data).run newSystem := ⟨_, rfl⟩
  obtain ⟨y, hy⟩ : ∃ y, y = (SystemStep.sync ⟨none, none⟩).run y₀ := ⟨_, rfl⟩
  have hsession : y₀.session.store.live = some y₀.session.storage.generation ∧
      y.session.store.contents 0 = data ∧ y.session.store.live = some 0 ∧
      y.session.store.next = 1 ∧ y.session.storage.generation = 0 ∧
      y.compaction = .idle none ∧ y.synced = [(0, data)] := by
    obtain ⟨x, xs, rfl⟩ := List.exists_cons_of_ne_nil hne
    rw [hy, hy₀]
    exact ⟨rfl, rfl, rfl, rfl, rfl, rfl, rfl⟩
  obtain ⟨hcurrent, hcontents, hlive, hnext, hgeneration, hidle, hsynced⟩ := hsession
  have hnone : CompactCalls.oneRecord.error = none := rfl
  obtain ⟨hsafe, hrun⟩ := safeRun_compaction hidle hlive hnone (by rw [hcontents]; exact hinit)
    hwritten hends
  have hfinal : runSystem (compactedSteps data) newSystem =
      runSystem (List.replicate 7 (.compact .oneRecord)) y := by
    rw [hy, hy₀]
    rfl
  have hsafe' : SafeRun (compactedSteps data) newSystem := by
    rw [hy, hy₀] at hsafe
    rw [hy₀] at hcurrent
    exact ⟨trivial, fun _ _ => hcurrent, hsafe⟩
  rw [hfinal, hrun]
  refine ⟨hsafe', hsynced, ?_, ?_, ?_⟩
  · show (y.session.store.create os.contents).contents y.session.storage.generation = data
    have hgrown := ObjectStore.grown_create os.contents y.session.store 0 (by omega)
    rw [hgeneration, hgrown.2.1, hcontents]
  · show some y.session.store.next = some 1
    rw [hnext]
  · show (y.session.store.create os.contents).contents 1 = os.contents
    rw [← hnext]
    exact ObjectStore.contents_create_self os.contents y.session.store

/-- `synced_recovered` for a batch of two records of one block, and a compaction that replaces the
object by the last of them. -/
theorem synced_recovered_compacted :
    letI := wireProto
    ∃ z, z = runSystem (compactedSteps (encodeBatch rewritten).flatten) newSystem ∧
      z.session.store.live = some 1 ∧ z.synced = [(0, (encodeBatch rewritten).flatten)] ∧
      ∃ written current : InMemoryStorage, written.data = z.session.written ∧
        z.session.store.current = some current.data ∧ current.data.length = 4105 ∧
        (∃ before after : List RecoveredRecord, (init (new written)).2.toLogical =
          ((Logical.empty.applyAll before).applyAll (batchRecords 0 rewritten)).applyAll after) ∧
        (init (new current)).1 = .ok () ∧
        (init (new current)).2.view = (init (new written)).2.view := by
  let _ := wireProto
  obtain ⟨data, hdata⟩ : ∃ data, data = (encodeBatch rewritten).flatten := ⟨_, rfl⟩
  obtain ⟨p, hp⟩ : ∃ p, p = init (new (LocalStorage.ofFile data)) := ⟨_, rfl⟩
  obtain ⟨q, hq⟩ : ∃ q, q = writeCompactedRecords p.2 (ObjectWriteStream.opened 4105) := ⟨_, rfl⟩
  have hcomputed : data ≠ [] ∧ p.1 = .ok () ∧ EndsMapped p.2 ∧ q.1 = .ok () ∧
      q.2.2.contents.length = 4105 ∧ (init (new (InMemoryStorage.ofBytes data))).1 = .ok () := by
    rw [hq, hp, hdata]
    decide +kernel
  obtain ⟨hne, hinit, hends, hwritten, hlength, hok⟩ := hcomputed
  have hrun := run_compacted hne (hp.symm.trans (Prod.ext hinit rfl))
    (hq.symm.trans (Prod.ext hwritten rfl)) hends
  obtain ⟨z, hz⟩ : ∃ z, z = runSystem (compactedSteps data) newSystem := ⟨_, rfl⟩
  rw [← hz] at hrun
  obtain ⟨hsafe, hsynced, hdata', hlive, hcontents⟩ := hrun
  have hcurrent : z.session.store.current = some q.2.2.contents := by
    rw [ObjectStore.current, hlive, Option.map_some, hcontents]
  obtain ⟨-, hrecovered⟩ := synced_recovered newSystem_start hsafe hz
    (InMemoryStorage.valid_ofBytes data) (InMemoryStorage.valid_ofBytes q.2.2.contents)
    hdata'.symm hcurrent
  obtain ⟨hreplayed, hafter, hview⟩ := hrecovered hok
  have hdec : ∀ pr ∈ rewritten, pr.Decodes := by
    intro pr hpr
    have hidx : pr.blockIndex = 0 := by
      rcases List.mem_cons.mp hpr with rfl | hpr
      · rfl
      · rw [List.mem_singleton.mp hpr]
    exact PendingRecord.Decodes.mk (by omega) (by omega) (fun h => by omega)
  have hbatch := hreplayed _ (hsynced ▸ List.mem_singleton_self _) [] rewritten (by decide) hdec
    hdata rfl
  rw [← hdata]
  exact ⟨z, hz, hlive, hsynced, .ofBytes data, .ofBytes q.2.2.contents, hdata'.symm, hcurrent,
    hlength, hbatch, hafter, hview⟩

/-- **A run that loses a batch.** The session writes a record of block 0 to a new object after the
compaction has downloaded it; its `Sync` and the compaction succeed. The log of the session recovers
to one block, and the object to nothing. -/
theorem compaction_loses_synced_batch :
    letI := wireProto
    let batch : List PendingRecord := [⟨0, Block.ofList []⟩]
    ∃ z, z = runSystem (raceSteps (encodeBatch batch).flatten) newSystem ∧ newSystem.Start ∧
      z.compaction = .idle (some (.ok ())) ∧ z.synced = [(0, (encodeBatch batch).flatten)] ∧
      z.session.store.current = some [] ∧
      (init (new (InMemoryStorage.ofBytes z.session.written))).1 = .ok () ∧
      (init (new (InMemoryStorage.ofBytes z.session.written))).2.logicalSize = 4096 ∧
      (init (new (InMemoryStorage.ofBytes []))).1 = .ok () ∧
      (init (new (InMemoryStorage.ofBytes []))).2.logicalSize = 0 := by
  intro batch
  have hdata : (encodeBatch batch).flatten = compactedLog batch := flatten_encodeBatch_singleton _
  have hne : (encodeBatch batch).flatten ≠ [] := by
    rw [hdata]
    exact compactedLog_singleton_ne_nil _
  have hrace := @run_race wireProto _ hne
  obtain ⟨z, hz⟩ : ∃ z,
      z = @runSystem wireProto (raceSteps (encodeBatch batch).flatten) newSystem := ⟨_, rfl⟩
  rw [← hz] at hrace
  obtain ⟨hcomp, hsynced, hwritten, hcurrent⟩ := hrace
  have hdec : ∀ pr ∈ batch, @PendingRecord.Decodes wireProto pr := by
    intro pr hpr
    have hidx : pr.blockIndex = 0 := by rw [List.mem_singleton.mp hpr]
    exact @PendingRecord.Decodes.mk wireProto pr (by omega) (by omega) (fun h => by omega)
  obtain ⟨s, hi, -, -⟩ := @init_committed wireProto InMemoryStorage _ _
    (InMemoryStorage.valid_ofBytes (compactedLog batch)) batch hdec
    (InMemoryStorage.bytes_ofBytes (compactedLog batch))
  obtain ⟨s₀, hi₀, -⟩ := @init_empty wireProto InMemoryStorage _ _
    (InMemoryStorage.valid_ofBytes []) rfl
  refine ⟨z, hz, newSystem_start, hcomp, hsynced, hcurrent, ?_⟩
  rw [hwritten, hdata, hi, hi₀]
  exact ⟨rfl, rfl, rfl, rfl⟩

end SqliteGcs
