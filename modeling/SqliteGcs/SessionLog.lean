import SqliteGcs.Compactor
import SqliteGcs.GcsStorage

set_option relaxedAutoImplicit false
set_option autoImplicit false

/-!
# The log of a session

A session of `GcsRapidStorage` appends to the generation that its writer was opened on, but opens
its descriptors by name, so that they read the generation that is current when they are opened. A
compaction in between makes `PRead` return bytes of another log. This file proves that `PRead`
returns the bytes of the session's own log as long as every descriptor that is opened finds the
generation of the writer current, and no write succeeds after one that failed.

## Main definitions

* `SqliteGcs.GcsRapidStorage.Pinned` — a `PRead` opens no descriptor of another generation.
* `SqliteGcs.PinnedRun` — the condition on every call of a run.
* `SqliteGcs.Faithful` — the invariant: the object holds a first part of the log.

## Main results

* `SqliteGcs.pRead_returns_log` — what `PRead` returns in such a run.
* `SqliteGcs.pRead_reads_replacement` — a `PRead` that returns bytes of a replacement.
-/

namespace SqliteGcs

open Bytes BlockMapper

/-! ## Opening the own generation -/

namespace GcsRapidStorage

/-- If an iteration of `PRead` opens a descriptor, it is of the generation of the writer. -/
def PinnedAttempt (offset : ℤ) (gcsReadSize attempt : ℕ) (calls : Attempt) (s : GcsRapidStorage)
    (store : ObjectStore UInt8) : Prop :=
  s.Reopens offset gcsReadSize attempt →
    ∀ size, calls.open_ = .ok size → ∀ g ∈ store.live, g = s.generation

/-- Every iteration of the loop of `PRead` is such. -/
def PinnedLoop (offset : ℤ) (gcsReadSize remaining : ℕ) (attempts : List Attempt)
    (s : GcsRapidStorage) (store : ObjectStore UInt8) : Prop :=
  let calls := attempts.headD ⟨[], .ok none, .ok gcsReadSize⟩
  let store := replaceAll calls.replaced store
  s.PinnedAttempt offset gcsReadSize (15 - remaining) calls store ∧
    match remaining, s.pReadAttempt offset gcsReadSize (15 - remaining) calls store with
    | remaining + 1, (none, s) => PinnedLoop offset gcsReadSize remaining attempts.tail s store
    | _, _ => True

/-- **A `PRead` that opens no descriptor of another generation**: if part of what it reads is not
in the buffer, the loop that reads that part does not. -/
def Pinned (size : ℕ) (offset : ℤ) (attempts : List Attempt) (s : GcsRapidStorage)
    (store : ObjectStore UInt8) : Prop :=
  let bufferStartOffset := s.fileLength - s.buffer.length
  0 ≤ offset → offset + size ≤ s.fileLength → offset < bufferStartOffset →
    PinnedLoop offset
      (if offset + size > bufferStartOffset then (bufferStartOffset - offset).toNat else size) 14
      attempts s store

/-- The descriptor reads the generation of the writer. -/
def OwnDescriptor (s : GcsRapidStorage) : Prop :=
  ∀ d ∈ s.descriptor, d.generation = s.generation

/-- A descriptor that is opened while the generation of the writer is current reads it. -/
lemma OwnDescriptor.openDescriptor {s : GcsRapidStorage} (h : s.OwnDescriptor)
    {result : Except Status (Option ℤ)} {store : ObjectStore UInt8}
    (hpin : ∀ size, result = .ok size → ∀ g ∈ store.live, g = s.generation) :
    (s.openDescriptor result store).2.OwnDescriptor := by
  unfold GcsRapidStorage.openDescriptor
  cases result with
  | error e => exact h
  | ok size =>
    cases hl : store.live with
    | none => exact h
    | some g =>
      intro d hd
      obtain rfl := Option.some.inj hd
      exact hpin size rfl g hl

/-- An iteration of `PRead` keeps the descriptor on the generation of the writer. -/
lemma OwnDescriptor.pReadAttempt {s : GcsRapidStorage} (h : s.OwnDescriptor) {offset : ℤ}
    {gcsReadSize attempt : ℕ} {calls : Attempt} {store : ObjectStore UInt8}
    (hpin : s.PinnedAttempt offset gcsReadSize attempt calls store) :
    (s.pReadAttempt offset gcsReadSize attempt calls store).2.OwnDescriptor := by
  rw [(s.pReadAttempt_spec offset gcsReadSize attempt calls store).1]
  split_ifs with hre
  · exact h.openDescriptor (hpin hre)
  · exact h

/-- The loop of `PRead` keeps the descriptor on the generation of the writer. -/
lemma OwnDescriptor.pReadLoop {s : GcsRapidStorage} (h : s.OwnDescriptor) {offset : ℤ}
    {gcsReadSize remaining : ℕ} {attempts : List Attempt} {store : ObjectStore UInt8}
    (hpin : s.PinnedLoop offset gcsReadSize remaining attempts store) :
    (s.pReadLoop offset gcsReadSize remaining attempts store).2.1.OwnDescriptor := by
  refine pReadLoop_rule
    (I := fun n attempts s store => s.OwnDescriptor ∧
      s.PinnedLoop offset gcsReadSize n attempts store)
    (Q := fun _ s _ => s.OwnDescriptor) ?_ ⟨h, hpin⟩
  rintro n attempts s₁ store₁ calls store₂ r s₂ ⟨hown, hpinned⟩ rfl rfl hp
  unfold PinnedLoop at hpinned
  dsimp only at hpinned
  obtain ⟨hattempt, hnext⟩ := hpinned
  have hown' := hown.pReadAttempt hattempt
  rw [hp] at hown' hnext
  refine ⟨fun _ _ => hown', fun _ _ _ => hown', ?_⟩
  rintro n rfl rfl
  exact ⟨hown', hnext⟩

/-- **What a successful `PRead` returns**: bytes of the buffer, or bytes of the object, followed by
bytes of the buffer if the object ends too early. -/
lemma pRead_ok {size : ℕ} {offset : ℤ} {attempts : List Attempt} {s : GcsRapidStorage}
    {store : ObjectStore UInt8} {data : List UInt8}
    (h : (s.pRead size offset attempts store).1 = .ok data) :
    0 ≤ offset ∧ offset + size ≤ s.fileLength ∧
      ((s.fileLength - s.buffer.length ≤ offset ∧
          data = slice (offset - (s.fileLength - s.buffer.length)).toNat size s.buffer) ∨
        ∃ n k part, offset < s.fileLength - s.buffer.length ∧
          n = (if offset + size > s.fileLength - s.buffer.length then
            (s.fileLength - s.buffer.length - offset).toNat else size) ∧
          k = (if offset + size > s.fileLength - s.buffer.length then
            (offset + size - (s.fileLength - s.buffer.length)).toNat else 0) ∧
          (s.pReadLoop offset n 14 attempts store).1 = .ok part ∧
          data = part ++ s.buffer.take k) := by
  rw [pRead] at h
  by_cases h0 : offset < 0
  · rw [if_pos h0] at h
    cases h
  by_cases h1 : offset + size > s.fileLength
  · rw [if_neg h0, if_pos h1] at h
    cases h
  rw [if_neg h0, if_neg h1] at h
  dsimp only at h
  refine ⟨by omega, by omega, ?_⟩
  by_cases h2 : offset ≥ s.fileLength - s.buffer.length
  · rw [if_pos h2] at h
    exact Or.inl ⟨h2, (Except.ok.inj h).symm⟩
  rw [if_neg h2] at h
  obtain ⟨n, hn⟩ : ∃ n, n = (if offset + size > s.fileLength - s.buffer.length then
    (s.fileLength - s.buffer.length - offset).toNat else size) := ⟨_, rfl⟩
  rw [← hn] at h
  obtain ⟨⟨d, hframe⟩, -⟩ := pReadLoop_spec offset n 14 attempts s store
  generalize hp : pReadLoop offset n 14 attempts s store = p at h hframe
  obtain ⟨r, s', store'⟩ := p
  cases r with
  | error e => cases h
  | ok part =>
    obtain rfl : s' = { s with descriptor := d } := hframe
    exact Or.inr ⟨n, _, part, by omega, hn, rfl, by rw [hp], (Except.ok.inj h).symm⟩

end GcsRapidStorage

/-! ## The condition on a run -/

/-- A call that does not touch another generation: a `PRead` opens no descriptor of another one,
and no `Write` succeeds without a token. -/
def GcsCall.Pinned : GcsCall → GcsSession → Prop
  | .append _, _ => True
  | .sync calls, w => w.storage.buffer ≠ [] → calls.write = none → w.storage.token = true
  | .pRead size offset attempts, w => w.storage.Pinned size offset attempts w.store
  | .replace _, _ => True

/-- Every call of a run is such. -/
def PinnedRun : List GcsCall → GcsSession → Prop
  | [], _ => True
  | call :: calls, w => call.Pinned w ∧ PinnedRun calls (call.run w)

/-- A `Create` during which the object is not replaced, if it exists. -/
def CreateCalls.Pinned (calls : CreateCalls) (store : ObjectStore UInt8) : Prop :=
  calls.metadata = none → store.live ≠ none →
    calls.replacedBeforeUpload = [] ∧ calls.replacedBeforeOpen = []

/-- The session that starts with a storage that `Create` returned. -/
def GcsSession.start (s : GcsRapidStorage) (store : ObjectStore UInt8) : GcsSession :=
  ⟨s, store, store.contents s.generation, []⟩

/-- The condition on a run is one on each of its parts. -/
lemma pinnedRun_append (calls calls' : List GcsCall) (w : GcsSession) :
    PinnedRun (calls ++ calls') w ↔ PinnedRun calls w ∧ PinnedRun calls' (runCalls calls w) := by
  induction calls generalizing w with
  | nil => exact (true_and _).to_iff.symm
  | cons call calls ih => rw [List.cons_append, PinnedRun, ih, PinnedRun, runCalls_cons, and_assoc]

/-! ## The invariant -/

/-- **The object holds a first part of the log**: all of it but the buffer, as long as no write has
failed; and the descriptor reads the generation of the writer. -/
structure Faithful (w : GcsSession) : Prop where
  generation_lt : w.storage.generation < w.store.next
  own : w.storage.OwnDescriptor
  length_eq : w.storage.fileLength = w.log.length
  sent : ∃ sent, w.log = sent ++ w.storage.buffer ∧ w.written <+: sent ∧
    (w.storage.token = true → w.written = sent)

/-- A session starts so if the object is not replaced during `Create`. -/
lemma faithful_start {bucket object : String} {calls : CreateCalls}
    {store store' : ObjectStore UInt8} {s : GcsRapidStorage}
    (h : GcsRapidStorage.create bucket object calls store = (.ok s, store'))
    (hpin : calls.Pinned store) : Faithful (.start s store') := by
  obtain ⟨hlt, hbuffer, -, hlen, hdesc⟩ := create_ok h
  have hlog : (GcsSession.start s store').log = store'.contents s.generation :=
    List.append_nil _
  constructor
  case generation_lt => exact hlt
  case own =>
    intro d hd
    change d ∈ s.descriptor at hd
    rcases hdesc with hnone | ⟨hmeta, hl, hstore, d', hd', hl'⟩
    · rw [hnone] at hd
      cases hd
    · rw [hd'] at hd
      obtain rfl := Option.some.inj hd
      obtain ⟨h1, h2⟩ := hpin hmeta (by rw [hl]; exact Option.some_ne_none _)
      rw [h1, h2] at hstore
      change store' = store at hstore
      rw [hstore, hl] at hl'
      exact (Option.some.inj hl').symm
  case length_eq => rw [hlog]; exact hlen
  case sent =>
    refine ⟨store'.contents s.generation, ?_, List.prefix_rfl, fun _ => rfl⟩
    rw [hlog]
    show _ = _ ++ s.buffer
    rw [hbuffer, List.append_nil]

/-- `Append` extends the log. -/
lemma log_append (w : GcsSession) (data : List UInt8) :
    ((GcsCall.append data).run w).log = w.log ++ data := by
  rw [run_append]
  unfold GcsSession.log
  simp

/-- `Append` keeps the invariant. -/
lemma Faithful.append {w : GcsSession} (h : Faithful w) (data : List UInt8) :
    Faithful ((GcsCall.append data).run w) := by
  obtain ⟨sent, h1, h2, h3⟩ := h.sent
  have hlog := log_append w data
  have hlen := h.length_eq
  constructor
  case generation_lt => rw [run_append]; exact h.generation_lt
  case own => rw [run_append]; exact h.own
  case length_eq =>
    rw [hlog, List.length_append, run_append]
    push_cast
    rw [← hlen]
  case sent =>
    refine ⟨sent, ?_, ?_⟩
    · rw [hlog, h1, run_append, List.append_assoc]
    · rw [run_append]
      exact ⟨h2, h3⟩

/-- `Sync` keeps the invariant, unless its `Write` succeeds after one that failed. -/
lemma Faithful.sync {w : GcsSession} (h : Faithful w) {o : SyncCalls}
    (hpin : (GcsCall.sync o).Pinned w) : Faithful ((GcsCall.sync o).run w) := by
  obtain ⟨sent, h1, h2, h3⟩ := h.sent
  by_cases hb : w.storage.buffer = []
  · rw [(run_sync_of_nil hb o).2]
    exact h
  cases ho : o.write with
  | some e =>
    rw [(run_sync_of_error hb ho).2]
    constructor
    case generation_lt => exact h.generation_lt
    case own => exact h.own
    case length_eq => exact h.length_eq
    case sent =>
      refine ⟨w.log, (List.append_nil _).symm, ?_, fun ht => by cases ht⟩
      rw [h1]
      exact h2.trans (List.prefix_append _ _)
  | none =>
    obtain ⟨-, store, hrun, hnext, -, -, hcontents, -⟩ := run_sync_of_write hb ho
    rw [h3 (hpin hb ho), ← h1] at hcontents
    rw [hrun]
    constructor
    case generation_lt => exact h.generation_lt.trans_le (le_of_eq hnext.symm)
    case own => exact h.own
    case length_eq => exact h.length_eq
    case sent =>
      refine ⟨w.log, (List.append_nil _).symm, ?_, fun _ => hcontents⟩
      exact ⟨[], (List.append_nil _).trans hcontents⟩

/-- A call that neither appends nor syncs keeps the invariant, as long as the descriptor reads the
generation of the writer. -/
lemma Faithful.unwritten {w w' : GcsSession} (h : Faithful w) (hw : Unwritten w w')
    (hown : w'.storage.OwnDescriptor) : Faithful w' := by
  obtain ⟨-, h2, h3, h4, h5, -⟩ := hw.fields h.generation_lt
  obtain ⟨d, hframe⟩ := hw.frame
  have htoken : w'.storage.token = w.storage.token := by rw [hframe]
  have hlog : w'.log = w.log := by rw [GcsSession.log, hw.base_eq, hw.accepted_eq, GcsSession.log]
  constructor
  case generation_lt => exact h4
  case own => exact hown
  case length_eq => rw [h3, hlog]; exact h.length_eq
  case sent => rw [h2, h5, htoken, hlog]; exact h.sent

/-- `PRead` keeps the descriptor on the generation of the writer. -/
lemma GcsRapidStorage.OwnDescriptor.pRead {s : GcsRapidStorage} (h : s.OwnDescriptor) {size : ℕ}
    {offset : ℤ} {attempts : List Attempt} {store : ObjectStore UInt8}
    (hpin : s.Pinned size offset attempts store) :
    (s.pRead size offset attempts store).2.1.OwnDescriptor := by
  rw [GcsRapidStorage.pRead]
  by_cases h0 : offset < 0
  · rw [if_pos h0]
    exact h
  by_cases h1 : offset + size > s.fileLength
  · rw [if_neg h0, if_pos h1]
    exact h
  rw [if_neg h0, if_neg h1]
  dsimp only
  by_cases h2 : offset ≥ s.fileLength - s.buffer.length
  · rw [if_pos h2]
    exact h
  rw [if_neg h2]
  have hown := h.pReadLoop (hpin (by omega) (by omega) (by omega))
  generalize s.pReadLoop offset _ 14 attempts store = p at hown ⊢
  obtain ⟨r, s', store'⟩ := p
  cases r <;> exact hown

/-- **Every call keeps the invariant.** -/
lemma Faithful.run {w : GcsSession} (h : Faithful w) {call : GcsCall} (hpin : call.Pinned w) :
    Faithful (call.run w) := by
  cases call with
  | append data => exact h.append data
  | sync o => exact h.sync hpin
  | pRead size offset attempts =>
    exact h.unwritten (unwritten_run _ w (Or.inl ⟨size, offset, attempts, rfl⟩)) (h.own.pRead hpin)
  | replace contents =>
    exact h.unwritten (unwritten_run _ w (Or.inr ⟨contents, rfl⟩)) h.own

/-- Every run keeps the invariant. -/
lemma Faithful.runCalls {w : GcsSession} (h : Faithful w) {calls : List GcsCall}
    (hpin : PinnedRun calls w) : Faithful (runCalls calls w) := by
  induction calls generalizing w with
  | nil => exact h
  | cons call calls ih => exact ih (h.run hpin.1) hpin.2

/-! ## What `PRead` returns -/

/-- A slice of a first part that is not cut short is that of the whole. -/
lemma slice_of_first_part {o n : ℕ} {a b : List UInt8} (h : a <+: b)
    (hlen : (slice o n a).length = n) : slice o n a = slice o n b := by
  obtain ⟨c, rfl⟩ := h
  rw [length_slice] at hlen
  by_cases hle : o + n ≤ a.length
  · rw [slice_append_left c hle]
  · obtain rfl : n = 0 := by omega
    rfl

/-- The bytes that the loop of `PRead` returns are those of the log. -/
lemma Faithful.pReadLoop_ok {w : GcsSession} (h : Faithful w) {offset : ℤ} {n : ℕ}
    {attempts : List Attempt} (hpin : w.storage.PinnedLoop offset n 14 attempts w.store)
    {part sent : List UInt8} (hsent : w.written <+: sent)
    (hok : (w.storage.pReadLoop offset n 14 attempts w.store).1 = .ok part) :
    part = slice offset.toNat n sent ∧ part.length = n := by
  obtain ⟨⟨d, hframe⟩, hgrown, hdata⟩ := w.storage.pReadLoop_spec offset n 14 attempts w.store
  obtain ⟨d', hd', hpart, hlen⟩ := hdata part hok
  have hgen : d'.generation = w.storage.generation :=
    (h.own.pReadLoop hpin d' hd').trans (by rw [hframe])
  rw [hgen, (hgrown _ h.generation_lt).2.1] at hpart
  rw [hpart] at hlen
  rw [hpart, hlen]
  exact ⟨slice_of_first_part hsent hlen, rfl⟩

/-- A `PRead` in a session that keeps the invariant. -/
lemma Faithful.pRead_ok {w : GcsSession} (h : Faithful w) {size : ℕ} {offset : ℤ}
    {attempts : List Attempt} (hpin : w.storage.Pinned size offset attempts w.store)
    {data : List UInt8} (hok : (w.storage.pRead size offset attempts w.store).1 = .ok data) :
    0 ≤ offset ∧ data = slice offset.toNat size w.log ∧ data.length = size := by
  obtain ⟨sent, hlog, hwritten, -⟩ := h.sent
  have hlen := h.length_eq
  rw [hlog, List.length_append] at hlen
  obtain ⟨h0, h1, hdata⟩ := GcsRapidStorage.pRead_ok hok
  have hdata' : data = slice offset.toNat size w.log := by
    rw [hlog]
    rcases hdata with ⟨h2, rfl⟩ | ⟨n, k, part, h2, hn, hk, hpart, rfl⟩
    · have hoff : offset.toNat =
          sent.length + (offset - (w.storage.fileLength - w.storage.buffer.length)).toNat := by
        omega
      rw [hoff, slice_append_right]
    · have hloop := hpin h0 h1 h2
      rw [← hn] at hloop
      obtain ⟨hp, hplen⟩ := h.pReadLoop_ok hloop hwritten hpart
      by_cases hover : offset + size > w.storage.fileLength - w.storage.buffer.length
      · rw [if_pos hover] at hn hk
        have hend : offset.toNat + n = sent.length + 0 := by omega
        have hsize : size = n + k := by omega
        rw [hp, hsize, ← slice_append_slice, slice_append_left _ (by omega), hend,
          slice_append_right]
        rfl
      · rw [if_neg hover] at hn hk
        rw [hp, hn, hk, List.take_zero, List.append_nil, slice_append_left _ (by omega)]
  refine ⟨h0, hdata', ?_⟩
  rw [hdata', length_slice, hlog, List.length_append]
  omega

/-- **What `PRead` returns.** In every run of a session in which every descriptor that is opened is
of the generation of the writer and no `Write` succeeds after one that failed, a `PRead` that
succeeds returns the bytes of the log that the session opened and appended to.

**Proof sketch.** Every call keeps the invariant that the object holds a first part of the log and
the buffer the end of it (`Faithful.run`); what the loop of `PRead` returns is read from the
generation of the writer (`Faithful.pReadLoop_ok`). -/
theorem pRead_returns_log {bucket object : String} {c : CreateCalls}
    {store store' : ObjectStore UInt8} {s : GcsRapidStorage}
    (hcreate : GcsRapidStorage.create bucket object c store = (.ok s, store'))
    (hc : c.Pinned store) {calls : List GcsCall} {size : ℕ} {offset : ℤ} {attempts : List Attempt}
    (hrun : PinnedRun (calls ++ [.pRead size offset attempts]) (.start s store'))
    {w : GcsSession} (hw : w = runCalls calls (.start s store')) {data : List UInt8}
    (hok : (w.storage.pRead size offset attempts w.store).1 = .ok data) :
    0 ≤ offset ∧ data = slice offset.toNat size w.log ∧ data.length = size := by
  obtain ⟨hrun, hlast, -⟩ := (pinnedRun_append _ _ _).mp hrun
  rw [← hw] at hlast
  have hfaithful := (faithful_start hcreate hc).runCalls hrun
  rw [← hw] at hfaithful
  exact hfaithful.pRead_ok hlast hok

/-- `pRead_returns_log` for one byte that was appended and synced, which is read from the object. -/
theorem pRead_returns_log_one_byte :
    (0 : ℤ) ≤ 0 ∧ ([1] : List UInt8) = slice (0 : ℤ).toNat 1
        (runCalls [.append [1], .sync ⟨none, none⟩]
          (.start newSession.storage newSession.store)).log ∧
      ([1] : List UInt8).length = 1 :=
  have hloop : ∀ w, w = runCalls [.append [1], .sync ⟨none, none⟩]
      (.start newSession.storage newSession.store) →
      w.storage.PinnedLoop 0 1 14 [] w.store := by
    rintro w rfl
    unfold GcsRapidStorage.PinnedLoop
    exact ⟨fun _ _ _ _ hg => (Option.some.inj hg).symm, trivial⟩
  have hrun : PinnedRun ([.append [1], .sync ⟨none, none⟩] ++ [.pRead 1 0 []])
      (.start newSession.storage newSession.store) :=
    ⟨trivial, fun _ _ => rfl, fun _ _ _ => hloop _ rfl, trivial⟩
  pRead_returns_log create_newSession (fun _ h => absurd rfl h) hrun rfl (by decide +kernel)

/-! ## A read of another log -/

/-- A `PRead` that finds a descriptor of sufficient size reads the generation that this reads. -/
lemma GcsRapidStorage.pRead_of_descriptor {s : GcsRapidStorage} {store : ObjectStore UInt8}
    {g size : ℕ} {descriptorSize : ℤ} (hd : s.descriptor = some ⟨g, some descriptorSize⟩)
    (hsize : (size : ℤ) ≤ descriptorSize) (hlen : size ≤ (store.contents g).length)
    (hstart : 0 < s.fileLength - s.buffer.length)
    (hle : (size : ℤ) ≤ s.fileLength - s.buffer.length) :
    (s.pRead size 0 [] store).1 = .ok (slice 0 size (store.contents g)) := by
  have hre : ¬ s.Reopens 0 size 1 := by
    unfold Reopens
    rw [hd]
    rintro (h | h | h)
    · cases h
    · change 0 + (size : ℤ) > descriptorSize at h
      omega
    · omega
  have hread : s.pReadAttempt 0 size 1 ⟨[], .ok none, .ok size⟩ store =
      (some (.ok (slice 0 size (store.contents g))), s) := by
    have hshort : ¬ (slice (0 : ℤ).toNat (min size size) (store.contents g)).length < size := by
      rw [length_slice]
      omega
    rw [pReadAttempt, if_neg hre]
    dsimp only
    rw [hd]
    dsimp only [readDescriptorRange]
    rw [if_neg hshort, min_self]
    rfl
  have hloop : s.pReadLoop 0 size 14 [] store =
      (.ok (slice 0 size (store.contents g)), s, store) := by
    unfold pReadLoop
    dsimp only [List.headD_nil, replaceAll, List.foldl_nil]
    rw [hread]
  rw [pRead, if_neg (by omega), if_neg (by omega)]
  dsimp only
  rw [if_neg (by omega), if_neg (by omega), if_neg (by omega), hloop]
  dsimp only
  rw [List.take_zero, List.append_nil]

/-- Two records of block 0, and what the compactor writes for them: the second. -/
lemma compacted_overwrite (A B : Block) :
    letI := wireProto
    ∃ m', (init (new (InMemoryStorage.ofBytes (compactedLog [⟨0, A⟩, ⟨0, B⟩])))).1 = .ok () ∧
      writeCompactedRecords (init (new (InMemoryStorage.ofBytes
        (compactedLog [⟨0, A⟩, ⟨0, B⟩])))).2 (⟨[]⟩ : StringStream) =
        (.ok (), m', ⟨compactedLog [⟨0, B⟩]⟩) := by
  let _ := wireProto
  have hdec : ∀ pr ∈ [(⟨0, A⟩ : PendingRecord), ⟨0, B⟩], pr.Decodes := by
    intro pr hpr
    have hidx : pr.blockIndex = 0 := by
      rcases List.mem_pair.mp hpr with rfl | rfl <;> rfl
    exact ⟨by omega, by omega, fun h => by omega⟩
  obtain ⟨s, hi, hready, hb⟩ := init_committed (InMemoryStorage.valid_ofBytes _) hdec
    (InMemoryStorage.bytes_ofBytes (compactedLog [⟨0, A⟩, ⟨0, B⟩]))
  have hempty : Sound [] Logical.empty.logicalToPhysical := by simp [Sound, Logical.empty]
  have hblock : blockBytes ([] ++ compactedLog [⟨0, A⟩, ⟨0, B⟩]) [4113] [] 0 =
      blockBytes [] [] [⟨0, A⟩, ⟨0, B⟩] 0 := blockBytes_committed hempty
    (fun pr hpr => by rcases List.mem_pair.mp hpr with rfl | rfl <;> exact le_rfl) 0
  have hlast : blockBytes [] [] [(⟨0, A⟩ : PendingRecord), ⟨0, B⟩] 0 = B.bytes :=
    (blockBytes_concat [] [] [⟨0, A⟩] ⟨0, B⟩ 0).trans (if_pos rfl)
  rw [List.nil_append, ← hb] at hblock
  have hstate : Logical.empty.applyAll (committedRecords 0 [(⟨0, A⟩ : PendingRecord), ⟨0, B⟩]) =
      ⟨[4113], 4096⟩ := rfl
  rw [hstate] at hi hready
  obtain ⟨m', hw⟩ := writeCompactedRecords_spec hready (c := 1) rfl (by decide)
  have hwindow : window (opened ⟨[4113], 4096⟩ s).byteAt (4096 * 0) 4096 = B.bytes :=
    (blockBytes_eq_window hready.sound [] 0).symm.trans (hblock.trans hlast)
  have hone : compactedRecords (fun b => (opened ⟨[4113], 4096⟩ s).isBlockMapped b)
      (opened ⟨[4113], 4096⟩ s).byteAt 0 1 = [⟨0, B⟩] := by
    have hmapped : (opened ⟨[4113], 4096⟩ s).isBlockMapped ((0 : ℕ) : ℤ) = true := rfl
    rw [compactedRecords, if_pos hmapped, hwindow, Block.ofList_bytes]
    rfl
  rw [hone] at hw
  exact ⟨m', congrArg Prod.fst hi, by rw [hi]; exact hw⟩

/-- A `Create` during which the object is replaced before the descriptor is opened. -/
lemma create_replaced (log contents : List UInt8) (size : ℤ) :
    ∃ s store, GcsRapidStorage.create "bucket" "object"
        ⟨none, [], none, [contents], .ok (some size)⟩ (ObjectStore.empty.create log) =
        (.ok s, store) ∧
      s.generation = 0 ∧ s.descriptor = some ⟨1, some size⟩ ∧ s.fileLength = log.length ∧
      s.buffer = [] ∧ store.contents 0 = log ∧ store.contents 1 = contents :=
  ⟨_, _, rfl, rfl, rfl, rfl, rfl, rfl, rfl⟩

/-- The first record that a session reads whose object was replaced then. -/
lemma read_replaced {P : List PendingRecord} {pr pr' : PendingRecord} {rest : List PendingRecord}
    (hP : P = pr' :: rest) :
    ∃ s store, GcsRapidStorage.create "bucket" "object"
        ⟨none, [], none, [compactedLog [pr]], .ok (some 4105)⟩
        (ObjectStore.empty.create (compactedLog P)) = (.ok s, store) ∧
      (GcsSession.start s store).log = compactedLog P ∧
      (s.pRead 4105 0 [] store).1 = .ok (pr.encode 1) ∧
      slice 0 4105 (compactedLog P) = pr'.encode 1 := by
  obtain ⟨s, store, hcreate, hg, hd, hlen, hbuf, h0, h1⟩ :=
    create_replaced (compactedLog P) (compactedLog [pr]) 4105
  have hone : compactedLog [pr] = pr.encode 1 := List.flatten_singleton
  have hcons : compactedLog P = pr'.encode 1 ++ compactedLog rest := by
    rw [hP, compactedLog, List.map_cons, List.flatten_cons, ← compactedLog]
  have hslice : ∀ pr : PendingRecord, slice 0 4105 (pr.encode 1) = pr.encode 1 := by
    intro pr
    have hself := slice_zero_length (pr.encode 1)
    rwa [pr.length_encode] at hself
  rw [hone] at h1
  have hsize : s.fileLength - s.buffer.length = (4105 + (compactedLog rest).length : ℕ) := by
    rw [hlen, hbuf, hcons, List.length_append, pr'.length_encode, List.length_nil]
    push_cast
    ring
  have hread : (s.pRead 4105 0 [] store).1 = .ok (slice 0 4105 (store.contents 1)) :=
    GcsRapidStorage.pRead_of_descriptor hd (by omega) (by rw [h1, pr.length_encode]) (by omega)
      (by omega)
  rw [h1, hslice pr] at hread
  refine ⟨s, store, hcreate, ?_, hread, ?_⟩
  · rw [GcsSession.log, GcsSession.start]
    dsimp only
    rw [hg, h0]
    exact List.append_nil _
  · rw [hcons, slice_append_left _ (by rw [pr'.length_encode]), hslice pr']

/-- **A `PRead` that returns bytes of a replacement.** The object has two records of block 0, and is
replaced by what the compactor writes for it, the second record, after `Create` has resumed the
upload and before it opens its descriptor. The first record that is read then is the second. -/
theorem pRead_reads_replacement :
    letI := wireProto
    let zeros : PendingRecord := ⟨0, Block.ofList []⟩
    let ones : PendingRecord := ⟨0, Block.ofList (List.replicate 4096 1)⟩
    (∃ m', writeCompactedRecords (init (new (InMemoryStorage.ofBytes
        (compactedLog [zeros, ones])))).2 (⟨[]⟩ : StringStream) =
        (.ok (), m', ⟨compactedLog [ones]⟩)) ∧
      ∃ s store, GcsRapidStorage.create "bucket" "object"
          ⟨none, [], none, [compactedLog [ones]], .ok (some 4105)⟩
          (ObjectStore.empty.create (compactedLog [zeros, ones])) = (.ok s, store) ∧
        (s.pRead 4105 0 [] store).1 = .ok (ones.encode 1) ∧
        slice 0 4105 (GcsSession.start s store).log = zeros.encode 1 ∧
        ones.encode 1 ≠ zeros.encode 1 := by
  intro zeros ones
  obtain ⟨m', -, hw⟩ := compacted_overwrite (Block.ofList []) (Block.ofList (List.replicate 4096 1))
  obtain ⟨s, store, hcreate, hlog, hread, hslice⟩ :=
    @read_replaced [zeros, ones] ones zeros [ones] rfl
  refine ⟨⟨m', hw⟩, s, store, hcreate, hread, by rw [hlog, hslice], fun heq => ?_⟩
  have hbyte : (slice 8 4096 (ones.encode 1)).getD 0 0 =
      (slice 8 4096 (zeros.encode 1)).getD 0 0 := by rw [heq]
  rw [ones.slice_payload_encode, zeros.slice_payload_encode] at hbyte
  exact absurd hbyte (by decide)

end SqliteGcs
