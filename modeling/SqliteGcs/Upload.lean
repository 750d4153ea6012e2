import SqliteGcs.OneLog

set_option relaxedAutoImplicit false
set_option autoImplicit false

/-!
# An upload

What a `GcsRapidStorage` is until a `Write` fails: a log, of which a first part was handed to the
writer and a first part of that is flushed. Its only errors are those of reads out of range and of
`Flush`. The client library refuses a `Write` without a token, so after a `Write` that fails the
object is left alone.

A read may come out short or out of range a few times, as one of an object whose last bytes cannot
be read yet does, but no read fails in the end.

## Main definitions

* `SqliteGcs.Upload` — the upload, an atomic log.
* `SqliteGcs.TokenLog` — a `GcsLog` with a client library that refuses a `Write` without a token.
* `SqliteGcs.TokenLog.ActsAs` — a `TokenLog` does what an upload does.

## Main results

* `SqliteGcs.TokenLog.lockstep_upload` — it goes on doing so until a `Write` fails.
-/

namespace SqliteGcs

open Bytes BlockMapper Machine

/-! ## Uploads -/

/-- An upload. -/
structure Upload where
  /-- What was appended, behind what the object held. -/
  content : List UInt8
  /-- How much of it was handed to the writer. -/
  sent : ℕ
  /-- How much of that is flushed. -/
  flushed : ℕ
  /-- The errors of the coming `Flush`es that fail. Those beyond the end of the list succeed. -/
  flushes : List (Option Status)
  sent_le : sent ≤ content.length
  flushed_le : flushed ≤ sent

namespace Upload

/-- An object that is opened. -/
def ofObject (content : List UInt8) (flushes : List (Option Status)) : Upload :=
  ⟨content, content.length, content.length, flushes, le_rfl, le_rfl⟩

/-- `Append`. -/
def append (data : List UInt8) (u : Upload) : Except Status ℤ × Upload :=
  (.ok u.content.length, { u with
    content := u.content ++ data
    sent_le := u.sent_le.trans (List.length_append ▸ Nat.le_add_right ..) })

/-- `PRead`. -/
def pRead (size : ℕ) (offset : ℤ) (u : Upload) : Except Status (List UInt8) × Upload :=
  (if offset < 0 then .error ⟨.invalidArgument, "Offset cannot be negative"⟩
    else if offset + size > u.content.length then
      .error ⟨.outOfRange, s!"Attempted to read past EOF (offset={offset}, size={size}, " ++
        s!"file_length={(u.content.length : ℤ)})"⟩
    else .ok (slice offset.toNat size u.content), u)

/-- `GetSize`. -/
def getSize (u : Upload) : Except Status ℤ × Upload := (.ok u.content.length, u)

/-- `Sync`: what was not sent yet is sent and flushed. -/
def sync (u : Upload) : Except Status Unit × Upload :=
  if u.sent = u.content.length then (.ok (), { u with flushes := u.flushes.tail })
  else
    match u.flushes.headD none with
    | some e => (.error (convertStatus e), { u with
        sent := u.content.length
        flushes := u.flushes.tail
        sent_le := le_rfl
        flushed_le := u.flushed_le.trans u.sent_le })
    | none => (.ok (), ⟨u.content, u.content.length, u.content.length, u.flushes.tail,
        le_rfl, le_rfl⟩)

/-- `Sync` sends everything, and flushes some of it. -/
lemma sync_spec (u : Upload) : (sync u).2.content = u.content ∧
    (sync u).2.sent = u.content.length ∧ u.flushed ≤ (sync u).2.flushed := by
  rw [sync]
  split_ifs with h
  · exact ⟨rfl, h, le_rfl⟩
  · cases u.flushes.headD none with
    | some e => exact ⟨rfl, rfl, le_rfl⟩
    | none => exact ⟨rfl, rfl, u.flushed_le.trans u.sent_le⟩

/-- **An upload is an atomic log.** -/
instance : AtomicLog Upload where
  append := append
  pRead := pRead
  getSize := getSize
  sync := sync
  bytes := content
  Valid _ := True
  getSize_spec u _ := ⟨rfl, rfl, trivial⟩
  pRead_spec n off u _ hle := by
    refine ⟨?_, rfl, trivial⟩
    rw [pRead, if_neg (by omega), if_neg (by omega), Int.toNat_natCast]
  append_spec data u _ := ⟨trivial, Or.inl ⟨rfl, rfl⟩⟩
  sync_spec u _ := ⟨(sync_spec u).1, trivial⟩

/-- `Init` can pad an upload. -/
lemma padStorage_isOk (u : Upload) : ∃ P, (padStorage u).1 = .ok P := by
  rw [padStorage, show AppendOnlyStorage.getSize u = (.ok (u.content.length : ℤ), u) from rfl]
  dsimp only
  split_ifs <;> exact ⟨_, rfl⟩

end Upload

/-! ## Objects whose writers need a token -/

/-- A `GcsLog` with a client library that refuses a `Write` without a token. -/
structure TokenLog where
  /-- The log. -/
  log : GcsLog

namespace TokenLog

/-- Whether `token_` holds a token. -/
def token (w : TokenLog) : Bool := w.log.session.storage.token

/-- What the object of the writer holds. -/
def written (w : TokenLog) : List UInt8 := w.log.session.written

/-- How much of it is durable. -/
def durable (w : TokenLog) : ℕ := w.log.session.durable

/-- `Append`. -/
def append (data : List UInt8) (w : TokenLog) : Except Status ℤ × TokenLog :=
  ((w.log.append data).1, ⟨(w.log.append data).2⟩)

/-- `PRead`. -/
def pRead (size : ℕ) (offset : ℤ) (w : TokenLog) : Except Status (List UInt8) × TokenLog :=
  ((w.log.pRead size offset).1, ⟨(w.log.pRead size offset).2⟩)

/-- `GetSize`. -/
def getSize (w : TokenLog) : Except Status ℤ × TokenLog := (w.log.getSize.1, w)

/-- What the requests of the next `Sync` return. -/
def syncCalls (w : TokenLog) : SyncCalls :=
  let calls := w.log.syncs.headD ⟨none, none⟩
  if w.token then calls
  else ⟨some (calls.write.getD ⟨.invalidArgument, "Invalid token"⟩), calls.flush⟩

/-- `Sync`. -/
def sync (w : TokenLog) : Except Status Unit × TokenLog :=
  let log := { w.log with syncs := w.syncCalls :: w.log.syncs.tail }
  (log.sync.1, ⟨log.sync.2⟩)

/-- The destructor, and whether it closes the writer: it does if the storage is longer than it was
at first. Closing the writer leaves the object as it is. -/
def destroy (w : TokenLog) : Bool × TokenLog :=
  let w := w.sync.2
  (decide (w.log.session.storage.fileLength > w.log.session.storage.initialOffset), w)

instance : AppendOnlyStorage TokenLog := ⟨append, pRead, getSize, sync⟩

/-! ### What an upload has in common with an object -/

/-- Reads that come out short or out of range for a while, as the last bytes of the object cannot be
read yet, and fewer of them than a `PRead` makes. -/
structure Patient (attempts : List Attempt) : Prop where
  length_lt : attempts.length < 15
  alone : ∀ a ∈ attempts, a.replaced = []
  opens : ∀ a ∈ attempts, ∃ size, a.open_ = .ok size
  outOfRange : ∀ a ∈ attempts, ∀ e, a.read = .error e → e.code = .outOfRange

/-- **The object and the buffer hold what was uploaded**: they hold the content, and the object the
part that was sent. -/
structure ActsAs (w : TokenLog) (u : Upload) : Prop where
  hasLog : w.log.HasLog u.content
  patient : ∀ attempts ∈ w.log.attempts, Patient attempts
  written : w.written = u.content.take u.sent
  durable : w.durable = u.flushed
  flushes : u.flushes = w.log.syncs.map SyncCalls.flush

end TokenLog

/-! ## Reads of patient storages -/

namespace GcsRapidStorage

/-- An iteration of `PRead` that opens the object, if it opens it at all, reads the generation of
the writer. -/
lemma pReadAttempt_of_live (offset : ℤ) (gcsReadSize attempt : ℕ) {calls : Attempt}
    {s : GcsRapidStorage} {store : ObjectStore UInt8} (hown : s.OwnDescriptor)
    (hlive : store.live = some s.generation) (hopen : ∃ size, calls.open_ = .ok size) :
    ((s.pReadAttempt offset gcsReadSize attempt calls store).2.OwnDescriptor ∧
      (s.pReadAttempt offset gcsReadSize attempt calls store).2.generation = s.generation) ∧
    (∀ e, calls.read = .error e → e.code = .outOfRange →
      (s.pReadAttempt offset gcsReadSize attempt calls store).1 = none) ∧
    ∀ k, calls.read = .ok k → (s.pReadAttempt offset gcsReadSize attempt calls store).1 =
      if (slice offset.toNat (min k gcsReadSize) (store.contents s.generation)).length <
        gcsReadSize then none
      else some (.ok (slice offset.toNat (min k gcsReadSize) (store.contents s.generation))) := by
  obtain ⟨size, hsize⟩ := hopen
  have hpin : s.PinnedAttempt offset gcsReadSize attempt calls store := by
    intro _ _ _ g hg
    rw [hlive] at hg
    exact (Option.some.inj hg).symm
  obtain ⟨d, hframe⟩ := s.pReadAttempt_frame offset gcsReadSize attempt calls store
  refine ⟨⟨hown.pReadAttempt hpin, by rw [hframe]⟩, ?_⟩
  -- the descriptor that is read
  obtain ⟨opened, s', hs', d, hd, hgen⟩ : ∃ opened s', (if s.Reopens offset gcsReadSize attempt then
      s.openDescriptor calls.open_ store else (.ok (), s)) = (opened, s') ∧
      ∃ d, s'.descriptor = some d ∧ d.generation = s.generation := by
    by_cases hreopens : s.Reopens offset gcsReadSize attempt
    · rw [if_pos hreopens, hsize]
      unfold openDescriptor
      rw [hlive]
      exact ⟨_, _, rfl, _, rfl, rfl⟩
    · rw [if_neg hreopens]
      cases hd : s.descriptor with
      | none => exact absurd (Or.inl hd) hreopens
      | some d => exact ⟨_, _, rfl, d, hd, hown d hd⟩
  rw [pReadAttempt, hs']
  dsimp only
  rw [hd]
  dsimp only
  constructor
  · intro e he hcode
    rw [he]
    exact congrArg Prod.fst (if_pos hcode)
  · intro k hk
    rw [hk]
    dsimp only [readDescriptorRange]
    rw [hgen]
    split_ifs <;> rfl

/-- **Patient reads succeed** if the object is long enough.

**Proof sketch.** By the rule for the loop: an iteration either succeeds or is followed by another
one, and behind the list of outcomes there is one that succeeds. -/
lemma pReadLoop_patient (offset : ℤ) {gcsReadSize : ℕ} {attempts : List Attempt}
    {s : GcsRapidStorage} {store : ObjectStore UInt8} (h : TokenLog.Patient attempts)
    (hown : s.OwnDescriptor) (hlive : store.live = some s.generation)
    (hlong : offset.toNat + gcsReadSize ≤ (store.contents s.generation).length) :
    ∃ data, (s.pReadLoop offset gcsReadSize 14 attempts store).1 = .ok data := by
  refine pReadLoop_rule
    (I := fun n attempts s₁ store₁ => (attempts.length ≤ n ∧ ∀ a ∈ attempts, a.replaced = [] ∧
        (∃ size, a.open_ = .ok size) ∧ ∀ e, a.read = .error e → e.code = .outOfRange) ∧
      s₁.OwnDescriptor ∧ s₁.generation = s.generation ∧ store₁ = store)
    (Q := fun result _ _ => ∃ data, result = .ok data) ?_
    ⟨⟨Nat.lt_succ_iff.mp h.length_lt, fun a ha => ⟨h.alone a ha, h.opens a ha, h.outOfRange a ha⟩⟩,
      hown, rfl, rfl⟩
  rintro n attempts s₁ store₁ calls _ r s₂ ⟨⟨hlen, hall⟩, hown₁, hgen, rfl⟩ hcalls rfl hattempt
  obtain ⟨hreplaced, hopen, hread⟩ : calls.replaced = [] ∧ (∃ size, calls.open_ = .ok size) ∧
      ∀ e, calls.read = .error e → e.code = .outOfRange := by
    rw [hcalls]
    exact headD_of_forall (p := fun a : Attempt => a.replaced = [] ∧
      (∃ size, a.open_ = .ok size) ∧ ∀ e, a.read = .error e → e.code = .outOfRange)
      ⟨rfl, ⟨none, rfl⟩, fun e he => by cases he⟩ hall
  have hstore : replaceAll calls.replaced store₁ = store₁ := by rw [hreplaced]; rfl
  rw [hstore] at hattempt ⊢
  obtain ⟨⟨hown₂, hgen₂⟩, herror, hok⟩ := pReadAttempt_of_live offset gcsReadSize (15 - n)
    hown₁ (hgen ▸ hlive) hopen
  rw [hattempt] at hown₂ hgen₂ herror hok
  have hcases : r = none ∨ ∃ data, r = some (.ok data) := by
    cases hr : calls.read with
    | error e => exact Or.inl (herror e hr (hread e hr))
    | ok k =>
      rw [show r = _ from hok k hr]
      split_ifs
      · exact Or.inl rfl
      · exact Or.inr ⟨_, rfl⟩
  refine ⟨?_, ?_, ?_⟩
  · rintro result rfl
    rcases hcases with hnone | ⟨data, hdata⟩
    · cases hnone
    · exact ⟨data, Option.some.inj hdata⟩
  · -- behind the list of outcomes
    rintro rfl rfl
    obtain rfl := List.length_eq_zero_iff.mp (Nat.le_zero.mp hlen)
    subst hcalls
    have hlast := hok gcsReadSize rfl
    rw [min_self, hgen, if_neg] at hlast
    · cases hlast
    · rw [length_slice]
      omega
  · rintro k - rfl
    refine ⟨⟨?_, fun a ha => hall a (List.mem_of_mem_tail ha)⟩, hown₂, hgen₂.trans hgen, rfl⟩
    rw [List.length_tail]
    omega

end GcsRapidStorage

/-! ## Lockstep -/

namespace TokenLog

/-- `Append` leaves the object and the token alone. -/
lemma token_append (data : List UInt8) (w : TokenLog) :
    (append data w).2.token = w.token ∧ (append data w).2.written = w.written ∧
      (append data w).2.durable = w.durable := by
  have hrun : (append data w).2.log.session = _ := run_append data w.log.session
  refine ⟨?_, ?_, ?_⟩
  · rw [token, hrun]
    rfl
  · rw [written, hrun]
    rfl
  · rw [durable, hrun]
    rfl

/-- `PRead` leaves the token alone. -/
lemma token_pRead (size : ℕ) (offset : ℤ) (w : TokenLog) :
    (pRead size offset w).2.token = w.token := by
  obtain ⟨⟨d, hframe⟩, -⟩ := w.log.session.storage.pRead_spec size offset
    (w.log.attempts.headD []) w.log.session.store
  exact (congrArg GcsRapidStorage.token hframe).trans rfl

/-- A storage without a token does not get one. -/
lemma token_sync {w : TokenLog} (h : w.token = false) : (sync w).2.token = false := by
  have hwrite : w.syncCalls.write =
      some ((w.log.syncs.headD ⟨none, none⟩).write.getD ⟨.invalidArgument, "Invalid token"⟩) := by
    rw [syncCalls, h]
    rfl
  show ((GcsCall.sync w.syncCalls).run w.log.session).storage.token = false
  by_cases hb : w.log.session.storage.buffer = []
  · rw [(run_sync_of_nil hb _).2]
    exact h
  · rw [(run_sync_of_error hb hwrite).2]

namespace ActsAs

/-- The buffer holds what was not sent. -/
lemma buffer_eq_nil_iff {w : TokenLog} {u : Upload} (h : ActsAs w u) :
    w.log.session.storage.buffer = [] ↔ u.sent = u.content.length := by
  obtain ⟨sent, hlog, -, hsent⟩ := h.hasLog.faithful.sent
  have hwritten : u.content.take u.sent = sent := h.written.symm.trans (hsent h.hasLog.token)
  have hlen := u.sent_le
  rw [h.hasLog.log_eq, ← hwritten] at hlog
  have hlength := congrArg List.length hlog
  rw [List.length_append, List.length_take, min_eq_left hlen] at hlength
  rw [← List.length_eq_zero_iff]
  omega

/-- `Append`. -/
lemma append {w : TokenLog} {u : Upload} (h : ActsAs w u) (data : List UInt8) :
    (append data w).1 = (Upload.append data u).1 ∧
      ActsAs (TokenLog.append data w).2 (Upload.append data u).2 := by
  obtain ⟨hreply, hlog⟩ := h.hasLog.append data
  obtain ⟨-, hwritten, hdurable⟩ := token_append data w
  refine ⟨hreply, hlog, h.patient, ?_, hdurable.trans h.durable, h.flushes⟩
  rw [hwritten, h.written]
  exact (List.take_append_of_le_length u.sent_le).symm

/-- A `PRead` in range succeeds. -/
lemma pRead_isOk {w : TokenLog} {u : Upload} (h : ActsAs w u) {size : ℕ} {offset : ℤ}
    (h0 : ¬ offset < 0) (h1 : ¬ offset + size > u.content.length) :
    ∃ data, (w.log.session.storage.pRead size offset (w.log.attempts.headD [])
      w.log.session.store).1 = .ok data := by
  have hlength : w.log.session.storage.fileLength = u.content.length := by
    rw [h.hasLog.faithful.length_eq, h.hasLog.log_eq]
  have hpatient : Patient (w.log.attempts.headD []) :=
    headD_of_forall (p := Patient) ⟨by decide, by simp, by simp, by simp⟩ h.patient
  -- the object ends where the buffer starts
  obtain ⟨sent, hlog, -, hsent⟩ := h.hasLog.faithful.sent
  have hstart : u.content.length =
      w.log.session.written.length + w.log.session.storage.buffer.length := by
    rw [← h.hasLog.log_eq, hlog, hsent h.hasLog.token, List.length_append]
  rw [GcsRapidStorage.pRead, if_neg h0, hlength, if_neg h1]
  dsimp only
  by_cases h2 : offset ≥ (u.content.length : ℤ) - w.log.session.storage.buffer.length
  · rw [if_pos h2]
    exact ⟨_, rfl⟩
  rw [if_neg h2]
  obtain ⟨n, hn⟩ : ∃ n, n = (if offset + size >
      (u.content.length : ℤ) - w.log.session.storage.buffer.length then
      ((u.content.length : ℤ) - w.log.session.storage.buffer.length - offset).toNat else size) :=
    ⟨_, rfl⟩
  have hlong : offset.toNat + n ≤ w.log.session.written.length := by
    split_ifs at hn <;> omega
  rw [← hn]
  obtain ⟨data, hdata⟩ := GcsRapidStorage.pReadLoop_patient offset hpatient
    h.hasLog.faithful.own h.hasLog.live hlong
  generalize w.log.session.storage.pReadLoop offset n 14 _ w.log.session.store = p at hdata
  obtain ⟨r, s, store⟩ := p
  obtain rfl : r = .ok data := hdata
  exact ⟨_, rfl⟩

/-- A `PRead` that is patient does what one of the upload does. -/
lemma pRead {w : TokenLog} {u : Upload} (h : ActsAs w u) (size : ℕ) (offset : ℤ) :
    (TokenLog.pRead size offset w).1 = (Upload.pRead size offset u).1 ∧
      ActsAs (TokenLog.pRead size offset w).2 (Upload.pRead size offset u).2 := by
  obtain ⟨hlog, hslice⟩ := h.hasLog.pRead size offset
  have hfields := (unwritten_run (.pRead size offset (w.log.attempts.headD [])) w.log.session
    (Or.inl ⟨_, _, _, rfl⟩)).fields h.hasLog.faithful.generation_lt
  obtain ⟨-, -, -, -, hwritten, hdurable⟩ := hfields
  refine ⟨?_, hlog, fun attempts ha => h.patient attempts (List.mem_of_mem_tail ha),
    hwritten.trans h.written, hdurable.trans h.durable, h.flushes⟩
  have hlength : w.log.session.storage.fileLength = u.content.length := by
    rw [h.hasLog.faithful.length_eq, h.hasLog.log_eq]
  have hreply : (TokenLog.pRead size offset w).1 = (w.log.session.storage.pRead size offset
    (w.log.attempts.headD []) w.log.session.store).1 := rfl
  by_cases h0 : offset < 0
  · rw [hreply, GcsRapidStorage.pRead, Upload.pRead, if_pos h0, if_pos h0]
  by_cases h1 : offset + size > u.content.length
  · rw [hreply, GcsRapidStorage.pRead, Upload.pRead, if_neg h0, if_neg h0, hlength, if_pos h1,
      if_pos h1]
  obtain ⟨data, hdata⟩ : ∃ data, (TokenLog.pRead size offset w).1 = .ok data := by
    rw [hreply]
    exact h.pRead_isOk h0 h1
  rw [hdata, (hslice data hdata).2, Upload.pRead, if_neg h0, if_neg h1]

/-- `Sync`, unless its `Write` fails. -/
lemma sync {w : TokenLog} {u : Upload} (h : ActsAs w u) (hok : (TokenLog.sync w).2.token = true) :
    (TokenLog.sync w).1 = (Upload.sync u).1 ∧
      ActsAs (TokenLog.sync w).2 (Upload.sync u).2 := by
  have hcalls : w.syncCalls = w.log.syncs.headD ⟨none, none⟩ := if_pos h.hasLog.token
  have hflush : u.flushes.headD none = w.syncCalls.flush := by
    rw [h.flushes, hcalls]
    cases w.log.syncs <;> rfl
  have htail : u.flushes.tail = w.log.syncs.tail.map SyncCalls.flush := by
    rw [h.flushes, List.map_tail]
  have hreply : (TokenLog.sync w).1 =
    (w.log.session.storage.sync w.syncCalls w.log.session.store).1 := rfl
  have hsession : (TokenLog.sync w).2.log.session =
    (GcsCall.sync w.syncCalls).run w.log.session := rfl
  have hfaithful := h.hasLog.faithful.sync (o := w.syncCalls) fun _ _ => h.hasLog.token
  rw [← hsession] at hfaithful
  by_cases hb : w.log.session.storage.buffer = []
  · have hsent := h.buffer_eq_nil_iff.mp hb
    obtain ⟨hstatus, hrun⟩ := run_sync_of_nil hb w.syncCalls
    rw [hrun] at hsession
    rw [hreply, hstatus, Upload.sync, if_pos hsent]
    refine ⟨rfl, ⟨hfaithful, ?_, hok, ?_, h.hasLog.alone⟩, h.patient, ?_, ?_, htail⟩
    · rw [hsession]
      exact h.hasLog.log_eq
    · rw [hsession]
      exact h.hasLog.live
    · rw [TokenLog.written, hsession]
      exact h.written
    · rw [TokenLog.durable, hsession]
      exact h.durable
  have hsent := mt h.buffer_eq_nil_iff.mpr hb
  cases hw : w.syncCalls.write with
  | some e =>
    rw [TokenLog.token, hsession, (run_sync_of_error hb hw).2] at hok
    cases hok
  | none =>
    obtain ⟨hstatus, store, hrun, -, hlive, -, hcontents, hdurable⟩ := run_sync_of_write hb hw
    rw [hrun] at hsession
    obtain ⟨hcontent, hall, -⟩ := Upload.sync_spec u
    have hwritten : w.written ++ w.log.session.storage.buffer = u.content := by
      obtain ⟨sent, hlog, -, hsent⟩ := h.hasLog.faithful.sent
      rw [← h.hasLog.log_eq, hlog, ← hsent h.hasLog.token]
      rfl
    have hupload : (TokenLog.sync w).1 = (Upload.sync u).1 ∧
        (if w.syncCalls.flush = none then u.content.length else u.flushed) =
          (Upload.sync u).2.flushed ∧
        (Upload.sync u).2.flushes = u.flushes.tail := by
      rw [hreply, GcsRapidStorage.sync, if_neg hb, hw, Upload.sync, if_neg hsent, hflush]
      cases w.syncCalls.flush <;> exact ⟨rfl, rfl, rfl⟩
    obtain ⟨hstatus', hflushed, hrest⟩ := hupload
    refine ⟨hstatus', ⟨hfaithful, ?_, hok, ?_, h.hasLog.alone⟩, h.patient, ?_, ?_,
      hrest.trans htail⟩
    · rw [hsession, hcontent]
      exact h.hasLog.log_eq
    · rw [hsession]
      exact hlive.trans h.hasLog.live
    · rw [hcontent, hall, List.take_length, ← hwritten, TokenLog.written, hsession]
      exact hcontents
    · rw [← hflushed, TokenLog.durable, hsession, ← hwritten, List.length_append, ← h.durable]
      exact hdurable

end ActsAs

/-- **An object does what an upload does** until a `Write` fails. -/
theorem lockstep_upload : StorageLockstep ActsAs (fun w => w.token = false) where
  append data := ⟨fun w hw => (token_append data w).1.trans hw, fun w u h _ => h.append data⟩
  pRead size offset := ⟨fun w hw => (token_pRead size offset w).trans hw,
    fun w u h _ => h.pRead size offset⟩
  getSize := by
    refine ⟨fun w hw => hw, fun w u h _ => ⟨?_, h⟩⟩
    show Except.ok w.log.session.storage.fileLength = Except.ok _
    rw [h.hasLog.faithful.length_eq, h.hasLog.log_eq]
  sync := ⟨fun w hw => token_sync hw, fun w u h hok => h.sync ((Bool.not_eq_false _).mp hok)⟩

end TokenLog

end SqliteGcs
