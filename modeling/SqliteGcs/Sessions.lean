import SqliteGcs.Live

set_option relaxedAutoImplicit false
set_option autoImplicit false

/-!
# Sessions on one log

A session opens the log with `Init` and calls the mapper until it is closed or cut off by a crash
in the middle of a `Sync`. This file says which of the decisions of one session's `Init` a later
session's `Init` can turn over: exactly those on an uncommitted tail, a run of records with flag 2
at the end of the log. The next batch that is appended closes that run, so its verdict is the
verdict on the tail.

## Main definitions

* `SqliteGcs.Session` — what one session on a storage leaves in the file.
* `SqliteGcs.Sessions` — what any number of sessions leave in the file.

## Main results

* `SqliteGcs.padded_prefix_of_sessions` — a later session sees an extension of the padded log.
* `SqliteGcs.unapplied_later_applied_iff` — when a record that one `Init` did not apply is applied
  by a later one.
* `SqliteGcs.not_unapplied_stays_unapplied` — the tail of a crashed session comes back.
-/

namespace SqliteGcs

open Bytes PageTable BlockMapper

section Definitions

variable {σ : Type} [AtomicLog σ] [MetadataProto]

/-- What one session on the storage `s` leaves in the file: it runs `Init` and some calls, and is
closed, or is cut off by a crash in a `Sync` after `k` bytes of the appends. -/
inductive Session (s : σ) : List UInt8 → Prop
  | closed (ops : List Op) : Session s (bytes (runOps ops (init (new s)).2).storage)
  | crashed (ops : List Op) (k : ℕ) :
    Session s ((bytes (runOps ops (init (new s)).2).sync.2.storage).take
      ((bytes (runOps ops (init (new s)).2).storage).length + k))

/-- One session after another: each opens a storage that holds the file the one before left. -/
inductive Sessions (σ : Type) [AtomicLog σ] : List UInt8 → List UInt8 → Prop
  | none (file : List UInt8) : Sessions σ file file
  | next {file file' file'' : List UInt8} {s : σ} (hs : Sessions σ file file') (hv : Valid s)
    (hb : bytes s = file') (hses : Session s file'') : Sessions σ file file''

omit [AtomicLog σ] in
/-- The calls of a mapper that is not initialised do nothing. -/
lemma runOps_new [AppendOnlyStorage σ] (ops : List Op) (s : σ) : runOps ops (new s) = new s := by
  induction ops with
  | nil => rfl
  | cons op ops ih =>
    rw [runOps, List.foldl_cons, op.run_new]
    exact ih

omit [MetadataProto] [AtomicLog σ] in
/-- Padding a padded file does nothing. -/
lemma padded_padded (file : List UInt8) : padded (padded file) = padded file := by
  refine padded_of_aligned ?_
  rw [length_padded]
  omega

/-- A session that opens the storage leaves an extension of the padded file. -/
lemma padded_prefix_of_session {s : σ} (hv : Valid s) {file : List UInt8} (h : Session s file) :
    padded (bytes s) <+: padded file := by
  by_cases hinit : (init (new s)).1 = .ok ()
  · obtain ⟨recs, s', -, hi, hb, hready⟩ := ready_of_init hv hinit
    have hgrow : padded (bytes s) <+: file := by
      cases h with
      | closed ops =>
        obtain ⟨-, hpre⟩ := hready.runOps ops
        rw [hi, ← hb]
        exact hpre
      | crashed ops k =>
        obtain ⟨hready', hpre⟩ := hready.runOps ops
        obtain ⟨-, hpre'⟩ := hready'.sync
        rw [hi, ← hb]
        refine hpre.trans ?_
        rw [List.prefix_take_iff]
        exact ⟨hpre', Nat.le_add_right _ k⟩
    exact hgrow.trans (List.prefix_append _ _)
  · obtain ⟨s', hm, hv', hb⟩ := new_of_init hv hinit
    have hfile : file = bytes s' := by
      cases h with
      | closed ops => rw [hm, runOps_new]; rfl
      | crashed ops k =>
        rw [hm, runOps_new]
        exact List.take_of_length_le (Nat.le_add_right _ k)
    rcases hb with hb | hb
    · exact ⟨[], by rw [List.append_nil, hfile, hb]⟩
    · exact ⟨[], by rw [List.append_nil, hfile, hb, padded_padded]⟩

/-- **A later session sees an extension of the padded log.** -/
theorem padded_prefix_of_sessions {file file' : List UInt8} (h : Sessions σ file file') :
    padded file <+: padded file' := by
  induction h with
  | none => exact List.prefix_rfl
  | next _ hv hb hses ih =>
    rw [← hb] at ih
    exact ih.trans (padded_prefix_of_session hv hses)

/-! ## Decisions of later sessions -/

/-- **When a later session applies a record that an earlier one did not.** Let one session's `Init`
find the records `recs` and not apply record `j`. A later session's `Init` finds `recs` followed
by further records, and applies record `j` exactly when the records of `recs` from `j` on all have
flag 2, and the first of the further records that does not have flag 2 has flag 1.

**Proof sketch.** The file only grows (`padded_prefix_of_sessions`), so the later records extend
the earlier ones. The verdict on a record of an extended log is the earlier one, unless the log
from the record on is an open chain; then it is the flag in front of the extension. -/
theorem unapplied_later_applied_iff {s s' : σ} (hv : Valid s) (hv' : Valid s')
    (h : Sessions σ (bytes s) (bytes s')) {applied applied' : List Bool}
    (hd : decisions s = .ok applied) (hd' : decisions s' = .ok applied') :
    ∃ recs further, records (padded (bytes s)) = .ok recs ∧
      records (padded (bytes s')) = .ok (recs ++ further) ∧
      ∀ j, applied[j]? = some false →
        (applied'[j]? = some true ↔
          (∀ rec ∈ recs.drop j, rec.isGood = 2) ∧
            ∃ pre rec post, further = pre ++ rec :: post ∧ (∀ r ∈ pre, r.isGood = 2) ∧
              rec.isGood = 1) := by
  obtain ⟨recs, hrecs, rfl⟩ := decisions_of_ok hv hd
  obtain ⟨recs', hrecs', rfl⟩ := decisions_of_ok hv' hd'
  obtain ⟨rest, hrest⟩ := padded_prefix_of_sessions h
  have hal : (padded (bytes s)).length % 4105 = 0 := by
    rw [length_padded]
    omega
  rw [← hrest] at hrecs'
  obtain ⟨recs₁, further, hrecs₁, rfl⟩ := records_of_append hal hrecs'
  obtain rfl : recs = recs₁ := by
    rw [hrecs] at hrecs₁
    exact Except.ok.inj hrecs₁
  have hchain : ∀ l : List RecoveredRecord,
      TxnLog.AllChain mark l ↔ ∀ rec ∈ l, rec.isGood = 2 := by
    intro l
    refine forall₂_congr fun rec _ => ?_
    unfold mark
    split_ifs with h1 h2 <;> simp_all
  have hcommit : ∀ rec : RecoveredRecord, mark rec = .commit ↔ rec.isGood = 1 := by
    intro rec
    unfold mark
    split_ifs with h1 h2 <;> simp_all
  refine ⟨recs, further, hrecs, by rw [← hrest, hrecs'], fun j hj => ?_⟩
  obtain ⟨hlt, hfalse⟩ := List.getElem?_eq_some_iff.mp hj
  rw [TxnLog.getElem_verdicts] at hfalse
  have hlt' : j < recs.length := by rwa [TxnLog.length_verdicts] at hlt
  rw [TxnLog.getElem_verdicts_append mark recs further false hlt', Option.some.injEq]
  have hcarry : (TxnLog.carry mark further false = true ↔
      ∃ pre rec post, further = pre ++ rec :: post ∧ (∀ r ∈ pre, r.isGood = 2) ∧
        rec.isGood = 1) := by
    rw [TxnLog.carry_eq_true_iff]
    simp only [hchain, hcommit]
  rw [← hcarry, ← hchain]
  by_cases hall : TxnLog.AllChain mark (recs.drop j)
  · rw [TxnLog.carry_of_allChain mark hall]
    exact ⟨fun h => ⟨hall, h⟩, fun h => h.2⟩
  · rw [TxnLog.carry_of_not_allChain mark hall _ false, hfalse]
    exact ⟨fun h => absurd h Bool.false_ne_true, fun h => absurd h.1 hall⟩

end Definitions

/-! ## The tail of a crashed session -/

section Tail

variable [MetadataProto]

/-- The records of a file of one record of flag 2. -/
lemma records_tail {tail : PendingRecord} (ht : tail.Decodes) :
    records (tail.encode 2) = .ok [tail.recovered 0 2] := by
  have hpiece : ∀ buf ∈ [tail.encode 2], buf.length = 4105 := by simp
  have h := records_flatten hpiece (by
    rw [parseLog, parseRecord_encode ht _ (Or.inr rfl)]
    rfl)
  rwa [List.flatten_singleton] at h

/-- A file that starts with a record of flag 2 and goes on with a batch of one record: `Init`
applies neither record of the first part alone, and both of the whole. -/
lemma decisions_tail {tail own : PendingRecord} (ht : tail.Decodes) (ho : own.Decodes) :
    decisions (InMemoryStorage.ofBytes (tail.encode 2)) = .ok [false] ∧
      decisions (InMemoryStorage.ofBytes (tail.encode 2 ++ own.encode 1)) = .ok [true, true] := by
  have hdec : ∀ {s : InMemoryStorage} {recs : List RecoveredRecord}, Valid s →
      (bytes s).length % 4105 = 0 → records (bytes s) = .ok recs →
      decisions s = .ok (TxnLog.verdicts mark recs false) := by
    intro s recs hv hal hrecs
    exact decisions_of_records hv (padStorage_of_aligned hv hal) (by rwa [padded_of_aligned hal])
  have hlen : (tail.encode 2).length = 4105 := tail.length_encode 2
  have h1 := records_tail ht
  have h2 : records (tail.encode 2 ++ own.encode 1) =
      .ok [tail.recovered 0 2, own.recovered 4105 1] := by
    have hpiece : ∀ buf ∈ [own.encode 1], buf.length = 4105 := by simp
    have h := records_append (by rw [hlen]) hpiece h1 (by
      rw [parseLog, parseRecord_encode ho _ (Or.inl rfl)]
      rfl)
    rw [hlen] at h
    simpa using h
  have hlen2 : (tail.encode 2 ++ own.encode 1).length = 4105 + 4105 := by
    rw [List.length_append, hlen, own.length_encode]
  constructor
  · exact hdec (s := .ofBytes (tail.encode 2)) (InMemoryStorage.valid_ofBytes _)
      (congrArg (· % 4105) hlen) h1
  · exact hdec (s := .ofBytes (tail.encode 2 ++ own.encode 1)) (InMemoryStorage.valid_ofBytes _)
      (congrArg (· % 4105) hlen2) h2

/-- A session on a log that recovers to the empty state writes `n` bytes at the start of the file
and syncs: the file it leaves, and every first part of it behind the old log. -/
lemma session_write {s : InMemoryStorage} (hv : Valid s) {recs : List RecoveredRecord}
    (hal : (bytes s).length % 4105 = 0) (hrecs : records (bytes s) = .ok recs)
    {buf : List UInt8} (hpos : 0 < buf.length) (hrange : buf.length ≤ 1000000 * 4096) :
    ∃ f, Session s (bytes s ++
        (encodeBatch (blockRecords f 0 ((buf.length - 1) / 4096 + 1))).flatten) ∧
      ∀ k, Session s ((bytes s ++
        (encodeBatch (blockRecords f 0 ((buf.length - 1) / 4096 + 1))).flatten).take
          ((bytes s).length + k)) := by
  obtain ⟨s₁, hi, hb, hv₁⟩ := init_of_reliable hv hrecs
  rw [padded_of_aligned hal] at hb
  have hready : Ready (opened (recovered recs) s₁) := ready_opened hv₁ (by rw [hb, hrecs])
  obtain ⟨s₂, hw, hb₂, hv₂⟩ := write_spec hready.initialized hready.valid hready.sound
    (o := 0) hpos (by omega)
  rw [Nat.zero_add, Nat.zero_div, Nat.sub_zero] at hw
  have hrun : runOps [.write buf 0] (init (new s)).2 =
      ((opened (recovered recs) s₁).write buf ((0 : ℕ) : ℤ)).2 := by
    rw [hi]
    rfl
  obtain ⟨m₁, hm₁⟩ : ∃ m₁, m₁ = runOps [.write buf 0] (init (new s)).2 := ⟨_, rfl⟩
  have hm₁' := hm₁
  rw [hrun, hw] at hm₁'
  obtain ⟨s₃, hsync, hb₃, hv₃⟩ := sync_reliable (m := m₁) (by rw [hm₁']; rfl)
    (by rw [hm₁']; exact hv₂)
  have hfile : bytes m₁.storage = bytes s := by
    rw [hm₁', ← hb]
    exact hb₂
  have hpending : m₁.pendingRecords =
      blockRecords (patch (opened (recovered recs) s₁).byteAt 0 buf 0)
      0 ((buf.length - 1) / 4096 + 1) := by
    rw [hm₁']
    rfl
  refine ⟨patch (opened (recovered recs) s₁).byteAt 0 buf 0, ?_, fun k => ?_⟩
  · have hses := Session.closed (s := s) [.write buf 0, .sync]
    have hrun' : runOps [.write buf 0, .sync] (init (new s)).2 = m₁.sync.2 := by
      rw [hm₁]
      rfl
    rw [hrun', hsync, hb₃, hfile, hpending] at hses
    exact hses
  · have hses := Session.crashed (s := s) [.write buf 0] k
    rw [← hm₁, hsync, hb₃, hfile, hpending] at hses
    exact hses

/-- On an empty log a session writes two blocks and is cut off after the first record of its
`Sync`; the next session writes one block, syncs and is closed. -/
lemma sessions_tail : ∃ tail own : PendingRecord, tail.Decodes ∧ own.Decodes ∧
    Sessions InMemoryStorage [] (tail.encode 2) ∧
    Sessions InMemoryStorage (tail.encode 2) (tail.encode 2 ++ own.encode 1) := by
  -- the first session
  obtain ⟨buf, hbuf⟩ : ∃ buf : List UInt8, buf.length = 4097 :=
    ⟨List.replicate 4097 1, List.length_replicate⟩
  obtain ⟨f, -, hcrash⟩ := session_write (InMemoryStorage.valid_ofBytes []) rfl rfl
    (by omega : 0 < buf.length) (by omega)
  have hn : (buf.length - 1) / 4096 + 1 = 2 := by rw [hbuf]
  have hdec : ∀ pr ∈ blockRecords f 0 2, pr.Decodes := decodes_blockRecords (by decide)
  obtain ⟨tail, last, hrecords⟩ : ∃ tail last, blockRecords f 0 2 = [tail, last] := ⟨_, _, rfl⟩
  have hfirst : Session (InMemoryStorage.ofBytes []) (tail.encode 2) := by
    have h := hcrash 4105
    have hbatch : encodeBatch [tail, last] = [tail.encode 2, last.encode 1] := by
      simp [encodeBatch]
    rw [hn, hrecords, hbatch, InMemoryStorage.bytes_ofBytes, List.nil_append, List.flatten_cons,
      List.take_left' (by rw [tail.length_encode]; rfl)] at h
    exact h
  rw [hrecords] at hdec
  have ht : tail.Decodes := hdec tail List.mem_cons_self
  -- the second session
  have hlen : (tail.encode 2).length = 4105 := tail.length_encode 2
  have hrecs : records (tail.encode 2) = .ok [tail.recovered 0 2] := records_tail ht
  obtain ⟨g, hclosed, -⟩ := session_write (s := .ofBytes (tail.encode 2))
    (InMemoryStorage.valid_ofBytes _) (congrArg (· % 4105) hlen) hrecs
    (by decide : 0 < ([1] : List UInt8).length) (by decide)
  have hdec' : ∀ pr ∈ blockRecords g 0 1, pr.Decodes := decodes_blockRecords (by decide)
  obtain ⟨own, hown⟩ : ∃ own, blockRecords g 0 1 = [own] := ⟨_, rfl⟩
  rw [hown] at hdec'
  have hsecond : Session (InMemoryStorage.ofBytes (tail.encode 2))
      (tail.encode 2 ++ own.encode 1) := by
    have hbatch : (encodeBatch [own]).flatten = own.encode 1 := by
      simp [encodeBatch]
    have hm : ([1] : List UInt8).length = 1 := rfl
    rw [hm, hown, hbatch] at hclosed
    exact hclosed
  exact ⟨tail, own, ht, hdec' own List.mem_cons_self,
    .next (.none []) (InMemoryStorage.valid_ofBytes []) rfl hfirst,
    .next (.none _) (InMemoryStorage.valid_ofBytes _) rfl hsecond⟩

end Tail

/-- `unapplied_later_applied_iff` for the record that the crashed session left: the records of the
log from it on all have flag 2, and the batch of the next session closes them. -/
theorem unapplied_later_applied_tail :
    letI := wireProto
    ∃ s s' : InMemoryStorage, decisions s = .ok [false] ∧ decisions s' = .ok [true, true] ∧
      ∃ recs further, records (padded (bytes s)) = .ok recs ∧
        records (padded (bytes s')) = .ok (recs ++ further) ∧
        (∀ rec ∈ recs.drop 0, rec.isGood = 2) ∧
        ∃ pre rec post, further = pre ++ rec :: post ∧ (∀ r ∈ pre, r.isGood = 2) ∧
          rec.isGood = 1 := by
  obtain ⟨tail, own, ht, ho, -, hsecond⟩ := @sessions_tail wireProto
  obtain ⟨hd, hd'⟩ := @decisions_tail wireProto _ _ ht ho
  obtain ⟨recs, further, h1, h2, h3⟩ := @unapplied_later_applied_iff InMemoryStorage _ wireProto
    _ _ (InMemoryStorage.valid_ofBytes (tail.encode 2))
    (InMemoryStorage.valid_ofBytes (tail.encode 2 ++ own.encode 1)) hsecond _ _ hd hd'
  obtain ⟨h4, h5⟩ := (h3 0 rfl).mp rfl
  exact ⟨_, _, hd, hd', recs, further, h1, h2, h4, h5⟩

/-- **A record that one `Init` did not apply can be applied by a later one.** The first session
starts on an empty log, writes 4097 bytes and crashes in its `Sync` after 4105 bytes, which is one
whole record of flag 2. The `Init` of the second session does not apply that record; the session
writes one byte and syncs. The `Init` of the third session applies both records. -/
theorem not_unapplied_stays_unapplied :
    letI := wireProto
    ¬ ∀ (s s' : InMemoryStorage) (applied applied' : List Bool) (j : ℕ), Valid s → Valid s' →
      Sessions InMemoryStorage [] (bytes s) → Sessions InMemoryStorage (bytes s) (bytes s') →
      decisions s = .ok applied → decisions s' = .ok applied' →
      applied[j]? = some false → applied'[j]? ≠ some true := by
  let _ := wireProto
  intro hclaim
  obtain ⟨tail, own, ht, ho, hfirst, hsecond⟩ := sessions_tail
  obtain ⟨hd, hd'⟩ := decisions_tail ht ho
  exact hclaim (.ofBytes (tail.encode 2)) (.ofBytes (tail.encode 2 ++ own.encode 1)) _ _ 0
    (InMemoryStorage.valid_ofBytes _) (InMemoryStorage.valid_ofBytes _) hfirst hsecond hd hd'
    rfl rfl

end SqliteGcs
