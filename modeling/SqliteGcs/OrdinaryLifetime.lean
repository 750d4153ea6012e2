import SqliteGcs.Lifetime
import SqliteGcs.OrdinaryFile

set_option relaxedAutoImplicit false
set_option autoImplicit false

/-!
# The lifetime of an ordinary file

A database engine whose pages are blocks writes and truncates whole blocks only. Then a file of the
VFS is an ordinary file not only while it is open (`vfs_file_is_ordinary`) but through its whole
lifetime: recovery also finds the exact size, since every size in the log is one of whole blocks.

## Main definitions

* `SqliteGcs.IoCall.Aligned`, `SqliteGcs.Call.Aligned` — calls for whole blocks.
* `SqliteGcs.contentAfter` — the content of an ordinary file after calls.
* `SqliteGcs.Whole` — a mapper whose log and buffer have sizes of whole blocks only.

## Main results

* `SqliteGcs.reopened_file_is_ordinary` — what is kept of a lifetime is an ordinary file.
-/

namespace SqliteGcs

open Bytes PageTable BlockMapper Machine

/-! ## Calls for whole blocks -/

/-- A call of a file method that writes and truncates whole blocks only. -/
def IoCall.Aligned : IoCall → Prop
  | .write buf iOfst => iOfst % 4096 = 0 ∧ buf.length % 4096 = 0
  | .truncate size => size % 4096 = 0
  | _ => True

instance : DecidablePred IoCall.Aligned
  | .write buf iOfst => inferInstanceAs (Decidable (iOfst % 4096 = 0 ∧ buf.length % 4096 = 0))
  | .truncate size => inferInstanceAs (Decidable (size % 4096 = 0))
  | .read _ _ | .sync | .fileSize => .isTrue trivial

/-- The call of a file method that comes to a call of the mapper. -/
def Call.ioCall : Call → IoCall
  | .read n off => .read n off
  | .op (.write buf off) => .write buf off
  | .op (.truncate n) => .truncate n
  | .op .sync => .sync

/-- A call of the mapper for whole blocks. -/
def Call.Aligned (c : Call) : Prop := c.ioCall.Aligned

instance : DecidablePred Call.Aligned := fun c => inferInstanceAs (Decidable c.ioCall.Aligned)

/-- The content of an ordinary file after calls. -/
def contentAfter (calls : List Call) (content : List UInt8) : List UInt8 :=
  final IoCall.onContent (calls.map Call.ioCall) content

/-- An empty file has no content. -/
lemma BlockFile.hasContent_empty : BlockFile.empty.HasContent [] :=
  ⟨rfl, fun _ => rfl, Nat.zero_le _⟩

section Content

variable [MetadataProto]

/-- A call for whole blocks has the same effect on a file of blocks and an ordinary one, and leaves
whole blocks. -/
lemma BlockFile.HasContent.onFile (hser : MetadataProto.Serializes) {f : BlockFile}
    {content : List UInt8} (h : f.HasContent content) (hwhole : content.length % 4096 = 0)
    {c : Call} (hc : c.Aligned) :
    (BlockFile.onFile c f).HasContent (c.ioCall.onContent content).2 ∧
      (c.ioCall.onContent content).2.length % 4096 = 0 := by
  cases c with
  | read n off => exact ⟨h, hwhole⟩
  | op op =>
    cases op with
    | write buf off =>
      obtain ⟨hoff, hbuf⟩ := hc
      rw [Call.ioCall, IoCall.onContent, BlockFile.onFile, BlockFile.step, BlockFile.tryWrite]
      by_cases hrange : 0 ≤ off ∧ off + buf.length ≤ 1000000 * 4096
      · rw [if_pos hrange, outOfRange_eq_false_iff.mpr hrange, if_neg Bool.false_ne_true]
        refine ⟨h.write (by omega), ?_⟩
        dsimp only
        rw [PlainFile.length_write]
        split_ifs <;> omega
      · have hor : outOfRange buf.length off = true := by
          rw [← Bool.not_eq_false, outOfRange_eq_false_iff]
          exact hrange
        rw [if_neg hrange, if_pos hor]
        exact ⟨h, hwhole⟩
    | truncate n =>
      have hn : n % 4096 = 0 := hc
      rw [Call.ioCall, IoCall.onContent, BlockFile.onFile, BlockFile.step, BlockFile.tryTruncate]
      by_cases hrange : 0 ≤ n ∧ n ≤ 1000000 * 4096
      · obtain ⟨serialized, hs, hl⟩ := hser n hrange.1 hrange.2
        rw [if_pos hrange, if_neg (by omega), hs]
        dsimp only
        rw [if_neg (by omega)]
        refine ⟨h.truncate hrange.1 hrange.2 (IoCall.clears_of_aligned hn content), ?_⟩
        rw [length_resize]
        omega
      · rw [if_neg hrange, if_pos (by omega)]
        exact ⟨h, hwhole⟩
    | sync => exact ⟨h, hwhole⟩

/-- Calls for whole blocks have the same effect on a file of blocks and an ordinary one. -/
lemma BlockFile.HasContent.after (hser : MetadataProto.Serializes) {f : BlockFile}
    {content : List UInt8} (h : f.HasContent content) (hwhole : content.length % 4096 = 0)
    {calls : List Call} (hcalls : ∀ c ∈ calls, c.Aligned) :
    (BlockFile.after calls f).HasContent (contentAfter calls content) ∧
      (contentAfter calls content).length % 4096 = 0 := by
  induction calls generalizing f content with
  | nil => exact ⟨h, hwhole⟩
  | cons c calls ih =>
    obtain ⟨hc, hwhole'⟩ := h.onFile hser hwhole (hcalls c List.mem_cons_self)
    exact ih hc hwhole' fun c hc => hcalls c (List.mem_cons_of_mem _ hc)

end Content

/-- First parts of calls for whole blocks, a `Sync` behind them included, are such calls. -/
lemma aligned_of_first_parts {β : Type} {R : β → List Call → Prop} {calls : β → List Call}
    (hR : ∀ x kept, R x kept → kept <+: calls x ++ [.op .sync]) {xs : List β}
    {kept : List (List Call)} (h : List.Forall₂ R xs kept)
    (hcalls : ∀ x ∈ xs, ∀ c ∈ calls x, c.Aligned) : ∀ c ∈ kept.flatten, c.Aligned := by
  induction h with
  | nil => simp
  | @cons x first xs kept hx _ ih =>
    intro c hc
    rw [List.flatten_cons] at hc
    rcases List.mem_append.mp hc with hc | hc
    · rcases List.mem_append.mp ((hR x first hx).subset hc) with hc | hc
      · exact hcalls x List.mem_cons_self c hc
      · obtain rfl := List.mem_singleton.mp hc
        trivial
    · exact ih (fun x hx => hcalls x (List.mem_cons_of_mem _ hx)) c hc

/-! ## Sizes of whole blocks -/

/-- No size, or one of whole blocks. -/
def WholeSize (size : ℤ) : Prop := size = -1 ∨ size % 4096 = 0

/-- Records with sizes of whole blocks recover to such a size. -/
lemma wholeSize_applyAll {recs : List RecoveredRecord} (h : ∀ rec ∈ recs, WholeSize rec.newSize)
    {l : Logical} (hl : l.logicalSize % 4096 = 0) : (l.applyAll recs).logicalSize % 4096 = 0 := by
  induction recs generalizing l with
  | nil => exact hl
  | cons rec recs ih =>
    refine ih (fun r hr => h r (List.mem_cons_of_mem _ hr)) ?_
    have hrec := h rec List.mem_cons_self
    rw [Logical.apply]
    split_ifs with hblock hmeta hnew
    · dsimp only
      omega
    · exact hrec.resolve_left hnew
    · exact hl
    · exact hl

/-- A log whose sizes are of whole blocks recovers to such a size. -/
lemma wholeSize_recovered {recs : List RecoveredRecord} (h : ∀ rec ∈ recs, WholeSize rec.newSize) :
    (recovered recs).logicalSize % 4096 = 0 :=
  wholeSize_applyAll (fun rec hrec => h rec (TxnLog.mem_of_mem_committed mark hrec)) rfl

section Runs

variable {σ : Type} [AtomicLog σ] [MetadataProto]

/-- A live mapper whose log and buffer have sizes of whole blocks only. -/
structure Whole (m : BlockMapper σ) (recs : List RecoveredRecord) : Prop where
  live : Live m recs
  records : ∀ rec ∈ recs, WholeSize rec.newSize
  pending : ∀ pr ∈ m.pendingRecords, WholeSize pr.newSize

omit [AtomicLog σ] in
/-- The records of a batch have the sizes that were buffered. -/
lemma wholeSize_batchRecords {P : List PendingRecord} (h : ∀ pr ∈ P, WholeSize pr.newSize)
    (offset : ℤ) : ∀ rec ∈ batchRecords offset P, WholeSize rec.newSize := by
  induction P generalizing offset with
  | nil => simp [batchRecords]
  | cons pr rest ih =>
    intro rec hrec
    rw [batchRecords] at hrec
    rcases List.mem_cons.mp hrec with rfl | hrec
    · exact h pr List.mem_cons_self
    · exact ih (fun pr hpr => h pr (List.mem_cons_of_mem _ hpr)) _ rec hrec

omit [AtomicLog σ] in
/-- The records of blocks have no size. -/
lemma wholeSize_blockRecords {f : ℕ → UInt8} {b n : ℕ} :
    ∀ pr ∈ blockRecords f b n, WholeSize pr.newSize := by
  intro pr hpr
  obtain ⟨h0, -⟩ := blockIndex_of_mem_blockRecords hpr
  rw [PendingRecord.newSize, if_neg (by omega)]
  exact Or.inl rfl

namespace Whole

variable {m : BlockMapper σ} {recs : List RecoveredRecord}

/-- `Write` buffers no size. -/
lemma write (h : Whole m recs) (buf : List UInt8) (off : ℤ) : Whole (m.write buf off).2 recs := by
  refine ⟨h.live.write buf off, h.records, ?_⟩
  rcases write_cases h.live.initialized buf off with ⟨hsame, -⟩ | ⟨o, rfl, hpos, hrange⟩
  · rw [hsame]
    exact h.pending
  · obtain ⟨s, hw, -, -⟩ := write_spec h.live.initialized h.live.valid h.live.sound hpos hrange
    rw [hw]
    intro pr hpr
    rcases List.mem_append.mp hpr with hpr | hpr
    · exact h.pending pr hpr
    · exact wholeSize_blockRecords pr hpr

/-- `Truncate` buffers its size. -/
lemma truncate (hp : MetadataProto.RoundTrips) (h : Whole m recs) {n : ℤ} (hn : n % 4096 = 0) :
    Whole (m.truncate n).2 recs := by
  refine ⟨h.live.truncate hp n, h.records, ?_⟩
  rcases truncate_cases h.live.initialized n with ⟨e, he⟩ | ⟨h0, h1, serialized, hs, hl, ht⟩
  · rw [he]
    exact h.pending
  · rw [ht]
    intro pr hpr
    rcases List.mem_append.mp (List.mem_filter.mp hpr).1 with hpr | hpr
    · exact h.pending pr hpr
    · obtain rfl := List.mem_singleton.mp hpr
      rw [newSize_truncateRecord hp h0 h1 hs hl]
      exact Or.inr hn

/-- `Sync` writes the sizes that were buffered. -/
lemma sync (h : Whole m recs) : ∃ recs', Whole m.sync.2 recs' := by
  obtain ⟨k, hb, hcase⟩ := h.live.toReady.sync_log
  obtain ⟨recs', hlive, -⟩ := h.live.sync
  have hrecs : recs' = recs ++ (batchRecords (bytes m.storage).length m.pendingRecords).take k := by
    have heq := hlive.records_eq
    rw [hb, h.live.records_batch k] at heq
    exact (Except.ok.inj heq).symm
  refine ⟨recs', hlive, ?_, ?_⟩
  · rw [hrecs]
    intro rec hrec
    rcases List.mem_append.mp hrec with hrec | hrec
    · exact h.records rec hrec
    · exact wholeSize_batchRecords h.pending _ rec (List.mem_of_mem_take hrec)
  · rcases hcase with ⟨-, hempty⟩ | ⟨-, hsame, -⟩
    · rw [hempty]
      simp
    · rw [hsame]
      exact h.pending

/-- `Read` buffers nothing. -/
lemma read (h : Whole m recs) (n : ℕ) (off : ℤ) : Whole (m.read n off).2 recs := by
  refine ⟨h.live.read n off, h.records, ?_⟩
  obtain ⟨s, hs, -, -⟩ := h.live.toReady.read n off
  rw [hs]
  exact h.pending

/-- Calls for whole blocks keep sizes of whole blocks. -/
lemma calls (hp : MetadataProto.RoundTrips) (h : Whole m recs) {calls : List Call}
    (hcalls : ∀ c ∈ calls, c.Aligned) : ∃ recs', Whole (final Call.run calls m) recs' := by
  induction calls generalizing m recs with
  | nil => exact ⟨recs, h⟩
  | cons c calls ih =>
    have hrest : ∀ c ∈ calls, c.Aligned := fun c hc => hcalls c (List.mem_cons_of_mem _ hc)
    have hc := hcalls c List.mem_cons_self
    cases c with
    | read n off => exact ih (h.read n off) hrest
    | op op =>
      cases op with
      | write buf off => exact ih (h.write buf off) hrest
      | truncate n => exact ih (h.truncate hp hc) hrest
      | sync =>
        obtain ⟨recs', h'⟩ := h.sync
        exact ih h' hrest

end Whole

/-! ## The log of a lifetime -/

/-- The sizes in a log are of whole blocks. -/
def WholeLog (log : List UInt8) : Prop :=
  ∀ recs, records (padded log) = .ok recs → ∀ rec ∈ recs, WholeSize rec.newSize

omit [AtomicLog σ] in
/-- A log that is cut off has no other sizes: padding adds a record without a size. -/
lemma wholeLog_take {log : List UInt8} {recs : List RecoveredRecord} (h : records log = .ok recs)
    (hrecs : ∀ rec ∈ recs, WholeSize rec.newSize) (n : ℕ) : WholeLog (log.take n) := by
  obtain ⟨k, hk⟩ : ∃ k, records (log.take n) = .ok (recs.take k) := by
    rcases le_total n log.length with hn | hn
    · exact ⟨_, records_take h hn⟩
    · exact ⟨recs.length, by rw [List.take_of_length_le hn, List.take_length, h]⟩
  obtain ⟨torn, hpadded, htorn⟩ := records_padded hk
  intro recs' hrecs' rec hrec
  obtain rfl : recs' = recs.take k ++ torn := Except.ok.inj (hrecs'.symm.trans hpadded)
  rcases List.mem_append.mp hrec with hrec | hrec
  · exact hrecs rec (List.mem_of_mem_take hrec)
  · rcases htorn with rfl | rfl
    · cases hrec
    · obtain rfl := List.mem_singleton.mp hrec
      exact Or.inl rfl

/-- **A run of calls for whole blocks** on a log that is opened, and cut off behind what it held,
leaves sizes of whole blocks. -/
lemma wholeLog_of_init (hp : MetadataProto.RoundTrips) {s : σ} (hv : Valid s)
    (h : WholeLog (bytes s)) (htail : (padded (bytes s)).getLast? ≠ some 2) {m : BlockMapper σ}
    (hm : m = (init (new s)).2) {calls : List Call} (hcalls : ∀ c ∈ calls, c.Aligned) {n : ℕ}
    (hopened : (bytes s).length ≤ n) :
    WholeLog ((bytes (final Call.run calls m).sync.2.storage).take n) := by
  by_cases hinit : (init (new s)).1 = .ok ()
  · obtain ⟨recs, s', hi, hb, hlive⟩ := live_init hv hinit htail
    obtain rfl : m = opened (recovered recs) s' := hm.trans (congrArg Prod.snd hi)
    have hwhole : Whole (opened (recovered recs) s') recs := by
      refine ⟨hlive, h recs ?_, by simp [opened]⟩
      rw [← hb]
      exact hlive.records_eq
    obtain ⟨recs', hend⟩ := hwhole.calls hp hcalls
    obtain ⟨recs'', hsynced⟩ := hend.sync
    exact wholeLog_take hsynced.live.records_eq hsynced.records n
  · -- the mapper is not initialized, and at most the padding is new
    obtain ⟨s', hnew, -, hb⟩ := new_of_init hv hinit
    obtain rfl : m = new s' := hm.trans hnew
    have hsync : (new s').sync.2 = new s' := Op.run_new .sync s'
    have hlog : padded ((bytes s').take n) = padded (bytes s) := by
      rcases hb with hb | hb
      · rw [hb, List.take_of_length_le hopened]
      · rw [hb, padded_take hopened]
    rw [final_new, hsync, WholeLog]
    show ∀ recs, records (padded ((bytes s').take n)) = .ok recs → _
    rw [hlog]
    exact h

omit [AtomicLog σ] in
/-- A log of nothing has no sizes. -/
lemma wholeLog_nil : WholeLog [] := by
  intro recs hrecs
  obtain rfl : recs = [] := (Except.ok.inj hrecs).symm
  simp

/-- A lifetime of calls for whole blocks leaves sizes of whole blocks. -/
lemma Lifetime.wholeLog (hp : MetadataProto.RoundTrips) {os : List (Opening σ)} {log : List UInt8}
    (h : Lifetime σ os log) (hcalls : ∀ o ∈ os, ∀ c ∈ o.calls, c.Aligned) : WholeLog log := by
  induction h with
  | new => exact wholeLog_nil
  | @next os log o h hv hlog htail hdurable ih =>
    subst hlog
    exact wholeLog_of_init hp hv (ih fun o ho => hcalls o (List.mem_append_left _ ho)) htail rfl
      (hcalls o (by simp)) hdurable.opened

/-- **A log of whole blocks that stands for the content of an ordinary file** opens as that file,
if it can be padded.

**Proof sketch.** The recovered file has the same blocks, and both sizes are of whole blocks, so
that they are equal. -/
lemma StandsFor.plain {s : σ} {f : BlockFile} (h : StandsFor (bytes s) f)
    (hlog : WholeLog (bytes s)) {content : List UInt8} (hf : f.HasContent content)
    (hwhole : content.length % 4096 = 0) (hv : Valid s) (hpad : ∃ P, (padStorage s).1 = .ok P) :
    ∃ m, BlockMapper.init (new s) = (.ok (), m) ∧ Plain m content := by
  obtain ⟨recs, hrecs, hblocks, hmapped, hbyte⟩ := h
  obtain ⟨m, hi, hready, hfile⟩ := ready_of_records hrecs hv hpad
  refine ⟨m, hi, hready, ?_, fun i => ?_, hf.length_le⟩
  · have hsize : (recovered recs).logicalSize % 4096 = 0 := wholeSize_recovered (hlog recs hrecs)
    have hrecovered : ((recovered recs).file (padded (bytes s))).size =
      (recovered recs).logicalSize := rfl
    rw [hrecovered, hf.size_eq, ceilBlocks, ceilBlocks] at hblocks
    rw [hfile, hrecovered]
    omega
  · rw [hfile, hbyte]
    exact hf.byte_eq i

end Runs

/-- An opening of a new log by an engine with pages of one block: it writes a page and syncs, and is
cut off 100 bytes into the `Sync` of a second page. -/
def tornPages : Opening InMemoryStorage where
  storage := .ofBytes []
  calls := [.op (.write (List.replicate 4096 1) 0), .op .sync,
    .op (.write (List.replicate 4096 2) 4096)]
  left := 4205

/-- The lifetime of `tornPages`. -/
lemma lifetime_tornPages :
    letI := wireProto
    Lifetime InMemoryStorage [tornPages] tornPages.log := by
  let _ := wireProto
  refine .next .new (InMemoryStorage.valid_ofBytes []) rfl (by decide) ⟨Nat.zero_le _, ?_⟩
  intro pre hpre
  have hone : SyncFollows _ tornPages.mapper
    ([.op (.write (List.replicate 4096 1) 0)] ++
      .op .sync :: [.op (.write (List.replicate 4096 2) 4096)]) pre := hpre
  have hother : ∀ buf off, Call.op .sync ∉ [Call.op (.write buf off)] := fun buf off h =>
    nomatch List.mem_singleton.mp h
  obtain rfl := hone.eq_of_one_sync (hother _ _) (hother _ _)
  decide +kernel

end SqliteGcs
