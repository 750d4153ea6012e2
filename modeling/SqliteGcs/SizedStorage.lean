import SqliteGcs.FixedWidthCalls
import SqliteGcs.OneLog

set_option relaxedAutoImplicit false
set_option autoImplicit false

/-!
# Storages that keep account of their size

The bounds that a mapper computes with come from its storage: the size that `GetSize` reports, the
offset that `Append` returns, and the number of bytes that `PRead` returns. This file states what a
storage keeps of them, whatever fails. It says nothing about bytes, so all three storages satisfy
it in every state, also a file after a torn write and an object of which a `Sync` has failed. A
mapper over such a storage stays within the bounds through all calls.

## Main definitions

* `SqliteGcs.SizedStorage` — what a storage keeps of its size.
* `SqliteGcs.Logical.Within`, `SqliteGcs.BlockMapper.InBounds` — the bounds of a mapper.

## Main results

* `SqliteGcs.BlockMapper.InBounds.call` — the calls keep the bounds.
* `SqliteGcs.BlockMapper.length_pendingRecords_call` — a call buffers at most 1000001 records.
-/

namespace SqliteGcs

open Bytes Machine

/-! ## Storages -/

/-- **A storage that keeps account of its size**, whichever of its calls fail. -/
class SizedStorage (σ : Type) [AppendOnlyStorage σ] where
  /-- The size that the storage reports. -/
  size : σ → ℕ
  /-- The states the laws are about. -/
  Consistent : σ → Prop
  append_spec : ∀ {s} data, Consistent s → Consistent (append data s).2 ∧
    size s ≤ size (append data s).2 ∧ size (append data s).2 ≤ size s + data.length ∧
    ∀ n, (append data s).1 = .ok n → n = size s ∧ size (append data s).2 = size s + data.length
  pRead_frame : ∀ n off s,
    (size (pRead n off s).2, Consistent (pRead n off s).2) = (size s, Consistent s)
  pRead_length : ∀ {s n off bs}, Consistent s → (pRead n off s).1 = .ok bs → bs.length ≤ n
  getSize_spec : ∀ {s}, Consistent s → Consistent (getSize s).2 ∧ size (getSize s).2 = size s ∧
    ∀ n, (getSize s).1 = .ok n → n = size s
  sync_spec : ∀ {s}, Consistent s → Consistent (sync s).2 ∧ size (sync s).2 = size s

open SizedStorage (Consistent)

/-- A vector. -/
instance : SizedStorage InMemoryStorage where
  size s := s.size.toNat
  Consistent s := 0 ≤ s.size
  append_spec {s} data h := by
    show 0 ≤ (InMemoryStorage.append data s).2.size ∧
      _ ≤ (InMemoryStorage.append data s).2.size.toNat ∧
      (InMemoryStorage.append data s).2.size.toNat ≤ s.size.toNat + data.length ∧
      ∀ n, (InMemoryStorage.append data s).1 = .ok n → n = s.size.toNat ∧
        (InMemoryStorage.append data s).2.size.toNat = s.size.toNat + data.length
    rw [InMemoryStorage.append]
    split_ifs with hlen
    · refine ⟨by dsimp only; omega, by dsimp only; omega, by dsimp only; omega, fun n hn => ?_⟩
      obtain rfl := Except.ok.inj hn
      exact ⟨by omega, by dsimp only; omega⟩
    · refine ⟨h, le_rfl, by dsimp only; omega, fun n hn => ?_⟩
      obtain rfl := Except.ok.inj hn
      exact ⟨by omega, by dsimp only; omega⟩
  pRead_frame n off s := by
    have hs : (pRead n off s).2 = s := by
      show (InMemoryStorage.pRead n off s).2 = s
      rw [InMemoryStorage.pRead]
      split_ifs <;> rfl
    rw [hs]
  pRead_length {s n off bs} _ hbs := by
    change (InMemoryStorage.pRead n off s).1 = _ at hbs
    rw [InMemoryStorage.pRead] at hbs
    split_ifs at hbs
    obtain rfl := Except.ok.inj hbs
    rw [length_slice]
    omega
  getSize_spec {s} h := by
    refine ⟨h, rfl, fun n hn => ?_⟩
    obtain rfl := Except.ok.inj hn
    omega
  sync_spec h := ⟨h, rfl⟩

/-- A file, after torn writes as well. -/
instance : SizedStorage LocalStorage where
  size s := s.file.length
  Consistent _ := True
  append_spec {s} data _ := by
    have hlen : s.file.length ≤ (LocalStorage.append data s).2.file.length ∧
        (LocalStorage.append data s).2.file.length ≤ s.file.length + data.length := by
      by_cases hne : data = []
      · subst hne
        rw [(LocalStorage.append_nil s).1]
        exact ⟨le_rfl, Nat.le_add_right _ _⟩
      · obtain ⟨a, -, rfl, -, hstate, -⟩ := LocalStorage.append_spec hne s
        rw [hstate]
        dsimp only
        rw [List.length_append, Appended.bytes, List.length_take]
        omega
    refine ⟨trivial, hlen.1, hlen.2, fun n hn => ?_⟩
    · obtain ⟨hn, hfile⟩ := LocalStorage.append_ok hn
      refine ⟨hn, ?_⟩
      show (LocalStorage.append data s).2.file.length = _
      rw [hfile, List.length_append]
  pRead_frame n off s := by
    have hfile := congrArg Prod.fst (LocalStorage.pRead_frame n off s)
    dsimp only at hfile
    show ((LocalStorage.pRead n off s).2.file.length, True) = (s.file.length, True)
    rw [hfile]
  pRead_length {s n off bs} _ hbs := by
    have hlog : LogStorage.HasLog s s.file := rfl
    obtain ⟨-, rfl⟩ := LogStorage.pRead_ok hlog hbs
    rw [length_slice]
    omega
  getSize_spec {s} _ := by
    obtain ⟨hfile, hn⟩ := LocalStorage.getSize_ok s
    exact ⟨trivial, congrArg List.length hfile, hn⟩
  sync_spec {s} _ := ⟨trivial, congrArg List.length (LocalStorage.file_sync s)⟩

namespace GcsRapidStorage

/-- `Sync` keeps the length of the file, also if it loses the buffer. -/
lemma fileLength_sync (calls : SyncCalls) (s : GcsRapidStorage) (store : ObjectStore UInt8) :
    (s.sync calls store).2.1.fileLength = s.fileLength := by
  rw [sync]
  by_cases hbuf : s.buffer = []
  · rw [if_pos hbuf]
  · rw [if_neg hbuf]
    obtain ⟨write, flush⟩ := calls
    cases write with
    | some e => rfl
    | none => cases flush <;> rfl

/-- `PRead` returns at most the bytes that it is asked for. -/
lemma length_pRead {size : ℕ} {offset : ℤ} {attempts : List Attempt} {s : GcsRapidStorage}
    {store : ObjectStore UInt8} {bs : List UInt8}
    (h : (s.pRead size offset attempts store).1 = .ok bs) : bs.length ≤ size := by
  rw [pRead] at h
  by_cases h0 : offset < 0
  · rw [if_pos h0] at h
    cases h
  by_cases h1 : offset + size > s.fileLength
  · rw [if_neg h0, if_pos h1] at h
    cases h
  rw [if_neg h0, if_neg h1] at h
  dsimp only at h
  by_cases h2 : offset ≥ s.fileLength - s.buffer.length
  · rw [if_pos h2] at h
    obtain rfl := Except.ok.inj h
    rw [length_slice]
    omega
  rw [if_neg h2] at h
  by_cases h3 : offset + size > s.fileLength - s.buffer.length
  · rw [if_pos h3, if_pos h3] at h
    obtain ⟨-, -, hdata⟩ := pReadLoop_spec offset (s.fileLength - s.buffer.length - offset).toNat
      14 attempts s store
    generalize s.pReadLoop offset _ 14 attempts store = p at h hdata
    obtain ⟨e | data, s', store'⟩ := p
    · cases h
    · obtain ⟨-, -, -, hlen⟩ := hdata data rfl
      obtain rfl := Except.ok.inj h
      rw [List.length_append, List.length_take, hlen]
      omega
  · rw [if_neg h3, if_neg h3] at h
    obtain ⟨-, -, hdata⟩ := pReadLoop_spec offset size 14 attempts s store
    generalize s.pReadLoop offset _ 14 attempts store = p at h hdata
    obtain ⟨e | data, s', store'⟩ := p
    · cases h
    · obtain ⟨-, -, -, hlen⟩ := hdata data rfl
      obtain rfl := Except.ok.inj h
      rw [List.length_append, List.length_take, hlen]
      omega

end GcsRapidStorage

namespace GcsLog

/-- `Append` adds the whole buffer to the length of the file. -/
lemma fileLength_append (data : List UInt8) {w : GcsLog} (h : 0 ≤ w.session.storage.fileLength) :
    (append data w).2.session.storage.fileLength =
        w.session.storage.fileLength + data.length ∧
      ∀ n, (append data w).1 = .ok n → n = w.session.storage.fileLength.toNat := by
  have hrun : (append data w).2.session.storage = (w.session.storage.append data).2 := by
    rw [append, GcsCall.run]
    rcases w.session.storage.append data with ⟨e | offset, s⟩ <;> rfl
  rw [hrun, append, GcsRapidStorage.append]
  split_ifs with hlen
  · refine ⟨rfl, fun n hn => ?_⟩
    obtain rfl := Except.ok.inj hn
    omega
  · refine ⟨?_, fun n hn => ?_⟩
    · dsimp only
      omega
    · obtain rfl := Except.ok.inj hn
      omega

/-- `PRead` keeps the length of the file. -/
lemma fileLength_pRead (n : ℕ) (off : ℤ) (w : GcsLog) :
    (pRead n off w).2.session.storage.fileLength = w.session.storage.fileLength := by
  obtain ⟨⟨d, hs⟩, -⟩ :=
    w.session.storage.pRead_spec n off (w.attempts.headD []) w.session.store
  show (w.session.storage.pRead n off (w.attempts.headD []) w.session.store).2.1.fileLength = _
  rw [hs]

end GcsLog

/-- An object and the buffer, also if a `Sync` has lost the buffer. -/
instance : SizedStorage GcsLog where
  size w := w.session.storage.fileLength.toNat
  Consistent w := 0 ≤ w.session.storage.fileLength
  append_spec {w} data h := by
    obtain ⟨hlen, hn⟩ := GcsLog.fileLength_append data h
    show 0 ≤ (GcsLog.append data w).2.session.storage.fileLength ∧
      _ ≤ (GcsLog.append data w).2.session.storage.fileLength.toNat ∧
      (GcsLog.append data w).2.session.storage.fileLength.toNat ≤ _ ∧
      ∀ n, (GcsLog.append data w).1 = .ok n → n = w.session.storage.fileLength.toNat ∧
        (GcsLog.append data w).2.session.storage.fileLength.toNat =
          w.session.storage.fileLength.toNat + data.length
    rw [hlen]
    refine ⟨by omega, by omega, by omega, fun n hok => ⟨hn n hok, by omega⟩⟩
  pRead_frame n off w := by
    show ((GcsLog.pRead n off w).2.session.storage.fileLength.toNat,
      0 ≤ (GcsLog.pRead n off w).2.session.storage.fileLength) = _
    rw [GcsLog.fileLength_pRead]
  pRead_length _ hbs := GcsRapidStorage.length_pRead hbs
  getSize_spec {w} h := by
    refine ⟨h, rfl, fun n hn => ?_⟩
    obtain rfl := Except.ok.inj hn
    show w.session.storage.fileLength = _
    omega
  sync_spec {w} h := by
    have hlen : (GcsLog.sync w).2.session.storage.fileLength = w.session.storage.fileLength :=
      GcsRapidStorage.fileLength_sync (w.syncs.headD ⟨none, none⟩) w.session.storage w.session.store
    show 0 ≤ (GcsLog.sync w).2.session.storage.fileLength ∧
      (GcsLog.sync w).2.session.storage.fileLength.toNat = _
    rw [hlen]
    exact ⟨h, rfl⟩

/-! ## Mappers -/

/-- The bounds of what recovery rebuilds, for a log of `L` bytes. -/
structure Logical.Within (L : ℕ) (l : Logical) : Prop where
  entry : ∀ b, l.logicalToPhysical.getD b (-1) ≠ -1 →
    0 ≤ l.logicalToPhysical.getD b (-1) ∧ l.logicalToPhysical.getD b (-1) + 4096 ≤ L
  length_le : l.logicalToPhysical.length ≤ 1000000
  size_nonneg : 0 ≤ l.logicalSize
  size_upper : l.logicalSize ≤ 1000000 * 4096

namespace Logical.Within

variable {L : ℕ} {l : Logical}

/-- The bounds hold for a longer log. -/
lemma mono (h : l.Within L) {L' : ℕ} (hL : L ≤ L') : l.Within L' where
  entry b hb := by
    obtain ⟨h0, h1⟩ := h.entry b hb
    exact ⟨h0, by omega⟩
  length_le := h.length_le
  size_nonneg := h.size_nonneg
  size_upper := h.size_upper

/-- An entry for a block that lies in the log keeps the bounds. -/
lemma put (h : l.Within L) {b : ℕ} (hb : b < 1000000) {p size : ℤ} (h0 : 0 ≤ p)
    (h1 : p + 4096 ≤ L) (hs0 : 0 ≤ size) (hs1 : size ≤ 1000000 * 4096) :
    Logical.Within L ⟨PageTable.put (-1) b p l.logicalToPhysical, size⟩ where
  entry c hc := by
    dsimp only at hc ⊢
    rw [PageTable.getD_put] at hc ⊢
    by_cases hcb : c = b
    · rw [if_pos hcb]
      exact ⟨h0, h1⟩
    · rw [if_neg hcb] at hc ⊢
      exact h.entry c hc
  length_le := by
    have := h.length_le
    dsimp only
    rw [PageTable.length_put]
    omega
  size_nonneg := hs0
  size_upper := hs1

/-- Cutting the table to a size in range keeps the bounds. -/
lemma resize (h : l.Within L) {n : ℤ} (h0 : 0 ≤ n) (h1 : n ≤ 1000000 * 4096) :
    Logical.Within L ⟨PageTable.resize (-1) (ceilBlocks n).toNat l.logicalToPhysical, n⟩ where
  entry b hb := by
    dsimp only at hb ⊢
    rw [PageTable.getD_resize] at hb ⊢
    split_ifs at hb ⊢ with hlt
    · exact h.entry b hb
    · exact absurd rfl hb
  length_le := by
    dsimp only
    rw [PageTable.length_resize, ceilBlocks]
    omega
  size_nonneg := h0
  size_upper := h1

/-- A valid record that lies in the log keeps the bounds. -/
lemma apply (h : l.Within L) {rec : RecoveredRecord} (hrec : rec.Valid) (h0 : 0 ≤ rec.offset)
    (h1 : rec.offset + 4105 ≤ L) : (l.apply rec).Within L := by
  have hlower := hrec.lower
  have hupper := hrec.upper
  have hsize := h.size_nonneg
  have hsize' := h.size_upper
  rw [Logical.apply]
  by_cases hb : rec.blockIndex ≥ 0
  · rw [if_pos hb]
    exact h.put (by omega) (by omega) (by omega) (by omega) (by omega)
  rw [if_neg hb]
  by_cases hm : rec.blockIndex = -1
  · rw [if_pos hm]
    by_cases hn : rec.newSize ≠ -1
    · have hnl := hrec.newSize_lower
      rw [if_pos hn]
      exact h.resize (by omega) hrec.newSize_upper
    · rw [if_neg hn]
      exact h
  · rw [if_neg hm]
    exact h

/-- Applying some of the records keeps the bounds. -/
lemma applyRecords (h : l.Within L) {recs : List (RecoveredRecord × Bool)}
    (hrecs : ∀ rec ∈ recs, rec.1.Valid ∧ 0 ≤ rec.1.offset ∧ rec.1.offset + 4105 ≤ L) :
    (SqliteGcs.applyRecords l recs).Within L := by
  induction recs generalizing l with
  | nil => exact h
  | cons rec recs ih =>
    obtain ⟨r, applied⟩ := rec
    obtain ⟨hvalid, h0, h1⟩ := hrecs _ List.mem_cons_self
    rw [SqliteGcs.applyRecords, List.foldl_cons, ← SqliteGcs.applyRecords]
    refine ih ?_ fun rec hrec => hrecs rec (List.mem_cons_of_mem _ hrec)
    dsimp only
    split_ifs
    · exact h.apply hvalid h0 h1
    · exact h

end Logical.Within

variable {σ : Type} [AppendOnlyStorage σ] [SizedStorage σ]

namespace BlockMapper

/-- **The bounds of a mapper.** -/
structure InBounds (m : BlockMapper σ) : Prop where
  consistent : Consistent m.storage
  within : m.toLogical.Within (SizedStorage.size m.storage)
  pending : ∀ pr ∈ m.pendingRecords, -1 ≤ pr.blockIndex ∧ pr.blockIndex < 1000000

/-- A new mapper is in bounds. -/
lemma InBounds.new {s : σ} (h : Consistent s) : (BlockMapper.new s).InBounds where
  consistent := h
  within :=
    { entry := fun b hb => absurd rfl hb
      length_le := Nat.zero_le _
      size_nonneg := le_rfl
      size_upper := Int.natCast_nonneg 4096000000 }
  pending := by simp [BlockMapper.new]

/-- A mapper stays in bounds if its storage does not get shorter. -/
lemma InBounds.storage {m : BlockMapper σ} (h : m.InBounds) {s : σ} (hs : Consistent s)
    (hle : SizedStorage.size m.storage ≤ SizedStorage.size s) :
    InBounds { m with storage := s } := ⟨hs, h.within.mono hle, h.pending⟩

/-- What padding comes to: the storage gets longer by less than a record, and if it succeeds then
the size that it returns is that of the storage, a multiple of the size of a record. -/
lemma padStorage_sized {s : σ} (h : Consistent s) :
    Consistent (padStorage s).2 ∧ SizedStorage.size s ≤ SizedStorage.size (padStorage s).2 ∧
      SizedStorage.size (padStorage s).2 ≤ SizedStorage.size s + 4104 ∧
      ∀ P, (padStorage s).1 = .ok P → P = SizedStorage.size (padStorage s).2 ∧ P % 4105 = 0 := by
  obtain ⟨hc, hsize, hn⟩ := SizedStorage.getSize_spec h
  rw [padStorage]
  generalize getSize s = p at hc hsize hn ⊢
  obtain ⟨e | P, t⟩ := p
  · exact ⟨hc, hsize.ge, hsize.le.trans (Nat.le_add_right _ _), fun P hP => by cases hP⟩
  obtain rfl := hn P rfl
  dsimp only at hc hsize ⊢
  rw [← hsize]
  by_cases hal : (SizedStorage.size t : ℤ) % 4105 = 0
  · rw [if_neg (not_not.mpr hal)]
    refine ⟨hc, le_rfl, Nat.le_add_right _ _, fun P hP => ?_⟩
    obtain rfl := Except.ok.inj hP
    exact ⟨rfl, hal⟩
  rw [if_pos hal]
  obtain ⟨hc', hle, hle', hok⟩ := SizedStorage.append_spec
    (List.replicate (4105 - (SizedStorage.size t : ℤ) % 4105).toNat 0) hc
  rw [List.length_replicate] at hle'
  generalize append (List.replicate (4105 - (SizedStorage.size t : ℤ) % 4105).toNat 0) t = p
    at hc' hle hle' hok ⊢
  obtain ⟨e | n, t'⟩ := p
  · exact ⟨hc', hle, hle'.trans (by omega), fun P hP => by cases hP⟩
  obtain ⟨-, hlen⟩ := hok n rfl
  dsimp only at hc'
  obtain ⟨hc'', hsize', hn'⟩ := SizedStorage.getSize_spec hc'
  rw [List.length_replicate] at hlen
  dsimp only at hlen hle hle' ⊢
  refine ⟨hc'', by rw [hsize']; exact hle, by rw [hsize']; omega, fun P hP => ?_⟩
  obtain rfl := hn' P hP
  rw [hsize']
  exact ⟨rfl, by omega⟩

variable [MetadataProto]

omit [SizedStorage σ] [MetadataProto] in
/-- The loop of `Write` buffers at most one record an iteration. -/
lemma length_pendingRecords_writeLoop (buf : List UInt8) (logicalOffset : ℤ) (n : ℕ) (b : ℤ)
    (m : BlockMapper σ) :
    (writeLoop buf logicalOffset n b m).2.pendingRecords.length ≤
      m.pendingRecords.length + n := by
  induction n generalizing b m with
  | zero => exact le_rfl
  | succ n ih =>
    have hpush : ∀ (t : BlockMapper σ) (pr : PendingRecord),
        t.pendingRecords = m.pendingRecords →
        (writeLoop buf logicalOffset n (b + 1)
          { t with pendingRecords := t.pendingRecords ++ [pr] }).2.pendingRecords.length ≤
          m.pendingRecords.length + (n + 1) := by
      intro t pr ht
      have hrest := ih (b + 1) { t with pendingRecords := t.pendingRecords ++ [pr] }
      rw [List.length_append, List.length_singleton, ht] at hrest
      rw [ht]
      omega
    rw [writeLoop]
    dsimp only
    split_ifs
    · obtain ⟨s, hread, -⟩ := readLocked_frame (φ := fun _ : σ => ()) (fun _ _ _ => rfl) 4096
        (b * 4096) m
      generalize m.readLocked 4096 (b * 4096) = p at hread ⊢
      obtain ⟨e | blockData, t⟩ := p
      · obtain rfl : t = { m with storage := s } := hread
        exact Nat.le_add_right _ _
      · obtain rfl : t = { m with storage := s } := hread
        exact hpush { m with storage := s } _ rfl
    · exact hpush m _ rfl

/-- `Write` only reads from the storage, and it buffers records for blocks in range, at most 1000000
of them. -/
lemma InBounds.write {m : BlockMapper σ} (h : m.InBounds) (buf : List UInt8) (logicalOffset : ℤ) :
    InBounds (m.write buf logicalOffset).2 ∧
      SizedStorage.size (m.write buf logicalOffset).2.storage = SizedStorage.size m.storage ∧
      (m.write buf logicalOffset).2.pendingRecords.length ≤
        m.pendingRecords.length + 1000000 := by
  have hsame : InBounds m ∧ SizedStorage.size m.storage = SizedStorage.size m.storage ∧
      m.pendingRecords.length ≤ m.pendingRecords.length + 1000000 := ⟨h, rfl, Nat.le_add_right _ _⟩
  rw [BlockMapper.write]
  by_cases hrange : outOfRange buf.length logicalOffset = true
  · rw [if_pos hrange]
    exact hsame
  by_cases hinit : ¬ m.initialized
  · rw [if_neg hrange, if_pos hinit]
    exact hsame
  by_cases hempty : buf.length = 0
  · rw [if_neg hrange, if_neg hinit, if_pos hempty]
    exact hsame
  rw [if_neg hrange, if_neg hinit, if_neg hempty]
  obtain ⟨h0, h1, h2⟩ := blocks_of_range ((Bool.not_eq_true _).mp hrange) (by omega)
  obtain ⟨hoff, hend⟩ := outOfRange_eq_false_iff.mp ((Bool.not_eq_true _).mp hrange)
  obtain ⟨n, hn⟩ : ∃ n, n = (s64 (u64 (logicalOffset + buf.length - 1) / 4096) -
    logicalOffset / 4096 + 1).toNat := ⟨_, rfl⟩
  have hcount : n ≤ 1000000 := by omega
  obtain ⟨s, new, hrun, hs, hnew⟩ := writeLoop_frame
    (φ := fun s : σ => (SizedStorage.size s, Consistent s)) SizedStorage.pRead_frame buf
    logicalOffset n m h0 (by omega)
  have hlen := length_pendingRecords_writeLoop buf logicalOffset n (logicalOffset / 4096) m
  obtain ⟨hsize, hc⟩ := Prod.mk.inj hs
  have hbounds : ∀ size : ℤ, 0 ≤ size → size ≤ 1000000 * 4096 →
      InBounds { m with
        storage := s
        pendingRecords := m.pendingRecords ++ new
        logicalSize := size } := by
    intro size hs0 hs1
    refine ⟨hc.symm ▸ h.consistent, ?_, fun pr hpr => ?_⟩
    · dsimp only
      rw [hsize]
      exact ⟨h.within.entry, h.within.length_le, hs0, hs1⟩
    · rcases List.mem_append.mp hpr with hpr | hpr
      · exact h.pending pr hpr
      · exact ⟨(hnew pr hpr).lower, (hnew pr hpr).upper⟩
  have hsize0 := h.within.size_nonneg
  have hsize1 := h.within.size_upper
  simp only [← hn]
  generalize writeLoop buf logicalOffset n (logicalOffset / 4096) m = p at hrun hlen
  obtain ⟨r, m₁⟩ := p
  obtain rfl : m₁ = { m with storage := s, pendingRecords := m.pendingRecords ++ new } := hrun
  dsimp only at hlen
  cases r with
  | error e =>
    refine ⟨hbounds m.logicalSize hsize0 hsize1, hsize, ?_⟩
    dsimp only
    omega
  | ok u =>
    have hlast : s64 buf.length = buf.length := s64_of_range (by omega) (by omega)
    clear hn h0 h1 h2
    dsimp only
    rw [hlast]
    exact ⟨hbounds _ (by omega) (by omega), hsize, by omega⟩

omit [MetadataProto] in
/-- `Read` only reads from the storage. -/
lemma InBounds.read {m : BlockMapper σ} (h : m.InBounds) (size : ℕ) (logicalOffset : ℤ) :
    InBounds (m.read size logicalOffset).2 ∧
      SizedStorage.size (m.read size logicalOffset).2.storage = SizedStorage.size m.storage ∧
      (m.read size logicalOffset).2.pendingRecords = m.pendingRecords := by
  rw [BlockMapper.read]
  split_ifs
  · exact ⟨h, rfl, rfl⟩
  · obtain ⟨s, hread, hs⟩ := readLocked_frame
      (φ := fun s : σ => (SizedStorage.size s, Consistent s)) SizedStorage.pRead_frame size
      logicalOffset m
    obtain ⟨hsize, hc⟩ := Prod.mk.inj hs
    rw [hread]
    exact ⟨h.storage (hc.symm ▸ h.consistent) hsize.ge, hsize, rfl⟩
  · exact ⟨h, rfl, rfl⟩

omit [AppendOnlyStorage σ] [SizedStorage σ] in
/-- What `Truncate` comes to: nothing, or the table is cut and a record is buffered. -/
lemma truncate_or (m : BlockMapper σ) (newSize : ℤ) :
    (m.truncate newSize).2 = m ∨
      0 ≤ newSize ∧ newSize ≤ 1000000 * 4096 ∧ ∃ serialized,
        (m.truncate newSize).2 = m.truncated newSize serialized := by
  rw [truncate]
  by_cases hrange : newSize < 0 ∨ newSize > 1000000 * 4096
  · rw [if_pos hrange]
    exact Or.inl rfl
  by_cases hinit : ¬ m.initialized
  · rw [if_neg hrange, if_pos hinit]
    exact Or.inl rfl
  rw [if_neg hrange, if_neg hinit]
  cases MetadataProto.serializeToString newSize with
  | none => exact Or.inl rfl
  | some serialized =>
    dsimp only
    split_ifs
    · exact Or.inl rfl
    · exact Or.inr ⟨by omega, by omega, serialized, rfl⟩

/-- `Truncate` does not touch the storage, and buffers at most one record. -/
lemma InBounds.truncate {m : BlockMapper σ} (h : m.InBounds) (newSize : ℤ) :
    InBounds (m.truncate newSize).2 ∧ (m.truncate newSize).2.storage = m.storage ∧
      (m.truncate newSize).2.pendingRecords.length ≤ m.pendingRecords.length + 1 := by
  rcases truncate_or m newSize with hsame | ⟨h0, h1, serialized, hcut⟩
  · rw [hsame]
    exact ⟨h, rfl, Nat.le_succ _⟩
  · rw [hcut]
    refine ⟨⟨h.consistent, h.within.resize h0 h1, fun pr hpr => ?_⟩, rfl, ?_⟩
    · rcases List.mem_append.mp (List.mem_filter.mp hpr).1 with hpr | hpr
      · exact h.pending pr hpr
      · obtain rfl := List.mem_singleton.mp hpr
        exact ⟨le_rfl, (by decide : (-1 : ℤ) < 1000000)⟩
    · refine (List.length_filter_le _ _).trans ?_
      rw [List.length_append, List.length_singleton]

omit [MetadataProto] in
/-- The loop of `Sync` appends to the storage and sets entries that lie in it. -/
lemma InBounds.syncLoop {m : BlockMapper σ} (h : m.InBounds) {P : List PendingRecord}
    (hP : ∀ pr ∈ P, pr.blockIndex < 1000000) :
    InBounds (BlockMapper.syncLoop P m).2 ∧
      SizedStorage.size m.storage ≤ SizedStorage.size (BlockMapper.syncLoop P m).2.storage ∧
      (BlockMapper.syncLoop P m).2.pendingRecords = m.pendingRecords := by
  induction P generalizing m with
  | nil => exact ⟨h, le_rfl, rfl⟩
  | cons pr rest ih =>
    have hrest : ∀ pr ∈ rest, pr.blockIndex < 1000000 := fun r hr =>
      hP r (List.mem_cons_of_mem _ hr)
    have hindex := hP pr List.mem_cons_self
    obtain ⟨hc, hle, -, hok⟩ := SizedStorage.append_spec
      (pr.encode (if rest = [] then 1 else 2)) h.consistent
    generalize ha : append (pr.encode (if rest = [] then 1 else 2)) m.storage = a at hc hle hok
    obtain ⟨e | n, s⟩ := a
    · rw [syncLoop_cons_error ha]
      exact ⟨h.storage hc hle, hle, rfl⟩
    · obtain ⟨rfl, hlen⟩ := hok n rfl
      rw [PendingRecord.length_encode] at hlen
      rw [syncLoop_cons_ok ha]
      have hwithin := h.within.mono hle
      have hs0 := hwithin.size_nonneg
      have hs1 := hwithin.size_upper
      dsimp only at hc hle hlen hwithin
      obtain ⟨hi, hmono, hpending⟩ := ih (m := { m with
        storage := s
        logicalToPhysical :=
          if pr.blockIndex ≥ 0 then
            PageTable.put (-1) pr.blockIndex.toNat ((SizedStorage.size m.storage : ℤ) + 8)
              m.logicalToPhysical
          else m.logicalToPhysical }) ⟨hc, by
            dsimp only
            split_ifs with h0
            · exact hwithin.put (by omega) (by omega) (by omega) hs0 hs1
            · exact hwithin, h.pending⟩ hrest
      exact ⟨hi, hle.trans hmono, hpending⟩

omit [MetadataProto] in
/-- `Sync` keeps the bounds, whichever of its calls fails. -/
lemma InBounds.sync {m : BlockMapper σ} (h : m.InBounds) :
    InBounds m.sync.2 ∧
      SizedStorage.size m.storage ≤ SizedStorage.size m.sync.2.storage ∧
      m.sync.2.pendingRecords.length ≤ m.pendingRecords.length := by
  have hstore : ∀ {t : BlockMapper σ}, t.InBounds →
      InBounds t.syncStorage.2 ∧
        SizedStorage.size t.storage ≤ SizedStorage.size t.syncStorage.2.storage := by
    intro t ht
    obtain ⟨hc, hsize⟩ := SizedStorage.sync_spec ht.consistent
    exact ⟨ht.storage hc hsize.ge, hsize.ge⟩
  rw [BlockMapper.sync]
  by_cases hinit : ¬ m.initialized
  · rw [if_pos hinit]
    exact ⟨h, le_rfl, le_rfl⟩
  by_cases hnil : m.pendingRecords = []
  · rw [if_neg hinit, if_pos hnil]
    exact ⟨(hstore h).1, (hstore h).2, le_rfl⟩
  rw [if_neg hinit, if_neg hnil]
  obtain ⟨hloop, hle, hpending⟩ := h.syncLoop fun pr hpr => (h.pending pr hpr).2
  generalize BlockMapper.syncLoop m.pendingRecords m = p at hloop hle hpending ⊢
  obtain ⟨e | u, t⟩ := p
  · exact ⟨hloop, hle, by rw [hpending]⟩
  · obtain ⟨hdone, hle'⟩ := hstore (t := { t with pendingRecords := [] })
      ⟨hloop.consistent, hloop.within, by simp⟩
    exact ⟨hdone, hle.trans hle', Nat.zero_le _⟩

omit [SizedStorage σ] in
/-- The records that the scan returns are valid and lie in the log. -/
lemma scan_sized {P : ℤ} {fuel : ℕ} {offset : ℤ} (h0 : 0 ≤ offset)
    (hal : (P - offset) % 4105 = 0) (s : σ) (recs : List RecoveredRecord)
    (h : (scan P fuel offset s).1 = .ok recs) :
    ∀ rec ∈ recs, rec.Valid ∧ 0 ≤ rec.offset ∧ rec.offset + 4105 ≤ P := by
  induction fuel generalizing offset s recs with
  | zero =>
    obtain rfl := Except.ok.inj h
    simp
  | succ fuel ih =>
    rw [scan_succ] at h
    by_cases hlt : offset < P
    · rw [if_pos hlt, Machine.andThen] at h
      generalize pRead 4105 offset s = p at h
      obtain ⟨e | recordBuf, t⟩ := p
      · cases h
      dsimp only at h
      by_cases hlen : recordBuf.length ≠ 4105
      · rw [if_pos hlen] at h
        cases h
      rw [if_neg hlen] at h
      cases hparse : parseRecord offset recordBuf with
      | error e =>
        rw [hparse] at h
        cases h
      | ok rec =>
        rw [hparse] at h
        dsimp only at h
        rw [Machine.andThen] at h
        have hrest := ih (by omega : (0 : ℤ) ≤ offset + 4105) (by omega) t
        generalize scan P fuel (offset + 4105) t = p at h hrest
        obtain ⟨e | rest, t'⟩ := p
        · cases h
        obtain rfl := Except.ok.inj h
        obtain ⟨hoffset, -, hvalid⟩ := parseRecord_ok hparse
        intro r hr
        rcases List.mem_cons.mp hr with rfl | hr
        · exact ⟨hvalid, by omega, by omega⟩
        · exact hrest rest rfl r hr
    · rw [if_neg hlt] at h
      obtain rfl := Except.ok.inj h
      simp

/-- `Init` keeps the bounds: whatever bytes it finds, the records that it applies lie in the log. It
appends less than a record. -/
lemma InBounds.init {m : BlockMapper σ} (h : m.InBounds) :
    InBounds m.init.2 ∧ SizedStorage.size m.storage ≤ SizedStorage.size m.init.2.storage ∧
      SizedStorage.size m.init.2.storage ≤ SizedStorage.size m.storage + 4104 ∧
      m.init.2.pendingRecords = m.pendingRecords := by
  rw [BlockMapper.init]
  by_cases hinit : m.initialized = true
  · rw [if_pos hinit]
    exact ⟨h, le_rfl, Nat.le_add_right _ _, rfl⟩
  rw [if_neg hinit, scanStorage]
  obtain ⟨hc, hle, hle', hok⟩ := padStorage_sized h.consistent
  generalize padStorage m.storage = p at hc hle hle' hok ⊢
  obtain ⟨e | P, s⟩ := p
  · exact ⟨h.storage hc hle, hle, hle', rfl⟩
  obtain ⟨hP, hal⟩ := hok P rfl
  dsimp only at hc hle hle' hP ⊢
  have hframe := scan_frame (φ := fun s : σ => (SizedStorage.size s, Consistent s))
    SizedStorage.pRead_frame P P.toNat 0 s
  obtain ⟨hsize, hcons⟩ := Prod.mk.inj hframe
  have hrecs : ∀ recs, (scan P P.toNat 0 s).1 = .ok recs →
      ∀ rec ∈ recs, rec.Valid ∧ 0 ≤ rec.offset ∧ rec.offset + 4105 ≤ P :=
    scan_sized le_rfl (by omega) s
  generalize scan P P.toNat 0 s = p at hsize hcons hrecs ⊢
  obtain ⟨e | recs, t⟩ := p
  · dsimp only at hsize hcons ⊢
    rw [hsize]
    exact ⟨h.storage (hcons.symm ▸ hc) (by rw [hsize]; exact hle), hle, hle', rfl⟩
  · dsimp only at hsize hcons ⊢
    have hlog : SizedStorage.size m.storage ≤ SizedStorage.size t := by
      rw [hsize]
      exact hle
    refine ⟨⟨hcons.symm ▸ hc, ?_, h.pending⟩, hlog, by rw [hsize]; exact hle', rfl⟩
    refine (h.within.mono hlog).applyRecords fun rec hrec => ?_
    obtain ⟨hvalid, h0, h1⟩ := hrecs recs rfl rec.1 (List.of_mem_zip hrec).1
    rw [hP, ← hsize] at h1
    exact ⟨hvalid, h0, h1⟩

/-- **The calls of a mapper keep its bounds**, whatever its storage holds and whichever of its calls
fail. The storage does not get shorter, and at most 1000001 records are buffered. -/
theorem InBounds.call {m : BlockMapper σ} (h : m.InBounds) (c : MapperCall) :
    InBounds (c.run m).2 ∧
      SizedStorage.size m.storage ≤ SizedStorage.size (c.run m).2.storage ∧
      (c.run m).2.pendingRecords.length ≤ m.pendingRecords.length + 1000001 := by
  cases c with
  | init =>
    obtain ⟨hm, hle, -, hpending⟩ := h.init
    refine ⟨hm, hle, ?_⟩
    show m.init.2.pendingRecords.length ≤ _
    rw [hpending]
    exact Nat.le_add_right _ _
  | call c =>
    cases c with
    | read size off =>
      obtain ⟨hm, hsize, hpending⟩ := h.read size off
      refine ⟨hm, hsize.ge, ?_⟩
      show (m.read size off).2.pendingRecords.length ≤ _
      rw [hpending]
      exact Nat.le_add_right _ _
    | op op =>
      cases op with
      | write buf off =>
        obtain ⟨hm, hsize, hlen⟩ := h.write buf off
        exact ⟨hm, hsize.ge, hlen.trans (by omega)⟩
      | truncate n =>
        obtain ⟨hm, hstore, hlen⟩ := h.truncate n
        refine ⟨hm, ?_, hlen.trans (by omega)⟩
        show _ ≤ SizedStorage.size (m.truncate n).2.storage
        rw [hstore]
      | sync =>
        obtain ⟨hm, hle, hlen⟩ := h.sync
        exact ⟨hm, hle, hlen.trans (Nat.le_add_right _ _)⟩

end BlockMapper

end SqliteGcs
