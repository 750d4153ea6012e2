import SqliteGcs.ImportExport
import SqliteGcs.Lifetime

set_option relaxedAutoImplicit false
set_option autoImplicit false

/-!
# Imports are atomic

An import writes a whole raw file as one batch. This file follows an import over a storage whose
reads do not fail: any call on the raw file and any `Append` and `Sync` of the storage may fail, and
the process may be killed at any byte. The log stands for the old content or for the raw file, and
for the latter if the import returned OK.

## Main definitions

* `SqliteGcs.contentOf` — the raw file that a log stands for.

## Main results

* `SqliteGcs.exportLog_cases` — an export writes this file, and at most pads the log.
* `SqliteGcs.importLog_cases` — what an import leaves behind.
* `SqliteGcs.import_atomic` — imports are atomic.
-/

namespace SqliteGcs

open Bytes PageTable BlockMapper

section Content

variable [MetadataProto]

/-- The raw file that a log stands for, if it can be recovered. -/
def contentOf (log : List UInt8) : Option (List UInt8) :=
  match records (padded log) with
  | .ok recs =>
    some (window (byteAt (padded log) (recovered recs).logicalToPhysical []) 0
      (recovered recs).logicalSize.toNat)
  | .error _ => none

/-- The content of a log depends on the padded log only. -/
lemma contentOf_of_padded {log log' : List UInt8} (h : padded log = padded log') :
    contentOf log = contentOf log' := by
  rw [contentOf, contentOf, h]

/-- A log whose records recover to the same state as a first part of it has the same content. -/
lemma contentOf_of_recovered {file log : List UInt8} (hal : file.length % 4105 = 0)
    {recs recs' : List RecoveredRecord} (hrecs : records file = .ok recs)
    (hrecs' : records (padded log) = .ok recs') (heq : recovered recs' = recovered recs)
    {rest : List UInt8} (hrest : padded log = file ++ rest) : contentOf log = contentOf file := by
  have hsound : Sound file (recovered recs).logicalToPhysical := sound_committed hrecs false
  have hbyte := congrArg BlockFile.byte (Logical.file_append hsound rest)
  change byteAt (file ++ rest) (recovered recs).logicalToPhysical [] =
    byteAt file (recovered recs).logicalToPhysical [] at hbyte
  rw [contentOf, hrecs', contentOf, padded_of_aligned hal, hrecs]
  dsimp only
  rw [heq, hrest, hbyte]

/-- A batch that is not complete in the log, or cut off, does not change its content. -/
lemma contentOf_cut {file : List UInt8} (hal : file.length % 4105 = 0)
    {recs : List RecoveredRecord} (hrecs : records file = .ok recs) {P : List PendingRecord}
    (hdec : ∀ pr ∈ P, pr.Decodes) {k n : ℕ} (hk : k ≤ P.length) (hn : file.length ≤ n)
    (hcut : k < P.length ∨ n < (file ++ ((encodeBatch P).take k).flatten).length) :
    contentOf ((file ++ ((encodeBatch P).take k).flatten).take n) = contentOf file := by
  obtain ⟨recs', hrecs', heq⟩ := recovered_cut hal hrecs hdec hk hn hcut
  obtain ⟨rest, hrest⟩ := exists_padded_take ((encodeBatch P).take k).flatten hn
  exact contentOf_of_recovered hal hrecs hrecs' heq hrest

variable {σ : Type} [AtomicLog σ]

/-- **The batch of an import stands for the raw file**, whatever is in front of it.

**Proof sketch.** The batch ends with a commit, so it is replayed after whatever of the old log
counts then. The truncate record sets the size, and the bytes are those of the batch
(`Imported.byteAt_replay`). -/
lemma contentOf_imported {raw : RawFile} {file : List UInt8} {m : BlockMapper σ}
    (h : Imported raw raw.data.length file m) (hal : file.length % 4105 = 0)
    {recs : List RecoveredRecord} (hrecs : records file = .ok recs) {tr : PendingRecord}
    (htr : tr.Decodes) (hidx : tr.blockIndex = -1) (hnew : tr.newSize = raw.data.length) :
    contentOf (file ++ (encodeBatch (m.pendingRecords ++ [tr])).flatten) = some raw.data := by
  obtain ⟨P, hP⟩ : ∃ P, P = m.pendingRecords ++ [tr] := ⟨_, rfl⟩
  rw [← hP]
  have hdec : ∀ pr ∈ P, pr.Decodes := by
    intro pr hpr
    rw [hP] at hpr
    rcases List.mem_append.mp hpr with hpr | hpr
    · exact h.decodes pr hpr
    · obtain rfl := List.mem_singleton.mp hpr
      exact htr
  have hrecs' := records_append hal length_of_mem_encodeBatch hrecs
    (parseLog_batch hdec file.length)
  have hal' : (file ++ (encodeBatch P).flatten).length % 4105 = 0 := by
    rw [List.length_append, length_flatten_of_forall length_of_mem_encodeBatch]
    omega
  have hlast : ∀ size, PendingRecord.sizeStep size tr = raw.data.length := by
    intro size
    rw [PendingRecord.sizeStep, hnew, hidx, if_neg (by omega), if_pos rfl, if_pos (by omega)]
  have hsound : Sound file (recoveredBefore recs).logicalToPhysical := sound_committed hrecs true
  rw [contentOf, padded_of_aligned hal', hrecs']
  dsimp only
  rw [recovered_append_batch recs (by rw [hP]; simp), logicalSize_applyAll_batch,
    logicalToPhysical_applyAll, hP, List.foldl_append, List.foldl_cons, List.foldl_nil, hlast,
    Int.toNat_natCast]
  refine congrArg some (eq_window 0 rfl fun i hin => ?_).symm
  rw [Nat.zero_add]
  exact (h.byteAt_replay hsound hidx hnew hin).symm

/-! ## What an import leaves behind -/

omit [MetadataProto] in
/-- The loop of an import reads the whole raw file, or fails and has written nothing. -/
lemma importLoop_cases {raw : RawFile} {file : List UInt8} {fuel offset : ℕ} {m : BlockMapper σ}
    (h : Imported raw offset file m) (hle : offset ≤ raw.data.length)
    (hfuel : raw.data.length - offset < fuel) :
    (∃ m', importLoop raw fuel offset m = (.ok (), m') ∧ Imported raw raw.data.length file m') ∨
      ∃ e m', importLoop raw fuel offset m = (.error e, m') ∧ bytes m'.storage = file := by
  induction fuel generalizing offset m with
  | zero => omega
  | succ fuel ih =>
    rw [importLoop]
    cases htransfer : raw.transfer offset with
    | failed errno => exact Or.inr ⟨_, m, rfl, h.file_eq⟩
    | bytes k =>
      obtain ⟨res, hres⟩ : ∃ res, res = Transfer.count k 4096 (raw.data.length - offset) :=
        ⟨_, rfl⟩
      have hcount := Transfer.count_le k 4096 (raw.data.length - offset)
      dsimp only
      rw [← hres] at hcount ⊢
      by_cases hzero : res = 0
      · have hend : offset = raw.data.length := by
          by_contra hne
          have hpos : 0 < res := hres ▸ Transfer.count_pos (by decide) (by omega)
          omega
        rw [if_pos hzero]
        exact Or.inl ⟨m, rfl, hend ▸ h⟩
      rw [if_neg hzero]
      by_cases hrange : offset + res ≤ 1000000 * 4096
      · obtain ⟨hok, h'⟩ := h.write (by omega) (by omega) hrange
        generalize m.write (slice offset res raw.data) offset = p at hok h'
        obtain ⟨r, m'⟩ := p
        obtain rfl : r = .ok () := hok
        exact ih h' (by omega) (by omega)
      · have hor : outOfRange (slice offset res raw.data).length offset = true := by
          rw [← Bool.not_eq_false, outOfRange_eq_false_iff, length_slice]
          omega
        rw [BlockMapper.write, if_pos hor]
        exact Or.inr ⟨_, m, rfl, h.file_eq⟩

/-- **What an import leaves behind**: the log, which may be padded, if the import fails before its
`Sync`; and else a first part of a batch behind it, which as a whole stands for the raw file. -/
lemma importLog_cases (hp : MetadataProto.RoundTrips) (hser : MetadataProto.Serializes) {s : σ}
    (hv : Valid s) (raw : RawFile) :
    (importLog raw s).1 ≠ .ok () ∧ (bytes (importLog raw s).2.storage = bytes s ∨
        bytes (importLog raw s).2.storage = padded (bytes s)) ∨
      ∃ recs P k, records (padded (bytes s)) = .ok recs ∧ (∀ pr ∈ P, pr.Decodes) ∧ k ≤ P.length ∧
        bytes (importLog raw s).2.storage =
          padded (bytes s) ++ ((encodeBatch P).take k).flatten ∧
        contentOf (padded (bytes s) ++ (encodeBatch P).flatten) = some raw.data ∧
        ((importLog raw s).1 = .ok () → k = P.length) := by
  rw [importLog]
  by_cases hinit : (init (new s)).1 = .ok ()
  · obtain ⟨recs, s', hrecs, hi, hb, hready⟩ := ready_of_init hv hinit
    have hal : (padded (bytes s)).length % 4105 = 0 := by
      rw [length_padded]
      omega
    rw [hi]
    dsimp only
    cases raw.openError with
    | some errno => exact Or.inl ⟨by simp, Or.inr hb⟩
    | none =>
      dsimp only
      cases raw.statError with
      | some errno => exact Or.inl ⟨by simp, Or.inr hb⟩
      | none =>
        dsimp only
        have hzero := imported_zero raw hready
        rw [hb] at hzero
        rcases importLoop_cases hzero (Nat.zero_le _)
          (by omega : raw.data.length - 0 < raw.data.length + 1) with
          ⟨m, hloop, himp⟩ | ⟨e, m, hloop, hfile⟩
        · obtain ⟨tr, m₁, htr, hready₁, hfile₁, hpending, hdec, hidx, hnew⟩ :=
            himp.truncate hp hser
          obtain ⟨k, hsync, hcase⟩ := hready₁.sync_log
          rw [hloop]
          dsimp only
          rw [htr]
          dsimp only
          rw [hfile₁, hpending] at hsync
          rw [hpending] at hcase
          refine Or.inr ⟨recs, m.pendingRecords ++ [tr], k, hrecs, fun pr hpr => ?_, ?_, hsync,
            contentOf_imported himp hal hrecs hdec hidx hnew, fun hok => ?_⟩
          · rcases List.mem_append.mp hpr with hpr | hpr
            · exact himp.decodes pr hpr
            · obtain rfl := List.mem_singleton.mp hpr
              exact hdec
          · rcases hcase with ⟨hk, -⟩ | ⟨hk, -⟩
            · exact hk.le
            · exact hk.le
          · rcases hcase with ⟨hk, -⟩ | ⟨-, -, hfail⟩
            · exact hk
            · exact absurd hok hfail
        · rw [hloop]
          exact Or.inl ⟨by simp, Or.inr hfile⟩
  · -- the mapper is not initialized
    obtain ⟨s', hm, -, hb⟩ := new_of_init hv hinit
    generalize init (new s) = p at hinit hm
    obtain ⟨e | u, m⟩ := p
    · obtain rfl : m = new s' := hm
      exact Or.inl ⟨by simp, hb⟩
    · exact absurd rfl hinit

omit [MetadataProto] in
/-- A `Sync` that returns OK ends with a `Sync` of the storage that does. -/
lemma storage_synced {τ : Type} [AppendOnlyStorage τ] {m : BlockMapper τ}
    (hok : m.sync.1 = .ok ()) : ∃ s, (AppendOnlyStorage.sync s).1 = .ok () ∧
      m.sync.2.storage = (AppendOnlyStorage.sync s).2 := by
  have hstorage : ∀ m : BlockMapper τ, m.syncStorage.1 = .ok () →
      ∃ s, (AppendOnlyStorage.sync s).1 = .ok () ∧
        m.syncStorage.2.storage = (AppendOnlyStorage.sync s).2 := fun m hok => ⟨m.storage, hok, rfl⟩
  rw [BlockMapper.sync] at hok ⊢
  by_cases hi : ¬ m.initialized
  · rw [if_pos hi] at hok
    cases hok
  rw [if_neg hi] at hok ⊢
  by_cases hp : m.pendingRecords = []
  · rw [if_pos hp] at hok ⊢
    exact hstorage m hok
  rw [if_neg hp] at hok ⊢
  generalize syncLoop m.pendingRecords m = p at hok ⊢
  obtain ⟨e | u, m'⟩ := p
  · cases hok
  · exact hstorage _ hok

/-- An import that returns OK ends with a `Sync` of the storage that does. -/
lemma importLog_synced {τ : Type} [AppendOnlyStorage τ] {raw : RawFile} {s : τ}
    (hok : (importLog raw s).1 = .ok ()) : ∃ t, (AppendOnlyStorage.sync t).1 = .ok () ∧
      (importLog raw s).2.storage = (AppendOnlyStorage.sync t).2 := by
  rw [importLog] at hok ⊢
  generalize init (new s) = p at hok ⊢
  obtain ⟨e | u, m⟩ := p
  · cases hok
  dsimp only at hok ⊢
  cases hopen : raw.openError with
  | some errno =>
    rw [hopen] at hok
    cases hok
  | none =>
  cases hstat : raw.statError with
  | some errno =>
    rw [hopen, hstat] at hok
    cases hok
  | none =>
  rw [hopen, hstat] at hok
  dsimp only at hok ⊢
  generalize importLoop raw (raw.data.length + 1) 0 m = p at hok ⊢
  obtain ⟨e | u, m'⟩ := p
  · cases hok
  dsimp only at hok ⊢
  generalize m'.truncate raw.data.length = p at hok ⊢
  obtain ⟨e | u, m''⟩ := p
  · cases hok
  · exact storage_synced hok

/-- **Imports are atomic.** Whatever calls on the raw file and whatever `Append`s and `Sync`s of the
storage fail, and wherever the log is cut off behind what it held, it stands for what it did or for
the raw file; and for the raw file if the import returned OK and nothing of the log is lost.

**Proof sketch.** An import writes to the log in one batch only (`importLog_cases`). A batch that is
not complete counts for nothing (`contentOf_cut`), and a complete one is the raw file. -/
theorem import_atomic (hp : MetadataProto.RoundTrips) (hser : MetadataProto.Serializes) {s : σ}
    (hv : Valid s) (raw : RawFile) {n : ℕ} (hn : (bytes s).length ≤ n) :
    (contentOf ((bytes (importLog raw s).2.storage).take n) = contentOf (bytes s) ∨
        contentOf ((bytes (importLog raw s).2.storage).take n) = some raw.data) ∧
      ((importLog raw s).1 = .ok () → (bytes (importLog raw s).2.storage).length ≤ n →
        contentOf ((bytes (importLog raw s).2.storage).take n) = some raw.data) := by
  rcases importLog_cases hp hser hv raw with ⟨hfail, hb⟩ |
    ⟨recs, P, k, hrecs, hdec, hk, hb, hcontent, hok⟩
  · refine ⟨Or.inl (contentOf_of_padded ?_), fun hok => absurd hok hfail⟩
    rcases hb with hb | hb
    · rw [hb, List.take_of_length_le hn]
    · rw [hb, padded_take hn]
  · have hal : (padded (bytes s)).length % 4105 = 0 := by
      rw [length_padded]
      omega
    have hold : contentOf (padded (bytes s)) = contentOf (bytes s) :=
      contentOf_of_padded (padded_padded _)
    have hbatch : k = P.length → (encodeBatch P).take k = encodeBatch P := fun hfull =>
      List.take_of_length_le (by rw [length_encodeBatch, hfull])
    rw [hb]
    by_cases hpadding : (padded (bytes s)).length ≤ n
    · by_cases hcut : k < P.length ∨
          n < (padded (bytes s) ++ ((encodeBatch P).take k).flatten).length
      · rw [contentOf_cut hal hrecs hdec hk hpadding hcut, hold]
        refine ⟨Or.inl rfl, fun hstatus hle => ?_⟩
        have := hok hstatus
        omega
      · have hfull : k = P.length := by omega
        rw [List.take_of_length_le (by omega), hbatch hfull, hcontent]
        exact ⟨Or.inr rfl, fun _ _ => rfl⟩
    · -- the padding is cut off
      rw [List.take_append_of_le_length (by omega)]
      refine ⟨Or.inl (contentOf_of_padded (padded_take hn)), fun _ hle => ?_⟩
      have hlong := List.length_append ▸ hle
      omega

/-! ## Exports -/

omit [MetadataProto] [AtomicLog σ] in
/-- A buffer that is written without an error is written as a whole. -/
lemma writeRaw_ok (raw : RawFile) {fuel : ℕ} {buffer : List UInt8} (file : List UInt8)
    (hfuel : buffer.length ≤ fuel) (hok : (writeRaw raw fuel buffer file).1 = .ok ()) :
    (writeRaw raw fuel buffer file).2 = file ++ buffer := by
  induction fuel generalizing buffer file with
  | zero =>
    obtain rfl : buffer = [] := List.length_eq_zero_iff.mp (by omega)
    rw [writeRaw, List.append_nil]
  | succ fuel ih =>
    rw [writeRaw] at hok ⊢
    by_cases hpos : buffer.length > 0
    · rw [if_pos hpos] at hok ⊢
      cases htransfer : raw.transfer file.length with
      | failed errno =>
        rw [htransfer] at hok
        cases hok
      | bytes k =>
        have hcount := Transfer.count_pos (k := k) hpos hpos
        rw [htransfer] at hok
        dsimp only at hok ⊢
        rw [ih _ (by rw [List.length_drop]; omega) hok, List.append_assoc, List.take_append_drop]
    · obtain rfl : buffer = [] := List.length_eq_zero_iff.mp (by omega)
      rw [if_neg hpos, List.append_nil]

omit [MetadataProto] in
/-- The loop of an export keeps the log, and if it succeeds it has written the rest of the file. -/
lemma exportLoop_cases (raw : RawFile) {n : ℕ} (hn : n ≤ 1000000 * 4096) {fuel offset : ℕ}
    {m : BlockMapper σ} (h : Ready m) {f : ℕ → UInt8} (hf : m.byteAt = f) (hle : offset ≤ n)
    (hfuel : n - offset ≤ fuel) :
    bytes (exportLoop (fun _ s => s) raw n fuel offset m (window f 0 offset)).2.1.storage =
        bytes m.storage ∧
      ((exportLoop (fun _ s => s) raw n fuel offset m (window f 0 offset)).1 = .ok () →
        (exportLoop (fun _ s => s) raw n fuel offset m (window f 0 offset)).2.2 =
          window f 0 n) := by
  induction fuel generalizing offset m with
  | zero =>
    obtain rfl : offset = n := by omega
    exact ⟨rfl, fun _ => rfl⟩
  | succ fuel ih =>
    rw [exportLoop]
    by_cases hlt : offset < n
    · obtain ⟨len, hlen⟩ : ∃ len, len = min 4096 (n - offset) := ⟨_, rfl⟩
      have hread : min 4096 ((n : ℤ) - offset) = (len : ℤ) := by omega
      have hnext : (offset : ℤ) + len = ((offset + len : ℕ) : ℤ) := by omega
      obtain ⟨s, hr, hb, hv⟩ := read_spec h.initialized h.valid h.sound (n := len)
        (o := offset) (by omega)
      have hready : Ready { m with storage := s } := ⟨h.initialized, hv, hb ▸ h.sound⟩
      have hbyte : BlockMapper.byteAt { m with storage := s } = f := by
        rw [← hf]
        funext i
        unfold BlockMapper.byteAt
        rw [hb]
      obtain ⟨hkeep, hwritten⟩ := ih hready hbyte (by omega : offset + len ≤ n) (by omega)
      have hjoin := window_append f 0 offset len
      rw [Nat.zero_add] at hjoin
      rw [if_pos (by omega)]
      dsimp only
      rw [hread, Int.toNat_natCast, hr, hf]
      dsimp only
      have hwrite := writeRaw_ok raw (window f 0 offset)
        (le_refl (window f offset len).length)
      generalize writeRaw raw _ _ (window f 0 offset) = p at hwrite
      obtain ⟨e | u, file⟩ := p
      · exact ⟨hb, fun hok => by cases hok⟩
      · obtain rfl : file = window f 0 offset ++ window f offset len := hwrite rfl
        dsimp only
        rw [hjoin, hnext]
        exact ⟨hkeep.trans hb, hwritten⟩
    · obtain rfl : offset = n := by omega
      rw [if_neg (by omega)]
      exact ⟨rfl, fun _ => rfl⟩

/-- An export that returns OK has opened the raw file. -/
lemma exportLogOnto_ok {τ : Type} [AppendOnlyStorage τ] {share : List UInt8 → τ → τ} {s : τ}
    {raw : RawFile} (hok : (exportLogOnto share s raw).1 = .ok ()) :
    (init (new s)).1 = .ok () ∧ raw.openError.isNone = true := by
  rw [exportLogOnto] at hok
  generalize init (new s) = p at hok ⊢
  obtain ⟨e | u, m⟩ := p
  · cases hok
  · cases hopen : raw.openError with
    | some errno =>
      rw [hopen] at hok
      cases hok
    | none => exact ⟨rfl, rfl⟩

/-- **An export writes the content of the log** if it returns OK, and at most pads the log. -/
theorem exportLog_cases {s : σ} (hv : Valid s) (raw : RawFile) :
    (bytes (exportLog s raw).2.1.storage = bytes s ∨
        bytes (exportLog s raw).2.1.storage = padded (bytes s)) ∧
      ((exportLog s raw).1 = .ok () → contentOf (bytes s) = some (exportLog s raw).2.2) := by
  rw [exportLog, exportLogOnto]
  by_cases hinit : (init (new s)).1 = .ok ()
  · obtain ⟨recs, s', hrecs, hi, hb, hready⟩ := ready_of_init hv hinit
    have hcov := covered_recovered hrecs
    obtain ⟨n, hn⟩ : ∃ n : ℕ, (recovered recs).logicalSize = n :=
      ⟨_, (Int.toNat_of_nonneg hcov.nonneg).symm⟩
    have hupper := hcov.upper
    have hsize : (opened (recovered recs) s').logicalSize = n := hn
    rw [hi]
    dsimp only
    rw [hsize, Int.toNat_natCast]
    cases raw.openError with
    | some errno => exact ⟨Or.inr hb, fun hok => by cases hok⟩
    | none =>
      obtain ⟨hkeep, hwritten⟩ := exportLoop_cases raw (by omega : n ≤ 1000000 * 4096) hready
        rfl (Nat.zero_le n) (by omega : n - 0 ≤ n)
      refine ⟨Or.inr (hkeep.trans hb), fun hok => ?_⟩
      have hfile : (exportLoop (fun _ s => s) raw n n 0 (opened (recovered recs) s') []).2.2 =
          window (opened (recovered recs) s').byteAt 0 n := hwritten hok
      show contentOf (bytes s) =
        some (exportLoop (fun _ s => s) raw n n 0 (opened (recovered recs) s') []).2.2
      rw [hfile, contentOf, hrecs]
      dsimp only
      rw [hn, Int.toNat_natCast, ← hb]
      rfl
  · obtain ⟨s', hm, -, hb⟩ := new_of_init hv hinit
    generalize init (new s) = p at hinit hm
    obtain ⟨e | u, m⟩ := p
    · obtain rfl : m = new s' := hm
      exact ⟨hb, fun hok => by cases hok⟩
    · exact absurd rfl hinit

end Content

/-- `import_atomic` for a raw file of three bytes: the log of the import is cut off in the middle of
its second record. -/
theorem import_atomic_torn :
    letI := wireProto
    let raw : RawFile := ⟨"raw", [1, 2, 3], none, none, fun _ => .bytes 0⟩
    contentOf ((bytes (importLog raw InMemoryStorage.new).2.storage).take 4205) =
        contentOf [] ∨
      contentOf ((bytes (importLog raw InMemoryStorage.new).2.storage).take 4205) =
        some [1, 2, 3] := by
  let _ := wireProto
  have hv : Valid InMemoryStorage.new := rfl
  exact (import_atomic wireProto_roundTrips wireProto_serializes hv _ (Nat.zero_le 4205)).1

end SqliteGcs
