import SqliteGcs.Recovery

set_option relaxedAutoImplicit false
set_option autoImplicit false

/-!
# What `Sync` writes

`BlockMapper::Sync` appends the buffered records one by one, all but the last with flag 2. This
file describes a batch as bytes and as the records recovery will find, describes what recovery
does to the block table as a history of table edits, and gives the specification of the loop of
`Sync` on a storage with atomic appends: some first part of the batch reaches the log, and the
live table has the puts of that part.

## Main definitions

* `SqliteGcs.encodeBatch`, `SqliteGcs.batchRecords` — a batch as bytes and as recovered records.
* `SqliteGcs.RecoveredRecord.edit`, `SqliteGcs.edits` — records as edits of the block table.

## Main results

* `SqliteGcs.parseLog_encodeBatch` — an appended batch is read back as its records.
* `SqliteGcs.logicalToPhysical_applyAll` — replaying records is replaying their edits.
* `SqliteGcs.ceilBlocks_applyAll` — the recovered size covers the recovered table exactly.
* `SqliteGcs.BlockMapper.syncLoop_spec` — the loop of `Sync`.
-/

namespace SqliteGcs

open Bytes PageTable

/-! ## Records as table edits -/

/-- The edit of the block table that replaying a record is, if any. -/
def RecoveredRecord.edit (rec : RecoveredRecord) : Option (Edit ℤ) :=
  if rec.blockIndex ≥ 0 then some (.put rec.blockIndex.toNat (rec.offset + 8))
  else if rec.blockIndex = -1 ∧ rec.newSize ≠ -1 then
    some (.resize (ceilBlocks rec.newSize).toNat)
  else none

/-- The edits of a list of records. -/
def edits (recs : List RecoveredRecord) : List (Edit ℤ) := recs.filterMap RecoveredRecord.edit

/-- The edits of a concatenation. -/
@[simp] lemma edits_append (recs recs' : List RecoveredRecord) :
    edits (recs ++ recs') = edits recs ++ edits recs' := by
  simp [edits]

/-- The edits of a record, and those of the others. -/
lemma edits_cons (rec : RecoveredRecord) (recs : List RecoveredRecord) :
    edits (rec :: recs) = edits [rec] ++ edits recs :=
  edits_append [rec] recs

/-- Replaying a concatenation. -/
lemma applyAll_append (l : Logical) (recs recs' : List RecoveredRecord) :
    l.applyAll (recs ++ recs') = (l.applyAll recs).applyAll recs' := by
  simp [Logical.applyAll]

/-- **Replaying records is replaying their edits**, as far as the block table is concerned. -/
theorem logicalToPhysical_applyAll (l : Logical) (recs : List RecoveredRecord) :
    (l.applyAll recs).logicalToPhysical = replay (-1) (edits recs) l.logicalToPhysical := by
  induction recs generalizing l with
  | nil => rfl
  | cons rec recs ih =>
    have hcons : l.applyAll (rec :: recs) = (l.apply rec).applyAll recs := rfl
    rw [hcons, ih]
    by_cases h1 : rec.blockIndex ≥ 0
    · have he : edits (rec :: recs) =
          .put rec.blockIndex.toNat (rec.offset + 8) :: edits recs := by
        simp [edits, RecoveredRecord.edit, h1]
      rw [he, Logical.apply, if_pos h1]
      rfl
    · by_cases h2 : rec.blockIndex = -1 ∧ rec.newSize ≠ -1
      · have he : edits (rec :: recs) =
            .resize (ceilBlocks rec.newSize).toNat :: edits recs := by
          simp [edits, RecoveredRecord.edit, h2]
        rw [he, Logical.apply, if_neg h1, if_pos h2.1, if_pos h2.2]
        rfl
      · have he : edits (rec :: recs) = edits recs := by
          simp [edits, RecoveredRecord.edit, h1, h2]
        have hl : l.apply rec = l := by
          rw [Logical.apply, if_neg h1]
          split_ifs with h3 h4
          · exact absurd ⟨h3, h4⟩ h2
          · rfl
          · rfl
        rw [he, hl]

/-- The size of a state covers its table: `ceil(logical_size / 4096)` is the table's length. -/
structure Logical.Covered (l : Logical) : Prop where
  nonneg : 0 ≤ l.logicalSize
  upper : l.logicalSize ≤ 1000000 * 4096
  length_eq : ceilBlocks l.logicalSize = l.logicalToPhysical.length

/-- The table of a covered state is no longer than a file can be. -/
lemma Logical.Covered.length_le {l : Logical} (h : l.Covered) :
    l.logicalToPhysical.length ≤ 1000000 := by
  have hlen := h.length_eq
  have hupper := h.upper
  unfold ceilBlocks at hlen
  omega

/-- The state before recovery is covered. -/
lemma covered_empty : Logical.empty.Covered where
  nonneg := le_rfl
  upper := by decide
  length_eq := rfl

/-- Replaying a valid record keeps the state covered. -/
lemma Logical.Covered.apply {l : Logical} (h : l.Covered) {rec : RecoveredRecord}
    (hrec : rec.Valid) : (l.apply rec).Covered := by
  obtain ⟨h0, h1, h2⟩ := h
  have hr1 := hrec.upper
  have hr2 := hrec.newSize_lower
  have hr3 := hrec.newSize_upper
  unfold ceilBlocks at h2
  unfold Logical.apply
  split_ifs with c1 c2 c3
  · constructor
    · simp only; omega
    · simp only; omega
    · simp only [length_put, ceilBlocks]; omega
  · constructor
    · simp only; omega
    · simp only; omega
    · simp only [length_resize, ceilBlocks]; omega
  · exact ⟨h0, h1, h2⟩
  · exact ⟨h0, h1, h2⟩

/-- **The recovered size covers the recovered table**: replaying valid records keeps a state
covered. -/
theorem ceilBlocks_applyAll {l : Logical} (h : l.Covered) {recs : List RecoveredRecord}
    (hrecs : ∀ rec ∈ recs, rec.Valid) : (l.applyAll recs).Covered := by
  induction recs generalizing l with
  | nil => exact h
  | cons rec recs ih =>
    exact ih (h.apply (hrecs rec List.mem_cons_self)) fun r hr =>
      hrecs r (List.mem_cons_of_mem rec hr)

/-! ## Batches -/

/-- The bytes of a batch, record by record: the last record has flag 1, the others flag 2. -/
def encodeBatch : List PendingRecord → List (List UInt8)
  | [] => []
  | pr :: rest => pr.encode (if rest = [] then 1 else 2) :: encodeBatch rest

/-- Every piece of a batch is a whole record. -/
lemma length_of_mem_encodeBatch {P : List PendingRecord} :
    ∀ buf ∈ encodeBatch P, buf.length = 4105 := by
  induction P with
  | nil => simp [encodeBatch]
  | cons pr rest ih =>
    intro buf hbuf
    rcases List.mem_cons.mp hbuf with rfl | h
    · exact PendingRecord.length_encode _ _
    · exact ih buf h

/-- A batch has as many pieces as records. -/
@[simp] lemma length_encodeBatch (P : List PendingRecord) : (encodeBatch P).length = P.length := by
  induction P with
  | nil => rfl
  | cons pr rest ih => simp [encodeBatch, ih]

section Records

variable [MetadataProto]

/-- What recovery reads from a batch that was written at `offset`. -/
def batchRecords (offset : ℤ) : List PendingRecord → List RecoveredRecord
  | [] => []
  | pr :: rest =>
    pr.recovered offset (if rest = [] then 1 else 2) :: batchRecords (offset + 4105) rest

/-- There are as many records as in the batch. -/
@[simp] lemma length_batchRecords (offset : ℤ) (P : List PendingRecord) :
    (batchRecords offset P).length = P.length := by
  induction P generalizing offset with
  | nil => rfl
  | cons pr rest ih => simp [batchRecords, ih]

omit [MetadataProto] in
/-- The flag of a record in a batch is 1 or 2. -/
lemma flag_eq_one_or_two (last : Prop) [Decidable last] :
    (if last then (1 : UInt8) else 2) = 1 ∨ (if last then (1 : UInt8) else 2) = 2 := by
  split_ifs
  · exact Or.inl rfl
  · exact Or.inr rfl

/-- **A batch is read back as its records**, and so is any first part of it. -/
theorem parseLog_encodeBatch {P : List PendingRecord} (h : ∀ pr ∈ P, pr.Decodes) (offset : ℤ)
    (k : ℕ) :
    parseLog offset ((encodeBatch P).take k) = .ok ((batchRecords offset P).take k) := by
  induction P generalizing offset k with
  | nil => simp [encodeBatch, batchRecords, parseLog]
  | cons pr rest ih =>
    cases k with
    | zero => rfl
    | succ k =>
      have hrest := ih (fun r hr => h r (List.mem_cons_of_mem pr hr)) (offset + 4105) k
      rw [encodeBatch, batchRecords, List.take_succ_cons, List.take_succ_cons, parseLog,
        parseRecord_encode (h pr List.mem_cons_self) offset (flag_eq_one_or_two (rest = []))]
      simp only [hrest]

/-- A whole batch is read back as its records. -/
lemma parseLog_batch {P : List PendingRecord} (h : ∀ pr ∈ P, pr.Decodes) (offset : ℤ) :
    parseLog offset (encodeBatch P) = .ok (batchRecords offset P) := by
  have hparse := parseLog_encodeBatch h offset P.length
  rwa [List.take_of_length_le (by simp), List.take_of_length_le (by simp)] at hparse

/-- The records of a batch are never aborted. -/
lemma mark_of_mem_batchRecords {P : List PendingRecord} {offset : ℤ} :
    ∀ rec ∈ batchRecords offset P, mark rec ≠ .abort := by
  induction P generalizing offset with
  | nil => simp [batchRecords]
  | cons pr rest ih =>
    intro rec hrec
    rcases List.mem_cons.mp hrec with rfl | h
    · rw [mark, PendingRecord.recovered]
      split_ifs <;> simp_all
    · exact ih rec h

/-- A batch ends with a commit record. -/
lemma settled_batchRecords {P : List PendingRecord} (hne : P ≠ []) (offset : ℤ)
    (recs : List RecoveredRecord) : TxnLog.Settled mark (recs ++ batchRecords offset P) := by
  induction P generalizing offset recs with
  | nil => exact absurd rfl hne
  | cons pr rest ih =>
    cases rest with
    | nil =>
      intro rec hrec
      simp only [batchRecords, List.getLast?_append, List.getLast?_singleton, Option.some_or,
        Option.mem_def, Option.some.injEq] at hrec
      subst hrec
      simp [mark, PendingRecord.recovered]
    | cons pr' rest' =>
      have h := ih (by simp) (offset + 4105)
        (recs ++ [pr.recovered offset (if pr' :: rest' = [] then 1 else 2)])
      rw [List.append_assoc, List.singleton_append] at h
      exact h

/-- A record for a block is one put, of the position of its payload. -/
lemma edits_recovered_of_nonneg {pr : PendingRecord} (h : pr.blockIndex ≥ 0) (offset : ℤ)
    (flag : UInt8) :
    edits [pr.recovered offset flag] = [.put pr.blockIndex.toNat (offset + 8)] := by
  simp [edits, RecoveredRecord.edit, PendingRecord.recovered, h]

/-- The put of a record for a block. -/
lemma puts_recovered_of_nonneg {pr : PendingRecord} (h : pr.blockIndex ≥ 0) (offset : ℤ)
    (flag : UInt8) (table : List ℤ) :
    puts (-1) (edits [pr.recovered offset flag]) table =
      PageTable.put (-1) pr.blockIndex.toNat (offset + 8) table := by
  rw [edits_recovered_of_nonneg h]
  rfl

/-- A metadata record has no puts. -/
lemma puts_recovered_of_neg {pr : PendingRecord} (h : ¬ pr.blockIndex ≥ 0) (offset : ℤ)
    (flag : UInt8) (table : List ℤ) :
    puts (-1) (edits [pr.recovered offset flag]) table = table := by
  by_cases hres : pr.blockIndex = -1 ∧ pr.newSize ≠ -1
  · simp [edits, RecoveredRecord.edit, PendingRecord.recovered, hres, puts, replay, Edit.isPut]
  · simp [edits, RecoveredRecord.edit, PendingRecord.recovered, h, hres, puts, replay]

/-- The shapes of the edits of a buffered record, which do not depend on where it is written. -/
def PendingRecord.shapes (pr : PendingRecord) : List Shape :=
  ((pr.recovered 0 1).edit.map Edit.shape).toList

/-- A record for a block puts that block. -/
lemma PendingRecord.shapes_of_nonneg {pr : PendingRecord} (h : pr.blockIndex ≥ 0) :
    pr.shapes = [.put pr.blockIndex.toNat] := by
  simp [shapes, recovered, RecoveredRecord.edit, h, Edit.shape]

/-- A record of a new size cuts the table to it. -/
lemma PendingRecord.shapes_of_newSize {pr : PendingRecord} (h : pr.blockIndex = -1) {newSize : ℤ}
    (hnew : pr.newSize = newSize) (h0 : 0 ≤ newSize) {c : ℕ} (hc : ceilBlocks newSize = c) :
    pr.shapes = [.resize c] := by
  have hne : newSize ≠ -1 := by omega
  simp [shapes, recovered, RecoveredRecord.edit, h, hnew, hne, hc, Edit.shape]

/-- The shapes of the edits of a batch. -/
def batchShapes (P : List PendingRecord) : List Shape := P.flatMap PendingRecord.shapes

/-- The shapes of the edits of a batch, wherever it is written. -/
lemma shapes_batchRecords (P : List PendingRecord) (offset : ℤ) :
    (edits (batchRecords offset P)).map Edit.shape = batchShapes P := by
  induction P generalizing offset with
  | nil => rfl
  | cons pr rest ih =>
    have hhead : ∀ flag : UInt8, ((pr.recovered offset flag).edit.map Edit.shape).toList =
        pr.shapes := by
      intro flag
      unfold PendingRecord.shapes PendingRecord.recovered RecoveredRecord.edit
      split_ifs <;> rfl
    rw [batchShapes, List.flatMap_cons, ← batchShapes, ← ih (offset + 4105),
      ← hhead (if rest = [] then 1 else 2), batchRecords, edits, List.filterMap_cons]
    cases (pr.recovered offset (if rest = [] then 1 else 2)).edit <;> rfl

end Records

/-! ## The loop of `Sync` -/

namespace BlockMapper

variable {σ : Type} [AtomicLog σ] [MetadataProto]

/-- **The loop of `Sync`**: some first `k` records of the batch are appended at the end of the
file, and their puts are made in the live table; the loop succeeds exactly when they are all of
the batch.

**Proof sketch.** Induction on the batch. A failed append stops the loop with `k = 0`; a
successful one returns the old length of the file, which is where the record is. -/
theorem syncLoop_spec (P : List PendingRecord) (m : BlockMapper σ) (hv : Valid m.storage) :
    ∃ (k : ℕ) (s : σ), k ≤ P.length ∧ Valid s ∧
      bytes s = bytes m.storage ++ ((encodeBatch P).take k).flatten ∧
      (syncLoop P m).2 = { m with
        storage := s
        logicalToPhysical :=
          puts (-1) (edits ((batchRecords (bytes m.storage).length P).take k))
            m.logicalToPhysical } ∧
      ((syncLoop P m).1 = .ok () ∧ k = P.length ∨
        (∃ e, (syncLoop P m).1 = .error e) ∧ k < P.length) := by
  induction P generalizing m with
  | nil =>
    refine ⟨0, m.storage, le_rfl, hv, by simp, rfl, Or.inl ⟨rfl, rfl⟩⟩
  | cons pr rest ih =>
    obtain ⟨hv1, happ⟩ := AtomicLog.append_spec
      (pr.encode (if rest = [] then 1 else 2)) m.storage hv
    generalize ha : append (pr.encode (if rest = [] then 1 else 2)) m.storage = a at hv1 happ
    obtain ⟨r, s₁⟩ := a
    simp only at hv1 happ
    rcases happ with ⟨rfl, hb1⟩ | ⟨⟨e, rfl⟩, hb1⟩
    · -- the record is appended; `m₁` is the mapper the rest of the loop starts from
      obtain ⟨m₁, hm₁, hstep, hs₁⟩ : ∃ m₁ : BlockMapper σ, m₁ = { m with
          storage := s₁
          logicalToPhysical := puts (-1)
            (edits [pr.recovered (bytes m.storage).length (if rest = [] then 1 else 2)])
            m.logicalToPhysical } ∧ syncLoop (pr :: rest) m = syncLoop rest m₁ ∧
          m₁.storage = s₁ := by
        refine ⟨_, rfl, ?_, rfl⟩
        rw [syncLoop_cons_ok ha]
        by_cases hidx : pr.blockIndex ≥ 0
        · simp only [if_pos hidx, puts_recovered_of_nonneg hidx]
        · simp only [if_neg hidx, puts_recovered_of_neg hidx]
      obtain ⟨k, s, hk, hvs, hbs, hstate, hres⟩ := ih m₁ (by rw [hs₁]; exact hv1)
      have hlen : (((bytes s₁).length : ℕ) : ℤ) = (bytes m.storage).length + 4105 := by
        rw [hb1]
        simp
      refine ⟨k + 1, s, by simpa using hk, hvs, ?_, ?_, ?_⟩
      · rw [hbs, hs₁, hb1, encodeBatch, List.take_succ_cons, List.flatten_cons, List.append_assoc]
      · rw [hstep, hstate, hs₁, hlen, hm₁, batchRecords, List.take_succ_cons,
          edits_cons _ (List.take k _), puts_append]
      · rw [hstep]
        rcases hres with ⟨h1, h2⟩ | ⟨h1, h2⟩
        · exact Or.inl ⟨h1, by simp [h2]⟩
        · exact Or.inr ⟨h1, by simpa using h2⟩
    · refine ⟨0, s₁, Nat.zero_le _, hv1, by simp [hb1], ?_, Or.inr ⟨⟨e, ?_⟩, by simp⟩⟩
      · rw [syncLoop_cons_error ha]
        rfl
      · rw [syncLoop_cons_error ha]

/-- **What `Sync` does**: it syncs the storage if nothing is buffered; else it appends the first
`k` records of the batch and makes their puts, and if they are the whole batch then it drops the
batch and syncs the storage. -/
lemma sync_cases {m : BlockMapper σ} (hi : m.initialized = true) (hv : Valid m.storage) :
    (m.pendingRecords = [] ∧ m.sync = m.syncStorage) ∨
    m.pendingRecords ≠ [] ∧ ∃ k s, Valid s ∧
      bytes s = bytes m.storage ++ ((encodeBatch m.pendingRecords).take k).flatten ∧
      (k = m.pendingRecords.length ∧ m.sync = { m with
          storage := s
          pendingRecords := []
          logicalToPhysical :=
            puts (-1) (edits ((batchRecords (bytes m.storage).length m.pendingRecords).take k))
              m.logicalToPhysical }.syncStorage ∨
        ∃ e, m.sync = (.error e, { m with
          storage := s
          logicalToPhysical :=
            puts (-1) (edits ((batchRecords (bytes m.storage).length m.pendingRecords).take k))
              m.logicalToPhysical })) := by
  rw [sync, if_neg (by rw [hi]; decide)]
  by_cases hne : m.pendingRecords = []
  · rw [if_pos hne]
    exact Or.inl ⟨hne, rfl⟩
  · rw [if_neg hne]
    obtain ⟨k, s, -, hvs, hb, hstate, hres⟩ := syncLoop_spec m.pendingRecords m hv
    generalize syncLoop m.pendingRecords m = p at hstate hres
    obtain ⟨r, m'⟩ := p
    dsimp only at hstate hres
    subst hstate
    refine Or.inr ⟨hne, k, s, hvs, hb, ?_⟩
    rcases hres with ⟨rfl, hfull⟩ | ⟨⟨e, rfl⟩, -⟩
    · exact Or.inl ⟨hfull, rfl⟩
    · exact Or.inr ⟨e, rfl⟩

/-! ### On a reliable log -/

section Reliable

variable {τ : Type} [ReliableLog τ]

omit [MetadataProto] in
/-- On a reliable log the loop of `Sync` succeeds. -/
lemma syncLoop_reliable (P : List PendingRecord) (m : BlockMapper τ) (hv : Valid m.storage) :
    (syncLoop P m).1 = .ok () := by
  induction P generalizing m with
  | nil => rfl
  | cons pr rest ih =>
    obtain ⟨hv1, -⟩ := AtomicLog.append_spec (pr.encode (if rest = [] then 1 else 2)) m.storage hv
    obtain ⟨hok, -⟩ := ReliableLog.append_ok (pr.encode (if rest = [] then 1 else 2)) m.storage hv
    generalize ha : append (pr.encode (if rest = [] then 1 else 2)) m.storage = a at hv1 hok
    obtain ⟨r, s⟩ := a
    obtain rfl : r = .ok ((bytes m.storage).length : ℤ) := hok
    rw [syncLoop_cons_ok ha]
    exact ih _ hv1

/-- **`Sync` on a reliable log** succeeds: the batch is at the end of the file, its puts are made,
and nothing is buffered. -/
theorem sync_reliable {m : BlockMapper τ} (hi : m.initialized = true) (hv : Valid m.storage) :
    ∃ s, m.sync = (.ok (), { m with
        storage := s
        pendingRecords := []
        logicalToPhysical :=
          puts (-1) (edits (batchRecords (bytes m.storage).length m.pendingRecords))
            m.logicalToPhysical }) ∧
      bytes s = bytes m.storage ++ (encodeBatch m.pendingRecords).flatten ∧ Valid s := by
  rw [sync, if_neg (by rw [hi]; decide)]
  by_cases hne : m.pendingRecords = []
  · rw [if_pos hne, hne]
    obtain ⟨hb, hvs⟩ := AtomicLog.sync_spec m.storage hv
    have hok := ReliableLog.sync_ok m.storage hv
    generalize hs : AppendOnlyStorage.sync m.storage = p at hb hvs hok
    obtain ⟨r, s⟩ := p
    obtain rfl : r = .ok () := hok
    refine ⟨s, ?_, by simpa [encodeBatch] using hb, hvs⟩
    simp only [syncStorage, hs, hne]
    rfl
  · rw [if_neg hne]
    have hloop := syncLoop_reliable m.pendingRecords m hv
    obtain ⟨k, s, hk, hvs, hb, hstate, hres⟩ := syncLoop_spec m.pendingRecords m hv
    generalize hl : syncLoop m.pendingRecords m = p at hloop hstate hres
    obtain ⟨r, m'⟩ := p
    simp only at hloop hstate hres
    subst hloop hstate
    rcases hres with ⟨-, rfl⟩ | ⟨⟨e, he⟩, -⟩
    · rw [List.take_of_length_le (by simp)] at hb
      obtain ⟨hb', hvs'⟩ := AtomicLog.sync_spec s hvs
      have hok := ReliableLog.sync_ok s hvs
      generalize hs : AppendOnlyStorage.sync s = p at hb' hvs' hok
      obtain ⟨r, s'⟩ := p
      obtain rfl : r = .ok () := hok
      refine ⟨s', ?_, hb'.trans hb, hvs'⟩
      simp only [syncStorage, hs, List.take_of_length_le (Nat.le_of_eq (length_batchRecords _ _))]
    · cases he

end Reliable

end BlockMapper

end SqliteGcs
