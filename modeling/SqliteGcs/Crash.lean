import SqliteGcs.Batch
import SqliteGcs.InMemoryStorage

set_option relaxedAutoImplicit false
set_option autoImplicit false

/-!
# Recovery of a log cut at any byte

A crash leaves a first part of the log. Recovery pads it to whole records, and because the padding
ends with a zero byte, the torn record it completes is an abort record. So the recovered state is
that of the transactions closed before the cut.

## Main definitions

* `SqliteGcs.batchesWithin` — the transactions of a log whose closing record ends within the first
  `n` bytes.

## Main results

* `SqliteGcs.records_padded` — padding adds at most one abort record.
* `SqliteGcs.records_take` — the records of a cut file are the first of its records.
* `SqliteGcs.crash_atomicity` — recovery of any first part of a log.
-/

namespace SqliteGcs

open Bytes

/-- The record that padding makes of a torn record at `offset`. -/
def tornRecord (offset : ℤ) : RecoveredRecord := ⟨offset, 0, 0, -1⟩

/-- A torn record at the end does not change what a log recovers to. -/
lemma recovered_torn (recs : List RecoveredRecord) {torn : List RecoveredRecord} {offset : ℤ}
    (h : torn = [] ∨ torn = [tornRecord offset]) : recovered (recs ++ torn) = recovered recs := by
  rcases h with rfl | rfl
  · rw [List.append_nil]
  · have hc : TxnLog.carry mark [tornRecord offset] false = false := rfl
    have he : TxnLog.committed mark [tornRecord offset] false = [] := rfl
    rw [recovered, TxnLog.committed_append, hc, he, List.append_nil, recovered]

section Records

variable [MetadataProto]

/-- The records of a file are those of its whole-record part. -/
lemma records_eq_take (file : List UInt8) :
    records (file.take (4105 * (file.length / 4105))) = records file := by
  have hlen : (file.take (4105 * (file.length / 4105))).length / 4105 = file.length / 4105 := by
    rw [List.length_take]
    omega
  rw [records, hlen, chunks_of_take file le_rfl, records]

/-- **The records of a cut file** are the first records of the file. -/
lemma records_take {file : List UInt8} {recs : List RecoveredRecord}
    (h : records file = .ok recs) {n : ℕ} (hn : n ≤ file.length) :
    records (file.take n) = .ok (recs.take (n / 4105)) := by
  have hlen : (file.take n).length / 4105 = n / 4105 := by
    rw [List.length_take, min_eq_left hn]
  have hle : n / 4105 ≤ file.length / 4105 := Nat.div_le_div_right hn
  have hsplit : chunks 4105 (file.length / 4105) file =
      (chunks 4105 (file.length / 4105) file).take (n / 4105) ++
        (chunks 4105 (file.length / 4105) file).drop (n / 4105) := (List.take_append_drop _ _).symm
  rw [records, hsplit] at h
  obtain ⟨recs₁, recs₂, h1, -, rfl⟩ := parseLog_of_append h
  have hlen1 : recs₁.length = n / 4105 := by
    rw [length_of_parseLog h1, List.length_take, length_chunks, min_eq_left hle]
  rw [records, hlen, chunks_of_take file (by omega : 4105 * (n / 4105) ≤ n), chunks_take file hle,
    h1, List.take_append_of_le_length (by omega), List.take_of_length_le (by omega)]

/-- **Padding adds at most one abort record**: the records of a padded file are those of the file
and, if its end was torn, the torn record. -/
theorem records_padded {file : List UInt8} {recs : List RecoveredRecord}
    (h : records file = .ok recs) :
    ∃ torn, records (padded file) = .ok (recs ++ torn) ∧
      (torn = [] ∨ torn = [tornRecord ((4105 * (file.length / 4105) : ℕ) : ℤ)]) := by
  by_cases hal : file.length % 4105 = 0
  · exact ⟨[], by rw [padded_of_aligned hal, List.append_nil, h], Or.inl rfl⟩
  · set whole := file.take (4105 * (file.length / 4105)) with hwhole
    set tail := file.drop (4105 * (file.length / 4105)) ++
      List.replicate ((4105 - file.length % 4105) % 4105) (0 : UInt8) with htail
    have hsplit : padded file = whole ++ [tail].flatten := by
      rw [List.flatten_singleton, hwhole, htail, ← List.append_assoc, List.take_append_drop]
      rfl
    have hwlen : whole.length = 4105 * (file.length / 4105) := by
      rw [hwhole, List.length_take]
      omega
    have hdlen : (file.drop (4105 * (file.length / 4105))).length = file.length % 4105 := by
      rw [List.length_drop]
      omega
    have htlen : tail.length = 4105 := by
      rw [htail, List.length_append, hdlen, List.length_replicate]
      omega
    -- the last byte of the completed record is a byte of the padding
    have hflag : tail.getD 4104 0 = 0 := by
      rw [htail, List.getD_eq_getElem?_getD, List.getElem?_append_right (by omega), hdlen,
        List.getElem?_replicate]
      split_ifs <;> rfl
    have htorn : parseRecord (whole.length : ℤ) tail =
        .ok (tornRecord ((4105 * (file.length / 4105) : ℕ) : ℤ)) := by
      rw [parseRecord_of_flag _ (by rw [hflag]; decide) (by rw [hflag]; decide), hflag, hwlen]
      rfl
    refine ⟨[tornRecord ((4105 * (file.length / 4105) : ℕ) : ℤ)], ?_, Or.inr rfl⟩
    rw [hsplit]
    refine records_append (by omega) (by simpa using htlen) ?_ ?_
    · rw [hwhole, records_eq_take, h]
    · rw [parseLog, htorn]
      rfl

/-- If the records of the padded file are valid, those of the file are. -/
lemma records_of_padded {file : List UInt8} {recs : List RecoveredRecord}
    (h : records (padded file) = .ok recs) :
    ∃ recs₁ torn, records file = .ok recs₁ ∧ recs = recs₁ ++ torn ∧
      (torn = [] ∨ torn = [tornRecord ((4105 * (file.length / 4105) : ℕ) : ℤ)]) := by
  have htake : (padded file).take (4105 * (file.length / 4105)) =
      file.take (4105 * (file.length / 4105)) := by
    rw [padded, List.take_append_of_le_length (by omega)]
  have h1 := records_take h (n := 4105 * (file.length / 4105)) (by
    rw [length_padded]
    omega)
  rw [htake, records_eq_take] at h1
  obtain ⟨torn, h2, h3⟩ := records_padded h1
  rw [h] at h2
  exact ⟨_, torn, h1, Except.ok.inj h2, h3⟩

/-! ## Crash atomicity -/

/-- The transactions of a log whose closing record ends within the first `n` bytes. -/
def batchesWithin (n : ℕ) (recs : List RecoveredRecord) : List (List RecoveredRecord) :=
  (TxnLog.batches mark [] recs).filter fun batch =>
    batch.getLast?.any fun closing => closing.offset + 4105 ≤ (n : ℤ)

/-- Record `i` of a file is at position `4105 * i`. -/
lemma offset_getElem_records {file : List UInt8} {recs : List RecoveredRecord}
    (h : records file = .ok recs) {i : ℕ} (hi : i < recs.length) :
    recs[i].offset = 4105 * i := by
  have hi' : i < (chunks 4105 (file.length / 4105) file).length := by
    rwa [← length_of_parseLog h]
  have hp := getElem_parseLog h hi hi'
  rw [zero_add] at hp
  exact (parseRecord_ok hp).1

/-- The transactions closed within the first `n` bytes are those of the first `n / 4105` records. -/
lemma flatten_batchesWithin {file : List UInt8} {recs : List RecoveredRecord}
    (h : records file = .ok recs) (n : ℕ) :
    (batchesWithin n recs).flatten = TxnLog.committed mark (recs.take (n / 4105)) false := by
  have hfilter := TxnLog.filter_batches mark
    (fun closing : RecoveredRecord => decide (closing.offset + 4105 ≤ (n : ℤ))) []
    (recs.take (n / 4105)) (recs.drop (n / 4105))
    (fun rec hrec => by
      obtain ⟨i, hi, rfl⟩ := List.getElem_of_mem hrec
      rw [List.length_take] at hi
      rw [List.getElem_take, offset_getElem_records h, decide_eq_true_eq]
      omega)
    (fun rec hrec => by
      obtain ⟨i, hi, rfl⟩ := List.getElem_of_mem hrec
      rw [List.getElem_drop, offset_getElem_records h, decide_eq_false_iff_not]
      push_cast
      omega)
  rw [List.take_append_drop] at hfilter
  rw [batchesWithin, hfilter, TxnLog.flatten_batches]
  simp

namespace BlockMapper

variable {σ : Type} [ReliableLog σ]

/-- **`Init` on a reliable log**: it succeeds exactly when the whole records of the file are
valid, and recovers what they recover to. -/
theorem init_of_reliable {s : σ} (hv : Valid s) {recs : List RecoveredRecord}
    (h : records (bytes s) = .ok recs) :
    ∃ s', init (new s) = (.ok (), opened (recovered recs) s') ∧ bytes s' = padded (bytes s) ∧
      Valid s' := by
  obtain ⟨torn, hp, htorn⟩ := records_padded h
  obtain ⟨s', hi, hb, hv'⟩ := init_of_records hv ⟨_, (padStorage_reliable hv).1⟩ hp
  rw [recovered_torn recs htorn] at hi
  exact ⟨s', hi, hb, hv'⟩

/-- **Crash atomicity at every byte.** If `Init` succeeds on a file, it succeeds on its first `n`
bytes, and recovers there the state that replaying the transactions closed within these bytes
gives. Running `Init` again on what it left behind recovers the same state and appends nothing.

**Proof sketch.** The records of the cut file are the first `n / 4105` records, and the torn
record at the cut aborts (`records_padded`). The committed records of the cut log are its
transactions (`TxnLog.flatten_batches`), which are those of the whole log closed before the cut
(`TxnLog.filter_batches`). -/
theorem crash_atomicity {s s' : σ} (hv : Valid s) (hv' : Valid s')
    (h : (init (new s)).1 = .ok ()) (n : ℕ) (hn : n ≤ (bytes s).length)
    (hcut : bytes s' = (bytes s).take n) :
    ∃ recs, records (bytes s) = .ok recs ∧
      (init (new s')).1 = .ok () ∧
      (init (new s')).2.toLogical = Logical.empty.applyAll (batchesWithin n recs).flatten ∧
      (init (new (init (new s')).2.storage)).1 = .ok () ∧
      (init (new (init (new s')).2.storage)).2.toLogical = (init (new s')).2.toLogical ∧
      bytes (init (new (init (new s')).2.storage)).2.storage =
        bytes (init (new s')).2.storage := by
  obtain ⟨recsP, -, hrecsP, -, -, -⟩ := records_of_init hv h
  obtain ⟨recs, -, hrecs, -, -⟩ := records_of_padded hrecsP
  have hcutrecs : records (bytes s') = .ok (recs.take (n / 4105)) := by
    rw [hcut]
    exact records_take hrecs hn
  obtain ⟨s₁, hi1, hb1, hv1⟩ := init_of_reliable hv' hcutrecs
  obtain ⟨torn, htorn, hcase⟩ := records_padded hcutrecs
  have hagain : records (bytes s₁) = .ok (recs.take (n / 4105) ++ torn) := by
    rw [hb1, htorn]
  obtain ⟨s₂, hi2, hb2, -⟩ := init_of_reliable hv1 hagain
  have hal : (bytes s₁).length % 4105 = 0 := by
    rw [hb1, length_padded]
    omega
  refine ⟨recs, hrecs, ?_⟩
  rw [hi1]
  show _ ∧ _ ∧ (init (new s₁)).1 = _ ∧ (init (new s₁)).2.toLogical = _ ∧
    bytes (init (new s₁)).2.storage = _
  rw [hi2, recovered_torn _ hcase]
  refine ⟨rfl, ?_, rfl, rfl, ?_⟩
  · rw [flatten_batchesWithin hrecs]
    rfl
  · show bytes s₂ = bytes s₁
    rw [hb2, padded_of_aligned hal]

end BlockMapper

end Records

/-- Crash atomicity for a log of one batch of one record whose last byte is lost. -/
theorem crash_atomicity_lost_flag :
    letI := wireProto
    ∃ recs, records (encodeBatch [⟨0, Block.ofList []⟩]).flatten = .ok recs ∧
      (BlockMapper.init (.new (InMemoryStorage.ofBytes
        ((encodeBatch [⟨0, Block.ofList []⟩]).flatten.take 4104)))).1 = .ok () ∧
      (BlockMapper.init (.new (InMemoryStorage.ofBytes
        ((encodeBatch [⟨0, Block.ofList []⟩]).flatten.take 4104)))).2.toLogical =
        Logical.empty.applyAll (batchesWithin 4104 recs).flatten := by
  let _ := wireProto
  have hlog : ((encodeBatch [⟨0, Block.ofList []⟩]).flatten).length = 4105 := by
    rw [length_flatten_of_forall length_of_mem_encodeBatch, length_encodeBatch]
    rfl
  have hdec : ∀ pr ∈ [(⟨0, Block.ofList []⟩ : PendingRecord)], pr.Decodes := by
    intro pr hpr
    obtain rfl := List.mem_singleton.mp hpr
    exact ⟨by decide, by decide, fun h => by cases h⟩
  have hrecs := records_flatten length_of_mem_encodeBatch (parseLog_batch hdec 0)
  obtain ⟨s', hi, -⟩ := BlockMapper.init_of_reliable (InMemoryStorage.valid_ofBytes _) hrecs
  obtain ⟨recs, h1, h2, h3, -⟩ := @BlockMapper.crash_atomicity wireProto InMemoryStorage _ _ _
    (InMemoryStorage.valid_ofBytes (encodeBatch [⟨0, Block.ofList []⟩]).flatten)
    (InMemoryStorage.valid_ofBytes ((encodeBatch [⟨0, Block.ofList []⟩]).flatten.take 4104))
    (congrArg Prod.fst hi) 4104 (by rw [InMemoryStorage.bytes_ofBytes, hlog]; decide) rfl
  exact ⟨recs, h1, h2, h3⟩

end SqliteGcs
