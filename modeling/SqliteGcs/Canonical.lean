import SqliteGcs.Compactor
import SqliteGcs.ReadLaws
import Mathlib.Data.List.Sort

set_option relaxedAutoImplicit false
set_option autoImplicit false

/-!
# The compacted log is canonical

What `WriteCompactedRecords` writes is determined by the mapped blocks and their content: one
committed record for each of them, in increasing order. Recovery of that log gives back the same
blocks, so compacting it again changes nothing.

## Main definitions

* `SqliteGcs.canonicalLog` — the log of the given blocks.
* `SqliteGcs.BlockMapper.mappedBlocks` — the mapped blocks in increasing order.

## Main results

* `SqliteGcs.writeCompactedRecords_recovered` — the compactor writes the canonical log.
* `SqliteGcs.recovered_canonicalLog` — what `Init` recovers from it.
* `SqliteGcs.compaction_canonical` — the laws of compaction.
-/

namespace SqliteGcs

open Bytes PageTable BlockMapper

/-- The log of one committed record for each of the given blocks of a file with the bytes `f`. -/
def canonicalLog (f : ℕ → UInt8) (blocks : List ℕ) : List UInt8 :=
  (blocks.map fun b : ℕ => encodeInt64 b ++ window f (4096 * b) 4096 ++ [1]).flatten

/-- A record of the canonical log has 4105 bytes. -/
lemma length_canonicalLog (f : ℕ → UInt8) (blocks : List ℕ) :
    (canonicalLog f blocks).length = 4105 * blocks.length := by
  induction blocks with
  | nil => rfl
  | cons b blocks ih =>
    rw [canonicalLog] at ih ⊢
    simp only [List.map_cons, List.flatten_cons, List.length_append, ih, length_encodeInt64,
      length_window, List.length_cons, List.length_nil]
    omega

/-- The canonical log depends on the content of its blocks only. -/
lemma canonicalLog_congr {f g : ℕ → UInt8} {blocks : List ℕ}
    (h : ∀ b ∈ blocks, window f (4096 * b) 4096 = window g (4096 * b) 4096) :
    canonicalLog f blocks = canonicalLog g blocks := by
  rw [canonicalLog, canonicalLog, List.map_congr_left fun b hb => by rw [h b hb]]

/-- The records of the compactor are those of the mapped blocks. -/
lemma compactedRecords_eq (mapped : ℕ → Bool) (f : ℕ → UInt8) (b n : ℕ) :
    compactedRecords mapped f b n = ((List.range' b n).filter mapped).map fun b : ℕ =>
      (⟨b, Block.ofList (window f (4096 * b) 4096)⟩ : PendingRecord) := by
  induction n generalizing b with
  | zero => rfl
  | succ n ih =>
    rw [compactedRecords, ih, List.range'_succ, List.filter_cons]
    split_ifs <;> rfl

/-- The log of the compactor is the canonical one. -/
lemma compactedLog_compactedRecords (mapped : ℕ → Bool) (f : ℕ → UInt8) (n : ℕ) :
    compactedLog (compactedRecords mapped f 0 n) =
      canonicalLog f ((List.range n).filter mapped) := by
  have hencode : ∀ b : ℕ, PendingRecord.encode ⟨b, Block.ofList (window f (4096 * b) 4096)⟩ 1 =
      encodeInt64 b ++ window f (4096 * b) 4096 ++ [1] := by
    intro b
    rw [PendingRecord.encode, Block.bytes_ofList (length_window _ _ _)]
  rw [compactedLog, compactedRecords_eq, List.map_map, ← List.range_eq_range', canonicalLog]
  exact congrArg List.flatten (List.map_congr_left fun b _ => hencode b)

namespace BlockMapper

variable {σ τ : Type}

/-- The blocks with an entry of the table or, as there are none after `Init`, a buffered record. -/
def mappedBlocks (m : BlockMapper σ) : List ℕ :=
  (List.range m.logicalToPhysical.length).filter fun b => m.isBlockMapped b

/-- The mapped blocks are in strictly increasing order. -/
lemma sorted_mappedBlocks (m : BlockMapper σ) : m.mappedBlocks.Pairwise (· < ·) :=
  List.pairwise_lt_range.filter _

/-- When nothing is buffered, the list has every mapped block. -/
lemma mem_mappedBlocks {m : BlockMapper σ} (hp : m.pendingRecords = []) {b : ℕ} :
    b ∈ m.mappedBlocks ↔ m.isBlockMapped b = true := by
  rw [mappedBlocks, List.mem_filter, List.mem_range]
  refine ⟨fun h => h.2, fun h => ⟨?_, h⟩⟩
  by_contra hge
  exact (isBlockMapped_iff hp b).mp h (List.getD_eq_default _ _ (by omega))

/-- Two mappers with the same mapped blocks have the same list of them. -/
lemma mappedBlocks_eq {m : BlockMapper σ} {m' : BlockMapper τ} (hp : m.pendingRecords = [])
    (hp' : m'.pendingRecords = []) (h : ∀ b : ℕ, m'.isBlockMapped b = m.isBlockMapped b) :
    m'.mappedBlocks = m.mappedBlocks :=
  m'.sorted_mappedBlocks.eq_of_mem_iff m.sorted_mappedBlocks fun b => by
    rw [mem_mappedBlocks hp', mem_mappedBlocks hp, h b]

end BlockMapper

section Recovery

variable [MetadataProto] {σ τ : Type} [AtomicLog σ] [AtomicLog τ]

omit [MetadataProto] in
/-- **The compactor writes the canonical log** of a recovered mapper. -/
theorem writeCompactedRecords_recovered {m : BlockMapper σ} (h : Ready m)
    (hcov : m.toLogical.Covered) :
    ∃ m', writeCompactedRecords m (⟨[]⟩ : StringStream) =
      (.ok (), m', ⟨canonicalLog m.byteAt m.mappedBlocks⟩) := by
  obtain ⟨m', hw⟩ := writeCompactedRecords_spec h hcov.length_eq hcov.length_le
  rw [compactedLog_compactedRecords] at hw
  exact ⟨m', hw⟩

/-- The table that committed records recover to has an entry for each of their blocks. -/
lemma getD_applyAll_committed {P : List PendingRecord} (hP : ∀ pr ∈ P, pr.blockIndex ≥ 0)
    {offset : ℤ} (h0 : 0 ≤ offset) (l : Logical) (b : ℕ) :
    (l.applyAll (committedRecords offset P)).logicalToPhysical.getD b (-1) ≠ -1 ↔
      (∃ pr ∈ P, pr.blockIndex = b) ∨ l.logicalToPhysical.getD b (-1) ≠ -1 := by
  induction P generalizing offset l with
  | nil => simp [committedRecords, Logical.applyAll]
  | cons pr rest ih =>
    have hidx := hP pr List.mem_cons_self
    have htable : (l.apply (pr.recovered offset 1)).logicalToPhysical =
        PageTable.put (-1) pr.blockIndex.toNat (offset + 8) l.logicalToPhysical := by
      have hrec : (pr.recovered offset 1).blockIndex ≥ 0 := hidx
      rw [Logical.apply, if_pos hrec]
      rfl
    have hrest := ih (fun r hr => hP r (List.mem_cons_of_mem pr hr)) (by omega : 0 ≤ offset + 4105)
      (l.apply (pr.recovered offset 1))
    have happly : l.applyAll (committedRecords offset (pr :: rest)) =
        (l.apply (pr.recovered offset 1)).applyAll (committedRecords (offset + 4105) rest) := rfl
    rw [happly, hrest, htable, getD_put]
    simp only [List.mem_cons, exists_eq_or_imp]
    by_cases hb : b = pr.blockIndex.toNat
    · have hpr : pr.blockIndex = b := by omega
      rw [if_pos hb]
      exact iff_of_true (Or.inr (by omega)) (Or.inl (Or.inl hpr))
    · have hpr : ¬ pr.blockIndex = b := by omega
      rw [if_neg hb, or_iff_right hpr]

/-- **What `Init` recovers from the canonical log**: the blocks it was made of. -/
theorem recovered_canonicalLog {m : BlockMapper σ} (h : Ready m) (hp : m.pendingRecords = [])
    (hcov : m.toLogical.Covered) {t : τ} (hv : Valid t)
    (hb : bytes t = canonicalLog m.byteAt m.mappedBlocks) :
    (init (new t)).1 = .ok () ∧ (init (new t)).2.byteAt = m.byteAt ∧
      ∀ b : ℕ, (init (new t)).2.isBlockMapped b = m.isBlockMapped b := by
  have hle := hcov.length_le
  obtain ⟨P, hP⟩ : ∃ P, P = compactedRecords (fun b => m.isBlockMapped b) m.byteAt 0
      m.logicalToPhysical.length := ⟨_, rfl⟩
  rw [mappedBlocks, ← compactedLog_compactedRecords, ← hP] at hb
  have hmem : ∀ pr ∈ P, ∃ b : ℕ, b < m.logicalToPhysical.length ∧ m.isBlockMapped b = true ∧
      pr.blockIndex = b := by
    intro pr hpr
    rw [hP] at hpr
    obtain ⟨b, -, hlt, hmapped, rfl⟩ := mem_compactedRecords hpr
    exact ⟨b, by omega, hmapped, rfl⟩
  have hdec : ∀ pr ∈ P, pr.Decodes := by
    intro pr hpr
    obtain ⟨b, hlt, -, hidx⟩ := hmem pr hpr
    exact ⟨by omega, by omega, fun hm => by omega⟩
  obtain ⟨m', hi, -, hbyte, -⟩ := init_compacted h hp hle hv hP hb
  obtain ⟨t', hi', -, -⟩ := init_committed hv hdec hb
  refine ⟨by rw [hi], by rw [hi]; exact hbyte, fun b => ?_⟩
  rw [hi', Bool.eq_iff_iff, isBlockMapped_iff rfl]
  refine (getD_applyAll_committed (fun pr hpr => ?_) le_rfl Logical.empty b).trans ?_
  · obtain ⟨b, -, -, hidx⟩ := hmem pr hpr
    omega
  · have hempty : ¬ Logical.empty.logicalToPhysical.getD b (-1) ≠ -1 := by simp [Logical.empty]
    rw [or_iff_left hempty]
    constructor
    · rintro ⟨pr, hpr, hidx⟩
      obtain ⟨b', -, hmapped, hidx'⟩ := hmem pr hpr
      obtain rfl : b = b' := by omega
      exact hmapped
    · intro hmapped
      have hlt : b < m.logicalToPhysical.length := by
        have := (mem_mappedBlocks hp).mpr hmapped
        exact List.mem_range.mp (List.mem_filter.mp this).1
      refine ⟨⟨b, Block.ofList (window m.byteAt (4096 * b) 4096)⟩, ?_, rfl⟩
      rw [hP, compactedRecords_eq]
      refine List.mem_map.mpr ⟨b, List.mem_filter.mpr ⟨?_, hmapped⟩, rfl⟩
      rw [List.mem_range'_1]
      omega

omit [MetadataProto] in
/-- Reading a whole block. -/
lemma read_block {m : BlockMapper σ} (h : Ready m) {b : ℕ} (hb : b < 1000000) :
    (m.read 4096 (4096 * b)).1 = .ok (window m.byteAt (4096 * b) 4096) := by
  have hcast : (4096 * (b : ℤ)).toNat = 4096 * b := by omega
  rw [read_ok_of_range h (outOfRange_eq_false_iff.mpr ⟨by omega, by omega⟩), hcast]
  rfl

omit [MetadataProto] in
/-- A block that is not mapped holds zeros. -/
lemma window_of_not_mapped {m : BlockMapper σ} (h : Ready m) (hp : m.pendingRecords = []) {b : ℕ}
    (hb : m.isBlockMapped b ≠ true) :
    window m.byteAt (4096 * b) 4096 = List.replicate 4096 0 := by
  have hun : m.logicalToPhysical.getD b (-1) = -1 := by
    by_contra hne
    exact hb ((isBlockMapped_iff hp b).mpr hne)
  refine (blockBytes_eq_window h.sound m.pendingRecords b).symm.trans ?_
  simp only [blockBytes, hp, List.reverse_nil, List.find?_nil, hun, ne_eq, not_true_eq_false,
    if_false]

/-- **The output of compaction is canonical.** For every log on which `Init` succeeds,
`WriteCompactedRecords` writes one record of 4105 bytes with flag 1 for each mapped block, in
strictly increasing order, and nothing else. `Init` accepts that log, it maps the same blocks and
gives the same reads, with zeros in all other blocks; compacting it again writes it again; and any
log with the same mapped blocks and the same content of them compacts to it.

**Proof sketch.** The output is a function of the list of mapped blocks and of their bytes
(`writeCompactedRecords_recovered`). Recovery of it has the same mapped blocks and the same bytes
(`recovered_canonicalLog`), and a strictly increasing list is determined by its members
(`mappedBlocks_eq`). -/
theorem compaction_canonical {s : σ} (hv : Valid s) (hinit : (init (new s)).1 = .ok ()) :
    ∃ (blocks : List ℕ) (payload : ℕ → List UInt8) (os : StringStream),
      (∃ m', writeCompactedRecords (init (new s)).2 (⟨[]⟩ : StringStream) = (.ok (), m', os)) ∧
      blocks.Pairwise (· < ·) ∧ (∀ b, b ∈ blocks ↔ (init (new s)).2.isBlockMapped b = true) ∧
      (∀ b ∈ blocks, (payload b).length = 4096 ∧
        ((init (new s)).2.read 4096 (4096 * b)).1 = .ok (payload b)) ∧
      os.str = (blocks.map fun b : ℕ => encodeInt64 b ++ payload b ++ [1]).flatten ∧
      os.str.length = 4105 * blocks.length ∧
      (∀ b < 1000000, b ∉ blocks →
        ((init (new s)).2.read 4096 (4096 * b)).1 = .ok (List.replicate 4096 0)) ∧
      (∀ t : τ, Valid t → bytes t = os.str → (init (new t)).1 = .ok () ∧
        (∀ b : ℕ, (init (new t)).2.isBlockMapped b = (init (new s)).2.isBlockMapped b) ∧
        (∀ n off, outOfRange n off = false →
          ((init (new t)).2.read n off).1 = ((init (new s)).2.read n off).1) ∧
        ∃ m', writeCompactedRecords (init (new t)).2 (⟨[]⟩ : StringStream) = (.ok (), m', os)) ∧
      ∀ t : τ, Valid t → (init (new t)).1 = .ok () →
        (∀ b : ℕ, (init (new t)).2.isBlockMapped b = (init (new s)).2.isBlockMapped b) →
        (∀ b ∈ blocks, ((init (new t)).2.read 4096 (4096 * b)).1 = .ok (payload b)) →
        ∃ m', writeCompactedRecords (init (new t)).2 (⟨[]⟩ : StringStream) = (.ok (), m', os) := by
  obtain ⟨hready, hp, hcov⟩ := recovered_of_init hv hinit
  generalize (init (new s)).2 = m at hready hp hcov
  have hlt : ∀ b ∈ m.mappedBlocks, b < 1000000 := by
    intro b hb
    exact (List.mem_range.mp (List.mem_filter.mp hb).1).trans_le hcov.length_le
  refine ⟨m.mappedBlocks, fun b => window m.byteAt (4096 * b) 4096,
    ⟨canonicalLog m.byteAt m.mappedBlocks⟩, writeCompactedRecords_recovered hready hcov,
    m.sorted_mappedBlocks, fun b => mem_mappedBlocks hp, ?_, rfl, length_canonicalLog _ _, ?_, ?_,
    ?_⟩
  · exact fun b hb => ⟨length_window _ _ _, read_block hready (hlt b hb)⟩
  · intro b hb hun
    rw [read_block hready hb, window_of_not_mapped hready hp (mt (mem_mappedBlocks hp).mpr hun)]
  · intro t hvt hbt
    obtain ⟨hok, hbyte, hmapped⟩ := recovered_canonicalLog hready hp hcov hvt hbt
    obtain ⟨hready', hp', hcov'⟩ := recovered_of_init hvt hok
    refine ⟨hok, hmapped, fun n off hr => ?_, ?_⟩
    · rw [read_ok_of_range hready' hr, read_ok_of_range hready hr]
      exact congrArg (fun f => Except.ok (window f off.toNat n)) hbyte
    · obtain ⟨m', hw⟩ := writeCompactedRecords_recovered hready' hcov'
      rw [hbyte, mappedBlocks_eq hp hp' hmapped] at hw
      exact ⟨m', hw⟩
  · intro t hvt hok hmapped hpayload
    obtain ⟨hready', hp', hcov'⟩ := recovered_of_init hvt hok
    obtain ⟨m', hw⟩ := writeCompactedRecords_recovered hready' hcov'
    rw [mappedBlocks_eq hp hp' hmapped, canonicalLog_congr fun b hb => Except.ok.inj
      ((read_block hready' (hlt b hb)).symm.trans (hpayload b hb))] at hw
    exact ⟨m', hw⟩

end Recovery

/-- `compaction_canonical` for a log with one record, for block 3. -/
theorem compaction_canonical_one_record :
    letI := wireProto
    let s := InMemoryStorage.ofBytes ((⟨3, Block.ofList [1]⟩ : PendingRecord).encode 1)
    ∃ (blocks : List ℕ) (os : StringStream),
      (∃ m', writeCompactedRecords (init (new s)).2 (⟨[]⟩ : StringStream) = (.ok (), m', os)) ∧
      (∀ b, b ∈ blocks ↔ (init (new s)).2.isBlockMapped b = true) ∧
      os.str.length = 4105 * blocks.length := by
  have hok : (@init InMemoryStorage wireProto _ (new (.ofBytes
      ((⟨3, Block.ofList [1]⟩ : PendingRecord).encode 1)))).1 = .ok () := by
    decide +kernel
  obtain ⟨blocks, payload, os, hw, -, hmem, -, -, hlen, -⟩ :=
    @compaction_canonical wireProto InMemoryStorage InMemoryStorage _ _ _
      (InMemoryStorage.valid_ofBytes _) hok
  exact ⟨blocks, os, hw, hmem, hlen⟩

end SqliteGcs
