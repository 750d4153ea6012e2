import SqliteGcs.Vfs
import SqliteGcs.LogicalSize

set_option relaxedAutoImplicit false
set_option autoImplicit false

/-!
# Compaction

`WriteCompactedRecords` of `compactor.cc` writes the mapped blocks of a recovered mapper as a new
log, one committed record a block. This file proves what `Init` recovers from that log: every
block as it was, and the size that the last mapped block ends at. So the database is preserved as
the engine sees it exactly when its size ends with a mapped block; a truncation to another size is
lost, because no truncate record is written.

## Main definitions

* `SqliteGcs.OStream`, `SqliteGcs.StringStream` — output streams, and the one held in memory.
* `SqliteGcs.writeCompactedRecords` — the compactor.
* `SqliteGcs.EndsMapped` — the size of a file ends with a mapped block.

## Main results

* `SqliteGcs.writeCompactedRecords_spec` — what is written.
* `SqliteGcs.init_compacted` — what `Init` recovers from it.
* `SqliteGcs.compaction_preserves_iff` — when the compacted database is the old one.
-/

namespace SqliteGcs

open Bytes PageTable BlockMapper

/-! ## Output streams -/

/-- An output stream: `std::ostream::write` and `good`. -/
class OStream (ω : Type) where
  /-- `write`. -/
  write : List UInt8 → ω → ω
  /-- `good`. -/
  good : ω → Bool

/-- A string stream: what was written to it. -/
structure StringStream where
  /-- `str()`. -/
  str : List UInt8
  deriving DecidableEq

instance : OStream StringStream where
  write data os := ⟨os.str ++ data⟩
  good _ := true

/-! ## The compactor -/

section Compactor

variable {σ ω : Type} [AppendOnlyStorage σ] [OStream ω]

/-- The loop of `WriteCompactedRecords` over the blocks from `b` on, as many as the first argument
says. -/
def compactLoop : ℕ → ℤ → BlockMapper σ → ω → Except Status Unit × BlockMapper σ × ω
  | 0, _, mapper, os => (.ok (), mapper, os)
  | n + 1, b, mapper, os =>
    if mapper.isBlockMapped b then
      match mapper.read 4096 (b * 4096) with
      | (.error e, mapper) => (.error e, mapper, os)
      | (.ok blockData, mapper) =>
        let os := OStream.write (encodeInt64 b) os
        let os := OStream.write blockData os
        let os := OStream.write [1] os
        if ¬ OStream.good os then
          (.error ⟨.internal, "Failed to write streaming payload to output stream"⟩, mapper, os)
        else compactLoop n (b + 1) mapper os
    else compactLoop n (b + 1) mapper os

/-- `WriteCompactedRecords`. -/
def writeCompactedRecords (mapper : BlockMapper σ) (os : ω) :
    Except Status Unit × BlockMapper σ × ω :=
  compactLoop (ceilBlocks mapper.logicalSize).toNat 0 mapper os

end Compactor

/-- The records that the compactor writes for the mapped blocks among the `n` from `b` on, in a
file with the bytes `f`. -/
def compactedRecords (mapped : ℕ → Bool) (f : ℕ → UInt8) (b : ℕ) : ℕ → List PendingRecord
  | 0 => []
  | n + 1 =>
    if mapped b then
      ⟨b, Block.ofList (window f (4096 * b) 4096)⟩ :: compactedRecords mapped f (b + 1) n
    else compactedRecords mapped f (b + 1) n

/-- The log that the compactor writes. -/
def compactedLog (P : List PendingRecord) : List UInt8 := (P.map (·.encode 1)).flatten

section Spec

variable {σ : Type} [AtomicLog σ]

/-- The loop writes the records of the mapped blocks, each with flag 1. -/
lemma compactLoop_spec {m : BlockMapper σ} (h : Ready m) {n b : ℕ} (hn : b + n ≤ 1000000)
    (os : StringStream) :
    ∃ m', compactLoop n b m os = (.ok (), m',
      ⟨os.str ++ compactedLog (compactedRecords (fun b => m.isBlockMapped b) m.byteAt b n)⟩) := by
  induction n generalizing b m os with
  | zero => exact ⟨m, by simp [compactLoop, compactedRecords, compactedLog]⟩
  | succ n ih =>
    have hcast : ((b : ℤ) + 1) = ((b + 1 : ℕ) : ℤ) := by push_cast; rfl
    rw [compactLoop, compactedRecords, hcast]
    by_cases hb : m.isBlockMapped b = true
    · obtain ⟨s, hr, hbs, hv⟩ := read_spec h.initialized h.valid h.sound (n := 4096)
        (o := 4096 * b) (by omega)
      have hoff : ((4096 * b : ℕ) : ℤ) = b * 4096 := by push_cast; ring
      rw [hoff] at hr
      have hready : Ready { m with storage := s } := ⟨h.initialized, hv, hbs ▸ h.sound⟩
      have hbyte : BlockMapper.byteAt { m with storage := s } = m.byteAt := by
        funext i
        unfold BlockMapper.byteAt
        rw [hbs]
      obtain ⟨m', ih'⟩ := ih hready (b := b + 1) (by omega)
        ⟨os.str ++ encodeInt64 b ++ window m.byteAt (4096 * b) 4096 ++ [1]⟩
      have hmapped : (fun b : ℕ => isBlockMapped { m with storage := s } b) =
          fun b : ℕ => m.isBlockMapped b := rfl
      rw [hbyte, hmapped, compactedLog] at ih'
      refine ⟨m', ?_⟩
      have hblock : (Block.ofList (window m.byteAt (4096 * b) 4096)).bytes =
          window m.byteAt (4096 * b) 4096 := Block.bytes_ofList (length_window _ _ _)
      have hgood : ∀ os : StringStream, OStream.good os = true := fun _ => rfl
      rw [if_pos hb, if_pos hb, hr, compactedLog, List.map_cons, List.flatten_cons,
        PendingRecord.encode, hblock]
      simp only [List.append_assoc, hgood, not_true_eq_false, if_false] at ih' ⊢
      have hwrite : OStream.write [1] (OStream.write (window m.byteAt (4096 * b) 4096)
          (OStream.write (encodeInt64 b) os)) = (⟨os.str ++ (encodeInt64 b ++
            (window m.byteAt (4096 * b) 4096 ++ [1]))⟩ : StringStream) := by
        simp only [OStream.write, List.append_assoc]
      rw [hwrite]
      exact ih'
    · rw [if_neg hb, if_neg hb]
      exact ih h (by omega) os

/-- **What the compactor writes** to a string stream for a mapper that was just initialised. -/
theorem writeCompactedRecords_spec {m : BlockMapper σ} (h : Ready m) {c : ℕ}
    (hc : ceilBlocks m.logicalSize = c) (hle : c ≤ 1000000) :
    ∃ m', writeCompactedRecords m (⟨[]⟩ : StringStream) = (.ok (), m',
      ⟨compactedLog (compactedRecords (fun b => m.isBlockMapped b) m.byteAt 0 c)⟩) := by
  obtain ⟨m', h'⟩ := compactLoop_spec h (n := c) (b := 0) (by omega) ⟨[]⟩
  refine ⟨m', ?_⟩
  rw [writeCompactedRecords, hc, Int.toNat_natCast]
  exact h'

end Spec

/-! ## Recovery of the compacted log -/

/-- The compacted records are for the mapped blocks, in order. -/
lemma mem_compactedRecords {mapped : ℕ → Bool} {f : ℕ → UInt8} {b n : ℕ} {pr : PendingRecord}
    (h : pr ∈ compactedRecords mapped f b n) :
    ∃ b', b ≤ b' ∧ b' < b + n ∧ mapped b' = true ∧
      pr = ⟨b', Block.ofList (window f (4096 * b') 4096)⟩ := by
  induction n generalizing b with
  | zero => simp [compactedRecords] at h
  | succ n ih =>
    rw [compactedRecords] at h
    by_cases hb : mapped b = true
    · rw [if_pos hb] at h
      rcases List.mem_cons.mp h with rfl | h
      · exact ⟨b, le_rfl, by omega, hb, rfl⟩
      · obtain ⟨b', h1, h2, h3, h4⟩ := ih h
        exact ⟨b', by omega, by omega, h3, h4⟩
    · rw [if_neg hb] at h
      obtain ⟨b', h1, h2, h3, h4⟩ := ih h
      exact ⟨b', by omega, by omega, h3, h4⟩

/-- Buffering the compacted records sets the content of the mapped blocks. -/
lemma blockBytes_compactedRecords (mapped : ℕ → Bool) (f : ℕ → UInt8)
    (pending : List PendingRecord) (b n b' : ℕ) :
    blockBytes [] [] (pending ++ compactedRecords mapped f b n) b' =
      if b ≤ b' ∧ b' < b + n ∧ mapped b' = true then window f (4096 * b') 4096
      else blockBytes [] [] pending b' := by
  induction n generalizing b pending with
  | zero => rw [compactedRecords, List.append_nil, if_neg (by omega)]
  | succ n ih =>
    rw [compactedRecords]
    by_cases hb : mapped b = true
    · rw [if_pos hb, List.append_cons, ih, blockBytes_concat,
        Block.bytes_ofList (length_window _ _ _)]
      by_cases h1 : b + 1 ≤ b' ∧ b' < b + 1 + n ∧ mapped b' = true
      · rw [if_pos h1, if_pos ⟨by omega, by omega, h1.2.2⟩]
      · by_cases h2 : b = b'
        · subst h2
          rw [if_neg h1, if_pos rfl, if_pos ⟨le_rfl, by omega, hb⟩]
        · rw [if_neg h1, if_neg (by simpa using h2),
            if_neg (fun h => h1 ⟨by omega, by omega, h.2.2⟩)]
    · rw [if_neg hb, ih]
      by_cases h1 : b + 1 ≤ b' ∧ b' < b + 1 + n ∧ mapped b' = true
      · rw [if_pos h1, if_pos ⟨by omega, by omega, h1.2.2⟩]
      · rw [if_neg h1, if_neg]
        rintro ⟨h2, h3, h4⟩
        refine h1 ⟨?_, by omega, h4⟩
        by_contra hlt
        obtain rfl : b = b' := by omega
        exact hb h4

section Recovery

variable [MetadataProto]

/-- What recovery reads from the compacted log. -/
def committedRecords (offset : ℤ) : List PendingRecord → List RecoveredRecord
  | [] => []
  | pr :: rest => pr.recovered offset 1 :: committedRecords (offset + 4105) rest

/-- The compacted log is read back as its records. -/
lemma parseLog_committed {P : List PendingRecord} (h : ∀ pr ∈ P, pr.Decodes) (offset : ℤ) :
    parseLog offset (P.map (·.encode 1)) = .ok (committedRecords offset P) := by
  induction P generalizing offset with
  | nil => rfl
  | cons pr rest ih =>
    have hrest := ih (fun r hr => h r (List.mem_cons_of_mem pr hr)) (offset + 4105)
    rw [List.map_cons, parseLog, parseRecord_encode (h pr List.mem_cons_self) _ (Or.inl rfl)]
    simp only [hrest, committedRecords]

/-- Every record of the compacted log is committed. -/
lemma recovered_committed (P : List PendingRecord) :
    recovered (committedRecords 0 P) = Logical.empty.applyAll (committedRecords 0 P) := by
  have hall : ∀ (P : List PendingRecord) (offset : ℤ),
      TxnLog.committed mark (committedRecords offset P) false = committedRecords offset P := by
    intro P
    induction P with
    | nil => exact fun _ => rfl
    | cons pr rest ih =>
      intro offset
      have hc : TxnLog.carry mark (committedRecords offset (pr :: rest)) false = true := rfl
      rw [committedRecords] at hc ⊢
      rw [TxnLog.committed, if_pos hc, ih]
  rw [recovered, hall]

/-- The size that records with flag 1 recover to. -/
lemma logicalSize_applyAll_committed (l : Logical) (P : List PendingRecord) (offset : ℤ) :
    (l.applyAll (committedRecords offset P)).logicalSize =
      P.foldl PendingRecord.sizeStep l.logicalSize := by
  induction P generalizing l offset with
  | nil => rfl
  | cons pr rest ih =>
    rw [List.foldl_cons, ← logicalSize_apply_recovered l pr offset 1]
    exact ih _ _

/-- The blocks that records with flag 1 recover to are those of the same records buffered.

**Proof sketch.** Induction on the records; each stops being buffered and becomes the payload that
the table points to. -/
lemma blockBytes_committed {file : List UInt8} {l : Logical} (hs : Sound file l.logicalToPhysical)
    {P : List PendingRecord} (hP : ∀ pr ∈ P, pr.blockIndex ≥ 0) (b : ℕ) :
    blockBytes (file ++ compactedLog P)
        (l.applyAll (committedRecords file.length P)).logicalToPhysical [] b =
      blockBytes file l.logicalToPhysical P b := by
  induction P generalizing file l with
  | nil => simp [compactedLog, committedRecords, Logical.applyAll]
  | cons pr rest ih =>
    have hlen : (((file ++ pr.encode 1).length : ℕ) : ℤ) = file.length + 4105 := by
      rw [List.length_append, pr.length_encode]
      push_cast
      rfl
    have hidx := hP pr List.mem_cons_self
    have htable : (l.apply (pr.recovered file.length 1)).logicalToPhysical =
        puts (-1) (edits [pr.recovered file.length 1]) l.logicalToPhysical := by
      have hrec : (pr.recovered file.length 1).blockIndex ≥ 0 := hidx
      rw [puts_recovered_of_nonneg hidx, Logical.apply, if_pos hrec]
      rfl
    have hsound : Sound (file ++ pr.encode 1)
        (l.apply (pr.recovered file.length 1)).logicalToPhysical := by
      rw [htable, puts_recovered_of_nonneg hidx]
      refine (hs.append (pr.encode 1)).put _ (by omega) ?_
      rw [hlen]
      omega
    have hrest := ih hsound fun r hr => hP r (List.mem_cons_of_mem pr hr)
    rw [hlen] at hrest
    rw [compactedLog, List.map_cons, List.flatten_cons, ← List.append_assoc, ← compactedLog]
    have happly : l.applyAll (committedRecords file.length (pr :: rest)) =
        (l.apply (pr.recovered file.length 1)).applyAll
          (committedRecords (file.length + 4105) rest) := rfl
    rw [happly, hrest, htable, blockBytes_write_record hs]

/-- The size that the compacted records recover to: the end of the last mapped block. -/
lemma foldl_sizeStep_compactedRecords (mapped : ℕ → Bool) (f : ℕ → UInt8) (n : ℕ) :
    (compactedRecords mapped f 0 n).foldl PendingRecord.sizeStep 0 ≤ 4096 * n ∧
      (compactedRecords mapped f 0 (n + 1)).foldl PendingRecord.sizeStep 0 =
        if mapped n then 4096 * ((n : ℤ) + 1)
        else (compactedRecords mapped f 0 n).foldl PendingRecord.sizeStep 0 := by
  have hconcat : ∀ b n, compactedRecords mapped f b (n + 1) = compactedRecords mapped f b n ++
      if mapped (b + n) then [⟨((b + n : ℕ) : ℤ),
        Block.ofList (window f (4096 * (b + n)) 4096)⟩] else [] := by
    intro b n
    induction n generalizing b with
    | zero => simp [compactedRecords]
    | succ n ih =>
      have hb : b + 1 + n = b + (n + 1) := by omega
      rw [compactedRecords, ih, hb]
      conv_rhs => rw [compactedRecords]
      split_ifs <;> rfl
  have hle : ∀ n : ℕ,
      (compactedRecords mapped f 0 n).foldl PendingRecord.sizeStep 0 ≤ 4096 * n := by
    intro n
    induction n with
    | zero => exact le_rfl
    | succ n ih =>
      rw [hconcat, Nat.zero_add, List.foldl_append]
      split_ifs
      · rw [List.foldl_cons, List.foldl_nil, PendingRecord.sizeStep,
          if_pos (Int.natCast_nonneg n)]
        push_cast
        omega
      · rw [List.foldl_nil]
        push_cast
        omega
  refine ⟨hle n, ?_⟩
  have hn := hle n
  rw [hconcat, Nat.zero_add, List.foldl_append]
  split_ifs
  · rw [List.foldl_cons, List.foldl_nil, PendingRecord.sizeStep, if_pos (Int.natCast_nonneg n)]
    dsimp only
    omega
  · rw [List.foldl_nil]

variable {σ τ : Type} [AtomicLog σ] [AtomicLog τ]

omit [MetadataProto] [AtomicLog σ] in
/-- When nothing is buffered, the mapped blocks are those with a physical offset. -/
lemma isBlockMapped_iff {m : BlockMapper σ} (hp : m.pendingRecords = []) (b : ℕ) :
    m.isBlockMapped b = true ↔ m.logicalToPhysical.getD b (-1) ≠ -1 := by
  rw [isBlockMapped, hp]
  by_cases hlt : b < m.logicalToPhysical.length
  · simp [hlt]
  · rw [List.getD_eq_default _ _ (by omega)]
    simp [hlt]

/-- `Init` on a log of committed records replays them. -/
theorem init_committed {t : τ} (hv : Valid t) {P : List PendingRecord}
    (hdec : ∀ pr ∈ P, pr.Decodes) (hb : bytes t = compactedLog P) :
    ∃ t', init (new t) = (.ok (), opened (Logical.empty.applyAll (committedRecords 0 P)) t') ∧
      Ready (opened (Logical.empty.applyAll (committedRecords 0 P)) t') ∧
      bytes t' = compactedLog P := by
  have hbufs : ∀ buf ∈ P.map (·.encode 1), buf.length = 4105 := by
    intro buf hbuf
    obtain ⟨pr, -, rfl⟩ := List.mem_map.mp hbuf
    exact pr.length_encode 1
  have hal : (bytes t).length % 4105 = 0 := by
    rw [hb, compactedLog, length_flatten_of_forall hbufs]
    omega
  have hrecs : records (bytes t) = .ok (committedRecords 0 P) := by
    rw [hb]
    exact records_flatten hbufs (parseLog_committed hdec 0)
  obtain ⟨t', hi, hb', hv'⟩ := init_of_aligned hv hal hrecs
  have hready : Ready (opened (recovered (committedRecords 0 P)) t') :=
    ready_opened hv' (by rw [hb', hrecs])
  rw [recovered_committed] at hi hready
  exact ⟨t', hi, hready, hb'.trans hb⟩

/-- **What `Init` recovers from the compacted log** of a mapper that buffers nothing: every block
as it was, and the size that the compacted records have. -/
theorem init_compacted {m : BlockMapper σ} (h : Ready m) (hp : m.pendingRecords = [])
    (hlen : m.logicalToPhysical.length ≤ 1000000) {t : τ} (hv : Valid t) {P : List PendingRecord}
    (hP : P = compactedRecords (fun b => m.isBlockMapped b) m.byteAt 0 m.logicalToPhysical.length)
    (hb : bytes t = compactedLog P) :
    ∃ m', init (new t) = (.ok (), m') ∧ Ready m' ∧ m'.byteAt = m.byteAt ∧
      m'.logicalSize = P.foldl PendingRecord.sizeStep 0 := by
  have hmem : ∀ pr ∈ P, ∃ b : ℕ, b < m.logicalToPhysical.length ∧ pr.blockIndex = b := by
    intro pr hpr
    rw [hP] at hpr
    obtain ⟨b, -, hlt, -, rfl⟩ := mem_compactedRecords hpr
    exact ⟨b, by omega, rfl⟩
  have hdec : ∀ pr ∈ P, pr.Decodes := by
    intro pr hpr
    obtain ⟨b, hlt, hidx⟩ := hmem pr hpr
    exact ⟨by omega, by omega, fun hm => by omega⟩
  obtain ⟨t', hi, hready, hb'⟩ := init_committed hv hdec hb
  refine ⟨_, hi, hready, ?_, logicalSize_applyAll_committed Logical.empty P 0⟩
  funext i
  have hempty : Sound [] Logical.empty.logicalToPhysical := by simp [Sound, Logical.empty]
  have hblock : ∀ b, blockBytes (bytes t')
      (Logical.empty.applyAll (committedRecords 0 P)).logicalToPhysical [] b =
      blockBytes (bytes m.storage) m.logicalToPhysical m.pendingRecords b := by
    intro b
    have hcommitted := blockBytes_committed hempty (P := P)
      (fun pr hpr => by obtain ⟨b, -, hidx⟩ := hmem pr hpr; omega) b
    have hbuffered := blockBytes_compactedRecords (fun b => m.isBlockMapped b) m.byteAt [] 0
      m.logicalToPhysical.length b
    rw [← hP, List.nil_append] at hbuffered
    rw [List.nil_append] at hcommitted
    rw [hb']
    refine hcommitted.trans (hbuffered.trans ?_)
    have hiff := isBlockMapped_iff hp b
    by_cases hmapped : m.isBlockMapped b = true
    · have hlt : b < m.logicalToPhysical.length := by
        by_contra hge
        exact hiff.mp hmapped (List.getD_eq_default _ _ (by omega))
      rw [if_pos ⟨Nat.zero_le b, by omega, hmapped⟩, blockBytes_eq_window h.sound]
      rfl
    · rw [if_neg fun h => hmapped h.2.2, hp]
      have hun : m.logicalToPhysical.getD b (-1) = -1 := by
        by_contra hne
        exact hmapped (hiff.mpr hne)
      simp only [blockBytes, List.reverse_nil, List.find?_nil, hun, List.getD_nil, ne_eq,
        not_true_eq_false, if_false]
  unfold BlockMapper.byteAt SqliteGcs.byteAt
  exact congrArg (fun l => l.getD (i % 4096) 0) (hblock (i / 4096))

/-- The size of a mapper's file ends with a mapped block. -/
def EndsMapped (m : BlockMapper σ) : Prop :=
  m.logicalSize % 4096 = 0 ∧
    (m.logicalSize = 0 ∨ m.isBlockMapped (m.logicalSize / 4096 - 1) = true)

instance (m : BlockMapper σ) : Decidable (EndsMapped m) :=
  inferInstanceAs (Decidable (_ ∧ (_ ∨ _)))

omit [AtomicLog σ] in
/-- The compacted records have the size of the file exactly if that ends with a mapped block. -/
lemma foldl_sizeStep_eq_iff {m : BlockMapper σ} (f : ℕ → UInt8) (h0 : 0 ≤ m.logicalSize) {c : ℕ}
    (hc : ceilBlocks m.logicalSize = c) :
    (compactedRecords (fun b => m.isBlockMapped b) f 0 c).foldl PendingRecord.sizeStep 0 =
      m.logicalSize ↔ EndsMapped m := by
  unfold ceilBlocks at hc
  cases c with
  | zero =>
    have hsize : m.logicalSize = 0 := by omega
    rw [EndsMapped, hsize]
    simp [compactedRecords]
  | succ n =>
    obtain ⟨hle, hsucc⟩ := foldl_sizeStep_compactedRecords (fun b => m.isBlockMapped b) f n
    rw [hsucc, EndsMapped]
    by_cases hmapped : m.isBlockMapped n = true
    · rw [if_pos hmapped]
      constructor
      · intro heq
        have hlast : m.logicalSize / 4096 - 1 = n := by omega
        exact ⟨by omega, Or.inr (by rw [hlast]; exact hmapped)⟩
      · rintro ⟨hmod, -⟩
        omega
    · rw [if_neg hmapped]
      constructor
      · intro heq
        omega
      · rintro ⟨hmod, hzero | hlastmapped⟩
        · omega
        · have hlast : m.logicalSize / 4096 - 1 = n := by omega
          rw [hlast] at hlastmapped
          exact absurd hlastmapped hmapped

/-- What a mapper is after a successful `Init`: it buffers nothing, and its size covers its
table. -/
lemma recovered_of_init {s : σ} (hv : Valid s) (hinit : (init (new s)).1 = .ok ()) :
    Ready (init (new s)).2 ∧ (init (new s)).2.pendingRecords = [] ∧
      (init (new s)).2.toLogical.Covered := by
  obtain ⟨recs, s', hrecs, hi, -, hready⟩ := ready_of_init hv hinit
  rw [hi]
  exact ⟨hready, rfl, covered_recovered hrecs⟩

/-- **When compaction preserves the database.** For every log on which `Init` succeeds,
`WriteCompactedRecords` succeeds and `Init` succeeds on its output; the logical size and what every
`xRead` returns are the same as on the old log exactly when the old size ends with a mapped block.

**Proof sketch.** The bytes are always those of the old log (`init_compacted`), and the size is
the end of the last mapped block (`foldl_sizeStep_eq_iff`). What `xRead` returns is a function of
size and bytes (`xRead_spec`). -/
theorem compaction_preserves_iff {s : σ} (hv : Valid s) (hinit : (init (new s)).1 = .ok ()) :
    ∃ m' os, writeCompactedRecords (init (new s)).2 (⟨[]⟩ : StringStream) = (.ok (), m', os) ∧
      ∀ t : τ, Valid t → bytes t = os.str → (init (new t)).1 = .ok () ∧
        ((init (new t)).2.logicalSize = (init (new s)).2.logicalSize ∧
            (∀ iAmt iOfst, (xRead iAmt iOfst ⟨some (init (new t)).2⟩).1 =
              (xRead iAmt iOfst ⟨some (init (new s)).2⟩).1) ↔
          EndsMapped (init (new s)).2) := by
  obtain ⟨hready, hp, hcov⟩ := recovered_of_init hv hinit
  generalize (init (new s)).2 = m at hready hp hcov
  have hc := hcov.length_eq
  have hle := hcov.length_le
  obtain ⟨m', hw⟩ := writeCompactedRecords_spec hready hc hle
  refine ⟨m', _, hw, fun t hvt hbt => ?_⟩
  obtain ⟨m₂, hi₂, hready₂, hbyte, hsize⟩ := init_compacted hready hp hle hvt rfl hbt
  rw [hi₂]
  have hiff := foldl_sizeStep_eq_iff m.byteAt hcov.nonneg hc
  rw [← hsize] at hiff
  refine ⟨rfl, ?_⟩
  dsimp only
  rw [← hiff]
  constructor
  · exact fun h => h.1
  · intro heq
    refine ⟨heq, fun iAmt iOfst => ?_⟩
    have h0 := hcov.nonneg
    have h1 := hcov.upper
    rw [xRead_spec hready h0 h1, xRead_spec hready₂ (by rw [heq]; exact h0) (by rw [heq]; exact h1)]
    refine FileView.read_congr ?_ (fun i _ => congrFun hbyte i) iAmt iOfst
    rw [view, view, heq]

end Recovery

/-! ## A file cut inside a hole -/

/-- A log of one truncate record to 5000 bytes, in the wire format, recovers to a file of 5000
bytes with two blocks, neither of them mapped. -/
lemma init_truncated_log :
    letI := wireProto
    ∃ s, init (new (InMemoryStorage.ofBytes ((truncateRecord [8, 136, 39]).encode 1))) =
      (.ok (), opened ⟨[-1, -1], 5000⟩ s) ∧ Valid s := by
  let _ := wireProto
  have hs : MetadataProto.serializeToString 5000 = some [8, 136, 39] := rfl
  have hdec : (truncateRecord [8, 136, 39]).Decodes :=
    decodes_truncateRecord wireProto_roundTrips (by decide) (by decide) hs (by decide)
  have hnew : (truncateRecord [8, 136, 39]).newSize = 5000 :=
    newSize_truncateRecord wireProto_roundTrips (by decide) (by decide) hs (by decide)
  have hlog : bytes (InMemoryStorage.ofBytes ((truncateRecord [8, 136, 39]).encode 1)) =
      compactedLog [truncateRecord [8, 136, 39]] := List.flatten_singleton.symm
  obtain ⟨s, hi, hready, -⟩ := init_committed (InMemoryStorage.valid_ofBytes _)
    (by simpa using hdec) hlog
  refine ⟨s, ?_, hready.valid⟩
  have hstate : Logical.empty.applyAll (committedRecords 0 [truncateRecord [8, 136, 39]]) =
      ⟨[-1, -1], 5000⟩ := by
    have hrec : committedRecords 0 [truncateRecord [8, 136, 39]] = [⟨0, -1, 1, 5000⟩] := by
      rw [committedRecords, PendingRecord.recovered, hnew]
      rfl
    rw [hrec]
    decide
  rw [hi, hstate]

/-- `compaction_preserves_iff` for the log of one truncate record to 5000 bytes. -/
theorem compaction_preserves_iff_truncated_log :
    letI := wireProto
    ∃ m' os, writeCompactedRecords (init (new (InMemoryStorage.ofBytes
        ((truncateRecord [8, 136, 39]).encode 1)))).2 (⟨[]⟩ : StringStream) = (.ok (), m', os) ∧
      ∀ t : InMemoryStorage, Valid t → bytes t = os.str → (init (new t)).1 = .ok () ∧
        ((init (new t)).2.logicalSize = (init (new (InMemoryStorage.ofBytes
              ((truncateRecord [8, 136, 39]).encode 1)))).2.logicalSize ∧
            (∀ iAmt iOfst, (xRead iAmt iOfst ⟨some (init (new t)).2⟩).1 =
              (xRead iAmt iOfst ⟨some (init (new (InMemoryStorage.ofBytes
                ((truncateRecord [8, 136, 39]).encode 1)))).2⟩).1) ↔
          EndsMapped (init (new (InMemoryStorage.ofBytes
            ((truncateRecord [8, 136, 39]).encode 1)))).2) := by
  obtain ⟨s, hi, -⟩ := init_truncated_log
  exact @compaction_preserves_iff wireProto InMemoryStorage InMemoryStorage _ _ _
    (InMemoryStorage.valid_ofBytes _) (congrArg Prod.fst hi)

/-- **Compaction loses a size that does not end with a mapped block.** The log of one truncate
record recovers to 5000 bytes; the compactor writes nothing for it, and `Init` on the empty log
recovers 0 bytes. -/
theorem compaction_loses_truncated_size :
    letI := wireProto
    ∃ m', (init (new (InMemoryStorage.ofBytes
        ((truncateRecord [8, 136, 39]).encode 1)))).2.logicalSize = 5000 ∧
      writeCompactedRecords (init (new (InMemoryStorage.ofBytes
        ((truncateRecord [8, 136, 39]).encode 1)))).2 (⟨[]⟩ : StringStream) =
        (.ok (), m', ⟨[]⟩) ∧
      (init (new (InMemoryStorage.ofBytes []))).1 = .ok () ∧
      (init (new (InMemoryStorage.ofBytes []))).2.logicalSize = 0 := by
  obtain ⟨s, hi, hv⟩ := init_truncated_log
  obtain ⟨s₀, hi₀, -⟩ := @init_empty wireProto InMemoryStorage _ _
    (InMemoryStorage.valid_ofBytes []) rfl
  have hready : Ready (opened ⟨[-1, -1], 5000⟩ s) := ⟨rfl, hv, by simp [Sound, opened]⟩
  obtain ⟨m', hw⟩ := writeCompactedRecords_spec hready (c := 2) rfl (by decide)
  have hnone : compactedRecords (fun b => (opened ⟨[-1, -1], 5000⟩ s).isBlockMapped b)
      (opened ⟨[-1, -1], 5000⟩ s).byteAt 0 2 = [] := rfl
  rw [hnone] at hw
  refine ⟨m', ?_, ?_, ?_, ?_⟩
  · rw [hi]
    rfl
  · rw [hi]
    exact hw
  · rw [hi₀]
  · rw [hi₀]
    rfl

end SqliteGcs
