import SqliteGcs.ReadLaws

set_option relaxedAutoImplicit false
set_option autoImplicit false

/-!
# The representation invariant

Whatever bytes a log holds, and whatever the generated parser makes of them, `Init` fails and
recovers nothing, or it establishes an invariant that `Write`, `Truncate` and `Sync` keep on a log
that does not fail: the size is in range and covers the block table, every entry of the table
points to the payload of a record for its block that lies in the file, and every buffered record is
for metadata or for a block that the size covers.

## Main definitions

* `SqliteGcs.Placed` — a position holds the payload of a record for a block.
* `SqliteGcs.Represents` — the invariant.

## Main results

* `SqliteGcs.represents_init` — `Init` establishes the invariant.
* `SqliteGcs.Represents.op`, `SqliteGcs.Represents.runOps` — the calls keep it.
* `SqliteGcs.init_fails_or_represents` — what holds from arbitrary bytes on.
-/

namespace SqliteGcs

open Bytes PageTable BlockMapper

/-! ## Entries of the block table -/

/-- Position `p` of a file of whole records holds the payload of a record for block `b`. -/
structure Placed (file : List UInt8) (b : ℕ) (p : ℤ) : Prop where
  position : p % 4105 = 8
  lower : 8 ≤ p
  upper : p - 8 + 4105 ≤ file.length
  index : slice (p - 8).toNat 8 file = encodeInt64 b

/-- A record stays where it is when the file grows. -/
lemma Placed.append {file : List UInt8} {b : ℕ} {p : ℤ} (h : Placed file b p)
    (more : List UInt8) : Placed (file ++ more) b p where
  position := h.position
  lower := h.lower
  upper := by
    have := h.upper
    rw [List.length_append]
    omega
  index := by
    have := h.upper
    have := h.lower
    rw [slice_append_left _ (by omega), h.index]

/-- A position holds a record for one block. -/
lemma Placed.block_eq {file : List UInt8} {b b' : ℕ} {p : ℤ} (h : Placed file b p)
    (h' : Placed file b' p) (hb : b < 1000000) (hb' : b' < 1000000) : b = b' := by
  have hcode : decodeInt64 (encodeInt64 b) = decodeInt64 (encodeInt64 b') := by
    rw [← h.index, ← h'.index]
  rw [decodeInt64_encodeInt64 (by omega) (by omega),
    decodeInt64_encodeInt64 (by omega) (by omega)] at hcode
  omega

/-- Every mapped entry of a table is placed. -/
def AllPlaced (file : List UInt8) (table : List ℤ) : Prop :=
  ∀ b, table.getD b (-1) ≠ -1 → Placed file b (table.getD b (-1))

/-- Resizing keeps the entries of a table placed. -/
lemma AllPlaced.resize {file : List UInt8} {table : List ℤ} (h : AllPlaced file table) (n : ℕ) :
    AllPlaced file (PageTable.resize (-1) n table) := by
  intro b hb
  rw [getD_resize] at hb ⊢
  split_ifs at hb ⊢
  · exact h b hb
  · exact absurd rfl hb

/-- Putting a placed entry keeps the entries of a table placed. -/
lemma AllPlaced.put {file : List UInt8} {table : List ℤ} (h : AllPlaced file table) {i : ℕ}
    {p : ℤ} (hp : Placed file i p) : AllPlaced file (PageTable.put (-1) i p table) := by
  intro b hb
  rw [getD_put] at hb ⊢
  split_ifs at hb ⊢ with hi
  · rw [hi]
    exact hp
  · exact h b hb

/-! ## `Init` -/

section Init

variable [MetadataProto]

/-- A record of the log that recovery applies is where its table entry will point. -/
lemma placed_of_mem_records {file : List UInt8} {recs : List RecoveredRecord}
    (h : records file = .ok recs) {rec : RecoveredRecord} (hrec : rec ∈ recs)
    (hmark : mark rec ≠ .abort) (hidx : rec.blockIndex ≥ 0) :
    Placed file rec.blockIndex.toNat (rec.offset + 8) := by
  obtain ⟨hoff0, hoff1⟩ := offset_of_mem_records h hrec
  obtain ⟨i, hi, rfl⟩ := List.getElem_of_mem hrec
  have hoff := offset_getElem_records h hi
  have hi' : i < (chunks 4105 (file.length / 4105) file).length := by
    rwa [← length_of_parseLog h]
  have hflag : recs[i].isGood = 1 ∨ recs[i].isGood = 2 := by
    unfold mark at hmark
    split_ifs at hmark with h1 h2
    · exact Or.inl h1
    · exact Or.inr h2
    · exact absurd rfl hmark
  have hblock := blockIndex_of_parseRecord (getElem_parseLog h hi hi') hflag
  rw [getElem_chunks, slice_slice _ (by omega), Nat.add_zero] at hblock
  have hnat : (recs[i].offset + 8 - 8).toNat = 4105 * i := by omega
  have hlen : (slice (4105 * i) 8 file).length = 8 := by
    rw [length_slice]
    omega
  constructor
  · omega
  · omega
  · omega
  · rw [hnat, Int.toNat_of_nonneg hidx, hblock, encodeInt64_decodeInt64 hlen]

omit [MetadataProto] in
/-- Replaying placed records keeps the entries of the table placed. -/
lemma AllPlaced.applyAll {file : List UInt8} {l : Logical} (h : AllPlaced file l.logicalToPhysical)
    {recs : List RecoveredRecord} (hrecs : ∀ rec ∈ recs, rec.blockIndex ≥ 0 →
      Placed file rec.blockIndex.toNat (rec.offset + 8)) :
    AllPlaced file (l.applyAll recs).logicalToPhysical := by
  induction recs generalizing l with
  | nil => exact h
  | cons rec recs ih =>
    refine ih ?_ fun r hr => hrecs r (List.mem_cons_of_mem rec hr)
    unfold Logical.apply
    split_ifs with hidx
    · exact h.put (hrecs rec List.mem_cons_self hidx)
    · exact h.resize _
    · exact h
    · exact h

end Init

/-! ## `Sync` -/

/-- The block index at the start of a record in a batch. -/
lemma slice_flatten_encodeBatch {P : List PendingRecord} {i : ℕ} (hi : i < P.length) :
    slice (4105 * i) 8 (encodeBatch P).flatten = encodeInt64 P[i].blockIndex := by
  induction P generalizing i with
  | nil => simp at hi
  | cons pr rest ih =>
    obtain ⟨flag, hflag⟩ : ∃ flag : UInt8, flag = if rest = [] then 1 else 2 := ⟨_, rfl⟩
    rw [encodeBatch, List.flatten_cons, ← hflag]
    cases i with
    | zero =>
      rw [Nat.mul_zero, slice_append_left _ (by rw [pr.length_encode]; omega),
        pr.slice_index_encode]
      rfl
    | succ i =>
      have hpos : 4105 * (i + 1) = (pr.encode flag).length + 4105 * i := by
        rw [pr.length_encode]
        omega
      rw [hpos, slice_append_right, ih (by simpa using hi)]
      rfl

/-- A record of an appended batch is where its table entry points. -/
lemma placed_batch {file : List UInt8} (hal : file.length % 4105 = 0) {P : List PendingRecord}
    {i b : ℕ} (hi : i < P.length) (hidx : P[i].blockIndex = b) :
    Placed (file ++ (encodeBatch P).flatten) b (file.length + 4105 * i + 8) := by
  have hlen : (encodeBatch P).flatten.length = 4105 * P.length := by
    rw [length_flatten_of_forall length_of_mem_encodeBatch, length_encodeBatch]
  have hnat : ((file.length : ℤ) + 4105 * i + 8 - 8).toNat = file.length + 4105 * i := by omega
  constructor
  · omega
  · omega
  · rw [List.length_append, hlen]
    push_cast
    omega
  · rw [hnat, slice_append_right, slice_flatten_encodeBatch hi, hidx]

/-- A record of a batch has flag 1 or 2. -/
lemma exists_of_mem_encodeBatch {P : List PendingRecord} {recordBuf : List UInt8}
    (h : recordBuf ∈ encodeBatch P) :
    ∃ pr ∈ P, ∃ flag : UInt8, (flag = 1 ∨ flag = 2) ∧ recordBuf = pr.encode flag := by
  induction P with
  | nil => simp [encodeBatch] at h
  | cons pr rest ih =>
    rcases List.mem_cons.mp h with rfl | h
    · exact ⟨pr, List.mem_cons_self, _, flag_eq_one_or_two (rest = []), rfl⟩
    · obtain ⟨r, hr, hflag⟩ := ih h
      exact ⟨r, List.mem_cons_of_mem pr hr, hflag⟩

section Sync

variable [MetadataProto]

/-- The puts of an appended batch keep the entries of the table placed. -/
lemma AllPlaced.puts_batch {file : List UInt8} {table : List ℤ} (h : AllPlaced file table)
    (hal : file.length % 4105 = 0) (P : List PendingRecord) :
    AllPlaced (file ++ (encodeBatch P).flatten)
      (puts (-1) (edits (batchRecords file.length P)) table) := by
  intro b hb
  rcases getD_puts_batchRecords P file.length table b with ⟨-, hget⟩ | ⟨i, hi, hidx, hget⟩
  · rw [hget] at hb ⊢
    exact (h b hb).append _
  · rw [hget]
    exact placed_batch hal hi hidx

/-- The puts of a batch make the table no longer than its blocks need. -/
lemma length_puts_batchRecords {P : List PendingRecord} {c : ℕ}
    (hP : ∀ pr ∈ P, pr.blockIndex < c) (offset : ℤ) (table : List ℤ) (ht : table.length ≤ c) :
    (puts (-1) (edits (batchRecords offset P)) table).length ≤ c := by
  induction P generalizing offset table with
  | nil => exact ht
  | cons pr rest ih =>
    obtain ⟨flag, hflag⟩ : ∃ flag : UInt8, flag = if rest = [] then 1 else 2 := ⟨_, rfl⟩
    rw [batchRecords, ← hflag, edits_cons, puts_append]
    refine ih (fun r hr => hP r (List.mem_cons_of_mem pr hr)) (offset + 4105) _ ?_
    have hlt := hP pr List.mem_cons_self
    by_cases h0 : pr.blockIndex ≥ 0
    · rw [puts_recovered_of_nonneg h0, length_put]
      omega
    · rw [puts_recovered_of_neg h0]
      exact ht

/-! ## The invariant -/

/-- **The representation invariant** of a mapper. The field `decodes` depends on the generated
parser, which has to read what the generated serialiser wrote; nothing else does. -/
structure Represents {σ : Type} [ReliableLog σ] (m : BlockMapper σ) : Prop extends Ready m where
  aligned : (bytes m.storage).length % 4105 = 0
  size_nonneg : 0 ≤ m.logicalSize
  size_upper : m.logicalSize ≤ 1000000 * 4096
  length_le : m.logicalToPhysical.length ≤ ceilBlocks m.logicalSize
  placed : AllPlaced (bytes m.storage) m.logicalToPhysical
  pending : ∀ pr ∈ m.pendingRecords,
    pr.blockIndex = -1 ∨ 0 ≤ pr.blockIndex ∧ pr.blockIndex < ceilBlocks m.logicalSize
  decodes : MetadataProto.RoundTrips → ∀ pr ∈ m.pendingRecords, pr.Decodes

variable {σ : Type} [ReliableLog σ]

/-- **`Init` establishes the invariant** if it succeeds. -/
theorem represents_init {s : σ} (hv : Valid s) (hinit : (init (new s)).1 = .ok ()) :
    Represents (init (new s)).2 := by
  obtain ⟨recs, s', hrecs, hi, hb, hready⟩ := ready_of_init hv hinit
  have hcov := covered_recovered hrecs
  have hempty : AllPlaced (padded (bytes s)) Logical.empty.logicalToPhysical :=
    fun b hb => absurd (List.getD_nil ..) hb
  rw [hi]
  constructor
  case toReady => exact hready
  case aligned =>
    show (bytes s').length % 4105 = 0
    rw [hb, length_padded]
    omega
  case size_nonneg => exact hcov.nonneg
  case size_upper => exact hcov.upper
  case length_le => exact le_of_eq hcov.length_eq.symm
  case placed =>
    show AllPlaced (bytes s') _
    rw [hb]
    exact hempty.applyAll fun rec hrec hidx => placed_of_mem_records hrecs
      (TxnLog.mem_of_mem_committed mark hrec) (TxnLog.ne_abort_of_mem_committed mark hrec) hidx
  case pending => simp [opened]
  case decodes => simp [opened]

/-- `Write` keeps the invariant. -/
lemma Represents.write {m : BlockMapper σ} (h : Represents m) (buf : List UInt8) (off : ℤ) :
    Represents (m.write buf off).2 := by
  rcases write_cases h.initialized buf off with ⟨hsame, -⟩ | ⟨o, rfl, hpos, hrange⟩
  · rwa [hsame]
  obtain ⟨s, hw, hb, -⟩ := write_spec h.initialized h.valid h.sound hpos hrange
  have hready := (h.toReady.write buf o).1
  have hsize0 := h.size_nonneg
  have hsize1 := h.size_upper
  have hlen := h.length_le
  rw [hw] at hready ⊢
  constructor
  case toReady => exact hready
  case aligned => exact hb ▸ h.aligned
  case size_nonneg => dsimp only; omega
  case size_upper => dsimp only; omega
  case length_le =>
    unfold ceilBlocks at hlen ⊢
    dsimp only
    omega
  case placed => exact hb ▸ h.placed
  case pending =>
    intro pr hpr
    rcases List.mem_append.mp hpr with hpr | hpr
    · have hold := h.pending pr hpr
      unfold ceilBlocks at hold ⊢
      dsimp only
      omega
    · obtain ⟨h0, h1⟩ := blockIndex_of_mem_blockRecords hpr
      unfold ceilBlocks
      dsimp only
      omega
  case decodes =>
    intro hp pr hpr
    rcases List.mem_append.mp hpr with hpr | hpr
    · exact h.decodes hp pr hpr
    · exact decodes_blockRecords (by omega) pr hpr

/-- `Truncate` keeps the invariant. -/
lemma Represents.truncate {m : BlockMapper σ} (h : Represents m) (newSize : ℤ) :
    Represents (m.truncate newSize).2 := by
  rcases truncate_cases h.initialized newSize with ⟨e, he⟩ | ⟨h0, h1, serialized, hs, hl, ht⟩
  · rwa [he]
  have hready := (h.toReady.truncate newSize).1
  rw [ht] at hready ⊢
  constructor
  case toReady => exact hready
  case aligned => exact h.aligned
  case size_nonneg => exact h0
  case size_upper => exact h1
  case length_le =>
    show ((PageTable.resize (-1) (ceilBlocks newSize).toNat m.logicalToPhysical).length : ℤ) ≤
      ceilBlocks newSize
    rw [length_resize]
    unfold ceilBlocks
    omega
  case placed => exact h.placed.resize _
  case pending =>
    intro pr hpr
    obtain ⟨hmem, hkeep⟩ := List.mem_filter.mp hpr
    have hlt : ¬ pr.blockIndex ≥ ceilBlocks newSize := of_decide_eq_true hkeep
    rcases List.mem_append.mp hmem with hmem | hmem
    · rcases h.pending pr hmem with hneg | ⟨hnonneg, -⟩
      · exact Or.inl hneg
      · exact Or.inr ⟨hnonneg, not_le.mp hlt⟩
    · obtain rfl := List.mem_singleton.mp hmem
      exact Or.inl rfl
  case decodes =>
    intro hp pr hpr
    rcases List.mem_append.mp (List.mem_filter.mp hpr).1 with hpr | hpr
    · exact h.decodes hp pr hpr
    · obtain rfl := List.mem_singleton.mp hpr
      exact decodes_truncateRecord hp h0 h1 hs hl

/-- `Sync` keeps the invariant. -/
lemma Represents.sync {m : BlockMapper σ} (h : Represents m) : Represents m.sync.2 := by
  obtain ⟨s, hsync, hb, -⟩ := sync_reliable h.initialized h.valid
  have hready := h.toReady.sync.1
  have hlen := h.length_le
  have hc0 : 0 ≤ ceilBlocks m.logicalSize := le_trans (Int.natCast_nonneg _) hlen
  rw [hsync] at hready ⊢
  constructor
  case toReady => exact hready
  case aligned =>
    have hal := h.aligned
    dsimp only
    rw [hb, List.length_append, length_flatten_of_forall length_of_mem_encodeBatch]
    omega
  case size_nonneg => exact h.size_nonneg
  case size_upper => exact h.size_upper
  case length_le =>
    have hindex : ∀ pr ∈ m.pendingRecords, pr.blockIndex < (ceilBlocks m.logicalSize).toNat := by
      intro pr hpr
      have := h.pending pr hpr
      omega
    have hbound := length_puts_batchRecords hindex (bytes m.storage).length m.logicalToPhysical
      (by omega)
    dsimp only
    omega
  case placed =>
    dsimp only
    rw [hb]
    exact h.placed.puts_batch h.aligned m.pendingRecords
  case pending => simp
  case decodes => simp

/-- **Every call keeps the invariant.** -/
theorem Represents.op {m : BlockMapper σ} (h : Represents m) (op : Op) :
    Represents (op.run m).2 := by
  cases op with
  | write buf off => exact h.write buf off
  | truncate newSize => exact h.truncate newSize
  | sync => exact h.sync

/-- Every run keeps the invariant. -/
lemma Represents.runOps {m : BlockMapper σ} (h : Represents m) (ops : List Op) :
    Represents (SqliteGcs.runOps ops m) := by
  induction ops generalizing m with
  | nil => exact h
  | cons op ops ih => exact ih (h.op op)

/-- No two blocks share an entry of the table. -/
lemma Represents.entry_injective {m : BlockMapper σ} (h : Represents m) {b b' : ℕ}
    (hb : m.logicalToPhysical.getD b (-1) ≠ -1)
    (heq : m.logicalToPhysical.getD b' (-1) = m.logicalToPhysical.getD b (-1)) : b' = b := by
  have hlen := h.length_le
  have hupper := h.size_upper
  unfold ceilBlocks at hlen
  have hlt : ∀ c, m.logicalToPhysical.getD c (-1) ≠ -1 → c < 1000000 := by
    intro c hc
    by_contra hge
    exact hc (List.getD_eq_default _ _ (by omega))
  have hplaced' := h.placed b' (by rw [heq]; exact hb)
  rw [heq] at hplaced'
  exact hplaced'.block_eq (h.placed b hb) (hlt b' (by rw [heq]; exact hb)) (hlt b hb)

/-- `Sync` appends records that pass validation at whatever offset they land, if the parser reads
what the serialiser wrote. -/
lemma Represents.parseRecord_sync {m : BlockMapper σ} (h : Represents m) :
    ∃ emitted : List (List UInt8), m.sync.1 = .ok () ∧
      bytes m.sync.2.storage = bytes m.storage ++ emitted.flatten ∧
      (MetadataProto.RoundTrips → ∀ recordBuf ∈ emitted, recordBuf.length = 4105 ∧
        ∀ offset, ∃ rec, parseRecord offset recordBuf = .ok rec) := by
  obtain ⟨s, hsync, hb, -⟩ := sync_reliable h.initialized h.valid
  refine ⟨encodeBatch m.pendingRecords, by rw [hsync], by rw [hsync, hb], ?_⟩
  intro hp recordBuf hmem
  refine ⟨length_of_mem_encodeBatch _ hmem, fun offset => ?_⟩
  obtain ⟨pr, hpr, flag, hflag, rfl⟩ := exists_of_mem_encodeBatch hmem
  exact ⟨_, parseRecord_encode (h.decodes hp pr hpr) offset hflag⟩

/-- **The representation invariant from arbitrary bytes.** Whatever the log holds and whatever the
parser makes of it, `Init` fails and leaves an uninitialised mapper with no entries and size 0, or
it succeeds and then, after every run of calls: the invariant holds, no two blocks share an entry,
every `Read` that passes the range check returns as many bytes as it asked for, and `Sync` appends
records that pass validation.

**Proof sketch.** A failing `Init` leaves the mapper new (`new_of_init`). A successful one
establishes the invariant (`represents_init`), the calls keep it (`Represents.runOps`), and the
other parts follow from it. -/
theorem init_fails_or_represents {s : σ} (hv : Valid s) :
    ((∃ e, (init (new s)).1 = .error e) ∧ (init (new s)).2.initialized = false ∧
      (init (new s)).2.logicalToPhysical = [] ∧ (init (new s)).2.logicalSize = 0) ∨
    (init (new s)).1 = .ok () ∧ ∀ (ops : List Op) (m : BlockMapper σ),
      m = SqliteGcs.runOps ops (init (new s)).2 →
      Represents m ∧
      (∀ b b', m.logicalToPhysical.getD b (-1) ≠ -1 →
        m.logicalToPhysical.getD b' (-1) = m.logicalToPhysical.getD b (-1) → b' = b) ∧
      (∀ n off, outOfRange n off = false →
        ∃ data, (m.read n off).1 = .ok data ∧ data.length = n) ∧
      ∃ emitted : List (List UInt8), m.sync.1 = .ok () ∧
        bytes m.sync.2.storage = bytes m.storage ++ emitted.flatten ∧
        (MetadataProto.RoundTrips → ∀ recordBuf ∈ emitted, recordBuf.length = 4105 ∧
          ∀ offset, ∃ rec, parseRecord offset recordBuf = .ok rec) := by
  by_cases hinit : (init (new s)).1 = .ok ()
  · refine Or.inr ⟨hinit, ?_⟩
    rintro ops m rfl
    have h := (represents_init hv hinit).runOps ops
    refine ⟨h, fun b b' hb heq => h.entry_injective hb heq, ?_, h.parseRecord_sync⟩
    intro n off hr
    exact ⟨_, read_ok_of_range h.toReady hr, length_window _ _ _⟩
  · left
    obtain ⟨s', hm, -⟩ := new_of_init hv hinit
    refine ⟨?_, by rw [hm]; exact ⟨rfl, rfl, rfl⟩⟩
    cases hr : (init (new s)).1 with
    | ok u => exact absurd hr hinit
    | error e => exact ⟨e, rfl⟩

end Sync

/-- `init_fails_or_represents` for a file of one byte, which `Init` pads to a record of flag 0. -/
theorem init_fails_or_represents_one_byte :
    letI := wireProto
    (init (new (InMemoryStorage.ofBytes [7]))).1 = .ok () ∧
      Represents (init (new (InMemoryStorage.ofBytes [7]))).2 := by
  have hi : (@init InMemoryStorage wireProto _ (new (.ofBytes [7]))).2.initialized = true := by
    decide +kernel
  rcases @init_fails_or_represents wireProto InMemoryStorage _ (.ofBytes [7])
    (InMemoryStorage.valid_ofBytes [7]) with ⟨-, hfail, -⟩ | ⟨hok, hrun⟩
  · exact absurd (hi.symm.trans hfail) Bool.true_eq_false.mp
  · exact ⟨hok, (hrun [] _ rfl).1⟩

end SqliteGcs
