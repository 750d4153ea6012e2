import SqliteGcs.BlockFile
import SqliteGcs.Composition
import SqliteGcs.FixedWidth
import SqliteGcs.Frame
import SqliteGcs.InMemoryStorage

set_option relaxedAutoImplicit false
set_option autoImplicit false

/-!
# `Read` and `Write` on buffers of bytes

The loops of `FixedWidth` with what they do with their blocks: they copy bytes between the buffer
of the caller, the buffered records and the storage. The calls end as they do on mathematical
integers, so nothing is undefined: no signed operation overflows, and no access is outside its
buffer.

## Main definitions

* `SqliteGcs.FixedWidth.Reader` — a mapper and the buffer that it reads into.
* `SqliteGcs.FixedWidth.read`, `SqliteGcs.FixedWidth.write` — the member functions.
* `SqliteGcs.ReadsWithin` — reads of a storage return at most what they are asked for.

## Main results

* `SqliteGcs.FixedWidth.read_refines`, `SqliteGcs.FixedWidth.write_refines` — the calls end as they
  do on mathematical integers.
* `SqliteGcs.range_arithmetic` — the arithmetic of all ranges is exact and in bounds.
-/

namespace SqliteGcs

open Bytes BlockRange Machine

variable {σ : Type} [AppendOnlyStorage σ]

/-! ## Storages -/

/-- The reads of a storage within its first `L` bytes keep `I`, and return at most as many bytes as
they are asked for. -/
structure ReadsWithin (I : σ → Prop) (L : ℕ) : Prop where
  lt : L < 2 ^ 63
  keeps : ∀ (n off : ℕ) s, I s → off + n ≤ L → I (pRead n off s).2
  length_le : ∀ (n off : ℕ) s bs, I s → off + n ≤ L → (pRead n off s).1 = .ok bs → bs.length ≤ n

/-- The table of a mapper points into the first `L` bytes. -/
def BlockMapper.TableWithin {σ : Type} (L : ℕ) (m : BlockMapper σ) : Prop :=
  ∀ b, m.logicalToPhysical.getD b (-1) ≠ -1 →
    0 ≤ m.logicalToPhysical.getD b (-1) ∧ m.logicalToPhysical.getD b (-1) + 4096 ≤ L

namespace FixedWidth

/-! ## The calls -/

/-- The bytes that a local array starts with, by its size. -/
structure Stack where
  /-- The bytes. -/
  array : ℕ → List UInt8
  length_array : ∀ n, (array n).length = n

/-- Local arrays that start with zeros. -/
def Stack.zeros : Stack := ⟨fun n => List.replicate n 0, fun _ => List.length_replicate⟩

/-- A mapper, and the buffer that it reads into. -/
structure Reader (σ : Type) where
  /-- The mapper. -/
  mapper : BlockMapper σ
  /-- The buffer. -/
  buf : List UInt8

/-- Bytes are copied to a position of the buffer. -/
def store (bufOffset : UInt64) (bytes : List UInt8) : Code (Reader σ) Unit := do
  let s ← get
  let buf ← overwrite s.buf bufOffset.toNat bytes
  set { s with buf := buf }

/-- `storage_->PRead`: the bytes that it puts into the buffer that it is given. -/
def storagePRead (size : UInt64) (offset : Int64) : Code (Reader σ) (List UInt8) := fun s =>
  match pRead size.toNat offset.toInt s.mapper.storage with
  | (.error e, t) => (.error (.failed e), { s with mapper := { s.mapper with storage := t } })
  | (.ok bytes, t) => (.ok bytes, { s with mapper := { s.mapper with storage := t } })

/-- What an iteration of `ReadLocked` does with its block. -/
def copyBlock (blockIndex blockOffset blockLen : Int64) (bufOffset : UInt64) :
    Code (Reader σ) Unit := do
  let s ← get
  match s.mapper.pendingRecords.reverse.find? (·.blockIndex = blockIndex.toInt) with
  | some pr =>
    let bytes ← load pr.payload.bytes blockOffset.toInt blockLen.toUInt64
    store bufOffset bytes
  | none =>
    let physicalBase :=
      if blockIndex.toInt ≥ 0 ∧ blockIndex.toInt < s.mapper.logicalToPhysical.length then
        s.mapper.logicalToPhysical.getD blockIndex.toInt.toNat (-1)
      else -1
    if physicalBase ≠ -1 then do
      let physicalOffset ← signed (physicalBase + blockOffset.toInt)
      let bytes ← storagePRead blockLen.toUInt64 physicalOffset
      store bufOffset bytes
      if bytes.length < blockLen.toUInt64.toNat then
        throw (.failed ⟨.internal, "Short read from physical storage"⟩)
      else pure ()
    else store bufOffset (List.replicate blockLen.toUInt64.toNat 0)

/-- `Read`. -/
def read (fuel : ℕ) (size : UInt64) (logicalOffset : Int64) : Code (Reader σ) Unit := do
  let rejected ← outOfRange size logicalOffset
  if rejected then throw (.failed ⟨.invalidArgument, "Read offset/size is out of range"⟩)
  else do
    let s ← get
    if ¬ s.mapper.initialized then
      throw (.failed ⟨.failedPrecondition, "BlockMapper not initialized"⟩)
    else readLocked copyBlock fuel size logicalOffset

/-- `ReadLocked` of a whole block into `block_data`. -/
def readBlockData (stack : Stack) (fuel : ℕ) (blockStartLogicalOffset : Int64) :
    Code (BlockMapper σ) (List UInt8) := fun m =>
  match readLocked copyBlock fuel 4096 blockStartLogicalOffset
      (⟨m, stack.array 4096⟩ : Reader σ) with
  | (.error e, s) => (.error e, s.mapper)
  | (.ok _, s) => (.ok s.buf, s.mapper)

/-- `pending_records_.push_back`. -/
def pushBack (b : Int64) (blockData : List UInt8) : Code (BlockMapper σ) Unit :=
  modify fun m =>
    { m with pendingRecords := m.pendingRecords ++ [⟨b.toInt, Block.ofList blockData⟩] }

/-- What an iteration of `Write` does with its block. Where it sets all of `block_data`, the bytes
that the array starts with play no part. -/
def writeBlock (stack : Stack) (fuel : ℕ) (buf : List UInt8)
    (b blockStartLogicalOffset blockOff blockLen bufOffset : Int64) :
    Code (BlockMapper σ) Unit :=
  if blockLen < 4096 then do
    let blockData ← readBlockData stack fuel blockStartLogicalOffset
    let source ← load buf bufOffset.toInt blockLen.toUInt64
    let blockData ← overwrite blockData blockOff.toInt source
    pushBack b blockData
  else do
    let blockData ← load buf bufOffset.toInt 4096
    pushBack b blockData

/-- The update of `logical_size_` by `Write`. -/
def raiseSize (rangeEnd : Int64) : Code (BlockMapper σ) Unit :=
  modify fun m => { m with logicalSize := max m.logicalSize rangeEnd.toInt }

/-- `Write`. -/
def write (stack : Stack) (fuel : ℕ) (buf : List UInt8) (size : UInt64) (logicalOffset : Int64) :
    Code (BlockMapper σ) Unit := do
  let rejected ← outOfRange size logicalOffset
  if rejected then throw (.failed ⟨.invalidArgument, "Write offset/size is out of range"⟩)
  else do
    let m ← get
    if ¬ m.initialized then
      throw (.failed ⟨.failedPrecondition, "BlockMapper not initialized"⟩)
    else writeLocked (writeBlock stack fuel buf) raiseSize fuel size logicalOffset

/-- `Read` runs its loop exactly on the ranges within the first 1000000 blocks. -/
lemma read_eq (fuel : ℕ) (size : UInt64) (logicalOffset : Int64) (s : Reader σ) :
    read fuel size logicalOffset s =
      if 0 ≤ logicalOffset.toInt ∧ logicalOffset.toInt + size.toNat ≤ 1000000 * 4096 then
        if s.mapper.initialized then readLocked copyBlock fuel size logicalOffset s
        else (.error (.failed ⟨.failedPrecondition, "BlockMapper not initialized"⟩), s)
      else (.error (.failed ⟨.invalidArgument, "Read offset/size is out of range"⟩), s) :=
  guarded_eq size logicalOffset (fun s : Reader σ => s.mapper.initialized) _ _ _ s

/-- `Write` runs its loop exactly on the ranges within the first 1000000 blocks. -/
lemma write_eq (stack : Stack) (fuel : ℕ) (buf : List UInt8) (size : UInt64)
    (logicalOffset : Int64) (m : BlockMapper σ) :
    write stack fuel buf size logicalOffset m =
      if 0 ≤ logicalOffset.toInt ∧ logicalOffset.toInt + size.toNat ≤ 1000000 * 4096 then
        if m.initialized then
          writeLocked (writeBlock stack fuel buf) raiseSize fuel size logicalOffset m
        else (.error (.failed ⟨.failedPrecondition, "BlockMapper not initialized"⟩), m)
      else (.error (.failed ⟨.invalidArgument, "Write offset/size is out of range"⟩), m) :=
  guarded_eq size logicalOffset (fun m : BlockMapper σ => m.initialized) _ _ _ m

/-! ## Accesses in range -/

omit [AppendOnlyStorage σ] in
/-- Bytes that fit are copied into the buffer. -/
lemma store_eq {s : Reader σ} {position : ℕ} {bytes : List UInt8}
    (h : position + bytes.length ≤ s.buf.length) (hlt : s.buf.length < 2 ^ 64) :
    store (.ofNat position) bytes s = (.ok (), { s with
      buf := s.buf.take position ++ bytes ++ s.buf.drop (position + bytes.length) }) := by
  have hposition : (UInt64.ofNat position).toNat = position := toNat_ofNat (by omega)
  rw [store, Code.get_bind, overwrite, hposition,
    if_pos ⟨by omega, by omega⟩, pure_bind, Int.toNat_natCast]
  rfl

/-- A read of the storage in range, by a mapper with a buffer. -/
lemma storagePRead_eq (m : BlockMapper σ) (s : σ) (buf : List UInt8) {n p : ℕ} (hn : n < 2 ^ 64)
    (hp : p < 2 ^ 63) :
    storagePRead (Int64.ofNat n).toUInt64 (Int64.ofNat p)
        (⟨{ m with storage := s }, buf⟩ : Reader σ) =
      ((pRead n p s).1.mapError Halt.failed, ⟨{ m with storage := (pRead n p s).2 }, buf⟩) := by
  rw [storagePRead, toNat_toUInt64 hn, Int64.toInt_ofNat_of_lt hp]
  rcases pRead n p s with ⟨e | bytes, t⟩ <;> rfl

/-! ## Reading -/

/-- **What reading `n` bytes to position `k` of the buffer comes to**, if the first outcome is that
of `BlockMapper`: the bytes are in the buffer, or the error is returned. -/
inductive Reads (I : σ → Prop) (m : BlockMapper σ) (buf : List UInt8) (k n : ℕ) :
    Except Status (List UInt8) × σ → Except Halt Unit × Reader σ → Prop
  | ok {data : List UInt8} {t : σ} (hlen : data.length = n) (ht : I t) :
    Reads I m buf k n (.ok data, t)
      (.ok (), ⟨{ m with storage := t }, buf.take k ++ data ++ buf.drop (k + n)⟩)
  | error {e : Status} {t : σ} {buf' : List UInt8} (ht : I t) :
    Reads I m buf k n (.error e, t) (.error (.failed e), ⟨{ m with storage := t }, buf'⟩)

section Refinement

variable {I : σ → Prop} {L : ℕ} (hI : ReadsWithin I L)

include hI in
/-- What an iteration of `ReadLocked` does for a block that is mapped: it reads its part of the
block from the storage, which may fail or return too little. -/
lemma readMapped_eq {m : BlockMapper σ} {s : σ} (hs : I s) {buf : List UInt8} {l p k : ℕ}
    (hlen : l ≤ 4096) (hp : p + l ≤ L) (hbuf : k + l ≤ buf.length) (hlt : buf.length < 2 ^ 64) :
    Reads I m buf k l
      (andThen (pRead l p) (fun bytes s =>
        if (bytes.length : ℤ) < l then
          (.error ⟨.internal, "Short read from physical storage"⟩, s)
        else (.ok bytes, s)) s)
      ((storagePRead (Int64.ofNat l).toUInt64 (Int64.ofNat p) >>= fun bytes =>
        store (.ofNat k) bytes >>= fun _ =>
          if bytes.length < l then
            throw (Halt.failed ⟨.internal, "Short read from physical storage"⟩)
          else pure ()) ⟨{ m with storage := s }, buf⟩) := by
  have hL := hI.lt
  have hread := storagePRead_eq m s buf (by omega : l < 2 ^ 64) (by omega : p < 2 ^ 63)
  have hkeeps := hI.keeps l p s hs hp
  have hle := hI.length_le l p s
  rw [andThen]
  generalize pRead l (p : ℤ) s = q at hread hkeeps hle ⊢
  obtain ⟨r, t⟩ := q
  cases r with
  | error e =>
    rw [Code.bind_error hread]
    exact .error hkeeps
  | ok bytes =>
    have hbytes := hle bytes hs hp rfl
    rw [Code.bind_ok hread, Code.bind_ok (store_eq (by dsimp only; omega) hlt)]
    dsimp only
    by_cases hshort : bytes.length < l
    · rw [if_pos hshort, if_pos (by omega)]
      exact .error hkeeps
    · have heq : bytes.length = l := by omega
      rw [if_neg hshort, if_neg (by omega), heq]
      exact .ok heq hkeeps

include hI in
/-- **What an iteration of `ReadLocked` does**: it fetches its part of the block into its slice of
the buffer, or returns the error of the storage. -/
lemma copyBlock_eq {m : BlockMapper σ} (hm : m.TableWithin L) {s : σ} (hs : I s)
    {buf : List UInt8} {b o l k : ℕ} (hblock : b < 1000000) (hlen : o + l ≤ 4096)
    (hbuf : k + l ≤ buf.length) (hlt : buf.length < 2 ^ 64) :
    Reads I m buf k l (m.readBlock b o l s)
      (copyBlock (.ofNat b) (.ofNat o) (.ofNat l) (.ofNat k)
        ⟨{ m with storage := s }, buf⟩) := by
  have hidx : (Int64.ofNat b).toInt = b := Int64.toInt_ofNat_of_lt (by omega)
  have hoff : (Int64.ofNat o).toInt = o := Int64.toInt_ofNat_of_lt (by omega)
  have hsize : (Int64.ofNat l).toUInt64.toNat = l := toNat_toUInt64 (by omega)
  rw [copyBlock, Code.get_bind, hidx, hoff, BlockMapper.readBlock_eq]
  cases hfind : m.pendingRecords.reverse.find? (·.blockIndex = (b : ℤ)) with
  | some pr =>
    dsimp only
    have hpayload := pr.payload.length_eq
    have hslice : (slice o l pr.payload.bytes).length = l := by
      rw [length_slice]
      omega
    rw [load, hsize, if_pos ⟨by omega, by omega⟩, pure_bind, Int.toNat_natCast, Int.toNat_natCast,
      store_eq (by rw [hslice]; exact hbuf) hlt, hslice]
    exact .ok hslice hs
  | none =>
    dsimp only
    rw [BlockMapper.lookup_eq, Int.toNat_natCast]
    by_cases hentry : m.logicalToPhysical.getD b (-1) = -1
    · rw [if_neg (not_not.mpr hentry), if_neg (not_not.mpr hentry), hsize,
        store_eq (by rw [List.length_replicate]; exact hbuf) hlt, List.length_replicate]
      exact .ok List.length_replicate hs
    · obtain ⟨h0, h1⟩ := hm b hentry
      obtain ⟨p, hp⟩ : ∃ p : ℕ, m.logicalToPhysical.getD b (-1) = p :=
        ⟨_, (Int.toNat_of_nonneg h0).symm⟩
      have hL := hI.lt
      have hphysical : (p : ℤ) + o = ((p + o : ℕ) : ℤ) := by omega
      rw [if_pos hentry, if_pos hentry, hp, signed_eq hphysical (by omega), pure_bind, hphysical,
        hsize]
      exact readMapped_eq hI hs (by omega : l ≤ 4096) (by omega : p + o + l ≤ L) hbuf hlt

/-- A buffer keeps its length. -/
lemma length_overwritten {buf part : List UInt8} {k l : ℕ} (hpart : part.length = l)
    (h : k + l ≤ buf.length) :
    (buf.take k ++ part ++ buf.drop (k + l)).length = buf.length := by
  rw [List.length_append, List.length_append, List.length_take, List.length_drop, hpart]
  omega

omit [AppendOnlyStorage σ] in
/-- Reading no bytes leaves the buffer as it is. -/
lemma Reads.nothing {m : BlockMapper σ} {s : σ} (hs : I s) {buf : List UInt8} {k : ℕ} :
    Reads I m buf k 0 (.ok [], s) (.ok (), ⟨{ m with storage := s }, buf⟩) := by
  have h : Reads I m buf k 0 (.ok [], s) _ := .ok rfl hs
  rwa [List.append_nil, Nat.add_zero, List.take_append_drop] at h

omit [AppendOnlyStorage σ] in
/-- **Reading one part after the other** is reading both. -/
lemma Reads.append {m : BlockMapper σ} {s : σ} {buf : List UInt8} {k l n : ℕ}
    {F G : σ → Except Status (List UInt8) × σ} {x y : Code (Reader σ) Unit}
    (hlen : k + l + n ≤ buf.length)
    (hx : Reads I m buf k l (F s) (x ⟨{ m with storage := s }, buf⟩))
    (hy : ∀ part t, part.length = l → I t →
      Reads I m (buf.take k ++ part ++ buf.drop (k + l)) (k + l) n (G t)
        (y ⟨{ m with storage := t }, buf.take k ++ part ++ buf.drop (k + l)⟩)) :
    Reads I m buf k (l + n)
      (andThen F (fun part => andThen G fun rest s => (.ok (part ++ rest), s)) s)
      ((x >>= fun _ => y) ⟨{ m with storage := s }, buf⟩) := by
  rw [andThen]
  generalize F s = r at hx ⊢
  generalize hxr : x ⟨{ m with storage := s }, buf⟩ = r' at hx
  cases hx with
  | error ht =>
    rw [Code.bind_error hxr]
    exact .error ht
  | @ok part t hpart ht =>
    have hrest := hy part t hpart ht
    rw [Code.bind_ok hxr]
    dsimp only
    rw [andThen]
    generalize G t = r at hrest ⊢
    generalize y ⟨{ m with storage := t }, buf.take k ++ part ++ buf.drop (k + l)⟩ = r' at hrest ⊢
    cases hrest with
    | error ht' => exact .error ht'
    | @ok rest t' hrest ht' =>
      have hleft : (buf.take k ++ part).length = k + l := by
        rw [List.length_append, List.length_take, hpart]
        omega
      have htake : (buf.take k ++ part ++ buf.drop (k + l)).take (k + l) = buf.take k ++ part :=
        List.take_left' hleft
      have hdrop : (buf.take k ++ part ++ buf.drop (k + l)).drop (k + l + n) =
          buf.drop (k + (l + n)) := by
        rw [List.drop_append, hleft, List.drop_of_length_le (by omega), List.nil_append,
          List.drop_drop]
        congr 1
        omega
      rw [htake, hdrop, List.append_assoc (buf.take k)]
      exact .ok (by rw [List.length_append, hpart, hrest]) ht'

include hI in
/-- **Reading slice by slice** comes to what the loop of `ReadLocked` does.

**Proof sketch.** Induction on the iterations, with one of them for each slice. -/
lemma forM_copyBlock {m : BlockMapper σ} (hm : m.TableWithin L) {s : σ} (hs : I s)
    {n o k fuel : ℕ} {buf : List UInt8} (hend : o + n ≤ 1000000 * 4096) (hfuel : n ≤ fuel)
    (hbuf : k + n ≤ buf.length) (hlt : buf.length < 2 ^ 64) :
    Reads I m buf k n (m.readLoop fuel n o s)
      ((forM (slices 4096 o n k) fun c =>
        copyBlock (.ofNat c.block) (.ofNat c.offset) (.ofNat c.length) (.ofNat c.position))
          ⟨{ m with storage := s }, buf⟩) := by
  induction fuel generalizing s n o k buf with
  | zero =>
    obtain rfl : n = 0 := by omega
    rw [slices_zero, List.forM_nil]
    exact .nothing hs
  | succ fuel ih =>
    by_cases hn : n = 0
    · subst hn
      rw [BlockMapper.readLoop_succ, slices_zero, List.forM_nil, if_neg (by decide)]
      exact .nothing hs
    obtain ⟨l, hl⟩ : ∃ l, l = min (4096 - o % 4096) n := ⟨_, rfl⟩
    have hsum : l + (n - l) = n := by omega
    rw [BlockMapper.readLoop_nat m fuel (by omega) hl, slices_of_pos 4096 (by omega),
      List.forM_cons, ← hl]
    dsimp only
    have hcopy := copyBlock_eq hI hm hs (by omega : o / 4096 < 1000000)
      (by omega : o % 4096 + l ≤ 4096) (by omega : k + l ≤ buf.length) hlt
    have hboth := Reads.append (by omega : k + l + (n - l) ≤ buf.length) hcopy
      fun part t hpart ht => by
        have hsame := length_overwritten hpart (by omega : k + l ≤ buf.length)
        exact ih ht (by omega : o + l + (n - l) ≤ 1000000 * 4096) (by omega) (by omega)
          (by omega)
    rw [hsum] at hboth
    exact hboth

include hI in
/-- **`ReadLocked` in 64-bit arithmetic** comes to what `ReadLocked` does. -/
lemma readLocked_reads {m : BlockMapper σ} (hm : m.TableWithin L) (hs : I m.storage) {fuel : ℕ}
    {size : UInt64} {logicalOffset : Int64} (h0 : 0 ≤ logicalOffset.toInt)
    (hend : logicalOffset.toInt + size.toNat ≤ 1000000 * 4096)
    (hfuel : (slices 4096 logicalOffset.toInt.toNat size.toNat 0).length < fuel)
    {buf : List UInt8} (hbuf : buf.length = size.toNat) :
    ∃ r t, m.readLocked size.toNat logicalOffset.toInt = (r, { m with storage := t }) ∧
      Reads I m buf 0 size.toNat (r, t)
        (readLocked copyBlock fuel size logicalOffset ⟨m, buf⟩) := by
  have hlt := size.toNat_lt
  have hsize : s64 (size.toNat : ℤ) = size.toNat := s64_of_range (by omega) (by omega)
  have hoff : logicalOffset.toInt = (logicalOffset.toInt.toNat : ℤ) := by omega
  have hfit : 0 + size.toNat ≤ buf.length := by omega
  have hreads := forM_copyBlock hI hm hs
    (by omega : logicalOffset.toInt.toNat + size.toNat ≤ 1000000 * 4096) le_rfl hfit (by omega)
  rw [← hoff] at hreads
  rw [readLocked_eq copyBlock h0 hend hfuel, BlockMapper.readLocked, if_neg (by omega)]
  by_cases hz : size.toNat = 0
  · rw [hz] at hreads ⊢
    rw [if_pos rfl]
    exact ⟨_, _, rfl, hreads⟩
  · rw [if_neg hz, hsize]
    exact ⟨_, _, rfl, hreads⟩

omit [AppendOnlyStorage σ] in
/-- The range check of `BlockMapper` on the values of the sizes and offsets. -/
lemma outOfRange_toNat (size : UInt64) (logicalOffset : Int64) :
    BlockMapper.outOfRange size.toNat logicalOffset.toInt =
      decide (¬ (0 ≤ logicalOffset.toInt ∧
        logicalOffset.toInt + size.toNat ≤ 1000000 * 4096)) := by
  rw [Bool.eq_iff_iff, decide_eq_true_eq, ← BlockMapper.outOfRange_eq_false_iff, Bool.not_eq_false]

/-- **`Read` ends as it does in `BlockMapper`**: it returns the same status and leaves the same
mapper, and if it succeeds then the buffer has the bytes. -/
structure ReadsAs (r : Except Halt Unit × Reader σ)
    (r' : Except Status (List UInt8) × BlockMapper σ) : Prop where
  result : r.1 = (r'.1.map fun _ => ()).mapError Halt.failed
  mapper : r.2.mapper = r'.2
  buf : ∀ data, r'.1 = .ok data → r.2.buf = data

/-- **`Read` in 64-bit arithmetic** returns what `Read` returns, for every size and offset.

**Proof sketch.** The range checks agree (`outOfRange_eq`), and so do the loops
(`readLocked_reads`). -/
theorem read_refines (hI : ReadsWithin I L) {m : BlockMapper σ}
    (hm : m.initialized = true → m.TableWithin L ∧ I m.storage) {fuel : ℕ} (hfuel : 1000000 < fuel)
    (size : UInt64) (logicalOffset : Int64) {buf : List UInt8} (hbuf : buf.length = size.toNat) :
    ReadsAs (read fuel size logicalOffset ⟨m, buf⟩) (m.read size.toNat logicalOffset.toInt) := by
  rw [read_eq, BlockMapper.read, outOfRange_toNat]
  by_cases hrange : 0 ≤ logicalOffset.toInt ∧ logicalOffset.toInt + size.toNat ≤ 1000000 * 4096
  · rw [if_pos hrange, decide_eq_false (not_not.mpr hrange), if_neg Bool.false_ne_true]
    by_cases hi : m.initialized = true
    · obtain ⟨htable, hs⟩ := hm hi
      obtain ⟨r, t, hmodel, hreads⟩ := readLocked_reads hI htable hs hrange.1 hrange.2
        (lt_of_le_of_lt (length_slices_le hrange.1 hrange.2) hfuel) hbuf
      rw [if_pos hi, if_neg (not_not.mpr hi), hmodel]
      generalize readLocked copyBlock fuel size logicalOffset ⟨m, buf⟩ = r' at hreads ⊢
      cases hreads with
      | error ht => exact ⟨rfl, rfl, fun data h => by cases h⟩
      | ok hlen ht =>
        refine ⟨rfl, rfl, fun data h => ?_⟩
        obtain rfl := Except.ok.inj h
        dsimp only
        rw [List.take_zero, List.nil_append, List.drop_of_length_le (by omega), List.append_nil]
    · rw [if_neg hi, if_pos hi]
      exact ⟨rfl, rfl, fun data h => by cases h⟩
  · rw [if_neg hrange, decide_eq_true hrange, if_pos rfl]
    exact ⟨rfl, rfl, fun data h => by cases h⟩

/-! ## Writing -/

/-- What code comes to if `BlockMapper` comes to `r`. -/
def outcome {α τ : Type} (r : Except Status α × τ) : Except Halt α × τ :=
  (r.1.mapError Halt.failed, r.2)

/-- The outcome of code that goes on. -/
lemma bind_outcome {α β τ : Type} {x : Code τ α} {F : τ → Except Status α × τ} {f : α → Code τ β}
    {G : α → τ → Except Status β × τ} {s : τ} (hx : x s = outcome (F s))
    (hf : ∀ a t, F s = (.ok a, t) → f a t = outcome (G a t)) :
    (x >>= f) s = outcome (andThen F G s) := by
  rw [andThen]
  generalize F s = r at hx hf ⊢
  obtain ⟨e | a, t⟩ := r
  · rw [Code.bind_error hx]
    rfl
  · rw [Code.bind_ok hx]
    exact hf a t rfl

include hI in
/-- `ReadLocked` of a block for `Write`. -/
lemma readBlockData_eq {m : BlockMapper σ} (hm : m.TableWithin L) (hs : I m.storage)
    (stack : Stack) {fuel b : ℕ} (hfuel : 1 < fuel) (hb : b < 1000000) :
    readBlockData stack fuel (.ofNat (b * 4096)) m = outcome (m.readLocked 4096 (b * 4096)) ∧
      ∀ data t, m.readLocked 4096 (b * 4096) = (.ok data, t) → data.length = 4096 ∧
        t.TableWithin L ∧ I t.storage := by
  have hsize : (4096 : UInt64).toNat = 4096 := rfl
  have hoff : (Int64.ofNat (b * 4096)).toInt = (b : ℤ) * 4096 := by
    rw [Int64.toInt_ofNat_of_lt (by omega)]
    omega
  have hone : (slices 4096 (Int64.ofNat (b * 4096)).toInt.toNat (4096 : UInt64).toNat 0).length <
      fuel := by
    rw [hsize, length_slices 4096 (by omega), hoff]
    omega
  have hbuf : (stack.array 4096).length = (4096 : UInt64).toNat := by
    rw [hsize, stack.length_array]
  obtain ⟨r, t, hmodel, hreads⟩ := readLocked_reads hI hm hs (by omega) (by omega) hone hbuf
  rw [hsize, hoff] at hmodel
  rw [readBlockData, hmodel]
  generalize readLocked copyBlock fuel 4096 (Int64.ofNat (b * 4096))
    (⟨m, stack.array 4096⟩ : Reader σ) = r' at hreads ⊢
  cases hreads with
  | error ht =>
    refine ⟨rfl, ?_⟩
    rintro data t h
    cases h
  | ok hlen ht =>
    refine ⟨?_, ?_⟩
    · dsimp only
      rw [List.take_zero, List.nil_append, List.drop_of_length_le (by
        rw [hbuf, Nat.zero_add]), List.append_nil]
      rfl
    · rintro data t h
      cases h
      exact ⟨hlen, hm, ht⟩

/-- What an iteration of `Write` does with its slice in `BlockMapper`. -/
def bufferSlice (buf : List UInt8) (c : Slice) :
    BlockMapper σ → Except Status Unit × BlockMapper σ :=
  let source := slice c.position c.length buf
  if c.length < 4096 then
    andThen (BlockMapper.readLocked 4096 (c.block * 4096)) fun blockData m =>
      (.ok (), { m with
        pendingRecords := m.pendingRecords ++ [⟨c.block, Block.ofList (blockData.take c.offset ++
          source ++ blockData.drop (c.offset + source.length))⟩] })
  else fun m =>
    (.ok (), { m with pendingRecords := m.pendingRecords ++ [⟨c.block, Block.ofList source⟩] })

/-- An iteration of `Write` buffers the first slice of what is left of the range, which starts at
the start of the range or of a block. -/
lemma writeLoop_slice {buf : List UInt8} {off : ℕ} (hend : off + buf.length ≤ 1000000 * 4096)
    {o n k b l : ℕ} (hrange : o + n = off + buf.length) (hk : off + k = o) (hn : 0 < n)
    (hblock : o / 4096 = b) (hat : o = off ∨ o % 4096 = 0) (hl : l = min (4096 - o % 4096) n)
    (j : ℕ) :
    (BlockMapper.writeLoop buf off (j + 1) b : BlockMapper σ → _) =
      andThen (bufferSlice buf ⟨b, o % 4096, l, k⟩) fun _ =>
        BlockMapper.writeLoop buf off j (b + 1 : ℕ) := by
  have hstart : max (off : ℤ) (b * 4096) = o := by omega
  have hstop : min ((off : ℤ) + buf.length) (b * 4096 + 4096) = ((o + l : ℕ) : ℤ) := by omega
  have hlen : ((o + l : ℕ) : ℤ) - o = l := by omega
  have hoff : (o : ℤ) - b * 4096 = ((o % 4096 : ℕ) : ℤ) := by omega
  have hpos : ((o : ℤ) - off).toNat = k := by omega
  rw [BlockMapper.writeLoop_succ, s64_of_range (by omega) (by omega)]
  dsimp only
  rw [hstart, hstop, hlen, hoff, hpos, Int.toNat_natCast, Int.toNat_natCast, ← Nat.cast_succ]
  funext m
  rw [andThen, bufferSlice]
  dsimp only
  by_cases hpart : l < 4096
  · rw [if_pos hpart, if_pos (by omega), andThen, andThen]
    rcases m.readLocked 4096 (b * 4096) with ⟨e | blockData, t⟩ <;> rfl
  · rw [if_neg hpart, if_neg (by omega)]

include hI in
/-- **What an iteration of `Write` does in 64-bit arithmetic** is what it does in `BlockMapper`. -/
lemma writeBlock_eq {buf : List UInt8} (hlt : buf.length < 2 ^ 63) (stack : Stack) {fuel : ℕ}
    (hfuel : 1 < fuel) {c : Slice} (hblock : c.block < 1000000) (hin : c.offset + c.length ≤ 4096)
    (hbuf : c.position + c.length ≤ buf.length) {m : BlockMapper σ} (hm : m.TableWithin L)
    (hs : I m.storage) :
    writeBlock stack fuel buf (.ofNat c.block) (.ofNat (c.block * 4096)) (.ofNat c.offset)
        (.ofNat c.length) (.ofNat c.position) m = outcome (bufferSlice buf c m) ∧
      ∀ t, bufferSlice buf c m = (.ok (), t) → t.TableWithin L ∧ I t.storage := by
  have hposition : (Int64.ofNat c.position).toInt = c.position := Int64.toInt_ofNat_of_lt (by omega)
  have hoffset : (Int64.ofNat c.offset).toInt = c.offset := Int64.toInt_ofNat_of_lt (by omega)
  have hindex : (Int64.ofNat c.block).toInt = c.block := Int64.toInt_ofNat_of_lt (by omega)
  have hlength : (Int64.ofNat c.length).toUInt64.toNat = c.length := toNat_toUInt64 (by omega)
  have hsource : (slice c.position c.length buf).length = c.length := by
    rw [length_slice]
    omega
  have hpush : ∀ (data : List UInt8) (t : BlockMapper σ), pushBack (.ofNat c.block) data t =
      outcome (.ok (), { t with
        pendingRecords := t.pendingRecords ++ [⟨c.block, Block.ofList data⟩] }) := by
    intro data t
    rw [← hindex]
    rfl
  rw [writeBlock, bufferSlice]
  by_cases hpart : c.length < 4096
  · obtain ⟨hread, hkeeps⟩ := readBlockData_eq hI hm hs stack hfuel hblock
    have hless : Int64.ofNat c.length < 4096 :=
      (ofNat_lt (b := 4096) (by omega) (by omega)).mpr hpart
    rw [if_pos hless, if_pos hpart]
    refine ⟨bind_outcome hread fun data t hdata => ?_, fun t h => ?_⟩
    · obtain ⟨hlen, -, -⟩ := hkeeps data t hdata
      rw [load, hposition, hlength, if_pos ⟨by omega, by omega⟩, pure_bind, overwrite, hoffset,
        Int.toNat_natCast, Int.toNat_natCast, hsource, if_pos ⟨by omega, by omega⟩, pure_bind]
      exact hpush _ t
    · rw [andThen] at h
      generalize m.readLocked 4096 (c.block * 4096) = r at h hkeeps
      obtain ⟨e | data, t'⟩ := r
      · cases h
      · obtain ⟨-, ht, hst⟩ := hkeeps data t' rfl
        cases h
        exact ⟨ht, hst⟩
  · have hless : ¬ Int64.ofNat c.length < 4096 :=
      mt (ofNat_lt (b := 4096) (by omega) (by omega)).mp hpart
    have hfull : c.length = 4096 := by omega
    have hsize : (4096 : UInt64).toNat = 4096 := rfl
    rw [if_neg hless, if_neg hpart, load, hposition, hsize, if_pos ⟨by omega, by omega⟩, pure_bind,
      Int.toNat_natCast, hfull]
    refine ⟨hpush _ m, fun t h => ?_⟩
    cases h
    exact ⟨hm, hs⟩

include hI in
/-- **Writing slice by slice** comes to what the loop of `Write` does.

**Proof sketch.** Induction along the slices, with one iteration of `Write` for each. -/
lemma forM_writeBlock {buf : List UInt8} {off : ℕ} (hend : off + buf.length ≤ 1000000 * 4096)
    (stack : Stack) {fuel : ℕ} (hfuel : 1 < fuel) {o n k b : ℕ}
    (hrange : o + n = off + buf.length) (hk : off + k = o)
    (hstart : 0 < n → o / 4096 = b ∧ (o = off ∨ o % 4096 = 0)) {m : BlockMapper σ}
    (hm : m.TableWithin L) (hs : I m.storage) :
    (forM (slices 4096 o n k) fun c => writeBlock stack fuel buf (.ofNat c.block)
        (.ofNat (c.block * 4096)) (.ofNat c.offset) (.ofNat c.length) (.ofNat c.position)) m =
      outcome (m.writeLoop buf off (slices 4096 o n k).length b) := by
  induction o, n, k using slices.induct 4096 generalizing m b with
  | case1 o k =>
    rw [slices_zero, List.forM_nil]
    rfl
  | case2 o n k hn ih =>
    obtain ⟨hblock, hat⟩ := hstart (Nat.pos_of_ne_zero hn)
    obtain ⟨l, hl⟩ : ∃ l, l = min (4096 - o % 4096) n := ⟨_, rfl⟩
    rw [← hl] at ih
    rw [slices_of_pos 4096 (by omega), List.forM_cons, List.length_cons, ← hl, hblock,
      writeLoop_slice hend hrange hk (by omega) hblock hat hl]
    have hfirst := writeBlock_eq hI (by omega : buf.length < 2 ^ 63) stack hfuel
      (c := ⟨b, o % 4096, l, k⟩) (by dsimp only; omega) (by dsimp only; omega)
      (by dsimp only; omega) hm hs
    refine bind_outcome hfirst.1 fun _ t ht => ?_
    obtain ⟨htable, hst⟩ := hfirst.2 t ht
    exact ih (by omega) (by omega) (by omega) htable hst

/-- **`Write` in 64-bit arithmetic** does what `Write` does, for every size and offset.

**Proof sketch.** The range checks agree (`outOfRange_eq`), and so do the loops
(`forM_writeBlock`). -/
theorem write_refines (hI : ReadsWithin I L) {m : BlockMapper σ}
    (hm : m.initialized = true → m.TableWithin L ∧ I m.storage) (stack : Stack) {fuel : ℕ}
    (hfuel : 1000000 < fuel) (size : UInt64) (logicalOffset : Int64) {buf : List UInt8}
    (hbuf : buf.length = size.toNat) :
    write stack fuel buf size logicalOffset m = outcome (m.write buf logicalOffset.toInt) := by
  rw [write_eq, BlockMapper.write_eq]
  dsimp only
  rw [hbuf, outOfRange_toNat]
  by_cases hrange : 0 ≤ logicalOffset.toInt ∧ logicalOffset.toInt + size.toNat ≤ 1000000 * 4096
  · rw [if_pos hrange, decide_eq_false (not_not.mpr hrange), if_neg Bool.false_ne_true]
    by_cases hi : m.initialized = true
    · obtain ⟨htable, hs⟩ := hm hi
      obtain ⟨h0, hend⟩ := hrange
      rw [if_pos hi, if_neg (not_not.mpr hi), writeLocked_eq _ _ h0 hend
        (lt_of_le_of_lt (length_slices_le h0 hend) hfuel)]
      by_cases hz : size = 0
      · subst hz
        rw [if_pos rfl, UInt64.toNat_zero, slices_zero, List.forM_nil, pure_bind, if_pos rfl]
        rfl
      · have hpos : size.toNat ≠ 0 := fun h => hz (UInt64.toNat_inj.mp h)
        obtain ⟨off, hoff⟩ : ∃ off : ℕ, logicalOffset.toInt = off :=
          ⟨_, (Int.toNat_of_nonneg h0).symm⟩
        rw [hoff] at hend
        have hcount : (s64 (u64 ((off : ℤ) + size.toNat - 1) / 4096) - (off : ℤ) / 4096 + 1).toNat =
            (slices 4096 off size.toNat 0).length := by
          have hu : (u64 ((off : ℤ) + size.toNat - 1) : ℤ) = off + size.toNat - 1 :=
            u64_of_range (by omega) (by omega)
          rw [length_slices 4096 (by omega), hu, s64_of_range (by omega) (by omega)]
          omega
        have hblock : (off : ℤ) / 4096 = ((off / 4096 : ℕ) : ℤ) := by omega
        have hloop := forM_writeBlock hI (by omega) stack (by omega : 1 < fuel)
          (by omega : off + size.toNat = off + buf.length) (Nat.add_zero off)
          (fun _ => ⟨rfl, Or.inl rfl⟩) htable hs
        rw [if_neg hz, if_neg hpos, hoff, hcount, hblock, Int.toNat_natCast]
        refine bind_outcome hloop fun _ t _ => ?_
        have hraise : (Int64.ofInt ((off : ℤ) + size.toNat)).toInt = off + size.toNat :=
          Int64.toInt_ofInt_of_le (by omega) (by omega)
        rw [s64_of_range (by omega) (by omega)]
        show (Except.ok (), { t with logicalSize := max t.logicalSize (Int64.ofInt _).toInt }) = _
        rw [hraise]
        rfl
    · rw [if_neg hi, if_pos hi]
      rfl
  · rw [if_neg hrange, decide_eq_true hrange, if_pos rfl]
    rfl

end Refinement

/-! ## All ranges -/

section AllRanges

variable {τ : Type} [AtomicLog τ]

/-- The reads of a log within its bytes. -/
lemma readsWithin_log {L : ℕ} (hL : L < 2 ^ 63) :
    ReadsWithin (fun s : τ => Valid s ∧ (bytes s).length = L) L where
  lt := hL
  keeps n off s h hoff := by
    obtain ⟨hv, hlen⟩ := h
    obtain ⟨-, hb, hv'⟩ := AtomicLog.pRead_spec n off s hv (by omega)
    exact ⟨hv', by rw [hb, hlen]⟩
  length_le n off s bs h hoff hok := by
    obtain ⟨hv, hlen⟩ := h
    obtain ⟨hread, -, -⟩ := AtomicLog.pRead_spec n off s hv (by omega)
    rw [hread] at hok
    obtain rfl := Except.ok.inj hok
    rw [length_slice]
    omega

variable [MetadataProto]

/-- The table of a mapper that was opened points into the bytes of its log. -/
lemma tableWithin_of_reachable {s : τ} (hv : Valid s) {m : BlockMapper τ} (h : Reachable s m)
    (hi : m.initialized = true) : m.TableWithin (bytes m.storage).length ∧
      Valid m.storage ∧ (bytes m.storage).length = (bytes m.storage).length := by
  obtain ⟨hready, -⟩ := ready_of_reachable hv h hi
  exact ⟨fun b hb => hready.sound.getD hb, hready.valid, rfl⟩

/-- Recovery accepts the record of a block below the limit. -/
lemma parseRecord_block {b : ℕ} (hb : b < 1000000) (payload : Block) (offset : ℤ) {flag : UInt8}
    (hflag : flag = 1 ∨ flag = 2) :
    parseRecord offset ((⟨b, payload⟩ : PendingRecord).encode flag) =
      .ok ⟨offset, b, flag, -1⟩ := by
  have hmeta : ¬ (b : ℤ) = -1 := by omega
  have hdec : (⟨b, payload⟩ : PendingRecord).Decodes :=
    ⟨by dsimp only; omega, by dsimp only; omega, fun h => absurd h hmeta⟩
  rw [parseRecord_encode hdec offset hflag, PendingRecord.recovered, PendingRecord.newSize,
    if_neg hmeta]

end AllRanges

end FixedWidth

open FixedWidth in
/-- **Range arithmetic is exact and in bounds.** In the 64-bit types of the source, for every size
and every offset:

* `Read` and `Write` run their loops exactly if the range is within the first 1000000 blocks;
* the loops of an accepted range end after the slices of it, which partition the buffer in order,
  lie in their blocks, and have blocks that recovery accepts;
* on a log of less than `2 ^ 63` bytes, the calls end as they do on mathematical integers, in every
  state of a mapper, so no operation in them is undefined;
* recovery accepts all records that a `Write` buffers. -/
theorem range_arithmetic [MetadataProto] (size : UInt64) (logicalOffset : Int64) :
    (∀ (τ : Type) [AppendOnlyStorage τ] (fuel : ℕ) (s : Reader τ),
      read fuel size logicalOffset s =
        if 0 ≤ logicalOffset.toInt ∧ logicalOffset.toInt + size.toNat ≤ 1000000 * 4096 then
          if s.mapper.initialized then readLocked copyBlock fuel size logicalOffset s
          else (.error (.failed ⟨.failedPrecondition, "BlockMapper not initialized"⟩), s)
        else (.error (.failed ⟨.invalidArgument, "Read offset/size is out of range"⟩), s)) ∧
    (∀ (τ : Type) [AppendOnlyStorage τ] (stack : Stack) (fuel : ℕ) (buf : List UInt8)
        (m : BlockMapper τ),
      write stack fuel buf size logicalOffset m =
        if 0 ≤ logicalOffset.toInt ∧ logicalOffset.toInt + size.toNat ≤ 1000000 * 4096 then
          if m.initialized then
            writeLocked (writeBlock stack fuel buf) raiseSize fuel size logicalOffset m
          else (.error (.failed ⟨.failedPrecondition, "BlockMapper not initialized"⟩), m)
        else (.error (.failed ⟨.invalidArgument, "Write offset/size is out of range"⟩), m)) ∧
    (0 ≤ logicalOffset.toInt → logicalOffset.toInt + size.toNat ≤ 1000000 * 4096 →
      ∃ cs : List Slice,
        cs.flatMap (fun c => List.range' c.position c.length) = List.range size.toNat ∧
        (∀ c ∈ cs, 1 ≤ c.length ∧ c.length ≤ 4096 ∧ c.offset + c.length ≤ 4096 ∧
          (4096 * c.block + c.offset : ℤ) = logicalOffset.toInt + c.position ∧
          c.block < 1000000 ∧ ∀ (payload : Block) (offset : ℤ) (flag : UInt8),
            flag = 1 ∨ flag = 2 →
            parseRecord offset ((⟨c.block, payload⟩ : PendingRecord).encode flag) =
              .ok ⟨offset, c.block, flag, -1⟩) ∧
        ∀ (S : Type) (fuel : ℕ), 1000000 < fuel →
          (∀ copy : Int64 → Int64 → Int64 → UInt64 → Code S Unit,
            readLocked copy fuel size logicalOffset = forM cs fun c =>
              copy (.ofNat c.block) (.ofNat c.offset) (.ofNat c.length) (.ofNat c.position)) ∧
          ∀ (copy : Int64 → Int64 → Int64 → Int64 → Int64 → Code S Unit)
            (raise : Int64 → Code S Unit),
            writeLocked copy raise fuel size logicalOffset = (do
              forM cs fun c => copy (.ofNat c.block) (.ofNat (c.block * 4096)) (.ofNat c.offset)
                (.ofNat c.length) (.ofNat c.position)
              if size = 0 then pure () else raise (.ofInt (logicalOffset.toInt + size.toNat)))) ∧
    (∀ (τ : Type) [AtomicLog τ] (s : τ) (m : BlockMapper τ) (buf : List UInt8) (stack : Stack)
        (fuel : ℕ),
      Valid s → Reachable s m → (bytes m.storage).length < 2 ^ 63 → buf.length = size.toNat →
      1000000 < fuel →
        ReadsAs (read fuel size logicalOffset ⟨m, buf⟩) (m.read size.toNat logicalOffset.toInt) ∧
        write stack fuel buf size logicalOffset m = outcome (m.write buf logicalOffset.toInt)) ∧
    ∀ (τ : Type) [AppendOnlyStorage τ] (m : BlockMapper τ) (buf : List UInt8),
      ∃ new, (m.write buf logicalOffset.toInt).2.pendingRecords = m.pendingRecords ++ new ∧
        ∀ pr ∈ new, ∀ (offset : ℤ) (flag : UInt8), flag = 1 ∨ flag = 2 →
          parseRecord offset (pr.encode flag) = .ok (pr.recovered offset flag) := by
  refine ⟨fun τ _ fuel s => read_eq fuel size logicalOffset s,
    fun τ _ stack fuel buf m => write_eq stack fuel buf size logicalOffset m, fun h0 hend => ?_,
    ?_, ?_⟩
  · refine ⟨slices 4096 logicalOffset.toInt.toNat size.toNat 0, ?_, fun c hc => ?_,
      fun S fuel hfuel => ?_⟩
    · rw [flatMap_slices, List.range_eq_range']
    · have hblock := block_lt_of_mem_slices 4096 (K := 1000000) (by omega) hc
      obtain ⟨hpos, hin, hplace, -, -⟩ := inRange_of_mem_slices 4096 hc
      refine ⟨hpos, by omega, hin, by omega, hblock, fun payload offset flag hflag => ?_⟩
      exact parseRecord_block hblock payload offset hflag
    · have hlen := lt_of_le_of_lt (length_slices_le h0 hend) hfuel
      exact ⟨fun copy => readLocked_eq copy h0 hend hlen,
        fun copy raise => writeLocked_eq copy raise h0 hend hlen⟩
  · intro τ _ s m buf stack fuel hv hm hlog hbuf hfuel
    have htable := fun hi => tableWithin_of_reachable hv hm hi
    exact ⟨read_refines (readsWithin_log hlog) htable hfuel size logicalOffset hbuf,
      write_refines (readsWithin_log hlog) htable stack hfuel size logicalOffset hbuf⟩
  · intro τ _ m buf
    obtain ⟨-, -, new, hnew, hdec⟩ :=
      BlockMapper.write_frame (φ := fun _ => ()) (fun _ _ _ => rfl) buf logicalOffset.toInt m
    exact ⟨new, hnew, fun pr hpr offset flag hflag => parseRecord_encode (hdec pr hpr) offset hflag⟩

open FixedWidth BlockMapper in
/-- `range_arithmetic` for three bytes that end in the second block, on a new database. -/
theorem range_arithmetic_two_blocks :
    letI := wireProto
    let m := (init (new InMemoryStorage.new)).2
    (∃ cs : List Slice, cs.flatMap (fun c => List.range' c.position c.length) = [0, 1, 2] ∧
      (∀ c ∈ cs, c.block < 1000000) ∧
      ∀ copy : Int64 → Int64 → Int64 → UInt64 → Code Unit Unit,
        readLocked copy 1000001 3 4095 = forM cs fun c =>
          copy (.ofNat c.block) (.ofNat c.offset) (.ofNat c.length) (.ofNat c.position)) ∧
      (read 1000001 3 4095 ⟨m, [1, 1, 1]⟩).2.buf = [0, 0, 0] ∧
      write .zeros 1000001 [1, 2, 3] 3 4095 m = outcome (m.write [1, 2, 3] 4095) := by
  let _ := wireProto
  intro m
  obtain ⟨-, -, haccepted, hcalls, -⟩ := @range_arithmetic wireProto 3 4095
  obtain ⟨cs, hpartition, hslices, hloops⟩ := haccepted (by decide) (by decide)
  have hreach : Reachable InMemoryStorage.new m := .init .new
  obtain ⟨hread, -⟩ := hcalls InMemoryStorage InMemoryStorage.new m [1, 1, 1] .zeros 1000001 rfl
    hreach
    (by decide) rfl (by decide)
  obtain ⟨-, hwrite⟩ := hcalls InMemoryStorage InMemoryStorage.new m [1, 2, 3] .zeros 1000001 rfl
    hreach (by decide) rfl (by decide)
  have hzeros : (m.read 3 4095).1 = .ok [0, 0, 0] := by decide +kernel
  refine ⟨⟨cs, hpartition, fun c hc => ?_, (hloops Unit 1000001 (by decide)).1⟩,
    hread.buf _ hzeros, hwrite⟩
  obtain ⟨-, -, -, -, hblock, -⟩ := hslices c hc
  exact hblock

end SqliteGcs
