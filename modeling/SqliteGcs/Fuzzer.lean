import SqliteGcs.FixedWidthRuns

set_option relaxedAutoImplicit false
set_option autoImplicit false

/-!
# The fuzz target

`LLVMFuzzerTestOneInput` of `log_format_fuzzer.cc` writes its input to a temporary file, recovers
the file as a log, and makes calls whose arguments it takes from the end of the input. The target
has no checks of its own: it finds an input exactly if a call on it is undefined or does not end.
There is no such input, and each run leaves no file behind.

## Main definitions

* `SqliteGcs.FixedWidth.FuzzerCalls` — what the system calls of a run do.
* `SqliteGcs.FixedWidth.llvmFuzzerTestOneInput` — the target.

## Main results

* `SqliteGcs.FixedWidth.llvmFuzzerTestOneInput_ends` — every run returns 0 and leaves no file.
-/

namespace SqliteGcs

open Bytes

namespace FixedWidth

/-! ## The code -/

section Target

variable {σ : Type} [AppendOnlyStorage σ]

/-- `memcpy` of four bytes of a buffer to a `uint32_t`. -/
def loadUInt32 {S : Type} (source : List UInt8) (position : ℤ) : Code S UInt32 := do
  let bytes ← load source position 4
  pure (UInt32.ofNat (ofLE bytes))

/-- A buffer of zeros. -/
def Buffer.zeros (size : UInt64) : Buffer :=
  ⟨List.replicate size.toNat 0, by rw [List.length_replicate]; exact size.toNat_lt⟩

/-- The first bytes of a buffer of zeros. -/
def firstZeros {S : Type} (bufSize size : UInt64) : Code S Buffer :=
  if size.toNat ≤ bufSize.toNat then pure (.zeros size) else throw .undefined

variable [MetadataProto]

/-- A call, and whether the status that it returns is OK. -/
def attempt (stack : Stack) (fuel : ℕ) (c : Call) : Code (BlockMapper σ) Bool := fun m =>
  match c.run stack fuel m with
  | (.ok _, m) => (.ok true, m)
  | (.error (.failed _), m) => (.ok false, m)
  | (.error halt, m) => (.error halt, m)

/-- Execute Read. -/
def executeRead (stack : Stack) (fuel : ℕ) (readLen : UInt32) (readOffset : Int64) :
    Code (BlockMapper σ) Unit :=
  if readLen > 0 then do
    let _ ← attempt stack fuel (.read (.zeros (readLen % (1024 * 1024)).toUInt64) readOffset)
  else pure ()

/-- Execute Write. -/
def executeWrite (stack : Stack) (fuel : ℕ) (writeLen : UInt32) (writeOffset : Int64) :
    Code (BlockMapper σ) Unit :=
  if writeLen > 0 then do
    let _ ← attempt stack fuel (.write (.zeros (writeLen % (1024 * 1024)).toUInt64) writeOffset)
  else pure ()

/-- The commands in the last 32 bytes of the input. -/
def executeCommands (stack : Stack) (fuel : ℕ) (data : Buffer) : Code (BlockMapper σ) Unit := do
  let cmdData := (data.size - 32).toNat
  let readOffset ← loadInt64 data.bytes cmdData
  let readLen ← loadUInt32 data.bytes (cmdData + 8)
  let writeOffset ← loadInt64 data.bytes (cmdData + 12)
  let writeLen ← loadUInt32 data.bytes (cmdData + 20)
  let truncateSize ← loadInt64 data.bytes (cmdData + 24)
  executeRead stack fuel readLen readOffset
  executeWrite stack fuel writeLen writeOffset
  let _ ← attempt stack fuel (.truncate truncateSize)

/-- The calls for an input that has no room for commands. -/
def executeFallback (stack : Stack) (fuel : ℕ) : Code (BlockMapper σ) Unit := do
  let m ← get
  if m.logicalSize > 0 then do
    let readLen := min (4096 : UInt64).toInt64 (.ofInt m.logicalSize)
    let buf ← firstZeros 4096 readLen.toUInt64
    let _ ← attempt stack fuel (.read buf 0)
    let _ ← attempt stack fuel (.write (.zeros 100) 0)
  else do
    let _ ← attempt stack fuel (.write (.zeros 100) 0)

/-- The recovery and the calls after it. -/
def runOperations (stack : Stack) (fuel : ℕ) (data : Buffer) : Code (BlockMapper σ) Unit := do
  let ok ← attempt stack fuel .init
  if ok then
    if data.size ≥ 32 then executeCommands stack fuel data else executeFallback stack fuel
  else pure ()

end Target

/-- What the system calls of a run of the target do. -/
structure FuzzerCalls where
  /-- `mkstemp` fails. -/
  mkstempFails : Bool
  /-- The outcomes of the `write` calls that put the input into the file. -/
  write : Transfers
  /-- `open` fails. -/
  openFails : Bool
  /-- The outcomes of the `Append`s. -/
  appends : List AppendCalls
  /-- The outcomes of the `pread` calls. -/
  preads : List Transfers
  /-- The outcomes of the `fstat` calls. -/
  fstats : List (Option Errno)
  /-- `unlink` fails. -/
  unlinkFails : Bool

/-- The storage that `LocalStorage::Open` returns for a file. -/
def FuzzerCalls.storage (calls : FuzzerCalls) (file : List UInt8) : LocalStorage :=
  ⟨file, calls.appends, calls.preads, calls.fstats, [], []⟩

/-- The scope of the storage and its mapper, on the temporary file. -/
def withMapper [MetadataProto] (stack : Stack) (fuel : ℕ) (calls : FuzzerCalls) (data : Buffer)
    (file : List UInt8) : Code (Option (List UInt8)) Unit := fun s =>
  if calls.openFails then (.ok (), s)
  else
    let r := runOperations stack fuel data (BlockMapper.new (calls.storage file))
    (r.1, some r.2.storage.file)

/-- `unlink` of the temporary file. -/
def unlinkTemp (calls : FuzzerCalls) : Code (Option (List UInt8)) Unit :=
  if calls.unlinkFails then pure () else set (none : Option (List UInt8))

/-- `LLVMFuzzerTestOneInput`. The state is the content of the temporary file, if there is one. -/
def llvmFuzzerTestOneInput [MetadataProto] (stack : Stack) (fuel : ℕ) (calls : FuzzerCalls)
    (data : Buffer) : Code (Option (List UInt8)) ℤ :=
  if calls.mkstempFails then pure 0
  else
    match LocalStorage.writeLoop calls.write.counts calls.write.failure data.bytes [] with
    | (.error _, file) => do
      set (some file)
      unlinkTemp calls
      pure 0
    | (.ok _, file) => do
      set (some file)
      withMapper stack fuel calls data file
      unlinkTemp calls
      pure 0

/-! ## Programs that end -/

section Ends

variable {σ : Type} [AppendOnlyStorage σ] [SizedStorage σ]

/-- What the calls of a run keep, after `n` of them. -/
structure Fits (n : ℕ) (m : BlockMapper σ) : Prop where
  inBounds : m.InBounds
  size_lt : SizedStorage.size m.storage < 2 ^ 63
  length_le : m.pendingRecords.length ≤ 1000001 * n

/-- A program that makes at most `k` calls ends. -/
def Ends {α : Type} (k : ℕ) (x : Code (BlockMapper σ) α) : Prop :=
  ∀ (n : ℕ) (m : BlockMapper σ), n + k ≤ 2 ^ 43 → Fits n m →
    ∃ a m', x m = (.ok a, m') ∧ Fits (n + k) m'

namespace Ends

variable {α β : Type} {j k : ℕ}

/-- A program that only returns. -/
lemma pure (a : α) : Ends 0 (Pure.pure a : Code (BlockMapper σ) α) :=
  fun _ m _ hm => ⟨a, m, rfl, hm⟩

/-- A program may make fewer calls. -/
lemma mono {x : Code (BlockMapper σ) α} (h : Ends j x) (hjk : j ≤ k) : Ends k x := by
  intro n m hk hm
  obtain ⟨a, m', hx, hm'⟩ := h n m (by omega) hm
  exact ⟨a, m', hx, hm'.inBounds, hm'.size_lt, hm'.length_le.trans (by omega)⟩

/-- One program after another. -/
lemma bind {x : Code (BlockMapper σ) α} {f : α → Code (BlockMapper σ) β} (hx : Ends j x)
    (hf : ∀ a, Ends k (f a)) : Ends (j + k) (x >>= f) := by
  intro n m hk hm
  obtain ⟨a, m', hrun, hm'⟩ := hx n m (by omega) hm
  obtain ⟨b, m'', hrest, hm''⟩ := hf a (n + j) m' (by omega) hm'
  exact ⟨b, m'', by rw [Code.bind_ok hrun, hrest], by rwa [← Nat.add_assoc]⟩

end Ends

/-- A call that does not append to the storage. -/
def Call.Local : Call → Prop
  | .init => False
  | .sync => False
  | _ => True

variable [MetadataProto]

/-- A call that fits returns. -/
lemma attempt_ok (htyped : MetadataProto.Typed) (stack : Stack) {fuel : ℕ}
    (hfuel : 2 ^ 63 ≤ fuel) (c : Call) {n : ℕ} (hn : n < 2 ^ 43) {m : BlockMapper σ}
    (hm : Fits n m) (hlog : SizedStorage.size (c.exact.run m).2.storage < 2 ^ 63) :
    ∃ ok, attempt stack fuel c m = (.ok ok, (c.exact.run m).2) ∧
      Fits (n + 1) (c.exact.run m).2 := by
  obtain ⟨hbounds, -, hpending⟩ := hm.inBounds.call c.exact
  have hlength := hm.length_le
  have hfits : Fits (n + 1) (c.exact.run m).2 := ⟨hbounds, hlog, by omega⟩
  have hrun := call_refines htyped stack hfuel c hm.inBounds (by omega) hlog
  rw [attempt, hrun]
  generalize c.exact.run m = r at hfits ⊢
  obtain ⟨(result | result), m'⟩ := r <;> cases result <;> exact ⟨_, rfl, hfits⟩

/-- A call that does not append to the storage keeps its size. -/
lemma size_of_local {c : Call} (hc : c.Local) {m : BlockMapper σ} (hm : m.InBounds) :
    SizedStorage.size (c.exact.run m).2.storage = SizedStorage.size m.storage := by
  cases c with
  | init => exact hc.elim
  | sync => exact hc.elim
  | read buf logicalOffset => exact (hm.read buf.bytes.length logicalOffset.toInt).2.1
  | write buf logicalOffset => exact (hm.write buf.bytes logicalOffset.toInt).2.1
  | truncate newSize => exact congrArg SizedStorage.size (hm.truncate newSize.toInt).2.1

/-- A call that does not append to the storage ends. -/
lemma Ends.attempt (htyped : MetadataProto.Typed) (stack : Stack) {fuel : ℕ}
    (hfuel : 2 ^ 63 ≤ fuel) {c : Call} (hc : c.Local) :
    Ends 1 (FixedWidth.attempt (σ := σ) stack fuel c) := by
  intro n m hn hm
  obtain ⟨ok, hrun, hfits⟩ := attempt_ok htyped stack hfuel c (by omega) hm
    (size_of_local hc hm.inBounds ▸ hm.size_lt)
  exact ⟨ok, _, hrun, hfits⟩

end Ends

/-! ## The target -/

section Operations

variable {σ : Type} [AppendOnlyStorage σ] [SizedStorage σ] [MetadataProto]

omit [MetadataProto] in
/-- A copy of four bytes out of a buffer. -/
lemma loadUInt32_eq {S : Type} {source : List UInt8} {position : ℕ}
    (h : position + 4 ≤ source.length) (hlt : source.length < 2 ^ 64) :
    loadUInt32 source position =
      (pure (UInt32.ofNat (ofLE (slice position 4 source))) : Code S UInt32) := by
  rw [loadUInt32, show (4 : UInt64) = .ofNat 4 from rfl, load_eq h hlt, pure_bind]

/-- The read command ends. -/
lemma ends_executeRead (htyped : MetadataProto.Typed) (stack : Stack) {fuel : ℕ}
    (hfuel : 2 ^ 63 ≤ fuel) (readLen : UInt32) (readOffset : Int64) :
    Ends 1 (executeRead (σ := σ) stack fuel readLen readOffset) := by
  rw [executeRead]
  split_ifs
  · exact (Ends.attempt htyped stack hfuel (by trivial)).bind fun _ => .pure ()
  · exact (Ends.pure ()).mono (Nat.zero_le 1)

/-- The write command ends. -/
lemma ends_executeWrite (htyped : MetadataProto.Typed) (stack : Stack) {fuel : ℕ}
    (hfuel : 2 ^ 63 ≤ fuel) (writeLen : UInt32) (writeOffset : Int64) :
    Ends 1 (executeWrite (σ := σ) stack fuel writeLen writeOffset) := by
  rw [executeWrite]
  split_ifs
  · exact (Ends.attempt htyped stack hfuel (by trivial)).bind fun _ => .pure ()
  · exact (Ends.pure ()).mono (Nat.zero_le 1)

/-- The commands are read from the input, and end. -/
lemma ends_executeCommands (htyped : MetadataProto.Typed) (stack : Stack) {fuel : ℕ}
    (hfuel : 2 ^ 63 ≤ fuel) {data : Buffer} (hdata : 32 ≤ data.bytes.length) :
    Ends 3 (executeCommands (σ := σ) stack fuel data) := by
  have hlt := data.length_lt
  obtain ⟨k, hk⟩ : ∃ k, data.bytes.length = k + 32 := ⟨data.bytes.length - 32, by omega⟩
  have hcmd : ((data.size - 32).toNat : ℤ) = k := by
    have hsize : data.size.toNat = k + 32 := by rw [Buffer.size, toNat_ofNat hlt, hk]
    have hle : (32 : UInt64) ≤ data.size := by
      rw [UInt64.le_iff_toNat_le, hsize]
      exact Nat.le_add_left 32 k
    rw [UInt64.toNat_sub_of_le _ _ hle, hsize]
    rfl
  have h8 : (k : ℤ) + 8 = (k + 8 : ℕ) := rfl
  have h12 : (k : ℤ) + 12 = (k + 12 : ℕ) := rfl
  have h20 : (k : ℤ) + 20 = (k + 20 : ℕ) := rfl
  have h24 : (k : ℤ) + 24 = (k + 24 : ℕ) := rfl
  rw [executeCommands, hcmd, h8, h12, h20, h24, loadInt64_eq (by omega) hlt, pure_bind,
    loadUInt32_eq (by omega) hlt, pure_bind, loadInt64_eq (by omega) hlt, pure_bind,
    loadUInt32_eq (by omega) hlt, pure_bind, loadInt64_eq (by omega) hlt, pure_bind]
  exact (ends_executeRead htyped stack hfuel _ _).bind fun _ =>
    (ends_executeWrite htyped stack hfuel _ _).bind fun _ =>
      (Ends.attempt htyped stack hfuel (by trivial)).bind fun _ => .pure ()

/-- The calls without commands end: the read asks for at most the buffer that it has. -/
lemma ends_executeFallback (htyped : MetadataProto.Typed) (stack : Stack) {fuel : ℕ}
    (hfuel : 2 ^ 63 ≤ fuel) : Ends 2 (executeFallback (σ := σ) stack fuel) := by
  have hwrite : Ends 1 (FixedWidth.attempt (σ := σ) stack fuel (.write (.zeros 100) 0)) :=
    Ends.attempt htyped stack hfuel trivial
  intro n m hn hm
  rw [executeFallback, Code.get_bind]
  by_cases hpos : m.logicalSize > 0
  · rw [if_pos hpos]
    have hupper := hm.inBounds.within.size_upper
    obtain ⟨size, hsize⟩ : ∃ size : ℕ, m.logicalSize = size := ⟨m.logicalSize.toNat, by omega⟩
    have hsize' : m.logicalSize ≤ 1000000 * 4096 := hupper
    have hmin : min (4096 : UInt64).toInt64 (.ofInt m.logicalSize) = .ofNat (min 4096 size) := by
      rw [hsize, Int64.ofInt_eq_ofNat]
      exact min_ofNat (by decide) (by omega)
    have hlen : (Int64.ofNat (min 4096 size)).toUInt64.toNat ≤ (4096 : UInt64).toNat := by
      rw [toNat_toUInt64 (by omega)]
      exact min_le_left _ _
    rw [hmin, firstZeros, if_pos hlen, pure_bind]
    exact ((Ends.attempt htyped stack hfuel (by trivial)).bind fun _ =>
      hwrite.bind fun _ => .pure ()) n m hn hm
  · rw [if_neg hpos]
    exact ((hwrite.bind fun _ => .pure ()).mono (by decide)) n m hn hm

/-- **The recovery and the calls after it end**, on any storage with room for the padding. -/
lemma ends_runOperations (htyped : MetadataProto.Typed) (stack : Stack) {fuel : ℕ}
    (hfuel : 2 ^ 63 ≤ fuel) (data : Buffer) {s : σ} (hs : SizedStorage.Consistent s)
    (hsize : SizedStorage.size s + 4104 < 2 ^ 63) :
    ∃ m', runOperations stack fuel data (BlockMapper.new s) = (.ok (), m') := by
  have hlt := data.length_lt
  have hnew : BlockMapper.InBounds (BlockMapper.new s) := .new hs
  have hfits : Fits 0 (BlockMapper.new s) :=
    ⟨hnew, by show SizedStorage.size s < 2 ^ 63; omega, le_rfl⟩
  have hpad : SizedStorage.size (BlockMapper.new s).init.2.storage ≤ SizedStorage.size s + 4104 :=
    hnew.init.2.2.1
  obtain ⟨ok, hinit, hfits⟩ := attempt_ok htyped stack hfuel .init (by decide) hfits
    (show SizedStorage.size (BlockMapper.new s).init.2.storage < 2 ^ 63 by omega)
  rw [runOperations, Code.bind_ok hinit]
  cases ok with
  | false => exact ⟨_, rfl⟩
  | true =>
    rw [if_pos rfl]
    by_cases hcmd : data.size ≥ 32
    · have hlen : 32 ≤ data.bytes.length := by
        rw [ge_iff_le, UInt64.le_iff_toNat_le, Buffer.size, toNat_ofNat hlt] at hcmd
        exact hcmd
      rw [if_pos hcmd]
      obtain ⟨u, m', hrun, -⟩ := ends_executeCommands htyped stack hfuel hlen
        _ _ (by decide) hfits
      exact ⟨m', hrun⟩
    · rw [if_neg hcmd]
      obtain ⟨u, m', hrun, -⟩ := ends_executeFallback htyped stack hfuel
        _ _ (by decide) hfits
      exact ⟨m', hrun⟩

end Operations

/-- **The fuzz target finds nothing.** Whatever the input is, local arrays start with, and each
system call does (short and interrupted writes, failures of any call, also in the middle of an
`Append`), a run does nothing undefined, ends each loop and returns 0; and it leaves no temporary
file if `unlink` works.

**Proof sketch.** The file holds the input, so the log has room for the padding of `Init`. After a
recovery that succeeds, each call is one on a mapper in bounds (`call_refines`), and the commands
lie in the input. -/
theorem llvmFuzzerTestOneInput_ends [MetadataProto] (htyped : MetadataProto.Typed) (stack : Stack)
    {fuel : ℕ} (hfuel : 2 ^ 63 ≤ fuel) (calls : FuzzerCalls) (data : Buffer)
    (hdata : data.bytes.length + 4104 < 2 ^ 63) :
    (llvmFuzzerTestOneInput stack fuel calls data none).1 = .ok 0 ∧
      (calls.unlinkFails = false →
        (llvmFuzzerTestOneInput stack fuel calls data none).2 = none) := by
  have hunlink : ∀ {s : Option (List UInt8)}, ∃ t, unlinkTemp calls s = (.ok (), t) ∧
      (calls.unlinkFails = false → t = none) := by
    intro s
    rw [unlinkTemp]
    cases calls.unlinkFails with
    | true => exact ⟨s, rfl, fun h => absurd h (by decide)⟩
    | false => exact ⟨none, rfl, fun _ => rfl⟩
  have hset : ∀ (file : List UInt8) (s : Option (List UInt8)),
      (set (some file) : Code (Option (List UInt8)) PUnit) s = (.ok (), some file) :=
    fun _ _ => rfl
  rw [llvmFuzzerTestOneInput]
  by_cases hmkstemp : calls.mkstempFails = true
  · rw [if_pos hmkstemp]
    exact ⟨rfl, fun _ => rfl⟩
  rw [if_neg hmkstemp]
  obtain ⟨hok, herr⟩ :=
    LocalStorage.writeLoop_spec calls.write.counts calls.write.failure data.bytes []
  by_cases hfull : calls.write.failure = none ∨ data.bytes.length ≤ calls.write.capacity
  · -- the file holds the input
    rw [hok hfull, List.nil_append]
    dsimp only
    obtain ⟨m', hrun⟩ := ends_runOperations htyped stack hfuel data
      (s := calls.storage data.bytes) trivial hdata
    have hmapper : ∃ t, withMapper stack fuel calls data data.bytes (some data.bytes) =
        (.ok (), t) := by
      rw [withMapper]
      split_ifs
      · exact ⟨_, rfl⟩
      · rw [hrun]
        exact ⟨_, rfl⟩
    obtain ⟨t, ht⟩ := hmapper
    obtain ⟨u, hu, hgone⟩ := hunlink (s := t)
    rw [Code.bind_ok (hset _ _), Code.bind_ok ht, Code.bind_ok hu]
    exact ⟨rfl, hgone⟩
  · obtain ⟨hfails, hlt⟩ := not_or.mp hfull
    obtain ⟨e, he⟩ := herr hfails (not_le.mp hlt)
    obtain ⟨u, hu, hgone⟩ := hunlink (s := some ([] ++ data.bytes.take calls.write.capacity))
    rw [he]
    dsimp only
    rw [Code.bind_ok (hset _ _), Code.bind_ok hu]
    exact ⟨rfl, hgone⟩

/-- `llvmFuzzerTestOneInput_ends` for an input of one byte, on a disk that has room for one byte of
the padding. -/
theorem llvmFuzzerTestOneInput_ends_full_disk :
    letI := wireProto
    let calls : FuzzerCalls := ⟨false, .all, false, fullDisk.appends, [], [], false⟩
    (llvmFuzzerTestOneInput Stack.zeros (2 ^ 63) calls ⟨[7], by decide⟩ none).1 = .ok 0 ∧
      (llvmFuzzerTestOneInput Stack.zeros (2 ^ 63) calls ⟨[7], by decide⟩ none).2 = none := by
  let _ := wireProto
  intro calls
  obtain ⟨hreturn, hgone⟩ := llvmFuzzerTestOneInput_ends wireProto_typed Stack.zeros
    (le_refl (2 ^ 63)) calls ⟨[7], by decide⟩ (by decide)
  exact ⟨hreturn, hgone rfl⟩

end FixedWidth

end SqliteGcs
