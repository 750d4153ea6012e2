import SqliteGcs.Frame
import SqliteGcs.Live
import SqliteGcs.Posix

set_option relaxedAutoImplicit false
set_option autoImplicit false

/-!
# The file storage

`LocalStorage` of `local_storage.cc`, the storage over a file descriptor. `Append` writes a buffer
in a loop of `write` calls; a call that fails ends the loop and leaves the bytes that the calls
before it wrote in the file.

The mapper relies on records starting at multiples of 4105. `Init` pads a file that ends in the
middle of a record, but a session that goes on after an `Append` failed in the middle of a record
does not: its next `Append` starts behind the partial record, and recovery reads the log shifted.
This file proves that the records of a session are aligned exactly if no `Append` follows such a
torn one, and that recovery then finds every batch whose `Sync` succeeded.

## Main definitions

* `SqliteGcs.LocalStorage` — the file, and the outcomes of the coming calls.
* `SqliteGcs.Appended` — a call of `Append`, and `SqliteGcs.Appended.Torn` — it failed in the
  middle of its buffer.
* `SqliteGcs.Appending` — the invariant of a session.

## Main results

* `SqliteGcs.LocalStorage.append_spec` — what an `Append` leaves in the file.
* `SqliteGcs.records_aligned_iff` — when the records of a session are aligned.
* `SqliteGcs.torn_append_misaligns` — a retried `Sync` acknowledges a batch that recovery does not
  find.
-/

namespace SqliteGcs

open Bytes PageTable BlockMapper

/-! ## The storage -/

/-- The outcomes of the system calls of one `Append`. -/
structure AppendCalls where
  /-- The failure of `lseek`, if it fails. -/
  lseek : Option Errno
  /-- The outcomes of the `write` calls. -/
  write : Transfers

/-- A call of `Append` that was made. -/
structure Appended where
  /-- The end of the file when the call was made. -/
  offset : ℕ
  /-- The buffer. -/
  data : List UInt8
  /-- The outcomes of its system calls. -/
  calls : AppendCalls

/-- `LocalStorage`: the file behind `fd_`, and what the coming system calls on it do. Calls beyond
the end of a list succeed and transfer all they are asked for. -/
structure LocalStorage where
  /-- The content of the file. -/
  file : List UInt8
  /-- The outcomes of the coming `Append`s. -/
  appends : List AppendCalls
  /-- The outcomes of the `pread` calls of the coming `PRead`s. -/
  preads : List Transfers
  /-- The outcomes of the coming `fstat` calls. -/
  fstats : List (Option Errno)
  /-- The outcomes of the coming `fsync` calls. -/
  fsyncs : List (Option Errno)
  /-- The `Append`s made so far. The code does not have this list; it is what claims about the
  calls of a session are stated with. -/
  appended : List Appended

namespace LocalStorage

/-- `Open` on a file, with system calls that do not fail. -/
def ofFile (file : List UInt8) : LocalStorage := ⟨file, [], [], [], [], []⟩

/-- The loop of `Append`: the status, and the file when it ends. -/
def writeLoop :
    List (Option ℕ) → Option Errno → List UInt8 → List UInt8 → Except Status Unit × List UInt8
  | [], failure, data, file =>
    if data.length > 0 then
      match failure with
      | some errno => (.error (errno "Failed to write to file"), file)
      | none => (.ok (), file ++ data)
    else (.ok (), file)
  | none :: counts, failure, data, file =>
    if data.length > 0 then writeLoop counts failure data file else (.ok (), file)
  | some k :: counts, failure, data, file =>
    if data.length > 0 then
      let res := Transfer.count k data.length data.length
      writeLoop counts failure (data.drop res) (file ++ data.take res)
    else (.ok (), file)

/-- `Append`. -/
def append (data : List UInt8) (s : LocalStorage) : Except Status ℤ × LocalStorage :=
  let calls := s.appends.headD ⟨none, .all⟩
  let s := { s with
    appends := s.appends.tail
    appended := s.appended ++ [⟨s.file.length, data, calls⟩] }
  match calls.lseek with
  | some errno => (.error (errno "Failed to lseek to end of file"), s)
  | none =>
    let offset : ℤ := s.file.length
    if data.length = 0 then (.ok offset, s)
    else
      match writeLoop calls.write.counts calls.write.failure data s.file with
      | (.error e, file) => (.error e, { s with file := file })
      | (.ok _, file) => (.ok offset, { s with file := file })

/-- The loop of `PRead`, from position `offset` on: the bytes read. -/
def readLoop (file : List UInt8) :
    List (Option ℕ) → Option Errno → ℕ → ℕ → Except Status (List UInt8)
  | [], failure, size, offset =>
    if size > 0 then
      match failure with
      | some errno => .error (errno "Failed to pread from file")
      | none => .ok (slice offset size file)
    else .ok []
  | none :: counts, failure, size, offset =>
    if size > 0 then readLoop file counts failure size offset else .ok []
  | some k :: counts, failure, size, offset =>
    if size > 0 then
      let res := Transfer.count k size (file.length - offset)
      -- a call that reads nothing has reached the end of the file
      if res = 0 then .ok []
      else
        match readLoop file counts failure (size - res) (offset + res) with
        | .error e => .error e
        | .ok rest => .ok (slice offset res file ++ rest)
    else .ok []

/-- `PRead`. -/
def pRead (size : ℕ) (offset : ℤ) (s : LocalStorage) :
    Except Status (List UInt8) × LocalStorage :=
  if offset < 0 then (.error ⟨.invalidArgument, "Offset cannot be negative"⟩, s)
  else
    let calls := s.preads.headD .all
    (readLoop s.file calls.counts calls.failure size offset.toNat,
      { s with preads := s.preads.tail })

/-- `GetSize`. -/
def getSize (s : LocalStorage) : Except Status ℤ × LocalStorage :=
  match s.fstats.headD none with
  | some errno => (.error (errno "Failed to fstat file"), { s with fstats := s.fstats.tail })
  | none => (.ok s.file.length, { s with fstats := s.fstats.tail })

/-- `Sync`. -/
def sync (s : LocalStorage) : Except Status Unit × LocalStorage :=
  match s.fsyncs.headD none with
  | some errno => (.error (errno "Failed to fsync"), { s with fsyncs := s.fsyncs.tail })
  | none => (.ok (), { s with fsyncs := s.fsyncs.tail })

end LocalStorage

/-! ## What an `Append` leaves in the file -/

/-- How many bytes of a buffer of the given size reach the file. -/
def AppendCalls.written (calls : AppendCalls) (size : ℕ) : ℕ :=
  if calls.lseek.isSome then 0
  else if calls.write.failure.isSome then min calls.write.capacity size
  else size

/-- A `write` call fails after calls before it wrote a part of the buffer. -/
def AppendCalls.Torn (calls : AppendCalls) (size : ℕ) : Prop :=
  calls.lseek = none ∧ calls.write.failure ≠ none ∧ 0 < calls.write.capacity ∧
    calls.write.capacity < size

/-- The bytes that the call added to the file. -/
def Appended.bytes (a : Appended) : List UInt8 := a.data.take (a.calls.written a.data.length)

/-- The call added its whole buffer to the file. -/
def Appended.Complete (a : Appended) : Prop := a.calls.written a.data.length = a.data.length

instance (a : Appended) : Decidable a.Complete := inferInstanceAs (Decidable (_ = _))

/-- The call failed after it had added a part of its buffer to the file. -/
def Appended.Torn (a : Appended) : Prop := a.calls.Torn a.data.length

/-- A torn call is one that writes a part of its buffer. -/
lemma AppendCalls.torn_iff (calls : AppendCalls) (size : ℕ) :
    calls.Torn size ↔ 0 < calls.written size ∧ calls.written size < size := by
  unfold AppendCalls.Torn AppendCalls.written
  cases calls.lseek with
  | some errno => simp
  | none =>
    cases calls.write.failure with
    | some errno =>
      simp only [Option.isSome_none, Option.isSome_some, Bool.false_eq_true, ↓reduceIte, ne_eq,
        reduceCtorEq, not_false_eq_true, true_and]
      omega
    | none => simp

/-- A call that added its whole buffer is not torn. -/
lemma Appended.Complete.not_torn {a : Appended} (h : a.Complete) : ¬ a.Torn := by
  rw [Appended.Torn, AppendCalls.torn_iff, h]
  omega

namespace LocalStorage

/-- The loop of `Append` writes what the calls before a failure can. -/
lemma writeLoop_spec (counts : List (Option ℕ)) (failure : Option Errno) (data file : List UInt8) :
    (failure = none ∨ data.length ≤ Transfers.capacity ⟨counts, failure⟩ →
      writeLoop counts failure data file = (.ok (), file ++ data)) ∧
    (failure ≠ none → Transfers.capacity ⟨counts, failure⟩ < data.length →
      ∃ e, writeLoop counts failure data file =
        (.error e, file ++ data.take (Transfers.capacity ⟨counts, failure⟩))) := by
  induction counts generalizing data file with
  | nil =>
    have hcap : Transfers.capacity ⟨[], failure⟩ = 0 := rfl
    rw [hcap]
    unfold writeLoop
    by_cases hpos : data.length > 0
    · rw [if_pos hpos]
      constructor
      · rintro (rfl | hle)
        · rfl
        · omega
      · intro hne _
        obtain ⟨errno, rfl⟩ := Option.ne_none_iff_exists'.mp hne
        exact ⟨_, by rw [List.take_zero, List.append_nil]⟩
    · rw [if_neg hpos]
      obtain rfl : data = [] := List.length_eq_zero_iff.mp (by omega)
      exact ⟨fun _ => by rw [List.append_nil], fun _ h => absurd h (Nat.not_lt_zero 0)⟩
  | cons count counts ih =>
    cases count with
    | none =>
      -- an interrupted call changes nothing
      have hcap : Transfers.capacity ⟨none :: counts, failure⟩ =
          Transfers.capacity ⟨counts, failure⟩ := Nat.zero_add _
      rw [hcap, writeLoop]
      by_cases hpos : data.length > 0
      · rw [if_pos hpos]
        exact ih data file
      · rw [if_neg hpos]
        obtain rfl : data = [] := List.length_eq_zero_iff.mp (by omega)
        exact ⟨fun _ => by rw [List.append_nil], fun _ h => absurd h (Nat.not_lt_zero _)⟩
    | some k =>
      have hcap : Transfers.capacity ⟨some k :: counts, failure⟩ =
          k + 1 + Transfers.capacity ⟨counts, failure⟩ := rfl
      rw [hcap, writeLoop]
      by_cases hpos : data.length > 0
      · rw [if_pos hpos]
        dsimp only
        obtain ⟨res, hres⟩ : ∃ res, res = Transfer.count k data.length data.length := ⟨_, rfl⟩
        rw [← hres]
        unfold Transfer.count at hres
        obtain ⟨ih1, ih2⟩ := ih (data.drop res) (file ++ data.take res)
        rw [List.length_drop] at ih1 ih2
        constructor
        · intro h
          rw [ih1 (h.imp id fun hle => by omega), List.append_assoc, List.take_append_drop]
        · intro hne hlt
          obtain ⟨e, he⟩ := ih2 hne (by omega)
          refine ⟨e, ?_⟩
          have hk : res = k + 1 := by omega
          rw [he, ← hk, List.append_assoc, List.take_add]
      · rw [if_neg hpos]
        obtain rfl : data = [] := List.length_eq_zero_iff.mp (by omega)
        exact ⟨fun _ => by rw [List.append_nil], fun _ h => absurd h (Nat.not_lt_zero _)⟩

/-- **What an `Append` leaves in the file**: the part of the buffer that the calls wrote. It
succeeds exactly if that is the whole buffer, and returns the old end of the file. -/
theorem append_spec {data : List UInt8} (hne : data ≠ []) (s : LocalStorage) :
    ∃ a : Appended, a.offset = s.file.length ∧ a.data = data ∧
      a.calls = s.appends.headD ⟨none, .all⟩ ∧
      (append data s).2 = { s with
        file := s.file ++ a.bytes
        appends := s.appends.tail
        appended := s.appended ++ [a] } ∧
      ((append data s).1 = .ok (s.file.length : ℤ) ∧ a.Complete ∨
        (∃ e, (append data s).1 = .error e) ∧ ¬ a.Complete) := by
  have hpos := List.length_pos_iff.mpr hne
  obtain ⟨calls, hcalls⟩ : ∃ calls, calls = s.appends.headD ⟨none, .all⟩ := ⟨_, rfl⟩
  refine ⟨⟨s.file.length, data, calls⟩, rfl, rfl, hcalls, ?_⟩
  rw [append]
  dsimp only
  rw [← hcalls]
  unfold Appended.bytes Appended.Complete AppendCalls.written
  dsimp only
  cases hl : calls.lseek with
  | some errno =>
    dsimp only [Option.isSome_some]
    rw [if_pos rfl, List.take_zero, List.append_nil]
    exact ⟨rfl, Or.inr ⟨⟨_, rfl⟩, by omega⟩⟩
  | none =>
    dsimp only [Option.isSome_none]
    rw [if_neg Bool.false_ne_true, if_neg (by omega)]
    obtain ⟨hok, herr⟩ := writeLoop_spec calls.write.counts calls.write.failure data s.file
    by_cases hfull : calls.write.failure = none ∨ data.length ≤ calls.write.capacity
    · rw [hok hfull]
      have hall : (if calls.write.failure.isSome = true then
          min calls.write.capacity data.length else data.length) = data.length := by
        rcases hfull with hnone | hle
        · rw [hnone]
          rfl
        · rw [min_eq_right hle, ite_self]
      rw [hall, List.take_length]
      exact ⟨rfl, Or.inl ⟨rfl, rfl⟩⟩
    · obtain ⟨hsome, hlt⟩ := not_or.mp hfull
      obtain ⟨e, he⟩ := herr hsome (not_le.mp hlt)
      rw [he, if_pos (Option.isSome_iff_ne_none.mpr hsome), min_eq_left (by omega)]
      exact ⟨rfl, Or.inr ⟨⟨e, rfl⟩, by omega⟩⟩

/-- An `Append` of nothing leaves the file alone. -/
lemma append_nil (s : LocalStorage) :
    (append [] s).2.file = s.file ∧ (append [] s).2.preads = s.preads ∧
      (append [] s).2.fstats = s.fstats ∧ (append [] s).2.appends = s.appends.tail ∧
      ((append [] s).1 = .ok (s.file.length : ℤ) ∨ ∃ e, (append [] s).1 = .error e) := by
  rw [append]
  dsimp only
  cases (s.appends.headD ⟨none, .all⟩).lseek with
  | some errno => exact ⟨rfl, rfl, rfl, rfl, Or.inr ⟨_, rfl⟩⟩
  | none => exact ⟨rfl, rfl, rfl, rfl, Or.inl rfl⟩

/-- The loop of `PRead` reads up to the end of the file, unless a call fails. -/
lemma readLoop_spec (file : List UInt8) (counts : List (Option ℕ)) (failure : Option Errno)
    (size offset : ℕ) :
    readLoop file counts failure size offset = .ok (slice offset size file) ∨
      failure ≠ none ∧ ∃ e, readLoop file counts failure size offset = .error e := by
  have hnone : ∀ offset, slice offset 0 file = [] := fun offset => List.take_zero
  induction counts generalizing size offset with
  | nil =>
    unfold readLoop
    split_ifs with hpos
    · cases failure with
      | none => exact Or.inl rfl
      | some errno => exact Or.inr ⟨by simp, _, rfl⟩
    · obtain rfl : size = 0 := by omega
      exact Or.inl (by rw [hnone])
  | cons count counts ih =>
    cases count with
    | none =>
      rw [readLoop]
      split_ifs with hpos
      · exact ih size offset
      · obtain rfl : size = 0 := by omega
        exact Or.inl (by rw [hnone])
    | some k =>
      rw [readLoop]
      split_ifs with hpos
      · dsimp only
        obtain ⟨res, hres⟩ : ∃ res, res = Transfer.count k size (file.length - offset) :=
          ⟨_, rfl⟩
        have hle := Transfer.count_le k size (file.length - offset)
        rw [← hres] at hle ⊢
        by_cases hend : res = 0
        · have heof : file.length ≤ offset := by
            by_contra hlt
            have := Transfer.count_pos (k := k) hpos (by omega : 0 < file.length - offset)
            omega
          rw [if_pos hend, slice, List.drop_eq_nil_of_le heof, List.take_nil]
          exact Or.inl rfl
        · rw [if_neg hend]
          rcases ih (size - res) (offset + res) with hok | ⟨hfail, e, he⟩
          · rw [hok]
            dsimp only
            rw [slice_append_slice, Nat.add_sub_cancel' hle.1]
            exact Or.inl rfl
          · rw [he]
            exact Or.inr ⟨hfail, e, rfl⟩
      · obtain rfl : size = 0 := by omega
        exact Or.inl (by rw [hnone])

/-- `GetSize` does not change the file, and returns its size if it succeeds. -/
lemma getSize_ok (s : LocalStorage) :
    (getSize s).2.file = s.file ∧ ∀ P, (getSize s).1 = .ok P → P = s.file.length := by
  rw [getSize]
  cases s.fstats.headD none with
  | some errno => exact ⟨rfl, fun P h => by cases h⟩
  | none => exact ⟨rfl, fun P h => (Except.ok.inj h).symm⟩

/-- A `PRead` changes neither the file nor the list of `Append`s. -/
lemma pRead_frame (size : ℕ) (offset : ℤ) (s : LocalStorage) :
    ((pRead size offset s).2.file, (pRead size offset s).2.appended) = (s.file, s.appended) := by
  rw [pRead]
  split_ifs <;> rfl

/-- A `PRead` that succeeds has read the bytes of the file. -/
lemma pRead_ok {size offset : ℕ} {s : LocalStorage} {bs : List UInt8}
    (h : (pRead size offset s).1 = .ok bs) : bs = slice offset size s.file := by
  rw [pRead, if_neg (by omega)] at h
  dsimp only at h
  rw [Int.toNat_natCast] at h
  rcases readLoop_spec s.file (s.preads.headD .all).counts (s.preads.headD .all).failure size
    offset with hok | ⟨-, e, he⟩
  · rw [hok] at h
    exact (Except.ok.inj h).symm
  · rw [he] at h
    cases h

/-- The loop of `PRead` for a range inside the file succeeds exactly if its calls deliver it. -/
lemma readLoop_isOk_iff {file : List UInt8} (counts : List (Option ℕ)) (failure : Option Errno)
    {size offset : ℕ} (h : offset + size ≤ file.length) :
    (∃ bs, readLoop file counts failure size offset = .ok bs) ↔
      Transfers.Delivers ⟨counts, failure⟩ size := by
  unfold Transfers.Delivers
  dsimp only
  induction counts generalizing size offset with
  | nil =>
    have hcap : Transfers.capacity ⟨[], failure⟩ = 0 := rfl
    rw [hcap]
    unfold readLoop
    by_cases hpos : size > 0
    · rw [if_pos hpos]
      cases failure with
      | none => exact iff_of_true ⟨_, rfl⟩ (Or.inl rfl)
      | some errno =>
        refine iff_of_false (by simp) fun h => ?_
        rcases h with h | h
        · cases h
        · omega
    · rw [if_neg hpos]
      exact iff_of_true ⟨_, rfl⟩ (Or.inr (by omega))
  | cons count counts ih =>
    by_cases hpos : size > 0
    · cases count with
      | none =>
        have hcap : Transfers.capacity ⟨none :: counts, failure⟩ =
            Transfers.capacity ⟨counts, failure⟩ := Nat.zero_add _
        rw [hcap, readLoop, if_pos hpos]
        exact ih h
      | some k =>
        have hcap : Transfers.capacity ⟨some k :: counts, failure⟩ =
            k + 1 + Transfers.capacity ⟨counts, failure⟩ := rfl
        rw [hcap, readLoop, if_pos hpos]
        dsimp only
        obtain ⟨res, hres⟩ : ∃ res, res = Transfer.count k size (file.length - offset) := ⟨_, rfl⟩
        rw [← hres]
        unfold Transfer.count at hres
        rw [if_neg (by omega)]
        have hfit : offset + res + (size - res) ≤ file.length := by omega
        have hrest := ih hfit
        have hiff : size - res ≤ Transfers.capacity ⟨counts, failure⟩ ↔
            size ≤ k + 1 + Transfers.capacity ⟨counts, failure⟩ := by omega
        rw [hiff] at hrest
        rw [← hrest]
        cases readLoop file counts failure (size - res) (offset + res) with
        | ok rest => exact iff_of_true ⟨_, rfl⟩ ⟨_, rfl⟩
        | error e => exact iff_of_false (by simp) (by simp)
    · have hok : readLoop file (count :: counts) failure size offset = .ok [] := by
        cases count <;> rw [readLoop, if_neg hpos]
      rw [hok]
      exact iff_of_true ⟨_, rfl⟩ (Or.inr (by omega))

/-- The coming `PRead`s and `fstat` calls do not fail, and no coming `Append` is torn. -/
structure Clean (s : LocalStorage) : Prop where
  appends : ∀ calls ∈ s.appends, ∀ size, ¬ calls.Torn size
  preads : ∀ calls ∈ s.preads, calls.failure = none
  fstats : ∀ failure ∈ s.fstats, failure = none

/-- What a clean storage does once it has used up an outcome is clean. -/
lemma Clean.of_tails {s s' : LocalStorage} (h : Clean s)
    (ha : s'.appends = s.appends ∨ s'.appends = s.appends.tail)
    (hp : s'.preads = s.preads ∨ s'.preads = s.preads.tail)
    (hf : s'.fstats = s.fstats ∨ s'.fstats = s.fstats.tail) : Clean s' where
  appends := by
    rcases ha with ha | ha
    · rw [ha]
      exact h.appends
    · rw [ha]
      exact fun calls hc => h.appends calls (List.mem_of_mem_tail hc)
  preads := by
    rcases hp with hp | hp
    · rw [hp]
      exact h.preads
    · rw [hp]
      exact fun calls hc => h.preads calls (List.mem_of_mem_tail hc)
  fstats := by
    rcases hf with hf | hf
    · rw [hf]
      exact h.fstats
    · rw [hf]
      exact fun failure hc => h.fstats failure (List.mem_of_mem_tail hc)

/-- **A file is a log with atomic appends** as long as no read fails and no `Append` is torn. -/
instance : AtomicLog LocalStorage where
  append := append
  pRead := pRead
  getSize := getSize
  sync := sync
  bytes s := s.file
  Valid := Clean
  getSize_spec s hv := by
    have hnone := headD_none hv.fstats
    rw [getSize, hnone]
    exact ⟨rfl, rfl, hv.of_tails (Or.inl rfl) (Or.inl rfl) (Or.inr rfl)⟩
  pRead_spec n off s hv hle := by
    have hnone : (s.preads.headD .all).failure = none :=
      headD_of_forall (p := fun calls : Transfers => calls.failure = none) rfl hv.preads
    rw [pRead, if_neg (by omega)]
    dsimp only
    rw [Int.toNat_natCast]
    rcases readLoop_spec s.file (s.preads.headD .all).counts (s.preads.headD .all).failure n off
      with hok | ⟨hfail, -⟩
    · exact ⟨hok, rfl, hv.of_tails (Or.inl rfl) (Or.inr rfl) (Or.inl rfl)⟩
    · exact absurd hnone hfail
  append_spec data s hv := by
    by_cases hne : data = []
    · subst hne
      obtain ⟨hb, hp, hf, ha, hres⟩ := append_nil s
      refine ⟨hv.of_tails (Or.inr ha) (Or.inl hp) (Or.inl hf), ?_⟩
      rcases hres with hok | herr
      · exact Or.inl ⟨hok, by rw [hb, List.append_nil]⟩
      · exact Or.inr ⟨herr, hb⟩
    · obtain ⟨a, -, rfl, hcalls, hstate, hres⟩ := append_spec hne s
      have hclean : ¬ a.calls.Torn a.data.length := by
        rw [hcalls]
        refine headD_of_forall (p := fun calls : AppendCalls => ¬ calls.Torn a.data.length) ?_
          fun calls hc => hv.appends calls hc a.data.length
        exact fun h => h.2.1 rfl
      rw [AppendCalls.torn_iff] at hclean
      rw [hstate]
      refine ⟨hv.of_tails (Or.inr rfl) (Or.inl rfl) (Or.inl rfl), ?_⟩
      rcases hres with ⟨hok, hc⟩ | ⟨herr, hc⟩
      · refine Or.inl ⟨hok, ?_⟩
        dsimp only
        rw [Appended.bytes, hc, List.take_length]
      · refine Or.inr ⟨herr, ?_⟩
        have hle : a.calls.written a.data.length ≤ a.data.length := by
          unfold AppendCalls.written
          split_ifs <;> omega
        have hzero : a.calls.written a.data.length = 0 := by
          unfold Appended.Complete at hc
          omega
        dsimp only
        rw [Appended.bytes, hzero, List.take_zero, List.append_nil]
  sync_spec s hv := by
    rw [sync]
    cases s.fsyncs.headD none with
    | some errno => exact ⟨rfl, hv.of_tails (Or.inl rfl) (Or.inl rfl) (Or.inl rfl)⟩
    | none => exact ⟨rfl, hv.of_tails (Or.inl rfl) (Or.inl rfl) (Or.inl rfl)⟩

end LocalStorage

/-! ## The calls of a session -/

/-- The calls of `Append` that turn one file into another, one after the other. -/
def Chain : List UInt8 → List Appended → List UInt8 → Prop
  | file, [], file' => file' = file
  | file, a :: as, file' => a.offset = file.length ∧ Chain (file ++ a.bytes) as file'

/-- Calls after calls. -/
lemma Chain.append {file file' file'' : List UInt8} {as bs : List Appended}
    (h : Chain file as file') (h' : Chain file' bs file'') : Chain file (as ++ bs) file'' := by
  induction as generalizing file with
  | nil =>
    obtain rfl := h
    exact h'
  | cons a as ih => exact ⟨h.1, ih h.2⟩

/-- The bytes that a call adds are a first part of its buffer. -/
lemma Appended.length_bytes (a : Appended) :
    a.bytes.length = a.calls.written a.data.length := by
  have hle : a.calls.written a.data.length ≤ a.data.length := by
    unfold AppendCalls.written
    split_ifs <;> omega
  rw [Appended.bytes, List.length_take, min_eq_left hle]

/-- **Calls for whole records are aligned** exactly if none but the last of them is torn.

**Proof sketch.** Induction on the calls. A call starts where the one before ended, and a call for
4105 bytes adds a number of bytes that 4105 divides exactly if it is not torn. -/
lemma Chain.aligned_iff {file file' : List UInt8} {as : List Appended} (h : Chain file as file')
    (hal : file.length % 4105 = 0) (hsize : ∀ a ∈ as, a.data.length = 4105) :
    (∀ a ∈ as, a.offset % 4105 = 0) ↔ ∀ a ∈ as.dropLast, ¬ a.Torn := by
  induction as generalizing file with
  | nil => simp
  | cons a as ih =>
    obtain ⟨hoff, hrest⟩ := h
    have ha : a.offset % 4105 = 0 := by rw [hoff, hal]
    cases as with
    | nil => simpa using ha
    | cons b bs =>
      have hasize := hsize a List.mem_cons_self
      have hlen : (file ++ a.bytes).length = file.length + a.bytes.length := List.length_append
      have hbytes := a.length_bytes
      have htorn : a.Torn ↔ 0 < a.bytes.length ∧ a.bytes.length < 4105 := by
        rw [Appended.Torn, AppendCalls.torn_iff, hbytes, hasize]
      have hle : a.bytes.length ≤ 4105 := by
        rw [Appended.bytes, List.length_take]
        omega
      have hb : b.offset = (file ++ a.bytes).length := hrest.1
      have hsize' : ∀ c ∈ b :: bs, c.data.length = 4105 :=
        fun c hc => hsize c (List.mem_cons_of_mem a hc)
      rw [List.dropLast_cons_cons]
      constructor
      · intro hall c hc
        have hbal := hall b (List.mem_cons_of_mem a List.mem_cons_self)
        rcases List.mem_cons.mp hc with rfl | hc
        · rw [htorn]
          omega
        · exact (ih hrest (by omega) hsize').mp
            (fun c hc => hall c (List.mem_cons_of_mem a hc)) c hc
      · intro hall c hc
        rcases List.mem_cons.mp hc with rfl | hc
        · exact ha
        · have hnot := hall a List.mem_cons_self
          rw [htorn] at hnot
          exact (ih hrest (by omega) hsize').mpr
            (fun c hc => hall c (List.mem_cons_of_mem a hc)) c hc

/-- The buffers of the calls that were completed. -/
def completed (as : List Appended) : List (List UInt8) :=
  (as.filter fun a => a.Complete).map Appended.data

/-- Calls that all complete add all their buffers. -/
lemma completed_append {as as' : List Appended} (h : ∀ a ∈ as', a.Complete) :
    completed (as ++ as') = completed as ++ as'.map Appended.data := by
  have hall : as'.filter (fun a => a.Complete) = as' :=
    List.filter_eq_self.mpr fun a ha => decide_eq_true (h a ha)
  rw [completed, List.filter_append, List.map_append, hall, completed]

/-- Calls none of which is torn add the completed buffers to the file. -/
lemma Chain.file_eq {file file' : List UInt8} {as : List Appended} (h : Chain file as file')
    (htorn : ∀ a ∈ as, ¬ a.Torn) : file' = file ++ (completed as).flatten := by
  induction as generalizing file with
  | nil =>
    obtain rfl := h
    simp [completed]
  | cons a as ih =>
    have hrest := ih h.2 fun b hb => htorn b (List.mem_cons_of_mem a hb)
    have hbytes := a.length_bytes
    have hnot := htorn a List.mem_cons_self
    rw [Appended.Torn, AppendCalls.torn_iff] at hnot
    by_cases hc : a.Complete
    · have hall : a.bytes = a.data := by
        rw [Appended.bytes, hc, List.take_length]
      have hcons : completed (a :: as) = a.data :: completed as := by
        simp [completed, hc]
      rw [hrest, hcons, List.flatten_cons, hall, List.append_assoc]
    · have hnone : a.bytes = [] := by
        have hle : a.bytes.length ≤ a.data.length := by
          rw [Appended.bytes, List.length_take]
          omega
        rw [Appended.Complete] at hc
        exact List.length_eq_zero_iff.mp (by omega)
      have hcons : completed (a :: as) = completed as := by
        simp [completed, hc]
      rw [hrest, hcons, hnone, List.append_nil]

section Session

variable [MetadataProto]

/-- **The invariant of a session** that found the storage `s₀` after its `Init`, and has made the
given calls of `Append` since. -/
structure Appending (s₀ : LocalStorage) (m : BlockMapper LocalStorage) (as : List Appended) :
    Prop where
  initialized : m.initialized = true
  decodes : ∀ pr ∈ m.pendingRecords, pr.Decodes
  appended_eq : m.storage.appended = s₀.appended ++ as
  chain : Chain s₀.file as m.storage.file
  data : ∀ a ∈ as, ∃ pr flag, PendingRecord.Decodes pr ∧ (flag = 1 ∨ flag = 2) ∧
    a.data = pr.encode flag
  retained : ∀ a ∈ as.getLast?, ¬ a.Complete → m.pendingRecords ≠ []

/-- A session that has made no calls. -/
lemma appending_opened (l : Logical) (s : LocalStorage) : Appending s (opened l s) [] where
  initialized := rfl
  decodes := by simp [opened]
  appended_eq := (List.append_nil _).symm
  chain := rfl
  data := by simp
  retained := by simp

/-- `Write` makes no calls of `Append`. -/
lemma Appending.write {s₀ : LocalStorage} {m : BlockMapper LocalStorage} {as : List Appended}
    (h : Appending s₀ m as) (buf : List UInt8) (off : ℤ) :
    Appending s₀ (m.write buf off).2 as := by
  obtain ⟨hi, hs, new, hpending, hnew⟩ := write_frame
    (φ := fun s : LocalStorage => (s.file, s.appended))
    (fun n off s => LocalStorage.pRead_frame n off s) buf off m
  obtain ⟨hfile, happended⟩ := Prod.mk.inj hs
  constructor
  case initialized => rw [hi, h.initialized]
  case decodes =>
    intro pr hpr
    rw [hpending] at hpr
    rcases List.mem_append.mp hpr with hpr | hpr
    · exact h.decodes pr hpr
    · exact hnew pr hpr
  case appended_eq => rw [happended, h.appended_eq]
  case chain => rw [hfile]; exact h.chain
  case data => exact h.data
  case retained =>
    intro a ha hc hnil
    rw [hpending] at hnil
    exact h.retained a ha hc (List.append_eq_nil_iff.mp hnil).1

/-- `Truncate` makes no calls of `Append`. -/
lemma Appending.truncate (hp : MetadataProto.RoundTrips) {s₀ : LocalStorage}
    {m : BlockMapper LocalStorage} {as : List Appended} (h : Appending s₀ m as) (newSize : ℤ) :
    Appending s₀ (m.truncate newSize).2 as := by
  obtain ⟨hi, hs, hdec, hne⟩ := truncate_frame hp h.initialized h.decodes newSize
  constructor
  case initialized => exact hi
  case decodes => exact hdec
  case appended_eq => rw [hs, h.appended_eq]
  case chain => rw [hs]; exact h.chain
  case data => exact h.data
  case retained => exact fun a ha hc => hne (h.retained a ha hc)

/-- **The calls of the loop of `Sync`**: they are made one after the other for records of the
batch, and the loop succeeds if all of them complete.

**Proof sketch.** Induction on the batch, as for `syncLoop_spec`. -/
lemma syncLoop_calls {P : List PendingRecord} (hdec : ∀ pr ∈ P, pr.Decodes)
    (m : BlockMapper LocalStorage) :
    (syncLoop P m).2.initialized = m.initialized ∧
      (syncLoop P m).2.pendingRecords = m.pendingRecords ∧
      ∃ as, (syncLoop P m).2.storage.appended = m.storage.appended ++ as ∧
        Chain m.storage.file as (syncLoop P m).2.storage.file ∧
        (∀ a ∈ as, ∃ pr flag, PendingRecord.Decodes pr ∧ (flag = 1 ∨ flag = 2) ∧
          a.data = pr.encode flag) ∧
        ((syncLoop P m).1 = .ok () → as.map Appended.data = encodeBatch P ∧
          ∀ a ∈ as, a.Complete) := by
  induction P generalizing m with
  | nil => exact ⟨rfl, rfl, [], (List.append_nil _).symm, rfl, by simp, fun _ => ⟨rfl, by simp⟩⟩
  | cons pr rest ih =>
    obtain ⟨flag, hflag⟩ : ∃ flag : UInt8, flag = if rest = [] then 1 else 2 := ⟨_, rfl⟩
    have hflags : flag = 1 ∨ flag = 2 := by
      rw [hflag]
      exact flag_eq_one_or_two _
    have hne : pr.encode flag ≠ [] := by
      rw [← List.length_pos_iff, PendingRecord.length_encode]
      decide
    obtain ⟨a, hoff, hdata, -, hstate, hres⟩ := LocalStorage.append_spec hne m.storage
    have hadata : ∃ pr flag, PendingRecord.Decodes pr ∧ (flag = 1 ∨ flag = 2) ∧
        a.data = pr.encode flag := ⟨pr, flag, hdec pr List.mem_cons_self, hflags, hdata⟩
    have happ : AppendOnlyStorage.append (pr.encode flag) m.storage =
        LocalStorage.append (pr.encode flag) m.storage := rfl
    generalize LocalStorage.append (pr.encode flag) m.storage = p at happ hstate hres
    obtain ⟨r, s⟩ := p
    dsimp only at hstate hres
    rw [hflag] at happ
    have hfile : s.file = m.storage.file ++ a.bytes := by rw [hstate]
    have happended : s.appended = m.storage.appended ++ [a] := by rw [hstate]
    rcases hres with ⟨rfl, hc⟩ | ⟨⟨e, rfl⟩, -⟩
    · rw [syncLoop_cons_ok happ]
      obtain ⟨hi, hpend, as, ha, hchain, hdatas, hok⟩ :=
        ih (fun r hr => hdec r (List.mem_cons_of_mem pr hr)) _
      refine ⟨hi, hpend, a :: as, ?_, ⟨hoff, ?_⟩, ?_, fun h => ?_⟩
      · rw [ha, happended, List.append_assoc]
        rfl
      · rw [← hfile]
        exact hchain
      · exact List.forall_mem_cons.mpr ⟨hadata, hdatas⟩
      · obtain ⟨hmap, hall⟩ := hok h
        refine ⟨?_, List.forall_mem_cons.mpr ⟨hc, hall⟩⟩
        rw [List.map_cons, hmap, encodeBatch, ← hflag, hdata]
    · rw [syncLoop_cons_error happ]
      refine ⟨rfl, rfl, [a], happended, ⟨hoff, hfile⟩, ?_, fun h => ?_⟩
      · intro b hb
        obtain rfl := List.mem_singleton.mp hb
        exact hadata
      · cases h

/-- The final `storage_->Sync()` makes no calls of `Append`. -/
lemma Appending.syncStorage {s₀ : LocalStorage} {m : BlockMapper LocalStorage}
    {as : List Appended} (h : Appending s₀ m as) : Appending s₀ m.syncStorage.2 as := by
  have hsync : (AppendOnlyStorage.sync m.storage).2.file = m.storage.file ∧
      (AppendOnlyStorage.sync m.storage).2.appended = m.storage.appended := by
    show (LocalStorage.sync m.storage).2.file = _ ∧ (LocalStorage.sync m.storage).2.appended = _
    rw [LocalStorage.sync]
    cases m.storage.fsyncs.headD none <;> exact ⟨rfl, rfl⟩
  obtain ⟨hfile, happended⟩ := hsync
  constructor
  case initialized => exact h.initialized
  case decodes => exact h.decodes
  case appended_eq => exact happended.trans h.appended_eq
  case chain =>
    show Chain s₀.file as (AppendOnlyStorage.sync m.storage).2.file
    rw [hfile]
    exact h.chain
  case data => exact h.data
  case retained => exact h.retained

/-- **`Sync` keeps the invariant.** If it succeeds, it has completed the calls for its batch, which
was empty or is not retained. -/
lemma Appending.sync {s₀ : LocalStorage} {m : BlockMapper LocalStorage} {as : List Appended}
    (h : Appending s₀ m as) :
    ∃ as', Appending s₀ m.sync.2 (as ++ as') ∧
      (m.sync.1 = .ok () → m.sync.2.pendingRecords = [] ∧
        as'.map Appended.data = encodeBatch m.pendingRecords ∧ ∀ a ∈ as', a.Complete) := by
  rw [BlockMapper.sync, if_neg (by rw [h.initialized]; decide)]
  by_cases hne : m.pendingRecords = []
  · rw [if_pos hne]
    refine ⟨[], ?_, fun _ => ⟨hne, by rw [hne]; rfl, by simp⟩⟩
    rw [List.append_nil]
    exact h.syncStorage
  · rw [if_neg hne]
    obtain ⟨hi, hpend, as', happended, hchain, hdata, hok⟩ := syncLoop_calls h.decodes m
    generalize syncLoop m.pendingRecords m = p at hi hpend happended hchain hdata hok
    obtain ⟨r, m'⟩ := p
    dsimp only at hi hpend happended hchain hdata hok
    have hdata' : ∀ a ∈ as ++ as', ∃ pr flag, PendingRecord.Decodes pr ∧
        (flag = 1 ∨ flag = 2) ∧ a.data = pr.encode flag := by
      intro a ha
      rcases List.mem_append.mp ha with ha | ha
      · exact h.data a ha
      · exact hdata a ha
    cases r with
    | error e =>
      refine ⟨as', ?_, fun h => by cases h⟩
      constructor
      case initialized => exact hi.trans h.initialized
      case decodes => exact hpend ▸ h.decodes
      case appended_eq => rw [happended, h.appended_eq, List.append_assoc]
      case chain => exact h.chain.append hchain
      case data => exact hdata'
      case retained => exact fun _ _ _ hnil => hne (hpend.symm.trans hnil)
    | ok u =>
      obtain ⟨hmap, hall⟩ := hok rfl
      have hne' : as' ≠ [] := by
        intro hnil
        rw [hnil, List.map_nil] at hmap
        have hlen := length_encodeBatch m.pendingRecords
        rw [← hmap] at hlen
        exact hne (List.length_eq_zero_iff.mp hlen.symm)
      have hdone : Appending s₀ { m' with pendingRecords := [] } (as ++ as') := by
        constructor
        case initialized => exact hi.trans h.initialized
        case decodes => simp
        case appended_eq =>
          dsimp only
          rw [happended, h.appended_eq, List.append_assoc]
        case chain => exact h.chain.append hchain
        case data => exact hdata'
        case retained =>
          intro a ha hc
          rw [List.getLast?_append_of_ne_nil as hne'] at ha
          exact absurd (hall a (List.mem_of_mem_getLast? ha)) hc
      exact ⟨as', hdone.syncStorage, fun _ => ⟨rfl, hmap, hall⟩⟩

/-- **Every call keeps the invariant.** -/
lemma Appending.op (hp : MetadataProto.RoundTrips) {s₀ : LocalStorage}
    {m : BlockMapper LocalStorage} {as : List Appended} (h : Appending s₀ m as) (op : Op) :
    ∃ as', Appending s₀ (op.run m).2 (as ++ as') := by
  cases op with
  | write buf off => exact ⟨[], by rw [List.append_nil]; exact h.write buf off⟩
  | truncate newSize => exact ⟨[], by rw [List.append_nil]; exact h.truncate hp newSize⟩
  | sync =>
    obtain ⟨as', h', -⟩ := h.sync
    exact ⟨as', h'⟩

/-- Every run keeps the invariant. -/
lemma Appending.runOps (hp : MetadataProto.RoundTrips) {s₀ : LocalStorage}
    {m : BlockMapper LocalStorage} {as : List Appended} (h : Appending s₀ m as) (ops : List Op) :
    ∃ as', Appending s₀ (SqliteGcs.runOps ops m) (as ++ as') := by
  induction ops generalizing m as with
  | nil => exact ⟨[], by rw [List.append_nil]; exact h⟩
  | cons op ops ih =>
    obtain ⟨as₁, h₁⟩ := h.op hp op
    obtain ⟨as₂, h₂⟩ := ih h₁
    exact ⟨as₁ ++ as₂, by rw [← List.append_assoc]; exact h₂⟩

omit [MetadataProto] in
/-- If the padding step succeeds, it has padded the file to whole records. -/
lemma padStorage_ok {s : LocalStorage} {P : ℤ} (h : (padStorage s).1 = .ok P) :
    P = (padStorage s).2.file.length ∧ (padStorage s).2.file = padded s.file := by
  have hget : ∀ s : LocalStorage, AppendOnlyStorage.getSize s = LocalStorage.getSize s :=
    fun _ => rfl
  obtain ⟨hfile, hsize⟩ := LocalStorage.getSize_ok s
  rw [padStorage, hget] at h ⊢
  generalize LocalStorage.getSize s = p at h hfile hsize
  obtain ⟨r, s₁⟩ := p
  cases r with
  | error e => cases h
  | ok P₀ =>
    obtain rfl := hsize P₀ rfl
    dsimp only at h hfile ⊢
    by_cases hal : (s.file.length : ℤ) % 4105 ≠ 0
    · rw [if_pos hal] at h ⊢
      obtain ⟨pad, hpad⟩ : ∃ pad : List UInt8,
          pad = List.replicate (4105 - (s.file.length : ℤ) % 4105).toNat 0 := ⟨_, rfl⟩
      have hlen : pad.length = (4105 - (s.file.length : ℤ) % 4105).toNat := by
        rw [hpad, List.length_replicate]
      have hne : pad ≠ [] := by
        rw [← List.length_pos_iff, hlen]
        omega
      obtain ⟨a, -, hdata, -, hstate, hres⟩ := LocalStorage.append_spec hne s₁
      have happ : AppendOnlyStorage.append pad s₁ = LocalStorage.append pad s₁ := rfl
      rw [← hpad, happ] at h ⊢
      generalize LocalStorage.append pad s₁ = p at h hstate hres
      obtain ⟨r, s₂⟩ := p
      dsimp only at hstate hres
      rcases hres with ⟨rfl, hc⟩ | ⟨⟨e, rfl⟩, -⟩
      · dsimp only at h ⊢
        rw [hget] at h ⊢
        obtain ⟨hfile', hsize'⟩ := LocalStorage.getSize_ok s₂
        have hgrow : s₂.file = s.file ++ pad := by
          rw [hstate, ← hfile]
          dsimp only
          rw [Appended.bytes, hc, List.take_length, hdata]
        refine ⟨(hsize' P h).trans (by rw [hfile']), ?_⟩
        have hcount : (4105 - (s.file.length : ℤ) % 4105).toNat =
            (4105 - s.file.length % 4105) % 4105 := by omega
        rw [hfile', hgrow, hpad, hcount]
        rfl
      · cases h
    · rw [if_neg hal] at h ⊢
      dsimp only at h ⊢
      refine ⟨(Except.ok.inj h).symm.trans (by rw [hfile]), ?_⟩
      rw [hfile, padded_of_aligned (by omega)]

/-- **A successful `Init` on a file** has padded it to whole records, and found the records of the
padded file valid. -/
lemma init_file {s : LocalStorage} (h : (init (new s)).1 = .ok ()) :
    ∃ recs s', (init (new s)).2 = opened (recovered recs) s' ∧ s'.file = padded s.file ∧
      records s'.file = .ok recs := by
  have hread : ∀ n off s, (AppendOnlyStorage.pRead (σ := LocalStorage) n off s).2.file = s.file :=
    fun n off s => congrArg Prod.fst (LocalStorage.pRead_frame n off s)
  cases hsc : (scanStorage s).1 with
  | error e =>
    rw [init_of_error hsc] at h
    cases h
  | ok recs =>
    have hinit : (init (new s)).2 = opened (recovered recs) (scanStorage s).2 := by
      generalize hq : scanStorage s = q at hsc
      obtain ⟨r, s₁⟩ := q
      obtain rfl : r = .ok recs := hsc
      simp only [init, new, hq, appliedPass_eq, applyRecords_eq, Bool.false_eq_true, ↓reduceIte]
      rfl
    refine ⟨recs, (scanStorage s).2, hinit, ?_⟩
    rw [scanStorage] at hsc ⊢
    cases hpad : (padStorage s).1 with
    | error e =>
      generalize padStorage s = p at hsc hpad
      obtain ⟨r, s₁⟩ := p
      obtain rfl : r = .error e := hpad
      cases hsc
    | ok P =>
      obtain ⟨hP, hpadded⟩ := padStorage_ok hpad
      have hal : (padStorage s).2.file.length % 4105 = 0 := by
        rw [hpadded, length_padded]
        omega
      generalize padStorage s = p at hsc hpad hP hal hpadded
      obtain ⟨r, s₁⟩ := p
      obtain rfl : r = .ok P := hpad
      dsimp only at hsc hP hal hpadded ⊢
      have hfile := scan_frame (φ := LocalStorage.file) hread P P.toNat 0 s₁
      rw [hfile]
      refine ⟨hpadded, ?_⟩
      have hlen : s₁.file.length = 4105 * (0 + s₁.file.length / 4105) := by omega
      obtain ⟨fuel, hfuel⟩ : ∃ fuel, fuel = P.toNat := ⟨_, rfl⟩
      have henough : s₁.file.length / 4105 ≤ fuel := by omega
      rw [← hfuel, hP, hlen] at hsc
      have hrecs := scan_ok (φ := LocalStorage.file) hread
        (fun n off s bs hbs => LocalStorage.pRead_ok hbs) (i := 0) hlen henough hsc
      exact hrecs

/-- The records of a batch at the end of a log are all applied. -/
lemma verdicts_batch (P : List PendingRecord) (offset : ℤ) :
    TxnLog.verdicts mark (batchRecords offset P) false = List.replicate P.length true := by
  induction P generalizing offset with
  | nil => rfl
  | cons pr rest ih =>
    have hcarry : TxnLog.carry mark (batchRecords offset (pr :: rest)) false = true := by
      rw [TxnLog.carry_of_settled mark (by simpa using settled_batchRecords (by simp) offset [])
        (by simp [batchRecords]) false true]
      exact (TxnLog.committed_of_forall mark fun rec hrec => mark_of_mem_batchRecords rec hrec).2
    rw [batchRecords] at hcarry ⊢
    rw [TxnLog.verdicts, hcarry, ih, List.length_cons, List.replicate_succ]

/-- Completed buffers that are records pass validation wherever they are. -/
lemma parseLog_completed {ds : List (List UInt8)}
    (h : ∀ d ∈ ds, ∃ pr flag, PendingRecord.Decodes pr ∧ (flag = 1 ∨ flag = 2) ∧
      d = pr.encode flag) (offset : ℤ) : ∃ recs, parseLog offset ds = .ok recs := by
  induction ds generalizing offset with
  | nil => exact ⟨[], rfl⟩
  | cons d ds ih =>
    obtain ⟨pr, flag, hdec, hflag, rfl⟩ := h d List.mem_cons_self
    obtain ⟨recs, hrecs⟩ := ih (fun d hd => h d (List.mem_cons_of_mem _ hd)) (offset + 4105)
    refine ⟨pr.recovered offset flag :: recs, ?_⟩
    rw [parseLog, parseRecord_encode hdec offset hflag]
    dsimp only
    rw [hrecs]

/-- **Recovery of the file of a session** none of whose calls was torn: it finds the records from
before the session and those that the session appended in full, in order. -/
lemma Appending.records_eq {s₀ : LocalStorage} {m : BlockMapper LocalStorage}
    {as : List Appended} (h : Appending s₀ m as) (htorn : ∀ a ∈ as, ¬ a.Torn)
    {recs : List RecoveredRecord} (hal : s₀.file.length % 4105 = 0)
    (hrecs : records s₀.file = .ok recs) :
    ∃ new, parseLog s₀.file.length (completed as) = .ok new ∧
      records m.storage.file = .ok (recs ++ new) ∧
      m.storage.file.length = s₀.file.length + 4105 * (completed as).length := by
  have hmem : ∀ d ∈ completed as, ∃ pr flag, PendingRecord.Decodes pr ∧
      (flag = 1 ∨ flag = 2) ∧ d = pr.encode flag := by
    intro d hd
    obtain ⟨a, ha, rfl⟩ := List.mem_map.mp hd
    exact h.data a (List.mem_filter.mp ha).1
  have hlen : ∀ d ∈ completed as, d.length = 4105 := by
    intro d hd
    obtain ⟨pr, flag, -, -, rfl⟩ := hmem d hd
    exact pr.length_encode flag
  obtain ⟨new, hnew⟩ := parseLog_completed hmem s₀.file.length
  refine ⟨new, hnew, ?_, ?_⟩
  · rw [h.chain.file_eq htorn]
    exact records_append hal hlen hrecs hnew
  · rw [h.chain.file_eq htorn, List.length_append, length_flatten_of_forall hlen]

/-- **No call of a session is torn** before a successful `Sync`, if none but the last of all calls
is: the last call before that `Sync` is the last of all only if the batch was empty, and a batch
whose last call failed is retained. -/
lemma Appending.not_torn {s₀ : LocalStorage} {m : BlockMapper LocalStorage}
    {as as' : List Appended} (h : Appending s₀ m as)
    (hmap : as'.map Appended.data = encodeBatch m.pendingRecords)
    (htorn : ∀ a ∈ (as ++ as').dropLast, ¬ a.Torn) : ∀ a ∈ as, ¬ a.Torn := by
  intro a ha
  by_cases hnil : as' = []
  · have hpending : m.pendingRecords = [] := by
      rw [hnil, List.map_nil] at hmap
      rw [← List.length_eq_zero_iff, ← length_encodeBatch, ← hmap, List.length_nil]
    rw [hnil, List.append_nil] at htorn
    have hne : as ≠ [] := List.ne_nil_of_mem ha
    rw [← List.dropLast_append_getLast hne] at ha
    rcases List.mem_append.mp ha with ha | ha
    · exact htorn a ha
    · obtain rfl := List.mem_singleton.mp ha
      by_contra ht
      exact h.retained _ (List.getLast?_eq_some_getLast hne) (fun hc => hc.not_torn ht) hpending
  · rw [List.dropLast_append_of_ne_nil hnil] at htorn
    exact htorn a (List.mem_append_left _ ha)

/-- **When the records of a session are aligned.** Let `Init` succeed on a file and run any calls
of the mapper, in which any `write` of an `Append` may fail. The `Append`s of the run all start at
multiples of 4105 exactly if none but the last of them is torn. In that case, and if the run ends
with a successful `Sync`, a fresh `Init` on the file succeeds; the records it finds are those from
before the run followed by those the run appended in full, the last of them are the records of the
batch of that `Sync`, and these are all applied.

**Proof sketch.** The session keeps `Appending`, whose chain of calls is aligned exactly if none but
the last is torn (`Chain.aligned_iff`). The calls of a successful `Sync` are complete, and no torn
call was the last before it, since its batch would have been retained. So no call is torn, and the
file is the one before the run followed by whole records (`Appending.records_eq`). -/
theorem records_aligned_iff (hp : MetadataProto.RoundTrips) {s : LocalStorage}
    (hinit : (init (new s)).1 = .ok ()) (ops : List Op) :
    ∃ as, (runOps ops (init (new s)).2).storage.appended =
        (init (new s)).2.storage.appended ++ as ∧
      ((∀ a ∈ as, a.offset % 4105 = 0) ↔ ∀ a ∈ as.dropLast, ¬ a.Torn) ∧
      ∀ before, ops = before ++ [.sync] → (runOps before (init (new s)).2).sync.1 = .ok () →
        (∀ a ∈ as.dropLast, ¬ a.Torn) →
        ∃ recs old batch, records (init (new s)).2.storage.file = .ok recs ∧
          parseLog (init (new s)).2.storage.file.length (completed as) = .ok (old ++ batch) ∧
          batch = batchRecords (runOps before (init (new s)).2).storage.file.length
            (runOps before (init (new s)).2).pendingRecords ∧
          ∀ t : LocalStorage, t.Clean → t.file = (runOps ops (init (new s)).2).storage.file →
            (init (new t)).1 = .ok () ∧ records t.file = .ok (recs ++ (old ++ batch)) ∧
              (init (new t)).2.toLogical = recovered (recs ++ (old ++ batch)) ∧
              ∃ applied, decisions t = .ok (applied ++ List.replicate batch.length true) ∧
                applied.length = (recs ++ old).length := by
  obtain ⟨recs, s₀, hi, hpadded, hrecs⟩ := init_file hinit
  have hal : s₀.file.length % 4105 = 0 := by
    rw [hpadded, length_padded]
    omega
  rw [hi]
  obtain ⟨as, h⟩ := (appending_opened (recovered recs) s₀).runOps hp ops
  rw [List.nil_append] at h
  have hsize : ∀ a ∈ as, a.data.length = 4105 := by
    intro a ha
    obtain ⟨pr, flag, -, -, hd⟩ := h.data a ha
    rw [hd, pr.length_encode]
  refine ⟨as, h.appended_eq, h.chain.aligned_iff hal hsize, fun before hops hok htorn => ?_⟩
  obtain ⟨as₀, h₀⟩ := (appending_opened (recovered recs) s₀).runOps hp before
  rw [List.nil_append] at h₀
  obtain ⟨as₁, h₁, hdone⟩ := h₀.sync
  obtain ⟨-, hmap, hcomplete⟩ := hdone hok
  have hrun : runOps ops (opened (recovered recs) s₀) =
      (runOps before (opened (recovered recs) s₀)).sync.2 := by
    rw [hops, runOps_concat_sync]
  rw [hrun] at h ⊢
  obtain rfl : as = as₀ ++ as₁ :=
    List.append_cancel_left (h.appended_eq.symm.trans h₁.appended_eq)
  have htorn₀ := h₀.not_torn hmap htorn
  have htorn' : ∀ a ∈ as₀ ++ as₁, ¬ a.Torn := List.forall_mem_append.mpr
    ⟨htorn₀, fun a ha => (hcomplete a ha).not_torn⟩
  -- the records of the run are those from before the last `Sync`, and the batch
  obtain ⟨m, hm⟩ : ∃ m, m = runOps before (opened (recovered recs) s₀) := ⟨_, rfl⟩
  rw [← hm] at h₀ h₁ hmap ⊢
  have hdone₁ : completed (as₀ ++ as₁) = completed as₀ ++ encodeBatch m.pendingRecords := by
    rw [completed_append hcomplete, hmap]
  obtain ⟨old, hold, -, hlen₀⟩ := h₀.records_eq htorn₀ hal hrecs
  obtain ⟨new, hnew, hrecs₁, hlen₁⟩ := h₁.records_eq htorn' hal hrecs
  have hbatch := parseLog_batch h₀.decodes m.storage.file.length
  rw [hlen₀] at hbatch
  push_cast at hbatch
  have hsplit := parseLog_append hold hbatch
  rw [← hdone₁, hnew] at hsplit
  obtain rfl := Except.ok.inj hsplit
  have hoff : ((m.storage.file.length : ℕ) : ℤ) =
      s₀.file.length + 4105 * (completed as₀).length := by
    rw [hlen₀]
    push_cast
    rfl
  refine ⟨recs, old, _, hrecs, hnew, by rw [hoff], fun t hv ht => ?_⟩
  have hfile : bytes t = m.sync.2.storage.file := ht
  have halt : (bytes t).length % 4105 = 0 := by
    rw [hfile, hlen₁]
    omega
  rw [← hfile, ← padded_of_aligned halt] at hrecs₁
  obtain ⟨t', ht', -⟩ := init_of_records hv (padStorage_of_aligned hv halt) hrecs₁
  have hdec := decisions_of_records hv (padStorage_of_aligned hv halt) hrecs₁
  rw [padded_of_aligned halt] at hrecs₁
  rw [ht']
  refine ⟨rfl, hrecs₁, rfl, ?_⟩
  rw [hdec, ← List.append_assoc, TxnLog.verdicts_append, verdicts_batch, length_batchRecords]
  exact ⟨_, rfl, TxnLog.length_verdicts ..⟩

/-! ## One batch of one record -/

omit [MetadataProto] in
/-- A `Sync` with one record buffered is one `Append`, and the record stays buffered unless that is
complete. -/
lemma sync_single {m : BlockMapper LocalStorage} (hi : m.initialized = true) {pr : PendingRecord}
    (hpending : m.pendingRecords = [pr]) (hfsync : m.storage.fsyncs = []) :
    ∃ a : Appended, a.offset = m.storage.file.length ∧ a.data = pr.encode 1 ∧
      a.calls = m.storage.appends.headD ⟨none, .all⟩ ∧ m.sync.2.initialized = true ∧
      m.sync.2.storage = { m.storage with
        file := m.storage.file ++ a.bytes
        appends := m.storage.appends.tail
        appended := m.storage.appended ++ [a] } ∧
      (m.sync.1 = .ok () ∧ a.Complete ∨ m.sync.2.pendingRecords = [pr] ∧ ¬ a.Complete) := by
  have hne : pr.encode 1 ≠ [] := by
    rw [← List.length_pos_iff, PendingRecord.length_encode]
    decide
  obtain ⟨a, hoff, hdata, hcalls, hstate, hres⟩ := LocalStorage.append_spec hne m.storage
  have happ : AppendOnlyStorage.append (pr.encode 1) m.storage =
      LocalStorage.append (pr.encode 1) m.storage := rfl
  refine ⟨a, hoff, hdata, hcalls, ?_⟩
  rw [BlockMapper.sync, if_neg (by rw [hi]; decide), hpending, if_neg (by simp), syncLoop,
    if_pos rfl, happ]
  generalize LocalStorage.append (pr.encode 1) m.storage = p at hstate hres
  obtain ⟨r, s⟩ := p
  dsimp only at hstate hres
  rcases hres with ⟨rfl, hc⟩ | ⟨⟨e, rfl⟩, hc⟩
  · have hs : AppendOnlyStorage.sync s = (.ok (), s) := by
      show LocalStorage.sync s = _
      have hnone : s.fsyncs = [] := by rw [hstate, ← hfsync]
      rw [LocalStorage.sync, hnone]
      dsimp only [List.headD_nil, List.tail_nil]
      rw [← hnone]
    dsimp only
    split_ifs <;> rw [syncLoop] <;> simp only [BlockMapper.syncStorage, hs] <;>
      exact ⟨hi, hstate, Or.inl ⟨trivial, hc⟩⟩
  · exact ⟨hi, hstate, Or.inr ⟨hpending, hc⟩⟩

omit [MetadataProto] in
/-- Writing the first block of a file as a whole buffers one record. -/
lemma write_first_block {σ : Type} [AppendOnlyStorage σ] {m : BlockMapper σ}
    (hi : m.initialized = true) {buf : List UInt8} (hbuf : buf.length = 4096) :
    (m.write buf 0).2 = { m with
      pendingRecords := m.pendingRecords ++ [⟨0, Block.ofList buf⟩]
      logicalSize := max m.logicalSize 4096 } := by
  have hrange : outOfRange buf.length 0 = false :=
    outOfRange_eq_false_iff.mpr ⟨le_rfl, by rw [hbuf]; decide⟩
  have hend : s64 (u64 (0 + (buf.length : ℤ) - 1) / 4096) = 0 := by
    rw [hbuf]
    rfl
  have hlen : s64 (buf.length : ℤ) = 4096 := by
    rw [hbuf]
    rfl
  have hslice : slice 0 4096 buf = buf := by
    rw [← hbuf, slice_zero_length]
  have hone : ((0 : ℤ) - 0 / 4096 + 1).toNat = 1 := rfl
  have hloop : writeLoop buf 0 1 (0 / 4096) m =
      (.ok (), { m with pendingRecords := m.pendingRecords ++ [⟨0, Block.ofList buf⟩] }) := by
    have hfirst : (max (0 : ℤ) (0 / 4096 * 4096) - 0).toNat = 0 := by decide
    have hcount : min (0 + 4096 : ℤ) (0 / 4096 * 4096 + 4096) - max 0 (0 / 4096 * 4096) = 4096 := by
      decide
    rw [writeLoop, hlen, writeLoop]
    dsimp only
    rw [hcount, hfirst, if_neg (lt_irrefl _)]
    have hsource : slice 0 (4096 : ℤ).toNat buf = buf := hslice
    rw [hsource]
    rfl
  rw [write, if_neg (by rw [hrange]; decide), if_neg (by rw [hi]; decide), if_neg (by omega), hend]
  simp only [hone, hloop, hlen]
  rfl

/-- A fresh `Init` on an empty file whose calls do not fail. -/
lemma init_empty_file {s : LocalStorage} (hfile : s.file = []) (hstat : s.fstats = []) :
    init (new s) = (.ok (), opened Logical.empty s) := by
  obtain ⟨file, appends, preads, fstats, fsyncs, appended⟩ := s
  obtain rfl : file = [] := hfile
  obtain rfl : fstats = [] := hstat
  rfl

omit [MetadataProto] in
/-- Calls that do not fail leave a storage clean. -/
lemma clean_ofFile (file : List UInt8) : (LocalStorage.ofFile file).Clean where
  appends := by simp [LocalStorage.ofFile]
  preads := by simp [LocalStorage.ofFile]
  fstats := by simp [LocalStorage.ofFile]

omit [MetadataProto] in
/-- The padding step on a file whose calls do not fail. -/
lemma padStorage_ofFile (file : List UInt8) :
    ∃ P, (padStorage (LocalStorage.ofFile file)).1 = .ok P := by
  by_cases hal : file.length % 4105 = 0
  · exact padStorage_of_aligned (clean_ofFile file) hal
  · have hget : AppendOnlyStorage.getSize (LocalStorage.ofFile file) =
        (.ok (file.length : ℤ), LocalStorage.ofFile file) := rfl
    obtain ⟨pad, hpad⟩ : ∃ pad : List UInt8,
        pad = List.replicate (4105 - (file.length : ℤ) % 4105).toNat 0 := ⟨_, rfl⟩
    have hne : pad ≠ [] := by
      rw [← List.length_pos_iff, hpad, List.length_replicate]
      omega
    obtain ⟨a, -, -, hcalls, hstate, hres⟩ := LocalStorage.append_spec hne (.ofFile file)
    have happ : AppendOnlyStorage.append pad (LocalStorage.ofFile file) =
      LocalStorage.append pad (LocalStorage.ofFile file) := rfl
    rw [padStorage, hget]
    dsimp only
    rw [if_pos (by omega), ← hpad, happ]
    generalize LocalStorage.append pad (LocalStorage.ofFile file) = p at hstate hres
    obtain ⟨r, s⟩ := p
    dsimp only at hstate hres
    rcases hres with ⟨rfl, -⟩ | ⟨-, hc⟩
    · subst hstate
      exact ⟨_, rfl⟩
    · refine absurd ?_ hc
      rw [Appended.Complete, hcalls]
      rfl

/-- **A record behind one stray byte is not seen**: the file recovers to the empty state if the
block of the record ends with a zero byte, since that is where recovery looks for a flag. -/
lemma recovered_shifted {pr : PendingRecord} (hlast : pr.payload.bytes.getD 4095 0 = 0) :
    ∃ recs, records (padded ((pr.encode 1).take 1 ++ pr.encode 1)) = .ok recs ∧
      recovered recs = Logical.empty := by
  obtain ⟨file, hfile⟩ : ∃ file, file = (pr.encode 1).take 1 ++ pr.encode 1 := ⟨_, rfl⟩
  have hone : ((pr.encode 1).take 1).length = 1 := by
    rw [List.length_take, pr.length_encode]
    omega
  have hlen : file.length / 4105 = 1 := by
    rw [hfile, List.length_append, hone, pr.length_encode]
  have hflag : file.getD 4104 0 = 0 := by
    have hpayload := getD_slice (o := 8) (n := 4096) (i := 4095) (pr.encode 1) 0 (by omega)
    rw [pr.slice_payload_encode, hlast] at hpayload
    rw [hfile, List.getD_eq_getElem?_getD, List.getElem?_append_right (by omega), hone,
      ← List.getD_eq_getElem?_getD]
    exact hpayload.symm
  have hbyte : (file.take 4105).getD 4104 0 = 0 := by
    have h := getD_slice (o := 0) (n := 4105) (i := 4104) file 0 (by decide)
    rwa [Nat.zero_add, hflag] at h
  have hrecs : records file = .ok [⟨0, 0, 0, -1⟩] := by
    rw [records, hlen, chunks, chunks, parseLog,
      parseRecord_of_flag _ (by rw [hbyte]; decide) (by rw [hbyte]; decide), hbyte]
    rfl
  obtain ⟨torn, hpad, htorn⟩ := records_padded hrecs
  rw [← hfile]
  exact ⟨_, hpad, by rw [recovered_torn _ htorn]; rfl⟩

/-- A session on an empty file writes one block and syncs. -/
lemma first_sync {s : LocalStorage} (hfile : s.file = []) (hstat : s.fstats = [])
    (hfsync : s.fsyncs = []) {buf : List UInt8} (hbuf : buf.length = 4096) :
    ∃ (m : BlockMapper LocalStorage) (a : Appended),
      (init (new s)).1 = .ok () ∧ (init (new s)).2.storage = s ∧
      runOps [.write buf 0] (init (new s)).2 = m ∧
      runOps [.write buf 0, .sync] (init (new s)).2 = m.sync.2 ∧ m.storage = s ∧
      m.pendingRecords = [⟨0, Block.ofList buf⟩] ∧
      a.data = (⟨0, Block.ofList buf⟩ : PendingRecord).encode 1 ∧
      a.calls = s.appends.headD ⟨none, .all⟩ ∧ m.sync.2.initialized = true ∧
      m.sync.2.storage = { s with
        file := a.bytes
        appends := s.appends.tail
        appended := s.appended ++ [a] } ∧
      (m.sync.1 = .ok () ∧ a.Complete ∨
        m.sync.2.pendingRecords = [⟨0, Block.ofList buf⟩] ∧ ¬ a.Complete) := by
  have hi := init_empty_file hfile hstat
  obtain ⟨m, hm⟩ : ∃ m, m = (write buf 0 (opened Logical.empty s)).2 := ⟨_, rfl⟩
  have hm' := hm
  rw [write_first_block rfl hbuf] at hm'
  have hpending : m.pendingRecords = [⟨0, Block.ofList buf⟩] := by
    rw [hm']
    rfl
  have hstore : m.storage = s := by
    rw [hm']
    rfl
  obtain ⟨a, -, hdata, hcalls, hi', hstorage, hres⟩ := sync_single (by rw [hm']; rfl) hpending
    (by rw [hstore, hfsync])
  refine ⟨m, a, by rw [hi], by rw [hi]; rfl, by rw [hi, hm]; rfl, by rw [hi, hm]; rfl, hstore,
    hpending, hdata, ?_, hi', ?_, hres⟩
  · rw [hcalls, hstore]
  · rw [hstorage, hstore, hfile, List.nil_append]

/-- **A torn `Append` misaligns the log.** A session on an empty file writes a block that ends with
a zero byte. Its first `Sync` fails after one byte of the record; the retried one succeeds, but its
record starts at byte 1, and a fresh `Init` on the file recovers an empty file. -/
lemma torn_session {s : LocalStorage} (hfile : s.file = []) (hstat : s.fstats = [])
    (hfsync : s.fsyncs = []) {calls : AppendCalls} (happends : s.appends = [calls])
    (hcalls : calls.written 4105 = 1) {buf : List UInt8} (hbuf : buf.length = 4096)
    (hlast : buf.getD 4095 0 = 0) :
    (init (new s)).1 = .ok () ∧
      (runOps [.write buf 0, .sync] (init (new s)).2).sync.1 = .ok () ∧
      (∃ a ∈ (runOps [.write buf 0, .sync, .sync] (init (new s)).2).storage.appended,
        a.offset % 4105 ≠ 0) ∧
      (init (new (LocalStorage.ofFile (runOps [.write buf 0, .sync, .sync]
        (init (new s)).2).storage.file))).1 = .ok () ∧
      (init (new (LocalStorage.ofFile (runOps [.write buf 0, .sync, .sync]
        (init (new s)).2).storage.file))).2.logicalSize = 0 := by
  obtain ⟨pr, hpr⟩ : ∃ pr : PendingRecord, pr = ⟨0, Block.ofList buf⟩ := ⟨_, rfl⟩
  -- the first `Sync` writes one byte
  obtain ⟨m, a, hi, -, hrun, hrun₂, -, -, hdata, hcalls₁, hinit₁, hstorage₁, hres₁⟩ :=
    first_sync hfile hstat hfsync hbuf
  rw [← hpr] at hdata hres₁
  have hwritten : a.calls.written a.data.length = 1 := by
    rw [hcalls₁, happends, hdata, pr.length_encode]
    exact hcalls
  have hpending₁ : m.sync.2.pendingRecords = [pr] := by
    rcases hres₁ with ⟨-, hc⟩ | ⟨hp, -⟩
    · rw [Appended.Complete, hwritten, hdata, pr.length_encode] at hc
      omega
    · exact hp
  have hfile₁ : m.sync.2.storage.file = (pr.encode 1).take 1 := by
    rw [hstorage₁]
    dsimp only
    rw [Appended.bytes, hwritten, hdata]
  -- the second `Sync` writes the whole record behind it
  obtain ⟨b, hoff₂, hdata₂, hcalls₂, -, hstorage₂, hres₂⟩ := sync_single hinit₁ hpending₁
    (by rw [hstorage₁]; exact hfsync)
  have hcomplete : b.Complete := by
    rw [Appended.Complete, hcalls₂, hstorage₁, happends]
    rfl
  have hok : m.sync.2.sync.1 = .ok () := by
    rcases hres₂ with ⟨hok, -⟩ | ⟨-, hc⟩
    · exact hok
    · exact absurd hcomplete hc
  have hfile₂ : m.sync.2.sync.2.storage.file = (pr.encode 1).take 1 ++ pr.encode 1 := by
    rw [hstorage₂]
    dsimp only
    rw [Appended.bytes, hcomplete, List.take_length, hdata₂, hfile₁]
  -- the flag of the first record that recovery sees is the last byte of the block
  have hblock : pr.payload.bytes.getD 4095 0 = 0 := by
    rw [hpr]
    exact (congrArg (fun l => l.getD 4095 0) (Block.bytes_ofList hbuf)).trans hlast
  obtain ⟨recs, hrecs, hempty⟩ := recovered_shifted hblock
  rw [← hfile₂] at hrecs
  obtain ⟨t, ht, -⟩ := init_of_records (clean_ofFile _) (padStorage_ofFile _) hrecs
  rw [hempty] at ht
  have hrun₃ : runOps [.write buf 0, .sync, .sync] (init (new s)).2 = m.sync.2.sync.2 := by
    rw [← hrun]
    rfl
  rw [hrun₂, hrun₃, ht]
  refine ⟨hi, hok, ⟨b, ?_, ?_⟩, rfl, rfl⟩
  · rw [hstorage₂]
    exact List.mem_append_right _ List.mem_cons_self
  · rw [hoff₂, hfile₁, List.length_take, pr.length_encode]
    decide

end Session

/-- A block of zeros. -/
def zeroBlock : List UInt8 := List.replicate 4096 0

/-- `records_aligned_iff` for a session that writes a block to an empty file and syncs: the only
record is aligned, and recovery finds it. -/
theorem records_aligned_iff_one_block :
    letI := wireProto
    (runOps [.write zeroBlock 0] (init (new (LocalStorage.ofFile []))).2).sync.1 = .ok () ∧
      (∀ a ∈ (runOps [.write zeroBlock 0, .sync]
        (init (new (LocalStorage.ofFile []))).2).storage.appended, a.offset % 4105 = 0) ∧
      ∃ recs, (init (new (LocalStorage.ofFile (runOps [.write zeroBlock 0, .sync]
          (init (new (LocalStorage.ofFile []))).2).storage.file))).2.toLogical =
            recovered (recs ++ batchRecords 0 [⟨0, Block.ofList zeroBlock⟩]) := by
  obtain ⟨m, a, hi, hi', hrun, hrun', hstore, hpending, hdata, hcalls, -, hstorage, hres⟩ :=
    @first_sync wireProto (LocalStorage.ofFile []) rfl rfl rfl zeroBlock List.length_replicate
  have hcomplete : a.Complete := by
    rw [Appended.Complete, hcalls]
    rfl
  have hok : m.sync.1 = .ok () := by
    rcases hres with ⟨hok, -⟩ | ⟨-, hc⟩
    · exact hok
    · exact absurd hcomplete hc
  obtain ⟨as, has, hiff, hfound⟩ := @records_aligned_iff wireProto wireProto_roundTrips
    (LocalStorage.ofFile []) hi [.write zeroBlock 0, .sync]
  rw [hrun', hstorage, hi'] at has
  obtain rfl : [a] = as := has
  rw [hrun'] at hfound ⊢
  obtain ⟨recs, old, batch, -, -, hbatch, hinit⟩ := hfound [.write zeroBlock 0] rfl
    (by rw [hrun]; exact hok) (by simp)
  rw [hrun, hpending, hstore] at hbatch
  obtain ⟨-, -, hlogical, -⟩ := hinit (LocalStorage.ofFile m.sync.2.storage.file)
    (clean_ofFile _) rfl
  refine ⟨by rw [hrun]; exact hok, ?_, recs ++ old, ?_⟩
  · rw [hstorage]
    exact hiff.mpr (by simp)
  · rw [hlogical, hbatch, List.append_assoc]
    rfl

/-- An empty file on a disk with room for one byte: the second `write` of the first `Append` fails,
and later ones succeed. -/
def fullDisk : LocalStorage where
  file := []
  appends := [⟨none, [some 0], some fun message =>
    ⟨.resourceExhausted, message ++ ": No space left on device"⟩⟩]
  preads := []
  fstats := []
  fsyncs := []
  appended := []

/-- **The records of a session are not always aligned**, and a batch whose `Sync` succeeded is not
always found: `torn_session` on a disk that was full for a while. -/
theorem torn_append_misaligns :
    letI := wireProto
    (init (new fullDisk)).1 = .ok () ∧
      (runOps [.write zeroBlock 0, .sync] (init (new fullDisk)).2).sync.1 = .ok () ∧
      (∃ a ∈ (runOps [.write zeroBlock 0, .sync, .sync] (init (new fullDisk)).2).storage.appended,
        a.offset % 4105 ≠ 0) ∧
      (init (new (LocalStorage.ofFile (runOps [.write zeroBlock 0, .sync, .sync]
        (init (new fullDisk)).2).storage.file))).1 = .ok () ∧
      (init (new (LocalStorage.ofFile (runOps [.write zeroBlock 0, .sync, .sync]
        (init (new fullDisk)).2).storage.file))).2.logicalSize = 0 := by
  refine @torn_session wireProto fullDisk rfl rfl rfl _ rfl rfl zeroBlock List.length_replicate ?_
  rw [zeroBlock, List.getD_replicate _ (by decide)]

end SqliteGcs
