import SqliteGcs.Storage

set_option relaxedAutoImplicit false
set_option autoImplicit false

/-!
# The in-memory storage

`InMemoryStorage` of `vfs_backend.cc`, the storage behind in-memory journals: a vector of bytes
and its size. None of its operations fails on a consistent state, so it is a reliable log.

## Main definitions

* `SqliteGcs.InMemoryStorage` — the vector and the size kept beside it.
* `SqliteGcs.InMemoryStorage.ofBytes` — a storage that holds the given bytes.
-/

namespace SqliteGcs

open Bytes

/-- `InMemoryStorage`. -/
structure InMemoryStorage where
  /-- `data_`. -/
  data : List UInt8
  /-- `size_`. -/
  size : ℤ
  deriving DecidableEq

namespace InMemoryStorage

/-- The constructor. -/
def new : InMemoryStorage := ⟨[], 0⟩

/-- `Append`. -/
def append (data : List UInt8) (s : InMemoryStorage) : Except Status ℤ × InMemoryStorage :=
  if data.length > 0 then
    (.ok s.size, { s with data := s.data ++ data, size := s.size + data.length })
  else (.ok s.size, s)

/-- `PRead`. A vector is shorter than `2 ^ 63`, so the sum in the check does not wrap for any
buffer that exists. -/
def pRead (size : ℕ) (offset : ℤ) (s : InMemoryStorage) :
    Except Status (List UInt8) × InMemoryStorage :=
  if offset < 0 then (.error ⟨.invalidArgument, "Offset cannot be negative"⟩, s)
  else if offset + size > s.size then
    (.error ⟨.outOfRange, "Attempted to read past EOF"⟩, s)
  else (.ok (slice offset.toNat size s.data), s)

/-- `GetSize`. -/
def getSize (s : InMemoryStorage) : Except Status ℤ × InMemoryStorage := (.ok s.size, s)

/-- `Sync`. -/
def sync (s : InMemoryStorage) : Except Status Unit × InMemoryStorage := (.ok (), s)

/-- Appending to a consistent storage adds the whole buffer. -/
lemma append_consistent (data : List UInt8) {s : InMemoryStorage} (hv : s.size = s.data.length) :
    (append data s).1 = .ok (s.data.length : ℤ) ∧ (append data s).2.data = s.data ++ data ∧
      (append data s).2.size = (append data s).2.data.length := by
  unfold append
  split_ifs with h
  · refine ⟨congrArg Except.ok hv, rfl, ?_⟩
    simp only [List.length_append, Nat.cast_add]
    rw [hv]
  · have hd : data = [] := List.length_eq_zero_iff.mp (by omega)
    exact ⟨congrArg Except.ok hv, by rw [hd, List.append_nil], hv⟩

/-- An in-memory storage is a log as long as the size kept is that of the vector, and none of its
operations fails. -/
instance : ReliableLog InMemoryStorage where
  append := append
  pRead := pRead
  getSize := getSize
  sync := sync
  bytes s := s.data
  Valid s := s.size = s.data.length
  getSize_spec s hv := ⟨congrArg Except.ok hv, rfl, hv⟩
  pRead_spec n off s hv hle := by
    have h0 : ¬ (off : ℤ) < 0 := by omega
    have h1 : ¬ (off : ℤ) + n > s.size := by rw [hv]; omega
    have hres : pRead n (off : ℤ) s = (.ok (slice off n s.data), s) := by
      rw [pRead, if_neg h0, if_neg h1, Int.toNat_natCast]
    rw [hres]
    exact ⟨rfl, rfl, hv⟩
  append_spec data s hv := by
    obtain ⟨h1, h2, h3⟩ := append_consistent data hv
    exact ⟨h3, Or.inl ⟨h1, h2⟩⟩
  sync_spec _ hv := ⟨rfl, hv⟩
  append_ok data s hv := by
    obtain ⟨h1, h2, -⟩ := append_consistent data hv
    exact ⟨h1, h2⟩
  sync_ok _ _ := rfl

/-- A storage that holds the given bytes. -/
def ofBytes (data : List UInt8) : InMemoryStorage := ⟨data, data.length⟩

/-- Such a storage is consistent. -/
lemma valid_ofBytes (data : List UInt8) : Valid (ofBytes data) := rfl

/-- Its bytes are the given ones. -/
@[simp] lemma bytes_ofBytes (data : List UInt8) : bytes (ofBytes data) = data := rfl

end InMemoryStorage

end SqliteGcs
