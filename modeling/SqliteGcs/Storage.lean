import SqliteGcs.Lib.Bytes

set_option relaxedAutoImplicit false
set_option autoImplicit false

/-!
# Statuses and the append-only storage interface

The status type of the code base, the interface `AppendOnlyStorage` of `storage.h`, and what a
mapper may rely on when its storage is well behaved. A storage is a state type `σ` with four
operations in state-passing style; a returned buffer is the list of the bytes that were
transferred, so its length is the returned count.

## Main definitions

* `SqliteGcs.Status` — an error status: a code and a message.
* `SqliteGcs.AppendOnlyStorage` — the interface of `storage.h`.
* `SqliteGcs.AtomicLog` — a storage whose reads succeed and whose `append` adds the whole buffer
  or fails and adds nothing; `sync` may fail.
* `SqliteGcs.ReliableLog` — an atomic log no operation of which fails.
-/

namespace SqliteGcs

open Bytes

/-- The error codes of a status. -/
inductive StatusCode
  | cancelled
  | unknown
  | invalidArgument
  | deadlineExceeded
  | notFound
  | alreadyExists
  | permissionDenied
  | resourceExhausted
  | failedPrecondition
  | aborted
  | outOfRange
  | unimplemented
  | internal
  | unavailable
  | dataLoss
  | unauthenticated
  deriving DecidableEq, Repr

/-- A status other than OK; the OK status is `Except.ok`. -/
structure Status where
  /-- The error code. -/
  code : StatusCode
  /-- The error message. -/
  message : String
  deriving DecidableEq, Repr

/-- `AppendOnlyStorage` of `storage.h`. -/
class AppendOnlyStorage (σ : Type) where
  /-- `Append(data, size)`: the offset the data went to. -/
  append : List UInt8 → σ → Except Status ℤ × σ
  /-- `PRead(buf, size, offset)`: the bytes read into `buf`. -/
  pRead : ℕ → ℤ → σ → Except Status (List UInt8) × σ
  /-- `GetSize()`. -/
  getSize : σ → Except Status ℤ × σ
  /-- `Sync()`. -/
  sync : σ → Except Status Unit × σ

export AppendOnlyStorage (append pRead getSize sync)

/-- A storage that is a log of bytes with atomic appends: on a valid state `getSize` and `pRead`
inside the file succeed and tell the truth, `append` returns the old length and adds the whole
buffer or fails and adds nothing, and `sync` leaves the bytes alone whatever it returns. -/
class AtomicLog (σ : Type) extends AppendOnlyStorage σ where
  /-- The bytes of the file. -/
  bytes : σ → List UInt8
  /-- The states the laws are about. -/
  Valid : σ → Prop
  getSize_spec : ∀ s, Valid s →
    (getSize s).1 = .ok ((bytes s).length : ℤ) ∧
      bytes (getSize s).2 = bytes s ∧ Valid (getSize s).2
  pRead_spec : ∀ (n off : ℕ) (s : σ), Valid s → off + n ≤ (bytes s).length →
    (pRead n off s).1 = .ok (slice off n (bytes s)) ∧
      bytes (pRead n off s).2 = bytes s ∧ Valid (pRead n off s).2
  append_spec : ∀ (data : List UInt8) (s : σ), Valid s → Valid (append data s).2 ∧
    ((append data s).1 = .ok ((bytes s).length : ℤ) ∧
        bytes (append data s).2 = bytes s ++ data ∨
      (∃ e, (append data s).1 = .error e) ∧ bytes (append data s).2 = bytes s)
  sync_spec : ∀ s, Valid s → bytes (sync s).2 = bytes s ∧ Valid (sync s).2

export AtomicLog (bytes Valid)

/-- An atomic log none of whose operations fails on a valid state. -/
class ReliableLog (σ : Type) extends AtomicLog σ where
  append_ok : ∀ (data : List UInt8) (s : σ), Valid s →
    (append data s).1 = .ok ((bytes s).length : ℤ) ∧ bytes (append data s).2 = bytes s ++ data
  sync_ok : ∀ s, Valid s → (sync s).1 = .ok ()

end SqliteGcs
