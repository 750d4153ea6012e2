import SqliteGcs.Lib.Bytes

set_option relaxedAutoImplicit false
set_option autoImplicit false

/-!
# The protobuf message of truncate records

`metadata.proto` declares one optional 64-bit field, `new_size`. The serialiser and the parser
are generated code outside the repository, so the model takes them as a parameter,
`MetadataProto`, and names what the code relies on. The wire format of the message is given as
one instance of the parameter.

## Main definitions

* `SqliteGcs.MetadataProto` — the generated serialiser and parser.
* `SqliteGcs.MetadataProto.RoundTrips`, `SqliteGcs.MetadataProto.Serializes` — what is relied on.
* `SqliteGcs.wireProto` — field 1 as a base-128 varint.

## Main results

* `SqliteGcs.wireProto_roundTrips`, `SqliteGcs.wireProto_serializes` — the wire format has both
  properties.
-/

namespace SqliteGcs

open Bytes

/-- The generated code for `MetadataBlock`. -/
class MetadataProto where
  /-- `set_new_size(n)` followed by `SerializeToString`; `none` if that returns false. -/
  serializeToString : ℤ → Option (List UInt8)
  /-- `ParseFromArray`: `none` if it returns false, otherwise `new_size` if the message has it. -/
  parseFromArray : List UInt8 → Option (Option ℤ)

/-- Parsing what was serialised gives `new_size` back, for every size a file can have. -/
def MetadataProto.RoundTrips [MetadataProto] : Prop :=
  ∀ (n : ℤ) (bs : List UInt8), 0 ≤ n → n ≤ 1000000 * 4096 →
    serializeToString n = some bs → parseFromArray bs = some (some n)

/-- Serialising a size succeeds and takes at most eleven bytes. -/
def MetadataProto.Serializes [MetadataProto] : Prop :=
  ∀ n : ℤ, 0 ≤ n → n ≤ 1000000 * 4096 →
    ∃ bs, serializeToString n = some bs ∧ bs.length ≤ 11

/-! ## The wire format -/

/-- The base-128 varint of a number, in at most `k` bytes. -/
def toVarint : ℕ → ℕ → List UInt8
  | 0, _ => []
  | k + 1, n =>
    if n < 128 then [UInt8.ofNat n] else UInt8.ofNat (n % 128 + 128) :: toVarint k (n / 128)

/-- Read a base-128 varint of at most `k` bytes, and return the rest. -/
def ofVarint : ℕ → List UInt8 → Option (ℕ × List UInt8)
  | 0, _ => none
  | _ + 1, [] => none
  | k + 1, b :: bs =>
    if b.toNat < 128 then some (b.toNat, bs)
    else (ofVarint k bs).map fun (n, rest) => (b.toNat - 128 + 128 * n, rest)

/-- Read the fields of a message: each is field 1 as a varint, and the last one counts. -/
def parseFields : ℕ → Option ℤ → List UInt8 → Option (Option ℤ)
  | _, newSize, [] => some newSize
  | 0, _, _ :: _ => none
  | k + 1, _, tag :: bs =>
    if tag = 8 then
      match ofVarint 10 bs with
      | none => none
      | some (n, rest) => parseFields k (some (s64 n)) rest
    else none

/-- The wire format of `MetadataBlock`. -/
@[reducible] def wireProto : MetadataProto where
  serializeToString n := some (8 :: toVarint 10 (u64 n))
  parseFromArray bs := parseFields bs.length none bs

/-- A varint takes at most the bytes it may take. -/
lemma length_toVarint (k n : ℕ) : (toVarint k n).length ≤ k := by
  induction k generalizing n with
  | zero => simp [toVarint]
  | succ k ih =>
    rw [toVarint]
    split_ifs
    · simp
    · rw [List.length_cons]
      have := ih (n / 128)
      omega

/-- Reading a varint that fits gives the number back. -/
lemma ofVarint_toVarint {k n : ℕ} (h : n < 128 ^ (k + 1)) (rest : List UInt8) :
    ofVarint (k + 1) (toVarint (k + 1) n ++ rest) = some (n, rest) := by
  induction k generalizing n with
  | zero =>
    have hn : n < 128 := by simpa using h
    have hb : (UInt8.ofNat n).toNat = n := by
      rw [UInt8.toNat_ofNat']
      omega
    simp [toVarint, ofVarint, hn, hb]
  | succ k ih =>
    rw [toVarint]
    split_ifs with hn
    · have hb : (UInt8.ofNat n).toNat = n := by
        rw [UInt8.toNat_ofNat']
        omega
      simp [ofVarint, hn, hb]
    · have hb : (UInt8.ofNat (n % 128 + 128)).toNat = n % 128 + 128 := by
        rw [UInt8.toNat_ofNat']
        omega
      have hdiv : n / 128 < 128 ^ (k + 1) := by
        rw [Nat.div_lt_iff_lt_mul (by decide), ← pow_succ]
        exact h
      rw [List.cons_append, ofVarint, hb, if_neg (by omega), ih hdiv]
      simp only [Option.map_some, Option.some.injEq, Prod.mk.injEq, and_true]
      omega

/-- A serialised message parses to the size it was made from. -/
theorem wireProto_roundTrips : @MetadataProto.RoundTrips wireProto := by
  intro n bs h0 h1 hbs
  have hn : (u64 n : ℤ) = n := u64_of_range h0 (by omega)
  have hlt : u64 n < 128 ^ (9 + 1) := by omega
  obtain rfl : 8 :: toVarint 10 (u64 n) = bs := Option.some.inj hbs
  show parseFields _ none (8 :: toVarint 10 (u64 n)) = _
  have hv := ofVarint_toVarint hlt []
  rw [List.append_nil] at hv
  rw [List.length_cons, parseFields, if_pos rfl, hv]
  simp only [parseFields, hn]
  rw [s64_of_range (by omega) (by omega)]

/-- Serialising never fails, and takes a tag and at most ten bytes. -/
theorem wireProto_serializes : @MetadataProto.Serializes wireProto := by
  intro n _ _
  refine ⟨_, rfl, ?_⟩
  have := length_toVarint 10 (u64 n)
  rw [List.length_cons]
  omega

end SqliteGcs
