import SqliteGcs.BlockFile

set_option relaxedAutoImplicit false
set_option autoImplicit false

/-!
# What readers see of `Sync` and `Write`

Two laws of the logical file, for every state that a mapper can be in. `Sync` is invisible: it
changes neither the size nor a mapped block nor the result of a `Read`, whether it succeeds, fails
at one of its appends or fails at the end, so where the `Sync`s of a run stand does not matter to
its readers. `Write` is seen by the `Read`s of the positions it wrote to, and by no others, and may
be split anywhere.

## Main definitions

* `SqliteGcs.refinement` — the simulation of the abstract file by a mapper, with silent `Sync`s.

## Main results

* `SqliteGcs.sync_invisible` — the law of `Sync`.
* `SqliteGcs.write_law` — the law of `Write`.
-/

namespace SqliteGcs

open Bytes PageTable BlockMapper

/-! ## `Sync` -/

section Sync

variable {σ τ : Type} [AtomicLog σ] [AtomicLog τ] [MetadataProto]

/-- A mapper simulates the file that it holds, and a `Sync` on either side is silent. -/
def refinement (σ : Type) [AtomicLog σ] :
    Machine.SilentSimulation (Call.run : Call → BlockMapper σ → _) BlockFile.step
      Call.visible where
  R := Holds
  step_related c _ _ hvisible h := ⟨(h.step c).2 hvisible, (h.step c).1⟩
  silent_left c _ _ hsilent h := by
    cases c with
    | read n off => cases hsilent
    | op o =>
      cases o with
      | write buf off => cases hsilent
      | truncate n => cases hsilent
      | sync => exact h.sync
  silent_right c _ _ hsilent h := by
    cases c with
    | read n off => cases hsilent
    | op o =>
      cases o with
      | write buf off => cases hsilent
      | truncate n => cases hsilent
      | sync => exact h

/-- What `Init` recovers is a matter of the bytes of the storage alone, and of whether it
succeeds. -/
lemma holds_init {s : σ} {t : τ} (hs : Valid s) (ht : Valid t) (hb : bytes t = bytes s)
    (hinit : (init (new t)).1 = (init (new s)).1) :
    ∃ f, Holds (init (new s)).2 f ∧ Holds (init (new t)).2 f := by
  by_cases hok : (init (new s)).1 = .ok ()
  · obtain ⟨recs, s', hrecs, hi, hb', hv'⟩ := records_of_init hs hok
    obtain ⟨recs', t', hrecs', hi', hb'', hv''⟩ := records_of_init ht (hinit.trans hok)
    rw [hb] at hrecs' hb''
    obtain rfl : recs = recs' := Except.ok.inj (hrecs.symm.trans hrecs')
    have hfile : (opened (recovered recs) t').file = (opened (recovered recs) s').file := by
      refine BlockFile.ext rfl rfl ?_
      funext i
      show SqliteGcs.byteAt (bytes t') _ _ i = SqliteGcs.byteAt (bytes s') _ _ i
      rw [hb', hb'']
      rfl
    have hready := Holds.ready (ready_opened hv' (by rw [hb', hrecs]))
    have hready' := Holds.ready (ready_opened hv'' (by rw [hb'', hrecs]))
    rw [hfile] at hready'
    rw [hi, hi']
    exact ⟨_, hready, hready'⟩
  · obtain ⟨s', hm, hv', -⟩ := new_of_init hs hok
    obtain ⟨t', hm', hv'', -⟩ := new_of_init ht (by rwa [hinit])
    rw [hm, hm']
    exact ⟨none, .new hv', .new hv''⟩

/-- **`Sync` is invisible to readers.** In every state that a mapper can be in, `Sync` leaves the
size, the mapped blocks and the result of every `Read` as they are, whatever it returns. Two runs
on storages with the same bytes whose calls differ only in their `Sync`s give the same replies to
all other calls.

**Proof sketch.** What a mapper holds determines its replies (`Holds.step`) and is not changed by
`Sync` (`Holds.sync`); both runs simulate the same run of the abstract file. -/
theorem sync_invisible {s : σ} (hs : Valid s) :
    (∀ m, Reachable s m → m.sync.2.logicalSize = m.logicalSize ∧
        (∀ b : ℤ, 0 ≤ b → m.sync.2.isBlockMapped b = m.isBlockMapped b) ∧
        ∀ n off, (m.sync.2.read n off).1 = (m.read n off).1) ∧
      ∀ t : τ, Valid t → bytes t = bytes s → (init (new t)).1 = (init (new s)).1 →
        ∀ calls calls' : List Call, calls.filter Call.visible = calls'.filter Call.visible →
          Machine.observed Call.run Call.visible calls (init (new s)).2 =
            Machine.observed Call.run Call.visible calls' (init (new t)).2 := by
  constructor
  · intro m hm
    obtain ⟨f, hf, -⟩ := holds_of_reachable hs hm
    have hread : ∀ n off, (m.sync.2.read n off).1 = (m.read n off).1 := fun n off =>
      (hf.sync.read n off).1.trans (hf.read n off).1.symm
    cases hf with
    | new hv => exact ⟨rfl, fun _ _ => rfl, hread⟩
    | ready h =>
      have hfile := file_sync h
      refine ⟨congrArg BlockFile.size hfile, fun b hb => ?_, hread⟩
      obtain ⟨n, rfl⟩ : ∃ n : ℕ, b = n := ⟨b.toNat, by omega⟩
      exact congrFun (congrArg BlockFile.mapped hfile) n
  · intro t ht hb hinit calls calls' hcalls
    obtain ⟨f, hf, hf'⟩ := holds_init hs ht hb hinit
    rw [(refinement σ).observed_eq hcalls hf, (refinement τ).observed_eq rfl hf']

end Sync

/-- `sync_invisible` for two empty in-memory storages. -/
theorem sync_invisible_empty :
    letI := wireProto
    (∀ m, Reachable InMemoryStorage.new m → m.sync.2.logicalSize = m.logicalSize ∧
        (∀ b : ℤ, 0 ≤ b → m.sync.2.isBlockMapped b = m.isBlockMapped b) ∧
        ∀ n off, (m.sync.2.read n off).1 = (m.read n off).1) ∧
      Machine.observed Call.run Call.visible [.op (.write [1] 0), .read 1 0]
          (init (new InMemoryStorage.new)).2 =
        Machine.observed Call.run Call.visible [.op (.write [1] 0), .op .sync, .read 1 0]
          (init (new InMemoryStorage.new)).2 := by
  let _ := wireProto
  have h := @sync_invisible InMemoryStorage InMemoryStorage _ _ wireProto InMemoryStorage.new rfl
  exact ⟨h.1, h.2 _ rfl rfl rfl _ _ rfl⟩

/-! ## `Write` -/

namespace BlockFile

/-- **A write may be split**: writing the two parts of a buffer after each other is writing it. -/
theorem write_write (buf : List UInt8) {k : ℕ} (hk : k ≤ buf.length) (o : ℕ) (f : BlockFile) :
    (f.write (buf.take k) o).write (buf.drop k) (o + k) = f.write buf o := by
  by_cases h0 : k = 0
  · subst h0
    rw [List.take_zero, List.drop_zero, write_nil, Nat.add_zero]
  by_cases hlen : k = buf.length
  · subst hlen
    rw [List.take_length, List.drop_length, write_nil]
  have htake : (buf.take k).length = k := by
    rw [List.length_take]
    omega
  have hdrop : (buf.drop k).length = buf.length - k := List.length_drop
  refine BlockFile.ext ?_ ?_ ?_
  · rw [size_write, size_write, size_write, htake, hdrop]
    push_cast
    rw [if_pos (by omega), if_pos (by omega), if_pos (by omega)]
    omega
  · have hne : buf ≠ [] := List.ne_nil_of_length_pos (by omega)
    have hne₁ : buf.take k ≠ [] := List.ne_nil_of_length_pos (by omega)
    have hne₂ : buf.drop k ≠ [] := List.ne_nil_of_length_pos (by omega)
    unfold write
    rw [if_neg hne₁, if_neg hne₂, if_neg hne, htake, hdrop]
    funext b
    dsimp only
    rw [Bool.or_assoc]
    congr 1
    rw [Bool.eq_iff_iff]
    simp only [Bool.or_eq_true, Bool.and_eq_true, decide_eq_true_eq]
    omega
  · rw [byte_write, byte_write, byte_write]
    funext i
    unfold patch
    rw [htake, hdrop]
    by_cases h1 : o + k ≤ i ∧ i < o + k + (buf.length - k)
    · rw [if_pos h1, if_pos (by omega), List.getD_eq_getElem?_getD, List.getElem?_drop,
        ← List.getD_eq_getElem?_getD]
      congr 1
      omega
    · rw [if_neg h1]
      by_cases h2 : o ≤ i ∧ i < o + k
      · rw [if_pos h2, if_pos (by omega), List.getD_eq_getElem?_getD, List.getElem?_take,
          if_pos (by omega), ← List.getD_eq_getElem?_getD]
      · rw [if_neg h2, if_neg (by omega)]

end BlockFile

section Write

variable {σ : Type} [AtomicLog σ] [MetadataProto]

omit [MetadataProto] in
/-- A `Read` of a range that passes the check returns that range of the file. -/
lemma read_ok_of_range {m : BlockMapper σ} (h : Ready m) {n : ℕ} {o : ℤ}
    (hr : outOfRange n o = false) : (m.read n o).1 = .ok (window m.file.byte o.toNat n) := by
  rw [(read_reply h n o).1, hr]
  rfl

/-- **The law of `Write`.** In every state of an initialised mapper, a `Write` that passes the range
check succeeds; it raises the size to the end of a non-empty range; every `Read` in range returns
the buffer at the positions that were written, and what it returned before at all others; and
writing the buffer in two adjacent parts gives the same size and the same `Read`s.

**Proof sketch.** `Write` writes to the file (`file_write`), and the two parts of a buffer write the
same to it as the buffer (`BlockFile.write_write`). -/
theorem write_law {s : σ} (hs : Valid s) {m : BlockMapper σ} (hm : Reachable s m)
    (hi : m.initialized = true) {buf : List UInt8} {off : ℤ}
    (hr : outOfRange buf.length off = false) :
    (m.write buf off).1 = .ok () ∧
      (m.write buf off).2.logicalSize =
        (if buf.length > 0 then max m.logicalSize (off + buf.length) else m.logicalSize) ∧
      (∀ n o, outOfRange n o = false → ∃ before after,
        (m.read n o).1 = .ok before ∧ ((m.write buf off).2.read n o).1 = .ok after ∧
          before.length = n ∧ after.length = n ∧
          ∀ j < n, after.getD j 0 =
            if off ≤ o + j ∧ o + j < off + buf.length then buf.getD (o + j - off).toNat 0
            else before.getD j 0) ∧
      ∀ k ≤ buf.length, ∃ m₁ m₂, m.write (buf.take k) off = (.ok (), m₁) ∧
        m₁.write (buf.drop k) (off + k) = (.ok (), m₂) ∧
        m₂.logicalSize = (m.write buf off).2.logicalSize ∧
        ∀ n o, (m₂.read n o).1 = ((m.write buf off).2.read n o).1 := by
  have h := (ready_of_reachable hs hm hi).1
  obtain ⟨h0, h1⟩ := outOfRange_eq_false_iff.mp hr
  obtain ⟨p, rfl⟩ : ∃ p : ℕ, off = p := ⟨off.toNat, by omega⟩
  obtain ⟨hok, hfile⟩ := file_write h buf (o := p) (by omega)
  have hready := (h.write buf p).1
  refine ⟨hok, ?_, ?_, ?_⟩
  · have hsize : (m.write buf p).2.logicalSize = (m.write buf p).2.file.size := rfl
    rw [hsize, hfile, BlockFile.size_write]
    rfl
  · intro n o hn
    obtain ⟨hn0, hn1⟩ := outOfRange_eq_false_iff.mp hn
    refine ⟨_, _, read_ok_of_range h hn, read_ok_of_range hready hn, length_window _ _ _,
      length_window _ _ _, fun j hj => ?_⟩
    rw [getD_window _ _ _ hj, getD_window _ _ _ hj, hfile, BlockFile.byte_write, patch]
    by_cases hin : p ≤ o.toNat + j ∧ o.toNat + j < p + buf.length
    · rw [if_pos hin, if_pos (by omega)]
      congr 1
      omega
    · rw [if_neg hin, if_neg (by omega)]
  · intro k hk
    obtain ⟨hok₁, hfile₁⟩ := file_write h (buf.take k) (o := p)
      (by rw [List.length_take]; omega)
    have hready₁ := (h.write (buf.take k) p).1
    generalize m.write (buf.take k) p = q at hok₁ hfile₁ hready₁
    obtain ⟨r, m₁⟩ := q
    obtain rfl : r = .ok () := hok₁
    obtain ⟨hok₂, hfile₂⟩ := file_write hready₁ (buf.drop k) (o := p + k)
      (by rw [List.length_drop]; omega)
    have hready₂ := (hready₁.write (buf.drop k) ((p + k : ℕ) : ℤ)).1
    rw [Nat.cast_add] at hok₂ hfile₂ hready₂
    generalize hw : m₁.write (buf.drop k) ((p : ℤ) + k) = q at hok₂ hfile₂ hready₂
    obtain ⟨r, m₂⟩ := q
    obtain rfl : r = .ok () := hok₂
    dsimp only at hfile₁ hfile₂ hready₂
    rw [hfile₁, BlockFile.write_write buf hk, ← hfile] at hfile₂
    refine ⟨m₁, m₂, rfl, hw, congrArg BlockFile.size hfile₂, fun n o => ?_⟩
    rw [(read_reply hready₂ n o).1, (read_reply hready n o).1, hfile₂]

end Write

/-- `write_law` for writing one byte to an empty file. -/
theorem write_law_one_byte :
    letI := wireProto
    ((init (new InMemoryStorage.new)).2.write [1] 0).1 = .ok () ∧
      ((init (new InMemoryStorage.new)).2.write [1] 0).2.logicalSize = 1 := by
  let _ := wireProto
  have h := @write_law InMemoryStorage _ wireProto InMemoryStorage.new rfl
    (init (new InMemoryStorage.new)).2 (.init .new) rfl [1] 0 rfl
  exact ⟨h.1, h.2.1⟩

end SqliteGcs
