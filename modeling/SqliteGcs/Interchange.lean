import SqliteGcs.BlockFile
import SqliteGcs.Composition

set_option relaxedAutoImplicit false
set_option autoImplicit false

/-!
# A mapper over two storages

The mapper uses its storage only through the four operations of `AppendOnlyStorage`. So two mappers
over different storages go in lockstep as long as the operations do.

## Main definitions

* `SqliteGcs.MapperCall` — a call of a mapper, `Init` among them.
* `SqliteGcs.StorageLockstep` — the operations of two storages go in lockstep.
* `SqliteGcs.SameMapper` — two mappers that differ at most in their storages.

## Main results

* `SqliteGcs.StorageLockstep.call` — the calls of two mappers go in lockstep.
-/

namespace SqliteGcs

open Bytes BlockMapper Machine

/-- A call of a mapper, `Init` among them. -/
inductive MapperCall
  | init
  | call (c : Call)

/-- The reply to a call, and the state after it. -/
def MapperCall.run {σ : Type} [AppendOnlyStorage σ] [MetadataProto] :
    MapperCall → BlockMapper σ → Reply × BlockMapper σ
  | .init, m =>
    let (result, m) := m.init
    (.done result, m)
  | .call c, m => c.run m

section Definitions

variable {σ τ : Type}

/-- The mapper over another storage. -/
def BlockMapper.withStorage (m : BlockMapper σ) (t : τ) : BlockMapper τ where
  toLogical := m.toLogical
  storage := t
  pendingRecords := m.pendingRecords
  initialized := m.initialized

/-- **Two mappers that differ at most in their storages**, which are related. -/
def SameMapper (R : σ → τ → Prop) (m : BlockMapper σ) (m' : BlockMapper τ) : Prop :=
  ∃ t, m' = m.withStorage t ∧ R m.storage t

/-- The operations of two storages go in lockstep. -/
structure StorageLockstep [AppendOnlyStorage σ] [AppendOnlyStorage τ] (R : σ → τ → Prop)
    (Bad : σ → Prop) : Prop where
  append : ∀ data, Lockstep R Bad (append data) (append data)
  pRead : ∀ size offset, Lockstep R Bad (pRead size offset) (pRead size offset)
  getSize : Lockstep R Bad getSize getSize
  sync : Lockstep R Bad AppendOnlyStorage.sync AppendOnlyStorage.sync

/-- Functions of two mappers go in lockstep; a mapper is spoiled if its storage is. -/
abbrev MapperLockstep {α : Type} (R : σ → τ → Prop) (Bad : σ → Prop)
    (f : BlockMapper σ → α × BlockMapper σ) (g : BlockMapper τ → α × BlockMapper τ) : Prop :=
  Lockstep (SameMapper R) (fun m => Bad m.storage) f g

end Definitions

variable {σ τ : Type} [AppendOnlyStorage σ] [AppendOnlyStorage τ] {R : σ → τ → Prop}
  {Bad : σ → Prop}

namespace StorageLockstep

/-! ## Functions of the storage -/

/-- The padding of `Init`. -/
lemma padStorage (h : StorageLockstep R Bad) :
    Lockstep R Bad BlockMapper.padStorage BlockMapper.padStorage := by
  rw [padStorage_eq, padStorage_eq]
  refine h.getSize.andThen fun P => ?_
  split_ifs
  · exact (h.append _).andThen fun _ => h.getSize
  · exact .pure _

/-- Fetching a part of a block. -/
lemma readBlock (h : StorageLockstep R Bad) (m : BlockMapper σ) (t : τ)
    (blockIndex blockOffset blockLen : ℤ) :
    Lockstep R Bad (m.readBlock blockIndex blockOffset blockLen)
      ((m.withStorage t).readBlock blockIndex blockOffset blockLen) := by
  have hp : (m.withStorage t).pendingRecords = m.pendingRecords := rfl
  have hl : (m.withStorage t).logicalToPhysical = m.logicalToPhysical := rfl
  rw [readBlock_eq, readBlock_eq, hp, hl]
  cases m.pendingRecords.reverse.find? (·.blockIndex = blockIndex) with
  | some pr => exact .pure _
  | none =>
    dsimp only
    by_cases hbase : (if blockIndex ≥ 0 ∧ blockIndex < m.logicalToPhysical.length then
        m.logicalToPhysical.getD blockIndex.toNat (-1) else -1) ≠ -1
    · rw [if_pos hbase, if_pos hbase]
      refine (h.pRead _ _).andThen fun bytes => ?_
      split_ifs
      · exact .pure _
      · exact .pure _
    · rw [if_neg hbase, if_neg hbase]
      exact .pure _

/-- The loop of `ReadLocked`. -/
lemma readLoop (h : StorageLockstep R Bad) (m : BlockMapper σ) (t : τ) (fuel : ℕ)
    (remainingSize currentOffset : ℤ) :
    Lockstep R Bad (m.readLoop fuel remainingSize currentOffset)
      ((m.withStorage t).readLoop fuel remainingSize currentOffset) := by
  induction fuel generalizing remainingSize currentOffset with
  | zero => exact .pure _
  | succ fuel ih =>
    rw [readLoop_succ, readLoop_succ]
    split_ifs
    · exact (h.readBlock m t _ _ _).andThen fun part => (ih _ _).andThen fun rest => .pure _
    · exact .pure _

section Metadata

variable [MetadataProto]

/-- The scan of `Init`. -/
lemma scan (h : StorageLockstep R Bad) (P : ℤ) (fuel : ℕ) (offset : ℤ) :
    Lockstep R Bad (BlockMapper.scan P fuel offset) (BlockMapper.scan P fuel offset) := by
  induction fuel generalizing offset with
  | zero => exact .pure _
  | succ fuel ih =>
    rw [scan_succ, scan_succ]
    by_cases hlt : offset < P
    · rw [if_pos hlt, if_pos hlt]
      refine (h.pRead _ _).andThen fun recordBuf => ?_
      by_cases hlen : recordBuf.length ≠ 4105
      · rw [if_pos hlen, if_pos hlen]
        exact .pure _
      · rw [if_neg hlen, if_neg hlen]
        cases parseRecord offset recordBuf with
        | error e => exact .pure _
        | ok rec => exact (ih _).andThen fun recs => .pure _
    · rw [if_neg hlt, if_neg hlt]
      exact .pure _

end Metadata

/-! ## Functions of the mapper -/

omit [AppendOnlyStorage σ] [AppendOnlyStorage τ] in
/-- A function of the storage that a mapper calls. -/
lemma onStorage [Nonempty τ] {α : Type} {f : BlockMapper σ → σ → α × σ}
    {g : BlockMapper τ → τ → α × τ} (hfg : ∀ m t, Lockstep R Bad (f m) (g (m.withStorage t))) :
    MapperLockstep R Bad (BlockMapper.onStorage f) (BlockMapper.onStorage g) where
  bad m hm := (hfg m (Classical.arbitrary τ)).bad m.storage hm
  agree := by
    rintro m _ ⟨t, rfl, hR⟩ hbad
    obtain ⟨h1, h2⟩ := (hfg m t).agree m.storage t hR hbad
    exact ⟨h1, _, rfl, h2⟩

/-- `ReadLocked`. -/
lemma readLocked [Nonempty τ] (h : StorageLockstep R Bad) (size : ℕ) (logicalOffset : ℤ) :
    MapperLockstep R Bad (BlockMapper.readLocked size logicalOffset)
      (BlockMapper.readLocked size logicalOffset) := by
  rw [readLocked_eq, readLocked_eq]
  split_ifs
  · exact .pure _
  · exact .pure _
  · exact onStorage fun m t => h.readLoop m t _ _ _

/-- The loop of `Write`. -/
lemma writeLoop [Nonempty τ] (h : StorageLockstep R Bad) (buf : List UInt8) (logicalOffset : ℤ)
    (n : ℕ) (b : ℤ) : MapperLockstep R Bad (BlockMapper.writeLoop buf logicalOffset n b)
      (BlockMapper.writeLoop buf logicalOffset n b) := by
  induction n generalizing b with
  | zero => exact .pure _
  | succ n ih =>
    -- a record that both mappers buffer
    have hpush : ∀ pr : PendingRecord, MapperLockstep R Bad
        (fun m => BlockMapper.writeLoop buf logicalOffset n (b + 1)
          { m with pendingRecords := m.pendingRecords ++ [pr] })
        (fun m => BlockMapper.writeLoop buf logicalOffset n (b + 1)
          { m with pendingRecords := m.pendingRecords ++ [pr] }) := by
      intro pr
      refine (ih (b + 1)).comp (fun _ hm => hm) ?_
      rintro m _ ⟨t, rfl, hR⟩
      exact ⟨t, rfl, hR⟩
    rw [writeLoop_succ, writeLoop_succ]
    dsimp only
    split_ifs
    · exact (h.readLocked _ _).andThen fun blockData => hpush _
    · exact hpush _

omit [AppendOnlyStorage σ] [AppendOnlyStorage τ] in
/-- A function of the mapper that depends on the part of its state which is not the storage. -/
lemma look {α γ : Type} {f : γ → BlockMapper σ → α × BlockMapper σ}
    {g : γ → BlockMapper τ → α × BlockMapper τ} (h : ∀ c, MapperLockstep R Bad (f c) (g c))
    {φ : BlockMapper σ → γ} {ψ : BlockMapper τ → γ} (hφ : ∀ m t, φ m = ψ (m.withStorage t)) :
    MapperLockstep R Bad (fun m => f (φ m) m) (fun m => g (ψ m) m) := by
  refine Lockstep.look h ?_
  rintro m _ ⟨t, rfl, -⟩
  exact hφ m t

omit [AppendOnlyStorage σ] [AppendOnlyStorage τ] in
/-- A check of the part of the state that is not the storage, in front of two functions. -/
lemma check {α : Type} {f f' : BlockMapper σ → α × BlockMapper σ}
    {g g' : BlockMapper τ → α × BlockMapper τ} {p : BlockMapper σ → Prop}
    {q : BlockMapper τ → Prop} [DecidablePred p] [DecidablePred q]
    (hpq : ∀ m t, p m ↔ q (m.withStorage t)) (h : MapperLockstep R Bad f g)
    (h' : MapperLockstep R Bad f' g') :
    MapperLockstep R Bad (fun m => if p m then f m else f' m)
      (fun m => if q m then g m else g' m) := by
  refine h.ite ?_ h'
  rintro m _ ⟨t, rfl, -⟩
  exact hpq m t

omit [AppendOnlyStorage σ] [AppendOnlyStorage τ] in
/-- A change of the part of the state that is not the storage, in front of a function. -/
lemma update {α : Type} {f : BlockMapper σ → α × BlockMapper σ}
    {g : BlockMapper τ → α × BlockMapper τ} (h : MapperLockstep R Bad f g)
    {u : BlockMapper σ → BlockMapper σ} {v : BlockMapper τ → BlockMapper τ}
    (hu : ∀ m, (u m).storage = m.storage)
    (huv : ∀ m t, v (m.withStorage t) = (u m).withStorage t) :
    MapperLockstep R Bad (fun m => f (u m)) (fun m => g (v m)) := by
  refine h.comp (fun m hm => by rwa [hu]) ?_
  rintro m _ ⟨t, rfl, hR⟩
  exact ⟨t, huv m t, by rwa [hu]⟩

/-- `Read`. -/
lemma read [Nonempty τ] (h : StorageLockstep R Bad) (size : ℕ) (logicalOffset : ℤ) :
    MapperLockstep R Bad (BlockMapper.read size logicalOffset)
      (BlockMapper.read size logicalOffset) :=
  check (fun _ _ => Iff.rfl) (.pure _) <|
    check (fun _ _ => Iff.rfl) (.pure _) (h.readLocked size logicalOffset)

/-- `Write`. -/
lemma write [Nonempty τ] (h : StorageLockstep R Bad) (buf : List UInt8) (logicalOffset : ℤ) :
    MapperLockstep R Bad (BlockMapper.write buf logicalOffset)
      (BlockMapper.write buf logicalOffset) := by
  rw [write_eq, write_eq]
  refine check (fun _ _ => Iff.rfl) (.pure _) (check (fun _ _ => Iff.rfl) (.pure _)
    (check (fun _ _ => Iff.rfl) (.pure _) ((h.writeLoop buf logicalOffset _ _).andThen fun _ => ?_)))
  exact update (.pure _) (fun _ => rfl) fun _ _ => rfl

/-- The loop of `Sync`. -/
lemma syncLoop [Nonempty τ] (h : StorageLockstep R Bad) (P : List PendingRecord) :
    MapperLockstep R Bad (BlockMapper.syncLoop P) (BlockMapper.syncLoop P) := by
  induction P with
  | nil => exact .pure _
  | cons pr rest ih =>
    rw [syncLoop_cons, syncLoop_cons]
    refine (onStorage fun _ _ => h.append _).andThen fun physicalOffset => ?_
    exact update ih (fun _ => rfl) fun _ _ => rfl

/-- `Sync`. -/
lemma mapperSync [Nonempty τ] (h : StorageLockstep R Bad) :
    MapperLockstep R Bad BlockMapper.sync BlockMapper.sync := by
  rw [sync_eq, sync_eq]
  have hstorage : MapperLockstep R Bad (BlockMapper.onStorage fun _ => AppendOnlyStorage.sync)
      (BlockMapper.onStorage fun _ => AppendOnlyStorage.sync) := onStorage fun _ _ => h.sync
  refine check (fun _ _ => Iff.rfl) (.pure _) (check (fun _ _ => Iff.rfl) hstorage ?_)
  refine look (f := fun P => andThen (BlockMapper.syncLoop P) fun _ m =>
      BlockMapper.onStorage (fun _ => AppendOnlyStorage.sync) { m with pendingRecords := [] })
    (g := fun P => andThen (BlockMapper.syncLoop P) fun _ m =>
      BlockMapper.onStorage (fun _ => AppendOnlyStorage.sync) { m with pendingRecords := [] })
    (fun P => (h.syncLoop P).andThen fun _ => ?_) fun _ _ => rfl
  exact update hstorage (fun _ => rfl) fun _ _ => rfl

section Metadata

variable [MetadataProto]

omit [AppendOnlyStorage σ] [AppendOnlyStorage τ] in
/-- `Truncate` does not use the storage. -/
lemma truncate (newSize : ℤ) : MapperLockstep R Bad (BlockMapper.truncate newSize)
    (BlockMapper.truncate newSize) := by
  unfold BlockMapper.truncate
  refine check (fun _ _ => Iff.rfl) (.pure _) (check (fun _ _ => Iff.rfl) (.pure _) ?_)
  cases MetadataProto.serializeToString newSize with
  | none => exact .pure _
  | some serialized =>
    dsimp only
    split_ifs
    · exact .pure _
    · exact update (.pure _) (fun _ => rfl) fun _ _ => rfl

/-- `Init`. -/
lemma init [Nonempty τ] (h : StorageLockstep R Bad) :
    MapperLockstep R Bad BlockMapper.init BlockMapper.init := by
  rw [init_eq, init_eq]
  refine check (fun _ _ => Iff.rfl) (.pure _) ((onStorage fun _ _ =>
    h.padStorage.andThen fun P => h.scan P _ _).andThen fun recs => ?_)
  exact update (.pure _) (fun _ => rfl) fun _ _ => rfl

/-- **The calls of two mappers go in lockstep** if the operations of their storages do. -/
theorem call [Nonempty τ] (h : StorageLockstep R Bad) (c : MapperCall) :
    MapperLockstep R Bad c.run c.run := by
  cases c with
  | init => exact h.init.map Reply.done
  | call c =>
    cases c with
    | read size logicalOffset => exact (h.read size logicalOffset).map Reply.data
    | op op =>
      cases op with
      | write buf logicalOffset => exact (h.write buf logicalOffset).map Reply.done
      | truncate newSize => exact (truncate newSize).map Reply.done
      | sync => exact h.mapperSync.map Reply.done

end Metadata

end StorageLockstep

end SqliteGcs
