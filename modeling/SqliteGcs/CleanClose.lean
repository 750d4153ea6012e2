import SqliteGcs.LocalStorage
import SqliteGcs.LogicalSize
import SqliteGcs.ReadLaws
import SqliteGcs.Vfs

set_option relaxedAutoImplicit false
set_option autoImplicit false

/-!
# Closing and opening again

`xClose` does not sync: what was written since the last `xSync` is buffered in the mapper and goes
with it. A file that is opened again is the one of the last `xSync`, with a size that recovery
rounds up to whole blocks unless a truncation set it. So the bytes of a file survive a close exactly
if the calls after the last `xSync` leave them as they were and do not make the file longer than
that.

## Main definitions

* `SqliteGcs.xCalls` — a run of calls on an open file that all succeed.
* `SqliteGcs.fileAfter` — the abstract file after a run on an empty one.
* `SqliteGcs.syncedPart` — the calls up to the last `xSync`.
* `SqliteGcs.LosesNothing` — the condition.

## Main results

* `SqliteGcs.synced_of_runOk` — what a run leaves in the log.
* `SqliteGcs.close_keeps_iff` — when a clean close loses nothing.
* `SqliteGcs.close_loses_byte` — a byte that is lost.
-/

namespace SqliteGcs

open Bytes PageTable BlockMapper

/-! ## The calls of the engine -/

section Methods

variable {σ : Type} [AppendOnlyStorage σ] [MetadataProto]

/-- A call of one of the methods that change a file. -/
def xCall : Op → AppendOnlyFile σ → ResultCode × AppendOnlyFile σ
  | .write buf iOfst, file => xWrite buf iOfst file
  | .truncate size, file => xTruncate size file
  | .sync, file => xSync file

/-- The file after calls that all have to return `SQLITE_OK`. -/
def xCalls : List Op → AppendOnlyFile σ → Option (AppendOnlyFile σ)
  | [], file => some file
  | op :: ops, file =>
    match xCall op file with
    | (.ok, file) => xCalls ops file
    | _ => none

/-- A method of an open file makes the call of the mapper, and has one code for its errors. -/
lemma xCall_eq (op : Op) (m : BlockMapper σ) :
    ∃ code, code ≠ .ok ∧ xCall op ⟨some m⟩ =
      (if (op.run m).1.isOk then .ok else code, ⟨some (op.run m).2⟩) := by
  cases op with
  | write buf off =>
    refine ⟨.ioerrWrite, by decide, ?_⟩
    rw [xCall, xWrite, Op.run]
    dsimp only
    rcases m.write buf off with ⟨e | u, m'⟩ <;> rfl
  | truncate size =>
    refine ⟨.ioerrTruncate, by decide, ?_⟩
    rw [xCall, xTruncate, Op.run]
    dsimp only
    rcases m.truncate size with ⟨e | u, m'⟩ <;> rfl
  | sync =>
    refine ⟨.ioerrDirty, by decide, ?_⟩
    rw [xCall, xSync, Op.run]
    dsimp only
    rcases m.sync with ⟨e | u, m'⟩ <;> rfl

/-- A method that succeeds is a call of the mapper that does. -/
lemma run_of_xCall {op : Op} {m : BlockMapper σ} {file : AppendOnlyFile σ}
    (h : xCall op ⟨some m⟩ = (.ok, file)) : ∃ m', op.run m = (.ok (), m') ∧ file = ⟨some m'⟩ := by
  obtain ⟨code, hcode, heq⟩ := xCall_eq op m
  rw [heq] at h
  generalize op.run m = p at h
  obtain ⟨e | u, m'⟩ := p
  · exact absurd (congrArg Prod.fst h) hcode
  · exact ⟨m', rfl, (congrArg Prod.snd h).symm⟩

/-- A run of methods that succeed is one of calls of the mapper that do. -/
lemma runOk_of_xCalls {ops : List Op} {m : BlockMapper σ} {file : AppendOnlyFile σ}
    (h : xCalls ops ⟨some m⟩ = some file) : ∃ m', runOk ops m = .ok m' ∧ file = ⟨some m'⟩ := by
  induction ops generalizing m with
  | nil => exact ⟨m, rfl, (Option.some.inj h).symm⟩
  | cons op ops ih =>
    rw [xCalls] at h
    cases hcall : xCall op ⟨some m⟩ with
    | mk code file₁ =>
      rw [hcall] at h
      cases code with
      | ok =>
        obtain ⟨m₁, hrun, rfl⟩ := run_of_xCall hcall
        rw [runOk_cons hrun]
        exact ih h
      | _ => cases h

/-- A file that was opened has a mapper that `Init` recovered. -/
lemma init_of_openMapper {s : σ} {file : AppendOnlyFile σ} (h : openMapper s = (.ok, some file)) :
    ∃ m, init (new s) = (.ok (), m) ∧ file = ⟨some m⟩ := by
  rw [openMapper] at h
  generalize init (new s) = p at h ⊢
  obtain ⟨r, m⟩ := p
  cases r with
  | error e => cases h
  | ok u => exact ⟨m, rfl, (Option.some.inj (congrArg Prod.snd h)).symm⟩

end Methods

/-! ## The abstract file after a run -/

/-- The effect of a successful call on the abstract file. -/
def BlockFile.apply (f : BlockFile) : Op → BlockFile
  | .write buf off => f.write buf off.toNat
  | .truncate n => f.truncate n
  | .sync => f

/-- An empty file. -/
def BlockFile.empty : BlockFile := ⟨0, fun _ => false, fun _ => 0⟩

/-- The abstract file after a run of successful calls on an empty one. -/
def fileAfter (ops : List Op) : BlockFile := ops.foldl BlockFile.apply .empty

/-- The calls up to the last `xSync`. -/
def syncedPart : List Op → List Op
  | [] => []
  | op :: ops => if .sync ∈ op :: ops then op :: syncedPart ops else []

/-- The size that recovery finds for calls that were synced: the last truncation, or the end of the
last block that was written after it. -/
def recoveredSizeAfter (ops : List Op) : ℤ :=
  max (sizeTrace ops).1 (ceilBlocks (sizeTrace ops).2 * 4096)

/-- **The condition for a clean close**: the file is not longer than what recovery finds for the
calls up to the last `xSync`, and the calls after it leave the bytes of the file as they were. -/
def LosesNothing (ops : List Op) : Prop :=
  (fileAfter ops).size ≤ recoveredSizeAfter (syncedPart ops) ∧
    ∀ i : ℕ, i < (fileAfter ops).size →
      (fileAfter (syncedPart ops)).byte i = (fileAfter ops).byte i

/-- A run is the part up to the last `xSync`, which is empty or ends with it, and calls without
another. -/
lemma syncedPart_append (ops : List Op) :
    ∃ rest, ops = syncedPart ops ++ rest ∧ Op.sync ∉ rest ∧
      (syncedPart ops = [] ∨ ∃ pre, syncedPart ops = pre ++ [.sync]) := by
  induction ops with
  | nil => exact ⟨[], rfl, by simp, Or.inl rfl⟩
  | cons op ops ih =>
    obtain ⟨rest, hops, hrest, hend⟩ := ih
    rw [syncedPart]
    by_cases hmem : Op.sync ∈ op :: ops
    · rw [if_pos hmem]
      refine ⟨rest, by rw [List.cons_append, ← hops], hrest, Or.inr ?_⟩
      rcases hend with hnil | ⟨pre, hpre⟩
      · rw [hnil, List.nil_append] at hops
        rcases List.mem_cons.mp hmem with rfl | hmem
        · exact ⟨[], by rw [hnil, List.nil_append]⟩
        · exact absurd (hops ▸ hmem) hrest
      · exact ⟨op :: pre, by rw [hpre, List.cons_append]⟩
    · rw [if_neg hmem]
      exact ⟨op :: ops, rfl, hmem, Or.inl rfl⟩

section Runs

variable [MetadataProto] {σ : Type} [AtomicLog σ]

omit [MetadataProto] in
/-- A mapper that holds a file is ready. -/
lemma Holds.file_eq {m : BlockMapper σ} {f : BlockFile} (h : Holds m (some f)) :
    Ready m ∧ m.file = f := by
  cases h with
  | ready h => exact ⟨h, rfl⟩

/-- A successful call has its effect on the file that the mapper holds. Only `Sync` changes what is
in the log. -/
lemma file_op {m m' : BlockMapper σ} (h : Ready m) {op : Op} (hop : op.run m = (.ok (), m')) :
    Ready m' ∧ m'.file = m.file.apply op ∧ (op ≠ .sync → bytes m'.storage = bytes m.storage) := by
  obtain rfl : (op.run m).2 = m' := by rw [hop]
  have hok : (op.run m).1 = .ok () := by rw [hop]
  cases op with
  | write buf off =>
    obtain ⟨hreply, hholds⟩ := (Holds.ready h).write buf off
    have hok' : (BlockFile.tryWrite buf off (some m.file)).1 = .ok () := hreply.symm.trans hok
    rw [BlockFile.tryWrite] at hok' hholds
    split_ifs at hok' hholds
    exact ⟨hholds.file_eq.1, hholds.file_eq.2, fun _ => (h.write buf off).2⟩
  | truncate n =>
    obtain ⟨hreply, hholds⟩ := (Holds.ready h).truncate n
    have hok' : (BlockFile.tryTruncate n (some m.file)).1 = .ok () := hreply.symm.trans hok
    rw [BlockFile.tryTruncate] at hok' hholds
    split_ifs at hok' hholds
    cases hs : MetadataProto.serializeToString n with
    | none =>
      rw [hs] at hok'
      cases hok'
    | some serialized =>
      rw [hs] at hok' hholds
      dsimp only at hok' hholds
      split_ifs at hok' hholds
      exact ⟨hholds.file_eq.1, hholds.file_eq.2, fun _ => (h.truncate n).2⟩
  | sync => exact ⟨h.sync.1, file_sync h, fun hns => absurd rfl hns⟩

/-- A run of successful calls has its effect on the file that the mapper holds. -/
lemma file_runOk {m m' : BlockMapper σ} (h : Ready m) {ops : List Op}
    (hrun : runOk ops m = .ok m') :
    Ready m' ∧ m'.file = ops.foldl BlockFile.apply m.file ∧
      (Op.sync ∉ ops → bytes m'.storage = bytes m.storage) := by
  induction ops generalizing m with
  | nil =>
    obtain rfl := Except.ok.inj hrun
    exact ⟨h, rfl, fun _ => rfl⟩
  | cons op ops ih =>
    rw [runOk] at hrun
    generalize hop : op.run m = p at hrun
    obtain ⟨r, m₁⟩ := p
    cases r with
    | error e => cases hrun
    | ok u =>
      obtain ⟨hready, hfile, hbytes⟩ := file_op h hop
      obtain ⟨hready', hfile', hbytes'⟩ := ih hready hrun
      refine ⟨hready', by rw [hfile', hfile, List.foldl_cons], fun hns => ?_⟩
      rw [List.mem_cons, not_or] at hns
      rw [hbytes' hns.2, hbytes (Ne.symm hns.1)]

/-- **What a run of successful calls leaves in an empty log**: the file after the calls up to the
last `xSync`, with the size that recovery finds for them.

**Proof sketch.** The calls after the last `xSync` do not touch the log (`file_runOk`). At that
`xSync` nothing was buffered, so the log recovers to the live table (`Live.recovered_eq`), and to
the size that the records in it carry (`Sized.recovered_size`). -/
theorem synced_of_runOk (hp : MetadataProto.RoundTrips) {s : σ} (hv : Valid s)
    (hempty : bytes s = []) {ops : List Op} {m : BlockMapper σ}
    (hrun : runOk ops (init (new s)).2 = .ok m) {τ : Type} [AtomicLog τ] {t : τ} (ht : Valid t)
    (hbytes : bytes t = bytes m.storage) :
    Ready m ∧ m.file.InRange ∧ m.file = fileAfter ops ∧ ∃ m', init (new t) = (.ok (), m') ∧
      Ready m' ∧ m'.file.InRange ∧ m'.logicalSize = recoveredSizeAfter (syncedPart ops) ∧
      m'.file.byte = (fileAfter (syncedPart ops)).byte := by
  obtain ⟨s', hi, hb, hv'⟩ := init_empty hv hempty
  obtain ⟨m₀, hm₀⟩ : ∃ m₀, m₀ = opened Logical.empty s' := ⟨_, rfl⟩
  rw [hi, ← hm₀] at hrun
  have hsized₀ : Sized m₀ [] 0 0 := hm₀ ▸ sized_empty hv' hb
  have hfile₀ : m₀.file = .empty := by
    rw [hm₀]
    refine BlockFile.ext rfl rfl ?_
    funext i
    exact (List.getD_replicate (0 : UInt8) (Nat.mod_lt i (by decide)))
  obtain ⟨hready, hfile, -⟩ := file_runOk hsized₀.toReady hrun
  obtain ⟨_, hsized_m⟩ := hsized₀.runOk hp (t := (0, 0)) hrun
  obtain ⟨rest, hops, hrest, hend⟩ := syncedPart_append ops
  rw [hops] at hrun
  obtain ⟨m₁, h₁, h₂⟩ := runOk_append hrun
  obtain ⟨hready₁, hfile₁, -⟩ := file_runOk hsized₀.toReady h₁
  obtain ⟨-, -, hlog⟩ := file_runOk hready₁ h₂
  -- nothing is buffered at the last `xSync`
  obtain ⟨recs, hsized, hpending⟩ : ∃ recs, Sized m₁ recs (sizeTrace (syncedPart ops)).1
      (sizeTrace (syncedPart ops)).2 ∧ m₁.pendingRecords = [] := by
    rcases hend with hnil | ⟨pre, hpre⟩
    · rw [hnil] at h₁ ⊢
      obtain rfl := Except.ok.inj h₁
      exact ⟨[], hsized₀, by rw [hm₀]; rfl⟩
    · rw [hpre] at h₁ ⊢
      obtain ⟨m₂, h₃, h₄⟩ := runOk_append h₁
      obtain ⟨recs, hsized₂⟩ := hsized₀.runOk hp (t := (0, 0)) h₃
      rw [runOk] at h₄
      generalize hop : Op.run .sync m₂ = p at h₄
      obtain ⟨r, m₃⟩ := p
      cases r with
      | error e => cases h₄
      | ok u =>
        obtain rfl : m₃ = m₁ := Except.ok.inj h₄
        obtain rfl : m₂.sync.2 = m₃ := congrArg Prod.snd hop
        obtain ⟨recs', hsized', hpending'⟩ := hsized₂.sync (congrArg Prod.fst hop)
        refine ⟨recs', ?_, hpending'⟩
        rwa [sizeTrace, List.foldl_append]
  have hlog' : bytes t = bytes m₁.storage := hbytes.trans (hlog hrest)
  obtain ⟨t', hi', hb', hvt'⟩ := init_of_aligned ht (by rw [hlog']; exact hsized.aligned)
    (by rw [hlog']; exact hsized.records_eq)
  obtain ⟨-, -, -, -, htable, -⟩ := hsized.toLive.recovered_eq hpending
  have hsize := hsized.recovered_size
  rw [hpending, List.foldl_nil, recoveredBefore_of_settled (hsized.settled hpending)] at hsize
  obtain ⟨hready', hrange'⟩ := ready_of_reachable ht (.init .new) (by rw [hi']; rfl)
  rw [hi'] at hready' hrange'
  refine ⟨hready, ⟨hsized_m.size_nonneg, hsized_m.size_upper⟩, by rw [hfile, hfile₀]; rfl, _, hi',
    hready', hrange', hsize, ?_⟩
  have hbyte : (opened (recovered recs) t').file.byte = m₁.file.byte := by
    show SqliteGcs.byteAt (bytes t') (recovered recs).logicalToPhysical [] =
      SqliteGcs.byteAt (bytes m₁.storage) m₁.logicalToPhysical m₁.pendingRecords
    rw [htable, hpending, hb', hlog']
  rw [hbyte, hfile₁, hfile₀]
  rfl

omit [MetadataProto] in
/-- Reading one byte of a file. -/
lemma xRead_one {m : BlockMapper σ} (h : Ready m) (hr : m.file.InRange) (i : ℕ) :
    (xRead 1 i ⟨some m⟩).1 =
      if (i : ℤ) < m.logicalSize then (.ok, [m.file.byte i]) else (.ioerrShortRead, [0]) := by
  have hsize : ((m.logicalSize.toNat : ℕ) : ℤ) = m.logicalSize := Int.toNat_of_nonneg hr.1
  rw [xRead_spec h hr.1 hr.2, view, FileView.read]
  dsimp only
  rw [hsize]
  by_cases hi : (i : ℤ) < m.logicalSize
  · rw [if_neg (by omega), if_neg (by omega), if_neg (by push_cast; omega), if_pos hi]
    rfl
  · rw [if_pos (by omega), if_neg hi]
    rfl

end Runs

/-- **When a clean close loses nothing.** A main database file is opened on an empty local path,
any calls are made that all succeed, the file is closed, and the path opened again, with no failing
system call. The new file opens, and every byte below the old size reads as before exactly if the
calls after the last `xSync` leave these bytes as they were, and the file is not longer than what
recovery finds for the calls up to it.

**Proof sketch.** The destructors drop what is buffered, so the log is what the last `xSync` left in
it, and recovers to the file of that call (`synced_of_runOk`). -/
theorem close_keeps_iff [MetadataProto] (hp : MetadataProto.RoundTrips) {s t : LocalStorage}
    (hs : s.Clean) (hempty : s.file = []) {file₀ file : AppendOnlyFile LocalStorage}
    (hopen : openMapper s = (.ok, some file₀)) {ops : List Op} (hrun : xCalls ops file₀ = some file)
    (ht : t.Clean) (hclose : (xClose file).2.map (·.file) = some t.file) :
    ∃ file', openMapper t = (.ok, some file') ∧
      ((∀ i : ℕ, i < (xFileSize file).2 → (xRead 1 i file').1 = (xRead 1 i file).1) ↔
        LosesNothing ops) := by
  obtain ⟨m₀, hinit, rfl⟩ := init_of_openMapper hopen
  obtain ⟨m, hrun', rfl⟩ := runOk_of_xCalls hrun
  have hbytes : bytes t = bytes m.storage := (Option.some.inj hclose).symm
  obtain ⟨hready, hrange, hfile, m', hinit', hready', hrange', hsize, hbyte⟩ :=
    synced_of_runOk hp hs hempty (by rw [hinit]; exact hrun') ht hbytes
  refine ⟨⟨some m'⟩, by rw [openMapper, hinit'], ?_⟩
  have hone : ∀ i : ℕ, i < m.logicalSize →
      ((xRead 1 i ⟨some m'⟩).1 = (xRead 1 i ⟨some m⟩).1 ↔
        (i : ℤ) < recoveredSizeAfter (syncedPart ops) ∧
          (fileAfter (syncedPart ops)).byte i = (fileAfter ops).byte i) := by
    intro i hi
    rw [xRead_one hready hrange, xRead_one hready' hrange', if_pos hi, hsize, hbyte, hfile]
    split_ifs with h
    · simp [h]
    · simp [h]
  have hsz : m.logicalSize = (fileAfter ops).size := by
    rw [← hfile]
    rfl
  have hnonneg : 0 ≤ recoveredSizeAfter (syncedPart ops) := hsize ▸ hrange'.1
  show (∀ i : ℕ, i < m.logicalSize → _) ↔ _
  unfold LosesNothing
  rw [← hsz]
  constructor
  · intro h
    refine ⟨?_, fun i hi => ((hone i hi).mp (h i hi)).2⟩
    by_contra hlt
    have hi : ((recoveredSizeAfter (syncedPart ops)).toNat : ℤ) < m.logicalSize := by omega
    have := ((hone _ hi).mp (h _ hi)).1
    omega
  · intro h i hi
    exact (hone i hi).mpr ⟨by omega, h.2 i hi⟩

/-- `close_keeps_iff` for writing one byte and syncing. -/
theorem close_keeps_iff_synced_byte :
    letI := wireProto
    ∃ (file : AppendOnlyFile LocalStorage) (t : LocalStorage) (file' : AppendOnlyFile LocalStorage),
      (xClose file).2.map (·.file) = some t.file ∧ openMapper t = (.ok, some file') ∧
        ((∀ i : ℕ, i < (xFileSize file).2 → (xRead 1 i file').1 = (xRead 1 i file).1) ↔
          LosesNothing [.write [1] 0, .sync]) := by
  let _ := wireProto
  have hsome : ((openMapper (LocalStorage.ofFile [])).2.bind
      (xCalls [.write [1] 0, .sync])).isSome = true := by decide +kernel
  obtain ⟨file, hfile⟩ := Option.isSome_iff_exists.mp hsome
  obtain ⟨file₀, hopen₀, hrun⟩ := Option.bind_eq_some_iff.mp hfile
  have hopen : openMapper (LocalStorage.ofFile []) = (.ok, some file₀) := Prod.ext rfl hopen₀
  obtain ⟨m₀, -, rfl⟩ := init_of_openMapper hopen
  obtain ⟨m, -, rfl⟩ := runOk_of_xCalls hrun
  obtain ⟨file', hopen', hiff⟩ := close_keeps_iff wireProto_roundTrips (clean_ofFile []) rfl hopen
    hrun (clean_ofFile m.storage.file) rfl
  exact ⟨⟨some m⟩, .ofFile m.storage.file, file', rfl, hopen', hiff⟩

/-- **A clean close loses a byte** that was written and not synced: `xWrite` succeeds, the file is
closed and opened again, and a read of the byte is short. -/
theorem close_loses_byte :
    letI := wireProto
    ∃ file₀ file file' : AppendOnlyFile LocalStorage,
      openMapper (LocalStorage.ofFile []) = (.ok, some file₀) ∧
      xCalls [.write [1] 0] file₀ = some file ∧ (xFileSize file).2 = 1 ∧
      (xRead 1 0 file).1 = (.ok, [1]) ∧
      ((xClose file).2.map fun s => (openMapper (LocalStorage.ofFile s.file))) =
        some (.ok, some file') ∧
      (xRead 1 0 file').1 = (.ioerrShortRead, [0]) := by
  exact ⟨_, _, _, rfl, rfl, rfl, by decide +kernel, rfl, by decide +kernel⟩

end SqliteGcs
