import SqliteGcs.Lib.PlainFile
import SqliteGcs.Truncation
import SqliteGcs.CleanClose

set_option relaxedAutoImplicit false
set_option autoImplicit false

/-!
# The file methods and an ordinary file

What the database engine expects of a file is an ordinary one: bytes that are overwritten, extended
with zeros and cut. This file runs the file methods of the VFS beside such a file. They agree in
every result code, every byte and every size, through any run in which each truncation leaves
nothing behind in the block that it ends in; truncations to whole blocks and truncations that
extend the file are of this kind.

## Main definitions

* `SqliteGcs.IoCall` — a call of a file method, with `SqliteGcs.IoCall.run` on a file of the VFS and
  `SqliteGcs.IoCall.onContent` on the content of an ordinary file.
* `SqliteGcs.Plain` — a mapper that stands for the content of an ordinary file.
* `SqliteGcs.AllClear` — the condition on the truncations of a run.

## Main results

* `SqliteGcs.Plain.step`, `SqliteGcs.Plain.run` — calls keep a mapper and a content together.
* `SqliteGcs.vfs_file_is_ordinary` — a run on a new database agrees with the ordinary file.
-/

namespace SqliteGcs

open Bytes PageTable BlockMapper Machine

/-! ## Calls -/

/-- A call of a file method. -/
inductive IoCall
  | read (iAmt : ℕ) (iOfst : ℤ)
  | write (buf : List UInt8) (iOfst : ℤ)
  | truncate (size : ℤ)
  | sync
  | fileSize
  deriving DecidableEq

/-- What a call returns: the result code, and what it puts into the memory of its caller. -/
inductive IoReply
  | data (code : ResultCode) (buf : List UInt8)
  | code (code : ResultCode)
  | size (code : ResultCode) (pSize : ℤ)
  deriving DecidableEq

/-- Whether what a call returns does not depend on the storage. -/
def IoCall.visible : IoCall → Bool
  | .sync => false
  | _ => true

/-- The call on a file of the VFS. -/
def IoCall.run {σ : Type} [AppendOnlyStorage σ] [MetadataProto] :
    IoCall → AppendOnlyFile σ → IoReply × AppendOnlyFile σ
  | .read iAmt iOfst, file =>
    let r := xRead iAmt iOfst file
    (.data r.1.1 r.1.2, r.2)
  | .write buf iOfst, file =>
    let r := xWrite buf iOfst file
    (.code r.1, r.2)
  | .truncate size, file =>
    let r := xTruncate size file
    (.code r.1, r.2)
  | .sync, file =>
    let r := xSync file
    (.code r.1, r.2)
  | .fileSize, file => (.size (xFileSize file).1 (xFileSize file).2, file)

/-- The content of an ordinary file, as its readers see it. -/
def contentView (content : List UInt8) : FileView := ⟨content.length, fun i => content.getD i 0⟩

/-- The call on an ordinary file of at most 1000000 blocks. -/
def IoCall.onContent : IoCall → List UInt8 → IoReply × List UInt8
  | .read iAmt iOfst, content =>
    let r := (contentView content).read iAmt iOfst
    (.data r.1 r.2, content)
  | .write buf iOfst, content =>
    if 0 ≤ iOfst ∧ iOfst + buf.length ≤ 1000000 * 4096 then
      (.code .ok, PlainFile.write 0 buf iOfst.toNat content)
    else (.code .ioerrWrite, content)
  | .truncate size, content =>
    if 0 ≤ size ∧ size ≤ 1000000 * 4096 then
      (.code .ok, PageTable.resize 0 size.toNat content)
    else (.code .ioerrTruncate, content)
  | .sync, content => (.code .ok, content)
  | .fileSize, content => (.size .ok content.length, content)

/-- A truncation leaves nothing behind: the bytes from the new size to the end of its block are
zeros. -/
def IoCall.Clears (content : List UInt8) : IoCall → Prop
  | .truncate size => 0 ≤ size → size ≤ 1000000 * 4096 →
      ∀ i : ℕ, size ≤ i → (i : ℤ) < 4096 * ceilBlocks size → content.getD i 0 = 0
  | _ => True

/-- Every truncation of a run on an ordinary file leaves nothing behind. -/
def AllClear : List IoCall → List UInt8 → Prop :=
  Along IoCall.onContent fun c content => c.Clears content

/-- A truncation to whole blocks leaves nothing behind. -/
lemma IoCall.clears_of_aligned {size : ℤ} (h : size % 4096 = 0) (content : List UInt8) :
    (IoCall.truncate size).Clears content := by
  intro _ _ i hi hlt
  rw [ceilBlocks] at hlt
  omega

/-- A truncation that extends a file leaves nothing behind. -/
lemma IoCall.clears_of_extends {size : ℤ} {content : List UInt8} (h : content.length ≤ size) :
    (IoCall.truncate size).Clears content := by
  intro _ _ i hi _
  exact List.getD_eq_default _ _ (by omega)

/-! ## Content -/

/-- A file of blocks has the content of an ordinary file, and zeros behind it. -/
structure BlockFile.HasContent (f : BlockFile) (content : List UInt8) : Prop where
  size_eq : f.size = content.length
  byte_eq : ∀ i, f.byte i = content.getD i 0
  length_le : content.length ≤ 1000000 * 4096

namespace BlockFile.HasContent

variable {f : BlockFile} {content : List UInt8}

/-- Writing to both. -/
lemma write (h : f.HasContent content) {buf : List UInt8} {off : ℕ}
    (hrange : off + buf.length ≤ 1000000 * 4096) :
    (f.write buf off).HasContent (PlainFile.write 0 buf off content) := by
  have hlen := PlainFile.length_write 0 buf off content
  have hsize := h.size_eq
  have hle := h.length_le
  refine ⟨?_, fun i => ?_, ?_⟩
  · rw [size_write, hlen]
    by_cases hbuf : buf = []
    · subst hbuf
      exact hsize
    · have := List.length_pos_iff.mpr hbuf
      rw [if_pos this, if_neg hbuf]
      omega
  · rw [byte_write, PlainFile.getD_write, patch, h.byte_eq i]
  · rw [hlen]
    split_ifs <;> omega

/-- Cutting both. -/
lemma truncate (h : f.HasContent content) {n : ℤ} (h0 : 0 ≤ n) (h1 : n ≤ 1000000 * 4096)
    (hclear : (IoCall.truncate n).Clears content) :
    (f.truncate n).HasContent (PageTable.resize 0 n.toNat content) := by
  refine ⟨?_, fun i => ?_, ?_⟩
  · rw [length_resize]
    show n = (n.toNat : ℤ)
    omega
  · rw [getD_resize, ← h.byte_eq i]
    show (if ((i / 4096 : ℕ) : ℤ) < ceilBlocks n then f.byte i else 0) = _
    rcases lt_or_ge (i : ℤ) n with hlt | hge
    · rw [if_pos (by rw [ceilBlocks]; omega), if_pos (by omega)]
    rw [if_neg (by omega : ¬ i < n.toNat)]
    split_ifs with hblock
    · rw [h.byte_eq i]
      exact hclear h0 h1 i hge (by omega)
    · rfl
  · rw [length_resize]
    omega

end BlockFile.HasContent

/-! ## The methods -/

section Methods

variable {σ : Type} [AtomicLog σ]

/-- A mapper that stands for the content of an ordinary file. -/
structure Plain (m : BlockMapper σ) (content : List UInt8) : Prop where
  ready : Ready m
  content : m.file.HasContent content

namespace Plain

variable {m : BlockMapper σ} {content : List UInt8}

/-- The reply of `xRead`, and the mapper behind it. -/
lemma xRead (h : Plain m content) (iAmt : ℕ) (iOfst : ℤ) :
    (SqliteGcs.xRead iAmt iOfst ⟨some m⟩).1 = (contentView content).read iAmt iOfst ∧
      ∃ m', (SqliteGcs.xRead iAmt iOfst ⟨some m⟩).2 = ⟨some m'⟩ ∧ Plain m' content := by
  have hsize : m.logicalSize = content.length := h.content.size_eq
  have hle := h.content.length_le
  have hview : m.view.size = content.length := by
    show m.logicalSize.toNat = _
    omega
  refine ⟨?_, ?_⟩
  · rw [xRead_spec h.ready (by omega) (by omega)]
    exact FileView.read_congr hview (fun i _ => h.content.byte_eq i) iAmt iOfst
  · have hread : ∀ n off, Plain (m.read n off).2 content := by
      intro n off
      obtain ⟨-, hready, hfile⟩ := read_reply h.ready n off
      exact ⟨hready, hfile ▸ h.content⟩
    rw [SqliteGcs.xRead]
    dsimp only
    by_cases hbehind : iOfst ≥ m.logicalSize
    · rw [if_pos hbehind]
      exact ⟨m, rfl, h⟩
    rw [if_neg hbehind]
    by_cases hend : iOfst + iAmt > m.logicalSize
    · rw [if_pos hend]
      have hplain := hread (u64 (m.logicalSize - iOfst)) iOfst
      generalize m.read (u64 (m.logicalSize - iOfst)) iOfst = r at hplain
      obtain ⟨e | bytes, m'⟩ := r <;> exact ⟨m', rfl, hplain⟩
    · rw [if_neg hend]
      have hplain := hread iAmt iOfst
      generalize m.read iAmt iOfst = r at hplain
      obtain ⟨e | bytes, m'⟩ := r <;> exact ⟨m', rfl, hplain⟩

/-- `xWrite` writes to the content. -/
lemma xWrite (h : Plain m content) (buf : List UInt8) (iOfst : ℤ) :
    ∃ m', SqliteGcs.xWrite buf iOfst ⟨some m⟩ =
        (if 0 ≤ iOfst ∧ iOfst + buf.length ≤ 1000000 * 4096 then .ok else .ioerrWrite,
          ⟨some m'⟩) ∧
      Plain m' (if 0 ≤ iOfst ∧ iOfst + buf.length ≤ 1000000 * 4096 then
        PlainFile.write 0 buf iOfst.toNat content else content) := by
  rw [SqliteGcs.xWrite]
  dsimp only
  by_cases hrange : 0 ≤ iOfst ∧ iOfst + buf.length ≤ 1000000 * 4096
  · rw [if_pos hrange, if_pos hrange]
    obtain ⟨o, rfl⟩ : ∃ o : ℕ, iOfst = o := ⟨iOfst.toNat, by omega⟩
    obtain ⟨hok, hfile⟩ := file_write h.ready buf (o := o) (by omega)
    have hready := (h.ready.write buf o).1
    generalize m.write buf (o : ℤ) = r at hok hfile hready
    obtain ⟨result, m'⟩ := r
    obtain rfl : result = .ok () := hok
    refine ⟨m', rfl, hready, ?_⟩
    dsimp only at hfile
    rw [hfile, Int.toNat_natCast]
    exact h.content.write (by omega)
  · have hor : outOfRange buf.length iOfst = true := by
      rw [← Bool.not_eq_false, outOfRange_eq_false_iff]
      exact hrange
    rw [if_neg hrange, if_neg hrange, BlockMapper.write, if_pos hor]
    exact ⟨m, rfl, h⟩

/-- `xTruncate` cuts or extends the content, if it leaves nothing behind. -/
lemma xTruncate [MetadataProto] (hser : MetadataProto.Serializes) (h : Plain m content) {size : ℤ}
    (hclear : (IoCall.truncate size).Clears content) :
    ∃ m', SqliteGcs.xTruncate size ⟨some m⟩ =
        (if 0 ≤ size ∧ size ≤ 1000000 * 4096 then .ok else .ioerrTruncate, ⟨some m'⟩) ∧
      Plain m' (if 0 ≤ size ∧ size ≤ 1000000 * 4096 then
        PageTable.resize 0 size.toNat content else content) := by
  rw [SqliteGcs.xTruncate]
  dsimp only
  by_cases hrange : 0 ≤ size ∧ size ≤ 1000000 * 4096
  · rw [if_pos hrange, if_pos hrange]
    obtain ⟨serialized, hs, hl⟩ := hser size hrange.1 hrange.2
    rw [BlockMapper.truncate, if_neg (by omega), if_neg (by rw [h.ready.initialized]; decide), hs]
    dsimp only
    rw [if_neg (by omega)]
    refine ⟨m.truncated size serialized, rfl, ⟨h.ready.initialized, h.ready.valid,
      h.ready.sound.resize _⟩, ?_⟩
    rw [file_truncated]
    exact h.content.truncate hrange.1 hrange.2 hclear
  · rw [if_neg hrange, if_neg hrange, BlockMapper.truncate, if_pos (by omega)]
    exact ⟨m, rfl, h⟩

/-- `xSync` keeps the content. -/
lemma xSync [MetadataProto] (h : Plain m content) :
    ∃ m', (SqliteGcs.xSync ⟨some m⟩).2 = ⟨some m'⟩ ∧ Plain m' content := by
  have hplain : Plain m.sync.2 content := ⟨h.ready.sync.1, file_sync h.ready ▸ h.content⟩
  rw [SqliteGcs.xSync]
  dsimp only
  generalize m.sync = r at hplain
  obtain ⟨e | u, m'⟩ := r <;> exact ⟨m', rfl, hplain⟩

/-- **A call keeps a mapper and a content together**, and returns the same on both unless it is a
`xSync`. -/
theorem step [MetadataProto] (hser : MetadataProto.Serializes) (h : Plain m content) {c : IoCall}
    (hclear : c.Clears content) :
    (c.visible = true → (c.run ⟨some m⟩).1 = (c.onContent content).1) ∧
      ∃ m', (c.run ⟨some m⟩).2 = ⟨some m'⟩ ∧ Plain m' (c.onContent content).2 := by
  cases c with
  | read iAmt iOfst =>
    obtain ⟨hreply, hafter⟩ := h.xRead iAmt iOfst
    refine ⟨fun _ => ?_, hafter⟩
    rw [IoCall.run, IoCall.onContent, hreply]
  | write buf iOfst =>
    obtain ⟨m', hrun, hafter⟩ := h.xWrite buf iOfst
    rw [IoCall.run, IoCall.onContent, hrun]
    split_ifs at hafter ⊢ <;> exact ⟨fun _ => rfl, m', rfl, hafter⟩
  | truncate size =>
    obtain ⟨m', hrun, hafter⟩ := h.xTruncate hser hclear
    rw [IoCall.run, IoCall.onContent, hrun]
    split_ifs at hafter ⊢ <;> exact ⟨fun _ => rfl, m', rfl, hafter⟩
  | sync => exact ⟨fun hvisible => absurd hvisible (by decide), h.xSync⟩
  | fileSize =>
    refine ⟨fun _ => ?_, m, rfl, h⟩
    show IoReply.size .ok m.logicalSize = .size .ok content.length
    rw [show m.logicalSize = content.length from h.content.size_eq]

/-- Over a reliable log, `xSync` returns the same on both as well. -/
lemma step_reliable [MetadataProto] {τ : Type} [ReliableLog τ] {m : BlockMapper τ}
    {content : List UInt8} (hser : MetadataProto.Serializes) (h : Plain m content) {c : IoCall}
    (hclear : c.Clears content) :
    (c.run ⟨some m⟩).1 = (c.onContent content).1 ∧
      ∃ m', (c.run ⟨some m⟩).2 = ⟨some m'⟩ ∧ Plain m' (c.onContent content).2 := by
  obtain ⟨hreply, hafter⟩ := h.step hser hclear
  refine ⟨?_, hafter⟩
  cases c with
  | sync =>
    obtain ⟨s, hsync, -, -⟩ := sync_reliable h.ready.initialized h.ready.valid
    rw [IoCall.run, IoCall.onContent, SqliteGcs.xSync]
    dsimp only
    rw [hsync]
  | _ => exact hreply rfl

/-- The relation between a file of the VFS and an ordinary one that calls keep. -/
def simulation [MetadataProto] (hser : MetadataProto.Serializes) :
    GuardedSimulation (IoCall.run (σ := σ)) IoCall.onContent IoCall.visible
      fun c content => c.Clears content where
  R file content := ∃ m, file = ⟨some m⟩ ∧ Plain m content
  step_related c file content hclear h := by
    obtain ⟨m, rfl, hplain⟩ := h
    exact hplain.step hser hclear

/-- **A run keeps a mapper and a content together.** -/
theorem run [MetadataProto] (hser : MetadataProto.Serializes) (h : Plain m content)
    {calls : List IoCall} (hclear : AllClear calls content) :
    observed IoCall.run IoCall.visible calls ⟨some m⟩ =
        observed IoCall.onContent IoCall.visible calls content ∧
      ∃ m', final IoCall.run calls ⟨some m⟩ = ⟨some m'⟩ ∧
        Plain m' (final IoCall.onContent calls content) :=
  (simulation hser).observed_eq hclear ⟨m, rfl, h⟩

end Plain

/-- `Init` on an empty log gives a mapper that stands for the empty content. -/
lemma plain_init [MetadataProto] {s : σ} (hv : Valid s) (hempty : bytes s = []) :
    ∃ m, init (new s) = (.ok (), m) ∧ Plain m [] := by
  obtain ⟨s', hinit, hb, hv'⟩ := init_empty hv hempty
  have hrecs : records (bytes s') = .ok [] := by
    rw [hb]
    rfl
  have hready : Ready (opened Logical.empty s') := ready_opened hv' hrecs
  exact ⟨_, hinit, hready, rfl, fun i => List.getD_replicate _ (Nat.mod_lt i (by decide)),
    Nat.zero_le _⟩

/-- **The file of the VFS is an ordinary file.** Any run of the file methods on a new database whose
truncations leave nothing behind in the blocks that they end in returns the result codes, the bytes
and the sizes of the same run on an ordinary file, whatever `Append`s and `Sync`s of the storage
fail. The result of `xSync` itself is not compared. -/
theorem vfs_file_is_ordinary [MetadataProto] (hser : MetadataProto.Serializes) {s : σ}
    (hv : Valid s) (hempty : bytes s = []) {file : AppendOnlyFile σ}
    (hopen : openMapper s = (.ok, some file)) {calls : List IoCall} (hclear : AllClear calls []) :
    observed IoCall.run IoCall.visible calls file =
      observed IoCall.onContent IoCall.visible calls [] := by
  obtain ⟨m, hinit, hplain⟩ := plain_init hv hempty
  obtain ⟨m', hinit', rfl⟩ := init_of_openMapper hopen
  obtain rfl : m = m' := congrArg Prod.snd (hinit.symm.trans hinit')
  exact (hplain.run hser hclear).1

end Methods

/-- `vfs_file_is_ordinary` for a run that writes behind the end of the file, cuts the file to whole
blocks, extends it by a part of a block and reads past its end. -/
theorem vfs_file_is_ordinary_regrown :
    letI := wireProto
    let calls : List IoCall := [.write [1, 2, 3] 8190, .truncate 8192, .truncate 4096, .sync,
      .truncate 4100, .fileSize, .read 8 4094]
    ∃ file, openMapper InMemoryStorage.new = (.ok, some file) ∧
      observed IoCall.run IoCall.visible calls file =
        observed IoCall.onContent IoCall.visible calls [] := by
  let _ := wireProto
  intro calls
  have hv : Valid InMemoryStorage.new := rfl
  obtain ⟨file, hopen⟩ : ∃ file, openMapper InMemoryStorage.new = (.ok, some file) := ⟨_, rfl⟩
  have hclear : AllClear calls [] := ⟨trivial, IoCall.clears_of_aligned (by decide) _,
    IoCall.clears_of_aligned (by decide) _, trivial, IoCall.clears_of_extends (by decide +kernel),
    trivial, trivial, trivial⟩
  exact ⟨file, hopen, vfs_file_is_ordinary wireProto_serializes hv rfl hopen hclear⟩

end SqliteGcs
