import SqliteGcs.Lib.TxnLog
import SqliteGcs.BlockMapper

set_option relaxedAutoImplicit false
set_option autoImplicit false

/-!
# Recovery as a function of the log

`BlockMapper::Init` pads the file to whole records, scans them through the storage and replays
those its backward pass selects. This file computes the same from the bytes of the file alone:
the records are the chunks of the padded file, and the selected ones are the committed records of
a transaction log whose flags 1, 2 and others mean commit, chain and abort.

## Main definitions

* `SqliteGcs.padded` — a file after the alignment padding.
* `SqliteGcs.parseLog`, `SqliteGcs.records` — the validated records of a file.
* `SqliteGcs.mark` — a record's flag as a mark of the transaction log.
* `SqliteGcs.recovered` — the state that a list of records recovers to.

## Main results

* `SqliteGcs.BlockMapper.init_of_records`, `SqliteGcs.BlockMapper.init_of_error` — `init` on an
  aligned file, or on a storage that accepts the padding.
* `SqliteGcs.BlockMapper.records_of_init` — what a successful `init` says about the file.
* `SqliteGcs.records_append` — the records of an extended log.
-/

namespace SqliteGcs

open Bytes

/-! ## The passes of `Init` -/

/-- The flag of a record as a mark: 1 commits, 2 chains, everything else aborts. -/
def mark (rec : RecoveredRecord) : TxnLog.Mark :=
  if rec.isGood = 1 then .commit else if rec.isGood = 2 then .chain else .abort

/-- Replay records in order. -/
def Logical.applyAll (l : Logical) (recs : List RecoveredRecord) : Logical :=
  recs.foldl Logical.apply l

/-- The state that the records of a log recover to. -/
def recovered (recs : List RecoveredRecord) : Logical :=
  Logical.empty.applyAll (TxnLog.committed mark recs false)

/-- The backward pass computes the verdicts of the transaction log. -/
lemma appliedPass_eq (recs : List RecoveredRecord) :
    appliedPass recs = (TxnLog.verdicts mark recs false, TxnLog.carry mark recs false) := by
  induction recs with
  | nil => rfl
  | cons rec recs ih =>
    rw [appliedPass, ih]
    have hc : (if rec.isGood = 1 then true else if rec.isGood = 0 then false
        else if rec.isGood = 2 then TxnLog.carry mark recs false else false) =
        TxnLog.carry mark (rec :: recs) false := by
      simp only [TxnLog.carry, mark]
      by_cases h1 : rec.isGood = 1
      · simp [h1]
      · by_cases h2 : rec.isGood = 2
        · simp [h2]
        · simp [h1, h2]
    simp only [hc, TxnLog.verdicts]

/-- The forward pass replays the committed records. -/
lemma applyRecords_eq (l : Logical) (recs : List RecoveredRecord) :
    applyRecords l (recs.zip (TxnLog.verdicts mark recs false)) =
      l.applyAll (TxnLog.committed mark recs false) := by
  rw [TxnLog.committed_eq_filter_zip, Logical.applyAll, List.foldl_map, List.foldl_filter]
  rfl

/-! ## The scan -/

/-- A file after the alignment padding. -/
def padded (file : List UInt8) : List UInt8 :=
  file ++ List.replicate ((4105 - file.length % 4105) % 4105) 0

/-- A padded file holds whole records. -/
lemma length_padded (file : List UInt8) :
    (padded file).length = 4105 * ((file.length + 4104) / 4105) := by
  rw [padded, List.length_append, List.length_replicate]
  omega

/-- A file of whole records is not padded. -/
lemma padded_of_aligned {file : List UInt8} (h : file.length % 4105 = 0) : padded file = file := by
  simp [padded, h]

section Records

variable [MetadataProto]

/-- Validate consecutive records, the first of them at `offset`. -/
def parseLog (offset : ℤ) : List (List UInt8) → Except Status (List RecoveredRecord)
  | [] => .ok []
  | recordBuf :: rest =>
    match parseRecord offset recordBuf with
    | .error e => .error e
    | .ok rec =>
      match parseLog (offset + 4105) rest with
      | .error e => .error e
      | .ok recs => .ok (rec :: recs)

/-- The validated records of a file of whole records. -/
def records (file : List UInt8) : Except Status (List RecoveredRecord) :=
  parseLog 0 (chunks 4105 (file.length / 4105) file)

/-- Validating a record in front. -/
lemma parseLog_cons_ok {offset : ℤ} {buf : List UInt8} {bufs : List (List UInt8)}
    {recs : List RecoveredRecord} (h : parseLog offset (buf :: bufs) = .ok recs) :
    ∃ rec rest, parseRecord offset buf = .ok rec ∧ parseLog (offset + 4105) bufs = .ok rest ∧
      recs = rec :: rest := by
  rw [parseLog] at h
  cases hr : parseRecord offset buf with
  | error e => simp [hr] at h
  | ok rec =>
    cases hs : parseLog (offset + 4105) bufs with
    | error e => simp [hr, hs] at h
    | ok rest => exact ⟨rec, rest, rfl, rfl, by simpa [hr, hs] using h.symm⟩

/-- There are as many records as chunks. -/
lemma length_of_parseLog {offset : ℤ} {bufs : List (List UInt8)} {recs : List RecoveredRecord}
    (h : parseLog offset bufs = .ok recs) : recs.length = bufs.length := by
  induction bufs generalizing offset recs with
  | nil => simp [← Except.ok.inj h]
  | cons buf bufs ih =>
    obtain ⟨rec, rest, -, hs, rfl⟩ := parseLog_cons_ok h
    simp [ih hs]

/-- Validating a concatenation succeeds when both parts do. -/
lemma parseLog_append {offset : ℤ} {bufs bufs' : List (List UInt8)}
    {recs recs' : List RecoveredRecord} (h : parseLog offset bufs = .ok recs)
    (h' : parseLog (offset + 4105 * bufs.length) bufs' = .ok recs') :
    parseLog offset (bufs ++ bufs') = .ok (recs ++ recs') := by
  induction bufs generalizing offset recs with
  | nil =>
    obtain rfl := Except.ok.inj h
    simpa using h'
  | cons buf bufs ih =>
    obtain ⟨rec, rest, hr, hs, rfl⟩ := parseLog_cons_ok h
    have hrest := ih hs (by
      rw [← h']
      congr 1
      push_cast [List.length_cons]
      ring)
    rw [List.cons_append, parseLog, hr]
    simp only [hrest, List.cons_append]

/-- If a concatenation is validated, so are its parts. -/
lemma parseLog_of_append {offset : ℤ} {bufs bufs' : List (List UInt8)}
    {recs : List RecoveredRecord} (h : parseLog offset (bufs ++ bufs') = .ok recs) :
    ∃ recs₁ recs₂, parseLog offset bufs = .ok recs₁ ∧
      parseLog (offset + 4105 * bufs.length) bufs' = .ok recs₂ ∧ recs = recs₁ ++ recs₂ := by
  induction bufs generalizing offset recs with
  | nil => exact ⟨[], recs, rfl, by simpa using h, rfl⟩
  | cons buf bufs ih =>
    obtain ⟨rec, rest, hr, hs, rfl⟩ := parseLog_cons_ok h
    obtain ⟨recs₁, recs₂, h1, h2, rfl⟩ := ih hs
    refine ⟨rec :: recs₁, recs₂, ?_, ?_, rfl⟩
    · rw [parseLog, hr]
      simp only [h1]
    · rw [← h2]
      congr 1
      push_cast [List.length_cons]
      ring

/-- Record `i` of a validated log comes from chunk `i`. -/
lemma getElem_parseLog {offset : ℤ} {bufs : List (List UInt8)} {recs : List RecoveredRecord}
    (h : parseLog offset bufs = .ok recs) {i : ℕ} (hi : i < recs.length) (hi' : i < bufs.length) :
    parseRecord (offset + 4105 * i) bufs[i] = .ok recs[i] := by
  induction bufs generalizing offset recs i with
  | nil => simp at hi'
  | cons buf bufs ih =>
    obtain ⟨rec, rest, hr, hs, rfl⟩ := parseLog_cons_ok h
    cases i with
    | zero => simpa using hr
    | succ i =>
      have := ih hs (by simpa using hi) (by simpa using hi')
      simp only [List.getElem_cons_succ]
      rw [← this]
      congr 1
      push_cast
      ring

/-- **The records of an extended log**: a log of whole records followed by further ones. -/
theorem records_append {file : List UInt8} {bufs : List (List UInt8)}
    {recs recs' : List RecoveredRecord} (hal : file.length % 4105 = 0)
    (hb : ∀ buf ∈ bufs, buf.length = 4105) (h : records file = .ok recs)
    (h' : parseLog file.length bufs = .ok recs') :
    records (file ++ bufs.flatten) = .ok (recs ++ recs') := by
  have hn : file.length = 4105 * (file.length / 4105) := by omega
  have hm := length_flatten_of_forall hb
  have hdiv : (file ++ bufs.flatten).length / 4105 = file.length / 4105 + bufs.length := by
    rw [List.length_append, hm]
    omega
  rw [records, hdiv, chunks_append hn, chunks_flatten hb]
  refine parseLog_append h ?_
  rw [← h', length_chunks]
  congr 1
  omega

/-- The records of a log that is given record by record. -/
lemma records_flatten {bufs : List (List UInt8)} {recs : List RecoveredRecord}
    (hb : ∀ buf ∈ bufs, buf.length = 4105) (h : parseLog 0 bufs = .ok recs) :
    records bufs.flatten = .ok recs :=
  @records_append _ [] bufs [] recs rfl hb rfl h

/-- The records of a prefix of a log are a prefix of its records. -/
lemma records_of_append {file rest : List UInt8} {recs : List RecoveredRecord}
    (hal : file.length % 4105 = 0) (h : records (file ++ rest) = .ok recs) :
    ∃ recs₁ recs₂, records file = .ok recs₁ ∧ recs = recs₁ ++ recs₂ := by
  have hn : file.length = 4105 * (file.length / 4105) := by omega
  have hdiv : (file ++ rest).length / 4105 = file.length / 4105 + rest.length / 4105 := by
    rw [List.length_append]
    omega
  rw [records, hdiv, chunks_append hn] at h
  obtain ⟨recs₁, recs₂, h1, -, rfl⟩ := parseLog_of_append h
  exact ⟨recs₁, recs₂, h1, rfl⟩

end Records

/-! ## `Init` -/

namespace BlockMapper

variable {σ : Type}

/-- A mapper just initialised, with the given recovered state. -/
def opened (l : Logical) (s : σ) : BlockMapper σ where
  toLogical := l
  storage := s
  pendingRecords := []
  initialized := true

/-- The padding step on an atomic log: the file is padded, or it needed padding and is as before. -/
lemma padStorage_spec [AtomicLog σ] {s : σ} (hv : Valid s) :
    Valid (padStorage s).2 ∧
      ((padStorage s).1 = .ok ((padded (bytes s)).length : ℤ) ∧
          bytes (padStorage s).2 = padded (bytes s) ∨
        (∃ e, (padStorage s).1 = .error e) ∧ bytes (padStorage s).2 = bytes s ∧
          (bytes s).length % 4105 ≠ 0) := by
  obtain ⟨hsize, hb, hv1⟩ := AtomicLog.getSize_spec s hv
  generalize hg : getSize s = g at hsize hb hv1
  obtain ⟨r, s₁⟩ := g
  obtain rfl : r = .ok ((bytes s).length : ℤ) := hsize
  simp only at hb hv1
  by_cases hal : (bytes s).length % 4105 = 0
  · have hpad : ¬ ((bytes s).length : ℤ) % 4105 ≠ 0 := by omega
    have hres : padStorage s = (.ok ((bytes s).length : ℤ), s₁) := by
      simp only [padStorage, hg, if_neg hpad]
    rw [hres, padded_of_aligned hal]
    exact ⟨hv1, Or.inl ⟨rfl, hb⟩⟩
  · have hpad : ((bytes s).length : ℤ) % 4105 ≠ 0 := by omega
    have hzeros : (4105 - ((bytes s).length : ℤ) % 4105).toNat =
        (4105 - (bytes s).length % 4105) % 4105 := by omega
    obtain ⟨hv2, happ⟩ := AtomicLog.append_spec
      (List.replicate (4105 - ((bytes s).length : ℤ) % 4105).toNat 0) s₁ hv1
    generalize ha : append (List.replicate (4105 - ((bytes s).length : ℤ) % 4105).toNat 0) s₁ = a
      at hv2 happ
    obtain ⟨r, s₂⟩ := a
    rcases happ with ⟨hr, hb2⟩ | ⟨⟨e, hr⟩, hb2⟩
    · simp only at hr hb2 hv2
      have hres : padStorage s = getSize s₂ := by
        simp only [padStorage, hg, if_pos hpad, ha, hr]
      have hb2' : bytes s₂ = padded (bytes s) := by rw [hb2, hb, hzeros]; rfl
      obtain ⟨hsize3, hb3, hv3⟩ := AtomicLog.getSize_spec s₂ hv2
      rw [hres, ← hb2']
      exact ⟨hv3, Or.inl ⟨hsize3, hb3⟩⟩
    · simp only at hr hb2 hv2
      have hres : padStorage s = (.error e, s₂) := by
        simp only [padStorage, hg, if_pos hpad, ha, hr]
      rw [hres]
      exact ⟨hv2, Or.inr ⟨⟨e, rfl⟩, by rw [hb2, hb], hal⟩⟩

/-- The padding step on a reliable log always pads the file. -/
lemma padStorage_reliable [ReliableLog σ] {s : σ} (hv : Valid s) :
    (padStorage s).1 = .ok ((padded (bytes s)).length : ℤ) ∧
      bytes (padStorage s).2 = padded (bytes s) ∧ Valid (padStorage s).2 := by
  obtain ⟨hv', ⟨h1, h2⟩ | ⟨⟨e, he⟩, -, hal⟩⟩ := padStorage_spec hv
  · exact ⟨h1, h2, hv'⟩
  · exfalso
    obtain ⟨hsize, hb, hv1⟩ := AtomicLog.getSize_spec s hv
    generalize hg : getSize s = g at hsize hb hv1
    obtain ⟨r, s₁⟩ := g
    obtain rfl : r = .ok ((bytes s).length : ℤ) := hsize
    have hpad : ((bytes s).length : ℤ) % 4105 ≠ 0 := by omega
    obtain ⟨hok, -⟩ := ReliableLog.append_ok
      (List.replicate (4105 - ((bytes s).length : ℤ) % 4105).toNat 0) s₁ hv1
    obtain ⟨hv2, -⟩ := AtomicLog.append_spec
      (List.replicate (4105 - ((bytes s).length : ℤ) % 4105).toNat 0) s₁ hv1
    generalize ha : append (List.replicate (4105 - ((bytes s).length : ℤ) % 4105).toNat 0) s₁ = a
      at hok hv2
    obtain ⟨r, s₂⟩ := a
    simp only at hok hv2
    have hres : padStorage s = getSize s₂ := by
      simp only [padStorage, hg, if_pos hpad, ha, hok]
    rw [hres, (AtomicLog.getSize_spec s₂ hv2).1] at he
    cases he

/-- On a file of whole records the padding step has nothing to do. -/
lemma padStorage_of_aligned [AtomicLog σ] {s : σ} (hv : Valid s)
    (hal : (bytes s).length % 4105 = 0) : ∃ P, (padStorage s).1 = .ok P := by
  obtain ⟨-, ⟨hP, -⟩ | ⟨-, -, hne⟩⟩ := padStorage_spec hv
  · exact ⟨_, hP⟩
  · exact absurd hal hne

variable [MetadataProto]

/-- The scan reads the chunks of the file and validates them.

**Proof sketch.** Induction on the number of records left. Each step reads one chunk in full,
because the file ends at the physical size, and the rest of the scan starts one record later. -/
lemma scan_spec [AtomicLog σ] {i n fuel : ℕ} {s : σ} (hv : Valid s)
    (hlen : (bytes s).length = 4105 * (i + n)) (hfuel : n ≤ fuel) :
    (scan ((4105 * (i + n) : ℕ) : ℤ) fuel ((4105 * i : ℕ) : ℤ) s).1 =
        parseLog ((4105 * i : ℕ) : ℤ) (chunks 4105 n ((bytes s).drop (4105 * i))) ∧
      bytes (scan ((4105 * (i + n) : ℕ) : ℤ) fuel ((4105 * i : ℕ) : ℤ) s).2 = bytes s ∧
      Valid (scan ((4105 * (i + n) : ℕ) : ℤ) fuel ((4105 * i : ℕ) : ℤ) s).2 := by
  induction n generalizing i fuel s with
  | zero =>
    cases fuel with
    | zero => exact ⟨rfl, rfl, hv⟩
    | succ fuel =>
      rw [scan, if_neg (by omega)]
      exact ⟨rfl, rfl, hv⟩
  | succ n ih =>
    obtain ⟨fuel, rfl⟩ : ∃ f, fuel = f + 1 := ⟨fuel - 1, by omega⟩
    obtain ⟨hr, hb, hv1⟩ := AtomicLog.pRead_spec 4105 (4105 * i) s hv (by omega)
    generalize hp : pRead 4105 ((4105 * i : ℕ) : ℤ) s = p at hr hb hv1
    obtain ⟨r, s₁⟩ := p
    obtain rfl : r = .ok (slice (4105 * i) 4105 (bytes s)) := hr
    simp only at hb hv1
    have hbuf : ¬ (slice (4105 * i) 4105 (bytes s)).length ≠ 4105 := by
      rw [length_slice]
      omega
    have hoff : ((4105 * i : ℕ) : ℤ) + 4105 = ((4105 * (i + 1) : ℕ) : ℤ) := by
      push_cast
      ring
    obtain ⟨ih1, ih2, ih3⟩ := ih (i := i + 1) hv1 (by rw [hb, hlen]; omega)
      (by omega : n ≤ fuel)
    rw [show i + 1 + n = i + (n + 1) by omega, hb] at ih1 ih2
    rw [show i + 1 + n = i + (n + 1) by omega] at ih3
    rw [scan, if_pos (by omega), hp]
    simp only [if_neg hbuf, chunks_succ_drop, parseLog, hoff]
    cases hrec : parseRecord ((4105 * i : ℕ) : ℤ) (slice (4105 * i) 4105 (bytes s)) with
    | error e => exact ⟨rfl, hb, hv1⟩
    | ok rec =>
      generalize hs : scan ((4105 * (i + (n + 1)) : ℕ) : ℤ) fuel ((4105 * (i + 1) : ℕ) : ℤ) s₁ = q
        at ih1 ih2 ih3
      obtain ⟨r, s₂⟩ := q
      simp only at ih1 ih2 ih3
      rw [← ih1]
      cases r with
      | error e => exact ⟨rfl, ih2, ih3⟩
      | ok recs => exact ⟨rfl, ih2, ih3⟩

/-- The scan of a whole file of whole records. -/
lemma scan_all [AtomicLog σ] {s : σ} (hv : Valid s) (hal : (bytes s).length % 4105 = 0) :
    (scan ((bytes s).length : ℤ) ((bytes s).length : ℤ).toNat 0 s).1 = records (bytes s) ∧
      bytes (scan ((bytes s).length : ℤ) ((bytes s).length : ℤ).toNat 0 s).2 = bytes s ∧
      Valid (scan ((bytes s).length : ℤ) ((bytes s).length : ℤ).toNat 0 s).2 := by
  have hlen : (bytes s).length = 4105 * (0 + (bytes s).length / 4105) := by omega
  have hfuel : (bytes s).length / 4105 ≤ ((bytes s).length : ℤ).toNat := by omega
  have h := scan_spec (i := 0) hv hlen hfuel
  rw [← hlen] at h
  exact h

/-- Padding and scanning: the outcome on an atomic log is that of the padded file, or the padding
failed. -/
lemma scanStorage_spec [AtomicLog σ] {s : σ} (hv : Valid s) :
    Valid (scanStorage s).2 ∧
      ((∃ P, (padStorage s).1 = .ok P) ∧ (scanStorage s).1 = records (padded (bytes s)) ∧
          bytes (scanStorage s).2 = padded (bytes s) ∨
        (∃ e, (padStorage s).1 = .error e ∧ (scanStorage s).1 = .error e) ∧
          bytes (scanStorage s).2 = bytes s) := by
  obtain ⟨hv1, ⟨hP, hb1⟩ | ⟨⟨e, he⟩, hb1, -⟩⟩ := padStorage_spec hv
  · generalize hps : padStorage s = ps at hv1 hP hb1
    obtain ⟨r, s₁⟩ := ps
    obtain rfl : r = .ok ((padded (bytes s)).length : ℤ) := hP
    simp only at hv1 hb1
    obtain ⟨hsc, hb2, hv2⟩ := scan_all hv1 (by rw [hb1, length_padded]; omega)
    rw [hb1] at hsc hb2 hv2
    have hres : scanStorage s =
        scan ((padded (bytes s)).length : ℤ) ((padded (bytes s)).length : ℤ).toNat 0 s₁ := by
      simp only [scanStorage, hps]
    rw [hres]
    exact ⟨hv2, Or.inl ⟨⟨_, rfl⟩, hsc, hb2⟩⟩
  · generalize hps : padStorage s = ps at hv1 he hb1
    obtain ⟨r, s₁⟩ := ps
    obtain rfl : r = .error e := he
    have hres : scanStorage s = (.error e, s₁) := by
      simp only [scanStorage, hps]
    rw [hres]
    exact ⟨hv1, Or.inr ⟨⟨e, rfl, rfl⟩, hb1⟩⟩

/-- **`Init` after the padding**: if the padding step succeeds and the records of the padded file
are valid, `Init` succeeds with the state they recover to. -/
theorem init_of_records [AtomicLog σ] {s : σ} (hv : Valid s) {recs : List RecoveredRecord}
    (hpad : ∃ P, (padStorage s).1 = .ok P) (h : records (padded (bytes s)) = .ok recs) :
    ∃ s', init (new s) = (.ok (), opened (recovered recs) s') ∧
      bytes s' = padded (bytes s) ∧ Valid s' := by
  obtain ⟨hv1, ⟨-, hr, hb⟩ | ⟨⟨e, he, -⟩, -⟩⟩ := scanStorage_spec hv
  · rw [h] at hr
    generalize hsc : scanStorage s = q at hv1 hr hb
    obtain ⟨r, s₁⟩ := q
    obtain rfl : r = .ok recs := hr
    refine ⟨s₁, ?_, hb, hv1⟩
    simp only [init, new, hsc, appliedPass_eq, applyRecords_eq, Bool.false_eq_true, ↓reduceIte]
    rfl
  · obtain ⟨P, hP⟩ := hpad
    rw [he] at hP
    cases hP

/-- `Init` on a log of whole records needs no padding. -/
lemma init_of_aligned [AtomicLog σ] {s : σ} (hv : Valid s) (hal : (bytes s).length % 4105 = 0)
    {recs : List RecoveredRecord} (h : records (bytes s) = .ok recs) :
    ∃ s', init (new s) = (.ok (), opened (recovered recs) s') ∧ bytes s' = bytes s ∧ Valid s' := by
  have hrecs : records (padded (bytes s)) = .ok recs := by
    rw [padded_of_aligned hal, h]
  obtain ⟨s', hi, hb, hv'⟩ := init_of_records hv (padStorage_of_aligned hv hal) hrecs
  exact ⟨s', hi, hb.trans (padded_of_aligned hal), hv'⟩

/-- If padding or scanning fails, `Init` fails and recovers nothing. -/
lemma init_of_error [AtomicLog σ] {s : σ} {e : Status} (h : (scanStorage s).1 = .error e) :
    init (new s) = (.error e, new (scanStorage s).2) := by
  generalize hsc : scanStorage s = q at h
  obtain ⟨r, s₁⟩ := q
  obtain rfl : r = .error e := h
  simp only [init, new, hsc, Bool.false_eq_true, ↓reduceIte]

/-- **What a successful `Init` says about the file**: its records, once padded, are valid, and the
mapper holds the state they recover to. -/
theorem records_of_init [AtomicLog σ] {s : σ} (hv : Valid s)
    (h : (init (new s)).1 = .ok ()) :
    ∃ recs s', records (padded (bytes s)) = .ok recs ∧
      init (new s) = (.ok (), opened (recovered recs) s') ∧
      bytes s' = padded (bytes s) ∧ Valid s' := by
  obtain ⟨hv1, ⟨hpad, hr, hb⟩ | ⟨⟨e, -, he⟩, -⟩⟩ := scanStorage_spec hv
  · cases hrec : records (padded (bytes s)) with
    | error e =>
      rw [init_of_error (hr.trans hrec)] at h
      cases h
    | ok recs =>
      obtain ⟨s', hi, hb', hv'⟩ := init_of_records hv hpad hrec
      exact ⟨recs, s', rfl, hi, hb', hv'⟩
  · rw [init_of_error he] at h
    cases h

/-- What a failed `Init` leaves behind: a mapper that is not initialised, over the file as it was
or padded. -/
lemma new_of_init [AtomicLog σ] {s : σ} (hv : Valid s) (h : (init (new s)).1 ≠ .ok ()) :
    ∃ s', (init (new s)).2 = new s' ∧ Valid s' ∧
      (bytes s' = bytes s ∨ bytes s' = padded (bytes s)) := by
  obtain ⟨hv1, hcase⟩ := scanStorage_spec hv
  cases hsc : (scanStorage s).1 with
  | error e =>
    refine ⟨(scanStorage s).2, by rw [init_of_error hsc], hv1, ?_⟩
    rcases hcase with ⟨-, -, hb⟩ | ⟨-, hb⟩
    · exact Or.inr hb
    · exact Or.inl hb
  | ok recs =>
    rcases hcase with ⟨hpad, hr, -⟩ | ⟨⟨e, -, he⟩, -⟩
    · obtain ⟨s', hi, -⟩ := init_of_records hv hpad (hr.symm.trans hsc)
      rw [hi] at h
      exact absurd rfl h
    · rw [he] at hsc
      cases hsc

/-- The decisions of `Init` on a file whose padding succeeds and whose records are valid. -/
lemma decisions_of_records [AtomicLog σ] {s : σ} (hv : Valid s) {recs : List RecoveredRecord}
    (hpad : ∃ P, (padStorage s).1 = .ok P) (h : records (padded (bytes s)) = .ok recs) :
    decisions s = .ok (TxnLog.verdicts mark recs false) := by
  obtain ⟨-, ⟨-, hr, -⟩ | ⟨⟨e, he, -⟩, -⟩⟩ := scanStorage_spec hv
  · simp only [decisions, hr, h, appliedPass_eq]
  · obtain ⟨P, hP⟩ := hpad
    rw [he] at hP
    cases hP

/-- The decisions of `Init` are the verdicts on the records of the padded file. -/
lemma decisions_of_ok [AtomicLog σ] {s : σ} (hv : Valid s) {d : List Bool}
    (h : decisions s = .ok d) :
    ∃ recs, records (padded (bytes s)) = .ok recs ∧ d = TxnLog.verdicts mark recs false := by
  obtain ⟨-, ⟨hpad, hr, -⟩ | ⟨⟨e, -, he⟩, -⟩⟩ := scanStorage_spec hv
  · cases hrec : records (padded (bytes s)) with
    | error e =>
      rw [decisions, hr, hrec] at h
      cases h
    | ok recs =>
      rw [decisions_of_records hv hpad hrec] at h
      exact ⟨recs, rfl, (Except.ok.inj h).symm⟩
  · rw [decisions, he] at h
    cases h

end BlockMapper

end SqliteGcs
