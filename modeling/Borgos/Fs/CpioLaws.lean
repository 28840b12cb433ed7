import Borgos.Fs.Cpio

/-! # Walking over an archive

On an encoded archive the walk stays in step with the encoder. On any other buffer it is in step as long as no size
makes the 32-bit rounding wrap; what it does not check besides is the NUL after a name and the padding of the last
entry.
-/
namespace Borgos.Fs
open Borgos.Foundations
set_option autoImplicit false

/-! ## Hexadecimal fields -/

theorem hexval_hexDigit (upper : Bool) : ∀ d < 16, hexval (hexDigit upper d) = some d := by
  cases upper <;> decide

theorem hexDigit_of_hexval (c : Byte) (d : ℕ) (h : hexval c = some d) : d < 16 ∧ ∃ upper, c = hexDigit upper d := by
  unfold hexval at h
  split at h
  · rename_i hrange
    obtain rfl := Option.some.inj h
    refine ⟨by omega, false, ?_⟩
    rw [hexDigit, if_pos (by omega), Nat.add_sub_cancel' hrange.1, BitVec.ofNat_toNat, BitVec.setWidth_eq]
  · split at h
    · rename_i hrange
      obtain rfl := Option.some.inj h
      refine ⟨by omega, false, ?_⟩
      rw [hexDigit, if_neg (by omega), if_neg (by decide), Nat.add_sub_cancel, Nat.add_sub_cancel' hrange.1,
        BitVec.ofNat_toNat, BitVec.setWidth_eq]
    · split at h
      · rename_i hrange
        obtain rfl := Option.some.inj h
        refine ⟨by omega, true, ?_⟩
        rw [hexDigit, if_neg (by omega), if_pos rfl, Nat.add_sub_cancel, Nat.add_sub_cancel' hrange.1,
          BitVec.ofNat_toNat, BitVec.setWidth_eq]
      · exact absurd h (by simp)

/-- `hex8` reads exactly the hexadecimal fields. -/
theorem hex8_iff {s : List Byte} (hlen : s.length = 8) {v : ℕ} : hex8 s = some v ↔ HexField s v := by
  constructor
  · intro h
    obtain ⟨upper, w, hw, hv, hs⟩ := Positional.exists_write hexDigit_of_hexval h
    rw [hlen] at hw hv hs
    rw [Nat.zero_mul, Nat.zero_add] at hv
    subst hv
    exact ⟨hw, upper, hs⟩
  · rintro ⟨hv, upper, rfl⟩
    rw [hex8, Positional.read_write (by norm_num) (fun i => hexval_hexDigit (upper i)), Nat.zero_mul, Nat.zero_add,
      Nat.mod_eq_of_lt hv]

theorem length_field {h : List Byte} {offset size : ℕ} (hlen : offset + size ≤ h.length) :
    (field h offset size).length = size := by
  rw [field, List.length_take, List.length_drop]
  omega

theorem field_take {h : List Byte} {offset size n : ℕ} (hn : offset + size ≤ n) :
    field (h.take n) offset size = field h offset size := by
  rw [field, field, List.drop_take, List.take_take, min_eq_left (by omega)]

/-- Only the bytes of the header are looked at. -/
theorem cpioHeader_take (h : List Byte) : cpioHeader (h.take cpioHdrSize) = cpioHeader h := by
  have hfield : ∀ offset size, offset + size ≤ 110 → field (h.take cpioHdrSize) offset size = field h offset size :=
    fun _ _ hle => field_take hle
  unfold cpioHeader
  rw [hfield 0 5 (by norm_num), hfield 5 1 (by norm_num), hfield 94 8 (by norm_num), hfield 54 8 (by norm_num),
    hfield 14 8 (by norm_num)]

/-- The header check accepts exactly the well-formed headers. -/
theorem cpioHeader_iff {h : List Byte} (hlen : cpioHdrSize ≤ h.length) {z : CpioSizes} :
    cpioHeader h = some z ↔ NewcHeader (h.take cpioHdrSize) z := by
  have hfield : ∀ offset size, offset + size ≤ 110 → field (h.take cpioHdrSize) offset size = field h offset size :=
    fun _ _ hle => field_take hle
  have h8 : ∀ offset, offset + 8 ≤ 110 → (field h offset 8).length = 8 := fun _ hle => length_field (hle.trans hlen)
  constructor
  · intro hz
    unfold cpioHeader at hz
    split at hz
    · rename_i hmagic
      simp only [Option.bind_eq_bind, Option.bind_eq_some_iff] at hz
      obtain ⟨namesz, hname, filesz, hfile, mode, hmode, hz⟩ := hz
      obtain rfl := Option.some.inj hz
      rw [hex8_iff (h8 _ (by norm_num))] at hname hfile hmode
      constructor
      · rw [List.length_take, min_eq_left hlen]
      · rw [hfield _ _ (by norm_num)]
        exact hmagic.1
      · rw [hfield _ _ (by norm_num)]
        exact hmagic.2
      · rw [hfield _ _ (by norm_num)]
        exact hmode
      · rw [hfield _ _ (by norm_num)]
        exact hfile
      · rw [hfield _ _ (by norm_num)]
        exact hname
    · exact absurd hz (by simp)
  · rintro ⟨-, hmagic, hversion, hmode, hfile, hname⟩
    rw [hfield _ _ (by norm_num)] at hmagic hversion hmode hfile hname
    rw [← hex8_iff (h8 _ (by norm_num))] at hmode hfile hname
    unfold cpioHeader
    rw [if_pos ⟨hmagic, hversion⟩, hmode, hfile, hname]
    rfl

/-! ## One entry -/

/-- The rounding is exact unless it wraps. -/
theorem align4_eq {x : ℕ} (h : x + 3 < 2 ^ 32) : align4 x = x + padding x := by
  rw [align4, padding, Nat.mod_eq_of_lt h]
  omega

/-- No size of the header makes the rounding wrap. -/
structure CpioSizes.Fits (z : CpioSizes) : Prop where
  name : cpioHdrSize + z.namesz + 3 < 2 ^ 32
  file : z.filesz + 3 < 2 ^ 32

/-- The length of an entry with these sizes. -/
def CpioSizes.total (z : CpioSizes) : ℕ :=
  cpioHdrSize + z.namesz + padding (cpioHdrSize + z.namesz) + (z.filesz + padding z.filesz)

/-- By how much the walk goes on. -/
def CpioSizes.advance (z : CpioSizes) : ℕ := align4 (cpioHdrSize + z.namesz) + align4 z.filesz

theorem CpioSizes.Fits.advance_eq {z : CpioSizes} (h : z.Fits) : z.advance = z.total := by
  rw [CpioSizes.advance, CpioSizes.total, align4_eq h.name, align4_eq h.file]

variable {b bytes name data rest : List Byte} {mode p : ℕ}

theorem NewcEntry.length (h : NewcEntry bytes name data mode) :
    bytes.length = CpioSizes.total ⟨name.length, data.length, mode⟩ := by
  obtain ⟨hdr, pad, pad', rfl, hhdr, hpad, hpad'⟩ := h
  simp only [List.length_append, hhdr.length, hpad, hpad', CpioSizes.total]
  omega

/-- At an entry the walk sees its sizes, and its name lies after the header. -/
theorem NewcEntry.at_offset (h : NewcEntry bytes name data mode) (hb : b.drop p = bytes ++ rest) (hp : p ≤ b.length) :
    cpioHeader (b.drop p) = some ⟨name.length, data.length, mode⟩ ∧
    (∃ after, b.drop (p + cpioHdrSize) = name ++ after) ∧
      p + bytes.length ≤ b.length := by
  have hlen : b.length = p + bytes.length + rest.length := by
    have hdrop := congrArg List.length hb
    rw [List.length_drop, List.length_append] at hdrop
    omega
  obtain ⟨hdr, pad, pad', rfl, hhdr, hpad, hpad'⟩ := h
  refine ⟨?_, ⟨pad ++ data ++ pad' ++ rest, ?_⟩, by omega⟩
  · rw [hb, cpioHeader_iff]
    · simp only [List.append_assoc]
      rw [List.take_left' hhdr.length]
      exact hhdr
    · simp only [List.length_append, hhdr.length]
      omega
  · rw [← List.drop_drop, hb]
    simp only [List.append_assoc]
    rw [List.drop_left' hhdr.length]

theorem cpioStep_of_entry (h : NewcEntry bytes name data mode) (hb : b.drop p = bytes ++ rest) (hp : p ≤ b.length)
    (hfits : CpioSizes.Fits ⟨name.length, data.length, mode⟩) :
    cpioStep b p = if nameIsTrailer (b.drop (p + cpioHdrSize)) name.length then .trailer
      else .entry ⟨⟨name.length, data.length, mode⟩, cpioTyp mode, (b.drop (p + cpioHdrSize)).takeWhile (· ≠ 0)⟩
        (p + bytes.length) := by
  obtain ⟨hheader, -, hend⟩ := h.at_offset hb hp
  have hlen := h.length
  simp only [CpioSizes.total] at hlen
  have hroom : p + cpioHdrSize ≤ b.length := by omega
  unfold cpioStep
  rw [if_pos hroom, hheader]
  simp only [align4_eq hfits.name, align4_eq hfits.file]
  rw [if_neg (by omega)]
  congr 2
  omega

/-! ## Encoded archives -/

theorem takeWhile_name {name after : List Byte} (h : 0 ∉ name) : (name ++ [0] ++ after).takeWhile (· ≠ 0) = name := by
  have hname : ∀ c ∈ name, decide (c ≠ 0) = true := fun c hc => decide_eq_true fun e => h (e ▸ hc)
  rw [List.append_assoc, List.takeWhile_append_of_pos hname]
  simp

theorem nameIsTrailer_file {name after : List Byte} (h : name ≠ trailerName) :
    nameIsTrailer (name ++ [0] ++ after) (name ++ [0]).length = false := by
  rw [nameIsTrailer, Bool.and_eq_false_iff]
  by_cases hlen : (name ++ [0]).length = 11
  · right
    rw [List.take_left' hlen]
    apply beq_eq_false_iff_ne.mpr
    intro e
    exact h (List.append_cancel_right e)
  · left
    exact beq_eq_false_iff_ne.mpr hlen

theorem cpioStep_file {f : CpioFile} (h : Encodes bytes f) (hb : b.drop p = bytes ++ rest) (hp : p ≤ b.length)
    (hfits : f.line.sizes.Fits) : cpioStep b p = .entry f.line (p + bytes.length) := by
  obtain ⟨-, ⟨after, hafter⟩, -⟩ := h.at_offset hb hp
  have hname : (f.name ++ [0]).length = f.name.length + 1 := List.length_append
  rw [cpioStep_of_entry h hb hp (by rw [hname]; exact hfits), hafter,
    if_neg (Bool.not_eq_true _ ▸ nameIsTrailer_file f.trailer), takeWhile_name f.nul, hname]
  rfl

theorem cpioStep_trailer (h : EncodesTrailer bytes) (hb : b.drop p = bytes ++ rest) (hp : p ≤ b.length) :
    cpioStep b p = .trailer := by
  obtain ⟨mode, h⟩ := h
  obtain ⟨-, ⟨after, hafter⟩, -⟩ := h.at_offset hb hp
  have hlen : (trailerName ++ [0]).length = 11 := rfl
  have htrailer : nameIsTrailer (trailerName ++ [0] ++ after) (trailerName ++ [0]).length = true := by
    rw [nameIsTrailer, List.take_left' hlen, hlen]
    simp
  have hfits : CpioSizes.Fits ⟨(trailerName ++ [0]).length, ([] : List Byte).length, mode⟩ := by
    constructor
    · show 110 + 11 + 3 < 2 ^ 32
      norm_num
    · show 0 + 3 < 2 ^ 32
      norm_num
  rw [cpioStep_of_entry h hb hp hfits, hafter, if_pos htrailer]

/-- The walk is in step with the encoder, entry by entry. -/
theorem cpioLoop_encoded {blocks : List (List Byte)} {files : List CpioFile} {trailer tail : List Byte}
    (henc : List.Forall₂ Encodes blocks files) (htrailer : EncodesTrailer trailer)
    (hb : b.drop p = blocks.flatten ++ (trailer ++ tail)) (hp : p ≤ b.length)
    (hsize : blocks.flatten.length + trailer.length < 2 ^ 32) (lines : List CpioLine) :
    cpioLoop b (files.length + 1) p lines = some (.done (lines ++ files.map CpioFile.line) true) := by
  induction henc generalizing p lines with
  | nil =>
    rw [List.flatten_nil, List.nil_append] at hb
    rw [List.length_nil, cpioLoop, cpioStep_trailer htrailer hb hp, List.map_nil, List.append_nil]
  | @cons bytes f blocks files hfile hrest ih =>
    rw [List.flatten_cons, List.append_assoc] at hb
    rw [List.flatten_cons, List.length_append] at hsize
    have hlen := NewcEntry.length hfile
    have hroom : 110 ≤ trailer.length := by
      obtain ⟨mode, h⟩ := htrailer
      rw [h.length]
      exact Nat.le_add_right_of_le (Nat.le_add_right_of_le (Nat.le_add_right _ _))
    have hfits : f.line.sizes.Fits := by
      simp only [CpioSizes.total, List.length_append, List.length_singleton] at hlen
      constructor
      · simp only [CpioFile.line]
        omega
      · simp only [CpioFile.line]
        omega
    have hdrop : b.drop (p + bytes.length) = blocks.flatten ++ (trailer ++ tail) := by
      rw [← List.drop_drop, hb, List.drop_left]
    have hend := (NewcEntry.at_offset hfile hb hp).2.2
    rw [List.length_cons, cpioLoop, cpioStep_file hfile hb hp hfits]
    simp only
    rw [ih hdrop hend (by omega), List.map_cons, List.append_assoc, List.singleton_append]

/-! ## Arbitrary buffers -/

/-- The lines printed from one offset to another. -/
inductive Walk (b : List Byte) : ℕ → List CpioLine → ℕ → Prop
  | nil (p : ℕ) : Walk b p [] p
  | cons {p p' q : ℕ} {line : CpioLine} {lines : List CpioLine} (hstep : cpioStep b p = .entry line p')
      (hrest : Walk b p' lines q) : Walk b p (line :: lines) q

theorem walk_of_loop {fuel : ℕ} {lines out : List CpioLine} (h : cpioLoop b fuel p lines = some (.done out false)) :
    ∃ lines' q, out = lines ++ lines' ∧ Walk b p lines' q ∧ cpioStep b q = .stop := by
  induction fuel generalizing p lines with
  | zero => exact absurd h (by simp [cpioLoop])
  | succ fuel ih =>
    rw [cpioLoop] at h
    split at h
    · exact absurd h (by simp)
    · rename_i hstep
      simp only [Option.some.injEq, CpioResult.done.injEq, and_true] at h
      exact ⟨[], p, by rw [← h, List.append_nil], .nil p, hstep⟩
    · exact absurd h (by simp)
    · rename_i line p' hstep
      obtain ⟨lines', q, rfl, hwalk, hstop⟩ := ih h
      exact ⟨line :: lines', q, by rw [List.append_assoc, List.singleton_append], .cons hstep hwalk, hstop⟩

theorem cpioStep_stop (h : cpioStep b p = .stop) : b.length < p + cpioHdrSize := by
  by_contra hroom
  unfold cpioStep at h
  rw [if_pos (not_lt.mp hroom)] at h
  split at h
  · exact absurd h (by simp)
  · dsimp only at h
    split at h
    · exact absurd h (by simp)
    · split at h <;> exact absurd h (by simp)

theorem cpioStep_entry {line : CpioLine} {p' : ℕ} (h : cpioStep b p = .entry line p') :
    p + cpioHdrSize ≤ b.length ∧ cpioHeader (b.drop p) = some line.sizes ∧ p' = p + line.sizes.advance := by
  unfold cpioStep at h
  split at h
  · rename_i hroom
    split at h
    · exact absurd h (by simp)
    · rename_i z hz
      dsimp only at h
      split at h
      · exact absurd h (by simp)
      · split at h
        · exact absurd h (by simp)
        · simp only [CpioStep.entry.injEq] at h
          obtain ⟨rfl, rfl⟩ := h
          exact ⟨hroom, hz, Nat.add_assoc ..⟩
  · exact absurd h (by simp)

theorem Walk.offset {lines : List CpioLine} {q : ℕ} (h : Walk b p lines q) :
    q = p + (lines.map fun line => line.sizes.advance).sum := by
  induction h with
  | nil => simp
  | cons hstep _ ih =>
    rw [ih, (cpioStep_entry hstep).2.2, List.map_cons, List.sum_cons, Nat.add_assoc]

/-- The walk may come to `p`: inside the buffer, and at a header whose sizes do not wrap and whose name ends in NUL. -/
structure CleanAt (b : List Byte) (p : ℕ) : Prop where
  inside : p ≤ b.length
  fits : ∀ z, p + cpioHdrSize ≤ b.length → cpioHeader (b.drop p) = some z → z.Fits
  nul : ∀ z, p + cpioHdrSize ≤ b.length → cpioHeader (b.drop p) = some z →
    ((b.drop (p + cpioHdrSize)).take z.namesz).getLast? = some 0

/-- The walk comes to such places only. -/
def Clean (b : List Byte) : Prop := ∀ lines p, Walk b 0 lines p → CleanAt b p

/-- Cutting an entry out of the buffer. -/
theorem newcEntry_take {h : List Byte} {z : CpioSizes} (hhdr : NewcHeader (h.take cpioHdrSize) z)
    (hlen : z.total ≤ h.length) :
    ∃ data, NewcEntry (h.take z.total) ((h.drop cpioHdrSize).take z.namesz) data z.mode ∧ data.length = z.filesz := by
  have hname : ((h.drop cpioHdrSize).take z.namesz).length = z.namesz := by
    rw [List.length_take, List.length_drop]
    unfold CpioSizes.total at hlen
    omega
  have hdata : (field h (cpioHdrSize + z.namesz + padding (cpioHdrSize + z.namesz)) z.filesz).length = z.filesz := by
    apply length_field
    unfold CpioSizes.total at hlen
    omega
  refine ⟨_, ⟨h.take cpioHdrSize, field h (cpioHdrSize + z.namesz) (padding (cpioHdrSize + z.namesz)),
    field h (cpioHdrSize + z.namesz + padding (cpioHdrSize + z.namesz) + z.filesz) (padding z.filesz), ?_, ?_, ?_, ?_⟩,
    hdata⟩
  · unfold CpioSizes.total field
    rw [← Nat.add_assoc, List.take_add, List.take_add, List.take_add, List.take_add]
  · rw [hname, hdata]
    exact hhdr
  · rw [hname]
    apply length_field
    unfold CpioSizes.total at hlen
    omega
  · rw [hdata]
    apply length_field
    unfold CpioSizes.total at hlen
    omega

theorem WellFormed.length {line : CpioLine} (h : WellFormed bytes line) : bytes.length = line.sizes.total := by
  obtain ⟨name, data, hentry, hname, hdata, -⟩ := h
  rw [hentry.length, hname, hdata]

theorem wellFormed_of_clean {line : CpioLine} {p' : ℕ} (hstep : cpioStep b p = .entry line p') (hclean : CleanAt b p)
    (hinside : p' ≤ b.length) :
    WellFormed ((b.drop p).take line.sizes.total) line ∧ p' = p + line.sizes.total := by
  obtain ⟨hroom, hheader, hp'⟩ := cpioStep_entry hstep
  rw [(hclean.fits _ hroom hheader).advance_eq] at hp'
  have hlen : cpioHdrSize ≤ (b.drop p).length := by
    rw [List.length_drop]
    omega
  have htotal : line.sizes.total ≤ (b.drop p).length := by
    rw [List.length_drop]
    omega
  obtain ⟨data, hentry, hdata⟩ := newcEntry_take ((cpioHeader_iff hlen).mp hheader) htotal
  have hnul := hclean.nul _ hroom hheader
  have hname : ((b.drop (p + cpioHdrSize)).take line.sizes.namesz).length = line.sizes.namesz := by
    rw [List.length_take, List.length_drop]
    unfold CpioSizes.total at hp'
    omega
  rw [List.drop_drop] at hentry
  exact ⟨⟨_, data, hentry, hname, hdata, hnul⟩, hp'⟩

/-- A clean walk cuts the buffer into entries. -/
theorem decomposes_of_clean {lines : List CpioLine} {q : ℕ} (hwalk : Walk b p lines q) (hstop : cpioStep b q = .stop)
    (hclean : ∀ lines' q', Walk b p lines' q' → CleanAt b q') :
    ∃ blocks tail, b.drop p = blocks.flatten ++ tail ∧ List.Forall₂ WellFormed blocks lines ∧
      tail.length < cpioHdrSize := by
  induction hwalk with
  | nil p =>
    refine ⟨[], b.drop p, by simp, .nil, ?_⟩
    rw [List.length_drop]
    have := cpioStep_stop hstop
    have := (hclean [] p (.nil p)).inside
    omega
  | @cons p p' q line lines hstep hrest ih =>
    have hinside : p' ≤ b.length := (hclean [line] p' (.cons hstep (.nil p'))).inside
    obtain ⟨hblock, rfl⟩ := wellFormed_of_clean hstep (hclean [] p (.nil p)) hinside
    obtain ⟨blocks, tail, hb, hblocks, htail⟩ := ih hstop fun lines' q' h => hclean _ _ (.cons hstep h)
    refine ⟨_ :: blocks, tail, ?_, .cons hblock hblocks, htail⟩
    rw [List.flatten_cons, List.append_assoc, ← hb, ← List.drop_drop, List.take_append_drop]

theorem advance_le_total (z : CpioSizes) : z.advance ≤ z.total := by
  unfold CpioSizes.advance CpioSizes.total align4 padding
  omega

/-- A wrap costs at least 4 GiB. -/
theorem fits_of_total_lt {z : CpioSizes} (h : z.total < z.advance + cpioHdrSize) : z.Fits := by
  unfold CpioSizes.advance CpioSizes.total align4 padding cpioHdrSize at h
  constructor
  · unfold cpioHdrSize
    omega
  · omega

theorem length_blocks {blocks : List (List Byte)} {lines : List CpioLine} (h : List.Forall₂ WellFormed blocks lines) :
    blocks.flatten.length = (lines.map fun line => line.sizes.total).sum := by
  induction h with
  | nil => rfl
  | cons hblock _ ih =>
    rw [List.flatten_cons, List.length_append, hblock.length, ih, List.map_cons, List.sum_cons]

theorem cleanAt_of_wellFormed {line : CpioLine} (h : WellFormed bytes line) (hb : b.drop p = bytes ++ rest)
    (hp : p ≤ b.length) (hfits : line.sizes.Fits) : CleanAt b p := by
  obtain ⟨name, data, hentry, hname, hdata, hnul⟩ := h
  obtain ⟨hheader, ⟨after, hafter⟩, -⟩ := hentry.at_offset hb hp
  rw [hname, hdata] at hheader
  refine ⟨hp, ?_, ?_⟩
  · intro z _ hz
    rw [hheader] at hz
    exact Option.some.inj hz ▸ hfits
  · intro z _ hz
    rw [hheader] at hz
    rw [← Option.some.inj hz, hafter, List.take_left' hname]
    exact hnul

/-- If the buffer is cut into the entries that were printed, the walk was clean: a wrap would have ended it far from the
end of the buffer. -/
theorem clean_of_decomposes {blocks : List (List Byte)} {tail : List Byte} {lines : List CpioLine} {q : ℕ}
    (hwalk : Walk b p lines q) (hstop : cpioStep b q = .stop) (hp : p ≤ b.length)
    (hb : b.drop p = blocks.flatten ++ tail) (hblocks : List.Forall₂ WellFormed blocks lines) :
    ∀ lines' q', Walk b p lines' q' → CleanAt b q' := by
  induction hwalk generalizing blocks with
  | nil p =>
    have hend := cpioStep_stop hstop
    intro lines' q' h
    cases h with
    | nil => exact ⟨hp, fun _ hroom => absurd hroom (by omega), fun _ hroom => absurd hroom (by omega)⟩
    | cons hstep => exact absurd (hstop ▸ hstep) (by simp)
  | @cons p p' q line lines hstep hrest ih =>
    cases hblocks with
    | @cons bytes _ blocks _ hblock hblocks =>
      rw [List.flatten_cons, List.append_assoc] at hb
      have hlength := congrArg List.length hb
      rw [List.length_drop, List.length_append, List.length_append, hblock.length, length_blocks hblocks] at hlength
      have hend := cpioStep_stop hstop
      have hadvance : (lines.map fun line => line.sizes.advance).sum ≤ (lines.map fun line => line.sizes.total).sum :=
        List.sum_le_sum fun line _ => advance_le_total line.sizes
      have hoffset := hrest.offset
      have hp' := (cpioStep_entry hstep).2.2
      have hfits : line.sizes.Fits := fits_of_total_lt (by omega)
      rw [hfits.advance_eq, ← hblock.length] at hp'
      subst hp'
      rw [hblock.length] at hoffset
      intro lines' q' h
      cases h with
      | nil => exact cleanAt_of_wellFormed hblock hb hp hfits
      | cons hstep' hrest' =>
        obtain ⟨rfl, rfl⟩ := CpioStep.entry.inj (hstep.symm.trans hstep')
        refine ih hstop ?_ ?_ hblocks _ _ hrest'
        · rw [hblock.length]
          omega
        · rw [← List.drop_drop, hb, List.drop_left]

/-! ## Decoding undoes encoding -/

/-- Every encoded archive is walked over entry by entry, whatever follows the trailer. -/
def DecodesEncoded : Prop :=
  ∀ (blocks : List (List Byte)) (files : List CpioFile) (trailer tail : List Byte), List.Forall₂ Encodes blocks files →
    EncodesTrailer trailer → blocks.flatten.length + trailer.length < 2 ^ 32 →
      ∃ fuel r, cpioDebug (blocks.flatten ++ trailer ++ tail) fuel = some r ∧ r.ret = files.length ∧
        r = .done (files.map CpioFile.line) true

theorem decodesEncoded : DecodesEncoded := by
  intro blocks files trailer tail henc htrailer hsize
  refine ⟨files.length + 1, .done (files.map CpioFile.line) true, ?_, by simp [CpioResult.ret], rfl⟩
  exact cpioLoop_encoded henc htrailer (by rw [List.drop_zero, List.append_assoc]) (Nat.zero_le _) hsize []

theorem decomposes_iff_clean {fuel : ℕ} {lines : List CpioLine} (h : cpioDebug b fuel = some (.done lines false)) :
    Decomposes b lines ↔ Clean b := by
  obtain ⟨lines', q, hlines, hwalk, hstop⟩ := walk_of_loop h
  rw [List.nil_append] at hlines
  subst hlines
  constructor
  · rintro ⟨blocks, tail, hb, hblocks, -⟩
    exact clean_of_decomposes hwalk hstop (Nat.zero_le _) hb hblocks
  · exact decomposes_of_clean hwalk hstop

/-- The walk undoes the encoding. A buffer without a trailer that it accepts is a concatenation of entries exactly if
the walk came to clean places only. -/
theorem cpio_debug_decodes (b : List Byte) (fuel : ℕ) (lines : List CpioLine) :
    DecodesEncoded ∧ (cpioDebug b fuel = some (.done lines false) → (Decomposes b lines ↔ Clean b)) :=
  ⟨decodesEncoded, decomposes_iff_clean⟩

/-- A header in lower case with zeros in the other fields. -/
def plainHeader (z : CpioSizes) : List Byte :=
  [0x30, 0x37, 0x30, 0x37, 0x30, 0x31] ++ List.replicate 8 0x30 ++
    Positional.write 16 (fun _ => hexDigit false) 8 z.mode ++
    List.replicate 32 0x30 ++ Positional.write 16 (fun _ => hexDigit false) 8 z.filesz ++ List.replicate 32 0x30 ++
    Positional.write 16 (fun _ => hexDigit false) 8 z.namesz ++ List.replicate 8 0x30

theorem newcHeader_plainHeader {z : CpioSizes} (hmode : z.mode < 16 ^ 8) (hfile : z.filesz < 16 ^ 8)
    (hname : z.namesz < 16 ^ 8) : NewcHeader (plainHeader z) z where
  length := by simp [plainHeader, cpioHdrSize]
  magic := rfl
  version := .inl rfl
  mode := ⟨hmode, fun _ => false, rfl⟩
  filesize := ⟨hfile, fun _ => false, rfl⟩
  namesize := ⟨hname, fun _ => false, rfl⟩

/-- One file of one byte. -/
def oneFile : CpioFile := ⟨[0x61], 0o100644, [7], by decide, by decide⟩

theorem cpio_debug_decodes_one_file : ∃ fuel r,
    cpioDebug (plainHeader ⟨2, 1, 0o100644⟩ ++ [0x61, 0] ++ [] ++ [7] ++ [0, 0, 0] ++
      (plainHeader ⟨11, 0, 0⟩ ++ (trailerName ++ [0]) ++ [0, 0, 0] ++ [] ++ [])) fuel = some r ∧ r.ret = 1 := by
  have hfile : Encodes (plainHeader ⟨2, 1, 0o100644⟩ ++ [0x61, 0] ++ [] ++ [7] ++ [0, 0, 0]) oneFile :=
    ⟨_, [], [0, 0, 0], rfl, newcHeader_plainHeader (by decide) (by decide) (by decide), rfl, rfl⟩
  have htrailer : EncodesTrailer (plainHeader ⟨11, 0, 0⟩ ++ (trailerName ++ [0]) ++ [0, 0, 0] ++ [] ++ []) :=
    ⟨0, _, [0, 0, 0], [], rfl, newcHeader_plainHeader (by decide) (by decide) (by decide), rfl, rfl⟩
  obtain ⟨fuel, r, hrun, hret, -⟩ := (cpio_debug_decodes [] 0 []).1 [_] [oneFile] _ [] (.cons hfile .nil) htrailer
    (by simp [plainHeader, trailerName])
  rw [List.flatten_singleton, List.append_nil] at hrun
  exact ⟨fuel, r, hrun, hret⟩

/-- A header that announces a name of `0xFFFFFFFF` bytes, and two more bytes. -/
def wrappedName : List Byte :=
  [0x30, 0x37, 0x30, 0x37, 0x30, 0x31] ++ List.replicate 88 0x30 ++ List.replicate 8 0x46 ++
    List.replicate 8 0x30 ++ [0, 0]

/-- It is accepted as one entry of 112 bytes. -/
theorem wrapped_name_accepted : ∃ lines, cpioDebug wrappedName 2 = some (.done lines false) ∧
    ¬Decomposes wrappedName lines := by
  have hrun : cpioDebug wrappedName 2 = some (.done [⟨⟨0xFFFFFFFF, 0, 0⟩, .annat, []⟩] false) := by decide +kernel
  refine ⟨_, hrun, ?_⟩
  rintro ⟨blocks, tail, hb, hblocks, -⟩
  have hlen := congrArg List.length hb
  rw [List.length_append, length_blocks hblocks, show wrappedName.length = 112 from rfl] at hlen
  simp [CpioSizes.total, cpioHdrSize] at hlen
  omega

end Borgos.Fs
