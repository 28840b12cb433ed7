import Borgos.Fs.CpioLaws

/-! # `cpio_debug` and the end of its loop

An entry moves `p` by two sizes, each rounded up in 32 bits. The walk gets on unless both roundings wrap to 0, and an
entry that does not get on is met again in every further round.
-/
namespace Borgos.Fs
open Borgos.Foundations
set_option autoImplicit false

/-- Both `ALIGN4`s are 0: a name whose end wraps, and no file or one whose size wraps. -/
def CpioSizes.Stalls (z : CpioSizes) : Prop :=
  (0xFFFFFF8F ≤ z.namesz ∧ z.namesz ≤ 0xFFFFFF92) ∧ (z.filesz = 0 ∨ 0xFFFFFFFD ≤ z.filesz)

theorem align4_eq_zero {x : ℕ} : align4 x = 0 ↔ (x + 3) % 2 ^ 32 < 4 := by
  unfold align4
  omega

theorem advance_eq_zero {z : CpioSizes} (hname : z.namesz < 16 ^ 8) (hfile : z.filesz < 16 ^ 8) :
    z.advance = 0 ↔ z.Stalls := by
  unfold CpioSizes.advance CpioSizes.Stalls
  rw [Nat.add_eq_zero_iff, align4_eq_zero, align4_eq_zero]
  unfold cpioHdrSize
  omega

/-! ## The entries of a buffer -/

/-- A header with the sizes `z` at `p`. The entry, with its first size rounded in 32 bits, lies in the buffer and is not
the trailer. -/
structure EntryAt (b : List Byte) (p : ℕ) (z : CpioSizes) : Prop where
  room : p + cpioHdrSize ≤ b.length
  header : NewcHeader ((b.drop p).take cpioHdrSize) z
  inside : p + align4 (cpioHdrSize + z.namesz) + z.filesz ≤ b.length
  name : nameIsTrailer (b.drop (p + cpioHdrSize)) z.namesz = false

/-- The offsets of the chain of entries from the start of the buffer. -/
inductive OnChain (b : List Byte) : ℕ → Prop
  | start : OnChain b 0
  | next {p : ℕ} {z : CpioSizes} (hp : OnChain b p) (hz : EntryAt b p z) : OnChain b (p + z.advance)

/-- No entry of the chain has sizes that both wrap to 0. -/
def NeverStalls (b : List Byte) : Prop := ∀ p z, OnChain b p → EntryAt b p z → ¬z.Stalls

variable {b : List Byte} {p : ℕ} {z : CpioSizes}

theorem EntryAt.header_eq (h : EntryAt b p z) : cpioHeader (b.drop p) = some z := by
  have hlen : cpioHdrSize ≤ (b.drop p).length := by
    rw [List.length_drop]
    have := h.room
    omega
  exact (cpioHeader_iff hlen).mpr h.header

theorem EntryAt.step (h : EntryAt b p z) : ∃ line, line.sizes = z ∧ cpioStep b p = .entry line (p + z.advance) := by
  have hinside := h.inside
  have hdata : ¬(b.length < p + align4 (cpioHdrSize + z.namesz) ∨
      b.length < p + align4 (cpioHdrSize + z.namesz) + z.filesz) := by omega
  refine ⟨⟨z, cpioTyp z.mode, (b.drop (p + cpioHdrSize)).takeWhile (· ≠ 0)⟩, rfl, ?_⟩
  unfold cpioStep
  rw [if_pos h.room, h.header_eq]
  dsimp only
  rw [if_neg hdata, h.name, CpioSizes.advance, Nat.add_assoc]
  simp

theorem EntryAt.of_step {line : CpioLine} {p' : ℕ} (h : cpioStep b p = .entry line p') : EntryAt b p line.sizes := by
  obtain ⟨hroom, hheader, -⟩ := cpioStep_entry h
  have hlen : cpioHdrSize ≤ (b.drop p).length := by
    rw [List.length_drop]
    omega
  unfold cpioStep at h
  rw [if_pos hroom, hheader] at h
  dsimp only at h
  split at h
  · exact absurd h (by simp)
  · rename_i hdata
    split at h
    · exact absurd h (by simp)
    · rename_i hname
      exact ⟨hroom, (cpioHeader_iff hlen).mp hheader, by omega, by simpa using hname⟩

/-- At an entry, the walk stays where it is exactly if the entry stalls. -/
theorem EntryAt.advance_pos (h : EntryAt b p z) : 0 < z.advance ↔ ¬z.Stalls := by
  rw [← advance_eq_zero h.header.namesize.1 h.header.filesize.1, Nat.pos_iff_ne_zero]

theorem onChain_of_walk {q : ℕ} {lines : List CpioLine} (h : Walk b p lines q) (hp : OnChain b p) : OnChain b q := by
  induction h with
  | nil => exact hp
  | cons hstep _ ih =>
    apply ih
    rw [(cpioStep_entry hstep).2.2]
    exact hp.next (.of_step hstep)

theorem Walk.snoc {q q' : ℕ} {line : CpioLine} {lines : List CpioLine} (h : Walk b p lines q)
    (hstep : cpioStep b q = .entry line q') : Walk b p (lines ++ [line]) q' := by
  induction h with
  | nil => exact .cons hstep (.nil q')
  | cons hfirst _ ih => exact .cons hfirst (ih hstep)

theorem walk_of_onChain (h : OnChain b p) : ∃ lines, Walk b 0 lines p := by
  induction h with
  | start => exact ⟨[], .nil 0⟩
  | next _ hz ih =>
    obtain ⟨lines, hwalk⟩ := ih
    obtain ⟨line, -, hstep⟩ := hz.step
    exact ⟨lines ++ [line], hwalk.snoc hstep⟩

/-! ## Ending and not ending -/

/-- With the bytes that are left as fuel, the walk ends. -/
theorem cpioLoop_ends (h : NeverStalls b) {fuel : ℕ} (hp : OnChain b p) (hfuel : b.length < p + fuel)
    (lines : List CpioLine) : ∃ r, cpioLoop b (fuel + 1) p lines = some r := by
  induction fuel generalizing p lines with
  | zero =>
    have hstop : cpioStep b p = .stop := by
      unfold cpioStep
      rw [if_neg]
      unfold cpioHdrSize
      omega
    exact ⟨.done lines false, by simp only [cpioLoop, hstop]⟩
  | succ fuel ih =>
    rw [cpioLoop]
    cases hstep : cpioStep b p with
    | fail => exact ⟨_, rfl⟩
    | stop => exact ⟨_, rfl⟩
    | trailer => exact ⟨_, rfl⟩
    | entry line p' =>
      have hentry := EntryAt.of_step hstep
      have hpos := hentry.advance_pos.mpr (h p _ hp hentry)
      have hp' := (cpioStep_entry hstep).2.2
      subst hp'
      exact ih (hp.next hentry) (by omega) (lines ++ [line])

/-- An entry that stalls is read for ever. -/
theorem cpioLoop_stalls (hz : EntryAt b p z) (hs : z.Stalls) (fuel : ℕ) (lines : List CpioLine) :
    cpioLoop b fuel p lines = none := by
  have hzero : z.advance = 0 := by
    have := hz.advance_pos
    by_contra hne
    exact this.mp (Nat.pos_of_ne_zero hne) hs
  obtain ⟨line, -, hstep⟩ := hz.step
  rw [hzero, Nat.add_zero] at hstep
  induction fuel generalizing lines with
  | zero => rfl
  | succ fuel ih =>
    rw [cpioLoop, hstep]
    exact ih _

theorem cpioLoop_walk {q fuel : ℕ} {lines : List CpioLine} (h : Walk b p lines q)
    (hdiv : ∀ fuel out, cpioLoop b fuel q out = none) (out : List CpioLine) : cpioLoop b fuel p out = none := by
  induction h generalizing fuel out with
  | nil => exact hdiv fuel out
  | cons hstep _ ih =>
    cases fuel with
    | zero => rfl
    | succ fuel =>
      rw [cpioLoop, hstep]
      exact ih hdiv _

theorem cpioDebug_stalls (hp : OnChain b p) (hz : EntryAt b p z) (hs : z.Stalls) (fuel : ℕ) :
    cpioDebug b fuel = none := by
  obtain ⟨lines, hwalk⟩ := walk_of_onChain hp
  exact cpioLoop_walk hwalk (fun n out => cpioLoop_stalls hz hs n out) []

/-- Every round of the loop that is not the last one moves `p` forward, and the function returns. -/
structure Terminates (b : List Byte) : Prop where
  forward : ∀ lines p line p', Walk b 0 lines p → cpioStep b p = .entry line p' → p < p'
  returns : ∃ fuel r, cpioDebug b fuel = some r

theorem cpio_debug_terminates_iff (b : List Byte) : Terminates b ↔ NeverStalls b := by
  constructor
  · rintro ⟨-, fuel, r, hreturn⟩ p z hp hz hs
    rw [cpioDebug_stalls hp hz hs] at hreturn
    cases hreturn
  · intro h
    refine ⟨?_, b.length + 2, cpioLoop_ends h .start (by omega) []⟩
    intro lines p line p' hwalk hstep
    have hentry := EntryAt.of_step hstep
    have hpos := hentry.advance_pos.mpr (h p _ (onChain_of_walk hwalk .start) hentry)
    rw [(cpioStep_entry hstep).2.2]
    omega

/-- One header that announces a name of `0xFFFFFF92` bytes and an empty file. -/
def stalledArchive : List Byte := plainHeader ⟨0xFFFFFF92, 0, 0⟩

theorem stalled_archive_never_ends : ¬Terminates stalledArchive := by
  have hentry : EntryAt stalledArchive 0 ⟨0xFFFFFF92, 0, 0⟩ := by
    refine ⟨by decide +kernel, ?_, by decide +kernel, by decide +kernel⟩
    rw [List.drop_zero, show cpioHdrSize = stalledArchive.length by decide +kernel, List.take_length]
    exact newcHeader_plainHeader (by decide) (by decide) (by decide)
  rintro ⟨-, fuel, r, hreturn⟩
  rw [cpioDebug_stalls .start hentry ⟨by decide, .inl rfl⟩] at hreturn
  cases hreturn

end Borgos.Fs
