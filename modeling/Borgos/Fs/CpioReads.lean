import Borgos.Foundations.FlatMemory
import Borgos.Fs.CpioTermination

/-! # What `cpio_debug` reads

The buffer is a part of a memory that goes on behind it; offsets are counted from its start. A name is printed with
`%s`, which reads up to and including the first NUL, wherever that is. The walk itself only looks at the buffer. The
bytes that a round reads decide what it does (`cpioStep_congr`).
-/
namespace Borgos.Fs
open Borgos.Foundations FlatMemory
set_option autoImplicit false

/-- The archive of `size` bytes in the memory `m`. -/
def archive (m : ℕ → Byte) (size : ℕ) : List Byte := load m 0 size

/-- The entry at `p` gets as far as `name_is_trailer`. -/
structure ComparedAt (b : List Byte) (p : ℕ) (z : CpioSizes) : Prop where
  room : p + cpioHdrSize ≤ b.length
  header : cpioHeader (b.drop p) = some z
  inside : p + align4 (cpioHdrSize + z.namesz) + z.filesz ≤ b.length

/-- The string at `a` is read at `x`. -/
def StringRead (m : ℕ → Byte) (a x : ℕ) : Prop := a ≤ x ∧ ∀ y, a ≤ y → y < x → m y ≠ 0

/-- The offsets that are read in the round at `p`. -/
inductive RoundReads (m : ℕ → Byte) (size p : ℕ) : ℕ → Prop
  | header {x : ℕ} (hroom : p + cpioHdrSize ≤ size) (hp : p ≤ x) (hx : x < p + cpioHdrSize) : RoundReads m size p x
  | compare {x : ℕ} {z : CpioSizes} (hz : ComparedAt (archive m size) p z) (hname : z.namesz = 11)
      (hp : p + cpioHdrSize ≤ x) (hx : x < p + cpioHdrSize + 11) : RoundReads m size p x
  | print {x : ℕ} {z : CpioSizes} (hz : ComparedAt (archive m size) p z)
      (hname : nameIsTrailer ((archive m size).drop (p + cpioHdrSize)) z.namesz = false)
      (hx : StringRead m (p + cpioHdrSize) x) : RoundReads m size p x

/-- Header, name and data lie in the buffer, and a NUL is among the bytes of the name. -/
structure EntryInside (m : ℕ → Byte) (size p : ℕ) (z : CpioSizes) : Prop where
  header : p + cpioHdrSize ≤ size
  name : p + cpioHdrSize + z.namesz ≤ size
  nul : ∃ x, p + cpioHdrSize ≤ x ∧ x < p + cpioHdrSize + z.namesz ∧ m x = 0
  data : p + align4 (cpioHdrSize + z.namesz) + z.filesz ≤ size

/-- The walk never reads outside of the buffer, and every entry that is compared lies in it. -/
structure StaysInside (m : ℕ → Byte) (size : ℕ) : Prop where
  reads : ∀ p x, OnChain (archive m size) p → RoundReads m size p x → x < size
  entries : ∀ p z, OnChain (archive m size) p → ComparedAt (archive m size) p z → EntryInside m size p z

/-- The name of each entry that is printed has a NUL among its bytes, and where rounding the end of the name wraps, the
name is in the buffer all the same. -/
def NamesTerminated (m : ℕ → Byte) (size : ℕ) : Prop :=
  ∀ p z, OnChain (archive m size) p → EntryAt (archive m size) p z →
    (∃ x, p + cpioHdrSize ≤ x ∧ x < p + cpioHdrSize + z.namesz ∧ m x = 0) ∧
    (0xFFFFFF8F ≤ z.namesz → p + cpioHdrSize + z.namesz ≤ size)

section Reads
variable {m : ℕ → Byte} {size p : ℕ} {z : CpioSizes}

theorem length_archive : (archive m size).length = size := length_load

theorem ComparedAt.entryAt (h : ComparedAt (archive m size) p z)
    (hname : nameIsTrailer ((archive m size).drop (p + cpioHdrSize)) z.namesz = false) :
    EntryAt (archive m size) p z := by
  have hlen : cpioHdrSize ≤ ((archive m size).drop p).length := by
    rw [List.length_drop]
    have := h.room
    omega
  exact ⟨h.room, (cpioHeader_iff hlen).mp h.header, h.inside, hname⟩

theorem EntryAt.compared (h : EntryAt (archive m size) p z) : ComparedAt (archive m size) p z :=
  ⟨h.room, h.header_eq, h.inside⟩

/-- Unless rounding wraps, the name ends before the data. -/
theorem name_le_align {n : ℕ} (h : n < 0xFFFFFF8F) : cpioHdrSize + n ≤ align4 (cpioHdrSize + n) := by
  unfold align4 cpioHdrSize
  omega

theorem ComparedAt.name_inside (h : ComparedAt (archive m size) p z) (hn : z.namesz < 0xFFFFFF8F) :
    p + cpioHdrSize + z.namesz ≤ size := by
  have hinside := h.inside
  have halign := name_le_align hn
  rw [length_archive] at hinside
  omega

/-- The round at `p` compares the name exactly if it does not fail and does not stop. -/
theorem compared_iff_step {b : List Byte} :
    (∃ z, ComparedAt b p z) ↔ cpioStep b p = .trailer ∨ ∃ line p', cpioStep b p = .entry line p' := by
  unfold cpioStep
  by_cases hroom : p + cpioHdrSize ≤ b.length
  · rw [if_pos hroom]
    cases hheader : cpioHeader (b.drop p) with
    | none => exact iff_of_false (fun ⟨z, hz⟩ => by cases hheader.symm.trans hz.header) (by simp)
    | some z =>
      dsimp only
      split_ifs with hdata hname
      · refine iff_of_false (fun ⟨z', hz⟩ => ?_) (by simp)
        obtain rfl : z = z' := Option.some.inj (hheader.symm.trans hz.header)
        have hinside := hz.inside
        omega
      · exact iff_of_true ⟨z, hroom, hheader, by omega⟩ (.inl rfl)
      · exact iff_of_true ⟨z, hroom, hheader, by omega⟩ (.inr ⟨_, _, rfl⟩)
  · rw [if_neg hroom]
    exact iff_of_false (fun ⟨z, hz⟩ => hroom hz.room) (by simp)

theorem drop_take_archive {i j : ℕ} (h : i + j ≤ size) : ((archive m size).drop i).take j = load m i j := by
  rw [archive, load_drop_take h, Nat.zero_add]

/-- The string of a name is decided by the bytes that are read. -/
theorem takeWhile_load {m' : ℕ → Byte} {a : ℕ} (n : ℕ) (h : ∀ x, StringRead m a x → m' x = m x) :
    (load m' a n).takeWhile (· ≠ 0) = (load m a n).takeWhile (· ≠ 0) := by
  induction n generalizing a with
  | zero => rfl
  | succ n ih =>
    have hfirst : m' a = m a := h a ⟨le_rfl, fun y hy hlt => absurd hy (not_le.mpr hlt)⟩
    have hcons : ∀ m : ℕ → Byte, load m a (n + 1) = m a :: load m (a + 1) n := fun m => by
      rw [Nat.add_comm, load_add]
      rfl
    rw [hcons, hcons, List.takeWhile_cons, List.takeWhile_cons, hfirst]
    by_cases hnul : m a = 0
    · simp [hnul]
    · rw [ih fun x hx => h x ⟨by have := hx.1; omega, fun y hy hlt => ?_⟩]
      rcases Nat.eq_or_lt_of_le hy with rfl | hy
      · exact hnul
      · exact hx.2 y hy hlt

/-- Whatever else is in the memory, the bytes that are read decide what the round does. -/
theorem cpioStep_congr {m' : ℕ → Byte} (h : ∀ x, RoundReads m size p x → m' x = m x) :
    cpioStep (archive m' size) p = cpioStep (archive m size) p := by
  by_cases hroom : p + cpioHdrSize ≤ size
  · have hload : load m' p cpioHdrSize = load m p cpioHdrSize :=
      load_eq_load.mpr fun i hi => h _ (.header hroom (Nat.le_add_right p i) (Nat.add_lt_add_left hi p))
    have hheader : cpioHeader ((archive m' size).drop p) = cpioHeader ((archive m size).drop p) := by
      rw [← cpioHeader_take, drop_take_archive hroom, hload, ← drop_take_archive hroom, cpioHeader_take]
    unfold cpioStep
    rw [length_archive, length_archive, if_pos hroom, if_pos hroom, hheader]
    cases hz : cpioHeader ((archive m size).drop p) with
    | none => rfl
    | some z =>
      dsimp only
      by_cases hdata : size < p + align4 (cpioHdrSize + z.namesz) ∨
        size < p + align4 (cpioHdrSize + z.namesz) + z.filesz
      · rw [if_pos hdata, if_pos hdata]
      · have hcompared : ComparedAt (archive m size) p z :=
          ⟨by rwa [length_archive], hz, by rw [length_archive]; omega⟩
        have hname : nameIsTrailer ((archive m' size).drop (p + cpioHdrSize)) z.namesz =
            nameIsTrailer ((archive m size).drop (p + cpioHdrSize)) z.namesz := by
          by_cases heleven : z.namesz = 11
          · have hin := hcompared.name_inside (by omega)
            rw [heleven] at hin
            have hbytes : load m' (p + cpioHdrSize) 11 = load m (p + cpioHdrSize) 11 :=
              load_eq_load.mpr fun i hi => h _ (.compare hcompared heleven (Nat.le_add_right _ i) (by omega))
            unfold nameIsTrailer
            rw [drop_take_archive hin, drop_take_archive hin, hbytes]
          · have hne : (z.namesz == 11) = false := beq_false_of_ne heleven
            rw [nameIsTrailer, nameIsTrailer, hne, Bool.false_and, Bool.false_and]
        rw [if_neg hdata, if_neg hdata, hname]
        cases htrailer : nameIsTrailer ((archive m size).drop (p + cpioHdrSize)) z.namesz with
        | true => rfl
        | false =>
          have hrest : ∀ m : ℕ → Byte, (archive m size).drop (p + cpioHdrSize) =
              load m (p + cpioHdrSize) (size - (p + cpioHdrSize)) := fun m => by
            have htake := drop_take_archive (m := m) (show p + cpioHdrSize + (size - (p + cpioHdrSize)) ≤ size by omega)
            rwa [List.take_of_length_le (by rw [List.length_drop, length_archive])] at htake
          rw [hrest, hrest, takeWhile_load _ fun x hx => h x (.print hcompared htrailer hx)]
  · unfold cpioStep
    rw [length_archive, length_archive, if_neg hroom, if_neg hroom]

/-- The trailer's name ends with its NUL. -/
theorem trailer_nul (h : ComparedAt (archive m size) p z)
    (hname : nameIsTrailer ((archive m size).drop (p + cpioHdrSize)) z.namesz = true) :
    z.namesz = 11 ∧ m (p + cpioHdrSize + 10) = 0 := by
  unfold nameIsTrailer at hname
  rw [Bool.and_eq_true, beq_iff_eq, beq_iff_eq] at hname
  obtain ⟨hsize, hbytes⟩ := hname
  have hin := h.name_inside (by omega)
  have hlen : p + cpioHdrSize + 10 < (archive m size).length := by
    rw [length_archive]
    omega
  have hget : (((archive m size).drop (p + cpioHdrSize)).take 11)[10]? = some (m (p + cpioHdrSize + 10)) := by
    rw [List.getElem?_take, if_pos (by decide), List.getElem?_drop, List.getElem?_eq_getElem hlen]
    simp [archive]
  rw [hbytes] at hget
  have hzero : (trailerName ++ [0])[10]? = some 0 := by decide
  rw [hzero] at hget
  exact ⟨hsize, (Option.some.inj hget).symm⟩

theorem StringRead.le {a x y : ℕ} (h : StringRead m a x) (ha : a ≤ y) (hy : m y = 0) : x ≤ y := by
  apply Nat.le_of_not_lt
  intro hlt
  exact h.2 y ha hlt hy

theorem entryInside (h : NamesTerminated m size) (hp : OnChain (archive m size) p)
    (hz : ComparedAt (archive m size) p z) : EntryInside m size p z := by
  have hroom := hz.room
  have hinside := hz.inside
  rw [length_archive] at hroom hinside
  cases hname : nameIsTrailer ((archive m size).drop (p + cpioHdrSize)) z.namesz with
  | true =>
    obtain ⟨hsize, hnul⟩ := trailer_nul hz hname
    exact ⟨hroom, hz.name_inside (by omega), ⟨_, by omega, by omega, hnul⟩, hinside⟩
  | false =>
    obtain ⟨hnul, hwrap⟩ := h p z hp (hz.entryAt hname)
    refine ⟨hroom, ?_, hnul, hinside⟩
    by_cases hn : z.namesz < 0xFFFFFF8F
    · exact hz.name_inside hn
    · exact hwrap (by omega)

theorem reads_inside (h : NamesTerminated m size) (hp : OnChain (archive m size) p) {x : ℕ}
    (hx : RoundReads m size p x) : x < size := by
  cases hx with
  | header hroom hpx hx => omega
  | compare hz hname hpx hx =>
    have hin := hz.name_inside (by omega)
    omega
  | print hz hname hx =>
    obtain ⟨-, hin, ⟨y, hy, hyz, hnul⟩, -⟩ := entryInside h hp hz
    have hle := hx.le hy hnul
    omega

end Reads

theorem cpio_debug_stays_inside_iff (m : ℕ → Byte) (size : ℕ) : StaysInside m size ↔ NamesTerminated m size := by
  constructor
  · rintro ⟨-, hentries⟩ p z hp hz
    obtain ⟨-, hname, hnul, -⟩ := hentries p z hp hz.compared
    exact ⟨hnul, fun _ => hname⟩
  · intro h
    exact ⟨fun p x hp hx => reads_inside h hp hx, fun p z hp hz => entryInside h hp hz⟩

/-- One header and a name of two bytes that is not terminated, in a memory without any other NUL. -/
def unterminated : List Byte := plainHeader ⟨2, 0, 0⟩ ++ [0x61, 0x62]

def unterminatedMemory (x : ℕ) : Byte := unterminated.getD x 0x63

theorem unterminated_name_read_on : ¬ StaysInside unterminatedMemory 112 := by
  intro h
  have hz : ComparedAt (archive unterminatedMemory 112) 0 ⟨2, 0, 0⟩ :=
    ⟨by decide +kernel, by decide +kernel, by decide +kernel⟩
  have hread : RoundReads unterminatedMemory 112 0 112 := by
    refine .print hz (by decide +kernel) ⟨by decide, ?_⟩
    intro y hy hlt
    have hcases : y = 110 ∨ y = 111 := by
      unfold cpioHdrSize at hy
      omega
    rcases hcases with rfl | rfl
    · decide +kernel
    · decide +kernel
  exact absurd (h.reads 0 112 .start hread) (by decide)

end Borgos.Fs
