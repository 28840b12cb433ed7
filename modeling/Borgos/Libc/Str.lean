import Mathlib.Tactic

/-! # `string.c`: `strlcpy` and `strcmp`

A string is its characters before the NUL. The destination of a copy is a character array that remembers which of its
cells were stored to.
-/
namespace Borgos.Libc
set_option autoImplicit false

abbrev Byte := BitVec 8

structure CString where
  chars : List Byte
  noNul : 0#8 ∉ chars
deriving DecidableEq

namespace CString

def length (s : CString) : ℕ := s.chars.length

/-- `s[i]`, up to the NUL. -/
def get (s : CString) (i : ℕ) : Byte := s.chars.getD i 0#8

theorem get_of_lt {s : CString} {i : ℕ} (h : i < s.length) : s.get i = s.chars.get ⟨i, h⟩ := by
  simp only [length] at h
  simp [get, h]

theorem get_eq_zero_iff {s : CString} {i : ℕ} : s.get i = 0 ↔ s.length ≤ i := by
  constructor
  · intro h
    apply Nat.le_of_not_lt
    intro hlt
    rw [get_of_lt hlt] at h
    have hmem := List.get_mem s.chars ⟨i, hlt⟩
    rw [h] at hmem
    exact s.noNul hmem
  · intro h
    simp [get, List.getElem?_eq_none h]

theorem ext {s t : CString} (h : s.chars = t.chars) : s = t := by
  cases s
  cases t
  simpa using h

/-- The first `n` characters. -/
def truncate (s : CString) (n : ℕ) : CString := ⟨s.chars.take n, fun h => s.noNul (List.mem_of_mem_take h)⟩

theorem length_truncate (s : CString) (n : ℕ) : (s.truncate n).length = min n s.length := List.length_take

theorem truncate_of_le {s : CString} {n : ℕ} (h : s.length ≤ n) : s.truncate n = s :=
  ext (List.take_of_length_le h)

theorem get_truncate {s : CString} {n i : ℕ} (h : i < n) : (s.truncate n).get i = s.get i := by
  simp [get, truncate, h]

end CString

structure CharArray where
  cells : ℕ → Byte
  stored : List ℕ

def CharArray.put (b : CharArray) (i : ℕ) (c : Byte) : CharArray := ⟨Function.update b.cells i c, b.stored ++ [i]⟩

/-- The loop of `strlcpy` with `size` before the decrement; source and destination have advanced by `i`. -/
def strlcpyFrom (src : CString) : ℕ → ℕ → ℕ → CharArray → ℕ × ℕ × CharArray
  | size + 2, i, len, dst =>
    if src.get i ≠ 0 then strlcpyFrom src (size + 1) (i + 1) (len + 1) (dst.put i (src.get i))
    else (i + 1, len, dst.put i (src.get i))
  | _, i, len, dst => (i, len, dst)

def strlcpy (dst : CharArray) (src : CString) (size : ℕ) : ℕ × CharArray :=
  if size = 0 then (0, dst)
  else
    let (i, len, dst) := strlcpyFrom src size 0 0 dst
    (len + 1, dst.put i 0)

/-- `strcmp` with `i` characters of `s1` compared and the characters `s2` left. -/
def strcmpFrom (s1 : ℕ → Byte) : ℕ → List Byte → ℤ
  | i, [] => (s1 i).toNat
  | i, c :: s2 => if s1 i ≠ 0 ∧ s1 i = c then strcmpFrom s1 (i + 1) s2 else (s1 i).toNat - c.toNat

def strcmp (s1 : ℕ → Byte) (s2 : CString) : ℤ := strcmpFrom s1 0 s2.chars

/-! ## What is copied -/

/-- The first `n` cells are those of `src`. -/
def CopiedTo (src : CString) (n : ℕ) (dst : CharArray) : Prop := ∀ k < n, dst.cells k = src.get k

def StoredBelow (n : ℕ) (dst : CharArray) : Prop := ∀ k ∈ dst.stored, k < n

theorem CopiedTo.put {src : CString} {i : ℕ} {dst : CharArray} (h : CopiedTo src i dst) :
    CopiedTo src (i + 1) (dst.put i (src.get i)) := by
  intro k hk
  by_cases hki : k = i
  · subst hki
    simp [CharArray.put]
  · have hlt : k < i := by omega
    simpa [CharArray.put, hki] using h k hlt

theorem StoredBelow.put {n i : ℕ} {c : Byte} {dst : CharArray} (h : StoredBelow n dst) (hi : i < n) :
    StoredBelow n (dst.put i c) := by
  intro k hk
  rcases List.mem_append.mp hk with hk | hk
  · exact h k hk
  · rw [List.mem_singleton.mp hk]
    exact hi

/-- The loop ends behind the NUL it copied, or where `size - 1` characters are copied. -/
structure LoopEnd (src : CString) (n i : ℕ) (dst : CharArray) : Prop where
  copied : CopiedTo src i dst
  below : StoredBelow n dst
  room : i < n
  stop : src.length < i ∨ (i + 1 = n ∧ i ≤ src.length)

theorem strlcpyFrom_spec {src : CString} {n size i len : ℕ} {dst : CharArray} (hn : i + size = n) (hsize : 0 < size)
    (hi : i ≤ src.length) (hcopied : CopiedTo src i dst) (hbelow : StoredBelow n dst) :
    LoopEnd src n (strlcpyFrom src size i len dst).1 (strlcpyFrom src size i len dst).2.2 := by
  fun_induction strlcpyFrom src size i len dst with
  | case1 size i len dst hget ih =>
    have hlt : i < src.length := by
      rw [Ne, CString.get_eq_zero_iff] at hget
      omega
    apply ih (by omega) (by omega) hlt hcopied.put (hbelow.put (by omega))
  | case2 size i len dst hget =>
    have hle : src.length ≤ i := CString.get_eq_zero_iff.mp (by simpa using hget)
    exact ⟨hcopied.put, hbelow.put (by omega), by omega, .inl (by omega)⟩
  | case3 size i len dst hlast =>
    have hone : size = 1 := by
      match size, hlast with
      | 1, _ => rfl
      | m + 2, h => exact absurd rfl (h m)
    exact ⟨hcopied, hbelow, by omega, .inr ⟨by omega, hi⟩⟩

/-- The array holds the first `size - 1` characters and a NUL, and only its first `size` cells are stored to. -/
structure Copied (src : CString) (size : ℕ) (dst : CharArray) : Prop where
  chars : ∀ k < size - 1, k < src.length → dst.cells k = src.get k
  nul : dst.cells (min src.length (size - 1)) = 0
  below : StoredBelow size dst

theorem strlcpy_spec {dst : CharArray} {src : CString} {size : ℕ} (hsize : 0 < size) (hdst : dst.stored = []) :
    Copied src size (strlcpy dst src size).2 := by
  have hnone : StoredBelow size dst := by
    simp [StoredBelow, hdst]
  have h : LoopEnd src size (strlcpyFrom src size 0 0 dst).1 (strlcpyFrom src size 0 0 dst).2.2 :=
    strlcpyFrom_spec (Nat.zero_add size) hsize (Nat.zero_le src.length)
      (fun k hk => absurd hk (Nat.not_lt_zero k)) hnone
  unfold strlcpy
  rw [if_neg (by omega)]
  generalize strlcpyFrom src size 0 0 dst = r at h
  obtain ⟨i, len, out⟩ := r
  obtain ⟨hcopied, hbelow, hroom, hstop⟩ := h
  simp only at hcopied hbelow hroom hstop ⊢
  refine ⟨?_, ?_, hbelow.put hroom⟩
  · intro k hk hlt
    have hki : k < i := by omega
    have hne : k ≠ i := by omega
    simpa [CharArray.put, hne] using hcopied k hki
  · rcases hstop with hlt | ⟨hlast, hle⟩
    · have hmin : min src.length (size - 1) = src.length := by omega
      have hne : src.length ≠ i := by omega
      have hnul := hcopied src.length hlt
      rw [CString.get_eq_zero_iff.mpr le_rfl] at hnul
      rw [hmin]
      simpa [CharArray.put, hne] using hnul
    · have hmin : min src.length (size - 1) = i := by omega
      rw [hmin]
      simp [CharArray.put]

/-! ## Comparing -/

/-- The array holds the string and its NUL. -/
def Holds (s1 : ℕ → Byte) (s : CString) : Prop := ∀ k ≤ s.length, s1 k = s.get k

theorem strcmpFrom_eq_zero {s1 : ℕ → Byte} {i : ℕ} {s2 : List Byte} (hnul : 0#8 ∉ s2) :
    strcmpFrom s1 i s2 = 0 ↔ (∀ k, k ≤ s2.length → s1 (i + k) = s2.getD k 0#8) := by
  induction s2 generalizing i with
  | nil => simp [strcmpFrom, ← BitVec.toNat_inj]
  | cons c s2 ih =>
    have hc : c ≠ 0#8 := fun h => hnul (by simp [h])
    have hrest : 0#8 ∉ s2 := fun h => hnul (List.mem_cons_of_mem c h)
    by_cases heq : s1 i = c
    · have hgo : s1 i ≠ 0 ∧ s1 i = c := ⟨by rwa [heq], heq⟩
      rw [strcmpFrom, if_pos hgo, ih hrest]
      constructor
      · intro h k hk
        cases k with
        | zero => simpa using heq
        | succ k => simpa [Nat.add_assoc, Nat.add_comm 1 k] using h k (by simpa using hk)
      · intro h k hk
        simpa [Nat.add_assoc, Nat.add_comm 1 k] using h (k + 1) (by simpa using hk)
    · rw [strcmpFrom, if_neg (fun h => heq h.2)]
      constructor
      · intro h
        have hnat : (s1 i).toNat = c.toNat := by omega
        exact absurd (BitVec.eq_of_toNat_eq hnat) heq
      · intro h
        exact absurd (by simpa using h 0 (Nat.zero_le _)) heq

theorem strcmp_eq_zero {s1 : ℕ → Byte} {s2 : CString} : strcmp s1 s2 = 0 ↔ Holds s1 s2 := by
  have h : strcmpFrom s1 0 s2.chars = 0 ↔ _ := strcmpFrom_eq_zero s2.noNul
  simpa [strcmp, Holds, CString.get, CString.length] using h

/-- An array holds at most one string. -/
theorem Holds.unique {s1 : ℕ → Byte} {s t : CString} (hs : Holds s1 s) (ht : Holds s1 t) : s = t := by
  have hlen : s.length = t.length := by
    have hst := hs s.length le_rfl
    have hts := ht t.length le_rfl
    rw [CString.get_eq_zero_iff.mpr le_rfl] at hst hts
    rcases Nat.lt_trichotomy s.length t.length with hlt | heq | hgt
    · rw [ht s.length (Nat.le_of_lt hlt), CString.get_eq_zero_iff] at hst
      omega
    · exact heq
    · rw [hs t.length (Nat.le_of_lt hgt), CString.get_eq_zero_iff] at hts
      omega
  apply CString.ext
  apply List.ext_getElem hlen
  intro k hk hk'
  have hget : s.get k = t.get k := by
    rw [← hs k (Nat.le_of_lt hk), ← ht k (Nat.le_of_lt hk')]
  rwa [CString.get_of_lt hk, CString.get_of_lt hk'] at hget

/-- What has been copied is read back as the source, cut off behind `size - 1` characters. -/
theorem Copied.holds {src : CString} {size : ℕ} {dst : CharArray} (h : Copied src size dst) :
    Holds dst.cells (src.truncate (size - 1)) := by
  intro k hk
  rw [CString.length_truncate, Nat.min_comm] at hk
  rcases Nat.lt_or_eq_of_le hk with hlt | rfl
  · have hsize : k < size - 1 := by omega
    rw [CString.get_truncate hsize]
    exact h.chars k hsize (by omega)
  · rw [h.nul, eq_comm, CString.get_eq_zero_iff, CString.length_truncate, Nat.min_comm]

end Borgos.Libc
