import Borgos.Libc.Str

/-! # `string.c`: what `strlcpy` reads

The loop of `strlcpy` with the indices of the source that it has read.
-/
namespace Borgos.Libc
set_option autoImplicit false

def strlcpyReadingFrom (src : CString) : ℕ → ℕ → ℕ → List ℕ → CharArray → List ℕ × ℕ × ℕ × CharArray
  | size + 2, i, len, reads, dst =>
    if src.get i ≠ 0 then strlcpyReadingFrom src (size + 1) (i + 1) (len + 1) (reads ++ [i]) (dst.put i (src.get i))
    else (reads ++ [i], i + 1, len, dst.put i (src.get i))
  | _, i, len, reads, dst => (reads, i, len, dst)

/-- A call of `strlcpy`: what it has read, and the destination after it. -/
structure StrlcpyCall where
  reads : List ℕ
  dst : CharArray

def strlcpyReading (cells : ℕ → Byte) (src : CString) (size : ℕ) : StrlcpyCall :=
  if size = 0 then ⟨[], ⟨cells, []⟩⟩
  else
    let (reads, i, _, dst) := strlcpyReadingFrom src size 0 0 [] ⟨cells, []⟩
    ⟨reads, dst.put i 0⟩

theorem strlcpyReadingFrom_snd (src : CString) (size i len : ℕ) (reads : List ℕ) (dst : CharArray) :
    (strlcpyReadingFrom src size i len reads dst).2 = strlcpyFrom src size i len dst := by
  fun_induction strlcpyReadingFrom src size i len reads dst with
  | case1 size i len reads dst hget ih => rw [ih, strlcpyFrom, if_pos hget]
  | case2 size i len reads dst hget => rw [strlcpyFrom, if_neg hget]
  | case3 size i len reads dst hlast =>
    match size, hlast with
    | 0, _ => rfl
    | 1, _ => rfl
    | m + 2, h => exact absurd rfl (h m)

theorem strlcpyReading_dst (cells : ℕ → Byte) (src : CString) (size : ℕ) :
    (strlcpyReading cells src size).dst = (strlcpy ⟨cells, []⟩ src size).2 := by
  unfold strlcpyReading strlcpy
  by_cases hsize : size = 0
  · simp [hsize]
  · simp [hsize, ← strlcpyReadingFrom_snd src size 0 0 []]

/-- The characters are read one after another, up to the NUL and `size - 1` of them at most. -/
theorem strlcpyReadingFrom_fst {src : CString} {size i len : ℕ} {reads : List ℕ} {dst : CharArray}
    (hi : i ≤ src.length) :
    (strlcpyReadingFrom src size i len reads dst).1 = reads ++ List.range' i (min (src.length + 1 - i) (size - 1)) := by
  fun_induction strlcpyReadingFrom src size i len reads dst with
  | case1 size i len reads dst hget ih =>
    have hlt : i < src.length := by
      rw [Ne, CString.get_eq_zero_iff] at hget
      omega
    have hcount : min (src.length + 1 - i) (size + 2 - 1) = min (src.length + 1 - (i + 1)) (size + 1 - 1) + 1 := by
      omega
    rw [ih hlt, hcount, List.range'_succ, List.append_assoc, List.singleton_append]
  | case2 size i len reads dst hget =>
    have hle : src.length ≤ i := CString.get_eq_zero_iff.mp (by simpa using hget)
    have hcount : min (src.length + 1 - i) (size + 2 - 1) = 1 := by omega
    rw [hcount, List.range'_one]
  | case3 size i len reads dst hlast =>
    have hcount : min (src.length + 1 - i) (size - 1) = 0 := by
      match size, hlast with
      | 0, _ => omega
      | 1, _ => omega
      | m + 2, h => exact absurd rfl (h m)
    rw [hcount, List.range'_zero, List.append_nil]

theorem strlcpyReading_reads (cells : ℕ → Byte) (src : CString) {size : ℕ} (hsize : 0 < size) :
    (strlcpyReading cells src size).reads = List.range' 0 (min (src.length + 1) (size - 1)) := by
  unfold strlcpyReading
  rw [if_neg (by omega)]
  have h : (strlcpyReadingFrom src size 0 0 [] ⟨cells, []⟩).1 = _ := strlcpyReadingFrom_fst (Nat.zero_le src.length)
  exact h

theorem strlcpyFrom_beyond {src : CString} {n size i len : ℕ} {dst : CharArray} (hn : i + size = n) (hsize : 0 < size)
    {k : ℕ} (hk : n ≤ k) : (strlcpyFrom src size i len dst).2.2.cells k = dst.cells k ∧
      (strlcpyFrom src size i len dst).1 < n := by
  fun_induction strlcpyFrom src size i len dst with
  | case1 size i len dst hget ih =>
    obtain ⟨hcell, hend⟩ := ih (by omega) (by omega)
    refine ⟨?_, hend⟩
    rw [hcell]
    exact Function.update_of_ne (by omega) _ _
  | case2 size i len dst hget => exact ⟨Function.update_of_ne (by omega) _ _, by simp only; omega⟩
  | case3 size i len dst hlast => exact ⟨rfl, by simp only; omega⟩

theorem strlcpy_beyond {cells : ℕ → Byte} {src : CString} {size k : ℕ} (hsize : 0 < size) (hk : size ≤ k) :
    (strlcpy ⟨cells, []⟩ src size).2.cells k = cells k := by
  have h : _ ∧ (strlcpyFrom src size 0 0 ⟨cells, []⟩).1 < size := strlcpyFrom_beyond (Nat.zero_add size) hsize hk
  unfold strlcpy
  rw [if_neg (by omega)]
  have hput : k ≠ (strlcpyFrom src size 0 0 ⟨cells, []⟩).1 := by omega
  exact (Function.update_of_ne hput _ _).trans h.1

/-- A prefix of `src` of at most `n` characters than which none is longer. -/
structure LongestPrefix (src : CString) (n : ℕ) (p : CString) : Prop where
  isPrefix : p.chars <+: src.chars
  length_le : p.length ≤ n
  longest : ∀ q : CString, q.chars <+: src.chars → q.length ≤ n → q.length ≤ p.length

theorem truncate_longestPrefix (src : CString) (n : ℕ) : LongestPrefix src n (src.truncate n) where
  isPrefix := List.take_prefix n src.chars
  length_le := by
    rw [CString.length_truncate]
    exact Nat.min_le_left n src.length
  longest q hprefix hle := by
    rw [CString.length_truncate]
    exact le_min hle hprefix.length_le

/-- **`strlcpy` terminates within the buffer.** -/
theorem strlcpy_within_buffer (cells : ℕ → Byte) (src : CString) (size : ℕ) (hsize : 1 ≤ size) :
    (∀ k ∈ (strlcpyReading cells src size).dst.stored, k < size) ∧
    (∀ k, size ≤ k → (strlcpyReading cells src size).dst.cells k = cells k) ∧
    (∀ k ∈ (strlcpyReading cells src size).reads, k ≤ src.length) ∧
    (strlcpyReading cells src size).reads.length ≤ size - 1 ∧
    ∃ p, LongestPrefix src (size - 1) p ∧ Holds (strlcpyReading cells src size).dst.cells p := by
  have hcopied : Copied src size (strlcpy ⟨cells, []⟩ src size).2 := strlcpy_spec hsize rfl
  rw [strlcpyReading_dst, strlcpyReading_reads cells src hsize]
  refine ⟨hcopied.below, fun k hk => strlcpy_beyond hsize hk, ?_, ?_, src.truncate (size - 1),
    truncate_longestPrefix src (size - 1), hcopied.holds⟩
  · intro k hk
    rw [List.mem_range'_1] at hk
    omega
  · rw [List.length_range']
    exact Nat.min_le_right _ _

/-- Room for two characters. -/
theorem strlcpy_within_buffer_cut : ∃ p, LongestPrefix ⟨[0x62, 0x6f, 0x72, 0x67], by decide⟩ 2 p ∧
    Holds (strlcpyReading (fun _ => 0xff) ⟨[0x62, 0x6f, 0x72, 0x67], by decide⟩ 3).dst.cells p :=
  (strlcpy_within_buffer (fun _ => 0xff) ⟨[0x62, 0x6f, 0x72, 0x67], by decide⟩ 3 (by decide)).2.2.2.2

end Borgos.Libc
