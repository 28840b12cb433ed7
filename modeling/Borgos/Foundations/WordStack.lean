import Mathlib.Data.BitVec
import Mathlib.Tactic

/-! # Stacks of machine words

A memory of 64-bit words with the address of a word as its key. A stack grows downwards, eight bytes a word: pushing
a list leaves it in memory in reverse, and changes nothing but the words below the old stack pointer.
-/
namespace Borgos.Foundations.WordStack
set_option autoImplicit false

abbrev Word := BitVec 64

abbrev WordMemory := Word → Word

/-- `n` words above `sp`. -/
def up (sp : Word) (n : ℕ) : Word := sp + BitVec.ofNat 64 (8 * n)

/-- `n` words below `sp`. -/
def down (sp : Word) (n : ℕ) : Word := sp - BitVec.ofNat 64 (8 * n)

@[simp] theorem up_zero (sp : Word) : up sp 0 = sp := BitVec.add_zero sp

@[simp] theorem down_zero (sp : Word) : down sp 0 = sp := BitVec.sub_zero sp

theorem up_up (sp : Word) (m n : ℕ) : up (up sp m) n = up sp (m + n) := by
  unfold up
  rw [BitVec.add_assoc, ← BitVec.ofNat_add, Nat.mul_add]

theorem down_down (sp : Word) (m n : ℕ) : down (down sp m) n = down sp (m + n) := by
  unfold down
  rw [BitVec.sub_sub, ← BitVec.ofNat_add, Nat.mul_add]

theorem up_down {m n : ℕ} (sp : Word) (h : m ≤ n) : up (down sp n) m = down sp (n - m) := by
  obtain ⟨k, rfl⟩ := Nat.exists_eq_add_of_le h
  rw [Nat.add_sub_cancel_left, Nat.add_comm, ← down_down]
  unfold up down
  exact BitVec.sub_add_cancel _ _

/-- Words a whole address space apart are the only ones to meet. -/
theorem down_injective {sp : Word} {m n : ℕ} (hm : 8 * m < 2 ^ 64) (hn : 8 * n < 2 ^ 64) (h : down sp m = down sp n) :
    m = n := by
  unfold down at h
  have hoffset : BitVec.ofNat 64 (8 * m) = BitVec.ofNat 64 (8 * n) := sub_right_injective h
  have hnat := congrArg BitVec.toNat hoffset
  rw [BitVec.toNat_ofNat, BitVec.toNat_ofNat, Nat.mod_eq_of_lt hm, Nat.mod_eq_of_lt hn] at hnat
  exact Nat.eq_of_mul_eq_mul_left (by decide) hnat

/-! ## Reading -/

/-- The `n` words from `sp` upwards. -/
def wordsAt (mem : WordMemory) (sp : Word) : ℕ → List Word
  | 0 => []
  | n + 1 => mem sp :: wordsAt mem (up sp 1) n

variable {mem mem' : WordMemory} {sp : Word}

@[simp] theorem length_wordsAt (n : ℕ) : (wordsAt mem sp n).length = n := by
  induction n generalizing sp with
  | zero => rfl
  | succ n ih => rw [wordsAt, List.length_cons, ih]

theorem wordsAt_add (m n : ℕ) : wordsAt mem sp (m + n) = wordsAt mem sp m ++ wordsAt mem (up sp m) n := by
  induction m generalizing sp with
  | zero => rw [Nat.zero_add, up_zero, wordsAt, List.nil_append]
  | succ m ih => rw [Nat.add_right_comm, wordsAt, ih, wordsAt, List.cons_append, up_up, Nat.add_comm 1 m]

theorem wordsAt_congr {n : ℕ} (h : ∀ i < n, mem (up sp i) = mem' (up sp i)) : wordsAt mem sp n = wordsAt mem' sp n := by
  induction n generalizing sp with
  | zero => rfl
  | succ n ih =>
    rw [wordsAt, wordsAt, ih, ← up_zero sp, h 0 (Nat.succ_pos n)]
    intro i hi
    rw [up_up, Nat.add_comm]
    exact h (i + 1) (Nat.succ_lt_succ hi)

theorem getElem?_wordsAt {n i : ℕ} (h : i < n) : (wordsAt mem sp n)[i]? = some (mem (up sp i)) := by
  induction n generalizing sp i with
  | zero => exact absurd h (Nat.not_lt_zero i)
  | succ n ih =>
    cases i with
    | zero => rw [wordsAt, List.getElem?_cons_zero, up_zero]
    | succ i => rw [wordsAt, List.getElem?_cons_succ, ih (Nat.lt_of_succ_lt_succ h), up_up, Nat.add_comm 1 i]

/-! ## Pushing -/

/-- Memory after the words have been pushed, the first one first. -/
def pushAll (mem : WordMemory) (sp : Word) : List Word → WordMemory
  | [] => mem
  | w :: ws => pushAll (Function.update mem (down sp 1) w) (down sp 1) ws

/-- Only the words below the stack pointer change. -/
theorem pushAll_frame {ws : List Word} {a : Word} (h : ∀ i < ws.length, a ≠ down sp (i + 1)) :
    pushAll mem sp ws a = mem a := by
  induction ws generalizing mem sp with
  | nil => rfl
  | cons w ws ih =>
    rw [pushAll, ih, Function.update_of_ne (h 0 (Nat.succ_pos _))]
    intro i hi
    rw [down_down, Nat.add_comm]
    exact h (i + 1) (Nat.succ_lt_succ hi)

/-- What was pushed is on the stack, the last word lowest. -/
theorem wordsAt_pushAll (mem : WordMemory) (sp : Word) {ws : List Word} (h : 8 * ws.length < 2 ^ 64) :
    wordsAt (pushAll mem sp ws) (down sp ws.length) ws.length = ws.reverse := by
  induction ws generalizing mem sp with
  | nil => rfl
  | cons w ws ih =>
    rw [List.length_cons] at h ⊢
    have hrest := ih (Function.update mem (down sp 1) w) (down sp 1) (by omega)
    rw [down_down, Nat.add_comm] at hrest
    rw [pushAll, wordsAt_add, hrest, up_down sp (Nat.le_add_right _ 1), Nat.add_sub_cancel_left, wordsAt, wordsAt,
      List.reverse_cons, pushAll_frame, Function.update_self]
    intro i hi he
    rw [down_down] at he
    have := down_injective (by omega) (by omega) he
    omega

end Borgos.Foundations.WordStack
