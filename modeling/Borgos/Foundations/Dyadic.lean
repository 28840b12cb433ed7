import Mathlib.Data.Nat.Bitwise
import Mathlib.Order.Interval.Set.Basic
import Mathlib.Tactic

/-! # Aligned power-of-two blocks and their coalesced tilings

A block `⟨p, k⟩` is the interval of `2^k` frames from `p`. Two aligned blocks that share a frame are
nested. A set of blocks is `Tiled N` when its blocks are aligned, have order at most `N` and are
pairwise disjoint, and `Coalesced N` when in addition no block of order below `N` has its buddy in
the set. `Coalesced.unique`: a coalesced set is determined by the frames it covers.
-/
namespace Borgos.Foundations
set_option autoImplicit false

structure Block where
  head : ℕ
  order : ℕ
deriving DecidableEq, Repr

namespace Block

def frames (b : Block) : Set ℕ := Set.Ico b.head (b.head + 2 ^ b.order)

instance (b : Block) (f : ℕ) : Decidable (f ∈ b.frames) :=
  inferInstanceAs (Decidable (b.head ≤ f ∧ f < b.head + 2 ^ b.order))

theorem mem_frames {b : Block} {f : ℕ} : f ∈ b.frames ↔ b.head ≤ f ∧ f < b.head + 2 ^ b.order :=
  Iff.rfl

theorem head_mem (b : Block) : b.head ∈ b.frames := by
  rw [mem_frames]
  have := Nat.two_pow_pos b.order
  omega

def Aligned (b : Block) : Prop := 2 ^ b.order ∣ b.head

/-- The head of the neighbour a block merges with: the other half of the aligned pair. -/
def buddyHead (p k : ℕ) : ℕ := if p % 2 ^ (k + 1) = 0 then p + 2 ^ k else p - p % 2 ^ (k + 1)

def buddy (b : Block) : Block := ⟨buddyHead b.head b.order, b.order⟩

theorem eq_of_fields {b c : Block} (hh : b.head = c.head) (ho : b.order = c.order) : b = c := by
  cases b
  cases c
  simp only at hh ho
  rw [hh, ho]

/-- Blocks with the same frames are equal. -/
theorem eq_of_frames {b c : Block} (h : b.frames = c.frames) : b = c := by
  have hb := Nat.two_pow_pos b.order
  have hc := Nat.two_pow_pos c.order
  have h1 : b.head ∈ c.frames := h ▸ b.head_mem
  have h2 : c.head ∈ b.frames := h ▸ c.head_mem
  have h3 : b.head + 2 ^ b.order - 1 ∈ c.frames := by
    rw [← h, mem_frames]
    omega
  have h4 : c.head + 2 ^ c.order - 1 ∈ b.frames := by
    rw [h, mem_frames]
    omega
  rw [mem_frames] at h1 h2 h3 h4
  have hsize : 2 ^ b.order = 2 ^ c.order := by omega
  exact eq_of_fields (by omega) (Nat.pow_right_injective (le_refl 2) hsize)

theorem order_le_of_subset {b c : Block} (h : b.frames ⊆ c.frames) : b.order ≤ c.order := by
  have hb := Nat.two_pow_pos b.order
  have h1 := h b.head_mem
  have h2 : b.head + 2 ^ b.order - 1 ∈ c.frames := h (by rw [mem_frames]; omega)
  rw [mem_frames] at h1 h2
  by_contra hlt
  have : 2 ^ c.order < 2 ^ b.order := Nat.pow_lt_pow_right (by omega) (by omega)
  omega

/-- Two aligned blocks that share a frame are nested. -/
theorem nested {b c : Block} (hb : b.Aligned) (hc : c.Aligned) (hle : b.order ≤ c.order) {f : ℕ}
    (hfb : f ∈ b.frames) (hfc : f ∈ c.frames) : b.frames ⊆ c.frames := by
  obtain ⟨u, hu⟩ := hb
  obtain ⟨v, hv⟩ := hc
  obtain ⟨d, hd⟩ := Nat.exists_eq_add_of_le hle
  rw [mem_frames] at hfb hfc
  have hpos := Nat.two_pow_pos b.order
  have hpow : 2 ^ c.order = 2 ^ b.order * 2 ^ d := by rw [hd, pow_add]
  -- both ends of `c` are multiples of the size of `b`
  have hlow : 2 ^ d * v ≤ u := by
    have h1 : 2 ^ b.order * (2 ^ d * v) < 2 ^ b.order * (u + 1) := by
      rw [← mul_assoc, ← hpow, ← hv, mul_add, ← hu]
      omega
    have := Nat.lt_of_mul_lt_mul_left h1
    omega
  have hhigh : u + 1 ≤ 2 ^ d * (v + 1) := by
    have h1 : 2 ^ b.order * u < 2 ^ b.order * (2 ^ d * (v + 1)) := by
      rw [← mul_assoc, ← hpow, mul_add, ← hu, ← hv]
      omega
    exact Nat.lt_of_mul_lt_mul_left h1
  have hlow' := Nat.mul_le_mul_left (2 ^ b.order) hlow
  have hhigh' := Nat.mul_le_mul_left (2 ^ b.order) hhigh
  rw [← mul_assoc, ← hpow, ← hv, ← hu] at hlow'
  rw [← mul_assoc, ← hpow, mul_add, mul_add, ← hu, ← hv] at hhigh'
  intro g hg
  rw [mem_frames] at hg ⊢
  omega

theorem eq_of_order {b c : Block} (hb : b.Aligned) (hc : c.Aligned) (ho : b.order = c.order) {f : ℕ}
    (hfb : f ∈ b.frames) (hfc : f ∈ c.frames) : b = c :=
  eq_of_frames (Set.Subset.antisymm (nested hb hc ho.le hfb hfc) (nested hc hb ho.ge hfc hfb))

/-! ## Buddies -/

theorem aligned_rest {p k : ℕ} (h : 2 ^ k ∣ p) : p % 2 ^ (k + 1) = 0 ∨ p % 2 ^ (k + 1) = 2 ^ k := by
  obtain ⟨m, rfl⟩ := h
  rw [pow_succ, Nat.mul_mod_mul_left]
  rcases Nat.mod_two_eq_zero_or_one m with e | e
  · left
    rw [e, mul_zero]
  · right
    rw [e, mul_one]

theorem buddyHead_left {p k : ℕ} (h : p % 2 ^ (k + 1) = 0) : buddyHead p k = p + 2 ^ k := by
  rw [buddyHead, if_pos h]

theorem buddyHead_right {p k : ℕ} (h : p % 2 ^ (k + 1) = 2 ^ k) : buddyHead p k = p - 2 ^ k := by
  have hne : p % 2 ^ (k + 1) ≠ 0 := by
    rw [h]
    exact (Nat.two_pow_pos k).ne'
  rw [buddyHead, if_neg hne, h]

theorem rest_le {p k : ℕ} (h : p % 2 ^ (k + 1) = 2 ^ k) : 2 ^ k ≤ p := by
  rw [← h]
  exact Nat.mod_le _ _

theorem left_dvd {p k : ℕ} (h : p % 2 ^ (k + 1) = 0) : 2 ^ (k + 1) ∣ p := Nat.dvd_of_mod_eq_zero h

theorem right_dvd {p k : ℕ} (h : p % 2 ^ (k + 1) = 2 ^ k) : 2 ^ (k + 1) ∣ p - 2 ^ k := by
  rw [← h]
  exact Nat.dvd_sub_mod p

theorem dvd_of_succ {p k : ℕ} (h : 2 ^ (k + 1) ∣ p) : 2 ^ k ∣ p :=
  (pow_dvd_pow 2 (Nat.le_succ k)).trans h

/-- The upper half of an aligned pair leaves the rest `2^k`. -/
theorem upper_rest {p k : ℕ} (h : 2 ^ (k + 1) ∣ p) : (p + 2 ^ k) % 2 ^ (k + 1) = 2 ^ k := by
  obtain ⟨m, rfl⟩ := h
  rw [Nat.mul_add_mod, Nat.mod_eq_of_lt (Nat.pow_lt_pow_right (by omega) (by omega))]

theorem buddy_buddy {b : Block} (h : b.Aligned) : b.buddy.buddy = b := by
  refine eq_of_fields ?_ rfl
  show buddyHead (buddyHead b.head b.order) b.order = b.head
  rcases aligned_rest h with e | e
  · rw [buddyHead_left e, buddyHead_right (upper_rest (left_dvd e))]
    omega
  · have hle := rest_le e
    rw [buddyHead_right e, buddyHead_left (Nat.mod_eq_zero_of_dvd (right_dvd e))]
    omega

/-- The buddy's head differs from the head in bit `k` alone. -/
theorem buddyHead_eq_xor {p k : ℕ} (h : 2 ^ k ∣ p) : buddyHead p k = p ^^^ 2 ^ k := by
  obtain ⟨m, rfl⟩ := h
  have hx : 2 ^ k * m ^^^ 2 ^ k = 2 ^ k * (m ^^^ 1) := by
    have := @Nat.shiftLeft_xor_distrib k m 1
    simp only [Nat.shiftLeft_eq, one_mul] at this
    rw [mul_comm (2 ^ k) m, mul_comm (2 ^ k) (m ^^^ 1), this]
  rw [hx]
  rcases Nat.even_or_odd m with he | ho
  · have hr : 2 ^ k * m % 2 ^ (k + 1) = 0 := by
      rw [pow_succ, Nat.mul_mod_mul_left, Nat.even_iff.mp he, mul_zero]
    rw [buddyHead_left hr, Nat.xor_one_of_even he, mul_add, mul_one]
  · have hr : 2 ^ k * m % 2 ^ (k + 1) = 2 ^ k := by
      rw [pow_succ, Nat.mul_mod_mul_left, Nat.odd_iff.mp ho, mul_one]
    rw [buddyHead_right hr, Nat.xor_one_of_odd ho, Nat.mul_sub, mul_one]

/-- A block and its buddy together are the aligned block of the next order. -/
theorem parent_frames_left {p k f : ℕ} :
    f ∈ (⟨p, k + 1⟩ : Block).frames ↔ f ∈ (⟨p, k⟩ : Block).frames ∨ f ∈ (⟨p + 2 ^ k, k⟩ : Block).frames := by
  simp only [mem_frames, pow_succ]
  omega

end Block

/-! ## Tilings -/

/-- The frames a set of blocks covers. -/
def covered (S : Set Block) : Set ℕ := {f | ∃ b ∈ S, f ∈ b.frames}

structure Tiled (N : ℕ) (S : Set Block) : Prop where
  order_le : ∀ b ∈ S, b.order ≤ N
  aligned : ∀ b ∈ S, b.Aligned
  disjoint : ∀ b ∈ S, ∀ c ∈ S, ∀ f, f ∈ b.frames → f ∈ c.frames → b = c

structure Coalesced (N : ℕ) (S : Set Block) : Prop extends Tiled N S where
  maximal : ∀ b ∈ S, b.order < N → b.buddy ∉ S

theorem Tiled.mono {N : ℕ} {S T : Set Block} (h : Tiled N T) (hsub : S ⊆ T) : Tiled N S where
  order_le b hb := h.order_le b (hsub hb)
  aligned b hb := h.aligned b (hsub hb)
  disjoint b hb c hc := h.disjoint b (hsub hb) c (hsub hc)

theorem Coalesced.mono {N : ℕ} {S T : Set Block} (h : Coalesced N T) (hsub : S ⊆ T) : Coalesced N S where
  toTiled := h.toTiled.mono hsub
  maximal b hb hlt hm := h.maximal b (hsub hb) hlt (hsub hm)

theorem Tiled.insert {N : ℕ} {S : Set Block} {b : Block} (h : Tiled N S) (hle : b.order ≤ N)
    (hal : b.Aligned) (hdis : ∀ f ∈ b.frames, f ∉ covered S) : Tiled N (insert b S) where
  order_le c hc := by
    rcases hc with e | hc
    · exact e ▸ hle
    · exact h.order_le c hc
  aligned c hc := by
    rcases hc with e | hc
    · exact e ▸ hal
    · exact h.aligned c hc
  disjoint c hc d hd f hfc hfd := by
    rcases hc with e | hc
    · rcases hd with e' | hd
      · rw [e, e']
      · exact absurd ⟨d, hd, hfd⟩ (hdis f (e ▸ hfc))
    · rcases hd with e' | hd
      · exact absurd ⟨c, hc, hfc⟩ (hdis f (e' ▸ hfd))
      · exact h.disjoint c hc d hd f hfc hfd

theorem Coalesced.insert {N : ℕ} {S : Set Block} {b : Block} (h : Coalesced N S) (hle : b.order ≤ N)
    (hal : b.Aligned) (hdis : ∀ f ∈ b.frames, f ∉ covered S) (hbud : b.order < N → b.buddy ∉ S) :
    Coalesced N (insert b S) where
  toTiled := h.toTiled.insert hle hal hdis
  maximal c hc hlt hm := by
    rcases hc with e | hc
    · subst e
      rcases hm with e' | hm
      · -- a block is not its own buddy: the heads differ by the size
        have hh : Block.buddyHead c.head c.order = c.head := congrArg Block.head e'
        have hpos := Nat.two_pow_pos c.order
        rcases Block.aligned_rest hal with er | er
        · rw [Block.buddyHead_left er] at hh
          omega
        · have hle := Block.rest_le er
          rw [Block.buddyHead_right er] at hh
          omega
      · exact hbud hlt hm
    · rcases hm with e' | hm
      · have hcb : b.buddy = c := by rw [← e', Block.buddy_buddy (h.aligned c hc)]
        have ho : b.order = c.order := by rw [← e']; rfl
        exact hbud (by omega) (hcb ▸ hc)
      · exact h.maximal c hc hlt hm

/-- In a coalesced set an aligned block all of whose frames are covered lies in one block. -/
theorem Coalesced.whole {N : ℕ} {S : Set Block} (h : Coalesced N S) : ∀ (k p : ℕ), k ≤ N → 2 ^ k ∣ p →
    (⟨p, k⟩ : Block).frames ⊆ covered S → ∃ c ∈ S, (⟨p, k⟩ : Block).frames ⊆ c.frames
  | 0, p, _, hal, hcov => by
    obtain ⟨c, hc, hpc⟩ := hcov (Block.head_mem ⟨p, 0⟩)
    exact ⟨c, hc, Block.nested hal (h.aligned c hc) (Nat.zero_le _) (Block.head_mem ⟨p, 0⟩) hpc⟩
  | k + 1, p, hk, hal, hcov => by
    have hlow : (⟨p, k⟩ : Block).frames ⊆ covered S :=
      fun f hf => hcov (Block.parent_frames_left.mpr (Or.inl hf))
    have hupp : (⟨p + 2 ^ k, k⟩ : Block).frames ⊆ covered S :=
      fun f hf => hcov (Block.parent_frames_left.mpr (Or.inr hf))
    have halp : 2 ^ k ∣ p := Block.dvd_of_succ hal
    have halq : 2 ^ k ∣ p + 2 ^ k := dvd_add halp (dvd_refl _)
    obtain ⟨c, hc, hpc⟩ := h.whole k p (by omega) halp hlow
    obtain ⟨d, hd, hqd⟩ := h.whole k (p + 2 ^ k) (by omega) halq hupp
    by_cases hcs : k + 1 ≤ c.order
    · exact ⟨c, hc, Block.nested hal (h.aligned c hc) hcs (Block.head_mem ⟨p, k + 1⟩)
        (hpc (Block.head_mem ⟨p, k⟩))⟩
    by_cases hds : k + 1 ≤ d.order
    · refine ⟨d, hd, Block.nested hal (h.aligned d hd) hds ?_ (hqd (Block.head_mem ⟨p + 2 ^ k, k⟩))⟩
      exact Block.parent_frames_left.mpr (Or.inr (Block.head_mem ⟨p + 2 ^ k, k⟩))
    -- otherwise both halves are blocks of the set, and they are buddies
    have hco := Block.order_le_of_subset hpc
    have hdo := Block.order_le_of_subset hqd
    simp only at hco hdo
    have ec : (⟨p, k⟩ : Block) = c :=
      Block.eq_of_order halp (h.aligned c hc) (by simp only; omega) (Block.head_mem ⟨p, k⟩)
        (hpc (Block.head_mem ⟨p, k⟩))
    have ed : (⟨p + 2 ^ k, k⟩ : Block) = d :=
      Block.eq_of_order halq (h.aligned d hd) (by simp only; omega) (Block.head_mem ⟨p + 2 ^ k, k⟩)
        (hqd (Block.head_mem ⟨p + 2 ^ k, k⟩))
    have hbud : (⟨p, k⟩ : Block).buddy = ⟨p + 2 ^ k, k⟩ := by
      refine Block.eq_of_fields ?_ rfl
      exact Block.buddyHead_left (Nat.mod_eq_zero_of_dvd hal)
    exact absurd (hbud ▸ ed ▸ hd) (h.maximal _ (ec ▸ hc) (by simp only; omega))

theorem Coalesced.subset_of_covered {N : ℕ} {S T : Set Block} (hS : Coalesced N S) (hT : Coalesced N T)
    (h : covered S = covered T) : S ⊆ T := by
  intro b hb
  have hbT : b.frames ⊆ covered T := fun f hf => h ▸ ⟨b, hb, hf⟩
  obtain ⟨c, hc, hbc⟩ := hT.whole b.order b.head (hS.order_le b hb) (hS.aligned b hb) hbT
  have hcS : c.frames ⊆ covered S := fun f hf => h ▸ ⟨c, hc, hf⟩
  obtain ⟨d, hd, hcd⟩ := hS.whole c.order c.head (hT.order_le c hc) (hT.aligned c hc) hcS
  have ebd : b = d := hS.disjoint b hb d hd b.head b.head_mem (hcd (hbc b.head_mem))
  subst ebd
  have ebc : b = c := Block.eq_of_frames (Set.Subset.antisymm hbc hcd)
  exact ebc ▸ hc

/-- **A coalesced set is determined by the frames it covers.** -/
theorem Coalesced.unique {N : ℕ} {S T : Set Block} (hS : Coalesced N S) (hT : Coalesced N T)
    (h : covered S = covered T) : S = T :=
  Set.Subset.antisymm (hS.subset_of_covered hT h) (hT.subset_of_covered hS h.symm)

end Borgos.Foundations
