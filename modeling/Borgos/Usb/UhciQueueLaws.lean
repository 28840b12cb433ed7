import Borgos.Foundations.Chain
import Borgos.Usb.UhciQueue

/-! # The transfer queues are lists

Each top queue head and the transfers below it form a null-terminated chain of link words. Insertion puts a word at the
end of one chain and removal takes one word out of it; the other chains have no queue head in common with it.
-/
namespace Borgos.Usb
open Borgos.Foundations Borgos.Mem
set_option autoImplicit false

variable {m m' : QhMem} {a b qh top : ℕ} {xs : List ℕ}

/-! ## Link words -/

/-- An address that a link can hold: 16-byte aligned and below 4 GiB. -/
structure Linkable (a : ℕ) : Prop where
  word : a < 2 ^ 64
  below : v2p a < 2 ^ 32
  aligned : 16 ∣ v2p a

def linkOf (a : ℕ) : ℕ := v2p a ||| uhciQhQ

theorem mask_eq : uhciQhPtrMask = 2 ^ 4 * (2 ^ 28 - 1) := by decide

theorem or_and_mask {p : ℕ} (hp : p < 2 ^ 32) (h16 : 16 ∣ p) : (p ||| uhciQhQ) &&& uhciQhPtrMask = p := by
  obtain ⟨c, rfl⟩ := h16
  have hc : c < 2 ^ 28 := by omega
  rw [mask_eq]
  apply Nat.eq_of_testBit_eq
  intro i
  rw [show (16 : ℕ) = 2 ^ 4 by rfl, show uhciQhQ = 2 ^ 1 by rfl, Nat.testBit_and, Nat.testBit_or]
  simp only [Nat.testBit_two_pow_mul, Nat.testBit_two_pow, Nat.testBit_two_pow_sub_one]
  by_cases hi : 4 ≤ i
  · have h1 : ¬ 1 = i := by omega
    by_cases hlt : i - 4 < 28
    · simp [hi, h1, hlt]
    · have hbit : c.testBit (i - 4) = false :=
        Nat.testBit_lt_two_pow (hc.trans_le (Nat.pow_le_pow_right (by norm_num) (by omega)))
      simp [hi, hlt, hbit]
  · simp [hi]

theorem or_flag {p : ℕ} (h16 : 16 ∣ p) : p ||| uhciQhQ = p + 2 := by
  obtain ⟨c, rfl⟩ := h16
  exact (Nat.two_pow_add_eq_or_of_lt (show 2 < 2 ^ 4 by norm_num) c).symm

namespace Linkable

theorem link_eq (h : Linkable a) : linkOf a = v2p a + 2 := or_flag h.aligned

theorem link_lt (h : Linkable a) : linkOf a < 2 ^ 32 := by
  rw [h.link_eq]
  have hb := h.below
  have ha := h.aligned
  omega

theorem link_mod (h : Linkable a) : linkOf a % 2 ^ 32 = linkOf a := Nat.mod_eq_of_lt h.link_lt

theorem link_ne (h : Linkable a) : linkOf a ≠ uhciQhT := by
  rw [h.link_eq]
  unfold uhciQhT
  omega

theorem link_flag (a : ℕ) : linkOf a &&& uhciQhQ ≠ 0 := by
  unfold linkOf
  rw [Nat.and_comm, Nat.and_or_distrib_left, Nat.and_self]
  intro h0
  have hle := Nat.right_le_or (n := uhciQhQ &&& v2p a) (m := uhciQhQ)
  rw [h0] at hle
  exact absurd hle (by decide)

theorem qhOfLink_link (h : Linkable a) : qhOfLink (linkOf a) = a := by
  unfold qhOfLink linkOf
  rw [or_and_mask h.below h.aligned]
  exact p2v_v2p h.word

end Linkable

/-! ## One queue -/

/-- The link word after a link word. -/
def nextLink (m : QhMem) (link : ℕ) : ℕ := (m (qhOfLink link)).headLink

theorem nextLink_link (m : QhMem) (h : Linkable a) : nextLink m (linkOf a) = (m a).headLink := by
  unfold nextLink
  rw [h.qhOfLink_link]

/-- The transfers below `top` are `xs`, in this order. -/
structure Lists (m : QhMem) (top : ℕ) (xs : List ℕ) : Prop where
  chain : Chained (nextLink m) uhciQhT (m top).elementLink (xs.map linkOf)
  parent : ∀ a ∈ xs, (m a).parentQh = v2p top
  linkable : ∀ a ∈ xs, Linkable a
  nodup : xs.Nodup

theorem nextLink_congr (hlink : ∀ a ∈ xs, Linkable a) (hsame : ∀ a ∈ xs, (m' a).headLink = (m a).headLink) :
    ∀ l ∈ xs.map linkOf, nextLink m' l = nextLink m l := by
  intro l hl
  obtain ⟨a, ha, rfl⟩ := List.mem_map.mp hl
  rw [nextLink_link m' (hlink a ha), nextLink_link m (hlink a ha), hsame a ha]

/-- A queue of which no word is changed. -/
theorem Lists.frame (h : Lists m top xs) (htop : (m' top).elementLink = (m top).elementLink)
    (hhead : ∀ a ∈ xs, (m' a).headLink = (m a).headLink) (hparent : ∀ a ∈ xs, (m' a).parentQh = (m a).parentQh) :
    Lists m' top xs := by
  refine ⟨?_, ?_, h.linkable, h.nodup⟩
  · rw [htop]
    exact h.chain.congr (nextLink_congr h.linkable hhead)
  · intro a ha
    rw [hparent a ha, h.parent a ha]

/-- The loop of the insertion stops at the last queue head. -/
theorem insertLoop_run (m : QhMem) (xs : List ℕ) (left a : ℕ) (hleft : xs.length ≤ left)
    (hlink : ∀ b ∈ a :: xs, Linkable b)
    (h : Chained (nextLink m) uhciQhT (nextLink m (linkOf a)) (xs.map linkOf)) :
    insertLoop left a m = .ok (xs.getLastD a) m := by
  have ha := hlink a List.mem_cons_self
  rw [nextLink_link m ha] at h
  induction xs generalizing left a with
  | nil =>
    have hend : (m a).headLink = 1 := h
    unfold insertLoop
    simp [hend]
  | cons x xs ih =>
    obtain ⟨hx, hne, ht⟩ := h
    have hlx := hlink x (by simp)
    cases left with
    | zero => simp at hleft
    | succ left =>
      have hne' : (m a).headLink ≠ 1 := by
        rw [hx]
        exact hne
      rw [nextLink_link m hlx] at ht
      have hrest := ih left x (by simpa using hleft) (fun b hb => hlink b (List.mem_cons_of_mem a hb)) ht hlx
      unfold insertLoop
      simp only [Prog.bind_run, Prog.get_run, Outcome.andThen_ok, if_pos hne']
      rw [hx, hlx.qhOfLink_link, hrest, List.getLastD_cons]

/-- The loop of the removal stops at `qh`, with the queue head before it. -/
theorem removeLoop_run (m : QhMem) (post pre : List ℕ) (fuel prev cur : ℕ) (hfuel : pre.length ≤ fuel)
    (hout : qh ∉ pre) (hlink : ∀ b ∈ pre ++ [qh], Linkable b)
    (h : Chained (nextLink m) uhciQhT (linkOf cur) ((pre ++ qh :: post).map linkOf)) (hcur : Linkable cur) :
    removeLoop qh fuel prev cur m = .ok (pre.getLastD prev) m := by
  induction pre generalizing fuel prev cur with
  | nil =>
    obtain ⟨he, -⟩ := h
    obtain rfl : cur = qh := by rw [← hcur.qhOfLink_link, he, (hlink qh (by simp)).qhOfLink_link]
    unfold removeLoop
    simp
  | cons x pre ih =>
    rw [List.cons_append, List.map_cons] at h
    obtain ⟨he, -, ht⟩ := h
    obtain rfl : cur = x := by rw [← hcur.qhOfLink_link, he, (hlink x (by simp)).qhOfLink_link]
    have hne : cur ≠ qh := fun e => hout (e ▸ List.mem_cons_self)
    cases fuel with
    | zero => simp at hfuel
    | succ fuel =>
      -- the rest is not empty: it has at least `qh`
      obtain ⟨y, ys, hys, hy⟩ : ∃ y ys, pre ++ qh :: post = y :: ys ∧ y ∈ pre ++ [qh] := by
        cases pre with
        | nil => exact ⟨qh, post, rfl, by simp⟩
        | cons y pre => exact ⟨y, pre ++ qh :: post, rfl, by simp⟩
      have hly : Linkable y := hlink y (List.mem_cons_of_mem cur hy)
      have hnext : (m cur).headLink = linkOf y := by
        rw [nextLink_link m hcur, hys] at ht
        exact ht.1
      rw [nextLink_link m hcur, hnext] at ht
      have hrest := ih fuel cur y (by simpa using hfuel) (fun hin => hout (List.mem_cons_of_mem cur hin))
        (fun b hb => hlink b (List.mem_cons_of_mem cur hb)) ht hly
      unfold removeLoop
      simp only [Prog.bind_run, Prog.get_run, Outcome.andThen_ok, if_pos hne]
      rw [hnext, hly.qhOfLink_link, hrest, List.getLastD_cons]

/-! ### The operations on one queue -/

theorem insert_empty {m : QhMem} (h : Lists m top []) (hq : Linkable qh) (htop : Linkable top)
    (hend : (m qh).headLink = 1) :
    ∃ m', uhcihcdInsertTransferQH qh top m = .ok () m' ∧ Lists m' top [qh] ∧
      (∀ b, (m' b).headLink = (m b).headLink) ∧ (∀ b ≠ qh, (m' b).parentQh = (m b).parentQh) ∧
      ∀ b ≠ top, (m' b).elementLink = (m b).elementLink := by
  have hempty : (m top).elementLink = 1 := h.chain
  refine ⟨(m.setParentQh qh (v2p top)).setElementLink top (linkOf qh), ?_, ⟨?_, ?_, ?_, ?_⟩, ?_, ?_, ?_⟩
  · simp [uhcihcdInsertTransferQH, hempty, linkOf]
  · have hnext : ∀ n : QhMem, (n qh).headLink = 1 → nextLink n (linkOf qh) = uhciQhT := by
      intro n hn
      rw [nextLink_link n hq, hn]
      rfl
    refine ⟨?_, hq.link_ne, hnext _ (by simp [hend])⟩
    rw [QhMem.setElementLink_elementLink, if_pos rfl, hq.link_mod]
  · intro b hb
    rw [List.mem_singleton.mp hb, QhMem.setElementLink_parentQh, QhMem.setParentQh_parentQh, if_pos rfl,
      Nat.mod_eq_of_lt htop.below]
  · simpa using hq
  · simp
  · simp
  · intro b hb
    simp [hb]
  · intro b hb
    simp [hb]

theorem insert_last {m : QhMem} {y : ℕ} (h : Lists m top (xs ++ [y])) (hq : Linkable qh) (htop : Linkable top)
    (hend : (m qh).headLink = 1) (hout : qh ∉ xs ++ [y]) (hlen : xs.length ≤ 11) :
    ∃ m', uhcihcdInsertTransferQH qh top m = .ok () m' ∧ Lists m' top (xs ++ [y, qh]) ∧
      (∀ b ≠ y, (m' b).headLink = (m b).headLink) ∧ (∀ b ≠ qh, (m' b).parentQh = (m b).parentQh) ∧
      ∀ b, (m' b).elementLink = (m b).elementLink := by
  have hy : Linkable y := h.linkable y (by simp)
  have hyq : qh ≠ y := fun e => hout (by simp [e])
  have hyxs : y ∉ xs := by
    have hnd := h.nodup
    rw [List.nodup_append] at hnd
    intro hin
    exact hnd.2.2 y hin y (by simp) rfl
  -- the queue as its first element and the rest
  obtain ⟨z, zs, hz, hlast, hzlen⟩ : ∃ z zs, xs ++ [y] = z :: zs ∧ zs.getLastD z = y ∧ zs.length ≤ 11 := by
    cases xs with
    | nil => exact ⟨y, [], rfl, rfl, Nat.zero_le _⟩
    | cons z zs =>
      refine ⟨z, zs ++ [y], rfl, by simp, ?_⟩
      simpa using hlen
  have hchain := h.chain
  rw [hz, List.map_cons] at hchain
  obtain ⟨hfirst, hne, htail⟩ := hchain
  have hlz : Linkable z := h.linkable z (by rw [hz]; exact List.mem_cons_self)
  have hloop : insertLoop 11 z m = .ok y m := by
    rw [insertLoop_run m zs 11 z hzlen (fun b hb => h.linkable b (by rw [hz]; exact hb)) htail, hlast]
  have hfull : ¬ (m top).elementLink = 1 := by
    rw [hfirst]
    exact hne
  refine ⟨(m.setParentQh qh (v2p top)).setHeadLink y (linkOf qh), ?_, ⟨?_, ?_, ?_, ?_⟩, ?_, ?_, ?_⟩
  · unfold uhcihcdInsertTransferQH
    simp only [Prog.bind_run, Prog.get_run, Outcome.andThen_ok, if_neg hfull]
    rw [hfirst, hlz.qhOfLink_link, hloop]
    rfl
  · have hchain := h.chain
    rw [List.map_append, List.map_cons, List.map_nil] at hchain
    rw [List.map_append, List.map_cons, List.map_cons, List.map_nil, QhMem.setHeadLink_elementLink,
      QhMem.setParentQh_elementLink]
    refine hchain.concat hq.link_ne ?_ ?_ ?_
    · rw [nextLink_link _ hy, QhMem.setHeadLink_headLink, if_pos rfl, hq.link_mod]
    · rw [nextLink_link _ hq]
      simp [hyq, hend, uhciQhT]
    · refine nextLink_congr (fun b hb => h.linkable b (List.mem_append_left _ hb)) ?_
      intro b hb
      have hby : b ≠ y := fun e => hyxs (e ▸ hb)
      simp [hby]
  · intro b hb
    by_cases hbq : b = qh
    · rw [hbq, QhMem.setHeadLink_parentQh, QhMem.setParentQh_parentQh, if_pos rfl, Nat.mod_eq_of_lt htop.below]
    · have hmem : b ∈ xs ++ [y] := by simpa [hbq] using hb
      simp [hbq, h.parent b hmem]
  · intro b hb
    by_cases hbq : b = qh
    · rw [hbq]
      exact hq
    · exact h.linkable b (by simpa [hbq] using hb)
  · rw [show xs ++ [y, qh] = (xs ++ [y]) ++ [qh] by simp]
    exact List.nodup_append.mpr ⟨h.nodup, by simp, by
      intro b hb c hc
      rw [List.mem_singleton.mp hc]
      exact fun e => hout (e ▸ hb)⟩
  · intro b hb
    simp [hb]
  · intro b hb
    simp [hb]
  · intro b
    simp

/-- A queued transfer's link is a 32-bit word: it is taken over as it is. -/
theorem Lists.headLink_mod {pre : List ℕ} (h : Lists m top (pre ++ qh :: xs)) :
    (m qh).headLink % 2 ^ 32 = (m qh).headLink := by
  have hchain := h.chain
  rw [List.map_append, List.map_cons] at hchain
  have ht := hchain.after
  rw [nextLink_link m (h.linkable qh (by simp))] at ht
  cases xs with
  | nil =>
    have hend : (m qh).headLink = uhciQhT := ht
    rw [hend]
    rfl
  | cons x xs =>
    rw [show (m qh).headLink = linkOf x from ht.1]
    exact (h.linkable x (by simp)).link_mod

theorem removeTransferQH_first {fuel : ℕ} (htop : p2v (m qh).parentQh = top)
    (hcur : qhOfLink (m top).elementLink = qh) :
    uhcihcdRemoveTransferQH fuel qh m = .ok () (m.setElementLink top (m qh).headLink) := by
  unfold uhcihcdRemoveTransferQH
  rw [Prog.bind_run, Prog.get_run, Outcome.andThen_ok]
  simp only [htop]
  rw [if_pos hcur, Prog.modify_run, hcur]

theorem removeTransferQH_later {fuel prev : ℕ} (htop : p2v (m qh).parentQh = top)
    (hcur : qhOfLink (m top).elementLink = a) (hne : a ≠ qh) (hloop : removeLoop qh fuel a a m = .ok prev m) :
    uhcihcdRemoveTransferQH fuel qh m = .ok () (m.setHeadLink prev (m qh).headLink) := by
  unfold uhcihcdRemoveTransferQH
  rw [Prog.bind_run, Prog.get_run, Outcome.andThen_ok]
  simp only [htop, hcur]
  rw [if_neg hne, Prog.bind_run, hloop, Outcome.andThen_ok, Prog.modify_run]

theorem remove_first {m : QhMem} (fuel : ℕ) (h : Lists m top (qh :: xs)) (htop : Linkable top) :
    ∃ m', uhcihcdRemoveTransferQH fuel qh m = .ok () m' ∧ Lists m' top xs ∧
      (∀ b, (m' b).headLink = (m b).headLink) ∧ (∀ b, (m' b).parentQh = (m b).parentQh) ∧
      ∀ b ≠ top, (m' b).elementLink = (m b).elementLink := by
  have hq := h.linkable qh List.mem_cons_self
  have hparent := h.parent qh List.mem_cons_self
  have hmod := Lists.headLink_mod (show Lists m top ([] ++ qh :: xs) from h)
  obtain ⟨hfirst, -, ht⟩ := h.chain
  have hpv : p2v (m qh).parentQh = top := by
    rw [hparent]
    exact p2v_v2p htop.word
  refine ⟨m.setElementLink top (m qh).headLink, ?_, ⟨?_, ?_, ?_, ?_⟩, ?_, ?_, ?_⟩
  · refine removeTransferQH_first hpv ?_
    rw [hfirst, hq.qhOfLink_link]
  · rw [QhMem.setElementLink_elementLink, if_pos rfl, hmod, ← nextLink_link m hq]
    refine ht.congr (nextLink_congr (fun b hb => h.linkable b (List.mem_cons_of_mem qh hb)) ?_)
    simp
  · intro b hb
    simpa using h.parent b (List.mem_cons_of_mem qh hb)
  · exact fun b hb => h.linkable b (List.mem_cons_of_mem qh hb)
  · exact h.nodup.of_cons
  · simp
  · simp
  · intro b hb
    simp [hb]

theorem remove_later {m : QhMem} {fuel y : ℕ} {zs : List ℕ} (h : Lists m top (xs ++ y :: qh :: zs))
    (htop : Linkable top) (hfuel : xs.length + 1 ≤ fuel) :
    ∃ m', uhcihcdRemoveTransferQH fuel qh m = .ok () m' ∧ Lists m' top (xs ++ y :: zs) ∧
      (∀ b ≠ y, (m' b).headLink = (m b).headLink) ∧ (∀ b, (m' b).parentQh = (m b).parentQh) ∧
      ∀ b, (m' b).elementLink = (m b).elementLink := by
  have hq := h.linkable qh (by simp)
  have hy := h.linkable y (by simp)
  have hpv : p2v (m qh).parentQh = top := by
    rw [h.parent qh (by simp)]
    exact p2v_v2p htop.word
  have hsub : (xs ++ y :: zs).Sublist (xs ++ y :: qh :: zs) := by simp
  obtain ⟨-, hnd, hdisj⟩ := List.nodup_append.mp h.nodup
  obtain ⟨hynot, hndq⟩ := List.nodup_cons.mp hnd
  have hqnot : qh ∉ xs ++ [y] := by
    intro hin
    rcases List.mem_append.mp hin with hin | hin
    · exact hdisj qh hin qh (by simp) rfl
    · exact hynot (by simp [List.mem_singleton.mp hin])
  have hyrest : y ∉ xs ++ zs := by
    intro hin
    rcases List.mem_append.mp hin with hin | hin
    · exact hdisj y hin y (by simp) rfl
    · exact hynot (by simp [hin])
  -- the queue's first element is not `qh`
  obtain ⟨z, zs', hz, hzin⟩ : ∃ z zs', xs ++ y :: qh :: zs = z :: zs' ∧ z ∈ xs ++ [y] := by
    cases xs with
    | nil => exact ⟨y, qh :: zs, rfl, by simp⟩
    | cons z xs => exact ⟨z, xs ++ y :: qh :: zs, rfl, by simp⟩
  have hlz : Linkable z := by
    refine h.linkable z ?_
    rw [hz]
    exact List.mem_cons_self
  have hfirst : (m top).elementLink = linkOf z := by
    have hchain := h.chain
    rw [hz] at hchain
    exact hchain.1
  have hloop : removeLoop qh fuel z z m = .ok y m := by
    have hchain := h.chain
    rw [hfirst, show xs ++ y :: qh :: zs = (xs ++ [y]) ++ qh :: zs by simp] at hchain
    have hrun := removeLoop_run m zs (xs ++ [y]) fuel z z (by simpa using hfuel) hqnot
      (fun b hb => h.linkable b ((show ((xs ++ [y]) ++ [qh]).Sublist _ by simp).subset hb)) hchain hlz
    rwa [List.getLastD_concat] at hrun
  refine ⟨m.setHeadLink y (m qh).headLink, ?_, ⟨?_, ?_, ?_, ?_⟩, ?_, ?_, ?_⟩
  · refine removeTransferQH_later hpv ?_ (fun e => hqnot (e ▸ hzin)) hloop
    rw [hfirst, hlz.qhOfLink_link]
  · have hchain := h.chain
    rw [List.map_append, List.map_cons, List.map_cons] at hchain
    rw [List.map_append, List.map_cons, QhMem.setHeadLink_elementLink]
    refine hchain.unlink ?_ ?_
    · rw [nextLink_link _ hy, nextLink_link _ hq, QhMem.setHeadLink_headLink, if_pos rfl]
      exact Lists.headLink_mod (show Lists m top ((xs ++ [y]) ++ qh :: zs) by simpa using h)
    · rw [← List.map_append]
      refine nextLink_congr (fun b hb => h.linkable b ((show (xs ++ zs).Sublist _ by simp).subset hb)) ?_
      intro b hb
      have hby : b ≠ y := fun e => hyrest (e ▸ hb)
      simp [hby]
  · intro b hb
    rw [QhMem.setHeadLink_parentQh]
    exact h.parent b (hsub.subset hb)
  · exact fun b hb => h.linkable b (hsub.subset hb)
  · exact h.nodup.sublist hsub
  · intro b hb
    simp [hb]
  · simp
  · simp

end Borgos.Usb
