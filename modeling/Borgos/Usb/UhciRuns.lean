import Borgos.Usb.UhciQueueLaws

/-! # Runs over the transfer queues

The abstract state is one list of queue heads for each top-level queue. Every run of insertions and removals keeps the
invariant that these lists are what the links give, and that no queue head is in two of them.
-/
namespace Borgos.Usb
open Borgos.Foundations Borgos.Mem
set_option autoImplicit false

variable {queue : ℕ → ℕ} {m m' : QhMem} {qh top i j : ℕ} {xs ys : List ℕ}

/-! ## What an operation leaves alone -/

/-- Outside the queue heads `ys` of the queue below `top`, nothing changes. -/
structure UntouchedQueues (m m' : QhMem) (top : ℕ) (ys : List ℕ) : Prop where
  head : ∀ b, b ∉ ys → (m' b).headLink = (m b).headLink
  parent : ∀ b, b ∉ ys → (m' b).parentQh = (m b).parentQh
  element : ∀ b ≠ top, (m' b).elementLink = (m b).elementLink

theorem UntouchedQueues.lists {top' : ℕ} (h : UntouchedQueues m m' top ys) (hl : Lists m top' xs) (hne : top' ≠ top)
    (hdisj : ∀ b ∈ xs, b ∉ ys) : Lists m' top' xs :=
  hl.frame (h.element top' hne) (fun b hb => h.head b (hdisj b hb)) (fun b hb => h.parent b (hdisj b hb))

theorem insert_run (h : Lists m top xs) (hq : Linkable qh) (htop : Linkable top) (hend : (m qh).headLink = 1)
    (hout : qh ∉ xs) (hlen : xs.length < 11) :
    ∃ m', uhcihcdInsertTransferQH qh top m = .ok () m' ∧ Lists m' top (xs ++ [qh]) ∧
      UntouchedQueues m m' top (xs ++ [qh]) := by
  rcases List.eq_nil_or_concat xs with rfl | ⟨zs, y, rfl⟩
  · obtain ⟨m', hrun, hl, hhead, hparent, hel⟩ := insert_empty h hq htop hend
    refine ⟨m', hrun, hl, fun b _ => hhead b, fun b hb => hparent b ?_, hel⟩
    simpa using hb
  · rw [List.concat_eq_append] at h hout hlen ⊢
    have hzs : zs.length ≤ 11 := by
      rw [List.length_append, List.length_singleton] at hlen
      omega
    obtain ⟨m', hrun, hl, hhead, hparent, hel⟩ := insert_last h hq htop hend hout hzs
    refine ⟨m', hrun, by simpa using hl, fun b hb => hhead b ?_, fun b hb => hparent b ?_, fun b _ => hel b⟩
    · intro e
      exact hb (by simp [e])
    · intro e
      exact hb (by simp [e])

theorem remove_run {fuel : ℕ} (h : Lists m top xs) (htop : Linkable top) (hin : qh ∈ xs) (hfuel : xs.length ≤ fuel) :
    ∃ m', uhcihcdRemoveTransferQH fuel qh m = .ok () m' ∧ Lists m' top (xs.erase qh) ∧ UntouchedQueues m m' top xs := by
  obtain ⟨pre, post, rfl⟩ := List.append_of_mem hin
  have hpre : qh ∉ pre := by
    intro hmem
    exact (List.nodup_append.mp h.nodup).2.2 qh hmem qh (by simp) rfl
  rw [List.erase_append_right _ hpre, List.erase_cons_head]
  rcases List.eq_nil_or_concat pre with rfl | ⟨zs, y, rfl⟩
  · obtain ⟨m', hrun, hl, hhead, hparent, hel⟩ := remove_first fuel h htop
    exact ⟨m', hrun, hl, fun b _ => hhead b, fun b _ => hparent b, hel⟩
  · rw [List.concat_eq_append, List.append_assoc, List.singleton_append] at h hfuel ⊢
    have hzs : zs.length + 1 ≤ fuel := by
      rw [List.length_append, List.length_cons] at hfuel
      omega
    obtain ⟨m', hrun, hl, hhead, hparent, hel⟩ := remove_later h htop hzs
    refine ⟨m', hrun, by simpa using hl, fun b hb => hhead b ?_, fun b _ => hparent b, fun b _ => hel b⟩
    intro e
    exact hb (by simp [e])

/-! ## Legal runs and their meaning -/

namespace QueueOp

/-- The live queue heads of each queue after an operation. -/
def apply : QueueOp → (ℕ → List ℕ) → ℕ → List ℕ
  | .insert qh _ slot, q => Function.update q slot (q slot ++ [qh])
  | .remove qh, q => fun i => (q i).erase qh
  | .advance _ _, q => q

/-- A fresh queue head is inserted into a queue with room for it; a queued one is removed, or advanced. -/
def Legal (queue : ℕ → ℕ) (q : ℕ → List ℕ) : QueueOp → Prop
  | .insert qh content slot => slot < qslots ∧ Linkable qh ∧ content.headLink = uhciQhT ∧
      (∀ i < qslots, qh ≠ queue i ∧ qh ∉ q i) ∧ (q slot).length < 11
  | .remove qh => ∃ i < qslots, qh ∈ q i
  | .advance qh _ => ∃ i < qslots, qh ∈ q i

end QueueOp

def LegalRun (queue : ℕ → ℕ) : (ℕ → List ℕ) → List QueueOp → Prop
  | _, [] => True
  | q, op :: ops => op.Legal queue q ∧ LegalRun queue (op.apply q) ops

/-- The live queue heads after a run. -/
def live : (ℕ → List ℕ) → List QueueOp → ℕ → List ℕ
  | q, [] => q
  | q, op :: ops => live (op.apply q) ops

/-- The queue heads that the links give, from a first link on, if a terminate bit follows after at most `n` of them. -/
def followQueue (m : QhMem) : ℕ → ℕ → Option (List ℕ)
  | n, link =>
    if link = uhciQhT then some []
    else if link &&& uhciQhQ = 0 then none
    else
      match n with
      | 0 => none
      | n + 1 => (followQueue m n (m (qhOfLink link)).headLink).map (qhOfLink link :: ·)

theorem followQueue_chain (n link : ℕ) (hn : xs.length ≤ n) (hlink : ∀ a ∈ xs, Linkable a)
    (h : Chained (nextLink m) uhciQhT link (xs.map linkOf)) : followQueue m n link = some xs := by
  induction xs generalizing n link with
  | nil =>
    have hend : link = uhciQhT := h
    unfold followQueue
    simp [hend]
  | cons x xs ih =>
    obtain ⟨rfl, hne, ht⟩ := h
    have hx := hlink x List.mem_cons_self
    rw [nextLink_link m hx] at ht
    cases n with
    | zero => simp at hn
    | succ n =>
      have hrest := ih n _ (by simpa using hn) (fun a ha => hlink a (List.mem_cons_of_mem x ha)) ht
      unfold followQueue
      simp only [hne, Linkable.link_flag, if_false, hx.qhOfLink_link, hrest, Option.map_some]

/-! ## The invariant -/

/-- The top queue heads: eleven different addresses that links can hold. -/
structure TopHeads (queue : ℕ → ℕ) : Prop where
  linkable : ∀ i < qslots, Linkable (queue i)
  ne : ∀ i < qslots, ∀ j < qslots, i ≠ j → queue i ≠ queue j

/-- `heads` are the links of the chain between the top queue heads. -/
structure QueuesInv (queue heads : ℕ → ℕ) (q : ℕ → List ℕ) (m : QhMem) : Prop where
  lists : ∀ i < qslots, Lists m (queue i) (q i)
  apart : ∀ i < qslots, ∀ j < qslots, i ≠ j → ∀ a ∈ q i, a ∉ q j
  tops : ∀ i < qslots, ∀ j < qslots, queue j ∉ q i
  short : ∀ i < qslots, (q i).length ≤ 11
  heads : ∀ i < qslots, (m (queue i)).headLink = heads i

variable {heads : ℕ → ℕ} {q q' : ℕ → List ℕ}

/-- One queue gets a new list; every queue head touched was in it or is in it now. -/
theorem QueuesInv.change (h : QueuesInv queue heads q m) (htops : TopHeads queue) (hi : i < qslots)
    (hl : Lists m' (queue i) (q' i)) (hu : UntouchedQueues m m' (queue i) ys)
    (hother : ∀ j < qslots, j ≠ i → q' j = q j) (hys : ∀ j < qslots, queue j ∉ ys)
    (hdisj : ∀ j < qslots, j ≠ i → ∀ a ∈ q j, a ∉ ys) (hsub : ∀ a ∈ q' i, a ∈ ys) (hshort : (q' i).length ≤ 11) :
    QueuesInv queue heads q' m' := by
  refine ⟨?_, ?_, ?_, ?_, ?_⟩
  · intro j hj
    by_cases hji : j = i
    · rw [hji]
      exact hl
    · rw [hother j hj hji]
      exact hu.lists (h.lists j hj) (htops.ne j hj i hi hji) (hdisj j hj hji)
  · intro j hj k hk hjk a ha hak
    by_cases hji : j = i
    · have hki : k ≠ i := fun e => hjk (hji.trans e.symm)
      rw [hother k hk hki] at hak
      rw [hji] at ha
      exact hdisj k hk hki a hak (hsub a ha)
    · rw [hother j hj hji] at ha
      by_cases hki : k = i
      · rw [hki] at hak
        exact hdisj j hj hji a ha (hsub a hak)
      · rw [hother k hk hki] at hak
        exact h.apart j hj k hk hjk a ha hak
  · intro j hj k hk hin
    by_cases hji : j = i
    · rw [hji] at hin
      exact hys k hk (hsub _ hin)
    · rw [hother j hj hji] at hin
      exact h.tops j hj k hk hin
  · intro j hj
    by_cases hji : j = i
    · rw [hji]
      exact hshort
    · rw [hother j hj hji]
      exact h.short j hj
  · intro j hj
    rw [hu.head _ (hys j hj), h.heads j hj]

/-- What is written to a queue head that is in no queue, or to the element link of one that is no top, changes no
list. -/
theorem QueuesInv.same (h : QueuesInv queue heads q m)
    (hel : ∀ j < qslots, (m' (queue j)).elementLink = (m (queue j)).elementLink)
    (htop : ∀ j < qslots, (m' (queue j)).headLink = (m (queue j)).headLink)
    (hhead : ∀ j < qslots, ∀ a ∈ q j, (m' a).headLink = (m a).headLink)
    (hparent : ∀ j < qslots, ∀ a ∈ q j, (m' a).parentQh = (m a).parentQh) : QueuesInv queue heads q m' := by
  refine ⟨?_, h.apart, h.tops, h.short, ?_⟩
  · intro j hj
    exact (h.lists j hj).frame (hel j hj) (hhead j hj) (hparent j hj)
  · intro j hj
    rw [htop j hj, h.heads j hj]

theorem insert_inv {fuel : ℕ} {content : UhciQh} (htops : TopHeads queue) (h : QueuesInv queue heads q m)
    (hi : i < qslots) (hq : Linkable qh) (hend : content.headLink = uhciQhT)
    (hfresh : ∀ j < qslots, qh ≠ queue j ∧ qh ∉ q j) (hlen : (q i).length < 11) :
    ∃ m', (QueueOp.insert qh content i).run queue fuel m = .ok () m' ∧
      QueuesInv queue heads ((QueueOp.insert qh content i).apply q) m' := by
  obtain ⟨m₁, hm₁⟩ : ∃ m₁, m.set qh content = m₁ := ⟨_, rfl⟩
  have hsame : ∀ b ≠ qh, m₁ b = m b := by
    intro b hb
    rw [← hm₁, QhMem.set_apply, if_neg hb]
  have hcontent : (m₁ qh).headLink = 1 := by
    rw [← hm₁, QhMem.set_apply, if_pos rfl]
    exact hend
  have h₁ : QueuesInv queue heads q m₁ := by
    refine h.same ?_ ?_ ?_ ?_
    · intro j hj
      rw [hsame _ (hfresh j hj).1.symm]
    · intro j hj
      rw [hsame _ (hfresh j hj).1.symm]
    · intro j hj a ha
      rw [hsame a fun e => (hfresh j hj).2 (e ▸ ha)]
    · intro j hj a ha
      rw [hsame a fun e => (hfresh j hj).2 (e ▸ ha)]
  obtain ⟨m', hrun, hl, hu⟩ := insert_run (h₁.lists i hi) hq (htops.linkable i hi) hcontent (hfresh i hi).2 hlen
  refine ⟨m', ?_, ?_⟩
  · simp only [QueueOp.run, Prog.bind_run, Prog.modify_run, Outcome.andThen_ok, hm₁, hrun]
  · have happly : (QueueOp.insert qh content i).apply q i = q i ++ [qh] := Function.update_self i _ q
    refine h₁.change htops hi (by rw [happly]; exact hl) hu ?_ ?_ ?_ (by rw [happly]; exact fun a ha => ha) ?_
    · intro j _ hji
      exact Function.update_of_ne hji _ q
    · intro j hj hin
      rcases List.mem_append.mp hin with hin | hin
      · exact h.tops i hi j hj hin
      · exact (hfresh j hj).1 (List.mem_singleton.mp hin).symm
    · intro j hj hji a ha hin
      rcases List.mem_append.mp hin with hin | hin
      · exact h.apart j hj i hi hji a ha hin
      · exact (hfresh j hj).2 (List.mem_singleton.mp hin ▸ ha)
    · rw [happly, List.length_append, List.length_singleton]
      omega

theorem remove_inv {fuel : ℕ} (hfuel : 11 ≤ fuel) (htops : TopHeads queue) (h : QueuesInv queue heads q m)
    (hi : i < qslots) (hin : qh ∈ q i) :
    ∃ m', (QueueOp.remove qh).run queue fuel m = .ok () m' ∧
      QueuesInv queue heads ((QueueOp.remove qh).apply q) m' := by
  obtain ⟨m', hrun, hl, hu⟩ := remove_run (h.lists i hi) (htops.linkable i hi) hin ((h.short i hi).trans hfuel)
  refine ⟨m', hrun, ?_⟩
  refine h.change htops hi hl hu ?_ ?_ ?_ ?_ ?_
  · intro j hj hji
    exact List.erase_of_not_mem (h.apart i hi j hj (Ne.symm hji) qh hin)
  · exact fun j hj => h.tops i hi j hj
  · exact fun j hj hji a ha => h.apart j hj i hi hji a ha
  · exact fun a ha => List.mem_of_mem_erase ha
  · exact ((List.erase_sublist).length_le).trans (h.short i hi)

theorem advance_inv {fuel link : ℕ} (h : QueuesInv queue heads q m) (hi : i < qslots) (hin : qh ∈ q i) :
    ∃ m', (QueueOp.advance qh link).run queue fuel m = .ok () m' ∧
      QueuesInv queue heads ((QueueOp.advance qh link).apply q) m' := by
  refine ⟨m.setElementLink qh link, rfl, h.same ?_ ?_ ?_ ?_⟩
  · intro j hj
    have hne : queue j ≠ qh := fun e => h.tops i hi j hj (e ▸ hin)
    rw [QhMem.setElementLink_elementLink, if_neg hne]
  · simp
  · simp
  · simp

/-- One operation. -/
theorem op_inv {fuel : ℕ} (hfuel : 11 ≤ fuel) (htops : TopHeads queue) (op : QueueOp)
    (h : QueuesInv queue heads q m) (hlegal : op.Legal queue q) :
    ∃ m', op.run queue fuel m = .ok () m' ∧ QueuesInv queue heads (op.apply q) m' := by
  cases op with
  | insert qh content slot =>
    obtain ⟨hslot, hq, hend, hfresh, hlen⟩ := hlegal
    exact insert_inv htops h hslot hq hend hfresh hlen
  | remove qh =>
    obtain ⟨i, hi, hin⟩ := hlegal
    exact remove_inv hfuel htops h hi hin
  | advance qh link =>
    obtain ⟨i, hi, hin⟩ := hlegal
    exact advance_inv h hi hin

theorem ops_inv {fuel : ℕ} (hfuel : 11 ≤ fuel) (htops : TopHeads queue) (ops : List QueueOp)
    (h : QueuesInv queue heads q m) (hlegal : LegalRun queue q ops) :
    ∃ m', runQueueOps queue fuel ops m = .ok () m' ∧ QueuesInv queue heads (live q ops) m' := by
  induction ops generalizing q m with
  | nil => exact ⟨m, rfl, h⟩
  | cons op ops ih =>
    obtain ⟨m₁, hrun, h₁⟩ := op_inv hfuel htops op h hlegal.1
    obtain ⟨m', hrest, h'⟩ := ih h₁ hlegal.2
    refine ⟨m', ?_, h'⟩
    unfold runQueueOps
    rw [Prog.bind_run, hrun, Outcome.andThen_ok, hrest]

/-! ## The start -/

theorem clearTops_elementLink (l : List ℕ) (m : QhMem) (a : ℕ)
    (h : (m a).elementLink = uhciQhT ∨ ∃ i ∈ l, queue i = a) :
    ((l.foldl (fun m i => m.set (queue i) { m (queue i) with headLink := uhciQhT, elementLink := uhciQhT }) m)
      a).elementLink = uhciQhT := by
  induction l generalizing m with
  | nil =>
    rcases h with h | ⟨i, hi, -⟩
    · exact h
    · simp at hi
  | cons i l ih =>
    rw [List.foldl_cons]
    apply ih
    rw [QhMem.set_apply]
    by_cases hai : a = queue i
    · simp [hai]
    · rw [if_neg hai]
      rcases h with h | ⟨k, hk, hka⟩
      · exact .inl h
      · rcases List.mem_cons.mp hk with rfl | hk
        · exact absurd hka.symm hai
        · exact .inr ⟨k, hk, hka⟩

theorem linkTops_elementLink (l : List ℕ) (m : QhMem) (a : ℕ) :
    ((l.foldl (fun m i => m.setHeadLink (queue i) (v2p (queue (i + 1)) ||| uhciQhQ)) m) a).elementLink =
      (m a).elementLink := by
  induction l generalizing m with
  | nil => rfl
  | cons i l ih =>
    rw [List.foldl_cons, ih]
    simp

theorem setup_inv (queue : ℕ → ℕ) (m : QhMem) :
    QueuesInv queue (fun i => (linkTops queue (clearTops queue m) (queue i)).headLink) (fun _ => [])
      (linkTops queue (clearTops queue m)) := by
  refine ⟨?_, by simp, by simp, by simp, fun _ _ => rfl⟩
  intro i hi
  refine ⟨?_, by simp, by simp, List.nodup_nil⟩
  change (linkTops queue (clearTops queue m) (queue i)).elementLink = uhciQhT
  unfold linkTops
  rw [linkTops_elementLink]
  exact clearTops_elementLink _ m _ (.inr ⟨i, List.mem_range.mpr hi, rfl⟩)

/-! ## The queues refine lists -/

/-- Every legal run from the set-up schedule returns, with any bound from 11 rounds on for the loop of the removal;
each queue's links then give its live queue heads in the order of insertion, and the chain between the top queue heads
is the one that was set up. -/
theorem queues_refine_lists (queue : ℕ → ℕ) (htops : TopHeads queue) (fuel : ℕ) (hfuel : 11 ≤ fuel) (m₀ : QhMem)
    (ops : List QueueOp) (hlegal : LegalRun queue (fun _ => []) ops) :
    ∃ m, runQueueOps queue fuel ops (linkTops queue (clearTops queue m₀)) = .ok () m ∧ ∀ i < qslots,
      followQueue m 11 (m (queue i)).elementLink = some (live (fun _ => []) ops i) ∧
      (m (queue i)).headLink = (linkTops queue (clearTops queue m₀) (queue i)).headLink := by
  obtain ⟨m, hrun, h⟩ := ops_inv hfuel htops ops (setup_inv queue m₀) hlegal
  refine ⟨m, hrun, ?_⟩
  intro i hi
  have hl := h.lists i hi
  exact ⟨followQueue_chain 11 _ (h.short i hi) hl.linkable hl.chain, h.heads i hi⟩

theorem linkable_p2v {p : ℕ} (hp : p < 2 ^ 32) (h16 : 16 ∣ p) : Linkable (p2v p) := by
  have hv : v2p (p2v p) = p := v2p_p2v (by omega)
  refine ⟨?_, ?_, ?_⟩
  · exact Nat.mod_lt _ (by norm_num [wordSize])
  · rw [hv]
    exact hp
  · rw [hv]
    exact h16

/-- Two transfers are queued and the first one is removed. -/
theorem queues_refine_lists_two :
    let queue : ℕ → ℕ := fun i => p2v (0x1000 + 32 * i)
    let ops : List QueueOp := [.insert (p2v 0x2000) ⟨1, 0x3000, 0⟩ 2, .insert (p2v 0x2020) ⟨1, 0x3040, 0⟩ 2,
      .remove (p2v 0x2000)]
    live (fun _ => []) ops 2 = [p2v 0x2020] ∧
      ∃ m, runQueueOps queue 11 ops (linkTops queue (clearTops queue fun _ => ⟨0, 0, 0⟩)) = .ok () m ∧
        ∀ i < qslots, followQueue m 11 (m (queue i)).elementLink = some (live (fun _ => []) ops i) ∧
          (m (queue i)).headLink = (linkTops queue (clearTops queue fun _ => ⟨0, 0, 0⟩) (queue i)).headLink := by
  intro queue ops
  refine ⟨by decide, queues_refine_lists queue ⟨?_, ?_⟩ 11 le_rfl _ ops ⟨?_, ?_, ?_, trivial⟩⟩
  · intro i hi
    unfold qslots at hi
    exact linkable_p2v (by omega) (by omega)
  · decide
  · exact ⟨by decide, linkable_p2v (by norm_num) (by norm_num), rfl, by decide, by decide⟩
  · exact ⟨by decide, linkable_p2v (by norm_num) (by norm_num), rfl, by decide, by decide⟩
  · exact ⟨2, by decide, by decide⟩

end Borgos.Usb
