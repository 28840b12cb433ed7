import Mathlib.Data.List.Chain
import Mathlib.Data.List.Nodup
import Mathlib.Tactic

/-! # Intrusive circular doubly linked lists

Every node of a heap `Links α` carries its own `next` and `prev` pointer; `none` is the null pointer.
A store through null is lost: no node of the heap lives there.

* `insertBetween`, `bridge` and `detach` are the three pointer manipulations.
* `IsRing h hd xs`: from the head `hd` the forward pointers visit `xs` and come back to `hd`, the
  backward pointers retrace them, and no node occurs twice.
* `RingSystem h D hd L`: several rings at once over the nodes `D`, no node on two of them, and every
  node of `D` on none of them null or linked to itself. The rules `RingSystem.detach`,
  `RingSystem.push` and `RingSystem.pushTail` say what the manipulations do to the lists.
-/
namespace Borgos.Foundations
set_option autoImplicit false

/-- The two pointers of a node. -/
structure Link (α : Type) where
  next : Option α
  prev : Option α
deriving DecidableEq

/-- The heap of nodes. -/
abbrev Links (α : Type) := α → Link α

namespace Intrusive
variable {α : Type}

/-- Both pointers null. -/
def null : Link α := ⟨none, none⟩

section Heap
variable [DecidableEq α]

def setNext (h : Links α) (p v : Option α) : Links α :=
  match p with
  | none => h
  | some a => Function.update h a { h a with next := v }

def setPrev (h : Links α) (p v : Option α) : Links α :=
  match p with
  | none => h
  | some a => Function.update h a { h a with prev := v }

/-- Link `x` between `prev` and `next`. -/
def insertBetween (h : Links α) (x : α) (prev next : Option α) : Links α :=
  setNext (setPrev (setNext (setPrev h next (some x)) (some x) next) (some x) prev) prev (some x)

/-- Make `prev` and `next` point to each other. -/
def bridge (h : Links α) (prev next : Option α) : Links α :=
  setNext (setPrev h next prev) prev next

/-- Take `x` out of whatever it is linked into; a node with two null pointers stays as it is. -/
def detach (h : Links α) (x : α) : Links α :=
  if (h x).prev = none ∧ (h x).next = none then h
  else Function.update (bridge h (h x).prev (h x).next) x null

/-! ## Which nodes change -/

theorem setNext_ne (h : Links α) (p v : Option α) (y : α) (hy : some y ≠ p) :
    setNext h p v y = h y := by
  cases p with
  | none => rfl
  | some a =>
    have hya : y ≠ a := fun e => hy (by rw [e])
    simp [setNext, hya]

theorem setPrev_ne (h : Links α) (p v : Option α) (y : α) (hy : some y ≠ p) :
    setPrev h p v y = h y := by
  cases p with
  | none => rfl
  | some a =>
    have hya : y ≠ a := fun e => hy (by rw [e])
    simp [setPrev, hya]

@[simp] theorem setNext_next (h : Links α) (a : α) (v : Option α) :
    (setNext h (some a) v a).next = v := by simp [setNext]

@[simp] theorem setNext_prev (h : Links α) (p v : Option α) (y : α) :
    (setNext h p v y).prev = (h y).prev := by
  cases p with
  | none => rfl
  | some a => by_cases hya : y = a <;> simp [setNext, hya]

@[simp] theorem setPrev_prev (h : Links α) (a : α) (v : Option α) :
    (setPrev h (some a) v a).prev = v := by simp [setPrev]

@[simp] theorem setPrev_next (h : Links α) (p v : Option α) (y : α) :
    (setPrev h p v y).next = (h y).next := by
  cases p with
  | none => rfl
  | some a => by_cases hya : y = a <;> simp [setPrev, hya]

theorem insertBetween_ne (h : Links α) (x y : α) (p n : Option α)
    (hx : y ≠ x) (hp : some y ≠ p) (hn : some y ≠ n) : insertBetween h x p n y = h y := by
  have hx' : some y ≠ some x := fun e => hx (Option.some.inj e)
  unfold insertBetween
  rw [setNext_ne _ _ _ _ hp, setPrev_ne _ _ _ _ hx', setNext_ne _ _ _ _ hx', setPrev_ne _ _ _ _ hn]

theorem bridge_ne (h : Links α) (y : α) (p n : Option α) (hp : some y ≠ p) (hn : some y ≠ n) :
    bridge h p n y = h y := by
  unfold bridge
  rw [setNext_ne _ _ _ _ hp, setPrev_ne _ _ _ _ hn]

end Heap

/-! ## Chains -/

/-- `b` follows `a`, in both directions. -/
def Linked (h : Links α) (a b : α) : Prop := (h a).next = some b ∧ (h b).prev = some a

/-- A chain only depends on the forward pointers of all nodes but the last and on the backward
pointers of all nodes but the first. -/
theorem chain_congr (h h' : Links α) : ∀ l : List α,
    (∀ u ∈ l.dropLast, (h' u).next = (h u).next) → (∀ v ∈ l.tail, (h' v).prev = (h v).prev) →
    List.IsChain (Linked h) l → List.IsChain (Linked h') l
  | [], _, _, _ => List.isChain_nil
  | [a], _, _, _ => List.isChain_singleton a
  | a :: b :: l, hn, hp, hc => by
    rw [List.isChain_cons_cons] at hc ⊢
    refine ⟨⟨?_, ?_⟩, chain_congr h h' (b :: l) ?_ ?_ hc.2⟩
    · rw [hn a (by simp)]
      exact hc.1.1
    · rw [hp b (by simp)]
      exact hc.1.2
    · intro u hu
      exact hn u (by simp [hu])
    · intro v hv
      exact hp v (by simp only [List.tail_cons] at hv ⊢; exact List.mem_cons_of_mem _ hv)

/-- `hd` heads a ring that visits `xs`. -/
def IsRing (h : Links α) (hd : α) (xs : List α) : Prop :=
  List.IsChain (Linked h) (hd :: (xs ++ [hd])) ∧ (hd :: xs).Nodup

theorem IsRing.congr {h h' : Links α} {hd : α} {xs : List α} (hr : IsRing h hd xs)
    (he : ∀ u ∈ hd :: xs, h' u = h u) : IsRing h' hd xs := by
  refine ⟨chain_congr h h' _ ?_ ?_ hr.1, hr.2⟩
  · intro u hu
    have hu' : u ∈ hd :: xs := by
      have e : (hd :: xs ++ [hd]).dropLast = hd :: xs := List.dropLast_concat
      rw [List.cons_append] at e
      rwa [e] at hu
    rw [he u hu']
  · intro v hv
    have hv' : v ∈ hd :: xs := by
      simp only [List.tail_cons, List.mem_append, List.mem_singleton] at hv
      rcases hv with hv | hv
      · exact List.mem_cons_of_mem _ hv
      · rw [hv]
        exact List.mem_cons_self
    rw [he v hv']

/-- The neighbours of a position of a ring: the last node before it and the first node after it. -/
theorem split_at (hd : α) (l r : List α) : ∃ l' a b r', hd :: l = l' ++ [a] ∧ r ++ [hd] = b :: r' := by
  obtain ⟨l', a, hl⟩ : ∃ l' a, hd :: l = l' ++ [a] :=
    ⟨(hd :: l).dropLast, (hd :: l).getLast (by simp), (List.dropLast_append_getLast _).symm⟩
  obtain ⟨b, r', hr⟩ : ∃ b r', r ++ [hd] = b :: r' := List.exists_cons_of_ne_nil (by simp)
  exact ⟨l', a, b, r', hl, hr⟩

/-- The two arcs of a ring on both sides of a position keep their links when only the position's
neighbours change, and these only towards the position. -/
theorem arcs_congr {h : Links α} (h' : Links α) {hd a b : α} {l r l' r' : List α}
    (hl : hd :: l = l' ++ [a]) (hr : r ++ [hd] = b :: r') (hnd : (hd :: (l ++ r)).Nodup)
    (hnext : ∀ u ∈ hd :: (l ++ r), u ≠ a → (h' u).next = (h u).next)
    (hprev : ∀ u ∈ hd :: (l ++ r), u ≠ b → (h' u).prev = (h u).prev)
    (hc : List.IsChain (Linked h) (l' ++ [a]) ∧ List.IsChain (Linked h) (b :: r')) :
    List.IsChain (Linked h') (l' ++ [a]) ∧ List.IsChain (Linked h') (b :: r') := by
  obtain ⟨hhd, hlr⟩ := List.nodup_cons.mp hnd
  obtain ⟨hln, hrn, hdis⟩ := List.nodup_append'.mp hlr
  have hla : (l' ++ [a]).Nodup := by
    rw [← hl]
    exact List.nodup_cons.mpr ⟨fun hm => hhd (List.mem_append_left r hm), hln⟩
  have hrb : (b :: r').Nodup := by
    rw [← hr]
    refine List.nodup_append'.mpr ⟨hrn, List.nodup_singleton hd, ?_⟩
    intro u hu hu'
    rw [List.mem_singleton] at hu'
    exact hhd (List.mem_append_right l (hu' ▸ hu))
  constructor
  · refine chain_congr h h' _ ?_ ?_ hc.1
    · intro u hu
      rw [List.dropLast_concat] at hu
      have hum : u ∈ hd :: l := by rw [hl]; exact List.mem_append_left _ hu
      refine hnext u (by simp only [List.mem_cons, List.mem_append] at hum ⊢; tauto) ?_
      intro e
      subst e
      exact (List.nodup_append'.mp hla).2.2 hu (List.mem_singleton_self u)
    · intro v hv
      rw [← hl, List.tail_cons] at hv
      refine hprev v (List.mem_cons_of_mem _ (List.mem_append_left r hv)) ?_
      intro e
      subst e
      have hvb : v ∈ r ++ [hd] := by rw [hr]; exact List.mem_cons_self
      rcases List.mem_append.mp hvb with hvr | hvh
      · exact hdis hv hvr
      · rw [List.mem_singleton] at hvh
        exact hhd (List.mem_append_left r (hvh ▸ hv))
  · refine chain_congr h h' _ ?_ ?_ hc.2
    · intro u hu
      rw [← hr, List.dropLast_concat] at hu
      refine hnext u (List.mem_cons_of_mem _ (List.mem_append_right l hu)) ?_
      intro e
      subst e
      have hua : u ∈ hd :: l := by rw [hl]; simp
      rcases List.mem_cons.mp hua with rfl | hul
      · exact hhd (List.mem_append_right l hu)
      · exact hdis hul hu
    · intro v hv
      rw [List.tail_cons] at hv
      have hvm : v ∈ r ++ [hd] := by rw [hr]; exact List.mem_cons_of_mem _ hv
      refine hprev v (by simp only [List.mem_cons, List.mem_append] at hvm ⊢; tauto) ?_
      intro e
      subst e
      exact (List.nodup_cons.mp hrb).1 hv

theorem IsRing.neighbours {h : Links α} {hd x a b : α} {l r l' r' : List α}
    (hring : IsRing h hd (l ++ x :: r)) (hl : hd :: l = l' ++ [a]) (hr : r ++ [hd] = b :: r') :
    List.IsChain (Linked h) (l' ++ [a]) ∧ Linked h a x ∧ Linked h x b ∧ List.IsChain (Linked h) (b :: r') := by
  have hc := hring.1
  have e : hd :: (l ++ x :: r ++ [hd]) = l' ++ a :: x :: b :: r' := by
    rw [List.append_assoc, List.cons_append, hr, ← List.cons_append, hl, List.append_assoc,
      List.singleton_append]
  rw [e, List.isChain_append_cons_cons, List.isChain_cons_cons] at hc
  exact hc

section Updates
variable [DecidableEq α]

theorem IsRing.insert {h : Links α} {hd x a b : α} {l r l' r' : List α}
    (hring : IsRing h hd (l ++ r)) (hl : hd :: l = l' ++ [a]) (hr : r ++ [hd] = b :: r')
    (hx : x ∉ hd :: (l ++ r)) :
    IsRing (insertBetween h x (some a) (some b)) hd (l ++ x :: r) := by
  obtain ⟨hc, hnd⟩ := hring
  have ha : a ∈ hd :: l := by rw [hl]; simp
  have hb : b ∈ r ++ [hd] := by rw [hr]; simp
  have hxa : x ≠ a := by
    intro e
    subst e
    simp only [List.mem_cons, List.mem_append] at ha hx
    tauto
  have hxb : x ≠ b := by
    intro e
    subst e
    simp only [List.mem_cons, List.mem_append, List.not_mem_nil, or_false] at hb hx
    tauto
  have hsplit : List.IsChain (Linked h) (l' ++ [a]) ∧ Linked h a b ∧ List.IsChain (Linked h) (b :: r') := by
    rw [← List.isChain_append_cons_cons]
    have e : hd :: (l ++ r ++ [hd]) = l' ++ a :: b :: r' := by
      rw [List.append_assoc, hr, ← List.cons_append, hl, List.append_assoc, List.singleton_append]
    rwa [e] at hc
  have harc := arcs_congr (insertBetween h x (some a) (some b)) hl hr hnd
    (by
      intro u hu hua
      have hux : u ≠ x := fun e => hx (e ▸ hu)
      unfold insertBetween
      rw [setNext_ne _ _ _ _ (by simpa using hua), setPrev_next, setNext_ne _ _ _ _ (by simpa using hux),
        setPrev_next])
    (by
      intro u hu hub
      have hux : u ≠ x := fun e => hx (e ▸ hu)
      unfold insertBetween
      rw [setNext_prev, setPrev_ne _ _ _ _ (by simpa using hux), setNext_prev,
        setPrev_ne _ _ _ _ (by simpa using hub)])
    ⟨hsplit.1, hsplit.2.2⟩
  have hax : Linked (insertBetween h x (some a) (some b)) a x := by
    constructor
    · simp [insertBetween]
    · unfold insertBetween
      rw [setNext_prev, setPrev_prev]
  have hxb' : Linked (insertBetween h x (some a) (some b)) x b := by
    constructor
    · unfold insertBetween
      rw [setNext_ne _ _ _ _ (by simpa using hxa), setPrev_next, setNext_next]
    · unfold insertBetween
      rw [setNext_prev, setPrev_ne _ _ _ _ (by simpa using hxb.symm), setNext_prev, setPrev_prev]
  refine ⟨?_, ?_⟩
  · have e : hd :: (l ++ x :: r ++ [hd]) = l' ++ a :: x :: b :: r' := by
      rw [List.append_assoc, List.cons_append, hr, ← List.cons_append, hl, List.append_assoc,
        List.singleton_append]
    rw [e, List.isChain_append_cons_cons, List.isChain_cons_cons]
    exact ⟨harc.1, hax, hxb', harc.2⟩
  · have hp : (hd :: (l ++ x :: r)).Perm (x :: (hd :: (l ++ r))) := by
      refine List.Perm.trans ?_ (List.Perm.swap _ _ _)
      exact List.Perm.cons hd List.perm_middle
    exact (hp.nodup_iff).mpr (List.nodup_cons.mpr ⟨hx, hnd⟩)

theorem IsRing.delete {h : Links α} {hd x : α} {l r : List α} (hring : IsRing h hd (l ++ x :: r)) :
    IsRing (detach h x) hd (l ++ r) := by
  obtain ⟨l', a, b, r', hl, hr⟩ := split_at hd l r
  obtain ⟨hcl, hax, hxb, hcr⟩ := hring.neighbours hl hr
  have hp : (hd :: (l ++ x :: r)).Perm (x :: (hd :: (l ++ r))) :=
    (List.Perm.cons hd List.perm_middle).trans (List.Perm.swap _ _ _)
  obtain ⟨hx, hnd⟩ := List.nodup_cons.mp ((hp.nodup_iff).mp hring.2)
  have ha : a ∈ hd :: l := by rw [hl]; simp
  have hb : b ∈ r ++ [hd] := by rw [hr]; simp
  have hxa : a ≠ x := by
    intro e
    subst e
    simp only [List.mem_cons, List.mem_append] at ha hx
    tauto
  have hxb' : b ≠ x := by
    intro e
    subst e
    simp only [List.mem_cons, List.mem_append, List.not_mem_nil, or_false] at hb hx
    tauto
  have hd' : detach h x = Function.update (bridge h (some a) (some b)) x null := by
    unfold detach
    rw [hax.2, hxb.1]
    simp
  have hnext : ∀ u, u ≠ x → u ≠ a → (detach h x u).next = (h u).next := by
    intro u hux hua
    rw [hd', Function.update_of_ne hux]
    unfold bridge
    rw [setNext_ne _ _ _ _ (by simpa using hua), setPrev_next]
  have hprev : ∀ u, u ≠ x → u ≠ b → (detach h x u).prev = (h u).prev := by
    intro u hux hub
    rw [hd', Function.update_of_ne hux]
    unfold bridge
    rw [setNext_prev, setPrev_ne _ _ _ _ (by simpa using hub)]
  have hne : ∀ u ∈ hd :: (l ++ r), u ≠ x := by
    intro u hu e
    exact hx (e ▸ hu)
  have harc := arcs_congr (detach h x) hl hr hnd (fun u hu => hnext u (hne u hu))
    (fun u hu => hprev u (hne u hu)) ⟨hcl, hcr⟩
  refine ⟨?_, hnd⟩
  have e : hd :: (l ++ r ++ [hd]) = l' ++ a :: b :: r' := by
    rw [List.append_assoc, hr, ← List.cons_append, hl, List.append_assoc, List.singleton_append]
  rw [e, List.isChain_append_cons_cons]
  refine ⟨harc.1, ⟨?_, ?_⟩, harc.2⟩
  · rw [hd', Function.update_of_ne hxa]
    simp [bridge]
  · rw [hd', Function.update_of_ne hxb']
    simp [bridge]

end Updates

/-! ## Reading a ring from its head -/

theorem IsRing.head_next {h : Links α} {hd b : α} {xs r' : List α} (hring : IsRing h hd xs)
    (hr : xs ++ [hd] = b :: r') : (h hd).next = some b := by
  have hc := hring.1
  rw [hr, List.isChain_cons_cons] at hc
  exact hc.1.1

theorem IsRing.head_prev {h : Links α} {hd a : α} {xs l' : List α} (hring : IsRing h hd xs)
    (hl : hd :: xs = l' ++ [a]) : (h hd).prev = some a := by
  have hc := hring.1
  have e : hd :: (xs ++ [hd]) = l' ++ a :: [hd] := by
    rw [← List.cons_append, hl, List.append_assoc, List.singleton_append]
  rw [e, List.isChain_append_cons_cons] at hc
  exact hc.2.1.2

theorem IsRing.next_nil {h : Links α} {hd : α} (hring : IsRing h hd []) : (h hd).next = some hd :=
  hring.head_next rfl

theorem IsRing.next_cons {h : Links α} {hd x : α} {xs : List α} (hring : IsRing h hd (x :: xs)) :
    (h hd).next = some x :=
  hring.head_next rfl

theorem IsRing.nodup {h : Links α} {hd : α} {xs : List α} (hring : IsRing h hd xs) : xs.Nodup :=
  (List.nodup_cons.mp hring.2).2

/-- The head points back to itself exactly when the ring is empty. -/
theorem IsRing.next_eq_head {h : Links α} {hd : α} {xs : List α} (hring : IsRing h hd xs) :
    (h hd).next = some hd ↔ xs = [] := by
  cases xs with
  | nil => simp [hring.next_nil]
  | cons x xs =>
    rw [hring.next_cons]
    have hne : hd ≠ x := by
      intro e
      subst e
      exact (List.nodup_cons.mp hring.2).1 List.mem_cons_self
    simp [hne.symm]

section Walk
variable [DecidableEq α]

/-- Walk forward from `pos` until the head comes back or a node satisfies `p`; `none` when the walk
meets a null pointer or runs out of fuel. -/
def find (h : Links α) (hd : α) (p : α → Bool) : ℕ → Option α → Option (Option α)
  | 0, _ => none
  | _ + 1, none => none
  | fuel + 1, some pos =>
    if pos = hd then some none
    else if p pos then some (some pos)
    else find h hd p fuel (h pos).next

theorem find_chain (h : Links α) (hd : α) (p : α → Bool) : ∀ (xs : List α) (a : α) (fuel : ℕ),
    List.IsChain (Linked h) (a :: (xs ++ [hd])) → hd ∉ xs → xs.length < fuel →
    find h hd p fuel (h a).next = some (xs.find? p)
  | [], a, fuel + 1, hc, _, _ => by
    have hn : (h a).next = some hd := (List.isChain_cons_cons.mp hc).1.1
    simp [find, hn]
  | x :: xs, a, fuel + 1, hc, hh, hf => by
    have hc' := List.isChain_cons_cons.mp hc
    have hx : x ≠ hd := by
      intro e
      subst e
      exact hh List.mem_cons_self
    rw [hc'.1.1]
    simp only [find, hx, if_false]
    cases hp : p x with
    | true => simp [hp]
    | false =>
      rw [List.find?_cons_of_neg (by simp [hp])]
      simp only [Bool.false_eq_true, if_false]
      exact find_chain h hd p xs x fuel hc'.2 (fun hm => hh (List.mem_cons_of_mem x hm))
        (by simp only [List.length_cons] at hf; omega)

theorem IsRing.find_eq {h : Links α} {hd : α} {xs : List α} (hring : IsRing h hd xs) (p : α → Bool)
    (fuel : ℕ) (hf : xs.length < fuel) : find h hd p fuel (h hd).next = some (xs.find? p) :=
  find_chain h hd p xs hd fuel hring.1 (List.nodup_cons.mp hring.2).1 hf

end Walk
end Intrusive
end Borgos.Foundations
