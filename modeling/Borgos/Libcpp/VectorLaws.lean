import Borgos.Libcpp.Vector

/-! # `Vector<T>` and lists

A program that uses vectors behaves as the same program on lists, as long as every new array is served by `kmalloc`, and
no `push_back` on a full vector has to grow an empty capacity or to read an element of the array it has just deleted.
-/
namespace Borgos.Libcpp
open Borgos.Foundations
open Borgos.Mem (KmallocService maxKmalloc)
set_option autoImplicit false

variable {T : Type} {M : ArrayMemory}

/-! ## The list-valued model -/

/-- The vectors of a program as lists. -/
abbrev Lists (T : Type) := ℕ → Option (List T)

/-- A statement on lists. There is no result for an index out of range. -/
def listStep (op : Op T) (L : Lists T) : Option (Out T × Lists T) :=
  match op with
  | .construct v => some (.done, Function.update L v (some []))
  | .destruct v => some (.done, Function.update L v none)
  | .copyConstruct v other => some (.done, Function.update L v (L other))
  | .copyAssign v other => some (.done, Function.update L v (L other))
  | .moveConstruct v other => some (.done, Function.update (Function.update L v (L other)) other (some []))
  | .moveAssign v other =>
    if v = other then some (.done, L)
    else some (.done, Function.update (Function.update L v (L other)) other (some []))
  | .pushBack v (.object x) => some (.done, Function.update L v ((L v).map (· ++ [x])))
  | .pushBack v (.element u i) => do
    let xs ← L u
    let x ← xs[i]?
    pure (.done, Function.update L v ((L v).map (· ++ [x])))
  | .popBack v => some (.done, Function.update L v ((L v).map List.dropLast))
  | .size v => do
    let xs ← L v
    pure (.number xs.length, L)
  | .read v i => do
    let xs ← L v
    let x ← xs[i]?
    pure (.value x, L)
  | .write v i x => do
    let xs ← L v
    if i < xs.length then some (.done, Function.update L v (some (xs.set i x))) else none

/-- Every vector shows its list, within its capacity. -/
structure Represents (w : World T) (L : Lists T) : Prop where
  live : ∀ v, w.vecs v = none ↔ L v = none
  size : ∀ v s xs, w.vecs v = some s → L v = some xs → s.size = xs.length
  capacity : ∀ v s, w.vecs v = some s → s.size ≤ s.capacity
  contents : ∀ v s xs, w.vecs v = some s → L v = some xs → ∀ i (h : i < xs.length), loadCell s.arr i w = .ok xs[i] w

/-- The objects that exist. -/
def World.live (w : World T) (v : ℕ) : Prop := w.vecs v ≠ none

section Programs
variable (M)

/-- The program behaves as the one on lists: no statement is stuck, a statement panics only where the list has no
such index, and otherwise shows the same and leaves vectors that represent the lists. -/
def Faithful (w : World T) (L : Lists T) : List (Op T) → Prop
  | [] => True
  | op :: ops => op.Defined w.live →
    match step M op w with
    | .ok out w' => ∃ L', listStep op L = some (out, L') ∧ Represents w' L' ∧ Faithful w' L' ops
    | .panic _ _ => listStep op L = none
    | .stuck => False

/-- `kmalloc` has a block for the next array, of `n` elements. -/
def Serves (w : World T) (n : ℕ) : Prop := (M.requests w.next).result (n * M.sizeofElement) = .block

/-- `push_back` grows a capacity above 0, and there is memory for the double. -/
def GrowsWell (w : World T) (s : VectorObject) : Prop :=
  s.capacity ≠ 0 ∧ (s.size = s.capacity → Serves M w (s.capacity * 2))

/-- The condition on a statement: the array it needs is served, and a `push_back` whose argument can be evaluated finds
room, or it grows a capacity above 0 with an argument from elsewhere. -/
def Careful (w : World T) : Op T → Prop
  | .construct _ => Serves M w 1
  | .copyConstruct _ other => ∀ o, w.vecs other = some o → Serves M w o.capacity
  | .copyAssign v other => v ≠ other → ∀ o, w.vecs other = some o → Serves M w o.capacity
  | .pushBack v (.object _) => ∀ s, w.vecs v = some s → GrowsWell M w s
  | .pushBack v (.element u i) => ∀ s t, w.vecs v = some s → w.vecs u = some t → i < t.size →
    if u = v then s.size < s.capacity else GrowsWell M w s
  | _ => True

/-- Every statement of the program meets the condition when it is reached. -/
def CarefulRun (w : World T) : List (Op T) → Prop
  | [] => True
  | op :: ops => op.Defined w.live → Careful M w op ∧
    match step M op w with
    | .ok _ w' => CarefulRun w' ops
    | _ => True

end Programs

/-! ## Ownership -/

/-- The array of an object holds the list. -/
structure Holds (heap : ℕ → Option (List (Option T))) (s : VectorObject) (xs : List T) : Prop where
  size : s.size = xs.length
  capacity : s.size ≤ s.capacity
  null : s.arr = none → s.capacity = 0
  array : ∀ a, s.arr = some a → ∃ cells, heap a = some cells ∧ cells.length = s.capacity ∧
    cells.take xs.length = xs.map some

/-- Every object holds its list, and no two share an array. -/
structure VecInv (w : World T) (L : Lists T) : Prop where
  live : ∀ v, w.vecs v = none ↔ L v = none
  holds : ∀ v s xs, w.vecs v = some s → L v = some xs → Holds w.heap s xs
  owned : ∀ u v s t a, w.vecs u = some s → w.vecs v = some t → s.arr = some a → t.arr = some a → u = v
  fresh : ∀ a, w.next ≤ a → w.heap a = none

theorem VecInv.start : VecInv (World.start : World T) fun _ => none where
  live := fun _ => iff_of_true rfl rfl
  holds := fun _ _ _ h => nomatch h
  owned := fun _ _ _ _ _ h => nomatch h
  fresh := fun _ _ => rfl

theorem getElem?_of_take {cells : List (Option T)} {xs : List T} (h : cells.take xs.length = xs.map some) {i : ℕ}
    (hi : i < xs.length) : cells[i]? = some (some xs[i]) := by
  rw [← List.getElem?_take_of_lt hi, h, List.getElem?_map, List.getElem?_eq_getElem hi, Option.map_some]

theorem loadCell_of {w : World T} {a : ℕ} {cells : List (Option T)} {i : ℕ} {x : T} (ha : w.heap a = some cells)
    (hi : cells[i]? = some (some x)) : loadCell (some a) i w = .ok x w := by
  simp only [loadCell, ha, hi]

theorem storeCell_of {w : World T} {a : ℕ} {cells : List (Option T)} {i : ℕ} (x : T) (ha : w.heap a = some cells)
    (hi : i < cells.length) : storeCell (some a) i x w =
      .ok () { w with heap := Function.update w.heap a (some (cells.set i (some x))) } := by
  simp only [storeCell, ha, if_pos hi]

theorem update_eq_some {f : ℕ → Option VectorObject} {u v : ℕ} {s t : VectorObject}
    (h : Function.update f v (some s) u = some t) : (u = v ∧ s = t) ∨ (u ≠ v ∧ f u = some t) := by
  by_cases hne : u = v
  · rw [hne, Function.update_self] at h
    exact .inl ⟨hne, Option.some.inj h⟩
  · rw [Function.update_of_ne hne] at h
    exact .inr ⟨hne, h⟩

namespace VecInv
variable {w : World T} {L : Lists T}

theorem exists_list (h : VecInv w L) {v : ℕ} {s : VectorObject} (hs : w.vecs v = some s) :
    ∃ xs, L v = some xs ∧ Holds w.heap s xs := by
  cases hL : L v with
  | none =>
    rw [(h.live v).mpr hL] at hs
    cases hs
  | some xs => exact ⟨xs, rfl, h.holds v s xs hs hL⟩

theorem exists_object (h : VecInv w L) {v : ℕ} (hv : w.live v) :
    ∃ s xs, w.vecs v = some s ∧ L v = some xs ∧ Holds w.heap s xs := by
  obtain ⟨s, hs⟩ := Option.ne_none_iff_exists'.mp hv
  obtain ⟨xs, hL, hH⟩ := h.exists_list hs
  exact ⟨s, xs, hs, hL, hH⟩

theorem represents (h : VecInv w L) : Represents w L where
  live := h.live
  size := fun v s xs hs hL => (h.holds v s xs hs hL).size
  capacity := fun v s hs => by
    obtain ⟨xs, -, hH⟩ := h.exists_list hs
    exact hH.capacity
  contents := fun v s xs hs hL i hi => by
    have hH := h.holds v s xs hs hL
    cases ha : s.arr with
    | none =>
      have h₁ := hH.null ha
      have h₂ := hH.size
      have h₃ := hH.capacity
      omega
    | some a =>
      obtain ⟨cells, hc, -, htake⟩ := hH.array a ha
      exact loadCell_of hc (getElem?_of_take htake hi)

/-- An array of a live object is live. -/
theorem lt_next (h : VecInv w L) {v a : ℕ} {s : VectorObject} (hs : w.vecs v = some s) (ha : s.arr = some a) :
    a < w.next := by
  obtain ⟨xs, -, hH⟩ := h.exists_list hs
  obtain ⟨cells, hc, -⟩ := hH.array a ha
  by_contra hge
  rw [h.fresh a (Nat.le_of_not_lt hge)] at hc
  cases hc

/-- One object changes, with arrays that no other object owns. -/
theorem replace (h : VecInv w L) {v : ℕ} {s : VectorObject} {xs : List T} {heap : ℕ → Option (List (Option T))}
    {next : ℕ} (hframe : ∀ u t a, u ≠ v → w.vecs u = some t → t.arr = some a → heap a = w.heap a)
    (hown : ∀ u t a, u ≠ v → w.vecs u = some t → t.arr = some a → s.arr ≠ some a)
    (hfresh : ∀ a, next ≤ a → heap a = none) (hH : Holds heap s xs) :
    VecInv ⟨Function.update w.vecs v (some s), heap, next⟩ (Function.update L v (some xs)) := by
  refine ⟨fun u => ?_, fun u t ys hu hL => ?_, fun u u' t t' a hu hu' ht ht' => ?_, hfresh⟩
  · show Function.update w.vecs v (some s) u = none ↔ _
    by_cases hne : u = v
    · rw [hne, Function.update_self, Function.update_self]
      exact iff_of_false (Option.some_ne_none _) (Option.some_ne_none _)
    · rw [Function.update_of_ne hne, Function.update_of_ne hne]
      exact h.live u
  · rcases update_eq_some hu with ⟨rfl, rfl⟩ | ⟨hne, hu⟩
    · rw [Function.update_self] at hL
      rw [← Option.some.inj hL]
      exact hH
    · rw [Function.update_of_ne hne] at hL
      have hold := h.holds u t ys hu hL
      refine ⟨hold.size, hold.capacity, hold.null, fun a ha => ?_⟩
      show ∃ cells, heap a = some cells ∧ _
      rw [hframe u t a hne hu ha]
      exact hold.array a ha
  · rcases update_eq_some hu with ⟨rfl, rfl⟩ | ⟨hne, hold⟩
    · rcases update_eq_some hu' with ⟨rfl, -⟩ | ⟨hne', hold'⟩
      · rfl
      · exact absurd ht (hown u' t' a hne' hold' ht')
    · rcases update_eq_some hu' with ⟨rfl, rfl⟩ | ⟨hne', hold'⟩
      · exact absurd ht' (hown u t a hne hold ht)
      · exact h.owned u u' t t' a hold hold' ht ht'

end VecInv

/-! ## Arrays -/

theorem take_set_succ {cells : List (Option T)} {i : ℕ} (hi : i < cells.length) (x : T) :
    (cells.set i (some x)).take (i + 1) = cells.take i ++ [some x] := by
  rw [List.take_add_one, List.getElem?_set_self hi, List.take_set_of_le le_rfl]
  rfl

theorem map_take_succ {xs : List T} {i : ℕ} (hi : i < xs.length) :
    (xs.take (i + 1)).map some = (xs.take i).map some ++ [some xs[i]] := by
  rw [List.take_add_one, List.getElem?_eq_getElem hi, List.map_append]
  rfl

/-- The copy loop, with the first `i` cells done. -/
theorem copyCells_run {w : World T} {arr : Option ℕ} {b : ℕ} {xs : List T} {ds : List (Option T)}
    (hnull : arr = none → xs = [])
    (hsrc : ∀ a, arr = some a → a ≠ b ∧ ∃ cells, w.heap a = some cells ∧ cells.take xs.length = xs.map some)
    (hb : w.heap b = some ds) (hlen : xs.length ≤ ds.length) (n i : ℕ) (hn : i + n = xs.length)
    (htake : ds.take i = (xs.take i).map some) :
    ∃ ds', copyCells arr (some b) n i w = .ok () { w with heap := Function.update w.heap b (some ds') } ∧
      ds'.length = ds.length ∧ ds'.take xs.length = xs.map some := by
  induction n generalizing i w ds with
  | zero =>
    refine ⟨ds, ?_, rfl, ?_⟩
    · rw [← hb, Function.update_eq_self]
      rfl
    · rw [← hn, Nat.add_zero, htake, List.take_of_length_le (by omega)]
  | succ n ih =>
    have hi : i < xs.length := by omega
    cases arr with
    | none =>
      rw [hnull rfl] at hi
      exact absurd hi (Nat.not_lt_zero i)
    | some a =>
      obtain ⟨hne, cells, ha, hcells⟩ := hsrc a rfl
      have hload := loadCell_of ha (getElem?_of_take hcells hi)
      have hstore := storeCell_of xs[i] hb (show i < ds.length by omega)
      obtain ⟨w', hw'⟩ : ∃ w' : World T, w' =
          { w with heap := Function.update w.heap b (some (ds.set i (some xs[i]))) } := ⟨_, rfl⟩
      rw [← hw'] at hstore
      have hb' : w'.heap b = some (ds.set i (some xs[i])) := by
        rw [hw']
        exact Function.update_self _ _ _
      have ha' : w'.heap a = some cells := by
        rw [hw']
        exact (Function.update_of_ne hne _ _).trans ha
      obtain ⟨ds', hrun, hlen', htake'⟩ := ih (w := w')
        (fun a' e => by cases e; exact ⟨hne, cells, ha', hcells⟩) hb' (by rw [List.length_set]; exact hlen) (i + 1)
        (by omega) (by rw [take_set_succ (by omega), htake, map_take_succ hi])
      refine ⟨ds', ?_, by rw [hlen', List.length_set], htake'⟩
      unfold copyCells
      rw [Prog.bind_run, hload, Outcome.andThen_ok, Prog.bind_run, hstore, Outcome.andThen_ok, hrun, hw']
      simp only [Function.update_idem]

theorem newArray_run {w : World T} {n : ℕ} (h : Serves M w n) : newArray M n w = .ok w.next
    { w with
      heap := Function.update w.heap w.next (some (List.replicate n none))
      next := w.next + 1 } := by
  unfold Serves at h
  simp only [newArray, h]

/-- The command does not return. -/
def Fails {σ α : Type} (x : Outcome σ α) : Prop := ∀ a s, x ≠ .ok a s

theorem Fails.andThen {σ α β : Type} {x : Outcome σ α} (h : Fails x) (f : α → Prog σ β) : Fails (x.andThen f) := by
  cases x with
  | ok a s => exact absurd rfl (h a s)
  | panic m s => exact fun _ _ e => by cases e
  | stuck => exact fun _ _ e => by cases e

/-- What `kmalloc` does not serve ends in a panic, or in no array. -/
theorem newArray_fails {w : World T} {n : ℕ} (h : ¬Serves M w n) : Fails (newArray M n w) := by
  intro a w' hrun
  unfold newArray at hrun
  cases hresult : (M.requests w.next).result (n * M.sizeofElement) with
  | block => exact h hresult
  | null =>
    rw [hresult] at hrun
    cases hrun
  | panic =>
    rw [hresult] at hrun
    cases hrun

/-- `new T[n]` and the copy of a list into it. -/
theorem newCopy_run {w : World T} {o : VectorObject} {xs : List T} (hH : Holds w.heap o xs)
    (hfresh : w.heap w.next = none) {n : ℕ} (hn : xs.length ≤ n) (hserved : Serves M w n) {β : Type}
    (k : ℕ → Prog (World T) β) :
    ∃ ds, ds.length = n ∧ ds.take xs.length = xs.map some ∧
      (do let a ← newArray M n
          copyCells o.arr (some a) o.size 0
          k a : Prog (World T) β) w =
        k w.next { w with heap := Function.update w.heap w.next (some ds), next := w.next + 1 } := by
  obtain ⟨w', hw'⟩ : ∃ w' : World T, w' =
      { w with
        heap := Function.update w.heap w.next (some (List.replicate n none))
        next := w.next + 1 } := ⟨_, rfl⟩
  have hnull : o.arr = none → xs = [] := by
    intro e
    have h₁ := hH.null e
    have h₂ := hH.size
    have h₃ := hH.capacity
    exact List.eq_nil_of_length_eq_zero (by omega)
  have hsrc : ∀ a, o.arr = some a → a ≠ w.next ∧ ∃ cells, w'.heap a = some cells ∧
      cells.take xs.length = xs.map some := by
    intro a ha
    obtain ⟨cells, hc, -, htake⟩ := hH.array a ha
    have hne : a ≠ w.next := by
      rintro rfl
      rw [hfresh] at hc
      cases hc
    refine ⟨hne, cells, ?_, htake⟩
    rw [hw']
    exact (Function.update_of_ne hne _ _).trans hc
  have hb : w'.heap w.next = some (List.replicate n none) := by
    rw [hw']
    exact Function.update_self _ _ _
  obtain ⟨ds, hrun, hlen, htake⟩ := copyCells_run hnull hsrc hb (by rw [List.length_replicate]; exact hn) o.size 0
    (by rw [Nat.zero_add, hH.size]) rfl
  refine ⟨ds, by rw [hlen, List.length_replicate], htake, ?_⟩
  have hnew : newArray M n w = .ok w.next w' := by
    rw [hw']
    exact newArray_run hserved
  rw [Prog.bind_run, hnew, Outcome.andThen_ok, Prog.bind_run, hrun, Outcome.andThen_ok, hw']
  simp only [Function.update_idem]

/-- The heap after `delete[]`. -/
def withoutArray (heap : ℕ → Option (List (Option T))) : Option ℕ → ℕ → Option (List (Option T))
  | none => heap
  | some a => Function.update heap a none

theorem deleteArray_run {w : World T} {s : VectorObject} {xs : List T} (hH : Holds w.heap s xs) :
    deleteArray s.arr w = .ok () { w with heap := withoutArray w.heap s.arr } := by
  cases ha : s.arr with
  | none => rfl
  | some a =>
    obtain ⟨cells, hc, -⟩ := hH.array a ha
    simp only [deleteArray, hc]
    rfl

theorem withoutArray_ne {heap : ℕ → Option (List (Option T))} {arr : Option ℕ} {a : ℕ} (h : arr ≠ some a) :
    withoutArray heap arr a = heap a := by
  cases arr with
  | none => rfl
  | some b => exact Function.update_of_ne (fun e => h (by rw [e])) _ _

theorem withoutArray_none {heap : ℕ → Option (List (Option T))} {arr : Option ℕ} {a : ℕ} (h : heap a = none) :
    withoutArray heap arr a = none := by
  cases arr with
  | none => exact h
  | some b =>
    by_cases hne : a = b
    · rw [hne]
      exact Function.update_self _ _ _
    · exact (Function.update_of_ne hne _ _).trans h

/-! ## Statements -/

namespace VecInv
variable {w : World T} {L : Lists T} {v other : ℕ} {s o : VectorObject} {xs : List T}

theorem getObject_run (hs : w.vecs v = some s) : getObject v w = .ok s w := by
  simp only [getObject, hs]

/-- An object gets a new array, and its old one may be gone. -/
theorem withNewArray (h : VecInv w L) {heap : ℕ → Option (List (Option T))} {ds : List (Option T)}
    (hkeep : ∀ a, (∀ s, w.vecs v = some s → s.arr ≠ some a) → a ≠ w.next → heap a = w.heap a)
    (hnew : heap w.next = some ds) (hlen : xs.length ≤ ds.length) (htake : ds.take xs.length = xs.map some) :
    VecInv ⟨Function.update w.vecs v (some ⟨some w.next, xs.length, ds.length⟩), heap, w.next + 1⟩
      (Function.update L v (some xs)) := by
  refine h.replace (fun u t a hne hu ha => ?_) (fun u t a hne hu ha => ?_) (fun a hge => ?_) ?_
  · refine hkeep a (fun s hs hsa => hne (h.owned u v t s a hu hs ha hsa)) (Nat.ne_of_lt (h.lt_next hu ha))
  · intro e
    exact absurd (h.lt_next hu ha) (by rw [Option.some.inj e]; exact Nat.lt_irrefl _)
  · rw [hkeep a (fun s hs hsa => ?_) (by omega)]
    · exact h.fresh a (by omega)
    · have := h.lt_next hs hsa
      omega
  · exact ⟨rfl, hlen, (fun e => nomatch e), fun a ha => ⟨ds, by rw [← Option.some.inj ha]; exact hnew, rfl, htake⟩⟩

theorem construct (h : VecInv w L) (v : ℕ) (hserved : Serves M w 1) :
    ∃ w', vectorConstruct M v w = .ok () w' ∧ VecInv w' (Function.update L v (some [])) ∧
      w'.vecs v = some ⟨some w.next, 0, 1⟩ := by
  have hstep : vectorConstruct M v w = .ok () ⟨Function.update w.vecs v (some ⟨some w.next, 0, 1⟩),
      Function.update w.heap w.next (some [none]), w.next + 1⟩ := by
    unfold vectorConstruct
    rw [Prog.bind_run, newArray_run hserved]
    rfl
  have hnew :
    VecInv ⟨Function.update w.vecs v (some ⟨some w.next, ([] : List T).length, ([none] : List (Option T)).length⟩),
      Function.update w.heap w.next (some [none]), w.next + 1⟩ (Function.update L v (some [])) :=
    h.withNewArray (fun a _ hne => Function.update_of_ne hne _ _) (Function.update_self _ _ _) (Nat.zero_le _) rfl
  exact ⟨_, hstep, hnew, Function.update_self _ _ _⟩

theorem construct_fails (v : ℕ) (h : ¬Serves M w 1) : Fails (vectorConstruct M v w) := by
  unfold vectorConstruct
  rw [Prog.bind_run]
  exact (newArray_fails h).andThen _

theorem copyConstruct (h : VecInv w L) (v : ℕ) (hobj : w.vecs other = some o) (hserved : Serves M w o.capacity) :
    ∃ w', vectorCopyConstruct M v other w = .ok () w' ∧ VecInv w' (Function.update L v (L other)) := by
  obtain ⟨xs, hL, hH⟩ := h.exists_list hobj
  obtain ⟨ds, hlen, htake, hrun⟩ := newCopy_run hH (h.fresh _ le_rfl) (hH.size ▸ hH.capacity) hserved
    fun a => setObject v ⟨some a, o.size, o.capacity⟩
  have hstep : vectorCopyConstruct M v other w = .ok () ⟨Function.update w.vecs v
      (some ⟨some w.next, o.size, o.capacity⟩), Function.update w.heap w.next (some ds), w.next + 1⟩ := by
    unfold vectorCopyConstruct
    rw [Prog.bind_run, getObject_run hobj, Outcome.andThen_ok, hrun]
    rfl
  refine ⟨_, hstep, ?_⟩
  rw [hL, hH.size, ← hlen]
  exact h.withNewArray (fun a _ hne => Function.update_of_ne hne _ _) (Function.update_self _ _ _)
    (by rw [hlen, ← hH.size]; exact hH.capacity) htake

theorem copyConstruct_fails (v : ℕ) (hobj : w.vecs other = some o) (hrefused : ¬Serves M w o.capacity) :
    Fails (vectorCopyConstruct M v other w) := by
  unfold vectorCopyConstruct
  rw [Prog.bind_run, getObject_run hobj, Outcome.andThen_ok, Prog.bind_run]
  exact (newArray_fails hrefused).andThen _

theorem copyAssign_self (v : ℕ) : vectorCopyAssign M v v w = .ok () w := by
  unfold vectorCopyAssign
  rw [if_pos rfl]
  rfl

theorem copyAssign (h : VecInv w L) (hv : w.live v) (hself : v ≠ other) (hobj : w.vecs other = some o)
    (hserved : Serves M w o.capacity) :
    ∃ w', vectorCopyAssign M v other w = .ok () w' ∧ VecInv w' (Function.update L v (L other)) := by
  unfold vectorCopyAssign
  obtain ⟨s, ys, hs, -, hHs⟩ := h.exists_object hv
  obtain ⟨xs, hL, hH⟩ := h.exists_list hobj
  obtain ⟨w₁, hw₁⟩ : ∃ w₁ : World T, w₁ = { w with heap := withoutArray w.heap s.arr } := ⟨_, rfl⟩
  have hdel : deleteArray s.arr w = .ok () w₁ := by
    rw [hw₁]
    exact deleteArray_run hHs
  have hobj₁ : w₁.vecs other = some o := by
    rw [hw₁]
    exact hobj
  have hH₁ : Holds w₁.heap o xs := by
    refine ⟨hH.size, hH.capacity, hH.null, fun a ha => ?_⟩
    rw [hw₁]
    show ∃ cells, withoutArray w.heap s.arr a = some cells ∧ _
    rw [withoutArray_ne fun e => hself (h.owned v other s o a hs hobj e ha)]
    exact hH.array a ha
  have hfresh : w₁.heap w₁.next = none := by
    rw [hw₁]
    exact withoutArray_none (h.fresh _ le_rfl)
  have hserved₁ : Serves M w₁ o.capacity := by
    rw [hw₁]
    exact hserved
  obtain ⟨ds, hlen, htake, hrun⟩ := newCopy_run hH₁ hfresh (hH.size ▸ hH.capacity) hserved₁
    fun a => setObject v ⟨some a, o.size, o.capacity⟩
  refine ⟨⟨Function.update w.vecs v (some ⟨some w.next, o.size, o.capacity⟩),
    Function.update (withoutArray w.heap s.arr) w.next (some ds), w.next + 1⟩, ?_, ?_⟩
  · rw [if_neg hself, Prog.bind_run, getObject_run hs, Outcome.andThen_ok, Prog.bind_run, hdel, Outcome.andThen_ok,
      Prog.bind_run, getObject_run hobj₁, Outcome.andThen_ok, hrun, hw₁]
    rfl
  · rw [hL, hH.size, ← hlen]
    refine h.withNewArray (fun a hne hnext => ?_) (Function.update_self _ _ _)
      (by rw [hlen, ← hH.size]; exact hH.capacity) htake
    exact (Function.update_of_ne hnext _ _).trans (withoutArray_ne (hne s hs))

theorem copyAssign_fails (h : VecInv w L) (hv : w.live v) (hself : v ≠ other) (hobj : w.vecs other = some o)
    (hrefused : ¬Serves M w o.capacity) : Fails (vectorCopyAssign M v other w) := by
  obtain ⟨s, ys, hs, -, hHs⟩ := h.exists_object hv
  have hobj₁ : ({ w with heap := withoutArray w.heap s.arr } : World T).vecs other = some o := hobj
  have hrefused₁ : ¬Serves M { w with heap := withoutArray w.heap s.arr } o.capacity := hrefused
  unfold vectorCopyAssign
  rw [if_neg hself, Prog.bind_run, getObject_run hs, Outcome.andThen_ok, Prog.bind_run, deleteArray_run hHs,
    Outcome.andThen_ok, Prog.bind_run, getObject_run hobj₁, Outcome.andThen_ok, Prog.bind_run]
  exact (newArray_fails hrefused₁).andThen _

theorem destruct (h : VecInv w L) (hv : w.live v) :
    ∃ w', vectorDestruct v w = .ok () w' ∧ VecInv w' (Function.update L v none) := by
  obtain ⟨s, ys, hs, -, hHs⟩ := h.exists_object hv
  have hstep : vectorDestruct v w = .ok () ⟨Function.update w.vecs v none, withoutArray w.heap s.arr, w.next⟩ := by
    unfold vectorDestruct
    rw [Prog.bind_run, getObject_run hs, Outcome.andThen_ok, Prog.bind_run, deleteArray_run hHs, Outcome.andThen_ok]
    rfl
  have hold : ∀ {u t}, Function.update w.vecs v none u = some t → u ≠ v ∧ w.vecs u = some t := by
    intro u t hu
    by_cases hne : u = v
    · rw [hne, Function.update_self] at hu
      cases hu
    · rw [Function.update_of_ne hne] at hu
      exact ⟨hne, hu⟩
  refine ⟨_, hstep, fun u => ?_, fun u t ys hu hL => ?_, fun u u' t t' a hu hu' ht ht' => ?_, fun a ha => ?_⟩
  · show Function.update w.vecs v none u = none ↔ _
    by_cases hne : u = v
    · rw [hne, Function.update_self, Function.update_self]
      exact iff_of_true rfl rfl
    · rw [Function.update_of_ne hne, Function.update_of_ne hne]
      exact h.live u
  · obtain ⟨hne, hu⟩ := hold hu
    rw [Function.update_of_ne hne] at hL
    have hH := h.holds u t ys hu hL
    refine ⟨hH.size, hH.capacity, hH.null, fun a ha => ?_⟩
    show ∃ cells, withoutArray w.heap s.arr a = some cells ∧ _
    rw [withoutArray_ne fun e => hne (h.owned u v t s a hu hs ha e)]
    exact hH.array a ha
  · exact h.owned u u' t t' a (hold hu).2 (hold hu').2 ht ht'
  · exact withoutArray_none (h.fresh a ha)

/-- An object without an array. -/
theorem withNull (h : VecInv w L) (v : ℕ) {heap : ℕ → Option (List (Option T))}
    (hkeep : ∀ u t a, u ≠ v → w.vecs u = some t → t.arr = some a → heap a = w.heap a)
    (hfresh : ∀ a, w.next ≤ a → heap a = none) :
    VecInv ⟨Function.update w.vecs v (some ⟨none, 0, 0⟩), heap, w.next⟩ (Function.update L v (some [])) :=
  h.replace hkeep (fun _ _ _ _ _ _ (e : none = some _) => by cases e) hfresh
    ⟨rfl, le_rfl, fun _ => rfl, fun _ (e : none = some _) => by cases e⟩

theorem update_between {α : Type} {f : ℕ → α} (hne : v ≠ other) {x y z : α} :
    Function.update (Function.update (Function.update f v x) other y) v z =
      Function.update (Function.update f v z) other y := by
  rw [Function.update_comm hne.symm, Function.update_idem]

/-- An object gets the array of another, which becomes empty. -/
theorem moveTo (h : VecInv w L) (hne : v ≠ other) (ho : w.vecs other = some o) (hL : L other = some xs)
    {heap : ℕ → Option (List (Option T))}
    (hkeep : ∀ a, (∀ s, w.vecs v = some s → s.arr ≠ some a) → heap a = w.heap a)
    (hfresh : ∀ a, w.next ≤ a → heap a = none) :
    VecInv ⟨Function.update (Function.update w.vecs v (some o)) other (some ⟨none, 0, 0⟩), heap, w.next⟩
      (Function.update (Function.update L v (some xs)) other (some [])) := by
  have hH := h.holds other o xs ho hL
  -- empty both, then hand the array over
  have h₁ := h.withNull v (fun u t a hu ht hta => hkeep a fun s hs hsa => hu (h.owned u v t s a ht hs hta hsa)) hfresh
  have h₂ := h₁.withNull other (fun _ _ _ _ _ _ => rfl) hfresh
  have h₃ : VecInv ⟨Function.update (Function.update (Function.update w.vecs v (some ⟨none, 0, 0⟩)) other
      (some ⟨none, 0, 0⟩)) v (some o), heap, w.next⟩
      (Function.update (Function.update (Function.update L v (some [])) other (some [])) v (some xs)) := by
    refine h₂.replace (fun _ _ _ _ _ _ => rfl) ?_ hfresh ?_
    · intro u t a hu ht hta hoa
      rcases update_eq_some ht with ⟨rfl, rfl⟩ | ⟨huo, ht⟩
      · cases hta
      · rcases update_eq_some ht with ⟨rfl, rfl⟩ | ⟨-, ht⟩
        · cases hta
        · exact huo (h.owned u other t o a ht ho hta hoa)
    · refine ⟨hH.size, hH.capacity, hH.null, fun a ha => ?_⟩
      show ∃ cells, heap a = some cells ∧ _
      rw [hkeep a fun s hs hsa => hne (h.owned v other s o a hs ho hsa ha)]
      exact hH.array a ha
  rw [update_between hne, update_between hne] at h₃
  exact h₃

theorem moveConstruct (h : VecInv w L) (hv : ¬w.live v) (ho : w.live other) :
    ∃ w', vectorMoveConstruct v other w = .ok () w' ∧
      VecInv w' (Function.update (Function.update L v (L other)) other (some [])) := by
  obtain ⟨o, xs, hobj, hL, -⟩ := h.exists_object ho
  have hne : v ≠ other := by
    rintro rfl
    exact hv ho
  have hstep : vectorMoveConstruct v other w = .ok () ⟨Function.update (Function.update w.vecs v (some o)) other
      (some ⟨none, 0, 0⟩), w.heap, w.next⟩ := by
    unfold vectorMoveConstruct
    rw [Prog.bind_run, getObject_run hobj, Outcome.andThen_ok]
    rfl
  refine ⟨_, hstep, ?_⟩
  rw [hL]
  exact h.moveTo hne hobj hL (fun _ _ => rfl) h.fresh

theorem moveAssign (h : VecInv w L) (hv : w.live v) (ho : w.live other) (hne : v ≠ other) :
    ∃ w', vectorMoveAssign v other w = .ok () w' ∧
      VecInv w' (Function.update (Function.update L v (L other)) other (some [])) := by
  obtain ⟨s, ys, hs, -, hHs⟩ := h.exists_object hv
  obtain ⟨o, xs, hobj, hL, -⟩ := h.exists_object ho
  have hstep : vectorMoveAssign v other w = .ok () ⟨Function.update (Function.update w.vecs v (some o)) other
      (some ⟨none, 0, 0⟩), withoutArray w.heap s.arr, w.next⟩ := by
    unfold vectorMoveAssign
    rw [if_neg hne, Prog.bind_run, getObject_run hs, Outcome.andThen_ok, Prog.bind_run, deleteArray_run hHs,
      Outcome.andThen_ok, Prog.bind_run, getObject_run (w := { w with heap := withoutArray w.heap s.arr }) hobj,
      Outcome.andThen_ok]
    rfl
  refine ⟨_, hstep, ?_⟩
  rw [hL]
  exact h.moveTo hne hobj hL (fun a hkeep => withoutArray_ne (hkeep s hs)) fun a ha => withoutArray_none (h.fresh a ha)

theorem popBack (h : VecInv w L) (hv : w.live v) :
    ∃ w', vectorPopBack v w = .ok () w' ∧ VecInv w' (Function.update L v ((L v).map List.dropLast)) := by
  obtain ⟨s, xs, hs, hL, hH⟩ := h.exists_object hv
  have hsize := hH.size
  have hcap := hH.capacity
  unfold vectorPopBack
  rw [Prog.bind_run, getObject_run hs, Outcome.andThen_ok, hL, Option.map_some]
  by_cases hpos : s.size > 0
  · rw [if_pos hpos]
    refine ⟨_, rfl, h.replace (fun _ _ _ _ _ _ => rfl) (fun u t a hu ht hta hsa =>
      hu (h.owned u v t s a ht hs hta hsa)) h.fresh ⟨?_, ?_, hH.null, fun a ha => ?_⟩⟩
    · show s.size - 1 = _
      rw [List.length_dropLast, hsize]
    · show s.size - 1 ≤ s.capacity
      omega
    · obtain ⟨cells, hc, hlen, htake⟩ := hH.array a ha
      refine ⟨cells, hc, hlen, ?_⟩
      rw [List.dropLast_eq_take, List.length_take, Nat.min_eq_left (by omega), List.map_take, ← htake,
        List.take_take, Nat.min_eq_left (by omega)]
  · rw [if_neg hpos]
    have hnil : xs = [] := List.eq_nil_of_length_eq_zero (by omega)
    refine ⟨w, rfl, ?_⟩
    rw [hnil, List.dropLast_nil, ← hnil, ← hL, Function.update_eq_self]
    exact h

/-! ### `push_back` -/

/-- After `resize` the array is another one, and the old one is gone. -/
theorem resize (h : VecInv w L) (hs : w.vecs v = some s) (hL : L v = some xs)
    (hserved : Serves M w (s.capacity * 2)) :
    ∃ w' ds, vectorResize M v w = .ok () w' ∧ VecInv w' L ∧
      w'.vecs = Function.update w.vecs v (some ⟨some w.next, s.size, s.capacity * 2⟩) ∧
      w'.heap w.next = some ds ∧ ds.length = s.capacity * 2 ∧
      (∀ a, s.arr = some a → w'.heap a = none) ∧
      ∀ a, s.arr ≠ some a → a ≠ w.next → w'.heap a = w.heap a := by
  have hH := h.holds v s xs hs hL
  have hsize := hH.size
  have hcap := hH.capacity
  obtain ⟨ds, hlen, htake, hrun⟩ := newCopy_run hH (h.fresh _ le_rfl) (show xs.length ≤ s.capacity * 2 by omega) hserved
    fun a => deleteArray s.arr >>= fun _ => setObject v ⟨some a, s.size, s.capacity * 2⟩
  have hnext : ∀ a, s.arr = some a → a ≠ w.next := fun a ha => Nat.ne_of_lt (h.lt_next hs ha)
  obtain ⟨w₁, hw₁⟩ : ∃ w₁ : World T, w₁ =
      { w with heap := Function.update w.heap w.next (some ds), next := w.next + 1 } := ⟨_, rfl⟩
  have hH₁ : Holds w₁.heap s xs := by
    refine ⟨hH.size, hH.capacity, hH.null, fun a ha => ?_⟩
    rw [hw₁]
    show ∃ cells, Function.update w.heap w.next (some ds) a = some cells ∧ _
    rw [Function.update_of_ne (hnext a ha)]
    exact hH.array a ha
  have hnew : withoutArray w₁.heap s.arr w.next = some ds := by
    rw [withoutArray_ne fun e => hnext _ e rfl, hw₁]
    exact Function.update_self _ _ _
  have hkeep : ∀ a, s.arr ≠ some a → a ≠ w.next → withoutArray w₁.heap s.arr a = w.heap a := by
    intro a ha hne
    rw [withoutArray_ne ha, hw₁]
    exact Function.update_of_ne hne _ _
  refine ⟨⟨Function.update w.vecs v (some ⟨some w.next, s.size, s.capacity * 2⟩), withoutArray w₁.heap s.arr,
    w.next + 1⟩, ds, ?_, ?_, rfl, hnew, hlen, ?_, hkeep⟩
  · unfold vectorResize
    rw [Prog.bind_run, getObject_run hs, Outcome.andThen_ok, hrun, ← hw₁, Prog.bind_run, deleteArray_run hH₁,
      Outcome.andThen_ok, hw₁]
    rfl
  · have hinv := h.withNewArray (v := v) (fun a hne hn => hkeep a (hne s hs) hn) hnew (by omega) htake
    rw [hlen, ← hsize, ← hL, Function.update_eq_self] at hinv
    exact hinv
  · intro a ha
    show withoutArray w₁.heap s.arr a = none
    rw [ha]
    exact Function.update_self _ _ _

/-- The element is stored where there is room. -/
theorem pushStore (h : VecInv w L) (hs : w.vecs v = some s) (hL : L v = some xs) (hlt : s.size < s.capacity) (x : T) :
    ∃ w', (storeCell s.arr s.size x >>= fun _ => setObject v { s with size := s.size + 1 }) w = .ok () w' ∧
      VecInv w' (Function.update L v (some (xs ++ [x]))) ∧ w'.vecs v = some { s with size := s.size + 1 } := by
  have hH := h.holds v s xs hs hL
  have hsize := hH.size
  cases ha : s.arr with
  | none =>
    have := hH.null ha
    omega
  | some a =>
    obtain ⟨cells, hc, hlen, htake⟩ := hH.array a ha
    have hi : s.size < cells.length := by omega
    have hstep : (storeCell (some a) s.size x >>= fun _ => setObject v ⟨some a, s.size + 1, s.capacity⟩) w =
        .ok () ⟨Function.update w.vecs v (some ⟨some a, s.size + 1, s.capacity⟩),
          Function.update w.heap a (some (cells.set s.size (some x))), w.next⟩ := by
      rw [Prog.bind_run, storeCell_of x hc hi]
      rfl
    have hobj : Function.update w.vecs v (some ⟨some a, s.size + 1, s.capacity⟩) v =
        some ⟨some a, s.size + 1, s.capacity⟩ := Function.update_self _ _ _
    refine ⟨_, hstep, h.replace (fun u t b hu ht htb => Function.update_of_ne ?_ _ _) ?_ ?_ ⟨?_, hlt, ?_, ?_⟩, hobj⟩
    · rintro rfl
      exact hu (h.owned u v t s b ht hs htb ha)
    · intro u t b hu ht htb e
      exact hu (h.owned u v t s b ht hs htb (ha.trans e))
    · intro b hb
      have := h.lt_next hs ha
      rw [Function.update_of_ne (by omega)]
      exact h.fresh b hb
    · show s.size + 1 = _
      rw [List.length_append, hsize]
      rfl
    · intro e
      cases e
    · intro b hb
      cases hb
      refine ⟨_, Function.update_self _ _ _, by rw [List.length_set]; exact hlen, ?_⟩
      rw [List.length_append, List.length_singleton, ← hsize, take_set_succ hi, hsize, htake, List.map_append]
      rfl

theorem deref_cases (r : Ref T) (w : World T) : (∃ x, deref r w = .ok x w) ∨ deref r w = .stuck := by
  cases r with
  | object x => exact .inl ⟨x, rfl⟩
  | cell a i =>
    simp only [deref, loadCell]
    cases w.heap a with
    | none => exact .inr rfl
    | some cells =>
      cases hc : cells[i]? with
      | none => exact .inr (by simp only [hc])
      | some c =>
        cases c with
        | none => exact .inr (by simp only [hc])
        | some x => exact .inl ⟨x, by simp only [hc]⟩

theorem resize_fails (hs : w.vecs v = some s) (hrefused : ¬Serves M w (s.capacity * 2)) :
    Fails (vectorResize M v w) := by
  unfold vectorResize
  rw [Prog.bind_run, getObject_run hs, Outcome.andThen_ok, Prog.bind_run]
  exact (newArray_fails hrefused).andThen _

/-- The object after `push_back`. -/
def Pushed (s s' : VectorObject) : Prop :=
  s'.size = s.size + 1 ∧ s'.capacity = if s.size = s.capacity then s.capacity * 2 else s.capacity

/-- `push_back` with an argument that survives. -/
theorem pushBack (h : VecInv w L) (hs : w.vecs v = some s) (hL : L v = some xs) {r : Ref T} {x : T}
    (hr : deref r w = .ok x w)
    (hroom : s.size < s.capacity ∨ GrowsWell M w s ∧ ∀ a i, r = .cell a i → s.arr ≠ some a) :
    ∃ w', vectorPushBack M v r w = .ok () w' ∧ VecInv w' (Function.update L v (some (xs ++ [x]))) ∧
      ∃ s', w'.vecs v = some s' ∧ Pushed s s' := by
  have hcap := (h.holds v s xs hs hL).capacity
  unfold vectorPushBack
  rw [Prog.bind_run, getObject_run hs, Outcome.andThen_ok]
  by_cases hfull : s.size = s.capacity
  · obtain ⟨hgrows, hother⟩ : GrowsWell M w s ∧ ∀ a i, r = .cell a i → s.arr ≠ some a := by
      rcases hroom with hlt | hroom
      · omega
      · exact hroom
    have hpos := hgrows.1
    obtain ⟨w', ds, hrun, hinv, hvecs, -, -, -, hkeep⟩ := h.resize hs hL (hgrows.2 hfull)
    have hs' : w'.vecs v = some ⟨some w.next, s.size, s.capacity * 2⟩ := by
      rw [hvecs, Function.update_self]
    have hr' : deref r w' = .ok x w' := by
      cases r with
      | object y =>
        cases hr
        rfl
      | cell a i =>
        have hlive : w.heap a ≠ none := by
          intro hnone
          simp only [deref, loadCell, hnone] at hr
          cases hr
        have hne : a ≠ w.next := by
          rintro rfl
          exact hlive (h.fresh _ le_rfl)
        have ha := hkeep a (hother a i rfl) hne
        revert hr
        simp only [deref, loadCell, ha]
        cases w.heap a with
        | none => exact fun e => nomatch e
        | some cells =>
          simp only
          split
          · intro e
            cases e
            rfl
          · exact fun e => nomatch e
    obtain ⟨w'', hstore, hinv', hobj⟩ := hinv.pushStore hs' hL (show s.size < s.capacity * 2 by omega) x
    refine ⟨w'', ?_, hinv', _, hobj, rfl, (if_pos hfull).symm⟩
    simp only [if_pos hfull, Prog.bind_run, hrun, Outcome.andThen_ok, getObject_run hs', hr']
    exact hstore
  · obtain ⟨w', hstore, hinv, hobj⟩ := h.pushStore hs hL (by omega) x
    refine ⟨w', ?_, hinv, _, hobj, rfl, (if_neg hfull).symm⟩
    simp only [if_neg hfull, Prog.bind_run, getObject_run hs, Outcome.andThen_ok, hr]
    exact hstore

/-- `push_back` on a full vector that cannot grow, or with an element of its own. -/
theorem pushBack_fails (h : VecInv w L) (hs : w.vecs v = some s) (hL : L v = some xs) {r : Ref T}
    (hfull : s.size = s.capacity) (hbad : ¬GrowsWell M w s ∨ ∃ a i, r = .cell a i ∧ s.arr = some a) :
    Fails (vectorPushBack M v r w) := by
  unfold vectorPushBack
  rw [Prog.bind_run, getObject_run hs, Outcome.andThen_ok]
  by_cases hserved : Serves M w (s.capacity * 2)
  case neg =>
    simp only [if_pos hfull, Prog.bind_run]
    exact (resize_fails hs hserved).andThen _
  obtain ⟨w', ds, hrun, -, hvecs, hnew, hlen, hgone, -⟩ := h.resize hs hL hserved
  have hs' : w'.vecs v = some ⟨some w.next, s.size, s.capacity * 2⟩ := by
    rw [hvecs, Function.update_self]
  have hbad' : s.capacity = 0 ∨ ∃ a i, r = .cell a i ∧ s.arr = some a := by
    by_contra hgood
    push Not at hgood
    rcases hbad with hnot | ⟨a, i, hr, ha⟩
    · exact hnot ⟨hgood.1, fun _ => hserved⟩
    · exact hgood.2 a i hr ha
  simp only [if_pos hfull, Prog.bind_run, hrun, Outcome.andThen_ok, getObject_run hs']
  rcases deref_cases r w' with ⟨x, hx⟩ | hstuck
  · rcases hbad' with hzero | ⟨a, i, rfl, ha⟩
    · have hout : ¬s.size < ds.length := by omega
      have hstore : storeCell (some w.next) s.size x w' = .stuck := by
        simp only [storeCell, hnew, if_neg hout]
      rw [hx, Outcome.andThen_ok]
      show Fails ((storeCell (some w.next) s.size x w').andThen _)
      rw [hstore, Outcome.andThen_stuck]
      exact fun _ _ e => by cases e
    · simp only [deref, loadCell, hgone a ha] at hx
      cases hx
  · rw [hstuck, Outcome.andThen_stuck]
    exact fun _ _ e => by cases e

/-! ### References -/

theorem at_outside (hs : w.vecs v = some s) {i : ℕ} (hi : s.size ≤ i) :
    vectorAt v i w = .panic "Index out of bounds" w := by
  unfold vectorAt
  rw [Prog.bind_run, getObject_run hs, Outcome.andThen_ok, if_pos hi]
  rfl

/-- `operator[]` gives a cell that holds the element. -/
theorem at_inside (hs : w.vecs v = some s) (hH : Holds w.heap s xs) {i : ℕ} (hi : i < xs.length) :
    ∃ a, s.arr = some a ∧ vectorAt v i w = .ok (.cell a i) w ∧ deref (.cell a i) w = .ok xs[i] w := by
  have hsize := hH.size
  have hcap := hH.capacity
  cases ha : s.arr with
  | none =>
    have := hH.null ha
    omega
  | some a =>
    obtain ⟨cells, hc, -, htake⟩ := hH.array a ha
    refine ⟨a, rfl, ?_, loadCell_of hc (getElem?_of_take htake hi)⟩
    unfold vectorAt
    rw [Prog.bind_run, getObject_run hs, Outcome.andThen_ok, if_neg (by omega), ha]
    rfl

theorem write (h : VecInv w L) (hs : w.vecs v = some s) (hL : L v = some xs) {i : ℕ} (hi : i < xs.length) (x : T) :
    ∃ w', (vectorAt v i >>= fun r => storeRef r x) w = .ok () w' ∧
      VecInv w' (Function.update L v (some (xs.set i x))) := by
  have hH := h.holds v s xs hs hL
  have hsize := hH.size
  have hcap := hH.capacity
  obtain ⟨a, ha, hat, -⟩ := at_inside hs hH hi
  obtain ⟨cells, hc, hlen, htake⟩ := hH.array a ha
  have hstep : (vectorAt v i >>= fun r => storeRef r x) w =
      .ok () { w with heap := Function.update w.heap a (some (cells.set i (some x))) } := by
    rw [Prog.bind_run, hat, Outcome.andThen_ok]
    exact storeCell_of x hc (by omega)
  have hinv : VecInv ⟨Function.update w.vecs v (some s), Function.update w.heap a (some (cells.set i (some x))), w.next⟩
      (Function.update L v (some (xs.set i x))) := by
    refine h.replace (fun u t b hu ht htb => Function.update_of_ne ?_ _ _) ?_ ?_ ⟨?_, hcap, hH.null, ?_⟩
    · rintro rfl
      exact hu (h.owned u v t s b ht hs htb ha)
    · exact fun u t b hu ht htb e => hu (h.owned u v t s b ht hs htb e)
    · intro b hb
      have := h.lt_next hs ha
      rw [Function.update_of_ne (by omega)]
      exact h.fresh b hb
    · rw [List.length_set]
      exact hsize
    · intro b hb
      rw [ha] at hb
      cases hb
      refine ⟨_, Function.update_self _ _ _, by rw [List.length_set]; exact hlen, ?_⟩
      rw [List.length_set, List.take_set, htake, List.map_set]
  rw [← hs, Function.update_eq_self] at hinv
  exact ⟨_, hstep, hinv⟩

end VecInv

/-! ## Programs -/

/-- A statement does what it does on lists. -/
def Agrees (op : Op T) (L : Lists T) : Outcome (World T) (Out T) → Prop
  | .ok out w' => ∃ L', listStep op L = some (out, L') ∧ VecInv w' L'
  | .panic _ _ => listStep op L = none
  | .stuck => False

section Step
variable {w : World T} {L : Lists T}

/-- A statement without a result of its own. -/
theorem agrees_done {op : Op T} {x : Prog (World T) Unit} {L' : Lists T} (hspec : listStep op L = some (.done, L'))
    (h : ∃ w', x w = .ok () w' ∧ VecInv w' L') : Agrees op L ((do x; pure .done : Prog (World T) (Out T)) w) := by
  obtain ⟨w', hrun, hinv⟩ := h
  rw [Prog.bind_run, hrun]
  exact ⟨L', hspec, hinv⟩

theorem pushBack_agrees (h : VecInv w L) {v : ℕ} {arg : Arg T} (hdef : (Op.pushBack v arg).Defined w.live)
    (hc : Careful M w (.pushBack v arg)) : Agrees (.pushBack v arg) L (step M (.pushBack v arg) w) := by
  cases arg with
  | object x =>
    obtain ⟨s, xs, hs, hL, hH⟩ := h.exists_object hdef
    refine agrees_done (x := vectorPushBack M v (.object x)) rfl ?_
    rw [hL]
    obtain ⟨w', hrun, hinv, -⟩ := h.pushBack (r := .object x) hs hL rfl (.inr ⟨hc s hs, fun _ _ e => by cases e⟩)
    exact ⟨w', hrun, hinv⟩
  | element u i =>
    obtain ⟨s, xs, hs, hL, hH⟩ := h.exists_object hdef.1
    obtain ⟨t, ys, ht, hLu, hHu⟩ := h.exists_object hdef.2
    rcases Nat.lt_or_ge i ys.length with hi | hi
    · obtain ⟨a, ha, hat, hderef⟩ := VecInv.at_inside ht hHu hi
      have hcare := hc s t hs ht (by rw [hHu.size]; exact hi)
      have hroom : s.size < s.capacity ∨
          GrowsWell M w s ∧ ∀ b j, Ref.cell a i = (.cell b j : Ref T) → s.arr ≠ some b := by
        by_cases hself : u = v
        · rw [if_pos hself] at hcare
          exact .inl hcare
        · rw [if_neg hself] at hcare
          refine .inr ⟨hcare, fun b j e hb => ?_⟩
          cases e
          exact hself (h.owned u v t s a ht hs ha hb)
      have hrun : step M (.pushBack v (.element u i)) w =
          (do vectorPushBack M v (.cell a i); pure .done : Prog _ _) w := by
        show (vectorAt u i w).andThen _ = _
        rw [hat]
        rfl
      rw [hrun]
      obtain ⟨w', hpush, hinv, -⟩ := h.pushBack hs hL hderef hroom
      refine agrees_done ?_ ⟨w', hpush, hinv⟩
      simp only [listStep, hLu, hL, Option.bind_eq_bind, Option.bind_some, List.getElem?_eq_getElem hi, Option.map_some]
      rfl
    · have hrun : step M (.pushBack v (.element u i)) w = .panic "Index out of bounds" w := by
        show (vectorAt u i w).andThen _ = _
        rw [VecInv.at_outside ht (by rw [hHu.size]; exact hi)]
        rfl
      rw [hrun]
      show listStep _ _ = none
      simp only [listStep, hLu, Option.bind_eq_bind, Option.bind_some, List.getElem?_eq_none hi, Option.bind_none]

/-- A vector that does not grow well is full. -/
theorem full_of_not_growsWell {s : VectorObject} {xs : List T} (hH : Holds w.heap s xs) (h : ¬GrowsWell M w s) :
    s.size = s.capacity := by
  have hcap := hH.capacity
  by_contra hne
  exact h ⟨by omega, fun e => absurd e hne⟩

theorem pushBack_not_careful (h : VecInv w L) {v : ℕ} {arg : Arg T} (hdef : (Op.pushBack v arg).Defined w.live)
    (hc : ¬Careful M w (.pushBack v arg)) :
    Fails (step M (.pushBack v arg) w) ∧ listStep (.pushBack v arg) L ≠ none := by
  cases arg with
  | object x =>
    obtain ⟨s, xs, hs, hL, hH⟩ := h.exists_object hdef
    have hbad : ¬GrowsWell M w s := by
      intro hgrows
      exact hc fun s' hs' => by
        rw [hs] at hs'
        cases hs'
        exact hgrows
    refine ⟨?_, Option.some_ne_none _⟩
    show Fails ((vectorPushBack M v (.object x) w).andThen _)
    exact (h.pushBack_fails hs hL (full_of_not_growsWell hH hbad) (.inl hbad)).andThen _
  | element u i =>
    obtain ⟨s, xs, hs, hL, hH⟩ := h.exists_object hdef.1
    obtain ⟨t, ys, ht, hLu, hHu⟩ := h.exists_object hdef.2
    have hcap := hH.capacity
    have hbad : i < t.size ∧ ¬if u = v then s.size < s.capacity else GrowsWell M w s := by
      by_contra hne
      refine hc fun s' t' hs' ht' hi => ?_
      rw [hs] at hs'
      rw [ht] at ht'
      cases hs'
      cases ht'
      by_contra hcare
      exact hne ⟨hi, hcare⟩
    have hi : i < ys.length := by
      rw [← hHu.size]
      exact hbad.1
    obtain ⟨a, ha, hat, -⟩ := VecInv.at_inside ht hHu hi
    have hfails : Fails (vectorPushBack M v (.cell a i) w) := by
      by_cases hself : u = v
      · rw [if_pos hself] at hbad
        subst hself
        rw [ht] at hs
        cases hs
        exact h.pushBack_fails ht hL (by omega) (.inr ⟨a, i, rfl, ha⟩)
      · rw [if_neg hself] at hbad
        exact h.pushBack_fails hs hL (full_of_not_growsWell hH hbad.2) (.inl hbad.2)
    constructor
    · show Fails ((vectorAt u i w).andThen _)
      rw [hat, Outcome.andThen_ok]
      exact hfails.andThen _
    · simp only [listStep, hLu, Option.bind_eq_bind, Option.bind_some, List.getElem?_eq_getElem hi]
      exact Option.some_ne_none _

/-- A careful statement. -/
theorem step_agrees (h : VecInv w L) {op : Op T} (hdef : op.Defined w.live) (hc : Careful M w op) :
    Agrees op L (step M op w) := by
  cases op with
  | construct v =>
    obtain ⟨w', hrun, hinv, -⟩ := h.construct v hc
    exact agrees_done rfl ⟨w', hrun, hinv⟩
  | destruct v => exact agrees_done rfl (h.destruct hdef)
  | copyConstruct v other =>
    obtain ⟨o, -, hobj, -, -⟩ := h.exists_object hdef.2
    exact agrees_done rfl (h.copyConstruct v hobj (hc o hobj))
  | copyAssign v other =>
    refine agrees_done rfl ?_
    by_cases hself : v = other
    · subst hself
      rw [Function.update_eq_self]
      exact ⟨w, VecInv.copyAssign_self v, h⟩
    · obtain ⟨o, -, hobj, -, -⟩ := h.exists_object hdef.2
      exact h.copyAssign hdef.1 hself hobj (hc hself o hobj)
  | moveConstruct v other => exact agrees_done rfl (h.moveConstruct hdef.1 hdef.2)
  | moveAssign v other =>
    by_cases hself : v = other
    · exact agrees_done (if_pos hself) ⟨w, by unfold vectorMoveAssign; rw [if_pos hself]; rfl, h⟩
    · exact agrees_done (if_neg hself) (h.moveAssign hdef.1 hdef.2 hself)
  | pushBack v arg => exact pushBack_agrees h hdef hc
  | popBack v => exact agrees_done rfl (h.popBack hdef)
  | size v =>
    obtain ⟨s, xs, hs, hL, hH⟩ := h.exists_object hdef
    have hrun : step M (.size v) w = .ok (.number s.size) w := by
      show ((getObject v >>= fun s => pure s.size) w).andThen _ = _
      rw [Prog.bind_run, VecInv.getObject_run hs]
      rfl
    rw [hrun]
    refine ⟨L, ?_, h⟩
    simp only [listStep, hL, hH.size]
    rfl
  | read v i =>
    obtain ⟨s, xs, hs, hL, hH⟩ := h.exists_object hdef
    rcases Nat.lt_or_ge i xs.length with hi | hi
    · obtain ⟨a, -, hat, hderef⟩ := VecInv.at_inside hs hH hi
      have hrun : step M (.read v i) w = .ok (.value xs[i]) w := by
        show (vectorAt v i w).andThen _ = _
        rw [hat, Outcome.andThen_ok, Prog.bind_run, hderef]
        rfl
      rw [hrun]
      refine ⟨L, ?_, h⟩
      simp only [listStep, hL, Option.bind_eq_bind, Option.bind_some, List.getElem?_eq_getElem hi]
      rfl
    · have hrun : step M (.read v i) w = .panic "Index out of bounds" w := by
        show (vectorAt v i w).andThen _ = _
        rw [VecInv.at_outside hs (by rw [hH.size]; exact hi)]
        rfl
      rw [hrun]
      show listStep _ _ = none
      simp only [listStep, hL, Option.bind_eq_bind, Option.bind_some, List.getElem?_eq_none hi, Option.bind_none]
  | write v i x =>
    obtain ⟨s, xs, hs, hL, hH⟩ := h.exists_object hdef
    rcases Nat.lt_or_ge i xs.length with hi | hi
    · obtain ⟨a, -, hat, -⟩ := VecInv.at_inside hs hH hi
      have hrun : step M (.write v i x) w =
          (do (do let r ← vectorAt v i; storeRef r x); pure .done : Prog (World T) (Out T)) w := by
        show (vectorAt v i w).andThen _ = ((vectorAt v i w).andThen _).andThen _
        rw [hat]
        rfl
      rw [hrun]
      refine agrees_done ?_ (h.write hs hL hi x)
      simp only [listStep, hL]
      exact if_pos hi
    · have hrun : step M (.write v i x) w = .panic "Index out of bounds" w := by
        show (vectorAt v i w).andThen _ = _
        rw [VecInv.at_outside hs (by rw [hH.size]; exact hi)]
        rfl
      rw [hrun]
      show listStep _ _ = none
      simp only [listStep, hL]
      exact if_neg (Nat.not_lt.mpr hi)

/-- A statement that is not careful does not return, though the one on lists does. -/
theorem step_not_careful (h : VecInv w L) {op : Op T} (hdef : op.Defined w.live) (hc : ¬Careful M w op) :
    Fails (step M op w) ∧ listStep op L ≠ none := by
  cases op with
  | construct v =>
    refine ⟨?_, Option.some_ne_none _⟩
    show Fails ((vectorConstruct M v w).andThen _)
    exact (VecInv.construct_fails v hc).andThen _
  | copyConstruct v other =>
    obtain ⟨o, -, hobj, -, -⟩ := h.exists_object hdef.2
    refine ⟨?_, Option.some_ne_none _⟩
    have hrefused : ¬Serves M w o.capacity := by
      intro hserved
      refine hc fun o' hobj' => ?_
      rw [hobj] at hobj'
      cases hobj'
      exact hserved
    show Fails ((vectorCopyConstruct M v other w).andThen _)
    exact (VecInv.copyConstruct_fails v hobj hrefused).andThen _
  | copyAssign v other =>
    obtain ⟨o, -, hobj, -, -⟩ := h.exists_object hdef.2
    refine ⟨?_, Option.some_ne_none _⟩
    have hrefused : v ≠ other ∧ ¬Serves M w o.capacity := by
      by_contra hne
      refine hc fun hself o' hobj' => ?_
      rw [hobj] at hobj'
      cases hobj'
      by_contra hserved
      exact hne ⟨hself, hserved⟩
    show Fails ((vectorCopyAssign M v other w).andThen _)
    exact (h.copyAssign_fails hdef.1 hrefused.1 hobj hrefused.2).andThen _
  | pushBack v arg => exact pushBack_not_careful h hdef hc
  | _ => exact absurd trivial hc

theorem faithful_iff (h : VecInv w L) (ops : List (Op T)) : Faithful M w L ops ↔ CarefulRun M w ops := by
  induction ops generalizing w L with
  | nil => exact Iff.rfl
  | cons op ops ih =>
    unfold Faithful CarefulRun
    refine forall_congr' fun hdef => ?_
    by_cases hc : Careful M w op
    · have hagree := step_agrees h hdef hc
      cases hrun : step M op w with
      | stuck =>
        rw [hrun] at hagree
        exact hagree.elim
      | panic m w' =>
        rw [hrun] at hagree
        exact iff_of_true hagree ⟨hc, trivial⟩
      | ok out w' =>
        rw [hrun] at hagree
        obtain ⟨L', hspec, hinv⟩ := hagree
        simp only
        rw [← ih hinv]
        constructor
        · rintro ⟨L'', hspec', -, hrest⟩
          rw [hspec] at hspec'
          cases hspec'
          exact ⟨hc, hrest⟩
        · rintro ⟨-, hrest⟩
          exact ⟨L', hspec, hinv.represents, hrest⟩
    · obtain ⟨hfails, hspec⟩ := step_not_careful h hdef hc
      refine iff_of_false (fun hf => ?_) fun hcare => hc hcare.1
      cases hrun : step M op w with
      | ok out w' => exact hfails out w' hrun
      | panic m w' =>
        rw [hrun] at hf
        exact hspec hf
      | stuck =>
        rw [hrun] at hf
        exact hf

end Step

/-! ## How far a vector grows -/

section Growth
variable {w : World T} {L : Lists T} {s : VectorObject} {x : T} {rest : List (Op T)}

/-- One `push_back` of an object in a careful run. -/
theorem careful_pushBack (h : VecInv w L) (hs : w.vecs 0 = some s)
    (hc : CarefulRun M w (.pushBack 0 (.object x) :: rest)) :
    GrowsWell M w s ∧ ∃ w' L' s', VecInv w' L' ∧ w'.vecs 0 = some s' ∧ VecInv.Pushed s s' ∧ CarefulRun M w' rest := by
  obtain ⟨xs, hL, -⟩ := h.exists_list hs
  obtain ⟨hcare, hrest⟩ := hc (by rw [Op.Defined, World.live, hs]; exact Option.some_ne_none _)
  have hgrows : GrowsWell M w s := hcare s hs
  obtain ⟨w', hrun, hinv, s', hs', hpushed⟩ := h.pushBack (r := .object x) (x := x) hs hL rfl
    (.inr ⟨hgrows, fun _ _ e => by cases e⟩)
  have hstep : step M (.pushBack 0 (.object x)) w = .ok .done w' := by
    show (vectorPushBack M 0 (.object x) w).andThen _ = _
    rw [hrun]
    rfl
  rw [hstep] at hrest
  exact ⟨hgrows, w', _, s', hinv, hs', hpushed, hrest⟩

/-- As long as there is room the capacity stays. -/
theorem careful_pushBacks (n : ℕ) : ∀ {w : World T} {L : Lists T} {s : VectorObject}, VecInv w L → w.vecs 0 = some s →
    s.size + n ≤ s.capacity → CarefulRun M w (List.replicate n (.pushBack 0 (.object x)) ++ rest) →
    ∃ w' L' s', VecInv w' L' ∧ w'.vecs 0 = some s' ∧ s'.size = s.size + n ∧ s'.capacity = s.capacity ∧
      CarefulRun M w' rest := by
  induction n with
  | zero =>
    intro w L s h hs hroom hc
    exact ⟨w, L, s, h, hs, rfl, rfl, hc⟩
  | succ n ih =>
    intro w L s h hs hroom hc
    obtain ⟨-, w', L', s', hinv, hs', ⟨hsize, hcapacity⟩, hrest⟩ := careful_pushBack h hs hc
    rw [if_neg (by omega)] at hcapacity
    obtain ⟨w'', L'', s'', hinv'', hs'', hsize'', hcapacity'', hrest''⟩ := ih hinv hs' (by omega) hrest
    exact ⟨w'', L'', s'', hinv'', hs'', by omega, by omega, hrest''⟩

/-- A full vector of `2 ^ j` elements becomes one of `2 ^ (j + k)`. -/
theorem careful_doublings (k : ℕ) : ∀ {j : ℕ} {w : World T} {L : Lists T} {s : VectorObject}, VecInv w L →
    w.vecs 0 = some s → s.size = 2 ^ j → s.capacity = 2 ^ j →
    CarefulRun M w (List.replicate (2 ^ (j + k) - 2 ^ j) (.pushBack 0 (.object x)) ++ rest) →
    ∃ w' L' s', VecInv w' L' ∧ w'.vecs 0 = some s' ∧ s'.size = 2 ^ (j + k) ∧ s'.capacity = 2 ^ (j + k) ∧
      CarefulRun M w' rest := by
  induction k with
  | zero =>
    intro j w L s h hs hsize hcapacity hc
    rw [Nat.add_zero, Nat.sub_self] at hc
    exact ⟨w, L, s, h, hs, hsize, hcapacity, hc⟩
  | succ k ih =>
    intro j w L s h hs hsize hcapacity hc
    have hpos : 0 < 2 ^ j := Nat.two_pow_pos j
    have hdouble : 2 ^ (j + 1) = 2 ^ j * 2 := Nat.pow_succ ..
    have hle : 2 ^ (j + 1) ≤ 2 ^ (j + 1 + k) := Nat.pow_le_pow_right (by decide) (Nat.le_add_right _ _)
    -- the first of them doubles the capacity, and the next `2 ^ j - 1` fill it
    have hsplit : 2 ^ (j + (k + 1)) - 2 ^ j = 1 + ((2 ^ j - 1) + (2 ^ (j + 1 + k) - 2 ^ (j + 1))) := by
      rw [show j + (k + 1) = j + 1 + k by omega]
      omega
    rw [hsplit, List.replicate_add, List.replicate_add, List.append_assoc, List.append_assoc] at hc
    obtain ⟨-, w₁, L₁, s₁, hinv₁, hs₁, ⟨hsize₁, hcapacity₁⟩, hrest₁⟩ := careful_pushBack h hs hc
    rw [if_pos (hsize.trans hcapacity.symm)] at hcapacity₁
    obtain ⟨w₂, L₂, s₂, hinv₂, hs₂, hsize₂, hcapacity₂, hrest₂⟩ :=
      careful_pushBacks (2 ^ j - 1) hinv₁ hs₁ (by omega) hrest₁
    obtain ⟨w₃, L₃, s₃, hinv₃, hs₃, hsize₃, hcapacity₃, hrest₃⟩ :=
      ih (j := j + 1) hinv₂ hs₂ (by omega) (by omega) hrest₂
    rw [show j + (k + 1) = j + 1 + k by omega]
    exact ⟨w₃, L₃, s₃, hinv₃, hs₃, hsize₃, hcapacity₃, hrest₃⟩

/-- A vector with more than `2 ^ k` elements has an array of twice as many, and that has to be small enough for
`kmalloc`. -/
theorem grown_le {k : ℕ} (hk : 2 ^ k * 2 * M.sizeofElement + 16 < 2 ^ 32)
    (h : CarefulRun M World.start (.construct 0 :: List.replicate (2 ^ k + 1) (.pushBack 0 (.object x)))) :
    2 ^ k * 2 * M.sizeofElement ≤ maxKmalloc := by
  obtain ⟨hserved, hrest⟩ := h fun hl => hl rfl
  obtain ⟨w, hrun, hinv, hs⟩ := (VecInv.start (T := T)).construct 0 hserved
  have hstep : step M (.construct 0 : Op T) World.start = .ok .done w := by
    show (vectorConstruct M 0 World.start).andThen _ = _
    rw [hrun]
    rfl
  rw [hstep] at hrest
  have hsplit : 2 ^ k + 1 = 1 + ((2 ^ (0 + k) - 2 ^ 0) + 1) := by
    have := Nat.two_pow_pos k
    rw [Nat.zero_add]
    omega
  rw [hsplit, List.replicate_add, List.replicate_add] at hrest
  obtain ⟨w₁, L₁, s₁, hinv₁, hs₁, hsize₁, hcapacity₁, hrest₁⟩ := careful_pushBacks 1 hinv hs (Nat.le_refl 1) hrest
  obtain ⟨w₂, L₂, s₂, hinv₂, hs₂, hsize₂, hcapacity₂, hrest₂⟩ :=
    careful_doublings (j := 0) k hinv₁ hs₁ hsize₁ hcapacity₁ hrest₁
  rw [Nat.zero_add] at hsize₂ hcapacity₂
  have hfull := (careful_pushBack hinv₂ hs₂ hrest₂).1.2 (hsize₂.trans hcapacity₂.symm)
  rw [hcapacity₂] at hfull
  exact (M.requests w₂.next).le_of_served hk (by rw [Serves] at hfull; rw [hfull]; decide)

end Growth

/-- **Vectors and lists.** A program behaves as the one on lists, and every load and store stays inside a live array,
if and only if every new array is served, and every `push_back` that can evaluate its argument finds room or a capacity
above 0 and an argument from elsewhere. -/
theorem vector_refines_list (M : ArrayMemory) (ops : List (Op T)) :
    Faithful M World.start (fun _ => none) ops ↔ CarefulRun M World.start ops :=
  faithful_iff VecInv.start ops

/-- `Vector<int>`, with memory for every array that there is a class for. -/
def intMemory : ArrayMemory := ⟨4, fun _ => .ample⟩

/-- `Vector<int> a; Vector<int> b = move(a); a.push_back(5)`, and `Vector<int> a; a.push_back(5); a.push_back(a[0])`,
and 513 times `a.push_back(5)`. -/
theorem vector_not_list :
    ¬Faithful intMemory (World.start : World ℤ) (fun _ => none)
      [.construct 0, .moveConstruct 1 0, .pushBack 0 (.object 5)] ∧
    ¬Faithful intMemory (World.start : World ℤ) (fun _ => none)
      [.construct 0, .pushBack 0 (.object 5), .pushBack 0 (.element 0 0)] ∧
    ¬Faithful intMemory (World.start : World ℤ) (fun _ => none)
      (.construct 0 :: List.replicate 513 (.pushBack 0 (.object 5))) := by
  refine ⟨?_, ?_, ?_⟩
  · intro h
    have h₀ := (faithful_iff VecInv.start _).mp h
    have h₁ : CarefulRun _ _ _ := (h₀ fun hl => hl rfl).2
    have h₂ : CarefulRun _ _ _ := (h₁ ⟨fun hl => hl rfl, Option.some_ne_none _⟩).2
    exact ((h₂ (Option.some_ne_none _)).1 ⟨none, 0, 0⟩ rfl).1 rfl
  · intro h
    have h₀ := (faithful_iff VecInv.start _).mp h
    have h₁ : CarefulRun _ _ _ := (h₀ fun hl => hl rfl).2
    have h₂ : CarefulRun _ _ _ := (h₁ (Option.some_ne_none _)).2
    have h₃ := (h₂ ⟨Option.some_ne_none _, Option.some_ne_none _⟩).1 ⟨some 0, 1, 1⟩ ⟨some 0, 1, 1⟩ rfl rfl (by decide)
    exact Nat.lt_irrefl 1 h₃
  · intro h
    have hle := grown_le (k := 9) (by decide) ((faithful_iff VecInv.start _).mp h)
    exact absurd hle (by decide)

end Borgos.Libcpp
