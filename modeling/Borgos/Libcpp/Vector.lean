import Borgos.Foundations.Outcome
import Borgos.Mem.Layout

/-! # `vector.cpp`, `stdoperator.cpp`: `Vector<T>`

A vector object owns an array on the heap. A load or store at an index outside a live array, of a cell that was
never written, and the deletion of an array that is not live have no meaning: they are stuck. `operator new[]` is
`kmalloc`, which panics when it is out of memory and for every block of more than 4048 bytes, long before a capacity
could wrap. So capacities are natural numbers.
-/
namespace Borgos.Libcpp
open Borgos.Foundations
open Borgos.Mem (KmallocService maxKmalloc)
set_option autoImplicit false

variable {T : Type}

/-- The members of a vector. `none` is `nullptr`. -/
structure VectorObject where
  arr : Option ℕ
  size : ℕ
  capacity : ℕ

/-- The vector objects by name, the live arrays by address, and the address of the next one. A cell of an array is
`none` until it is written. -/
structure World (T : Type) where
  vecs : ℕ → Option VectorObject
  heap : ℕ → Option (List (Option T))
  next : ℕ

/-- A `const T&`: another object, or a cell of an array. -/
inductive Ref (T : Type) where
  | object (x : T)
  | cell (a i : ℕ)

/-! ## The heap -/

def World.start : World T := ⟨fun _ => none, fun _ => none, 0⟩

/-- `m_arr[i]` as a value. -/
def loadCell (arr : Option ℕ) (i : ℕ) : Prog (World T) T := fun w =>
  match arr with
  | none => .stuck
  | some a =>
    match w.heap a with
    | none => .stuck
    | some cells =>
      match cells[i]? with
      | some (some x) => .ok x w
      | _ => .stuck

/-- `m_arr[i] = x`. -/
def storeCell (arr : Option ℕ) (i : ℕ) (x : T) : Prog (World T) Unit := fun w =>
  match arr with
  | none => .stuck
  | some a =>
    match w.heap a with
    | none => .stuck
    | some cells =>
      if i < cells.length then .ok () { w with heap := Function.update w.heap a (some (cells.set i (some x))) }
      else .stuck

/-- `sizeof(T)`, and how the calls of `operator new[]` are served, in their order. -/
structure ArrayMemory where
  sizeofElement : ℕ
  requests : ℕ → KmallocService

/-- `new T[n]`. -/
def newArray (M : ArrayMemory) (n : ℕ) : Prog (World T) ℕ := fun w =>
  match (M.requests w.next).result (n * M.sizeofElement) with
  | .panic => .panic "kmalloc" w
  | .null => .stuck
  | .block => .ok w.next
    { w with
      heap := Function.update w.heap w.next (some (List.replicate n none))
      next := w.next + 1 }

/-- `delete[] arr`. -/
def deleteArray (arr : Option ℕ) : Prog (World T) Unit := fun w =>
  match arr with
  | none => .ok () w
  | some a =>
    match w.heap a with
    | none => .stuck
    | some _ => .ok () { w with heap := Function.update w.heap a none }

/-- `dst[i] = src[i]` for `n` cells from `i` on. -/
def copyCells (src dst : Option ℕ) : ℕ → ℕ → Prog (World T) Unit
  | 0, _ => pure ()
  | n + 1, i => do
    let x ← loadCell src i
    storeCell dst i x
    copyCells src dst n (i + 1)

def deref : Ref T → Prog (World T) T
  | .object x => pure x
  | .cell a i => loadCell (some a) i

/-! ## Members

Every member function gets the name of its object. There is no call on a name without an object. -/

variable (M : ArrayMemory)

def getObject (v : ℕ) : Prog (World T) VectorObject := fun w =>
  match w.vecs v with
  | some s => .ok s w
  | none => .stuck

def setObject (v : ℕ) (s : VectorObject) : Prog (World T) Unit :=
  Prog.modify fun w => { w with vecs := Function.update w.vecs v (some s) }

/-- `Vector()`. -/
def vectorConstruct (v : ℕ) : Prog (World T) Unit := do
  let a ← newArray M 1
  setObject v ⟨some a, 0, 1⟩

/-- `~Vector()`. -/
def vectorDestruct (v : ℕ) : Prog (World T) Unit := do
  let s ← getObject v
  deleteArray s.arr
  Prog.modify fun w => { w with vecs := Function.update w.vecs v none }

/-- `Vector(const Vector& other)`. -/
def vectorCopyConstruct (v other : ℕ) : Prog (World T) Unit := do
  let o ← getObject other
  let a ← newArray M o.capacity
  copyCells o.arr (some a) o.size 0
  setObject v ⟨some a, o.size, o.capacity⟩

/-- `operator=(const Vector& other)`. -/
def vectorCopyAssign (v other : ℕ) : Prog (World T) Unit :=
  if v = other then pure ()
  else do
    let s ← getObject v
    deleteArray s.arr
    let o ← getObject other
    let a ← newArray M o.capacity
    copyCells o.arr (some a) o.size 0
    setObject v ⟨some a, o.size, o.capacity⟩

/-- `Vector(Vector&& other)`. -/
def vectorMoveConstruct (v other : ℕ) : Prog (World T) Unit := do
  let o ← getObject other
  setObject v o
  setObject other ⟨none, 0, 0⟩

/-- `operator=(Vector&& other)`. -/
def vectorMoveAssign (v other : ℕ) : Prog (World T) Unit :=
  if v = other then pure ()
  else do
    let s ← getObject v
    deleteArray s.arr
    let o ← getObject other
    setObject v o
    setObject other ⟨none, 0, 0⟩

/-- `resize`. -/
def vectorResize (v : ℕ) : Prog (World T) Unit := do
  let s ← getObject v
  let a ← newArray M (s.capacity * 2)
  copyCells s.arr (some a) s.size 0
  deleteArray s.arr
  setObject v ⟨some a, s.size, s.capacity * 2⟩

/-- `push_back`. The argument is read after `resize`. -/
def vectorPushBack (v : ℕ) (element : Ref T) : Prog (World T) Unit := do
  let s ← getObject v
  if s.size = s.capacity then vectorResize M v else pure ()
  let s ← getObject v
  let x ← deref element
  storeCell s.arr s.size x
  setObject v { s with size := s.size + 1 }

/-- `pop_back`. -/
def vectorPopBack (v : ℕ) : Prog (World T) Unit := do
  let s ← getObject v
  if s.size > 0 then setObject v { s with size := s.size - 1 } else pure ()

/-- `size`. -/
def vectorSize (v : ℕ) : Prog (World T) ℕ := do
  let s ← getObject v
  pure s.size

/-- `operator[]` and `at`, which have the same body. -/
def vectorAt (v index : ℕ) : Prog (World T) (Ref T) := do
  let s ← getObject v
  if index ≥ s.size then Prog.panic "Index out of bounds"
  else
    match s.arr with
    | some a => pure (.cell a index)
    | none => Prog.stuck

/-! ## Programs -/

/-- An argument of `push_back`: an object of the caller, or `u[i]`. -/
inductive Arg (T : Type) where
  | object (x : T)
  | element (u i : ℕ)

/-- One statement of a program that uses vectors. -/
inductive Op (T : Type) where
  | construct (v : ℕ)
  | destruct (v : ℕ)
  | copyConstruct (v other : ℕ)
  | copyAssign (v other : ℕ)
  | moveConstruct (v other : ℕ)
  | moveAssign (v other : ℕ)
  | pushBack (v : ℕ) (arg : Arg T)
  | popBack (v : ℕ)
  | size (v : ℕ)
  | read (v i : ℕ)
  | write (v i : ℕ) (x : T)

/-- What a statement shows. -/
inductive Out (T : Type) where
  | done
  | number (n : ℕ)
  | value (x : T)

def evalArg : Arg T → Prog (World T) (Ref T)
  | .object x => pure (.object x)
  | .element u i => vectorAt u i

/-- `v[i] = x` through the reference that `operator[]` returned. -/
def storeRef (r : Ref T) (x : T) : Prog (World T) Unit :=
  match r with
  | .object _ => pure ()
  | .cell a i => storeCell (some a) i x

def step (op : Op T) : Prog (World T) (Out T) :=
  match op with
  | .construct v => do
    vectorConstruct M v
    pure .done
  | .destruct v => do
    vectorDestruct v
    pure .done
  | .copyConstruct v other => do
    vectorCopyConstruct M v other
    pure .done
  | .copyAssign v other => do
    vectorCopyAssign M v other
    pure .done
  | .moveConstruct v other => do
    vectorMoveConstruct v other
    pure .done
  | .moveAssign v other => do
    vectorMoveAssign v other
    pure .done
  | .pushBack v arg => do
    let r ← evalArg arg
    vectorPushBack M v r
    pure .done
  | .popBack v => do
    vectorPopBack v
    pure .done
  | .size v => do
    let n ← vectorSize v
    pure (.number n)
  | .read v i => do
    let r ← vectorAt v i
    let x ← deref r
    pure (.value x)
  | .write v i x => do
    let r ← vectorAt v i
    storeRef r x
    pure .done

/-- The objects a statement names exist, and those it constructs do not. -/
def Op.Defined (op : Op T) (live : ℕ → Prop) : Prop :=
  match op with
  | .construct v => ¬live v
  | .copyConstruct v other => ¬live v ∧ live other
  | .moveConstruct v other => ¬live v ∧ live other
  | .copyAssign v other => live v ∧ live other
  | .moveAssign v other => live v ∧ live other
  | .pushBack v (.element u _) => live v ∧ live u
  | .pushBack v (.object _) => live v
  | .destruct v => live v
  | .popBack v => live v
  | .size v => live v
  | .read v _ => live v
  | .write v _ _ => live v

end Borgos.Libcpp
