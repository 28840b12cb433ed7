import Borgos.Foundations.Outcome
import Borgos.Mem.Layout

/-! # The UHCI transfer queues

The driver keeps eleven queue heads in a horizontal chain, one for each kind of transfer. The first transfer of such a
queue hangs off the top queue head's `element_link`, each further one off the `head_link` of the one before it. A link
is the 32-bit physical address of a queue head with the flag `UHCI_QH_Q`, or 1 where the queue ends.
-/
namespace Borgos.Usb
open Borgos.Foundations Borgos.Mem
set_option autoImplicit false

def uhciQhPtrMask : ℕ := 0xFFFFFFF0
def uhciQhQ : ℕ := 0x00000002
def uhciQhT : ℕ := 0x00000001

/-- `QSLOTS`. -/
def qslots : ℕ := 11

/-- The links of `struct uhci_qh`. -/
structure UhciQh where
  headLink : ℕ
  elementLink : ℕ
  parentQh : ℕ
deriving DecidableEq

/-- The queue heads, by their virtual address. -/
def QhMem := ℕ → UhciQh

namespace QhMem

def set (m : QhMem) (a : ℕ) (qh : UhciQh) : QhMem := Function.update m a qh

def setHeadLink (m : QhMem) (a link : ℕ) : QhMem := m.set a { m a with headLink := link % 2 ^ 32 }

def setElementLink (m : QhMem) (a link : ℕ) : QhMem := m.set a { m a with elementLink := link % 2 ^ 32 }

def setParentQh (m : QhMem) (a phys : ℕ) : QhMem := m.set a { m a with parentQh := phys % 2 ^ 32 }

section Fields
variable (m : QhMem) (a b n : ℕ) (qh : UhciQh)

theorem set_apply : m.set a qh b = if b = a then qh else m b := Function.update_apply m a qh b

@[simp] theorem setHeadLink_headLink :
    (m.setHeadLink a n b).headLink = if b = a then n % 2 ^ 32 else (m b).headLink := by
  unfold setHeadLink
  rw [set_apply]
  split <;> rfl

@[simp] theorem setHeadLink_elementLink : (m.setHeadLink a n b).elementLink = (m b).elementLink := by
  unfold setHeadLink
  rw [set_apply]
  split <;> simp_all

@[simp] theorem setHeadLink_parentQh : (m.setHeadLink a n b).parentQh = (m b).parentQh := by
  unfold setHeadLink
  rw [set_apply]
  split <;> simp_all

@[simp] theorem setElementLink_headLink : (m.setElementLink a n b).headLink = (m b).headLink := by
  unfold setElementLink
  rw [set_apply]
  split <;> simp_all

@[simp] theorem setElementLink_elementLink :
    (m.setElementLink a n b).elementLink = if b = a then n % 2 ^ 32 else (m b).elementLink := by
  unfold setElementLink
  rw [set_apply]
  split <;> rfl

@[simp] theorem setElementLink_parentQh : (m.setElementLink a n b).parentQh = (m b).parentQh := by
  unfold setElementLink
  rw [set_apply]
  split <;> simp_all

@[simp] theorem setParentQh_headLink : (m.setParentQh a n b).headLink = (m b).headLink := by
  unfold setParentQh
  rw [set_apply]
  split <;> simp_all

@[simp] theorem setParentQh_elementLink : (m.setParentQh a n b).elementLink = (m b).elementLink := by
  unfold setParentQh
  rw [set_apply]
  split <;> simp_all

@[simp] theorem setParentQh_parentQh :
    (m.setParentQh a n b).parentQh = if b = a then n % 2 ^ 32 else (m b).parentQh := by
  unfold setParentQh
  rw [set_apply]
  split <;> rfl

end Fields
end QhMem

/-- `P2V(link & UHCI_QH_PTR_MASK)`. -/
def qhOfLink (link : ℕ) : ℕ := p2v (link &&& uhciQhPtrMask)

/-- The first loop of `uhcihcd_setup_schedule`: all queues are empty. -/
def clearTops (queue : ℕ → ℕ) (m : QhMem) : QhMem :=
  (List.range qslots).foldl
    (fun m i => m.set (queue i) { m (queue i) with headLink := uhciQhT, elementLink := uhciQhT }) m

/-- Its second loop: each top queue head is linked to the next one. -/
def linkTops (queue : ℕ → ℕ) (m : QhMem) : QhMem :=
  (List.range (qslots - 1)).foldl (fun m i => m.setHeadLink (queue i) (v2p (queue (i + 1)) ||| uhciQhQ)) m

/-! ## `uhcihcd_insertTransferQH` -/

/-- The search for the end of the queue; `left` is `11 - i`, the rounds that remain before the panic. -/
def insertLoop : ℕ → ℕ → Prog QhMem ℕ
  | left, curQH => do
    let m ← Prog.get
    if (m curQH).headLink ≠ 1 then
      match left with
      | 0 => Prog.panic "10"
      | left + 1 => insertLoop left (qhOfLink (m curQH).headLink)
    else pure curQH

def uhcihcdInsertTransferQH (qhTransfer qhTop : ℕ) : Prog QhMem Unit := do
  let m ← Prog.get
  if (m qhTop).elementLink = 1 then do
    Prog.modify fun m => m.setParentQh qhTransfer (v2p qhTop)
    Prog.modify fun m => m.setElementLink qhTop (v2p qhTransfer ||| uhciQhQ)
  else do
    let curQH ← insertLoop 11 (qhOfLink (m qhTop).elementLink)
    Prog.modify fun m => m.setParentQh qhTransfer (v2p qhTop)
    Prog.modify fun m => m.setHeadLink curQH (v2p qhTransfer ||| uhciQhQ)

/-! ## `uhcihcd_removeTransferQH` -/

/-- The search for the queue head before `qh`. The loop has no bound of its own: `fuel` rounds that do not find `qh`
are taken for a loop without an end. -/
def removeLoop (qh : ℕ) : ℕ → ℕ → ℕ → Prog QhMem ℕ
  | fuel, prevQH, curQH => do
    let m ← Prog.get
    if curQH ≠ qh then
      match fuel with
      | 0 => Prog.stuck
      | fuel + 1 => removeLoop qh fuel curQH (qhOfLink (m curQH).headLink)
    else pure prevQH

def uhcihcdRemoveTransferQH (fuel qh : ℕ) : Prog QhMem Unit := do
  let m ← Prog.get
  let qhTop := p2v (m qh).parentQh
  let curQH := qhOfLink (m qhTop).elementLink
  if curQH = qh then Prog.modify fun m => m.setElementLink qhTop (m curQH).headLink
  else do
    let prevQH ← removeLoop qh fuel curQH curQH
    Prog.modify fun m => m.setHeadLink prevQH (m qh).headLink

/-! ## Runs -/

/-- What happens to the queues. `insert` starts from the queue head as its allocation and the submitting function left
it; `advance` is the controller moving a queued transfer to its next transfer descriptor. -/
inductive QueueOp where
  | insert (qh : ℕ) (content : UhciQh) (slot : ℕ)
  | remove (qh : ℕ)
  | advance (qh link : ℕ)

def QueueOp.run (queue : ℕ → ℕ) (fuel : ℕ) : QueueOp → Prog QhMem Unit
  | .insert qh content slot => do
    Prog.modify fun m => m.set qh content
    uhcihcdInsertTransferQH qh (queue slot)
  | .remove qh => uhcihcdRemoveTransferQH fuel qh
  | .advance qh link => Prog.modify fun m => m.setElementLink qh link

def runQueueOps (queue : ℕ → ℕ) (fuel : ℕ) : List QueueOp → Prog QhMem Unit
  | [] => pure ()
  | op :: ops => do
    op.run queue fuel
    runQueueOps queue fuel ops

end Borgos.Usb
