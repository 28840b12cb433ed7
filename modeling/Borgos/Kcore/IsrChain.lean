import Borgos.Foundations.Chain
import Borgos.Kcore.Spinlock

/-! # `irq.c`: the chains of handlers

Drivers register handlers on some CPUs while others walk the chains: `irq_add_irq_handler` takes the lock of the chain,
and `irq_process_irq` does not. Both are here access by access, in the order of the program. What `irq_save` and
`irq_restore` do around the lock concerns the caller's own CPU and is left out, and so is what a handler answers:
nothing depends on it.
-/
namespace Borgos.Kcore
open Borgos.Foundations Interleaving
set_option autoImplicit false

/-- A call of one of the two functions, with the block `kmalloc` has given to the first one. -/
inductive IsrCall where
  | irqAddIrqHandler (isrno h fn ctx : ℕ)
  | irqProcessIrq (isrno : ℕ)
deriving DecidableEq

namespace IsrCall

def isrno : IsrCall → ℕ
  | irqAddIrqHandler isrno _ _ _ => isrno
  | irqProcessIrq isrno => isrno

def adds : IsrCall → Prop
  | irqAddIrqHandler .. => True
  | irqProcessIrq _ => False

def node : IsrCall → ℕ
  | irqAddIrqHandler _ h _ _ => h
  | irqProcessIrq _ => 0

/-- The function to call, and what with. -/
def handler : IsrCall → ℕ × ℕ
  | irqAddIrqHandler _ _ fn ctx => (fn, ctx)
  | irqProcessIrq _ => (0, 0)

end IsrCall

/-- `isr_chain_lock`, `isr_chain` and the fields of the `irq_handler_t`. -/
structure IsrState where
  lock : ℕ → LockByte
  chain : ℕ → ℕ
  fn : ℕ → ℕ
  ctx : ℕ → ℕ
  next : ℕ → ℕ

/-- Where a call stands. -/
inductive IsrPoint where
  | start
  /-- Before `h->ctx = ctx`. -/
  | storeCtx
  | lock (pt : SpinPoint)
  | loadHead
  /-- Before `h->next = isr_chain[isrno]`, with the value that has been loaded. -/
  | storeNext (head : ℕ)
  | storeHead
  | unlock (pt : SpinPoint)
  | added
  /-- Before `while (h)`, with the calls that have been made. -/
  | test (h : ℕ) (called : List (ℕ × ℕ))
  | loadFn (h : ℕ) (called : List (ℕ × ℕ))
  | loadCtx (h fn : ℕ) (called : List (ℕ × ℕ))
  | loadNext (h : ℕ) (called : List (ℕ × ℕ))
  | processed (called : List (ℕ × ℕ))

structure IsrThread where
  call : IsrCall
  point : IsrPoint

/-- One access. -/
def IsrPoint.exec (c : IsrCall) (s : IsrState) : IsrPoint → IsrPoint × IsrState
  | .start =>
    match c with
    | .irqAddIrqHandler _ h fn _ => (.storeCtx, { s with fn := Function.update s.fn h fn })
    | .irqProcessIrq isrno => (.test (s.chain isrno) [], s)
  | .storeCtx => (.lock .trylock, { s with ctx := Function.update s.ctx c.node c.handler.2 })
  | .lock pt =>
    let r := pt.exec (s.lock c.isrno)
    (r.1.elim .loadHead .lock, { s with lock := Function.update s.lock c.isrno r.2 })
  | .loadHead => (.storeNext (s.chain c.isrno), s)
  | .storeNext head => (.storeHead, { s with next := Function.update s.next c.node head })
  | .storeHead => (.unlock .test, { s with chain := Function.update s.chain c.isrno c.node })
  | .unlock pt =>
    let r := pt.exec (s.lock c.isrno)
    (r.1.elim .added .unlock, { s with lock := Function.update s.lock c.isrno r.2 })
  | .added => (.added, s)
  | .test h called => (if h = 0 then .processed called else .loadFn h called, s)
  | .loadFn h called => (.loadCtx h (s.fn h) called, s)
  | .loadCtx h fn called => (.loadNext h (called ++ [(fn, s.ctx h)]), s)
  | .loadNext h called => (.test (s.next h) called, s)
  | .processed called => (.processed called, s)

variable {A : Type} [DecidableEq A]

inductive IsrMove (a : A) (l : IsrThread) (s : IsrState) : IsrThread → IsrState → Prop
  | exec : IsrMove a l s ⟨l.call, (l.point.exec l.call s).1⟩ (l.point.exec l.call s).2

/-! ## The invariant -/

namespace IsrPoint

/-- Between the two calls of the lock functions. -/
def locked : IsrPoint → Prop
  | .loadHead | .storeNext _ | .storeHead | .unlock _ => True
  | _ => False

/-- The handler is in its chain. -/
def registered : IsrPoint → Prop
  | .unlock _ | .added => True
  | _ => False

/-- The calls a walk has made. -/
def called : IsrPoint → List (ℕ × ℕ)
  | .test _ called | .loadFn _ called | .loadCtx _ _ called | .loadNext _ called | .processed called => called
  | _ => []

/-- What a registering call knows. -/
def Fits (c : IsrCall) (s : IsrState) : IsrPoint → Prop
  | .start => True
  | .storeCtx => c.adds ∧ s.fn c.node = c.handler.1
  | .lock pt => c.adds ∧ (s.fn c.node, s.ctx c.node) = c.handler ∧ pt.locking
  | .loadHead => c.adds ∧ (s.fn c.node, s.ctx c.node) = c.handler
  | .storeNext head => c.adds ∧ (s.fn c.node, s.ctx c.node) = c.handler ∧ head = s.chain c.isrno
  | .storeHead => c.adds ∧ (s.fn c.node, s.ctx c.node) = c.handler ∧ s.next c.node = s.chain c.isrno
  | .unlock pt => c.adds ∧ (s.fn c.node, s.ctx c.node) = c.handler ∧ pt.unlocking
  | .added => c.adds ∧ (s.fn c.node, s.ctx c.node) = c.handler
  | .test _ _ | .loadFn _ _ | .loadCtx _ _ _ | .loadNext _ _ | .processed _ => ¬c.adds

end IsrPoint

def IsrThread.inside (l : IsrThread) (isrno : ℕ) : Prop := l.call.isrno = isrno ∧ l.point.locked

def chainTaken (s : IsrState) (isrno : ℕ) : Prop := s.lock isrno ≠ spinUnlocked

theorem chainTaken_setLock (s : IsrState) (isrno : ℕ) (lock : LockByte) :
    chainTaken { s with lock := Function.update s.lock isrno lock } isrno ↔ lock ≠ spinUnlocked := by
  simp [chainTaken]

/-- Each registration has a block of its own. -/
structure OwnNodes (call : A → IsrCall) : Prop where
  ne_null : ∀ a, (call a).adds → (call a).node ≠ 0
  inj : ∀ a b, (call a).adds → (call b).adds → (call a).node = (call b).node → a = b

/-- `reg` has the registrations of each chain, the last one first. -/
structure IsrInv (call : A → IsrCall) (reg : ℕ → List A) (x : Config A IsrThread IsrState) : Prop where
  calls : ∀ a, (x.thread a).call = call a
  exclusive : Exclusive IsrThread.inside chainTaken x
  fits : ∀ a, (x.thread a).point.Fits (call a) x.shared
  nodup : ∀ v, (reg v).Nodup
  mem_iff : ∀ v a, a ∈ reg v ↔ (call a).isrno = v ∧ (x.thread a).point.registered
  chained : ∀ v, Chained x.shared.next 0 (x.shared.chain v) ((reg v).map fun a => (call a).node)

/-- What a step may do to the other blocks. -/
structure OwnBlock (n : ℕ) (s s' : IsrState) : Prop where
  fn : ∀ m, m ≠ n → s'.fn m = s.fn m
  ctx : ∀ m, m ≠ n → s'.ctx m = s.ctx m
  next : ∀ m, m ≠ n → s'.next m = s.next m

theorem OwnBlock.refl (n : ℕ) (s : IsrState) : OwnBlock n s s := ⟨fun _ _ => rfl, fun _ _ => rfl, fun _ _ => rfl⟩

theorem IsrPoint.Fits.frame {c : IsrCall} {n : ℕ} {s s' : IsrState} {pt : IsrPoint} (h : pt.Fits c s)
    (hblock : OwnBlock n s s') (hnode : c.adds → c.node ≠ n) (hchain : pt.locked → s'.chain c.isrno = s.chain c.isrno) :
    pt.Fits c s' := by
  have hfields : c.adds → (s'.fn c.node, s'.ctx c.node) = (s.fn c.node, s.ctx c.node) := by
    intro hc
    rw [hblock.fn _ (hnode hc), hblock.ctx _ (hnode hc)]
  cases pt with
  | start => trivial
  | storeCtx => exact ⟨h.1, (hblock.fn _ (hnode h.1)).trans h.2⟩
  | lock pt => exact ⟨h.1, (hfields h.1).trans h.2.1, h.2.2⟩
  | loadHead => exact ⟨h.1, (hfields h.1).trans h.2⟩
  | storeNext head => exact ⟨h.1, (hfields h.1).trans h.2.1, h.2.2.trans (hchain trivial).symm⟩
  | storeHead =>
    refine ⟨h.1, (hfields h.1).trans h.2.1, ?_⟩
    rw [hblock.next _ (hnode h.1), h.2.2, hchain trivial]
  | unlock pt => exact ⟨h.1, (hfields h.1).trans h.2.1, h.2.2⟩
  | added => exact ⟨h.1, (hfields h.1).trans h.2⟩
  | test _ _ => exact h
  | loadFn _ _ => exact h
  | loadCtx _ _ _ => exact h
  | loadNext _ _ => exact h
  | processed _ => exact h

/-- A step writes to no block but the caller's own. -/
theorem IsrPoint.exec_block (c : IsrCall) (s : IsrState) (pt : IsrPoint) : OwnBlock c.node s (pt.exec c s).2 := by
  have hupdate : ∀ (f : ℕ → ℕ) (v m : ℕ), m ≠ c.node → Function.update f c.node v m = f m :=
    fun f v m hm => Function.update_of_ne hm v f
  cases pt with
  | start =>
    cases c with
    | irqAddIrqHandler isrno h fn ctx => exact ⟨hupdate _ _, fun _ _ => rfl, fun _ _ => rfl⟩
    | irqProcessIrq isrno => exact .refl _ s
  | storeCtx => exact ⟨fun _ _ => rfl, hupdate _ _, fun _ _ => rfl⟩
  | storeNext head => exact ⟨fun _ _ => rfl, fun _ _ => rfl, hupdate _ _⟩
  | lock pt => exact ⟨fun _ _ => rfl, fun _ _ => rfl, fun _ _ => rfl⟩
  | storeHead => exact ⟨fun _ _ => rfl, fun _ _ => rfl, fun _ _ => rfl⟩
  | unlock pt => exact ⟨fun _ _ => rfl, fun _ _ => rfl, fun _ _ => rfl⟩
  | loadHead => exact .refl _ s
  | added => exact .refl _ s
  | test h called => exact .refl _ s
  | loadFn h called => exact .refl _ s
  | loadCtx h fn called => exact .refl _ s
  | loadNext h called => exact .refl _ s
  | processed called => exact .refl _ s

/-- After the handler is in its chain the call writes to no block at all, and the handler stays there. -/
theorem IsrPoint.exec_registered (c : IsrCall) (s : IsrState) {pt : IsrPoint} (h : pt.registered) :
    (pt.exec c s).1.registered ∧ (pt.exec c s).2.fn = s.fn ∧ (pt.exec c s).2.ctx = s.ctx ∧
    (pt.exec c s).2.next = s.next := by
  cases pt with
  | unlock pt =>
    refine ⟨?_, rfl, rfl, rfl⟩
    simp only [IsrPoint.exec]
    cases (pt.exec (s.lock c.isrno)).1 with
    | none => trivial
    | some pt' => trivial
  | added => exact ⟨trivial, rfl, rfl, rfl⟩
  | start => exact h.elim
  | storeCtx => exact h.elim
  | lock pt => exact h.elim
  | loadHead => exact h.elim
  | storeNext head => exact h.elim
  | storeHead => exact h.elim
  | test h' called => exact h.elim
  | loadFn h' called => exact h.elim
  | loadCtx h' fn called => exact h.elim
  | loadNext h' called => exact h.elim
  | processed called => exact h.elim

theorem IsrPoint.Fits.adds {c : IsrCall} {s : IsrState} {pt : IsrPoint} (h : pt.Fits c s) (hpt : pt.registered) :
    c.adds ∧ (s.fn c.node, s.ctx c.node) = c.handler := by
  cases pt with
  | unlock pt => exact ⟨h.1, h.2.1⟩
  | added => exact h
  | start => exact hpt.elim
  | storeCtx => exact hpt.elim
  | lock pt => exact hpt.elim
  | loadHead => exact hpt.elim
  | storeNext head => exact hpt.elim
  | storeHead => exact hpt.elim
  | test h' called => exact hpt.elim
  | loadFn h' called => exact hpt.elim
  | loadCtx h' fn called => exact hpt.elim
  | loadNext h' called => exact hpt.elim
  | processed called => exact hpt.elim

omit [DecidableEq A] in
theorem OwnNodes.ne_node {call : A → IsrCall} (h : OwnNodes call) {a b : A} (hba : b ≠ a) (hb : (call b).adds) :
    (call b).node ≠ (call a).node := by
  intro e
  cases ha : call a with
  | irqAddIrqHandler isrno n fn ctx => exact hba (h.inj b a hb (by rw [ha]; trivial) e)
  | irqProcessIrq isrno =>
    rw [ha] at e
    exact h.ne_null b hb e

namespace IsrInv
variable {call : A → IsrCall} {reg : ℕ → List A} {x : Config A IsrThread IsrState} {a b : A} {l : IsrPoint}
  {s : IsrState}

omit [DecidableEq A] in
theorem registered_of_mem (h : IsrInv call reg x) {v : ℕ} (hb : b ∈ reg v) : (x.thread b).point.registered :=
  ((h.mem_iff v b).mp hb).2

omit [DecidableEq A] in
theorem fields (h : IsrInv call reg x) (hb : (x.thread b).point.registered) :
    (call b).adds ∧ (x.shared.fn (call b).node, x.shared.ctx (call b).node) = (call b).handler :=
  (h.fits b).adds hb

/-- A step that leaves the heads of the chains. -/
theorem quiet (h : IsrInv call reg x) (hown : OwnNodes call)
    (hlock : ∀ k, Respects IsrThread.inside chainTaken k (x.thread a) x.shared ⟨call a, l⟩ s)
    (hchain : s.chain = x.shared.chain) (hblock : OwnBlock (call a).node x.shared s)
    (hnext : (x.thread a).point.registered → s.next = x.shared.next)
    (hreg : l.registered ↔ (x.thread a).point.registered) (hfits : l.Fits (call a) s) :
    IsrInv call reg (x.move a ⟨call a, l⟩ s) where
  calls := by
    intro b
    by_cases hba : b = a
    · subst hba
      rw [x.move_self]
    · rw [x.move_other _ _ hba]
      exact h.calls b
  exclusive := h.exclusive.step hlock
  fits := by
    intro b
    by_cases hba : b = a
    · subst hba
      rwa [x.move_self]
    · rw [x.move_other _ _ hba]
      exact (h.fits b).frame hblock (hown.ne_node hba) fun _ => by rw [x.move_shared, hchain]
  nodup := h.nodup
  mem_iff := by
    intro v b
    rw [h.mem_iff v b]
    by_cases hba : b = a
    · subst hba
      rw [x.move_self]
      exact and_congr_right fun _ => hreg.symm
    · rw [x.move_other _ _ hba]
  chained := by
    intro v
    rw [x.move_shared, hchain]
    refine (h.chained v).congr fun n hn => ?_
    obtain ⟨b, hb, rfl⟩ := List.mem_map.mp hn
    have hbreg := h.registered_of_mem hb
    by_cases hba : b = a
    · subst hba
      rw [hnext hbreg]
    · exact hblock.next _ (hown.ne_node hba (h.fields hbreg).1)

omit [DecidableEq A] in
/-- Only the lock of the caller's own chain needs a look. -/
theorem respects (h : IsrInv call reg x)
    (hown : Respects IsrThread.inside chainTaken (call a).isrno (x.thread a) x.shared ⟨call a, l⟩ s)
    (hother : ∀ k, k ≠ (call a).isrno → s.lock k = x.shared.lock k) (k : ℕ) :
    Respects IsrThread.inside chainTaken k (x.thread a) x.shared ⟨call a, l⟩ s := by
  by_cases hk : k = (call a).isrno
  · rw [hk]
    exact hown
  · refine .keep (iff_of_false (fun hin => hk hin.1.symm) fun hin => ?_) (by rw [chainTaken, chainTaken, hother k hk])
    rw [IsrThread.inside, h.calls a] at hin
    exact hk hin.1.symm

/-- A step that leaves the locks. -/
theorem quiet_unlocked (h : IsrInv call reg x) (hown : OwnNodes call) (hlock : s.lock = x.shared.lock)
    (hlocked : l.locked ↔ (x.thread a).point.locked) (hchain : s.chain = x.shared.chain)
    (hblock : OwnBlock (call a).node x.shared s) (hnext : (x.thread a).point.registered → s.next = x.shared.next)
    (hreg : l.registered ↔ (x.thread a).point.registered) (hfits : l.Fits (call a) s) :
    IsrInv call reg (x.move a ⟨call a, l⟩ s) := by
  refine h.quiet hown (h.respects (.keep ?_ ?_) fun k _ => congrFun hlock k) hchain hblock hnext hreg hfits
  · rw [IsrThread.inside, IsrThread.inside, h.calls a, hlocked]
  · rw [chainTaken, chainTaken, hlock]

/-- A step of a walk, which only reads. -/
theorem reads (h : IsrInv call reg x) (hown : OwnNodes call) (hlocked : l.locked ↔ (x.thread a).point.locked)
    (hreg : l.registered ↔ (x.thread a).point.registered) (hfits : l.Fits (call a) x.shared) :
    IsrInv call reg (x.move a ⟨call a, l⟩ x.shared) :=
  h.quiet_unlocked hown rfl hlocked rfl (.refl _ _) (fun _ => rfl) hreg hfits

theorem lock (h : IsrInv call reg x) (hown : OwnNodes call) {pt : SpinPoint} (ha : (x.thread a).point = .lock pt) :
    IsrInv call reg (x.move a ⟨call a, (IsrPoint.exec (call a) x.shared (.lock pt)).1⟩
      (IsrPoint.exec (call a) x.shared (.lock pt)).2) := by
  have hfits := h.fits a
  rw [ha] at hfits
  obtain ⟨hadds, hfields, hlocking⟩ := hfits
  have hblock := IsrPoint.exec_block (call a) x.shared (.lock pt)
  simp only [IsrPoint.exec] at hblock ⊢
  have haccess := pt.exec_locking hlocking (x.shared.lock (call a).isrno)
  generalize pt.exec (x.shared.lock (call a).isrno) = r at haccess hblock ⊢
  have hother : ∀ k, k ≠ (call a).isrno → Function.update x.shared.lock (call a).isrno r.2 k = x.shared.lock k :=
    fun k hk => Function.update_of_ne hk ..
  cases haccess with
  | got hfree =>
    refine h.quiet hown (h.respects (.acquire (fun htaken => htaken hfree) ?_ ⟨rfl, trivial⟩) hother) rfl hblock
      (fun _ => rfl) (by rw [ha]; exact Iff.rfl) ⟨hadds, hfields⟩
    exact (chainTaken_setLock ..).mpr spinLocked_ne
  | spin pt' lock' hpt' hsame =>
    refine h.quiet hown (h.respects (.keep ?_ ?_) hother) rfl hblock (fun _ => rfl) (by rw [ha]; exact Iff.rfl)
      ⟨hadds, hfields, hpt'⟩
    · rw [IsrThread.inside, IsrThread.inside, h.calls a, ha]
      exact Iff.rfl
    · exact (chainTaken_setLock ..).trans (not_congr hsame)

theorem unlock (h : IsrInv call reg x) (hown : OwnNodes call) {pt : SpinPoint} (ha : (x.thread a).point = .unlock pt) :
    IsrInv call reg (x.move a ⟨call a, (IsrPoint.exec (call a) x.shared (.unlock pt)).1⟩
      (IsrPoint.exec (call a) x.shared (.unlock pt)).2) := by
  have hfits := h.fits a
  rw [ha] at hfits
  obtain ⟨hadds, hfields, hunlocking⟩ := hfits
  have hin : (x.thread a).inside (call a).isrno := by
    rw [IsrThread.inside, h.calls a, ha]
    exact ⟨rfl, trivial⟩
  have htaken : x.shared.lock (call a).isrno ≠ spinUnlocked := (h.exclusive.taken_iff _).mpr ⟨a, hin⟩
  have hblock := IsrPoint.exec_block (call a) x.shared (.unlock pt)
  simp only [IsrPoint.exec] at hblock ⊢
  have haccess := pt.exec_unlocking hunlocking htaken
  generalize pt.exec (x.shared.lock (call a).isrno) = r at haccess hblock ⊢
  have hother : ∀ k, k ≠ (call a).isrno → Function.update x.shared.lock (call a).isrno r.2 k = x.shared.lock k :=
    fun k hk => Function.update_of_ne hk ..
  cases haccess with
  | test =>
    refine h.quiet hown (h.respects (.keep ⟨fun _ => hin, fun _ => ⟨rfl, trivial⟩⟩ ?_) hother) rfl hblock (fun _ => rfl)
      (by rw [ha]; exact Iff.rfl) ⟨hadds, hfields, .inr rfl⟩
    exact chainTaken_setLock ..
  | release =>
    refine h.quiet hown (h.respects (.release hin (fun hout => hout.2) ?_) hother) rfl hblock (fun _ => rfl)
      (by rw [ha]; exact Iff.rfl) ⟨hadds, hfields⟩
    exact fun htaken' => (chainTaken_setLock ..).mp htaken' rfl

/-- The handler is put in front of its chain. -/
theorem storeHead (h : IsrInv call reg x) (hown : OwnNodes call) (ha : (x.thread a).point = .storeHead) :
    IsrInv call (Function.update reg (call a).isrno (a :: reg (call a).isrno))
      (x.move a ⟨call a, .unlock .test⟩
        { x.shared with chain := Function.update x.shared.chain (call a).isrno (call a).node }) := by
  have hfits := h.fits a
  rw [ha] at hfits
  obtain ⟨hadds, hfields, hnext⟩ := hfits
  have hin : (x.thread a).inside (call a).isrno := by
    rw [IsrThread.inside, h.calls a, ha]
    exact ⟨rfl, trivial⟩
  have hout : ∀ v, a ∉ reg v := by
    intro v hav
    have hreg := h.registered_of_mem hav
    rw [ha] at hreg
    exact hreg
  constructor
  · intro b
    by_cases hba : b = a
    · subst hba
      rw [x.move_self]
    · rw [x.move_other _ _ hba]
      exact h.calls b
  · exact h.exclusive.step (h.respects (.keep ⟨fun _ => hin, fun _ => ⟨rfl, trivial⟩⟩ Iff.rfl) fun _ _ => rfl)
  · intro b
    by_cases hba : b = a
    · subst hba
      rw [x.move_self]
      exact ⟨hadds, hfields, .inl rfl⟩
    · rw [x.move_other _ _ hba]
      refine (h.fits b).frame (n := (call a).node) ⟨fun _ _ => rfl, fun _ _ => rfl, fun _ _ => rfl⟩ (hown.ne_node hba)
        fun hlocked => ?_
      refine Function.update_of_ne (fun e => hba ?_) ..
      exact h.exclusive.unique (call a).isrno b a ⟨(congrArg IsrCall.isrno (h.calls b)).trans e, hlocked⟩ hin
  · intro v
    by_cases hv : v = (call a).isrno
    · subst hv
      rw [Function.update_self]
      exact List.nodup_cons.mpr ⟨hout _, h.nodup _⟩
    · rw [Function.update_of_ne hv]
      exact h.nodup v
  · intro v b
    by_cases hv : v = (call a).isrno
    · subst hv
      rw [Function.update_self, List.mem_cons]
      by_cases hba : b = a
      · subst hba
        rw [x.move_self]
        exact iff_of_true (.inl rfl) ⟨rfl, trivial⟩
      · rw [x.move_other _ _ hba, h.mem_iff _ b]
        simp [hba]
    · rw [Function.update_of_ne hv]
      by_cases hba : b = a
      · subst hba
        exact iff_of_false (hout v) fun hb => hv hb.1.symm
      · rw [x.move_other _ _ hba, h.mem_iff v b]
  · intro v
    show Chained x.shared.next 0 (Function.update x.shared.chain (call a).isrno (call a).node v) _
    by_cases hv : v = (call a).isrno
    · subst hv
      rw [Function.update_self, Function.update_self, List.map_cons]
      refine (h.chained _).push (hown.ne_null a hadds) ?_ hnext fun _ _ _ => rfl
      intro hmem
      obtain ⟨b, hb, e⟩ := List.mem_map.mp hmem
      obtain rfl := hown.inj b a (h.fields (h.registered_of_mem hb)).1 hadds e
      exact hout _ hb
    · rw [Function.update_of_ne hv, Function.update_of_ne hv]
      exact h.chained v

theorem start (h : IsrInv call reg x) (hown : OwnNodes call) (ha : (x.thread a).point = .start) :
    IsrInv call reg (x.move a ⟨call a, (IsrPoint.exec (call a) x.shared .start).1⟩
      (IsrPoint.exec (call a) x.shared .start).2) := by
  have hblock := IsrPoint.exec_block (call a) x.shared .start
  cases hc : call a with
  | irqAddIrqHandler isrno n fn ctx =>
    rw [hc] at hblock
    have hfits : IsrPoint.storeCtx.Fits (call a) (IsrPoint.exec (call a) x.shared .start).2 := by
      rw [hc]
      exact ⟨trivial, Function.update_self ..⟩
    have hquiet := h.quiet_unlocked (a := a) (l := .storeCtx)
      (s := (IsrPoint.exec (.irqAddIrqHandler isrno n fn ctx) x.shared .start).2) hown rfl
        (by rw [ha]; exact Iff.rfl) rfl
      (by rwa [hc]) (fun _ => rfl) (by rw [ha]; exact Iff.rfl) (by rwa [hc] at hfits ⊢)
    rwa [hc] at hquiet
  | irqProcessIrq isrno =>
    have hquiet := h.reads (a := a) (l := .test (x.shared.chain isrno) []) hown (by rw [ha]; exact Iff.rfl)
      (by rw [ha]; exact Iff.rfl) (by rw [hc]; exact id)
    rwa [hc] at hquiet

/-- The stores to the block, which no other call reads yet. -/
theorem stores (h : IsrInv call reg x) (hown : OwnNodes call) (hlock : s.lock = x.shared.lock)
    (hchain : s.chain = x.shared.chain) (hblock : OwnBlock (call a).node x.shared s)
    (hlocked : l.locked ↔ (x.thread a).point.locked) (hout : ¬(x.thread a).point.registered) (hreg : ¬l.registered)
    (hfits : l.Fits (call a) s) : IsrInv call reg (x.move a ⟨call a, l⟩ s) :=
  h.quiet_unlocked hown hlock hlocked hchain hblock (fun hin => absurd hin hout) (iff_of_false hreg hout) hfits

/-- What `reg` is after a step of `a`. -/
def regAfter (call : A → IsrCall) (reg : ℕ → List A) (a : A) : IsrPoint → ℕ → List A
  | .storeHead => Function.update reg (call a).isrno (a :: reg (call a).isrno)
  | _ => reg

theorem step (h : IsrInv call reg x) (hown : OwnNodes call) {l : IsrThread}
    (hmove : IsrMove a (x.thread a) x.shared l s) :
    IsrInv call (regAfter call reg a (x.thread a).point) (x.move a l s) := by
  obtain ⟨⟩ := hmove
  rw [h.calls a]
  have hfits := h.fits a
  have hblock := (x.thread a).point.exec_block (call a) x.shared
  cases ha : (x.thread a).point with
  | start => exact h.start hown ha
  | storeCtx =>
    rw [ha] at hfits hblock
    refine h.stores hown rfl rfl hblock (by rw [ha]; exact Iff.rfl) (by rw [ha]; exact id) id ⟨hfits.1, ?_, .inl rfl⟩
    simp only [IsrPoint.exec, Function.update_self, hfits.2]
  | lock pt => exact h.lock hown ha
  | loadHead =>
    rw [ha] at hfits
    exact h.reads hown (by rw [ha]; exact Iff.rfl) (by rw [ha]; exact Iff.rfl) ⟨hfits.1, hfits.2, rfl⟩
  | storeNext head =>
    rw [ha] at hfits hblock
    refine h.stores hown rfl rfl hblock (by rw [ha]; exact Iff.rfl) (by rw [ha]; exact id) id
      ⟨hfits.1, hfits.2.1, ?_⟩
    exact (Function.update_self ..).trans hfits.2.2
  | storeHead => exact h.storeHead hown ha
  | unlock pt => exact h.unlock hown ha
  | added =>
    rw [ha] at hfits
    exact h.reads hown (by rw [ha]; exact Iff.rfl) (by rw [ha]; exact Iff.rfl) hfits
  | test n called =>
    rw [ha] at hfits
    simp only [IsrPoint.exec]
    split
    · exact h.reads hown (by rw [ha]; exact Iff.rfl) (by rw [ha]; exact Iff.rfl) hfits
    · exact h.reads hown (by rw [ha]; exact Iff.rfl) (by rw [ha]; exact Iff.rfl) hfits
  | loadFn n called =>
    rw [ha] at hfits
    exact h.reads hown (by rw [ha]; exact Iff.rfl) (by rw [ha]; exact Iff.rfl) hfits
  | loadCtx n fn called =>
    rw [ha] at hfits
    exact h.reads hown (by rw [ha]; exact Iff.rfl) (by rw [ha]; exact Iff.rfl) hfits
  | loadNext n called =>
    rw [ha] at hfits
    exact h.reads hown (by rw [ha]; exact Iff.rfl) (by rw [ha]; exact Iff.rfl) hfits
  | processed called =>
    rw [ha] at hfits
    exact h.reads hown (by rw [ha]; exact Iff.rfl) (by rw [ha]; exact Iff.rfl) hfits

theorem run (h : IsrInv call reg x) (hown : OwnNodes call) {y : Config A IsrThread IsrState} (hrun : Run IsrMove x y) :
    ∃ reg', IsrInv call reg' y :=
  hrun.invariant (I := fun z => ∃ reg', IsrInv call reg' z) (fun _ _ _ _ ⟨_, hz⟩ hmove => ⟨_, hz.step hown hmove⟩)
    ⟨reg, h⟩

/-- A handler that is in its chain stays there, and nobody writes to its block. -/
theorem kept (h : IsrInv call reg x) (hown : OwnNodes call) (hb : (x.thread b).point.registered) {l : IsrThread}
    (hmove : IsrMove a (x.thread a) x.shared l s) :
    ((x.move a l s).thread b).point.registered ∧ s.fn (call b).node = x.shared.fn (call b).node ∧
      s.ctx (call b).node = x.shared.ctx (call b).node ∧ s.next (call b).node = x.shared.next (call b).node := by
  obtain ⟨⟩ := hmove
  rw [h.calls a]
  by_cases hba : b = a
  · subst hba
    obtain ⟨hreg, hfn, hctx, hnext⟩ := IsrPoint.exec_registered (call b) x.shared hb
    rw [x.move_self, hfn, hctx, hnext]
    exact ⟨hreg, rfl, rfl, rfl⟩
  · have hblock := (x.thread a).point.exec_block (call a) x.shared
    have hne := hown.ne_node hba (h.fields hb).1
    rw [x.move_other _ _ hba]
    exact ⟨hb, hblock.fn _ hne, hblock.ctx _ hne, hblock.next _ hne⟩

end IsrInv

/-! ## A walk -/

/-- A walk has called `done` and stands at `h`, the first of `rest`. -/
structure Reached (call : A → IsrCall) (s : IsrState) (l : List A) (h : ℕ) (called : List (ℕ × ℕ))
    (done rest : List A) :
    Prop where
  split : l = done ++ rest
  called : called = done.map fun b => (call b).handler
  chained : Chained s.next 0 h (rest.map fun b => (call b).node)

/-- A walk along `l`. -/
def Walks (call : A → IsrCall) (s : IsrState) (l : List A) : IsrPoint → Prop
  | .test h called => ∃ done rest, Reached call s l h called done rest
  | .loadFn h called => ∃ done b rest, Reached call s l h called done (b :: rest)
  | .loadCtx h fn called => ∃ done b rest, Reached call s l h called done (b :: rest) ∧ fn = s.fn h
  | .loadNext h called =>
      ∃ done b rest before, Reached call s l h before done (b :: rest) ∧ called = before ++ [(call b).handler]
  | .processed called => called = l.map fun b => (call b).handler
  | _ => False

section Walk
variable {call : A → IsrCall} {s s' : IsrState} {l done rest : List A} {h : ℕ} {called : List (ℕ × ℕ)}

omit [DecidableEq A] in
theorem Reached.frame (hr : Reached call s l h called done rest)
    (hsame : ∀ b ∈ l, s'.next (call b).node = s.next (call b).node) : Reached call s' l h called done rest := by
  refine ⟨hr.split, hr.called, hr.chained.congr fun n hn => ?_⟩
  obtain ⟨b, hb, rfl⟩ := List.mem_map.mp hn
  refine hsame b ?_
  rw [hr.split]
  exact List.mem_append_right done hb

omit [DecidableEq A] in
theorem Walks.frame {pt : IsrPoint} (hw : Walks call s l pt)
    (hnext : ∀ b ∈ l, s'.next (call b).node = s.next (call b).node)
    (hfn : ∀ b ∈ l, s'.fn (call b).node = s.fn (call b).node) : Walks call s' l pt := by
  cases pt with
  | test h called =>
    obtain ⟨done, rest, hr⟩ := hw
    exact ⟨done, rest, hr.frame hnext⟩
  | loadFn h called =>
    obtain ⟨done, b, rest, hr⟩ := hw
    exact ⟨done, b, rest, hr.frame hnext⟩
  | loadCtx h fn called =>
    obtain ⟨done, b, rest, hr, rfl⟩ := hw
    refine ⟨done, b, rest, hr.frame hnext, ?_⟩
    have hb : b ∈ l := by
      rw [hr.split]
      simp
    rw [show h = (call b).node from hr.chained.1, hfn b hb]
  | loadNext h called =>
    obtain ⟨done, b, rest, before, hr, hcalled⟩ := hw
    exact ⟨done, b, rest, before, hr.frame hnext, hcalled⟩
  | processed called => exact hw
  | start => exact hw.elim
  | storeCtx => exact hw.elim
  | lock pt => exact hw.elim
  | loadHead => exact hw.elim
  | storeNext head => exact hw.elim
  | storeHead => exact hw.elim
  | unlock pt => exact hw.elim
  | added => exact hw.elim

omit [DecidableEq A] in
/-- A step of the walk itself. -/
theorem Walks.exec {c : IsrCall} {pt : IsrPoint} (hw : Walks call s l pt)
    (hfields : ∀ b ∈ l, (s.fn (call b).node, s.ctx (call b).node) = (call b).handler) :
    Walks call (pt.exec c s).2 l (pt.exec c s).1 := by
  cases pt with
  | test h called =>
    obtain ⟨done, rest, hr⟩ := hw
    by_cases hh : h = 0
    · have hrest : rest = [] := by
        cases rest with
        | nil => rfl
        | cons b rest => exact absurd (hr.chained.1.symm.trans hh) hr.chained.2.1
      simp only [IsrPoint.exec, if_pos hh]
      rw [Walks, hr.split, hrest, List.append_nil, hr.called]
    · simp only [IsrPoint.exec, if_neg hh]
      cases rest with
      | nil => exact absurd hr.chained hh
      | cons b rest => exact ⟨done, b, rest, hr⟩
  | loadFn h called =>
    obtain ⟨done, b, rest, hr⟩ := hw
    exact ⟨done, b, rest, hr, rfl⟩
  | loadCtx h fn called =>
    obtain ⟨done, b, rest, hr, rfl⟩ := hw
    refine ⟨done, b, rest, called, hr, ?_⟩
    have hb : b ∈ l := by
      rw [hr.split]
      simp
    rw [← hfields b hb, show h = (call b).node from hr.chained.1]
  | loadNext h called =>
    obtain ⟨done, b, rest, before, hr, rfl⟩ := hw
    refine ⟨done ++ [b], rest, ?_, ?_, ?_⟩
    · rw [hr.split, List.append_assoc]
      rfl
    · rw [hr.called, List.map_append]
      rfl
    · show Chained s.next 0 (s.next h) _
      rw [show h = (call b).node from hr.chained.1]
      exact hr.chained.2.2
  | processed called => exact hw
  | start => exact hw.elim
  | storeCtx => exact hw.elim
  | lock pt => exact hw.elim
  | loadHead => exact hw.elim
  | storeNext head => exact hw.elim
  | storeHead => exact hw.elim
  | unlock pt => exact hw.elim
  | added => exact hw.elim

omit [DecidableEq A] in
theorem Walks.called_prefix {pt : IsrPoint} (hw : Walks call s l pt) :
    pt.called <+: l.map fun b => (call b).handler := by
  cases pt with
  | test h called =>
    obtain ⟨done, rest, hr⟩ := hw
    rw [hr.split, List.map_append]
    exact ⟨_, congrArg (· ++ _) hr.called⟩
  | loadFn h called =>
    obtain ⟨done, b, rest, hr⟩ := hw
    rw [hr.split, List.map_append]
    exact ⟨_, congrArg (· ++ _) hr.called⟩
  | loadCtx h fn called =>
    obtain ⟨done, b, rest, hr, -⟩ := hw
    rw [hr.split, List.map_append]
    exact ⟨_, congrArg (· ++ _) hr.called⟩
  | loadNext h called =>
    obtain ⟨done, b, rest, before, hr, rfl⟩ := hw
    refine ⟨rest.map fun b => (call b).handler, ?_⟩
    rw [IsrPoint.called, hr.split, hr.called]
    simp
  | processed called =>
    rw [show called = l.map fun b => (call b).handler from hw]
    exact List.prefix_refl _
  | start => exact hw.elim
  | storeCtx => exact hw.elim
  | lock pt => exact hw.elim
  | loadHead => exact hw.elim
  | storeNext head => exact hw.elim
  | storeHead => exact hw.elim
  | unlock pt => exact hw.elim
  | added => exact hw.elim

/-- A walk along handlers that are in their chain, while calls of both functions run. -/
theorem Walks.run {x y : Config A IsrThread IsrState} {reg : ℕ → List A} {a : A} (hown : OwnNodes call)
    (hinv : IsrInv call reg x) (hl : ∀ b ∈ l, (x.thread b).point.registered)
    (hw : Walks call x.shared l (x.thread a).point) (hrun : Run IsrMove x y) :
    Walks call y.shared l (y.thread a).point := by
  have hall := hrun.invariant
    (I := fun z => (∃ reg, IsrInv call reg z) ∧ (∀ b ∈ l, (z.thread b).point.registered) ∧
      Walks call z.shared l (z.thread a).point) ?_ ⟨⟨reg, hinv⟩, hl, hw⟩
  · exact hall.2.2
  · rintro z c t s' ⟨⟨reg', hz⟩, hreg, hwalk⟩ hmove
    have hkept := fun b hb => hz.kept hown (hreg b hb) hmove
    refine ⟨⟨_, hz.step hown hmove⟩, fun b hb => (hkept b hb).1, ?_⟩
    by_cases hac : a = c
    · subst hac
      obtain ⟨⟩ := hmove
      rw [z.move_self]
      exact hwalk.exec fun b hb => (hz.fields (hreg b hb)).2
    · rw [z.move_other _ _ hac]
      exact hwalk.frame (fun b hb => (hkept b hb).2.2.2) fun b hb => (hkept b hb).2.1

end Walk

/-- After `irq_inithandlers`, before any call. -/
structure IsrStart (call : A → IsrCall) (x : Config A IsrThread IsrState) : Prop where
  thread : ∀ a, x.thread a = ⟨call a, .start⟩
  chain : ∀ v, x.shared.chain v = 0
  lock : ∀ v, x.shared.lock v = spinUnlocked

omit [DecidableEq A] in
theorem IsrStart.inv {call : A → IsrCall} {x : Config A IsrThread IsrState} (h : IsrStart call x) :
    IsrInv call (fun _ => []) x where
  calls a := by rw [h.thread a]
  exclusive := by
    have hnone : ∀ v a, ¬(x.thread a).inside v := fun v a => by
      rw [h.thread a]
      exact fun hin => hin.2
    exact ⟨fun v a _ ha _ => absurd ha (hnone v a),
      fun v => ⟨fun htaken => absurd (h.lock v) htaken, fun ⟨a, ha⟩ => absurd ha (hnone v a)⟩⟩
  fits a := by
    rw [h.thread a]
    trivial
  nodup _ := List.nodup_nil
  mem_iff v a := by
    rw [h.thread a]
    exact iff_of_false List.not_mem_nil fun hreg => hreg.2
  chained v := h.chain v

/-- Registrations and interrupts at the same time. Each chain has the handlers that have been registered for it, each
once, with what they were registered with. And whatever is registered meanwhile, an interrupt makes the calls of the
handlers that are in the chain when it reads its head, one after the other, the last registered first. -/
theorem irq_process_irq_snapshot {call : A → IsrCall} (hown : OwnNodes call) {x y : Config A IsrThread IsrState}
    (hstart : IsrStart call x) (hrun : Run IsrMove x y) :
    ∃ reg : ℕ → List A,
      (∀ v a, a ∈ reg v ↔ (call a).isrno = v ∧ (y.thread a).point.registered) ∧
      (∀ v, (reg v).Nodup ∧ Chained y.shared.next 0 (y.shared.chain v) ((reg v).map fun a => (call a).node)) ∧
      (∀ v, ∀ a ∈ reg v, (y.shared.fn (call a).node, y.shared.ctx (call a).node) = (call a).handler) ∧
      ∀ a v l s z, call a = .irqProcessIrq v → (y.thread a).point = .start → IsrMove a (y.thread a) y.shared l s →
        Run IsrMove (y.move a l s) z →
        (z.thread a).point.called <+: (reg v).map (fun b => (call b).handler) ∧
        ∀ called, (z.thread a).point = .processed called → called = (reg v).map fun b => (call b).handler := by
  obtain ⟨reg, hinv⟩ := hstart.inv.run hown hrun
  refine ⟨reg, hinv.mem_iff, fun v => ⟨hinv.nodup v, hinv.chained v⟩,
    fun v a ha => (hinv.fields (hinv.registered_of_mem ha)).2, ?_⟩
  intro a v l s z hcall hpoint hmove hafter
  have hreg : ∀ b ∈ reg v, ((y.move a l s).thread b).point.registered :=
    fun b hb => (hinv.kept hown (hinv.registered_of_mem hb) hmove).1
  have hfirst : Walks call (y.move a l s).shared (reg v) ((y.move a l s).thread a).point := by
    obtain ⟨⟩ := hmove
    rw [y.move_self, y.move_shared, hinv.calls a, hpoint, hcall]
    exact ⟨[], reg v, rfl, rfl, hinv.chained v⟩
  have hwalk := hfirst.run hown (hinv.step hown hmove) hreg hafter
  refine ⟨hwalk.called_prefix, fun called hdone => ?_⟩
  rw [hdone] at hwalk
  exact hwalk

/-! ## Two registrations and an interrupt between them -/

inductive IsrTrio where
  | early
  | late
  | interrupt
deriving DecidableEq

/-- Both registrations are for the vector of the interrupt. -/
def isrTrio : IsrTrio → IsrCall
  | .early => .irqAddIrqHandler 33 100 7 8
  | .late => .irqAddIrqHandler 33 200 9 10
  | .interrupt => .irqProcessIrq 33

def isrTrioStart : Config IsrTrio IsrThread IsrState :=
  ⟨fun a => ⟨isrTrio a, .start⟩, ⟨fun _ => spinUnlocked, fun _ => 0, fun _ => 0, fun _ => 0, fun _ => 0⟩⟩

def isrExec (_ : IsrTrio) (l : IsrThread) (s : IsrState) : IsrThread × IsrState :=
  (⟨l.call, (l.point.exec l.call s).1⟩, (l.point.exec l.call s).2)

/-- The first handler is registered. -/
def isrTrioMid : Config IsrTrio IsrThread IsrState := isrTrioStart.follow isrExec (List.replicate 8 .early)

/-- The interrupt reads the head, the second handler is registered, and the interrupt goes on. -/
def isrTrioEnd : Config IsrTrio IsrThread IsrState :=
  isrTrioMid.follow isrExec (.interrupt :: List.replicate 8 .late ++ List.replicate 5 .interrupt)

theorem isrTrio_own : OwnNodes isrTrio where
  ne_null := by
    intro a
    cases a with
    | early => exact fun _ => by decide
    | late => exact fun _ => by decide
    | interrupt => exact fun h => h.elim
  inj := by
    intro a b ha hb hnode
    cases a with
    | early =>
      cases b with
      | early => rfl
      | late => exact absurd hnode (by decide)
      | interrupt => exact hb.elim
    | late =>
      cases b with
      | early => exact absurd hnode (by decide)
      | late => rfl
      | interrupt => exact hb.elim
    | interrupt => exact ha.elim

theorem isrTrioEnd_threads : isrTrioEnd.thread .late = ⟨isrTrio .late, .added⟩ ∧
    isrTrioEnd.thread .interrupt = ⟨isrTrio .interrupt, .processed [(7, 8)]⟩ := by
  simp [isrTrioEnd, isrTrioMid, isrTrioStart, Config.follow, Config.move, Function.update, isrExec, isrTrio,
    List.replicate, IsrPoint.exec, IsrCall.isrno, IsrCall.node, IsrCall.handler, SpinPoint.exec, cpuTrylock,
    afterTrylock, spinLocked_ne]

theorem irq_process_irq_snapshot_trio :
    (isrTrioMid.thread .early).point = .added ∧ isrTrioEnd.thread .late = ⟨isrTrio .late, .added⟩ ∧
    isrTrioEnd.thread .interrupt = ⟨isrTrio .interrupt, .processed [(7, 8)]⟩ ∧
    ∃ reg : ℕ → List IsrTrio,
      (∀ v a, a ∈ reg v ↔ (isrTrio a).isrno = v ∧ (isrTrioMid.thread a).point.registered) ∧
      (∀ v, (reg v).Nodup ∧
        Chained isrTrioMid.shared.next 0 (isrTrioMid.shared.chain v) ((reg v).map fun a => (isrTrio a).node)) ∧
      (∀ v, ∀ a ∈ reg v, (isrTrioMid.shared.fn (isrTrio a).node, isrTrioMid.shared.ctx (isrTrio a).node) =
        (isrTrio a).handler) ∧
      ∀ a v l s z, isrTrio a = .irqProcessIrq v → (isrTrioMid.thread a).point = .start →
        IsrMove a (isrTrioMid.thread a) isrTrioMid.shared l s → Run IsrMove (isrTrioMid.move a l s) z →
        (z.thread a).point.called <+: (reg v).map (fun b => (isrTrio b).handler) ∧
        ∀ called, (z.thread a).point = .processed called → called = (reg v).map fun b => (isrTrio b).handler :=
  ⟨rfl, isrTrioEnd_threads.1, isrTrioEnd_threads.2, irq_process_irq_snapshot isrTrio_own
    ⟨fun _ => rfl, fun _ => rfl, fun _ => rfl⟩ (.of_follow (fun _ _ _ => .exec) _ _)⟩

end Borgos.Kcore
