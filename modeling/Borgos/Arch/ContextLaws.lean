import Borgos.Arch.Context

/-! # A context switch preserves every process's context

A process that does not run is parked: the frame `cpu_swapcontext` will load lies on its own stack, and its
`archcpu_context` points to it. No step of another process touches either. Switching to it loads exactly that frame,
whether it was pushed by the call it was switched away in or built by hand.
-/
namespace Borgos.Arch
open Borgos.Foundations WordStack
set_option autoImplicit false

variable {x : Trampolines} {P : Type} {t : Tasks P} {a b : Machine P} {p q : P}

/-! ## `cpu_swapcontext` -/

/-- What a switch preserves, besides memory. -/
structure Context where
  rsp : Word
  rflags : Word
  r15 : Word
  r14 : Word
  r13 : Word
  r12 : Word
  rbx : Word
  rbp : Word
  rip : Word

/-- The frame of a context, from `rsp` upwards. -/
def Context.words (k : Context) : List Word := [k.rflags, k.r15, k.r14, k.r13, k.r12, k.rbx, k.rbp, k.rip]

def Cpu.context (c : Cpu) : Context :=
  ⟨c.rsp, c.rflags, c.gpr .r15, c.gpr .r14, c.gpr .r13, c.gpr .r12, c.gpr .rbx, c.gpr .rbp, c.rip⟩

/-- The context a process goes on in after the call. -/
def Cpu.returning (c : Cpu) (ret : Word) : Context := { c.context with rip := ret }

/-- Memory after the first half of `cpu_swapcontext`. -/
def savedMem (prev ret : Word) (c : Cpu) : WordMemory :=
  Function.update (pushAll c.mem c.rsp (c.returning ret).words.reverse) (prev + taskRspOffset) (down c.rsp 8)

theorem callSwapcontext_mem (prev new ret : Word) (c : Cpu) :
    (callSwapcontext prev new ret c).mem = savedMem prev ret c := by
  simp [callSwapcontext, cpuSwapcontext, Instr.exec, Cpu.pushWord, Cpu.setReg, Cpu.popped, Cpu.top, savedMem,
    Cpu.returning, Cpu.context, Context.words, pushAll, down_down]

theorem callSwapcontext_cr3 (prev new ret : Word) (c : Cpu) :
    (callSwapcontext prev new ret c).cr3 = savedMem prev ret c (new + taskCr3Offset) := by
  simp [callSwapcontext, cpuSwapcontext, Instr.exec, Cpu.pushWord, Cpu.setReg, Cpu.popped, Cpu.top, savedMem,
    Cpu.returning, Cpu.context, Context.words, pushAll, down_down]

/-- The second half loads the frame the new context points to. -/
theorem callSwapcontext_context (prev new ret : Word) (c : Cpu) {sp : Word} {k : Context}
    (hsp : savedMem prev ret c (new + taskRspOffset) = sp)
    (hwords : wordsAt (savedMem prev ret c) sp k.words.length = k.words) (hrsp : k.rsp = up sp 8) :
    (callSwapcontext prev new ret c).context = k := by
  have hload : (callSwapcontext prev new ret c).context =
      ⟨up sp 8, savedMem prev ret c sp, savedMem prev ret c (up sp 1), savedMem prev ret c (up sp 2),
        savedMem prev ret c (up sp 3), savedMem prev ret c (up sp 4), savedMem prev ret c (up sp 5),
        savedMem prev ret c (up sp 6), savedMem prev ret c (up sp 7)⟩ := by
    rw [← hsp]
    simp [callSwapcontext, cpuSwapcontext, Instr.exec, Cpu.pushWord, Cpu.setReg, Cpu.popped, Cpu.top, savedMem,
      Cpu.returning, Cpu.context, Context.words, pushAll, down_down, up_up]
  rw [hload]
  simp only [Context.words, List.length_cons, List.length_nil, wordsAt, up_up, List.cons.injEq, and_true] at hwords
  obtain ⟨h₀, h₁, h₂, h₃, h₄, h₅, h₆, h₇⟩ := hwords
  rw [← hrsp, h₀, h₁, h₂, h₃, h₄, h₅, h₆, h₇]

/-! ## `isr_exit` -/

/-- `isr_exit` loads a whole trapframe. -/
theorem run_isrExit {d : Cpu} {gprs : List Word} {isrno errcode rip cs rflags rsp ss : Word}
    (hlen : gprs.length = isrPopped.length)
    (h : wordsAt d.mem d.rsp 22 = gprs ++ [isrno, errcode, rip, cs, rflags, rsp, ss]) :
    isrPopped.map (run isrExit d).gpr = gprs ∧
      run isrExit d =
        { d with gpr := (run isrExit d).gpr, rip := rip, cs := cs, rflags := rflags, rsp := rsp, ss := ss } := by
  have hsplit : wordsAt d.mem d.rsp 22 = wordsAt d.mem d.rsp 15 ++ wordsAt d.mem (up d.rsp 15) 7 := wordsAt_add 15 7
  rw [hsplit] at h
  obtain ⟨hgprs, hrest⟩ := List.append_inj h (by rw [length_wordsAt, hlen]; rfl)
  simp only [wordsAt, up_up, List.cons.injEq, and_true] at hrest
  obtain ⟨-, -, hrip, hcs, hrflags, hrsp, hss⟩ := hrest
  have hskip : up d.rsp 15 + 16 = up d.rsp 17 := by
    rw [← up_up d.rsp 15 2]
    rfl
  have hrun : run isrExit d =
      { d with
        gpr := (run (isrPopped.map .pop) d).gpr
        rip := rip
        cs := cs
        rflags := rflags
        rsp := rsp
        ss := ss } := by
    rw [isrExit, run_append, run_pop_frame]
    simp only [run_cons, run_nil, Instr.exec, show isrPopped.length = 15 from rfl, hskip, up_up]
    rw [hrip, hcs, hrflags, hrsp, hss]
  have hnodup : isrPopped.Nodup := by decide
  have hpop := run_pop hnodup d
  rw [show isrPopped.length = 15 from rfl, hgprs] at hpop
  constructor
  · rw [hrun]
    exact hpop
  · rw [hrun]

/-! ## Parked processes -/

/-- The words `ws` from `sp` on are the process's own, and its context points to them. -/
structure Parked (t : Tasks P) (mem : WordMemory) (p : P) (sp : Word) (ws : List Word) : Prop where
  pointer : mem (t.context p + taskRspOffset) = sp
  words : wordsAt mem sp ws.length = ws
  inside : ∀ i < ws.length, up sp i ∈ t.stack p

/-- Its page table and its stack for interrupts from user mode. -/
structure Owns (t : Tasks P) (mem : WordMemory) (p : P) (cr3 rsp0 : Word) : Prop where
  cr3 : mem (t.context p + taskCr3Offset) = cr3
  rsp0 : mem (t.context p + taskRsp0Offset) = rsp0

/-- The stack and the context of a process are as they were. -/
structure Untouched (t : Tasks P) (p : P) (mem mem' : WordMemory) : Prop where
  stack : ∀ w ∈ t.stack p, mem' w = mem w
  pointer : mem' (t.context p + taskRspOffset) = mem (t.context p + taskRspOffset)

theorem Parked.untouched {mem mem' : WordMemory} {sp : Word} {ws : List Word} (h : Parked t mem p sp ws)
    (hsame : Untouched t p mem mem') : Parked t mem' p sp ws where
  pointer := hsame.pointer.trans h.pointer
  words := by
    have hcongr : wordsAt mem' sp ws.length = wordsAt mem sp ws.length :=
      wordsAt_congr fun i hi => hsame.stack _ (h.inside i hi)
    exact hcongr.trans h.words
  inside := h.inside

theorem Untouched.trans {mem mem' mem'' : WordMemory} (h : Untouched t p mem mem') (h' : Untouched t p mem' mem'') :
    Untouched t p mem mem'' where
  stack := fun w hw => (h'.stack w hw).trans (h.stack w hw)
  pointer := h'.pointer.trans h.pointer

/-! ## What a step writes -/

/-- Memory is written on the stack of the running process, at its saved stack pointer, and where a process is being
prepared. -/
structure Spared (t : Tasks P) (a : Machine P) (w : Word) : Prop where
  stack : ∀ p, p = a.current ∨ p ∉ a.created → w ∉ t.stack p
  saved : w ≠ t.context a.current + taskRspOffset
  context : ∀ p ∉ a.created, ∀ o ∈ [taskRspOffset, taskCr3Offset, taskRsp0Offset], w ≠ t.context p + o

theorem setContext_frame {mem : WordMemory} {w context sp cr3 rsp0 : Word}
    (h : ∀ o ∈ [taskRspOffset, taskCr3Offset, taskRsp0Offset], w ≠ context + o) :
    setContext mem context sp cr3 rsp0 w = mem w := by
  unfold setContext
  rw [Function.update_of_ne (h _ (by simp)), Function.update_of_ne (h _ (by simp)),
    Function.update_of_ne (h _ (by simp))]

theorem Spared.prepared {w top context sp cr3 rsp0 : Word} {frame : List Word} (h : Spared t a w) (hp : p ∉ a.created)
    (hin : FrameInside t p top frame.length) (hctx : context = t.context p) :
    setContext (pushAll a.cpu.mem top frame) context sp cr3 rsp0 w = a.cpu.mem w := by
  rw [hctx, setContext_frame (h.context p hp)]
  apply pushAll_frame
  intro i hi e
  exact h.stack p (.inr hp) (e ▸ hin i hi)

theorem savedMem_frame {ret w : Word} (hq : Switches t a q) (hstack : w ∉ t.stack a.current)
    (hsaved : w ≠ t.context a.current + taskRspOffset) :
    savedMem (t.context a.current) ret a.cpu w = a.cpu.mem w := by
  unfold savedMem
  rw [Function.update_of_ne hsaved]
  apply pushAll_frame
  intro i hi e
  exact hstack (e ▸ hq.room i (by simpa [Context.words] using hi))

theorem CtxStep.mem_eq (h : CtxStep x t a b) {w : Word} (hw : Spared t a w) : b.cpu.mem w = a.cpu.mem w := by
  cases h with
  | own c hcr3 hmem => exact hmem w (hw.stack _ (.inl rfl))
  | switch q ret hq =>
    simp only [Machine.schedulerSwitchProcess, callSwapcontext_mem]
    exact savedMem_frame hq (hw.stack _ (.inl rfl)) hw.saved
  | kernelproc p s entry arg hp hin => exact hw.prepared hp hin rfl
  | startinit p s rsp0stackaddr hp hin => exact hw.prepared hp hin rfl

theorem CtxStep.created_subset (h : CtxStep x t a b) : a.created ⊆ b.created := by
  cases h with
  | own => exact subset_rfl
  | switch => exact subset_rfl
  | kernelproc => exact Set.subset_insert ..
  | startinit => exact Set.subset_insert ..

section Separate
variable (ht : t.Separate)
include ht

/-- The page table and `rsp0` of a process never change after it has been prepared. -/
theorem spared_own (hp : p ∈ a.created) {o : Word} (ho : o ∈ [taskCr3Offset, taskRsp0Offset]) :
    Spared t a (t.context p + o) where
  stack := fun q _ => ht.outside p q o (List.mem_cons_of_mem _ ho)
  saved := by
    by_cases e : p = a.current
    · rw [← e]
      intro h
      have : o = taskRspOffset := add_left_cancel h
      subst this
      revert ho
      decide
    · exact ht.apart p _ e o (List.mem_cons_of_mem _ ho) _ (by simp)
  context := by
    intro q hq o' ho'
    have hne : p ≠ q := fun e => hq (e ▸ hp)
    exact ht.apart p q hne o (List.mem_cons_of_mem _ ho) o' ho'

theorem CtxStep.owns (h : CtxStep x t a b) (hp : p ∈ a.created) {cr3 rsp0 : Word} (hown : Owns t a.cpu.mem p cr3 rsp0) :
    Owns t b.cpu.mem p cr3 rsp0 where
  cr3 := (h.mem_eq (spared_own ht hp (by simp))).trans hown.cr3
  rsp0 := (h.mem_eq (spared_own ht hp (by simp))).trans hown.rsp0

/-- A process that does not run keeps its stack and its saved stack pointer. -/
theorem CtxStep.untouched (h : CtxStep x t a b) (hp : p ∈ a.created) (haway : a.current ≠ p) :
    Untouched t p a.cpu.mem b.cpu.mem := by
  have hother : ∀ q, q = a.current ∨ q ∉ a.created → p ≠ q := by
    rintro q (rfl | hq) rfl
    · exact haway rfl
    · exact hq hp
  constructor
  · intro w hw
    apply h.mem_eq
    constructor
    · intro q hq
      exact Set.disjoint_left.mp (ht.disjoint p q (hother q hq)) hw
    · rintro rfl
      exact ht.outside _ _ _ (by simp) hw
    · rintro q - o ho rfl
      exact ht.outside _ _ _ ho hw
  · apply h.mem_eq
    constructor
    · intro q _
      exact ht.outside _ _ _ (by simp)
    · exact ht.apart _ _ (hother _ (.inl rfl)) _ (by simp) _ (by simp)
    · intro q hq o ho
      exact ht.apart _ _ (hother _ (.inr hq)) _ (by simp) _ ho

theorem AwayRun.untouched (h : AwayRun x t p a b) (hp : p ∈ a.created) (haway : a.current ≠ p) :
    Untouched t p a.cpu.mem b.cpu.mem ∧ p ∈ b.created ∧ b.current ≠ p := by
  induction h with
  | refl => exact ⟨⟨fun _ _ => rfl, rfl⟩, hp, haway⟩
  | tail _ hstep ih =>
    obtain ⟨hsame, hmem, hcurrent⟩ := ih
    exact ⟨hsame.trans (hstep.1.untouched ht hmem hcurrent), hstep.1.created_subset hmem, hstep.2⟩

theorem owns_of_run (h : Relation.ReflTransGen (CtxStep x t) a b) (hp : p ∈ a.created) {cr3 rsp0 : Word}
    (hown : Owns t a.cpu.mem p cr3 rsp0) : Owns t b.cpu.mem p cr3 rsp0 ∧ p ∈ b.created := by
  induction h with
  | refl => exact ⟨hown, hp⟩
  | tail _ hstep ih => exact ⟨hstep.owns ht ih.2 ih.1, hstep.created_subset ih.2⟩

/-! ## Switching out, preparing, switching in -/

omit ht in
theorem up_inside {top : Word} {n i : ℕ} (hin : FrameInside t p top n) (hi : i < n) :
    up (down top n) i ∈ t.stack p := by
  have hword := hin (n - i - 1) (by omega)
  rw [up_down top hi.le]
  rwa [show n - i - 1 + 1 = n - i by omega] at hword

/-- The frame that has just been pushed, with the stack pointer in the context. -/
theorem parked_of_pushed {mem mem' : WordMemory} {top : Word} {frame : List Word} (hlen : 8 * frame.length < 2 ^ 64)
    (hin : FrameInside t p top frame.length) (hptr : mem' (t.context p + taskRspOffset) = down top frame.length)
    (hmem : ∀ w, (∀ o ∈ [taskRspOffset, taskCr3Offset, taskRsp0Offset], w ≠ t.context p + o) →
      mem' w = pushAll mem top frame w) :
    Parked t mem' p (down top frame.length) frame.reverse where
  pointer := hptr
  words := by
    rw [List.length_reverse, ← wordsAt_pushAll mem top hlen]
    apply wordsAt_congr
    intro i hi
    apply hmem
    intro o ho e
    exact ht.outside p p o ho (e ▸ up_inside hin hi)
  inside := by
    intro i hi
    rw [List.length_reverse] at hi
    exact up_inside hin hi

theorem parked_of_switch (ret : Word) (hq : Switches t a q) :
    Parked t (a.schedulerSwitchProcess t q ret).cpu.mem a.current (down a.cpu.rsp 8) (a.cpu.returning ret).words := by
  have hparked : Parked t (savedMem (t.context a.current) ret a.cpu) a.current
      (down a.cpu.rsp (a.cpu.returning ret).words.reverse.length) (a.cpu.returning ret).words.reverse.reverse := by
    have hroom : FrameInside t a.current a.cpu.rsp (a.cpu.returning ret).words.reverse.length := hq.room
    apply parked_of_pushed ht _ hroom
    · exact Function.update_self ..
    · intro w hw
      exact Function.update_of_ne (hw _ (by simp)) ..
    · simp [Context.words]
  rw [List.reverse_reverse] at hparked
  simp only [Machine.schedulerSwitchProcess, callSwapcontext_mem]
  exact hparked

theorem parked_of_prepared {mem : WordMemory} {top cr3 rsp0 : Word} {frame : List Word}
    (hlen : 8 * frame.length < 2 ^ 64) (hin : FrameInside t p top frame.length) :
    Parked t (setContext (pushAll mem top frame) (t.context p) (down top frame.length) cr3 rsp0) p
      (down top frame.length) frame.reverse := by
  apply parked_of_pushed ht hlen hin
  · exact Function.update_self ..
  · intro w hw
    exact setContext_frame hw

omit ht in
theorem owns_of_prepared {mem : WordMemory} {sp cr3 rsp0 : Word} :
    Owns t (setContext mem (t.context p) sp cr3 rsp0) p cr3 rsp0 := by
  have hcr3 : t.context p + taskCr3Offset ≠ t.context p + taskRspOffset :=
    fun e => absurd (add_left_cancel e) (by decide)
  have hrsp0 : t.context p + taskRsp0Offset ≠ t.context p + taskRspOffset := fun e =>
    absurd (add_left_cancel e) (by decide)
  have hrsp0' : t.context p + taskRsp0Offset ≠ t.context p + taskCr3Offset := fun e =>
    absurd (add_left_cancel e) (by decide)
  unfold setContext
  constructor
  · rw [Function.update_of_ne hcr3, Function.update_self]
  · rw [Function.update_of_ne hrsp0, Function.update_of_ne hrsp0', Function.update_self]

/-- Switching to a parked process loads its frame. -/
theorem context_of_parked (ret : Word) (hp : Switches t b p) {sp : Word} {k : Context} {rest : List Word}
    (hparked : Parked t b.cpu.mem p sp (k.words ++ rest)) (hrsp : k.rsp = up sp 8) :
    (b.schedulerSwitchProcess t p ret).cpu.context = k := by
  have hstep : CtxStep ⟨0, 0⟩ t b (b.schedulerSwitchProcess t p ret) := .switch p ret hp
  have hsaved := hparked.untouched (hstep.untouched ht hp.target hp.other.symm)
  simp only [Machine.schedulerSwitchProcess, callSwapcontext_mem] at hsaved ⊢
  apply callSwapcontext_context _ _ _ _ hsaved.pointer _ hrsp
  have hwords := hsaved.words
  rw [List.length_append, wordsAt_add] at hwords
  exact (List.append_inj hwords (length_wordsAt _)).1

/-- Its page table and its `rsp0` as well. -/
theorem loads_own (ret : Word) (hp : Switches t b p) {cr3 rsp0 : Word} (hown : Owns t b.cpu.mem p cr3 rsp0) :
    (b.schedulerSwitchProcess t p ret).cpu.cr3 = cr3 ∧ (b.schedulerSwitchProcess t p ret).tssRsp0 = rsp0 := by
  have hstep : CtxStep ⟨0, 0⟩ t b (b.schedulerSwitchProcess t p ret) := .switch p ret hp
  have hsaved := (hstep.owns ht hp.target hown).cr3
  constructor
  · simp only [Machine.schedulerSwitchProcess, callSwapcontext_mem] at hsaved ⊢
    rw [callSwapcontext_cr3, hsaved]
  · exact hown.rsp0

/-! ## The contract -/

omit ht in
theorem AwayRun.run (h : AwayRun x t p a b) : Relation.ReflTransGen (CtxStep x t) a b :=
  Relation.ReflTransGen.mono (fun _ _ hstep => hstep.1) _ _ h

theorem AwayRun.parked (h : AwayRun x t p a b) (hp : p ∈ a.created) (haway : a.current ≠ p) {sp : Word} {ws : List Word}
    (hparked : Parked t a.cpu.mem p sp ws) : Parked t b.cpu.mem p sp ws :=
  hparked.untouched (h.untouched ht hp haway).1

end Separate

/-- When a process is switched back in, it goes on after its own call with the registers it had there. -/
def SwitchRestores (x : Trampolines) (t : Tasks P) : Prop :=
  ∀ (a b : Machine P) (q : P) (ret ret' : Word), Switches t a q →
    AwayRun x t a.current (a.schedulerSwitchProcess t q ret) b → Switches t b a.current →
      (b.schedulerSwitchProcess t a.current ret').cpu.context = a.cpu.returning ret

/-- Whenever a process is switched in, its own page table and its own `rsp0` are loaded. -/
def SwitchLoadsOwn (x : Trampolines) (t : Tasks P) : Prop :=
  ∀ (a b : Machine P) (p : P) (cr3 rsp0 ret : Word), p ∈ a.created → Owns t a.cpu.mem p cr3 rsp0 →
    Relation.ReflTransGen (CtxStep x t) a b → Switches t b p →
      (b.schedulerSwitchProcess t p ret).cpu.cr3 = cr3 ∧ (b.schedulerSwitchProcess t p ret).tssRsp0 = rsp0

/-- `p` has been prepared in `a`, and `b` switches to it for the first time. -/
structure FirstSwitch (x : Trampolines) (t : Tasks P) (p : P) (a : Machine P) (mem : WordMemory) (b : Machine P) :
    Prop where
  running : a.current ∈ a.created
  fresh : p ∉ a.created
  away : AwayRun x t p { a with cpu := { a.cpu with mem := mem }, created := insert p a.created } b
  switch : Switches t b p

def interruptFlag (rflags : Word) : Bool := rflags.getLsbD 9

/-- A kernel process starts in the trampoline with its entry point and its argument, interrupts disabled. -/
def KernelprocStarts (x : Trampolines) (t : Tasks P) : Prop :=
  ∀ (a b : Machine P) (p : P) (s : ProcStacks) (entry arg ret : Word),
    FrameInside t p (s.kstackaddr + s.kstacksize - 64) (kernelprocFrame x entry arg).length →
    FirstSwitch x t p a (archprocPrepareKernelprocStack x a.cpu.mem (t.context p) s entry arg) b →
      let c := (b.schedulerSwitchProcess t p ret).cpu
      c.rip = x.cpuKerneltaskTrampoline ∧ c.cr3 = v2pWord s.pgdir ∧ interruptFlag c.rflags = false ∧
        c.gpr .r12 = entry ∧ c.gpr .r13 = arg ∧
        (run cpuKerneltaskTrampoline c).gpr .rdi = entry ∧ (run cpuKerneltaskTrampoline c).gpr .rsi = arg

/-- A function called in `c` has returned: the stack pointer is what it was, and so are the `n` words above it. -/
structure ReturnedFromCall (c d : Cpu) (n : ℕ) : Prop where
  rsp : d.rsp = c.rsp
  frame : ∀ i < n, d.mem (up c.rsp i) = c.mem (up c.rsp i)

/-- A user process starts in its trampoline. After `scheduler_start_usertask`, `isr_exit` enters ring 3. -/
def StartinitEnters (x : Trampolines) (t : Tasks P) : Prop :=
  ∀ (a b : Machine P) (p : P) (s : ProcStacks) (rsp0stackaddr ret : Word) (d : Cpu),
    FrameInside t p (s.ustackaddrvirt + s.ustacksize - 64) (startinitFrame x s).length →
    FirstSwitch x t p a (archprocPrepareStartinit x a.cpu.mem (t.context p) s rsp0stackaddr) b →
      let c := (b.schedulerSwitchProcess t p ret).cpu
      c.rip = x.cpuUsertaskTrampoline ∧ c.cr3 = v2pWord s.upgdir ∧ interruptFlag c.rflags = false ∧
        (b.schedulerSwitchProcess t p ret).tssRsp0 = rsp0stackaddr + 0x4000 ∧
        (ReturnedFromCall c d 22 →
          (run isrExit d).rip = 0x400000 ∧ (run isrExit d).rsp = s.ustackaddr + s.ustacksize ∧
            interruptFlag (run isrExit d).rflags = true ∧ (run isrExit d).cs = 0x23 ∧ (run isrExit d).ss = 0x1b ∧
            ∀ r, (run isrExit d).gpr r = 0)

section Separate
variable (ht : t.Separate)
include ht

theorem switchRestores : SwitchRestores x t := by
  intro a b q ret ret' hq haway hb
  have hne : (a.schedulerSwitchProcess t q ret).current ≠ a.current := hq.other
  have hparked := haway.parked ht hq.current hne (parked_of_switch ht ret hq)
  rw [← List.append_nil (a.cpu.returning ret).words] at hparked
  exact context_of_parked ht ret' hb hparked (by rw [up_down _ le_rfl]; exact (down_zero _).symm)

theorem switchLoadsOwn : SwitchLoadsOwn x t := by
  intro a b p cr3 rsp0 ret hp hown hrun hb
  exact loads_own ht ret hb (owns_of_run ht hrun hp hown).1

/-- What a switch to a freshly prepared process finds. -/
theorem FirstSwitch.loads {mem : WordMemory} {top cr3 rsp0 : Word} {frame rest : List Word} {k : Context}
    (h : FirstSwitch x t p a (setContext (pushAll mem top frame) (t.context p) (down top frame.length) cr3 rsp0) b)
    (hlen : 8 * frame.length < 2 ^ 64) (hin : FrameInside t p top frame.length)
    (hframe : frame.reverse = k.words ++ rest) (hrsp : k.rsp = up (down top frame.length) 8) (ret : Word) :
    (b.schedulerSwitchProcess t p ret).cpu.context = k ∧ (b.schedulerSwitchProcess t p ret).cpu.cr3 = cr3 ∧
      (b.schedulerSwitchProcess t p ret).tssRsp0 = rsp0 ∧
      wordsAt (b.schedulerSwitchProcess t p ret).cpu.mem k.rsp rest.length = rest := by
  have hne : a.current ≠ p := fun e => h.fresh (e ▸ h.running)
  have hp : p ∈ insert p a.created := Set.mem_insert ..
  have hparked := h.away.parked ht hp hne (parked_of_prepared ht hlen hin)
  rw [hframe] at hparked
  have hown := (owns_of_run ht h.away.run hp owns_of_prepared).1
  have hstep : CtxStep x t b (b.schedulerSwitchProcess t p ret) := .switch p ret h.switch
  have hcontext := context_of_parked ht ret h.switch hparked hrsp
  obtain ⟨hcr3, hrsp0⟩ := loads_own ht ret h.switch hown
  have hwords := (hparked.untouched (hstep.untouched ht h.switch.target h.switch.other.symm)).words
  rw [List.length_append, wordsAt_add] at hwords
  rw [hrsp]
  exact ⟨hcontext, hcr3, hrsp0, (List.append_inj hwords (length_wordsAt _)).2⟩

theorem kernelprocStarts : KernelprocStarts x t := by
  intro a b p s entry arg ret hin h
  obtain ⟨hcontext, hcr3, -⟩ := h.loads ht (k := ⟨_, 0x002, 0, 0, arg, entry, 0, 0, x.cpuKerneltaskTrampoline⟩)
    (by simp [kernelprocFrame]) hin rfl rfl ret
  generalize (b.schedulerSwitchProcess t p ret).cpu = c at hcontext hcr3 ⊢
  simp only [Cpu.context, Context.mk.injEq] at hcontext
  obtain ⟨-, hflags, -, -, h13, h12, -, -, hrip⟩ := hcontext
  refine ⟨hrip, hcr3, ?_, h12, h13, ?_, ?_⟩
  · rw [hflags]
    decide
  · simp [cpuKerneltaskTrampoline, Instr.exec, Cpu.setReg, h12]
  · simp [cpuKerneltaskTrampoline, Instr.exec, Cpu.setReg, h13]

/-- The trapframe `archproc_prepare_startinit` leaves for `isr_exit`, from the stack pointer upwards. -/
def startinitTrapframe (s : ProcStacks) : List Word :=
  List.replicate 15 0 ++ [0, 0, 0x400000, gdt64UserCs ||| 0x03, 0x202, s.ustackaddr + s.ustacksize,
    gdt64UserDs ||| 0x03]

omit ht in
theorem isrExit_startinit {c d : Cpu} {s : ProcStacks} (hd : ReturnedFromCall c d 22)
    (hwords : wordsAt c.mem c.rsp 22 = startinitTrapframe s) :
    (run isrExit d).rip = 0x400000 ∧ (run isrExit d).rsp = s.ustackaddr + s.ustacksize ∧
      interruptFlag (run isrExit d).rflags = true ∧ (run isrExit d).cs = 0x23 ∧ (run isrExit d).ss = 0x1b ∧
      ∀ r, (run isrExit d).gpr r = 0 := by
  have hframe : wordsAt d.mem d.rsp 22 = startinitTrapframe s := by
    rw [hd.rsp, ← hwords]
    exact wordsAt_congr hd.frame
  obtain ⟨hgpr, hrun⟩ := run_isrExit rfl hframe
  have hzero : ∀ r, (run isrExit d).gpr r = 0 := by
    intro r
    have hall := (List.map_eq_replicate_iff.mp hgpr)
    exact hall r (by cases r <;> decide)
  rw [hrun]
  have hflag : interruptFlag 0x202 = true := by decide
  exact ⟨rfl, rfl, hflag, rfl, rfl, hzero⟩

theorem startinitEnters : StartinitEnters x t := by
  intro a b p s rsp0stackaddr ret d hin h
  obtain ⟨hcontext, hcr3, hrsp0, hwords⟩ := h.loads ht (k := ⟨_, 0x002, 0, 0, 0, 0, 0, 0, x.cpuUsertaskTrampoline⟩)
    (by simp [startinitFrame]) hin (show _ = _ ++ startinitTrapframe s from rfl) rfl ret
  rw [← hcontext] at hwords
  generalize (b.schedulerSwitchProcess t p ret).cpu = c at *
  simp only [Cpu.context, Context.mk.injEq] at hcontext
  obtain ⟨-, hflags, -, -, -, -, -, -, hrip⟩ := hcontext
  exact ⟨hrip, hcr3, by rw [hflags]; decide, hrsp0, fun hd => isrExit_startinit hd hwords⟩

/-- Every process finds its own context, its own address space and its own `rsp0` again, whatever the others did in
the meantime, and the frames built by hand are what the assembly code pops. -/
theorem context_switch_preserves :
    SwitchRestores x t ∧ SwitchLoadsOwn x t ∧ KernelprocStarts x t ∧ StartinitEnters x t :=
  ⟨switchRestores ht, switchLoadsOwn ht, kernelprocStarts ht, startinitEnters ht⟩

end Separate

/-- Two processes with stacks of 64 KiB. -/
def twoTasks : Tasks Bool where
  context p := if p then 0x200 else 0x100
  stack p := {w | w.toNat / 0x10000 = if p then 2 else 1}

theorem twoTasks_separate : twoTasks.Separate where
  disjoint := by
    intro p q hne
    apply Set.disjoint_left.mpr
    intro w hp hq
    have hpq : (if p then 2 else 1) = (if q then 2 else 1) := Eq.trans (Eq.symm hp) hq
    clear hp hq
    revert p q
    decide
  outside := by
    intro p q o ho hmem
    have hword : (twoTasks.context p + o).toNat / 0x10000 = if q then 2 else 1 := hmem
    have hlow : ∀ p : Bool, ∀ o ∈ [taskRspOffset, taskCr3Offset, taskRsp0Offset],
        (twoTasks.context p + o).toNat / 0x10000 = 0 := by
      simp [twoTasks, taskRspOffset, taskCr3Offset, taskRsp0Offset]
    rw [hlow p o ho] at hword
    cases q <;> simp at hword
  apart := by
    simp [twoTasks, taskRspOffset, taskCr3Offset, taskRsp0Offset]

/-- The first process runs; the second one is parked at the middle of its stack. -/
def twoTasksMachine : Machine Bool where
  cpu := ⟨fun _ => 3, 0x18000, 0, 0x202, 0, 0, 0, fun w => if w = 0x200 then 0x27fc0 else 0⟩
  tssRsp0 := 0
  current := false
  created := Set.univ

theorem room_of_middle {a : Machine Bool} (hrsp : a.cpu.rsp = if a.current then 0x28000 else 0x18000) :
    ∀ i < 8, down a.cpu.rsp (i + 1) ∈ twoTasks.stack a.current := by
  rw [hrsp]
  intro i hi
  show (down _ (i + 1)).toNat / 0x10000 = _
  generalize a.current = p
  revert p i
  decide +kernel

theorem context_switch_preserves_two : SwitchRestores ⟨0, 0⟩ twoTasks ∧
    ((twoTasksMachine.schedulerSwitchProcess twoTasks true 5).schedulerSwitchProcess twoTasks false 7).cpu.context =
      ⟨0x18000, 0x202, 3, 3, 3, 3, 3, 3, 5⟩ := by
  have hrestores := (context_switch_preserves (x := ⟨0, 0⟩) twoTasks_separate).1
  have hout : Switches twoTasks twoTasksMachine true := ⟨trivial, trivial, by decide, room_of_middle rfl⟩
  generalize hb : twoTasksMachine.schedulerSwitchProcess twoTasks true 5 = b
  have hrsp : b.cpu.rsp = 0x28000 := by
    rw [← hb]
    decide +kernel
  have hcurrent : b.current = true := by rw [← hb]; rfl
  have hcreated : b.created = Set.univ := by rw [← hb]; rfl
  have hin : Switches twoTasks b twoTasksMachine.current := by
    constructor
    · rw [hcreated]
      trivial
    · rw [hcreated]
      trivial
    · rw [hcurrent]
      decide
    · apply room_of_middle
      rw [hrsp, hcurrent]
      rfl
  have hback := hrestores twoTasksMachine b true 5 7 hout (hb ▸ .refl) hin
  exact ⟨hrestores, hback⟩

end Borgos.Arch
