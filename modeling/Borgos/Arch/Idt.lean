import Borgos.Arch.GdtLaws
import Borgos.Arch.Isr

/-! # `idt.c`: interrupt gates

The interrupt descriptor table as `idt_init` stores it, and what the processor does with it: from the gate of a vector,
the code segment of the gate and the stacks of the task state segment to the first instruction of the stub. A descriptor
table is read byte by byte, a stack word by word, and no stack shares memory with a table. What `idt_init` logs is left
out.
-/
namespace Borgos.Arch
open Borgos.Foundations FlatMemory WordStack
set_option autoImplicit false

/-! ## `idt.c` -/

/-- `IDTSIZE` -/
def idtsize : ℕ := 256

/-- `sizeof(idt_entry_64_t)` -/
def idtEntrySize : ℕ := 16

def gdt64KernelCs : ℕ := 0x08

/-- `_set_idt_desc_64` -/
def setIdtDesc64 (mem : ℕ → ℕ) (select ist offset type desc : ℕ) : ℕ → ℕ :=
  let mem := storeNat mem (desc + 2) 2 select
  let mem := storeNat mem (desc + 4) 1 ist
  let mem := storeNat mem (desc + 5) 1 type
  let mem := storeNat mem desc 2 (offset &&& 0xFFFF)
  let mem := storeNat mem (desc + 6) 2 ((offset &&& 0xFFFF0000) >>> 16)
  storeNat mem (desc + 8) 4 ((offset &&& 0xFFFFFFFF00000000) >>> 32)

/-- The interrupt stack table entry `idt_init` chooses. -/
def idtIst (i : ℕ) : ℕ :=
  let ist := 0
  let ist := if i = 18 ∨ i = 8 then 1 else ist
  let ist := if i = 2 then 2 else ist
  if i = 1 ∨ i = 3 then 3 else ist

def idtType (i : ℕ) : ℕ := if i = 0x80 ∨ i = 0x81 then 0xE ||| 1 <<< 7 ||| 3 <<< 5 else 0xE ||| 1 <<< 7

/-- The loop of `idt_init` after `i` rounds, with `isr_stub_table`. -/
def setGates (isrStubTable : ℕ → ℕ) (csSeg idt : ℕ) (mem : ℕ → ℕ) : ℕ → ℕ → ℕ
  | 0 => mem
  | i + 1 =>
    let mem := setGates isrStubTable csSeg idt mem i
    let adr := isrStubTable i
    if adr > 0 then setIdtDesc64 mem csSeg (idtIst i) adr (idtType i) (idt + i * idtEntrySize) else mem

/-- The memory and `idtr`. -/
def idtInit (isrStubTable : ℕ → ℕ) (csSeg : ℕ) (mem : ℕ → ℕ) (idt : ℕ) : (ℕ → ℕ) × GdtrPtr :=
  let mem := Libc.memset mem idt 0 (idtsize * idtEntrySize)
  (setGates isrStubTable csSeg idt mem idtsize, ⟨idtsize * idtEntrySize - 1, idt⟩)

/-! ## The processor -/

/-- A gate descriptor. -/
@[ext] structure Gate where
  offset : ℕ
  selector : ℕ
  ist : ℕ
  type : ℕ
  dpl : ℕ
  p : ℕ
deriving DecidableEq

def gateAt (mem : ℕ → ℕ) (desc : ℕ) : Gate where
  offset := loadNat mem desc 2 + 2 ^ 16 * loadNat mem (desc + 6) 2 + 2 ^ 32 * loadNat mem (desc + 8) 4
  selector := loadNat mem (desc + 2) 2
  ist := loadNat mem (desc + 4) 1 % 8
  type := loadNat mem (desc + 5) 1 % 16
  dpl := loadNat mem (desc + 5) 1 / 32 % 4
  p := loadNat mem (desc + 5) 1 / 128 % 2

/-- The registers that point to the tables, and the memory the tables are in. -/
structure SystemTables where
  mem : ℕ → ℕ
  idtr : GdtrPtr
  gdtr : GdtrPtr
  tr : ℕ

/-- `#GP` and `#NP` -/
inductive Fault where
  | gp | np
deriving DecidableEq

def Cpu.cpl (c : Cpu) : ℕ := c.cs.toNat % 4

/-- `RSP0` and `IST1` are at offsets 4 and 36 of the task state segment. -/
def SystemTables.stack (t : SystemTables) (c : Cpu) (ist level : ℕ) : Word :=
  if ist ≠ 0 then BitVec.ofNat 64 (loadNat t.mem (t.tr + 28 + 8 * ist) 8)
  else if level < c.cpl then BitVec.ofNat 64 (loadNat t.mem (t.tr + 4 + 8 * level) 8)
  else c.rsp

/-- The processor takes an interrupt, or an `int` instruction, in 64-bit mode. -/
def SystemTables.deliver (t : SystemTables) (vector : ℕ) (errcode : Option Word) (software : Bool) (c : Cpu) :
    Except Fault Cpu :=
  let gate := gateAt t.mem (t.idtr.base + vector * 16)
  let code := segmentOf (loadEntry t.mem (t.gdtr.base + gate.selector / 8 * 8))
  if t.idtr.size < vector * 16 + 15 then .error .gp
  else if gate.type ≠ 0xE ∧ gate.type ≠ 0xF then .error .gp
  else if software ∧ gate.dpl < c.cpl then .error .gp
  else if gate.p = 0 then .error .np
  -- the null selector, or one of a local table
  else if gate.selector < 4 ∨ gate.selector / 4 % 2 = 1 ∨ t.gdtr.size < gate.selector / 8 * 8 + 7 then .error .gp
  else if code.s = 0 ∨ code.type / 8 % 2 = 0 ∨ code.l = 0 ∨ c.cpl < code.dpl then .error .gp
  else if code.p = 0 then .error .np
  else
    -- a conforming segment keeps the level
    let level := if code.type / 4 % 2 = 1 then c.cpl else code.dpl
    let sp := t.stack c gate.ist level &&& ~~~0xF
    -- TF, NT, RF and VM, and IF where the gate is one of an interrupt
    let cleared : Word := if gate.type = 0xE then 0x34300 else 0x34100
    .ok { c with
      rip := BitVec.ofNat 64 gate.offset
      cs := BitVec.ofNat 64 (gate.selector / 4 * 4 + level)
      ss := if level < c.cpl then BitVec.ofNat 64 level else c.ss
      rflags := c.rflags &&& ~~~cleared
      rsp := down sp (5 + errcode.toList.length)
      mem := pushAll c.mem sp ([c.ss, c.rsp, c.rflags, c.cs, c.rip] ++ errcode.toList) }

theorem loadEntry_congr {mem mem' : ℕ → ℕ} {entry : ℕ} (h : ∀ k < entrySize, mem' (entry + k) = mem (entry + k)) :
    loadEntry mem' entry = loadEntry mem entry := by
  unfold loadEntry
  rw [loadNat_congr h]

/-! ## Gates -/

section Gates
variable {mem mem' : ℕ → ℕ} {desc : ℕ}

theorem gateAt_congr (h : ∀ k < 12, mem' (desc + k) = mem (desc + k)) : gateAt mem' desc = gateAt mem desc := by
  have hpart : ∀ a n, a + n ≤ 12 → loadNat mem' (desc + a) n = loadNat mem (desc + a) n := by
    intro a n hin
    apply loadNat_congr
    intro i hi
    rw [Nat.add_assoc]
    exact h (a + i) (by omega)
  have hlow := hpart 0 2 (by decide)
  rw [Nat.add_zero] at hlow
  simp only [gateAt, hlow, hpart 6 2 (by decide), hpart 8 4 (by decide), hpart 2 2 (by decide), hpart 4 1 (by decide),
    hpart 5 1 (by decide)]

/-- The offset is stored in three parts. -/
theorem offset_parts {offset : ℕ} (h : offset < 2 ^ 64) : offset &&& 0xFFFF < 256 ^ 2 ∧
    (offset &&& 0xFFFF0000) >>> 16 < 256 ^ 2 ∧ (offset &&& 0xFFFFFFFF00000000) >>> 32 < 256 ^ 4 ∧
    (offset &&& 0xFFFF) + 2 ^ 16 * ((offset &&& 0xFFFF0000) >>> 16) +
      2 ^ 32 * ((offset &&& 0xFFFFFFFF00000000) >>> 32) = offset := by
  have hlow : offset &&& 0xFFFF = offset % 2 ^ 16 := Nat.and_two_pow_sub_one_eq_mod offset 16
  have hmid : (offset &&& 0xFFFF0000) >>> 16 = offset / 2 ^ 16 % 2 ^ 16 := by
    rw [Nat.shiftRight_and_distrib, ← Nat.shiftRight_eq_div_pow]
    exact Nat.and_two_pow_sub_one_eq_mod _ 16
  have hhigh : (offset &&& 0xFFFFFFFF00000000) >>> 32 = offset / 2 ^ 32 % 2 ^ 32 := by
    rw [Nat.shiftRight_and_distrib, ← Nat.shiftRight_eq_div_pow]
    exact Nat.and_two_pow_sub_one_eq_mod _ 32
  rw [hlow, hmid, hhigh]
  omega

theorem setIdtDesc64_outside {select ist offset type p : ℕ} (h : p < desc ∨ desc + 12 ≤ p) :
    setIdtDesc64 mem select ist offset type desc p = mem p := by
  unfold setIdtDesc64
  rw [storeNat_outside (by omega), storeNat_outside (by omega), storeNat_outside (by omega),
    storeNat_outside (by omega), storeNat_outside (by omega), storeNat_outside (by omega)]

/-- What is stored is what the processor reads. -/
theorem gateAt_setIdtDesc64 {select ist offset type : ℕ} (hselect : select < 2 ^ 16) (hist : ist < 256)
    (htype : type < 256) (hoffset : offset < 2 ^ 64) : gateAt (setIdtDesc64 mem select ist offset type desc) desc =
      ⟨offset, select, ist % 8, type % 16, type / 32 % 4, type / 128 % 2⟩ := by
  obtain ⟨hlow, hmid, hhigh, hsum⟩ := offset_parts hoffset
  unfold gateAt setIdtDesc64
  simp (disch := omega) only [loadNat_storeNat_self, loadNat_storeNat_other, hsum]

end Gates

/-! ## The table -/

/-- What a cleared entry is. -/
def noGate : Gate := ⟨0, 0, 0, 0, 0, 0⟩

/-- The gate of a vector. -/
def idtGate (isrStubTable : ℕ → ℕ) (csSeg i : ℕ) : Gate :=
  if isrStubTable i > 0 then ⟨isrStubTable i, csSeg, idtIst i, 0xE, if i = 0x80 ∨ i = 0x81 then 3 else 0, 1⟩ else noGate

section Table
variable {isrStubTable : ℕ → ℕ} {csSeg idt n i : ℕ} {mem : ℕ → ℕ}

theorem idtIst_le (i : ℕ) : idtIst i ≤ 3 := by
  unfold idtIst
  dsimp only
  split_ifs <;> omega

theorem gateAt_new {desc : ℕ} (hcs : csSeg < 2 ^ 16) (hstub : isrStubTable i < 2 ^ 64) (hpos : isrStubTable i > 0) :
    gateAt (setIdtDesc64 mem csSeg (idtIst i) (isrStubTable i) (idtType i) desc) desc =
      idtGate isrStubTable csSeg i := by
  have hist := idtIst_le i
  have htype : idtType i = if i = 0x80 ∨ i = 0x81 then 0xEE else 0x8E := rfl
  rw [gateAt_setIdtDesc64 hcs (by omega) (by rw [htype]; split_ifs <;> decide) hstub, idtGate, if_pos hpos,
    Nat.mod_eq_of_lt (by omega : idtIst i < 8), htype]
  split_ifs <;> rfl

theorem setGates_outside {p : ℕ} (h : p < idt ∨ idt + n * idtEntrySize ≤ p) :
    setGates isrStubTable csSeg idt mem n p = mem p := by
  induction n with
  | zero => rfl
  | succ n ih =>
    have hsize : idtEntrySize = 16 := rfl
    rw [Nat.add_mul, Nat.one_mul, hsize] at h
    have hrest := ih (by rw [hsize]; omega)
    unfold setGates
    dsimp only
    split_ifs
    · rw [setIdtDesc64_outside (by rw [hsize]; omega), hrest]
    · exact hrest

/-- Each round changes its own entry. -/
theorem setGates_gate (hcs : csSeg < 2 ^ 16) (hstub : ∀ i, isrStubTable i < 2 ^ 64)
    (hclear : ∀ i < idtsize, gateAt mem (idt + i * idtEntrySize) = noGate) (hi : i < idtsize) :
    gateAt (setGates isrStubTable csSeg idt mem n) (idt + i * idtEntrySize) =
      if i < n then idtGate isrStubTable csSeg i else noGate := by
  induction n with
  | zero =>
    rw [if_neg (Nat.not_lt_zero i)]
    exact hclear i hi
  | succ n ih =>
    unfold setGates
    dsimp only
    by_cases hpos : isrStubTable n > 0
    · rw [if_pos hpos]
      by_cases hin : i = n
      · subst hin
        rw [if_pos (Nat.lt_succ_self i), gateAt_new hcs (hstub i) hpos]
      · have hsize : idtEntrySize = 16 := rfl
        rw [gateAt_congr (fun k hk => setIdtDesc64_outside (by rw [hsize]; omega)), ih]
        exact if_congr (by omega) rfl rfl
    · -- the entry stays cleared, and so there is no gate
      rw [if_neg hpos, ih]
      by_cases hin : i = n
      · subst hin
        rw [if_neg (Nat.lt_irrefl i), if_pos (Nat.lt_succ_self i), idtGate, if_neg hpos]
      · exact if_congr (by omega) rfl rfl

theorem gateAt_clear {desc : ℕ} (h : ∀ k < 12, mem (desc + k) = 0) : gateAt mem desc = noGate := by
  have hload : ∀ a n, loadNat (fun _ => 0) a n = 0 := fun a n => loadNat_clear fun _ _ => rfl
  have hzero : gateAt mem desc = gateAt (fun _ => 0) desc := gateAt_congr h
  rw [hzero]
  simp [gateAt, hload, noGate]

theorem idtInit_gate (hcs : csSeg < 2 ^ 16) (hstub : ∀ i, isrStubTable i < 2 ^ 64) (mem : ℕ → ℕ) (idt : ℕ)
    (hi : i < idtsize) :
    gateAt (idtInit isrStubTable csSeg mem idt).1 (idt + i * idtEntrySize) = idtGate isrStubTable csSeg i := by
  have hsize : idtsize * idtEntrySize = 4096 := rfl
  have hclear : ∀ i < idtsize, gateAt (Libc.memset mem idt 0 (idtsize * idtEntrySize)) (idt + i * idtEntrySize) =
      noGate := by
    intro i hi
    apply gateAt_clear
    intro k hk
    have hin : i * 16 + 16 ≤ 4096 := by
      unfold idtsize at hi
      omega
    rw [Libc.memset_apply, hsize, idtEntrySize, if_pos (by omega)]
  have hgate := setGates_gate (n := idtsize) hcs hstub hclear hi
  rwa [if_pos hi] at hgate

theorem idtInit_outside (isrStubTable : ℕ → ℕ) (csSeg : ℕ) (mem : ℕ → ℕ) {p : ℕ}
    (h : p < idt ∨ idt + idtsize * idtEntrySize ≤ p) : (idtInit isrStubTable csSeg mem idt).1 p = mem p := by
  have hrun : (idtInit isrStubTable csSeg mem idt).1 p =
      setGates isrStubTable csSeg idt (Libc.memset mem idt 0 (idtsize * idtEntrySize)) idtsize p := rfl
  rw [hrun, setGates_outside h, Libc.memset_apply, if_neg (by omega)]

end Table

/-! ## From an interrupt to its handler, and back -/

/-- What the processor reads is what `idt_init` stored, and the kernel's code segment. -/
structure SystemTables.Ready (t : SystemTables) (isrStubTable : ℕ → ℕ) (mem : ℕ → ℕ) (idt : ℕ) : Prop where
  gates : ∀ p, idt ≤ p → p < idt + idtsize * idtEntrySize → t.mem p = (idtInit isrStubTable gdt64KernelCs mem idt).1 p
  idtr : t.idtr = (idtInit isrStubTable gdt64KernelCs mem idt).2
  code : segmentOf (loadEntry t.mem (t.gdtr.base + 1 * entrySize)) = flatSegment codeType 0 1 0
  gdtr : t.gdtr.size = gdtsize * entrySize - 1

/-- The addresses of the stubs. -/
structure StubTable (isrStubTable : ℕ → ℕ) : Prop where
  address : ∀ i, isrStubTable i < 2 ^ 64
  stub : ∀ i < idtsize, 0 < isrStubTable i ↔ isrStub i = true

/-- Where the processor begins to push. -/
def SystemTables.handlerStack (t : SystemTables) (c : Cpu) (i : ℕ) : Word := t.stack c (idtIst i) 0 &&& ~~~0xF

/-- `trapframe` with the error code. -/
def trapframeOf (c : Cpu) (i : ℕ) (errcode : Word) : List Word :=
  isrPopped.map c.gpr ++ [BitVec.ofNat 64 i, errcode, c.rip, c.cs, c.rflags, c.rsp, c.ss]

/-- The processor at the first instruction of a stub. -/
def Cpu.entered (c : Cpu) (rip sp : Word) (errcode : Option Word) : Cpu :=
  { c with
    rip := rip
    cs := BitVec.ofNat 64 gdt64KernelCs
    ss := if 0 < c.cpl then 0 else c.ss
    rflags := c.rflags &&& ~~~0x34300
    rsp := down sp (5 + errcode.toList.length)
    mem := pushAll c.mem sp ([c.ss, c.rsp, c.rflags, c.cs, c.rip] ++ errcode.toList) }

/-- The vectors an `int` instruction reaches. -/
def softwareVector (c : Cpu) (i : ℕ) : Prop := c.cpl = 0 ∨ i = 0x80 ∨ i = 0x81

instance (c : Cpu) (i : ℕ) : Decidable (softwareVector c i) := inferInstanceAs (Decidable (_ ∨ _))

section Delivery
variable {t : SystemTables} {isrStubTable : ℕ → ℕ} {mem : ℕ → ℕ} {idt i : ℕ}

theorem SystemTables.Ready.gate (h : t.Ready isrStubTable mem idt) (hstub : StubTable isrStubTable) (hi : i < idtsize) :
    gateAt t.mem (t.idtr.base + i * 16) = idtGate isrStubTable gdt64KernelCs i := by
  rw [h.idtr, ← idtInit_gate (by decide) hstub.address mem idt hi]
  apply gateAt_congr
  intro k hk
  have hin : i * 16 + 16 ≤ 256 * 16 := by
    unfold idtsize at hi
    omega
  exact h.gates (idt + i * 16 + k) (by omega) (by unfold idtsize idtEntrySize; omega)

/-- All checks of the processor but two pass. -/
theorem deliver_eq (h : t.Ready isrStubTable mem idt) (hstub : StubTable isrStubTable) (hi : i < idtsize)
    (errcode : Option Word) (software : Bool) (c : Cpu) : t.deliver i errcode software c =
      if isrStub i = true ∧ (software = true → softwareVector c i) then
        .ok (c.entered (BitVec.ofNat 64 (isrStubTable i)) (t.handlerStack c i) errcode)
      else .error .gp := by
  have hlimit : ¬ t.idtr.size < i * 16 + 15 := by
    have hsize : t.idtr.size = 4095 := congrArg GdtrPtr.size h.idtr
    unfold idtsize at hi
    omega
  have hcode : segmentOf (loadEntry t.mem (t.gdtr.base + gdt64KernelCs / 8 * 8)) = flatSegment codeType 0 1 0 := h.code
  unfold SystemTables.deliver
  dsimp only
  rw [if_neg hlimit, h.gate hstub hi, idtGate]
  by_cases hpos : isrStubTable i > 0
  · have hbit := (hstub.stub i hi).mp hpos
    rw [if_pos hpos, if_neg (by simp)]
    by_cases hsoft : software = true ∧ (if i = 0x80 ∨ i = 0x81 then 3 else 0) < c.cpl
    · have hnot : ¬ (software = true → softwareVector c i) := by
        intro hvector
        obtain ⟨hsw, hlevel⟩ := hsoft
        have hc : c.cpl < 4 := Nat.mod_lt _ (by decide)
        rcases hvector hsw with hzero | hsys
        · split_ifs at hlevel <;> omega
        · rw [if_pos hsys] at hlevel
          omega
      rw [if_pos hsoft, if_neg (fun hboth => hnot hboth.2)]
    · have hvector : software = true → softwareVector c i := by
        intro hsw
        unfold softwareVector
        by_contra hnone
        obtain ⟨huser, hother⟩ := not_or.mp hnone
        rw [if_neg hother] at hsoft
        exact hsoft ⟨hsw, Nat.pos_of_ne_zero huser⟩
      have hlevel : ¬ (flatSegment codeType 0 1 0).type / 4 % 2 = 1 := by decide
      have hselector : gdt64KernelCs / 4 * 4 + 0 = gdt64KernelCs := rfl
      rw [if_neg hsoft, if_neg (by simp), if_neg (by simp [h.gdtr, gdt64KernelCs, gdtsize, entrySize]), hcode,
        if_neg (by simp [flatSegment, codeType]), if_neg (by simp [flatSegment]), if_pos (And.intro hbit hvector)]
      simp only [hlevel, if_false, if_true]
      simp only [flatSegment, hselector, Cpu.entered, SystemTables.handlerStack]
      rfl
  · have hbit : ¬ isrStub i = true := fun hb => hpos ((hstub.stub i hi).mpr hb)
    rw [if_neg hpos, if_pos (by decide), if_neg (fun hboth => hbit hboth.1)]

end Delivery

/-! ## Handlers -/

/-- From the stub to the call of `isr_generic`. -/
def isrEntry (i : ℕ) (d : Cpu) : Cpu := run (isrStubCode i ++ isrCommon) d

section Handlers
variable {i : ℕ} {errcode : Option Word} {sp rip : Word} {c : Cpu}

theorem length_trapframeOf (c : Cpu) (i : ℕ) (e : Word) : (trapframeOf c i e).length = 22 := rfl

/-- The stub pushes an error code where the processor did not. -/
theorem isrEntry_state (herr : errcode.isSome = isrWithErrorcode i) (c : Cpu) (rip sp : Word) :
    (isrEntry i (c.entered rip sp errcode)).rsp = down sp 22 ∧
    (isrEntry i (c.entered rip sp errcode)).gpr .rdi = down sp 22 ∧
    (isrEntry i (c.entered rip sp errcode)).mem = pushAll c.mem sp (trapframeOf c i (errcode.getD 0)).reverse := by
  cases errcode with
  | none =>
    have hno : isrWithErrorcode i = false := herr.symm
    simp [isrEntry, isrStubCode, hno, isrCommon, Instr.exec, Cpu.pushWord, Cpu.setReg, Cpu.entered,
      down_down, isrPushed, isrPopped, trapframeOf, pushAll]
  | some e =>
    have hyes : isrWithErrorcode i = true := herr.symm
    simp [isrEntry, isrStubCode, hyes, isrCommon, Instr.exec, Cpu.pushWord, Cpu.setReg, Cpu.entered,
      down_down, isrPushed, isrPopped, trapframeOf, pushAll]

theorem isrExit_trapframeOf {d : Cpu} {e : Word} (h : wordsAt d.mem d.rsp 22 = trapframeOf c i e) :
    run isrExit d = { c with cr3 := d.cr3, mem := d.mem } := by
  obtain ⟨hgprs, hrun⟩ := run_isrExit (by rw [List.length_map]) h
  have hgpr : (run isrExit d).gpr = c.gpr := by
    funext r
    exact List.map_inj_left.mp hgprs r (mem_isrPopped r)
  rw [hgpr] at hrun
  exact hrun

/-- `isr_generic` gets the frame of what was interrupted, and can return to it. -/
structure Handled (c : Cpu) (i : ℕ) (sp errcode : Word) (e : Cpu) : Prop where
  place : e.rsp = down sp 22
  argument : e.gpr .rdi = e.rsp
  aligned : tframeAligned e.rsp = true
  frame : wordsAt e.mem e.rsp 22 = trapframeOf c i errcode
  elsewhere : ∀ w, (∀ k < 22, w ≠ down sp (k + 1)) → e.mem w = c.mem w
  back : ∀ d : Cpu, d.rsp = e.rsp → wordsAt d.mem d.rsp 22 = wordsAt e.mem e.rsp 22 →
    run isrExit d = { c with cr3 := d.cr3, mem := d.mem }

theorem handled_entered (herr : errcode.isSome = isrWithErrorcode i) (c : Cpu) (rip top : Word) :
    Handled c i (top &&& ~~~0xF) (errcode.getD 0) (isrEntry i (c.entered rip (top &&& ~~~0xF) errcode)) := by
  obtain ⟨hrsp, hrdi, hmem⟩ := isrEntry_state herr c rip (top &&& ~~~0xF)
  have hframe : wordsAt (isrEntry i (c.entered rip (top &&& ~~~0xF) errcode)).mem
      (isrEntry i (c.entered rip (top &&& ~~~0xF) errcode)).rsp 22 = trapframeOf c i (errcode.getD 0) := by
    have hlen : (trapframeOf c i (errcode.getD 0)).reverse.length = 22 := rfl
    have hshort : 8 * (trapframeOf c i (errcode.getD 0)).reverse.length < 2 ^ 64 := by
      rw [hlen]
      norm_num
    have hpushed := wordsAt_pushAll c.mem (top &&& ~~~0xF) hshort
    rwa [List.reverse_reverse, hlen, ← hmem, ← hrsp] at hpushed
  refine ⟨hrsp, by rw [hrdi, hrsp], by rw [hrsp, tframeAligned_down], hframe, ?_, ?_⟩
  · intro w hw
    rw [hmem, pushAll_frame]
    intro k hk
    exact hw k (by rwa [List.length_reverse, length_trapframeOf] at hk)
  · intro d hsp hsame
    rw [hframe] at hsame
    exact isrExit_trapframeOf hsame

end Handlers

/-- **An interrupt or an `int` instruction reaches its stub exactly where there is one and, from user code, the
instruction is a system call. The handler gets what was interrupted on the stack of the vector, and `isr_exit` goes back
to it.** -/
theorem interrupt_delivery {t : SystemTables} {isrStubTable mem : ℕ → ℕ} {idt : ℕ} (h : t.Ready isrStubTable mem idt)
    (hstub : StubTable isrStubTable) {i : ℕ} (hi : i < idtsize) (errcode : Option Word) (software : Bool) (c : Cpu) :
    (¬ (isrStub i = true ∧ (software = true → softwareVector c i)) → t.deliver i errcode software c = .error .gp) ∧
    (isrStub i = true ∧ (software = true → softwareVector c i) → ∃ d, t.deliver i errcode software c = .ok d ∧
      d.rip = BitVec.ofNat 64 (isrStubTable i) ∧ d.cpl = 0 ∧ d.rflags.getLsbD 9 = false ∧
      (errcode.isSome = isrWithErrorcode i → Handled c i (t.handlerStack c i) (errcode.getD 0) (isrEntry i d))) := by
  rw [deliver_eq h hstub hi]
  constructor
  · intro hnot
    rw [if_neg hnot]
  · intro htaken
    rw [if_pos htaken]
    refine ⟨_, rfl, rfl, by simp [Cpu.entered, Cpu.cpl, gdt64KernelCs], ?_, fun herr => handled_entered herr c _ _⟩
    have hmask : (~~~0x34300 : Word).getLsbD 9 = false := by decide
    rw [Cpu.entered, BitVec.getLsbD_and, hmask, Bool.and_false]

/-- Stubs from 1 MiB on. -/
def someStubs (i : ℕ) : ℕ := if isrStub i then 0x100000 + 16 * i else 0

/-- Segments at 8 KiB. -/
def someSegments : ℕ → ℕ := gdtSetupGdt (fun _ => 0) 0x2000

def someTables : SystemTables where
  mem := (idtInit someStubs gdt64KernelCs someSegments 0).1
  idtr := (idtInit someStubs gdt64KernelCs someSegments 0).2
  gdtr := ⟨gdtsize * entrySize - 1, 0x2000⟩
  tr := 0x3000

theorem someStubs_right : StubTable someStubs := by
  constructor
  · intro i
    unfold someStubs
    split_ifs with hi
    · have hbound : i ≤ 129 := by
        simp only [isrStub, isrWithErrorcode, List.mem_cons, List.not_mem_nil, or_false, Bool.or_eq_true,
          Bool.and_eq_true, decide_eq_true_eq] at hi
        omega
      omega
    · decide
  · intro i _
    unfold someStubs
    split_ifs with hi
    · exact iff_of_true (by omega) hi
    · exact iff_of_false (by omega) hi

theorem someTables_ready : someTables.Ready someStubs someSegments 0 := by
  have hmem : someTables.mem = (idtInit someStubs gdt64KernelCs someSegments 0).1 := by simp only [someTables]
  have hcode : loadEntry someTables.mem (0x2000 + 1 * entrySize) = loadEntry someSegments (0x2000 + 1 * entrySize) := by
    rw [hmem]
    apply loadEntry_congr
    intro k _
    exact idtInit_outside someStubs gdt64KernelCs someSegments (.inr (by unfold idtsize idtEntrySize; omega))
  exact ⟨fun p _ _ => congrFun hmem p, by simp only [someTables],
    (congrArg segmentOf hcode).trans (gdtSetupGdt_right (fun _ => 0) 0x2000).segments.1, rfl⟩

/-- User code makes a system call. -/
def someUser : Cpu := ⟨fun _ => 1, 0x7000, 0x400123, 0x202, 0, 0x23, 0x1B, fun _ => 0⟩

theorem interrupt_delivery_syscall :
    (¬ (isrStub 0x80 = true ∧ (true = true → softwareVector someUser 0x80)) →
      someTables.deliver 0x80 none true someUser = .error .gp) ∧
    (isrStub 0x80 = true ∧ (true = true → softwareVector someUser 0x80) → ∃ d,
      someTables.deliver 0x80 none true someUser = .ok d ∧ d.rip = BitVec.ofNat 64 (someStubs 0x80) ∧ d.cpl = 0 ∧
      d.rflags.getLsbD 9 = false ∧ ((none : Option Word).isSome = isrWithErrorcode 0x80 →
        Handled someUser 0x80 (someTables.handlerStack someUser 0x80) 0 (isrEntry 0x80 d))) :=
  interrupt_delivery someTables_ready someStubs_right (by decide) none true someUser

end Borgos.Arch
