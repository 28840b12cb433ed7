import Borgos.Boot.Bootmem
import Borgos.Boot.MemoryMap

/-! # Where `multiboot2_set_bootmem` puts the boot heap

The first entry of the memory map that is available and longer than 1 MB is taken. Its start is moved up by the end of
the kernel image and by `BOOTMEM_STARTMB`, and is aligned to a page. Here `BOOTMEM_STARTMB` is a parameter, which may
also be left out of the configuration.
-/
namespace Borgos.Boot
open Borgos.Foundations Borgos.Mem
set_option autoImplicit false

section Configured
variable (startmb : Option ℕ)

/-- The configured start, if there are at least 8 MB of the entry above it. -/
def startmbAddr (start len : ℕ) : Option ℕ :=
  match startmb with
  | none => none
  | some mb => if entryEnd start len > mb * 1024 * 1024 + 8 * 1024 * 1024 then some (mb * 1024 * 1024) else none

/-- `bootmemstart` after all adjustments. -/
def bootmemStartWith (start len bootimageEnd : ℕ) : ℕ :=
  pagealignUp
    (match startmbAddr startmb start len with
    | some k => k
    | none => if bootimageEnd ≥ start ∧ bootimageEnd < entryEnd start len then pagealignUp bootimageEnd else start)

/-- The body of the loop of `multiboot2_set_bootmem` once an entry has been found. -/
def setBootmemAtWith (fuel start len bootimageEnd : ℕ) : Prog BootInfo BootResult :=
  let bootmemstart := bootmemStartWith startmb start len bootimageEnd
  if ∃ k ∈ startmbAddr startmb start len, bootimageEnd ≥ k then
    Prog.panic "BootImage INSIDE bootmemstart set by BOOTMEM_STARTMB"
  else do
    Prog.modify fun s =>
      { s with bootmem := ⟨bootmemstart, bootmemstart, (start + len + wordSize - bootmemstart) % wordSize⟩ }
    multiboot2CheckModuleoverlap fuel bootmemstart
    multiboot2Relocate bootmemstart
    Prog.modify fun s => { s with bootmem := { s.bootmem with heaptop := blockEnd s.mbiAddr (u32 s.mem s.mbiAddr) } }
    multiboot2RelocateModules fuel
    pure .ok

def setBootmemFromWith (fuel mmap bootimageEnd : ℕ) : ℕ → ℕ → Prog BootInfo BootResult
  | 0, _ => Prog.stuck
  | n + 1, i => fun s =>
    if entryReached s.mem mmap i then
      if entryUsable s.mem mmap i then
        setBootmemAtWith startmb fuel (entryAddr s.mem mmap i) (entryLen s.mem mmap i) bootimageEnd s
      else setBootmemFromWith fuel mmap bootimageEnd n (i + 1) s
    else .ok .error s

def multiboot2SetBootmemWith (fuel bootimageEnd : ℕ) : Prog BootInfo BootResult := do
  let mmaptag ← multiboot2Gettag fuel multibootTagTypeMmap
  match mmaptag with
  | some mmap => setBootmemFromWith startmb fuel mmap bootimageEnd fuel 0
  | none => pure .error

end Configured

/-! ## The repository's configuration -/

theorem startmbAddr_pos {start len : ℕ} (h : startsAtStartmb start len) :
    startmbAddr (some bootmemStartmb) start len = some (bootmemStartmb * 1024 * 1024) := by
  unfold startmbAddr
  exact if_pos h

theorem startmbAddr_neg {start len : ℕ} (h : ¬startsAtStartmb start len) :
    startmbAddr (some bootmemStartmb) start len = none := by
  unfold startmbAddr
  exact if_neg h

theorem bootmemStartWith_startmb (start len bootimageEnd : ℕ) :
    bootmemStartWith (some bootmemStartmb) start len bootimageEnd = bootmemStart start len bootimageEnd := by
  unfold bootmemStartWith bootmemStart
  by_cases h : startsAtStartmb start len
  · rw [startmbAddr_pos h, if_pos h]
  · rw [startmbAddr_neg h, if_neg h]

theorem setBootmemAtWith_startmb (fuel start len bootimageEnd : ℕ) :
    setBootmemAtWith (some bootmemStartmb) fuel start len bootimageEnd = setBootmemAt fuel start len bootimageEnd := by
  have hpanic : (∃ k ∈ startmbAddr (some bootmemStartmb) start len, bootimageEnd ≥ k) ↔
      startsAtStartmb start len ∧ bootimageEnd ≥ bootmemStartmb * 1024 * 1024 := by
    by_cases h : startsAtStartmb start len
    · rw [startmbAddr_pos h]
      constructor
      · rintro ⟨k, hk, hle⟩
        rw [Option.mem_some_iff] at hk
        exact ⟨h, hk ▸ hle⟩
      · exact fun hle => ⟨_, rfl, hle.2⟩
    · rw [startmbAddr_neg h]
      constructor
      · rintro ⟨k, hk, -⟩
        cases hk
      · exact fun hle => absurd hle.1 h
  unfold setBootmemAtWith setBootmemAt
  rw [bootmemStartWith_startmb]
  by_cases h : startsAtStartmb start len ∧ bootimageEnd ≥ bootmemStartmb * 1024 * 1024
  · rw [if_pos h, if_pos (hpanic.mpr h)]
  · rw [if_neg h, if_neg (fun hp => h (hpanic.mp hp))]

/-- With `BOOTMEM_STARTMB` set to 16, as it is, this is `multiboot2_set_bootmem`. -/
theorem multiboot2SetBootmemWith_startmb (fuel bootimageEnd : ℕ) :
    multiboot2SetBootmemWith (some bootmemStartmb) fuel bootimageEnd = multiboot2SetBootmem fuel bootimageEnd := by
  have hloop : ∀ mmap n i, setBootmemFromWith (some bootmemStartmb) fuel mmap bootimageEnd n i =
      setBootmemFrom fuel mmap bootimageEnd n i := by
    intro mmap n
    induction n with
    | zero => exact fun i => rfl
    | succ n ih =>
      intro i
      unfold setBootmemFromWith setBootmemFrom
      simp only [setBootmemAtWith_startmb, ih]
      rfl
  unfold multiboot2SetBootmemWith multiboot2SetBootmem
  apply congrArg (multiboot2Gettag fuel multibootTagTypeMmap >>= ·)
  funext mmaptag
  cases mmaptag with
  | none => rfl
  | some mmap => exact hloop mmap fuel 0

/-! ## The property -/

/-- The loop takes entry `k`. -/
structure FirstUsable (mem : Memory) (mmap k : ℕ) : Prop where
  before : ∀ j < k, ¬entryUsable mem mmap j
  reached : ∀ j ≤ k, entryReached mem mmap j
  usable : entryUsable mem mmap k

/-- The address after the last byte of an entry. -/
def entryLimit (mem : Memory) (mmap i : ℕ) : ℕ := entryAddr mem mmap i + entryLen mem mmap i

/-- The boot heap lies in a usable entry of the tag, which has `n` of them, above the kernel image if that ends in the
entry; and the size that was computed from entry `k` is right. -/
structure Placed (mem : Memory) (mmap n k bootimageEnd : ℕ) (b : BootmemInfo) : Prop where
  aligned : pagesize ∣ b.addr
  inside : ∃ i < n, entryUsable mem mmap i ∧ entryAddr mem mmap i ≤ b.addr ∧
    b.addr + b.maxsize ≤ entryLimit mem mmap i ∧
    (entryAddr mem mmap i ≤ bootimageEnd ∧ bootimageEnd < entryLimit mem mmap i →
    roundUp bootimageEnd pagesize ≤ b.addr)
  nowrap : b.addr + b.maxsize = entryLimit mem mmap k

/-- Entry `k` is one of the tag's. Where the configured start applies, a usable entry reaches from there to the end of
entry `k`; otherwise the kernel image does not end at the last byte of entry `k`, and if it ends before, the page after
it is not beyond the entry. -/
def PlaceFits (startmb : Option ℕ) (mem : Memory) (mmap n k bootimageEnd : ℕ) : Prop :=
  k < n ∧ match startmbAddr startmb (entryAddr mem mmap k) (entryLen mem mmap k) with
    | some a =>
        ∃ i < n, entryUsable mem mmap i ∧ entryAddr mem mmap i ≤ a ∧ entryLimit mem mmap k ≤ entryLimit mem mmap i
    | none => bootimageEnd + 1 ≠ entryLimit mem mmap k ∧
      (entryAddr mem mmap k ≤ bootimageEnd ∧ bootimageEnd + 1 < entryLimit mem mmap k →
        roundUp bootimageEnd pagesize ≤ entryLimit mem mmap k ∧ roundUp bootimageEnd pagesize < wordSize)

/-! ## The arithmetic of the choice -/

section Arithmetic
variable {start len bootimageEnd : ℕ}

theorem entryEnd_eq (start : ℕ) (hlen : 0 < len) (hlimit : start + len ≤ wordSize) :
    entryEnd start len = start + len - 1 := by
  unfold entryEnd wordSize at *
  omega

theorem pagealignUp_eq {x : ℕ} (h : roundUp x pagesize < wordSize) : pagealignUp x = roundUp x pagesize := by
  unfold pagealignUp roundUp pagesize wordSize at *
  omega

theorem pagealignUp_aligned {x : ℕ} (h : pagesize ∣ x) (hx : x < wordSize) : pagealignUp x = x := by
  obtain ⟨m, rfl⟩ := h
  unfold pagealignUp pagesize wordSize at *
  omega

/-- The end of the image lies in the last page of the address space. -/
theorem pagealignUp_top (hb : bootimageEnd < wordSize) (h : wordSize ≤ roundUp bootimageEnd pagesize) :
    pagealignUp bootimageEnd = 0 := by
  unfold pagealignUp roundUp pagesize wordSize at *
  omega

theorem startmbAddr_some {startmb : Option ℕ} {a : ℕ} (h : startmbAddr startmb start len = some a)
    (hmb : ∀ mb ∈ startmb, mb < 2040) : pagesize ∣ a ∧ a < 2 ^ 31 ∧ a < entryEnd start len := by
  unfold startmbAddr at h
  cases startmb with
  | none => cases h
  | some mb =>
    dsimp only at h
    have hlt := hmb mb rfl
    split at h
    · rename_i hend
      obtain rfl := Option.some.inj h
      have hover : mb * 1024 * 1024 < entryEnd start len := lt_of_le_of_lt (Nat.le_add_right _ _) hend
      clear hend
      refine ⟨⟨mb * 256, by unfold pagesize; omega⟩, by omega, hover⟩
    · cases h

/-- The size as it is computed, for a start in the entry. -/
theorem maxsize_eq (start len b : ℕ) (hb : b ≤ start + len) (hlimit : start + len ≤ wordSize)
    (hzero : b = 0 → start + len < wordSize) :
    b + (start + len + wordSize - b) % wordSize = start + len := by
  unfold wordSize at *
  omega

end Arithmetic

/-! ## The places -/

section Places
variable {mem : Memory} {mmap n k bootimageEnd : ℕ} {startmb : Option ℕ}

/-- The values that are stored for entry `k`. -/
def chosenBootmem (startmb : Option ℕ) (mem : Memory) (mmap k bootimageEnd heaptop : ℕ) : BootmemInfo :=
  let b := bootmemStartWith startmb (entryAddr mem mmap k) (entryLen mem mmap k) bootimageEnd
  ⟨b, heaptop, (entryAddr mem mmap k + entryLen mem mmap k + wordSize - b) % wordSize⟩

variable {heaptop : ℕ}

/-- The start is the configured one. -/
theorem placed_startmb {a : ℕ} (ha : startmbAddr startmb (entryAddr mem mmap k) (entryLen mem mmap k) = some a)
    (hmb : ∀ mb ∈ startmb, mb < 2040) (himage : bootimageEnd < a) (hlimit : entryLimit mem mmap k ≤ wordSize)
    (hlen : 0 < entryLen mem mmap k) :
    Placed mem mmap n k bootimageEnd (chosenBootmem startmb mem mmap k bootimageEnd heaptop) ↔
      ∃ i < n, entryUsable mem mmap i ∧ entryAddr mem mmap i ≤ a ∧ entryLimit mem mmap k ≤ entryLimit mem mmap i := by
  obtain ⟨hpage, ha31, haend⟩ := startmbAddr_some ha hmb
  rw [entryEnd_eq _ hlen hlimit] at haend
  have hb : bootmemStartWith startmb (entryAddr mem mmap k) (entryLen mem mmap k) bootimageEnd = a := by
    unfold bootmemStartWith
    rw [ha]
    have hword : a < wordSize := by
      unfold wordSize
      omega
    exact pagealignUp_aligned hpage hword
  have hsize : a + (entryAddr mem mmap k + entryLen mem mmap k + wordSize - a) % wordSize = entryLimit mem mmap k :=
    maxsize_eq _ _ _ (by omega) hlimit (by omega)
  have hround : roundUp bootimageEnd pagesize ≤ a := by
    obtain ⟨m, rfl⟩ := hpage
    unfold roundUp pagesize at *
    omega
  unfold chosenBootmem
  rw [hb]
  dsimp only
  constructor
  · rintro ⟨-, ⟨i, hi, husable, hlow, hhigh, -⟩, -⟩
    dsimp only at hlow hhigh
    exact ⟨i, hi, husable, hlow, by rwa [hsize] at hhigh⟩
  · rintro ⟨i, hi, husable, hlow, hhigh⟩
    refine ⟨hpage, ⟨i, hi, husable, hlow, ?_, fun _ => hround⟩, hsize⟩
    rw [hsize]
    exact hhigh

/-- The kernel image ends outside of the entry: the entry is used from its first page on. -/
theorem bootmemStartWith_outside (hstart : startmbAddr startmb (entryAddr mem mmap k) (entryLen mem mmap k) = none)
    (hlimit : entryLimit mem mmap k ≤ wordSize) (hlen : 0x100000 < entryLen mem mmap k)
    (hout : ¬(entryAddr mem mmap k ≤ bootimageEnd ∧ bootimageEnd + 1 < entryLimit mem mmap k)) :
    bootmemStartWith startmb (entryAddr mem mmap k) (entryLen mem mmap k) bootimageEnd =
      roundUp (entryAddr mem mmap k) pagesize := by
  unfold entryLimit at *
  have hend := entryEnd_eq (entryAddr mem mmap k) (by omega) hlimit
  unfold bootmemStartWith
  rw [hstart, hend]
  dsimp only
  rw [if_neg (by omega)]
  apply pagealignUp_eq
  unfold roundUp pagesize wordSize at *
  omega

theorem bootmemStartWith_inside (hstart : startmbAddr startmb (entryAddr mem mmap k) (entryLen mem mmap k) = none)
    (hlimit : entryLimit mem mmap k ≤ wordSize) (hlen : 0x100000 < entryLen mem mmap k)
    (hin : entryAddr mem mmap k ≤ bootimageEnd ∧ bootimageEnd + 1 < entryLimit mem mmap k) :
    bootmemStartWith startmb (entryAddr mem mmap k) (entryLen mem mmap k) bootimageEnd =
      pagealignUp (pagealignUp bootimageEnd) := by
  unfold entryLimit at *
  have hend := entryEnd_eq (entryAddr mem mmap k) (by omega) hlimit
  unfold bootmemStartWith
  rw [hstart, hend]
  dsimp only
  rw [if_pos (by omega)]

/-- The start is that of the entry or the end of the image. -/
theorem placed_plain (hstart : startmbAddr startmb (entryAddr mem mmap k) (entryLen mem mmap k) = none) (hk : k < n)
    (husable : entryUsable mem mmap k) (hlimit : entryLimit mem mmap k ≤ wordSize) (himage : bootimageEnd < wordSize) :
    Placed mem mmap n k bootimageEnd (chosenBootmem startmb mem mmap k bootimageEnd heaptop) ↔
      bootimageEnd + 1 ≠ entryLimit mem mmap k ∧
        (entryAddr mem mmap k ≤ bootimageEnd ∧ bootimageEnd + 1 < entryLimit mem mmap k →
          roundUp bootimageEnd pagesize ≤ entryLimit mem mmap k ∧ roundUp bootimageEnd pagesize < wordSize) := by
  have hlen : 0x100000 < entryLen mem mmap k := husable.2
  have hlen64 : entryLen mem mmap k < wordSize := u64_lt _ _
  have hpage : 0 < pagesize := by decide
  by_cases hin : entryAddr mem mmap k ≤ bootimageEnd ∧ bootimageEnd + 1 < entryLimit mem mmap k
  · have hb := bootmemStartWith_inside hstart hlimit hlen hin
    unfold chosenBootmem
    rw [hb]
    have hle := le_roundUp (x := bootimageEnd) hpage
    by_cases hword : roundUp bootimageEnd pagesize < wordSize
    · have hdvd := dvd_roundUp bootimageEnd pagesize
      rw [pagealignUp_eq hword, pagealignUp_aligned hdvd hword]
      constructor
      · rintro ⟨-, -, hnowrap⟩
        dsimp only at hnowrap
        exact ⟨by omega, fun _ => ⟨by omega, hword⟩⟩
      · rintro ⟨-, hfit⟩
        obtain ⟨hfit, -⟩ := hfit hin
        have hsize := maxsize_eq _ _ _ hfit hlimit (by unfold entryLimit at *; omega)
        refine ⟨hdvd, ⟨k, hk, husable, hin.1.trans hle, ?_, fun _ => le_rfl⟩, hsize⟩
        exact hsize.le
    · -- the page after the image is the end of the address space, and the address becomes 0
      rw [pagealignUp_top himage (not_lt.mp hword), show pagealignUp 0 = 0 by decide]
      constructor
      · rintro ⟨-, ⟨i, -, -, hlow, hhigh, hkernel⟩, hnowrap⟩
        dsimp only at hlow hhigh hkernel hnowrap
        have hzero := hkernel ⟨by omega, by omega⟩
        omega
      · rintro ⟨-, hfit⟩
        exact absurd (hfit hin).2 hword
  · have hb := bootmemStartWith_outside hstart hlimit hlen hin
    have hle := le_roundUp (x := entryAddr mem mmap k) hpage
    have hup : roundUp (entryAddr mem mmap k) pagesize < entryAddr mem mmap k + 0x100000 := by
      unfold roundUp pagesize
      omega
    have hsize := maxsize_eq (entryAddr mem mmap k) (entryLen mem mmap k) (roundUp (entryAddr mem mmap k) pagesize)
      (by omega) hlimit (by omega)
    unfold chosenBootmem
    rw [hb]
    dsimp only
    constructor
    · rintro ⟨-, ⟨i, -, -, hlow, hhigh, hkernel⟩, -⟩
      dsimp only at hlow hhigh hkernel
      refine ⟨fun hlast => ?_, fun h => absurd h hin⟩
      -- the last byte of the entry lies in the heap, so in that entry too
      rw [hsize] at hhigh
      have hround := le_roundUp (x := bootimageEnd) hpage
      unfold entryLimit at *
      have hkernel' := hkernel ⟨by omega, by omega⟩
      omega
    · rintro ⟨hlast, -⟩
      refine ⟨dvd_roundUp _ _, ⟨k, hk, husable, hle, hsize.le, fun h => ?_⟩, hsize⟩
      exact absurd ⟨h.1, by omega⟩ hin

end Places

/-! ## The run -/

section Run
variable {fuel tag : ℕ} {s s' : BootInfo}

theorem checkModuleoverlapFrom_same {newMbi : ℕ} (h : checkModuleoverlapFrom newMbi fuel tag s = .ok () s') :
    s' = s := by
  induction fuel generalizing tag with
  | zero => cases h
  | succ fuel ih =>
    unfold checkModuleoverlapFrom at h
    split at h
    · cases h
      rfl
    · split at h
      · cases h
      · exact ih h

theorem relocateModule_area (h : relocateModule tag s = .ok () s') :
    s'.bootmem.addr = s.bootmem.addr ∧ s'.bootmem.maxsize = s.bootmem.maxsize := by
  have hroom := relocateModule_room h
  obtain ⟨mem', mbiAddr', ⟨addr', heaptop', maxsize'⟩, modTable'⟩ := s'
  simp only [relocateModule, moduleAdd, Prog.bind_run, Prog.get_run, Prog.modify_run, Outcome.andThen_ok, if_pos hroom,
    Outcome.ok.injEq, BootInfo.mk.injEq, BootmemInfo.mk.injEq, true_and] at h
  exact ⟨h.2.2.1.1.symm, h.2.2.1.2.2.symm⟩

/-- Relocating the modules moves `heaptop` only. -/
theorem relocateModulesFrom_area (h : relocateModulesFrom fuel tag s = .ok () s') :
    s'.bootmem.addr = s.bootmem.addr ∧ s'.bootmem.maxsize = s.bootmem.maxsize := by
  induction fuel generalizing tag s with
  | zero => cases h
  | succ fuel ih =>
    simp only [relocateModulesFrom, Prog.bind_run, Prog.get_run, Outcome.andThen_ok] at h
    split at h
    · simp only [Prog.pure_run, Outcome.ok.injEq, true_and] at h
      subst h
      exact ⟨rfl, rfl⟩
    · split at h
      · obtain ⟨u, s₁, hone, hrest⟩ := Prog.bind_ok.mp h
        obtain ⟨haddr, hmax⟩ := relocateModule_area hone
        simp only [Prog.bind_run, Prog.get_run, Outcome.andThen_ok] at hrest
        obtain ⟨haddr', hmax'⟩ := ih hrest
        exact ⟨haddr'.trans haddr, hmax'.trans hmax⟩
      · exact ih h

variable {startmb : Option ℕ} {mmap bootimageEnd : ℕ}

theorem setBootmemAtWith_ok {start len : ℕ} (h : setBootmemAtWith startmb fuel start len bootimageEnd s = .ok .ok s') :
    (∀ k ∈ startmbAddr startmb start len, bootimageEnd < k) ∧
      s'.bootmem.addr = bootmemStartWith startmb start len bootimageEnd ∧
      s'.bootmem.maxsize = (start + len + wordSize - bootmemStartWith startmb start len bootimageEnd) % wordSize := by
  unfold setBootmemAtWith at h
  obtain ⟨b, hb⟩ : ∃ b, b = bootmemStartWith startmb start len bootimageEnd := ⟨_, rfl⟩
  rw [← hb] at h ⊢
  dsimp only at h
  split at h
  · cases h
  · rename_i hpanic
    obtain ⟨_, s₁, hset, h⟩ := Prog.bind_ok.mp h
    obtain ⟨_, s₂, hcheck, h⟩ := Prog.bind_ok.mp h
    obtain ⟨_, s₃, hrelocate, h⟩ := Prog.bind_ok.mp h
    obtain ⟨_, s₄, htop, h⟩ := Prog.bind_ok.mp h
    obtain ⟨_, s₅, hmods, h⟩ := Prog.bind_ok.mp h
    rw [Prog.modify_run, Outcome.ok.injEq] at hset htop
    rw [multiboot2Relocate_run, Outcome.ok.injEq] at hrelocate
    rw [Prog.pure_run, Outcome.ok.injEq] at h
    have h₂ := checkModuleoverlapFrom_same hcheck
    obtain ⟨haddr, hmax⟩ := relocateModulesFrom_area hmods
    rw [h.2] at haddr hmax
    refine ⟨fun k hk => lt_of_not_ge fun hge => hpanic ⟨k, hk, hge⟩, ?_, ?_⟩
    · rw [haddr, ← htop.2, ← hrelocate.2, h₂, ← hset.2]
    · rw [hmax, ← htop.2, ← hrelocate.2, h₂, ← hset.2]

theorem setBootmemFromWith_ok {n i : ℕ} (h : setBootmemFromWith startmb fuel mmap bootimageEnd n i s = .ok .ok s')
    (hbefore : ∀ j < i, ¬entryUsable s.mem mmap j) (hreached : ∀ j < i, entryReached s.mem mmap j) :
    ∃ k, FirstUsable s.mem mmap k ∧
      setBootmemAtWith startmb fuel (entryAddr s.mem mmap k) (entryLen s.mem mmap k) bootimageEnd s = .ok .ok s' := by
  induction n generalizing i with
  | zero => cases h
  | succ n ih =>
    unfold setBootmemFromWith at h
    split at h
    · rename_i hr
      have hreached' : ∀ j < i + 1, entryReached s.mem mmap j := by
        intro j hj
        rcases Nat.lt_succ_iff_lt_or_eq.mp hj with hj | rfl
        · exact hreached j hj
        · exact hr
      split at h
      · rename_i husable
        exact ⟨i, ⟨hbefore, fun j hj => hreached' j (Nat.lt_succ_of_le hj), husable⟩, h⟩
      · rename_i hunusable
        refine ih h (fun j hj => ?_) hreached'
        rcases Nat.lt_succ_iff_lt_or_eq.mp hj with hj | rfl
        · exact hbefore j hj
        · exact hunusable
    · cases h

end Run

/-- A memory-map tag with `n` entries, none of which wraps. -/
structure MmapEntries (mem : Memory) (mmap n : ℕ) : Prop where
  entrySize : u32 mem (mmap + 8) = 24
  size : tagSize mem mmap = 16 + 24 * n
  nowrap : ∀ i < n, entryLimit mem mmap i ≤ wordSize

/-- The loop goes one entry beyond the tag at most. -/
theorem FirstUsable.le {mem : Memory} {mmap n k : ℕ} (h : FirstUsable mem mmap k) (hm : MmapEntries mem mmap n) :
    k ≤ n := by
  by_contra hlt
  have hreached := h.reached (n + 1) (by omega)
  have hsize : u32 mem (mmap + 4) = 16 + 24 * n := hm.size
  have h32 := u32_lt mem (mmap + 4)
  unfold entryReached tagSize at hreached
  rw [hm.entrySize, hsize] at hreached
  omega

section Result
variable {startmb : Option ℕ} {fuel bootimageEnd o n : ℕ} {s s' : BootInfo}

theorem multiboot2SetBootmemWith_ok (hfirst : FirstTag s.mem s.mbiAddr multibootTagTypeMmap 8 o)
    (hrun : multiboot2SetBootmemWith startmb fuel bootimageEnd s = .ok .ok s') :
    ∃ k, FirstUsable s.mem (s.mbiAddr + o) k ∧
      (∀ a ∈ startmbAddr startmb (entryAddr s.mem (s.mbiAddr + o) k) (entryLen s.mem (s.mbiAddr + o) k),
        bootimageEnd < a) ∧
      s'.bootmem = chosenBootmem startmb s.mem (s.mbiAddr + o) k bootimageEnd s'.bootmem.heaptop := by
  obtain ⟨found, s₁, hgettag, hrun⟩ := Prog.bind_ok.mp hrun
  obtain ⟨rfl, rfl⟩ := (hfirst.gettag rfl).2 fuel found s₁ hgettag
  obtain ⟨k, hk, hat⟩ := setBootmemFromWith_ok hrun nofun nofun
  obtain ⟨himage, haddr, hmax⟩ := setBootmemAtWith_ok hat
  refine ⟨k, hk, himage, ?_⟩
  unfold chosenBootmem
  rw [← haddr] at hmax ⊢
  dsimp only
  rw [← hmax]

theorem placed_iff {mem : Memory} {mmap k heaptop : ℕ} (hm : MmapEntries mem mmap n) (hk : FirstUsable mem mmap k)
    (hmb : ∀ mb ∈ startmb, mb < 2040) (hb : bootimageEnd < wordSize)
    (himage : ∀ a ∈ startmbAddr startmb (entryAddr mem mmap k) (entryLen mem mmap k), bootimageEnd < a) :
    Placed mem mmap n k bootimageEnd (chosenBootmem startmb mem mmap k bootimageEnd heaptop) ↔
      PlaceFits startmb mem mmap n k bootimageEnd := by
  unfold PlaceFits
  rcases Nat.lt_or_eq_of_le (hk.le hm) with hlt | rfl
  · have hlimit := hm.nowrap k hlt
    have hlen : 0x100000 < entryLen mem mmap k := hk.usable.2
    cases hstart : startmbAddr startmb (entryAddr mem mmap k) (entryLen mem mmap k) with
    | none =>
      rw [placed_plain hstart hlt hk.usable hlimit hb]
      exact ⟨fun h => ⟨hlt, h⟩, fun h => h.2⟩
    | some a =>
      rw [placed_startmb hstart hmb (himage a hstart) hlimit (by omega)]
      exact ⟨fun h => ⟨hlt, h⟩, fun h => h.2⟩
  · -- the entry behind the tag is the first usable one, so none of the tag's is
    constructor
    · rintro ⟨-, ⟨i, hi, husable, -⟩, -⟩
      exact absurd husable (hk.before i hi)
    · exact fun h => absurd h.1 (lt_irrefl _)

/-- The heap is well placed exactly if the first usable entry admits the start that is chosen for it. -/
theorem bootmem_placement (hfirst : FirstTag s.mem s.mbiAddr multibootTagTypeMmap 8 o)
    (hm : MmapEntries s.mem (s.mbiAddr + o) n) (hmb : ∀ mb ∈ startmb, mb < 2040) (hb : bootimageEnd < wordSize)
    (hrun : multiboot2SetBootmemWith startmb fuel bootimageEnd s = .ok .ok s') :
    ∃ k, FirstUsable s.mem (s.mbiAddr + o) k ∧
      (Placed s.mem (s.mbiAddr + o) n k bootimageEnd s'.bootmem ↔
        PlaceFits startmb s.mem (s.mbiAddr + o) n k bootimageEnd) := by
  obtain ⟨k, hk, himage, hbootmem⟩ := multiboot2SetBootmemWith_ok hfirst hrun
  refine ⟨k, hk, ?_⟩
  rw [hbootmem]
  exact placed_iff hm hk hmb hb himage

end Result

theorem sampleBoot_first : FirstTag sampleBoot.mem sampleBoot.mbiAddr multibootTagTypeMmap 8 32 := mapBoot_first

theorem sampleBoot_entries : MmapEntries sampleBoot.mem (sampleBoot.mbiAddr + 32) 1 := by
  refine ⟨by decide, by decide, ?_⟩
  intro i hi
  obtain rfl : i = 0 := by omega
  decide

theorem bootmem_placement_sample : ∃ s', multiboot2SetBootmemWith none 4 0x200000 sampleBoot = .ok .ok s' ∧
    ∃ k, FirstUsable sampleBoot.mem (sampleBoot.mbiAddr + 32) k ∧
      (Placed sampleBoot.mem (sampleBoot.mbiAddr + 32) 1 k 0x200000 s'.bootmem ↔
        PlaceFits none sampleBoot.mem (sampleBoot.mbiAddr + 32) 1 k 0x200000) := by
  obtain ⟨s', hrun⟩ := Outcome.exists_of_value (a := BootResult.ok)
    (x := multiboot2SetBootmemWith none 4 0x200000 sampleBoot) (by decide +kernel)
  exact ⟨s', hrun, bootmem_placement sampleBoot_first sampleBoot_entries nofun (by decide) hrun⟩

/-- The only memory above 1 MB starts at 32 MB. -/
def highBoot : BootInfo where
  mem := FlatMemory.store (fun _ => 0) 0x8000
    [56, 0, 0, 0, 0, 0, 0, 0,
      6, 0, 0, 0, 40, 0, 0, 0, 24, 0, 0, 0, 0, 0, 0, 0,
      0, 0, 0, 0x2, 0, 0, 0, 0, 0, 0, 0, 0x2, 0, 0, 0, 0, 1, 0, 0, 0, 0, 0, 0, 0,
      0, 0, 0, 0, 8, 0, 0, 0]
  mbiAddr := 0x8000
  bootmem := ⟨0, 0, 0⟩
  modTable := []

theorem highBoot_first : FirstTag highBoot.mem highBoot.mbiAddr multibootTagTypeMmap 8 8 :=
  .here (by decide) (by decide)

/-- The heap is put at 16 MB, where there is no memory. -/
theorem bootmem_placed_below_memory : ∃ s', multiboot2SetBootmem 4 0x200000 highBoot = .ok .ok s' ∧
    s'.bootmem.addr = 0x1000000 ∧ ∀ k, ¬Placed highBoot.mem (highBoot.mbiAddr + 8) 1 k 0x200000 s'.bootmem := by
  obtain ⟨s', hrun⟩ := Outcome.exists_of_value (a := BootResult.ok)
    (x := multiboot2SetBootmem 4 0x200000 highBoot) (by decide)
  have hrun' : multiboot2SetBootmemWith (some bootmemStartmb) 4 0x200000 highBoot = .ok .ok s' := by
    rw [multiboot2SetBootmemWith_startmb]
    exact hrun
  obtain ⟨k, hk, -, hbootmem⟩ := multiboot2SetBootmemWith_ok highBoot_first hrun'
  obtain rfl : k = 0 := by
    by_contra hne
    exact hk.before 0 (Nat.pos_of_ne_zero hne) (by decide)
  have haddr : s'.bootmem.addr = 0x1000000 := by
    rw [hbootmem]
    exact (show bootmemStartWith (some bootmemStartmb) (entryAddr highBoot.mem (highBoot.mbiAddr + 8) 0)
      (entryLen highBoot.mem (highBoot.mbiAddr + 8) 0) 0x200000 = 0x1000000 by decide)
  refine ⟨s', hrun, haddr, ?_⟩
  rintro k ⟨-, ⟨i, hi, -, hlow, -⟩, -⟩
  obtain rfl : i = 0 := by omega
  rw [haddr] at hlow
  revert hlow
  decide

end Borgos.Boot
