import Borgos.Mem.BootSpec

/-! # Which frames the memory map may release

A frame with use count 0 is going to be released. It should lie wholly in FREE memory and share no
byte with memory that is spoken for. The kernel image and the boot heap are always avoided; the rest
depends on how the entries of the map meet frame boundaries.
-/
namespace Borgos.Mem
open Borgos.Foundations Borgos.Kcore Borgos.Foundations.Intrusive
set_option autoImplicit false

/-- The bytes of a frame. -/
def frameBytes (f : ℕ) : Set ℕ := Set.Ico (pagesize * f) (pagesize * (f + 1))

theorem mem_frameBytes {f x : ℕ} : x ∈ frameBytes f ↔ pagesize * f ≤ x ∧ x < pagesize * (f + 1) := Iff.rfl

namespace MemmapEntry

/-- A byte the entry describes. -/
def Covers (e : MemmapEntry) (x : ℕ) : Prop := e.addr ≤ x ∧ x < e.addr + e.size

/-- The frame and the entry share a byte. -/
def Touches (e : MemmapEntry) (f : ℕ) : Prop := ∃ x ∈ frameBytes f, e.Covers x

/-- The frame lies wholly in the entry. -/
def Contains (e : MemmapEntry) (f : ℕ) : Prop := ∀ x ∈ frameBytes f, e.Covers x

/-- The loop over the entry ends before it reaches the frame: the frame is the last one and its last
byte does not lie beyond the offset at which the loop steps, or the entry runs past `2^64`. -/
def StopsShort (e : MemmapEntry) (f : ℕ) : Prop :=
  wordSize < e.addr + e.size ∨ (f = e.endAddr / pagesize ∧ e.endAddr % pagesize ≤ e.addr % pagesize)

end MemmapEntry

/-- The frame is free memory only, and nothing that has to stay is in it. -/
structure FrameSafe (b : BootInfo) (t : Phys) (f : ℕ) : Prop where
  free : ∀ x ∈ frameBytes f, ∃ e ∈ b.memmap, e.type = .FREE ∧ e.Covers x
  reserved : ∀ e ∈ b.memmap, e.type = .RESERVED ∨ e.type = .ACPI_RECLAIMABLE ∨ e.type = .NVS → ¬e.Touches f
  kernel : ∀ x ∈ frameBytes f, ¬(b.bootimageStart ≤ x ∧ x ≤ b.bootimageEnd)
  bootmem : ∀ x ∈ frameBytes f, ¬(t.bootmeminfo.addr ≤ x ∧ x ≤ t.bootmeminfo.heaptop)

/-- The entries of the map meet the frames they expose cleanly. -/
structure CleanMap (b : BootInfo) (r : Reserve) (pfnMax : ℕ) : Prop where
  edges : ∀ f, f ≤ pfnMax → Exposed b r f → (∀ e ∈ b.memmap, e.type = .FREE → ¬e.Contains f) →
    ∀ x ∈ frameBytes f, ∃ e ∈ b.memmap, e.type = .FREE ∧ e.Covers x
  firmware : ∀ f, f ≤ pfnMax → Exposed b r f → ∀ e ∈ b.memmap,
    e.type = .ACPI_RECLAIMABLE ∨ e.type = .NVS → ¬e.Touches f
  short : ∀ f, f ≤ pfnMax → Exposed b r f → ∀ e ∈ b.memmap, e.type = .RESERVED → e.Touches f →
    ¬e.StopsShort f

theorem frameBytes_div {f x : ℕ} (h : x ∈ frameBytes f) : x / pagesize = f := by
  rw [mem_frameBytes] at h
  unfold pagesize at h ⊢
  omega

/-- A loop that does not stop short walks through every frame the entry touches. -/
theorem MemmapEntry.walked_of_touches {e : MemmapEntry} {f : ℕ} (hf : f < 2 ^ 31) (ht : e.Touches f)
    (hs : ¬e.StopsShort f) : f ∈ e.walked := by
  obtain ⟨x, hx, hc⟩ := ht
  unfold MemmapEntry.Covers at hc
  unfold MemmapEntry.StopsShort at hs
  push Not at hs
  obtain ⟨hend, hlast⟩ := hs
  have he : e.endAddr = e.addr + e.size - 1 := by
    unfold MemmapEntry.endAddr wordSize at *
    omega
  have hdiv := frameBytes_div hx
  have hi : e.addr + pagesize * (f - e.addr / pagesize) = pagesize * f + e.addr % pagesize := by
    unfold pagesize at hdiv ⊢
    omega
  refine ⟨f - e.addr / pagesize, ?_, ?_⟩
  · rw [hi]
    by_cases hl : f = e.endAddr / pagesize
    · have := hlast hl
      unfold pagesize at *
      omega
    · unfold pagesize at *
      omega
  · rw [hi, framePfn_of_lt (by unfold pagesize; omega)]
    unfold pagesize
    omega

/-- The top of the boot heap lies in the frame of the last byte handed out. -/
theorem bootmemTop_frame (s : Phys) (pfnCount : ℕ) :
    (bootmemTop s pfnCount + 1) % wordSize / pagesize = bootmemTop s pfnCount / pagesize := by
  have hdvd : bootmemTop s pfnCount % 8 = 0 := by
    unfold bootmemTop wordSize pagesize sizeofPage
    omega
  have hlt := bootmemTop_lt s pfnCount
  unfold wordSize at hlt
  unfold pagesize wordSize
  omega

section Safe
variable {b : BootInfo} {pfnCount : ℕ} {s t : Phys}

/-- No frame of the kernel image is exposed. -/
theorem Exposed.kernel {r : Reserve} {f : ℕ} (h : Exposed b r f)
    (hr : r.pfnKernelMin = phys2pfn b.bootimageStart ∧ r.pfnKernelMax = phys2pfn b.bootimageEnd) :
    ∀ x ∈ frameBytes f, ¬(b.bootimageStart ≤ x ∧ x ≤ b.bootimageEnd) := by
  intro x hx hin
  refine h.unkept (Or.inl ?_)
  rw [hr.1, hr.2, ← frameBytes_div hx]
  exact ⟨Nat.div_le_div_right hin.1, Nat.div_le_div_right hin.2⟩

/-- No frame of the boot heap is exposed. -/
theorem Exposed.bootmem {f : ℕ} (h : Exposed b (reserveOf b s pfnCount) f) (hd : PagemapDone b pfnCount s t) :
    ∀ x ∈ frameBytes f, ¬(t.bootmeminfo.addr ≤ x ∧ x ≤ t.bootmeminfo.heaptop) := by
  intro x hx hin
  rw [hd.heaptop] at hin
  refine h.unkept (Or.inr ?_)
  show f ≥ phys2pfn s.bootmeminfo.addr ∧ f ≤ phys2pfn (bootmemTop s pfnCount)
  have htop := Nat.div_le_div_right (c := pagesize) hin.2
  rw [bootmemTop_frame] at htop
  rw [← frameBytes_div hx]
  exact ⟨Nat.div_le_div_right hin.1, htop⟩

/-- **The frames left with use count 0 are safe to release exactly when the map is clean.** -/
theorem pagemap_safe_iff (b : BootInfo) (pfnCount : ℕ) (s t : Phys) (hcap : s.pfnMax ≤ maxpgdPfn)
    (h : physPagemapInit b pfnCount s = .ok () t) :
    (∀ f, f ≤ t.pfnMax → (t.pageframemap f).usecount = 0 → FrameSafe b t f) ↔
      CleanMap b (reserveOf b s pfnCount) s.pfnMax := by
  have hd := physPagemapInit_spec b pfnCount s t h
  constructor
  · intro hsafe
    have key : ∀ f, f ≤ s.pfnMax → Exposed b (reserveOf b s pfnCount) f → FrameSafe b t f :=
      fun f hf he => hsafe f (hd.pfnMax ▸ hf) ((hd.use f hf).mpr he)
    refine ⟨?_, ?_, ?_⟩
    · intro f hf he _
      exact (key f hf he).free
    · intro f hf he e hm ht
      exact (key f hf he).reserved e hm (Or.inr ht)
    · intro f hf he e hm ht htouch
      exact absurd htouch ((key f hf he).reserved e hm (Or.inl ht))
  · intro hclean f hf h0
    rw [hd.pfnMax] at hf
    have he := (hd.use f hf).mp h0
    refine ⟨?_, ?_, he.kernel ⟨rfl, rfl⟩, he.bootmem hd⟩
    · by_cases hc : ∃ e ∈ b.memmap, e.type = .FREE ∧ e.Contains f
      · obtain ⟨e, hm, ht, hin⟩ := hc
        exact fun x hx => ⟨e, hm, ht, hin x hx⟩
      · refine hclean.edges f hf he fun e hm ht hin => hc ⟨e, hm, ht, hin⟩
    · intro e hm ht htouch
      rcases ht with ht | ht
      · have hlt : f < 2 ^ 31 := by
          unfold maxpgdPfn at hcap
          omega
        exact he.unreserved ⟨e, hm, ht, MemmapEntry.walked_of_touches hlt htouch
          (hclean.short f hf he e hm ht htouch)⟩
      · exact hclean.firmware f hf he e hm ht htouch

end Safe

theorem lowBank_contains {f : ℕ} (h : f < 64) : lowBank.Contains f := by
  intro x hx
  rw [mem_frameBytes] at hx
  unfold pagesize at hx
  refine ⟨Nat.zero_le x, ?_⟩
  show x < 0 + 0x40000
  omega

theorem highBank_contains {f : ℕ} (h : 256 ≤ f ∧ f < 768) : highBank.Contains f := by
  intro x hx
  rw [mem_frameBytes] at hx
  unfold pagesize at hx
  show 0x100000 ≤ x ∧ x < 0x100000 + 0x200000
  omega

/-- The two banks begin and end on frame boundaries. -/
theorem pagemap_safe_twoBanks : ∃ t, physPagemapInit twoBanks 768 (setLimits highBank highBank powerOn) = .ok () t ∧
    ∀ f, f ≤ t.pfnMax → (t.pageframemap f).usecount = 0 → FrameSafe twoBanks t f := by
  obtain ⟨t, ht⟩ := physPagemapInit_returns twoBanks 768 (setLimits highBank highBank powerOn) twoBanks_walkable
  refine ⟨t, ht, (pagemap_safe_iff twoBanks 768 _ t (Nat.min_le_right _ _) ht).mpr ?_⟩
  have htype : ∀ e ∈ twoBanks.memmap, e.type = .FREE := by
    intro e he
    simp only [twoBanks, List.mem_cons, List.not_mem_nil, or_false] at he
    rcases he with e | e <;> subst e <;> rfl
  refine ⟨?_, ?_, ?_⟩
  · intro f _ he hno
    obtain ⟨e, hm, -, -, hw⟩ := he.free
    simp only [twoBanks, List.mem_cons, List.not_mem_nil, or_false] at hm
    rcases hm with e | e
    · subst e
      exact absurd (lowBank_contains (mem_lowBank_walked.mp hw)) (hno lowBank (by simp [twoBanks]) rfl)
    · subst e
      exact absurd (highBank_contains (mem_highBank_walked.mp hw)) (hno highBank (by simp [twoBanks]) rfl)
  · intro f _ _ e hm ht
    rw [htype e hm] at ht
    rcases ht with ht | ht <;> cases ht
  · intro f _ _ e hm ht
    rw [htype e hm] at ht
    cases ht

/-! ## A map with a ragged edge -/

/-- Free memory that ends in the middle of frame 768. -/
def raggedBank : MemmapEntry := ⟨0x100000, 0x200800, .FREE, highBank.addr_lt, by norm_num⟩

/-- ACPI tables from there on. -/
def acpiTables : MemmapEntry := ⟨0x300800, 0xf800, .ACPI_RECLAIMABLE, by norm_num, by norm_num⟩

def raggedMap : BootInfo := ⟨[raggedBank, acpiTables], 0x100000, 0x13ffff⟩

theorem raggedBank_end : raggedBank.endAddr = 0x3007ff := by
  norm_num [MemmapEntry.endAddr, raggedBank, wordSize]

theorem raggedMap_walkable : ∀ e ∈ raggedMap.memmap, e.Walkable := by
  intro e he
  simp only [raggedMap, List.mem_cons, List.not_mem_nil, or_false] at he
  unfold MemmapEntry.Walkable
  rcases he with e | e
  · subst e
    rw [raggedBank_end]
    norm_num [wordSize, pagesize, raggedBank]
  · subst e
    norm_num [MemmapEntry.endAddr, wordSize, pagesize, acpiTables]

/-- The state in which `phys_init` hands the ragged map to `phys_pagemap_init`. -/
def raggedPhys : Phys := setLimits raggedBank raggedBank (physInitMemoryzones powerOn)

theorem raggedPhys_pfnMax : raggedPhys.pfnMax = 768 := by
  unfold raggedPhys setLimits
  simp only [raggedBank_end]
  norm_num [pagealignDown, pagesize, maxpgdPfn]

/-- The ragged map releases frame 768, whose upper half holds ACPI tables. -/
theorem raggedMap_exposes_acpi : ∃ t, physPagemapInit raggedMap (raggedPhys.pfnMax + 1) raggedPhys = .ok () t ∧
    768 ≤ t.pfnMax ∧ (t.pageframemap 768).usecount = 0 ∧ acpiTables ∈ raggedMap.memmap ∧
    acpiTables.Touches 768 ∧ ¬FrameSafe raggedMap t 768 := by
  obtain ⟨t, ht⟩ := physPagemapInit_returns raggedMap (raggedPhys.pfnMax + 1) raggedPhys raggedMap_walkable
  have hd := physPagemapInit_spec raggedMap _ raggedPhys t ht
  have hmem : acpiTables ∈ raggedMap.memmap := by simp [raggedMap]
  have htouch : acpiTables.Touches 768 := by
    refine ⟨0x300800, ?_, ?_⟩
    · rw [mem_frameBytes]
      unfold pagesize
      omega
    · show 0x300800 ≤ 0x300800 ∧ 0x300800 < 0x300800 + 0xf800
      omega
  refine ⟨t, ht, ?_, ?_, hmem, htouch, fun hs => hs.reserved acpiTables hmem (Or.inr (Or.inl rfl)) htouch⟩
  · rw [hd.pfnMax, raggedPhys_pfnMax]
  · refine (hd.use 768 (by rw [raggedPhys_pfnMax])).mpr ⟨?_, ?_, ?_⟩
    · refine ⟨raggedBank, by simp [raggedMap], rfl, by decide, 512, ?_, ?_⟩
      · rw [raggedBank_end]
        show 0x100000 + pagesize * 512 < 0x3007ff
        unfold pagesize
        omega
      · show framePfn (0x100000 + pagesize * 512) = 768
        rw [framePfn_of_lt (by unfold pagesize; omega)]
        unfold pagesize
        omega
    · unfold reserveOf Reserve.Keeps bootmemTop
      rw [raggedPhys_pfnMax]
      norm_num [phys2pfn, pagesize, raggedMap, raggedPhys, setLimits, physInitMemoryzones, powerOn, sizeofPage,
        wordSize]
    · intro hm
      obtain ⟨e, he, hty, -⟩ := hm
      simp only [raggedMap, List.mem_cons, List.not_mem_nil, or_false] at he
      rcases he with e | e <;> subst e <;> cases hty

end Borgos.Mem
