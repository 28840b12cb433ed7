import Borgos.Mmu.BuddyFrames
import Borgos.Mmu.KernelTable

/-! # When mapping returns

A mapping asks for at most three pages, and panics only when it gets none or when the slot is not allowed. So the
first table is built as long as the allocator has six pages for each frame.
-/
namespace Borgos.Mmu
open Borgos.Foundations Borgos.Mem
set_option autoImplicit false

variable {ρ : Type}

/-! ## An allocator with pages left -/

/-- In a state with `Room k` the allocator serves `k` requests. -/
structure ServesPages (alloc : Prog ρ ℕ) (Room : ℕ → ρ → Prop) : Prop where
  serves : ∀ {k phys}, Room (k + 1) phys → ∃ q phys', alloc phys = .ok q phys' ∧ q ≠ 0 ∧ Room k phys'
  fewer : ∀ {j k phys}, j ≤ k → Room k phys → Room j phys

section Returns
variable {alloc : Prog ρ ℕ} {Room : ℕ → ρ → Prop}

/-- The call returns, and has used at most `n` pages. -/
def ReturnsWith {α : Type} (Room : ℕ → ρ → Prop) (n : ℕ) (x : Prog (Tables ρ) α) : Prop :=
  ∀ k s, Room (k + n) s.phys → ∃ a s', x s = .ok a s' ∧ Room k s'.phys

theorem ReturnsWith.bind {α β : Type} {m n l : ℕ} {x : Prog (Tables ρ) α} {f : α → Prog (Tables ρ) β}
    (hx : ReturnsWith Room m x) (hf : ∀ a, ReturnsWith Room n (f a)) (hl : n + m = l := by omega) :
    ReturnsWith Room l (x >>= f) := by
  intro k s hroom
  subst hl
  rw [← Nat.add_assoc] at hroom
  obtain ⟨a, s₁, hrun₁, hroom₁⟩ := hx (k + n) s hroom
  obtain ⟨b, s₂, hrun₂, hroom₂⟩ := hf a k s₁ hroom₁
  exact ⟨b, s₂, Prog.bind_ok.mpr ⟨a, s₁, hrun₁, hrun₂⟩, hroom₂⟩

theorem ReturnsWith.pure {α : Type} (a : α) : ReturnsWith Room 0 (pure a : Prog (Tables ρ) α) :=
  fun _ s hroom => ⟨a, s, rfl, hroom⟩

theorem ReturnsWith.get : ReturnsWith Room 0 (Prog.get : Prog (Tables ρ) (Tables ρ)) :=
  fun _ s hroom => ⟨s, s, rfl, hroom⟩

/-- A store to a table. -/
theorem ReturnsWith.modify {f : Tables ρ → Tables ρ} (h : ∀ s, (f s).phys = s.phys := by exact fun _ => rfl) :
    ReturnsWith Room 0 (Prog.modify f) := by
  intro k s hroom
  refine ⟨(), f s, rfl, ?_⟩
  rw [h]
  exact hroom

theorem ReturnsWith.mono {α : Type} (hA : ServesPages alloc Room) {m n : ℕ} {x : Prog (Tables ρ) α}
    (h : ReturnsWith Room m x) (hmn : m ≤ n) : ReturnsWith Room n x :=
  fun k s hroom => h k s (hA.fewer (Nat.add_le_add_left hmn k) hroom)

section Pages
variable (hA : ServesPages alloc Room)
include hA

theorem pagetableAlloc_returns : ReturnsWith Room 1 (pagetableAlloc alloc) := by
  intro k s hroom
  obtain ⟨q, phys', hrun, hne, hleft⟩ := hA.serves hroom
  have halloc : allocTable alloc s = .ok q { s with phys := phys' } := Prog.zoom_ok.mpr ⟨phys', hrun, rfl⟩
  refine ⟨q, { s with phys := phys' }.clearPage q, ?_, hleft⟩
  unfold pagetableAlloc
  rw [Prog.bind_run, halloc, Outcome.andThen_ok, if_neg hne]
  rfl

theorem getsubtable_returns {table idx flags : ℕ} (hidx : idx ≤ 512) :
    ReturnsWith Room 1 (pagetableWalkGetsubtable alloc table idx flags) := by
  have hensure : ReturnsWith Room 1 (pagetableEnsureSubtable alloc table idx flags) := by
    refine ReturnsWith.get.bind (n := 1) fun s => ?_
    split
    · exact (pagetableAlloc_returns hA).bind (n := 0) fun _ => (ReturnsWith.modify).bind fun _ => ReturnsWith.modify
    · exact (ReturnsWith.pure ()).mono hA (Nat.zero_le 1)
  unfold pagetableWalkGetsubtable
  rw [if_neg (Nat.not_lt.mpr hidx)]
  exact hensure.bind (n := 0) fun _ => ReturnsWith.get.bind fun _ => ReturnsWith.pure _

theorem mmuMapPage_returns {table paddr vaddr flags : ℕ} (hslot : lvl4idx vaddr = 0 ∨ lvl4idx vaddr = 256) :
    ReturnsWith Room 3 (mmuMapPage alloc table paddr vaddr flags) := by
  have hidx : lvl4idx vaddr ≤ 512 ∧ lvl3idx vaddr ≤ 512 ∧ lvl2idx vaddr ≤ 512 := by
    unfold lvl4idx lvl3idx lvl2idx
    omega
  unfold mmuMapPage
  rw [if_neg (by omega), if_neg (by omega)]
  refine ReturnsWith.bind (m := 3) (n := 0) ?_ fun _ => (ReturnsWith.modify).bind fun _ => ReturnsWith.modify
  unfold pagetableWalkGetlvl1table
  refine (getsubtable_returns hA hidx.1).bind (n := 2) fun _ => ?_
  exact (getsubtable_returns hA hidx.2.1).bind (n := 1) fun _ => getsubtable_returns hA hidx.2.2

/-- The frames below 512 GiB have an allowed slot both ways. -/
theorem mmuMapFrames_returns (n f : ℕ) (hlt : f + n ≤ 2 ^ 27) :
    ReturnsWith Room (6 * n) (mmuMapFrames alloc n (f : ℤ)) := by
  induction n generalizing f with
  | zero => exact ReturnsWith.pure ()
  | succ n ih =>
    have hphys : pfnPhys (f : ℤ) = f * 2 ^ 12 := by
      unfold pfnPhys
      rw [toSize_ofNat (by omega)]
      unfold pagesize wordSize
      omega
    have hlow : lvl4idx (pfnPhys (f : ℤ)) = 0 ∨ lvl4idx (pfnPhys (f : ℤ)) = 256 := by
      rw [hphys]
      unfold lvl4idx
      omega
    have hhigh : lvl4idx (pfnVirt (f : ℤ)) = 0 ∨ lvl4idx (pfnVirt (f : ℤ)) = 256 := by
      unfold pfnVirt
      rw [hphys]
      unfold lvl4idx p2v kernelUpperHalfOffset wordSize
      omega
    have hrest := ih (f + 1) (by omega)
    rw [Nat.cast_add, Nat.cast_one] at hrest
    unfold mmuMapFrames
    refine ReturnsWith.get.bind (n := 6 * n + 6) fun _ => (mmuMapPage_returns hA hlow).bind (n := 6 * n + 3) fun _ => ?_
    exact ReturnsWith.get.bind (n := 6 * n + 3) fun _ => (mmuMapPage_returns hA hhigh).bind fun _ => hrest

/-- `mmu_init_kernel_pagetable` returns if what it does after the first table does. -/
theorem mmuInitKernelPagetable_returns {memmap : List MemmapEntry} {n : ℕ}
    (hmem : ReturnsWith Room n (mmuInitKernelPagetableMem alloc memmap)) :
    ReturnsWith Room (n + 1) (mmuInitKernelPagetable alloc memmap) :=
  (pagetableAlloc_returns hA).bind (n := n) fun _ => (ReturnsWith.modify).bind fun _ => hmem

end Pages
end Returns

/-! ## The buddy allocator has pages left -/

/-- Single pages are out, `k` fewer than `n` at most. -/
def PagesLeft (a₀ : Arena) (n k : ℕ) (phys : Phys) : Prop :=
  ∃ held, ArenaRun a₀ ⟨phys, held⟩ ∧ held.length + k ≤ n ∧ ∀ b ∈ held, b.order = 0

/-- One of `n` frames is not among fewer single pages. -/
theorem exists_not_held (lo : ℕ) {n : ℕ} {held : List Block} (hlen : held.length < n) (hsingle : ∀ b ∈ held, b.order = 0) :
    ∃ i < n, ∀ b ∈ held, lo + i ∉ b.frames := by
  have hcard : (held.map Block.head).toFinset.card < ((Finset.range n).image (lo + ·)).card := by
    rw [Finset.card_image_of_injective _ (add_right_injective lo), Finset.card_range]
    refine lt_of_le_of_lt (List.toFinset_card_le _) ?_
    rwa [List.length_map]
  obtain ⟨f, hf, hnot⟩ := Finset.exists_mem_notMem_of_card_lt_card hcard
  obtain ⟨i, hi, rfl⟩ := Finset.mem_image.mp hf
  refine ⟨i, Finset.mem_range.mp hi, fun b hb hmem => hnot ?_⟩
  obtain ⟨hle, hlt⟩ := hmem
  rw [hsingle b hb, Nat.pow_zero] at hlt
  have heq : lo + i = b.head := by omega
  rw [List.mem_toFinset, heq]
  exact List.mem_map_of_mem hb

/-- As long as fewer pages are out than there are frames from `lo` on, there is one more. -/
theorem pagesLeft_serves {s₀ : Phys} {a₀ : Arena} {released : List Block} {L : Lists} (lo : ℕ) {n : ℕ}
    (h : a₀.Inv s₀ released L)
    (hframes : ∀ i < n, (∃ b ∈ released, lo + i ∈ b.frames) ∧ (s₀.pageframemap (lo + i)).zone = some (zoneOfFlags 0))
    (h0 : (s₀.pageframemap 0).zone ≠ some (zoneOfFlags 0)) :
    ServesPages (pageAllocPagesVirt 0 0) (PagesLeft a₀ n) where
  serves {k phys} hleft := by
    obtain ⟨held, hrun, hlen, hsingle⟩ := hleft
    obtain ⟨L₁, hinv⟩ := ArenaRun.inv h hrun
    obtain ⟨i, hi, hnot⟩ := exists_not_held lo (show held.length < n by omega) hsingle
    obtain ⟨hrel, hzone⟩ := hframes i hi
    have hfree : lo + i ∈ covered (L₁.free (zoneOfFlags 0)) := by
      rcases (hinv.covers _).mpr hrel with ⟨z, hz⟩ | ⟨b, hb, hf⟩
      · obtain ⟨b, hb, hf⟩ := hz
        have hz' := hinv.buddy.frame_zone z b hb _ hf
        rw [hinv.same.zone, hzone] at hz'
        rw [Option.some.inj hz']
        exact ⟨b, hb, hf⟩
      · exact absurd hf (hnot b hb)
    obtain ⟨q, phys', hok⟩ := hinv.alloc_page hfree h0
    obtain ⟨L₂, hblock, hq, -⟩ := hinv.alloc (Nat.zero_le _) hok
    have hvirt : pageAllocPagesVirt 0 0 phys = .ok (pfn2virt q) phys' := by
      unfold pageAllocPagesVirt
      rw [Prog.bind_run, hok, Outcome.andThen_ok, Prog.pure_run]
    refine ⟨pfn2virt q, phys', hvirt, ?_, phys'.blockAt q :: held, ?_, ?_, ?_⟩
    · unfold maxpgdPfn at hq
      unfold pfn2virt p2v pfn2phys kernelUpperHalfOffset pagesize wordSize
      omega
    · exact hrun.tail (.allocPages 0 0 q phys' (Nat.zero_le _) hok)
    · rw [List.length_cons]
      omega
    · rw [List.forall_mem_cons, hblock]
      exact ⟨rfl, hsingle⟩
  fewer {j k phys} hjk hleft := by
    obtain ⟨held, hrun, hlen, hsingle⟩ := hleft
    exact ⟨held, hrun, by omega, hsingle⟩

end Borgos.Mmu
