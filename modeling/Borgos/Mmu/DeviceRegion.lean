import Borgos.Mmu.DirectMap
import Borgos.Mmu.RangeLaws

/-! # What `mmu_map_device_region` maps

The frames from the first to the last, each at its address in the direct map, and nothing else.
-/
namespace Borgos.Mmu
open Borgos.Foundations Borgos.Mem
set_option autoImplicit false

variable {ρ : Type} {alloc : Prog ρ ℕ} {Good : ρ → Set ℕ → Prop} {roots : Set ℕ} {k : ℕ} {s s' : Tables ρ}

theorem mem_deviceCalls {n : ℕ} {pfn : ℤ} {call : TableCall} : call ∈ deviceCalls k n pfn ↔
    ∃ f, pfn ≤ f ∧ f < pfn + n ∧ call = .map k (pfnPhys f) (pfnVirt f) mmuDevice := by
  induction n generalizing pfn with
  | zero =>
    simp only [deviceCalls, List.not_mem_nil, false_iff, not_exists]
    intro f
    omega
  | succ n ih =>
    rw [deviceCalls, List.mem_cons, ih]
    exact exists_frame_succ fun f => call = .map k (pfnPhys f) (pfnVirt f) mmuDevice

theorem device_leaf {f n v : ℕ} (hf : f < 2 ^ 31) (hn : n < 2 ^ 31) (hv : vpn v = vpn (p2v (f * pagesize))) :
    TableCall.leafAt k v (.map k (pfnPhys n) (pfnVirt n) mmuDevice) =
      if n = f then some ⟨f, pteflagsOf mmuDevice⟩ else none := by
  have hpage : p2v (f * pagesize) = pfn2virt f := (pfn2virt_eq (by omega)).symm
  unfold TableCall.leafAt
  dsimp only
  rw [hv, hpage, pfnVirt_ofNat (by omega), vpn_pfn2virt (by omega), vpn_pfn2virt (by omega), pfnPhys_ofNat (by omega)]
  by_cases hnf : n = f
  · have hframe : n * 2 ^ 12 / 2 ^ 12 % 2 ^ 36 = f := by omega
    rw [if_pos ⟨rfl, by omega⟩, if_pos hnf, hframe]
  · rw [if_neg (by omega), if_neg hnf]

section Loop
variable (hA : FreshPages alloc Good) (hk : k ∈ roots) (hker : s.kernelpagetable = tablePtr k)
  (h : ∃ place used, Space s.mem roots place used ∧ Good s.phys used) {first last : ℕ} (hlast : last < 2 ^ 31)
  (hrun : mmuMapDeviceLoop alloc (rounds first last) first s = .ok () s')
include hA hk hker h hlast hrun

theorem device_frames_mapped {f v : ℕ} (hf : first ≤ f ∧ f ≤ last) (hv : vpn v = vpn (p2v (f * pagesize))) :
    hardwareWalk s'.mem k v = some ⟨f, pteflagsOf mmuDevice⟩ := by
  obtain ⟨hist, -⟩ := mmuMapDeviceLoop_history hA hk hker h hrun
  have hmap := hist.mappedIn hA hk deviceCalls_mapsIn h
  have hleaf : ∀ call ∈ deviceCalls k (rounds first last) first,
      call.leafAt k v = none ∨ call.leafAt k v = some ⟨f, pteflagsOf mmuDevice⟩ := by
    intro call hcall
    obtain ⟨g, hlow, hhigh, rfl⟩ := mem_deviceCalls.mp hcall
    obtain ⟨n, rfl⟩ := Int.eq_ofNat_of_zero_le (show 0 ≤ g by omega)
    unfold rounds at hhigh
    rw [device_leaf (by omega) (by omega) hv]
    by_cases hnf : n = f
    · exact .inr (if_pos hnf)
    · exact .inl (if_neg hnf)
  rw [hmap.walk _ _ hleaf, if_pos]
  refine ⟨_, mem_deviceCalls.mpr ⟨f, by omega, ?_, rfl⟩, ?_⟩
  · unfold rounds
    omega
  · rw [device_leaf (by omega) (by omega) hv, if_pos rfl]

/-- Addresses of other pages lead where they led. -/
theorem device_frames_only {v : ℕ} (hv : ∀ f, first ≤ f → f ≤ last → vpn v ≠ vpn (p2v (f * pagesize))) :
    hardwareWalk s'.mem k v = hardwareWalk s.mem k v := by
  obtain ⟨hist, -⟩ := mmuMapDeviceLoop_history hA hk hker h hrun
  have hmap := hist.mappedIn hA hk deviceCalls_mapsIn h
  have hleaf : ∀ call ∈ deviceCalls k (rounds first last) first, call.leafAt k v = none := by
    intro call hcall
    obtain ⟨g, hlow, hhigh, rfl⟩ := mem_deviceCalls.mp hcall
    obtain ⟨n, rfl⟩ := Int.eq_ofNat_of_zero_le (show 0 ≤ g by omega)
    unfold rounds at hhigh
    have hne := hv n (by omega) (by omega)
    have hpage : p2v (n * pagesize) = pfn2virt n := (pfn2virt_eq (by omega)).symm
    rw [hpage] at hne
    unfold TableCall.leafAt
    dsimp only
    rw [pfnVirt_ofNat (by omega), if_neg fun hc => hne hc.2]
  rw [hmap.walk v ⟨0, 0⟩ fun call hcall => .inl (hleaf call hcall), if_neg]
  rintro ⟨call, hcall, hsome⟩
  rw [hleaf call hcall] at hsome
  cases hsome

end Loop

/-- `mmu_map_device_region` on addresses below `2 ^ 43`, where the frame numbers fit in an `int`. -/
theorem device_region_loop {adrstart adrend : ℕ} (hle : adrstart / pagesize ≤ adrend / pagesize)
    (hlow : adrend < 2 ^ 43) (hrun : mmuMapDeviceRegion alloc adrstart adrend s = .ok () s') :
    mmuMapDeviceLoop alloc (rounds (adrstart / pagesize : ℕ) (adrend / pagesize : ℕ)) (adrstart / pagesize : ℕ) s =
      .ok () s' := by
  have hlast31 : adrend / pagesize < 2 ^ 31 := by
    unfold pagesize
    omega
  obtain ⟨_, s₁, hloop, hrun⟩ := Prog.bind_ok.mp hrun
  rw [leaveLoop_ok hrun]
  rw [phys2pfn, phys2pfn, toInt_of_lt (by omega), toInt_of_lt hlast31] at hloop
  exact hloop

end Borgos.Mmu
