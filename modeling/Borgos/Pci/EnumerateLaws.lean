import Borgos.Pci.Enumerate

/-! # What the enumeration adds to the device database

The loops add, one by one, the entries of a list that depends on the configuration registers alone.
-/
namespace Borgos.Pci.Ecam
open Borgos.Foundations
open Borgos.Mem (p2v wordSize maxKmalloc)
set_option autoImplicit false

/-! ## Regions and their functions -/

namespace PciConfigRegion
variable (r : PciConfigRegion)

/-- A function of a bus of the region. -/
structure Holds (bus slot function : ℕ) : Prop where
  start_le : r.busNumberStart.toNat ≤ bus
  le_end : bus ≤ r.busNumberEnd.toNat
  slot : slot < 32
  function : function < 8

def location (bus slot function : ℕ) : PciLocation := ⟨r.pciSegmentGroup.toNat, bus, slot, function⟩

/-- The physical address of the registers of a function. -/
def physical (bus slot function : ℕ) : ℕ :=
  (r.baseAddress.toNat + (bus * 2 ^ 20 + slot * 2 ^ 15 + function * 2 ^ 12)) % wordSize

def entryAt (bus slot function : ℕ) : EcamDevice :=
  ⟨deviceBustypePcie, r.location bus slot function, p2v (r.physical bus slot function)⟩

/-- The addresses of the region's buses. -/
def window : Set ℕ :=
  {a | ∃ off, r.busNumberStart.toNat * 2 ^ 20 ≤ off ∧ off < (r.busNumberEnd.toNat + 1) * 2 ^ 20 ∧
    a = (r.baseAddress.toNat + off) % wordSize}

end PciConfigRegion

/-- Regions without a bus or an address in common, and configuration registers with header types 0, 1 and 2. -/
structure EcamSpace where
  regions : List PciConfigRegion
  regs : ℕ → PciConfigRegs
  buses : regions.Pairwise fun r r' => r.pciSegmentGroup = r'.pciSegmentGroup →
    ∀ bus slot function, r.Holds bus slot function → ¬ r'.Holds bus slot function
  windows : regions.Pairwise fun r r' => Disjoint r.window r'.window
  headers : ∀ r ∈ regions, ∀ bus slot function, r.Holds bus slot function →
    (regs (r.entryAt bus slot function).ecamConfigRegAdr).vendorId ≠ 0xffff →
    (regs (r.entryAt bus slot function).ecamConfigRegAdr).headerType % 128 ≤ 2

section Present
variable (regs : ℕ → PciConfigRegs) (r : PciConfigRegion) (bus slot function : ℕ)

def regsAt : PciConfigRegs := regs (r.entryAt bus slot function).ecamConfigRegAdr

/-- Function 0 answers. -/
def SlotUsed : Prop := (regsAt regs r bus slot 0).vendorId ≠ 0xffff

def Multifunction : Prop := (regsAt regs r bus slot 0).headerType / 128 % 2 ≠ 0

/-- A function of type 0 that is present. -/
structure Present : Prop where
  holds : r.Holds bus slot function
  used : SlotUsed regs r bus slot
  present : function = 0 ∨ Multifunction regs r bus slot ∧ (regsAt regs r bus slot function).vendorId ≠ 0xffff
  type : (regsAt regs r bus slot function).headerType % 128 = 0

end Present

/-! ## The property -/

/-- One entry for each function of type 0 that is present, and nothing else. -/
structure Complete (e : EcamSpace) (added : List EcamDevice) : Prop where
  entries : ∀ d, d ∈ added ↔ ∃ r ∈ e.regions, ∃ bus slot function, Present e.regs r bus slot function ∧
    d = r.entryAt bus slot function
  once : (added.map EcamDevice.location).Nodup
  addresses : ∀ d ∈ added, ∀ d' ∈ added, d.location ≠ d'.location → d.ecamConfigRegAdr ≠ d'.ecamConfigRegAdr

/-- The locations of these functions. -/
def presentLocations (e : EcamSpace) : Set PciLocation :=
  {loc | ∃ r ∈ e.regions, ∃ bus slot function, Present e.regs r bus slot function ∧ loc = r.location bus slot function}

/-- The largest number of devices: an array for more is not allocated. -/
def maxDevices : ℕ := 256

/-- A device database whose array has been doubled `order` times. -/
structure DeviceDb where
  entries : List EcamDevice
  order : ℕ
  order_le : order ≤ 8
  fits : entries.length ≤ 2 ^ order

def DeviceDb.state {H : Type} (db : DeviceDb) (heap : H) : EnumState H := ⟨⟨db.entries, 2 ^ db.order⟩, heap⟩

section Statement
variable {H : Type} (A : Allocator H) (e : EcamSpace) (db : DeviceDb) (heap : H)

def enumeration : Outcome (EnumState H) Unit := pciConfigEnumerateRegions A e.regs e.regions (db.state heap)

/-- The enumeration returns, and the database is complete. -/
def EnumerationComplete : Prop :=
  ∃ s' added, enumeration A e db heap = .ok () s' ∧ s'.devicevector.arr = db.entries ++ added ∧ Complete e added

/-- A block of a size that there is a class for is refused. -/
def OutOfMemory : Prop := ∃ n ≤ maxKmalloc, A.kmalloc n heap = none

/-- The enumeration returns with a complete database, or it panics: without fail where the devices are too many, and
else only where there is no memory left. -/
structure EnumerationRight : Prop where
  complete : ∀ s', enumeration A e db heap = .ok () s' →
    ∃ added, s'.devicevector.arr = db.entries ++ added ∧ Complete e added
  panics : ∀ msg s', enumeration A e db heap = .panic msg s' →
    maxDevices < db.entries.length + (presentLocations e).ncard ∨ OutOfMemory A s'.heap
  ends : enumeration A e db heap ≠ .stuck
  limit : maxDevices < db.entries.length + (presentLocations e).ncard →
    ∃ msg s', enumeration A e db heap = .panic msg s'

end Statement

/-! ## Adding a list of devices -/

section Add
variable {H : Type} {A : Allocator H}

/-- The allocation of a `pcidevice_t` and the entry for it. -/
def addDevice (A : Allocator H) (d : EcamDevice) : Prog (EnumState H) Unit := do
  callKmalloc A sizeofPcidevice
  hwdbDevicedbAdd A d

def addAll (A : Allocator H) (l : List EcamDevice) : Prog (EnumState H) Unit := l.forM (addDevice A)

theorem forM_cons_run {σ α : Type} (f : α → Prog σ Unit) (a : α) (l : List α) (s : σ) :
    (a :: l).forM f s = (f a s).andThen fun _ => l.forM f := rfl

theorem addAll_append (l l' : List EcamDevice) (s : EnumState H) :
    addAll A (l ++ l') s = (addAll A l s).andThen fun _ => addAll A l' := by
  induction l generalizing s with
  | nil => rfl
  | cons d l ih =>
    rw [addAll, List.cons_append, forM_cons_run, addAll, forM_cons_run]
    cases addDevice A d s with
    | ok a t => exact ih t
    | panic msg t => rfl
    | stuck => rfl

/-- A loop whose rounds add lists adds the lists one after another. -/
theorem forM_addAll {α : Type} {f : α → Prog (EnumState H) Unit} {g : α → List EcamDevice} {l : List α}
    (h : ∀ a ∈ l, f a = addAll A (g a)) : l.forM f = addAll A (l.flatMap g) := by
  induction l with
  | nil => rfl
  | cons a l ih =>
    funext s
    rw [forM_cons_run, h a List.mem_cons_self, ih fun b hb => h b (List.mem_cons_of_mem a hb), List.flatMap_cons,
      addAll_append]

end Add

/-! ## The loops -/

section Loops
variable {H : Type} {A : Allocator H} {regs : ℕ → PciConfigRegs} {r : PciConfigRegion}

def functionEntries (regs : ℕ → PciConfigRegs) (r : PciConfigRegion) (bus slot function : ℕ) : List EcamDevice :=
  if (regsAt regs r bus slot function).vendorId ≠ 0xffff ∧ (regsAt regs r bus slot function).headerType % 128 = 0 then
    [r.entryAt bus slot function]
  else []

def slotEntries (regs : ℕ → PciConfigRegs) (r : PciConfigRegion) (bus slot : ℕ) : List EcamDevice :=
  if (regsAt regs r bus slot 0).vendorId = 0xffff then []
  else
    functionEntries regs r bus slot 0 ++
      if (regsAt regs r bus slot 0).headerType / 128 % 2 ≠ 0 then
        (List.range' 1 7).flatMap (functionEntries regs r bus slot)
      else []

def regionEntries (regs : ℕ → PciConfigRegs) (r : PciConfigRegion) : List EcamDevice :=
  r.busidxs.flatMap fun bus => (List.range 32).flatMap (slotEntries regs r bus)

def allEntries (e : EcamSpace) : List EcamDevice := e.regions.flatMap (regionEntries e.regs)

theorem toNat_byte {n : ℕ} (hn : n < 256) : (BitVec.ofNat 8 n).toNat = n := by
  rw [BitVec.toNat_ofNat]
  exact Nat.mod_eq_of_lt hn

theorem enumerateFunction_eq {bus slot function : ℕ} (hbus : bus < 256) (hslot : slot < 256)
    (hfunction : function < 256) (hheader : (regsAt regs r bus slot function).vendorId ≠ 0xffff →
      (regsAt regs r bus slot function).headerType % 128 ≤ 2) :
    pciConfigEnumerateFunction A regs r r.pciSegmentGroup (BitVec.ofNat 8 bus) (BitVec.ofNat 8 slot)
      (BitVec.ofNat 8 function) = addAll A (functionEntries regs r bus slot function) := by
  have hadr : pciConfigRegsFromEcamaddr r.baseAddress (r.location bus slot function) =
      (r.entryAt bus slot function).ecamConfigRegAdr := rfl
  have hone : addAll A [r.entryAt bus slot function] = addDevice A (r.entryAt bus slot function) := by
    funext s
    rw [addAll, forM_cons_run]
    cases addDevice A (r.entryAt bus slot function) s with
    | ok a t => rfl
    | panic msg t => rfl
    | stuck => rfl
  unfold pciConfigEnumerateFunction functionEntries
  rw [toNat_byte hbus, toNat_byte hslot, toNat_byte hfunction]
  unfold regsAt at hheader ⊢
  unfold PciConfigRegion.location at hadr
  simp only [hadr]
  by_cases hvendor : (regs (r.entryAt bus slot function).ecamConfigRegAdr).vendorId = 0xffff
  · rw [if_pos hvendor, if_neg fun hc => hc.1 hvendor]
    rfl
  · rw [if_neg hvendor]
    have hle := hheader hvendor
    by_cases hzero : (regs (r.entryAt bus slot function).ecamConfigRegAdr).headerType % 128 = 0
    · rw [if_pos ⟨hvendor, hzero⟩, hone]
      simp only [hzero]
      rfl
    · rw [if_neg fun hc => hzero hc.2]
      have hother : (regs (r.entryAt bus slot function).ecamConfigRegAdr).headerType % 128 = 1 ∨
          (regs (r.entryAt bus slot function).ecamConfigRegAdr).headerType % 128 = 2 := by omega
      rcases hother with hbridge | hcardbus
      · simp only [hbridge]
        rfl
      · simp only [hcardbus]
        rfl

theorem enumerateSlot_eq {bus slot : ℕ} (hbus : bus < 256) (hslot : slot < 256)
    (hheaders : ∀ function < 8, (regsAt regs r bus slot function).vendorId ≠ 0xffff →
      (regsAt regs r bus slot function).headerType % 128 ≤ 2) :
    pciConfigEnumerateSlot A regs r r.pciSegmentGroup (BitVec.ofNat 8 bus) (BitVec.ofNat 8 slot) =
      addAll A (slotEntries regs r bus slot) := by
  have hadr : pciConfigRegsFromEcamaddr r.baseAddress (r.location bus slot 0) =
      (r.entryAt bus slot 0).ecamConfigRegAdr :=
    rfl
  have hfirst := enumerateFunction_eq (A := A) hbus hslot (show 0 < 256 by decide) (hheaders 0 (by decide))
  have hrest : ((List.range' 1 7).forM fun func => pciConfigEnumerateFunction A regs r r.pciSegmentGroup
      (BitVec.ofNat 8 bus) (BitVec.ofNat 8 slot) (BitVec.ofNat 8 func)) =
      addAll A ((List.range' 1 7).flatMap (functionEntries regs r bus slot)) := by
    apply forM_addAll
    intro func hfunc
    have hlt : func < 8 := by
      rw [List.mem_range'_1] at hfunc
      omega
    exact enumerateFunction_eq hbus hslot (by omega) (hheaders func hlt)
  funext s
  unfold pciConfigEnumerateSlot slotEntries
  rw [toNat_byte hbus, toNat_byte hslot]
  unfold regsAt
  unfold PciConfigRegion.location at hadr
  simp only [hadr]
  by_cases hvendor : (regs (r.entryAt bus slot 0).ecamConfigRegAdr).vendorId = 0xffff
  · rw [if_pos hvendor, if_pos hvendor]
    rfl
  · rw [if_neg hvendor, if_neg hvendor, Prog.bind_run, addAll_append]
    have hzero : (0 : BitVec 8) = BitVec.ofNat 8 0 := rfl
    rw [hzero, hfirst]
    by_cases hmulti : (regs (r.entryAt bus slot 0).ecamConfigRegAdr).headerType / 128 % 2 ≠ 0
    · rw [if_pos hmulti, if_pos hmulti, hrest]
    · rw [if_neg hmulti, if_neg hmulti]
      rfl

theorem mem_busidxs {bus : ℕ} : bus ∈ r.busidxs ↔ r.busNumberStart.toNat ≤ bus ∧ bus ≤ r.busNumberEnd.toNat := by
  rw [PciConfigRegion.busidxs, List.mem_range'_1]
  omega

/-- The enumeration adds the entries of the list. -/
theorem enumerateRegions_eq (e : EcamSpace) :
    pciConfigEnumerateRegions A e.regs e.regions = addAll A (allEntries e) := by
  apply forM_addAll
  intro r hr
  apply forM_addAll
  intro bus hbus
  apply forM_addAll
  intro slot hslot
  have hbus' := mem_busidxs.mp hbus
  have hslot' := List.mem_range.mp hslot
  have hend := r.busNumberEnd.isLt
  apply enumerateSlot_eq (by omega) (by omega)
  intro function hfunction
  exact e.headers r hr bus slot function ⟨hbus'.1, hbus'.2, hslot', hfunction⟩

end Loops

/-! ## The entries -/

section Entries
variable {regs : ℕ → PciConfigRegs} {r : PciConfigRegion}

theorem mem_functionEntries {bus slot function : ℕ} {d : EcamDevice} : d ∈ functionEntries regs r bus slot function ↔
    ((regsAt regs r bus slot function).vendorId ≠ 0xffff ∧ (regsAt regs r bus slot function).headerType % 128 = 0) ∧
      d = r.entryAt bus slot function := by
  unfold functionEntries
  split_ifs with h
  · simp [h]
  · simp [h]

theorem mem_slotEntries {bus slot : ℕ} {d : EcamDevice} : d ∈ slotEntries regs r bus slot ↔
    ∃ function < 8, SlotUsed regs r bus slot ∧
      (function = 0 ∨ Multifunction regs r bus slot ∧ (regsAt regs r bus slot function).vendorId ≠ 0xffff) ∧
      (regsAt regs r bus slot function).headerType % 128 = 0 ∧ d = r.entryAt bus slot function := by
  unfold slotEntries SlotUsed Multifunction
  by_cases hvendor : (regsAt regs r bus slot 0).vendorId = 0xffff
  · simp [hvendor]
  · rw [if_neg hvendor, List.mem_append, mem_functionEntries]
    constructor
    · rintro (⟨⟨-, htype⟩, rfl⟩ | hrest)
      · exact ⟨0, by decide, hvendor, .inl rfl, htype, rfl⟩
      · split_ifs at hrest with hmulti
        · obtain ⟨function, hfunction, hd⟩ := List.mem_flatMap.mp hrest
          obtain ⟨⟨hpresent, htype⟩, rfl⟩ := mem_functionEntries.mp hd
          rw [List.mem_range'_1] at hfunction
          exact ⟨function, by omega, hvendor, .inr ⟨hmulti, hpresent⟩, htype, rfl⟩
        · exact absurd hrest List.not_mem_nil
    · rintro ⟨function, hfunction, -, hpresent, htype, rfl⟩
      rcases Nat.eq_zero_or_pos function with rfl | hpos
      · exact .inl ⟨⟨hvendor, htype⟩, rfl⟩
      · right
        obtain ⟨hmulti, hanswers⟩ := hpresent.resolve_left (by omega)
        rw [if_pos hmulti, List.mem_flatMap]
        refine ⟨function, ?_, mem_functionEntries.mpr ⟨⟨hanswers, htype⟩, rfl⟩⟩
        rw [List.mem_range'_1]
        omega

theorem mem_regionEntries {d : EcamDevice} : d ∈ regionEntries regs r ↔
    ∃ bus slot function, Present regs r bus slot function ∧ d = r.entryAt bus slot function := by
  simp only [regionEntries, List.mem_flatMap, mem_busidxs, List.mem_range, mem_slotEntries]
  constructor
  · rintro ⟨bus, ⟨hlow, hhigh⟩, slot, hslot, function, hfunction, hused, hpresent, htype, hd⟩
    exact ⟨bus, slot, function, ⟨⟨hlow, hhigh, hslot, hfunction⟩, hused, hpresent, htype⟩, hd⟩
  · rintro ⟨bus, slot, function, ⟨⟨hlow, hhigh, hslot, hfunction⟩, hused, hpresent, htype⟩, hd⟩
    exact ⟨bus, ⟨hlow, hhigh⟩, slot, hslot, function, hfunction, hused, hpresent, htype, hd⟩

theorem mem_allEntries (e : EcamSpace) (d : EcamDevice) : d ∈ allEntries e ↔
    ∃ r ∈ e.regions, ∃ bus slot function, Present e.regs r bus slot function ∧ d = r.entryAt bus slot function := by
  simp only [allEntries, List.mem_flatMap, mem_regionEntries]

/-! ### No location twice -/

/-- Of different locations. -/
def Apart (d d' : EcamDevice) : Prop := d.location ≠ d'.location

theorem functionEntries_apart (bus slot function : ℕ) : (functionEntries regs r bus slot function).Pairwise Apart := by
  unfold functionEntries
  split_ifs
  · exact List.pairwise_singleton Apart _
  · exact List.Pairwise.nil

theorem slotEntries_apart (bus slot : ℕ) : (slotEntries regs r bus slot).Pairwise Apart := by
  unfold slotEntries
  split_ifs
  · exact List.Pairwise.nil
  · rw [List.pairwise_append]
    refine ⟨functionEntries_apart bus slot 0, ?_, ?_⟩
    · rw [List.pairwise_flatMap]
      refine ⟨fun function _ => functionEntries_apart bus slot function, ?_⟩
      refine List.Pairwise.imp ?_ List.pairwise_lt_range'
      intro f f' hlt d hd d' hd'
      rw [(mem_functionEntries.mp hd).2, (mem_functionEntries.mp hd').2]
      intro hc
      have hfunction : f = f' := congrArg PciLocation.function hc
      omega
    · intro d hd d' hd'
      obtain ⟨f', hf', hd'⟩ := List.mem_flatMap.mp hd'
      rw [(mem_functionEntries.mp hd).2, (mem_functionEntries.mp hd').2]
      rw [List.mem_range'_1] at hf'
      intro hc
      have hfunction : 0 = f' := congrArg PciLocation.function hc
      omega
  · rw [List.append_nil]
    exact functionEntries_apart bus slot 0

theorem regionEntries_apart : (regionEntries regs r).Pairwise Apart := by
  rw [regionEntries, List.pairwise_flatMap]
  constructor
  · intro bus _
    rw [List.pairwise_flatMap]
    refine ⟨fun slot _ => slotEntries_apart bus slot, ?_⟩
    refine List.Pairwise.imp ?_ List.pairwise_lt_range
    intro slot slot' hlt d hd d' hd'
    obtain ⟨f, -, -, -, -, rfl⟩ := mem_slotEntries.mp hd
    obtain ⟨f', -, -, -, -, rfl⟩ := mem_slotEntries.mp hd'
    intro hc
    have hslot : slot = slot' := congrArg PciLocation.slot hc
    omega
  · refine List.Pairwise.imp ?_ List.pairwise_lt_range'
    intro bus bus' hlt d hd d' hd'
    obtain ⟨slot, -, hd⟩ := List.mem_flatMap.mp hd
    obtain ⟨slot', -, hd'⟩ := List.mem_flatMap.mp hd'
    obtain ⟨f, -, -, -, -, rfl⟩ := mem_slotEntries.mp hd
    obtain ⟨f', -, -, -, -, rfl⟩ := mem_slotEntries.mp hd'
    intro hc
    have hbus : bus = bus' := congrArg PciLocation.bus hc
    omega

theorem allEntries_apart (e : EcamSpace) : (allEntries e).Pairwise Apart := by
  rw [allEntries, List.pairwise_flatMap]
  refine ⟨fun r _ => regionEntries_apart, ?_⟩
  refine List.Pairwise.imp ?_ e.buses
  intro r r' hbuses d hd d' hd'
  obtain ⟨bus, slot, f, hpresent, rfl⟩ := mem_regionEntries.mp hd
  obtain ⟨bus', slot', f', hpresent', rfl⟩ := mem_regionEntries.mp hd'
  intro hc
  obtain ⟨hsegment, rfl, rfl, rfl⟩ := PciLocation.mk.inj hc
  exact hbuses (BitVec.eq_of_toNat_eq hsegment) bus slot f hpresent.holds hpresent'.holds

end Entries
end Borgos.Pci.Ecam
