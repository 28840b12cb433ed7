import Mathlib.Data.Set.Card
import Borgos.Pci.EnumerateLaws

/-! # The enumeration is complete

The list of entries has the property, and adding a list to the database ends in one of two ways. The invariant of the
database, an array of at most 256 pointers, is what `kmalloc` has room for.
-/
namespace Borgos.Pci.Ecam
open Borgos.Foundations
open Borgos.Mem (p2v v2p v2p_p2v wordSize maxKmalloc)
set_option autoImplicit false

/-! ## Addresses -/

section Addresses
variable {r r' : PciConfigRegion} {bus bus' slot slot' function function' : ℕ}

theorem physical_lt (r : PciConfigRegion) (bus slot function : ℕ) : r.physical bus slot function < 2 ^ 64 :=
  Nat.mod_lt _ (by decide)

theorem physical_mem_window (h : r.Holds bus slot function) : r.physical bus slot function ∈ r.window := by
  have hstart := h.start_le
  have hend := h.le_end
  have hslot := h.slot
  have hfunction := h.function
  exact ⟨bus * 2 ^ 20 + slot * 2 ^ 15 + function * 2 ^ 12, by omega, by omega, rfl⟩

/-- Within a region the address determines the function. -/
theorem physical_inj (h : r.Holds bus slot function) (h' : r.Holds bus' slot' function')
    (heq : r.physical bus slot function = r.physical bus' slot' function') :
    bus = bus' ∧ slot = slot' ∧ function = function' := by
  have hbase := r.baseAddress.isLt
  have hend := r.busNumberEnd.isLt
  have hbus := h.le_end
  have hbus' := h'.le_end
  have hslot := h.slot
  have hslot' := h'.slot
  have hfunction := h.function
  have hfunction' := h'.function
  unfold PciConfigRegion.physical wordSize at heq
  omega

theorem location_eq_of_address_eq {e : EcamSpace} {d d' : EcamDevice} (hd : d ∈ allEntries e) (hd' : d' ∈ allEntries e)
    (heq : d.ecamConfigRegAdr = d'.ecamConfigRegAdr) : d.location = d'.location := by
  obtain ⟨r, hr, bus, slot, function, hpresent, rfl⟩ := (mem_allEntries e d).mp hd
  obtain ⟨r', hr', bus', slot', function', hpresent', rfl⟩ := (mem_allEntries e d').mp hd'
  have hphysical : r.physical bus slot function = r'.physical bus' slot' function' := by
    rw [← v2p_p2v (physical_lt r bus slot function), ← v2p_p2v (physical_lt r' bus' slot' function')]
    exact congrArg v2p heq
  have hsame : r = r' := by
    have : Std.Symm fun r r' : PciConfigRegion => Disjoint r.window r'.window := ⟨fun _ _ h => h.symm⟩
    by_contra hne
    apply Set.disjoint_left.mp (e.windows.forall hr hr' hne) (physical_mem_window hpresent.holds)
    rw [hphysical]
    exact physical_mem_window hpresent'.holds
  subst hsame
  obtain ⟨rfl, rfl, rfl⟩ := physical_inj hpresent.holds hpresent'.holds hphysical
  rfl

end Addresses

/-! ## The list of entries -/

theorem locations_nodup (e : EcamSpace) : ((allEntries e).map EcamDevice.location).Nodup :=
  List.pairwise_map.mpr (allEntries_apart e)

theorem allEntries_complete (e : EcamSpace) : Complete e (allEntries e) where
  entries := mem_allEntries e
  once := locations_nodup e
  addresses _ hd _ hd' hne heq := hne (location_eq_of_address_eq hd hd' heq)

theorem mem_presentLocations (e : EcamSpace) (loc : PciLocation) :
    loc ∈ presentLocations e ↔ loc ∈ (allEntries e).map EcamDevice.location := by
  rw [List.mem_map]
  constructor
  · rintro ⟨r, hr, bus, slot, function, hpresent, rfl⟩
    exact ⟨r.entryAt bus slot function, (mem_allEntries e _).mpr ⟨r, hr, bus, slot, function, hpresent, rfl⟩, rfl⟩
  · rintro ⟨d, hd, rfl⟩
    obtain ⟨r, hr, bus, slot, function, hpresent, rfl⟩ := (mem_allEntries e d).mp hd
    exact ⟨r, hr, bus, slot, function, hpresent, rfl⟩

theorem presentLocations_ncard (e : EcamSpace) : (presentLocations e).ncard = (allEntries e).length := by
  have hset : presentLocations e = (((allEntries e).map EcamDevice.location).toFinset : Set PciLocation) := by
    ext loc
    rw [mem_presentLocations, List.coe_toFinset]
    rfl
  rw [hset, Set.ncard_coe_finset, List.toFinset_card_of_nodup (locations_nodup e), List.length_map]

/-! ## The database -/

section Database
variable {H : Type} {A : Allocator H} {db : DeviceDb} {heap : H}

theorem DeviceDb.length_le (db : DeviceDb) : db.entries.length ≤ maxDevices := by
  have horder : 2 ^ db.order ≤ 2 ^ 8 := Nat.pow_le_pow_right (by decide) db.order_le
  exact db.fits.trans horder

/-- What adding a list of devices ends in. -/
def Added (A : Allocator H) (db : DeviceDb) (l : List EcamDevice) : Outcome (EnumState H) Unit → Prop
  | .ok _ s' => ∃ db' : DeviceDb, ∃ heap', s' = db'.state heap' ∧ db'.entries = db.entries ++ l
  | .panic _ s' => maxDevices < db.entries.length + l.length ∨ OutOfMemory A s'.heap
  | .stuck => False

theorem callKmalloc_some {n : ℕ} {s : EnumState H} {heap' : H} (h : A.kmalloc n s.heap = some heap') :
    callKmalloc A n s = .ok () { s with heap := heap' } := by
  simp [callKmalloc, h]

theorem callKmalloc_none {n : ℕ} {s : EnumState H} (h : A.kmalloc n s.heap = none) :
    callKmalloc A n s = .panic "kmalloc" s := by
  simp [callKmalloc, h]

/-- A request that there is a class for, before something else. -/
theorem added_of_kmalloc {n : ℕ} {l : List EcamDevice} {x : Prog (EnumState H) Unit} (hn : n ≤ maxKmalloc)
    (h : ∀ heap', Added A db l (x (db.state heap'))) :
    Added A db l ((callKmalloc A n >>= fun _ => x) (db.state heap)) := by
  rw [Prog.bind_run]
  cases hk : A.kmalloc n heap with
  | none =>
    rw [callKmalloc_none (s := db.state heap) hk]
    exact .inr ⟨n, hn, hk⟩
  | some heap' =>
    rw [callKmalloc_some (s := db.state heap) hk]
    exact h heap'

/-- The database with one more entry, for which its array has room. -/
def DeviceDb.push (db : DeviceDb) (d : EcamDevice) (h : db.entries.length < 2 ^ db.order) : DeviceDb where
  entries := db.entries ++ [d]
  order := db.order
  order_le := db.order_le
  fits := by simpa using h

/-- The database with an array twice as large. -/
def DeviceDb.double (db : DeviceDb) (h : db.order < 8) : DeviceDb where
  entries := db.entries
  order := db.order + 1
  order_le := h
  fits := db.fits.trans (Nat.pow_le_pow_right (by decide) (Nat.le_succ db.order))

theorem added_push (A : Allocator H) (db : DeviceDb) (heap : H) (d : EcamDevice)
    (h : db.entries.length < 2 ^ db.order) :
    Added A db [d] (.ok () ⟨⟨db.entries ++ [d], 2 ^ db.order⟩, heap⟩) :=
  ⟨db.push d h, heap, rfl, rfl⟩

/-- The array of 256 pointers is the last one that can be doubled into; the next would be larger than any block. -/
theorem vectorResize_run (db : DeviceDb) (heap : H) :
    (∃ h : db.order < 8, ∃ heap', vectorResize A (db.state heap) = .ok () ((db.double h).state heap')) ∨
    ∃ msg s', vectorResize A (db.state heap) = .panic msg s' ∧ (db.order = 8 ∨ OutOfMemory A s'.heap) := by
  have hrequest : sizeofPointer * (2 ^ db.order * 2) = 2 ^ (db.order + 4) := by
    rw [pow_add, sizeofPointer]
    ring
  unfold vectorResize
  simp only [Prog.bind_run, Prog.modify_run, Prog.get_run, Outcome.andThen_ok, DeviceDb.state, hrequest]
  cases hk : A.kmalloc (2 ^ (db.order + 4)) heap with
  | none =>
    right
    rw [callKmalloc_none (by exact hk), Outcome.andThen_panic]
    refine ⟨_, _, rfl, ?_⟩
    by_cases hlast : db.order = 8
    · exact .inl hlast
    · have hle : 2 ^ (db.order + 4) ≤ 2 ^ 11 := Nat.pow_le_pow_right (by decide) (by have := db.order_le; omega)
      exact .inr ⟨2 ^ (db.order + 4), hle.trans (by decide), hk⟩
  | some heap' =>
    left
    have hlt : db.order < 8 := by
      by_contra hge
      have hlast : db.order = 8 := Nat.le_antisymm db.order_le (Nat.le_of_not_lt hge)
      rw [hlast, A.large _ heap (by decide) (by decide)] at hk
      cases hk
    rw [callKmalloc_some (by exact hk), Outcome.andThen_ok]
    exact ⟨hlt, A.kfree heap', rfl⟩

theorem vectorPushBack_added (d : EcamDevice) : Added A db [d] (vectorPushBack A d (db.state heap)) := by
  unfold vectorPushBack
  rw [Prog.bind_run, Prog.get_run, Outcome.andThen_ok]
  by_cases hfull : db.entries.length = 2 ^ db.order
  · rw [if_pos (by exact hfull), Prog.bind_run]
    rcases vectorResize_run (A := A) db heap with ⟨hlt, heap', hrun⟩ | ⟨msg, s', hrun, hwhy⟩
    · rw [hrun, Outcome.andThen_ok]
      have hroom : (db.double hlt).entries.length < 2 ^ (db.double hlt).order := by
        have hless : 2 ^ db.order < 2 ^ (db.order + 1) := Nat.pow_lt_pow_right (by decide) (Nat.lt_succ_self db.order)
        exact hfull.trans_lt hless
      exact added_push A (db.double hlt) heap' d hroom
    · rw [hrun, Outcome.andThen_panic]
      refine hwhy.imp ?_ id
      intro hlast
      rw [hfull, hlast]
      simp [maxDevices]
  · rw [if_neg (by exact hfull)]
    exact added_push A db heap d (lt_of_le_of_ne db.fits hfull)

theorem addDevice_added (d : EcamDevice) : Added A db [d] (addDevice A d (db.state heap)) := by
  apply added_of_kmalloc (by decide)
  intro heap'
  apply added_of_kmalloc (by decide)
  intro heap''
  exact vectorPushBack_added d

/-- Any number of devices, by induction on the list. -/
theorem addAll_added (l : List EcamDevice) : ∀ (db : DeviceDb) (heap : H),
    Added A db l (addAll A l (db.state heap)) := by
  induction l with
  | nil =>
    intro db heap
    exact ⟨db, heap, rfl, (List.append_nil db.entries).symm⟩
  | cons d l ih =>
    intro db heap
    have hfirst : Added A db [d] (addDevice A d (db.state heap)) := addDevice_added d
    rw [addAll, forM_cons_run]
    cases hrun : addDevice A d (db.state heap) with
    | ok a s' =>
      rw [hrun] at hfirst
      obtain ⟨db', heap', rfl, hentries⟩ := hfirst
      have hrest := ih db' heap'
      rw [Outcome.andThen_ok]
      change Added A db (d :: l) (addAll A l (db'.state heap'))
      cases hrun' : addAll A l (db'.state heap') with
      | ok a s'' =>
        rw [hrun'] at hrest
        obtain ⟨db'', heap'', rfl, hentries'⟩ := hrest
        exact ⟨db'', heap'', rfl, by simp [hentries', hentries]⟩
      | panic msg s'' =>
        rw [hrun'] at hrest
        refine hrest.imp ?_ id
        simp only [hentries, List.length_append, List.length_cons, List.length_nil]
        omega
      | stuck =>
        rw [hrun'] at hrest
        exact hrest
    | panic msg s' =>
      rw [hrun] at hfirst
      refine hfirst.imp ?_ id
      simp only [List.length_cons, List.length_nil]
      omega
    | stuck =>
      rw [hrun] at hfirst
      exact hfirst.elim

end Database

/-! ## The device records

A function that answers is handled as in the matching of the devices with drivers, where the registers stand for their
address and the database is the list of the records.
-/

section Records
variable {H : Type} {A : Allocator H}

/-- The record of an entry, in a block that `kmalloc` returned. -/
def EcamDevice.record (regs : ℕ → PciConfigRegs) (block : PciDevice) (d : EcamDevice) : PciDevice :=
  { block with bustype := d.bustype, location := d.location, regs := regs d.ecamConfigRegAdr }

theorem callKmalloc_arr {n : ℕ} {s s' : EnumState H} (h : callKmalloc A n s = .ok () s') :
    s'.devicevector = s.devicevector := by
  cases hk : A.kmalloc n s.heap with
  | none =>
    rw [callKmalloc_none hk] at h
    cases h
  | some heap' =>
    rw [callKmalloc_some hk] at h
    cases h
    rfl

theorem vectorResize_arr {s s' : EnumState H} (h : vectorResize A s = .ok () s') :
    s'.devicevector.arr = s.devicevector.arr := by
  unfold vectorResize at h
  simp only [Prog.bind_run, Prog.modify_run, Prog.get_run, Outcome.andThen_ok] at h
  obtain ⟨_, s₁, hkmalloc, hfree⟩ := Outcome.andThen_eq_ok.mp h
  cases hfree
  have harr := congrArg DeviceVector.arr (callKmalloc_arr hkmalloc)
  exact harr

theorem addDevice_arr {d : EcamDevice} {s s' : EnumState H} (h : addDevice A d s = .ok () s') :
    s'.devicevector.arr = s.devicevector.arr ++ [d] := by
  obtain ⟨_, s₁, hdevice, h⟩ := Prog.bind_ok.mp h
  obtain ⟨_, s₂, hentry, h⟩ := Prog.bind_ok.mp h
  obtain ⟨_, s₃, hget, h⟩ := Prog.bind_ok.mp h
  cases hget
  rw [← callKmalloc_arr hdevice, ← callKmalloc_arr hentry]
  split_ifs at h
  · obtain ⟨_, s₄, hresize, h⟩ := Prog.bind_ok.mp h
    cases h
    rw [← vectorResize_arr hresize]
  · cases h
    rfl

/-- One function: the entries that are added are the records that the other model adds. -/
theorem enumerateFunction_refines {regs : ℕ → PciConfigRegs} {r : PciConfigRegion} {segment : BitVec 16}
    {bus slot function : BitVec 8} {s s' : EnumState H} (block : PciDevice) (db : List PciDevice)
    (h : pciConfigEnumerateFunction A regs r segment bus slot function s = .ok () s') :
    ∃ added, s'.devicevector.arr = s.devicevector.arr ++ added ∧
      Pci.pciConfigEnumerateFunction ⟨segment.toNat, bus.toNat, slot.toNat, function.toNat⟩
        (regs (pciConfigRegsFromEcamaddr r.baseAddress ⟨segment.toNat, bus.toNat, slot.toNat, function.toNat⟩)) block
          db =
        .ok () (db ++ added.map (EcamDevice.record regs block)) := by
  unfold pciConfigEnumerateFunction at h
  unfold Pci.pciConfigEnumerateFunction
  generalize hregs : regs (pciConfigRegsFromEcamaddr r.baseAddress
    ⟨segment.toNat, bus.toNat, slot.toNat, function.toNat⟩) = registers at h ⊢
  by_cases hvendor : registers.vendorId = 0xffff
  · rw [if_pos hvendor] at h ⊢
    cases h
    exact ⟨[], by simp, by simp⟩
  · rw [if_neg hvendor] at h ⊢
    rcases htype : registers.headerType % 128 with _ | _ | _ | type
    · simp only [htype] at h ⊢
      refine ⟨_, addDevice_arr h, ?_⟩
      rw [← hregs]
      rfl
    · simp only [htype] at h ⊢
      cases h
      exact ⟨[], by simp, by simp⟩
    · simp only [htype] at h ⊢
      cases h
      exact ⟨[], by simp, by simp⟩
    · simp only [htype] at h
      cases h

end Records

/-! ## The enumeration -/

section Enumeration
variable {H : Type} (A : Allocator H) (e : EcamSpace) (db : DeviceDb) (heap : H)

theorem enumeration_added : Added A db (allEntries e) (enumeration A e db heap) := by
  rw [enumeration, enumerateRegions_eq]
  exact addAll_added (allEntries e) db heap

/-- More than 256 devices end in a panic. -/
theorem enumeration_limit (h : maxDevices < db.entries.length + (presentLocations e).ncard) :
    ∃ msg s', enumeration A e db heap = .panic msg s' := by
  have hadded := enumeration_added A e db heap
  rw [presentLocations_ncard] at h
  cases hrun : enumeration A e db heap with
  | ok a s' =>
    rw [hrun] at hadded
    obtain ⟨db', heap', rfl, hentries⟩ := hadded
    have hle := db'.length_le
    rw [hentries, List.length_append] at hle
    omega
  | panic msg s' => exact ⟨msg, s', rfl⟩
  | stuck =>
    rw [hrun] at hadded
    exact hadded.elim

/-- **The enumeration is complete and without duplicates**, as far as the array of the database can be allocated. -/
theorem enumeration_right : EnumerationRight A e db heap := by
  have hadded := enumeration_added A e db heap
  refine ⟨?_, ?_, ?_, enumeration_limit A e db heap⟩
  · intro s' hrun
    rw [hrun] at hadded
    obtain ⟨db', heap', rfl, hentries⟩ := hadded
    exact ⟨allEntries e, hentries, allEntries_complete e⟩
  · intro msg s' hrun
    rw [hrun] at hadded
    rw [presentLocations_ncard]
    exact hadded
  · intro hrun
    rw [hrun] at hadded
    exact hadded

end Enumeration

/-! ### Two full buses -/

/-- All blocks that there is a class for are served. -/
def servingAllocator : Allocator Unit where
  kmalloc n heap := if n ≤ maxKmalloc then some heap else none
  kfree heap := heap
  large _ _ h _ := if_neg (Nat.not_le_of_lt h)

def twoBuses : PciConfigRegion := ⟨0xb0000000, 0, 0, 1⟩

/-- Each of the 512 functions of two buses is a device. -/
def fullBuses : EcamSpace where
  regions := [twoBuses]
  regs _ := ⟨0x8086, 0x100e, 0x80⟩
  buses := List.pairwise_singleton _ _
  windows := List.pairwise_singleton _ _
  headers _ _ _ _ _ _ _ := by decide

def emptyDb : DeviceDb := ⟨[], 0, by decide, by decide⟩

theorem fullBuses_length : (allEntries fullBuses).length = 512 := by
  decide +kernel

/-- The 257th device does not get into the database. -/
theorem two_full_buses_not_complete : ¬ EnumerationComplete servingAllocator fullBuses emptyDb () := by
  rintro ⟨s', added, hrun, -⟩
  obtain ⟨msg, t, hpanic⟩ := enumeration_limit servingAllocator fullBuses emptyDb () (by
    rw [presentLocations_ncard, fullBuses_length]
    decide)
  rw [hpanic] at hrun
  cases hrun

end Borgos.Pci.Ecam
