import Borgos.Arch.Gdt
import Borgos.Foundations.StoreRow
import Borgos.Kcore.StartinitLaws

/-! # What the descriptor tables hold, and what else is stored -/
namespace Borgos.Arch
open Borgos.Foundations FlatMemory Borgos.Mem
set_option autoImplicit false

/-! ## Entries -/

section Entries
variable {mem : ℕ → ℕ} {entry : ℕ} {w w' : BitVec 64}

theorem loadEntry_storeEntry (mem : ℕ → ℕ) (entry : ℕ) (w : BitVec 64) :
    loadEntry (storeEntry mem entry w) entry = w := by
  have hlt : w.toNat < 256 ^ entrySize := w.isLt
  unfold loadEntry storeEntry
  rw [loadNat_storeNat (fun _ _ => rfl) hlt, BitVec.ofNat_toNat, BitVec.setWidth_eq]

theorem storeEntry_storeEntry (mem : ℕ → ℕ) (entry : ℕ) (w w' : BitVec 64) :
    storeEntry (storeEntry mem entry w) entry w' = storeEntry mem entry w' :=
  store_store (by rw [length_bytesOf, length_bytesOf])

theorem assign_storeEntry (l : List (BitField × ℕ)) : ∀ w : BitVec 64,
    assign (storeEntry mem entry w) entry l = storeEntry mem entry (BitField.setAll l w) := by
  induction l with
  | nil => exact fun w => rfl
  | cons a l ih =>
    intro w
    have hstep : assign (storeEntry mem entry w) entry (a :: l) = assign (storeEntry (storeEntry mem entry w) entry
        (a.1.set (loadEntry (storeEntry mem entry w) entry) a.2)) entry l := rfl
    rw [hstep, loadEntry_storeEntry, storeEntry_storeEntry, ih, BitField.setAll_cons]

theorem assign_cons (mem : ℕ → ℕ) (entry : ℕ) (a : BitField × ℕ) (l : List (BitField × ℕ)) :
    assign mem entry (a :: l) = storeEntry mem entry (BitField.setAll (a :: l) (loadEntry mem entry)) := by
  rw [BitField.setAll_cons, ← assign_storeEntry]
  rfl

/-- Four entries behind the first one. -/
theorem storeEntry_four (mem : ℕ → ℕ) (gdt : ℕ) (w₁ w₂ w₃ w₄ : BitVec 64) :
    storeEntry (storeEntry (storeEntry (storeEntry mem (gdt + 1 * entrySize) w₁) (gdt + 2 * entrySize) w₂)
      (gdt + 3 * entrySize) w₃) (gdt + 4 * entrySize) w₄ =
    store mem (gdt + 8) (bytesOf 8 w₁.toNat ++ bytesOf 8 w₂.toNat ++ bytesOf 8 w₃.toNat ++ bytesOf 8 w₄.toNat) := by
  rw [store_append, store_append, store_append]
  simp only [List.length_append, length_bytesOf]
  rfl

/-- All bits of a descriptor are assigned. -/
theorem assign_descriptor (mem : ℕ → ℕ) (entry type dpl l db : ℕ) :
    assign mem entry (descriptor type dpl l db) =
      storeEntry mem entry (BitField.setAll (descriptor type dpl l db) 0) := by
  have hcover : BitField.Cover 64 ((descriptor type dpl l db).map Prod.fst) := by
    have hfields : BitField.Cover 64 ((descriptor 0 0 0 0).map Prod.fst) := by decide +kernel
    exact hfields
  rw [BitField.setAll_of_cover hcover 0 (loadEntry mem entry)]
  exact assign_cons mem entry _ _

/-- Each field of a descriptor holds what it was assigned. -/
theorem get_descriptor (mem : ℕ → ℕ) (entry type dpl l db : ℕ) : ∀ a ∈ descriptor type dpl l db,
    a.1.get (loadEntry (assign mem entry (descriptor type dpl l db)) entry) = a.2 % 2 ^ a.1.width := by
  have happart : ((descriptor 0 0 0 0).map Prod.fst).Pairwise BitField.Apart := by decide +kernel
  have hin : ∀ f ∈ (descriptor 0 0 0 0).map Prod.fst, f.pos + f.width ≤ 64 := by decide +kernel
  rw [assign_descriptor, loadEntry_storeEntry]
  exact BitField.get_setAll (l := descriptor type dpl l db) happart hin 0

end Entries

/-! ## Tables -/

/-- The bytes of a table. -/
def tableBytes : List ℕ :=
  List.replicate 8 0 ++ (bytesOf 8 0x00AF9B000000FFFF ++ bytesOf 8 0x00CF93000000FFFF ++
    bytesOf 8 0x00CFF3000000FFFF ++ bytesOf 8 0x00AFFB000000FFFF) ++ List.replicate 88 0

section Tables
variable {mem : ℕ → ℕ} {gdt : ℕ}

theorem bytesOf_zero (n : ℕ) : bytesOf n 0 = List.replicate n 0 := by
  simp [bytesOf, List.map_const']

/-- Each round clears the next entry, too. -/
theorem clearEntries_run (mem : ℕ → ℕ) (gdt n : ℕ) :
    clearEntries mem gdt (n + 1) = store mem gdt (List.replicate (8 * (n + 1)) 0 ++ List.replicate 8 0) := by
  induction n with
  | zero =>
    rw [store_append, List.length_replicate]
    unfold clearEntries clearEntries storeNat
    rw [bytesOf_zero, Nat.zero_mul, Nat.add_zero]
  | succ n ih =>
    have hplace : gdt + (n + 1) * entrySize = gdt + (List.replicate (8 * (n + 1)) 0).length := by
      rw [List.length_replicate, Nat.mul_comm]
      rfl
    have hsame := store_inside (m := mem) (a := gdt) (List.replicate (8 * (n + 1)) 0) []
      (show (List.replicate 8 0).length = (List.replicate 8 0).length from rfl)
    have hmore : List.replicate (8 * (n + 1 + 1)) 0 = List.replicate (8 * (n + 1)) 0 ++ List.replicate 8 0 :=
      List.replicate_add (8 * (n + 1)) 8 0
    rw [List.append_nil] at hsame
    have hlast : gdt + (List.replicate (8 * (n + 1)) 0).length + 8 =
        gdt + (List.replicate (8 * (n + 1)) 0 ++ List.replicate 8 0).length := by
      rw [List.length_append, List.length_replicate, List.length_replicate, Nat.add_assoc]
    rw [clearEntries, ih, storeNat, storeNat, bytesOf_zero, hplace, hsame, hmore, hlast, ← store_append]

theorem length_tableBytes : tableBytes.length = sizepercpu := by
  simp [tableBytes, length_bytesOf]
  rfl

/-- **A table is stored, and 8 bytes 0 behind it.** -/
theorem gdtSetupGdt_run (mem : ℕ → ℕ) (gdt : ℕ) :
    gdtSetupGdt mem gdt = store mem gdt (tableBytes ++ List.replicate 8 0) := by
  have hkcode : BitField.setAll kcode64 (0 : BitVec 64) = 0x00AF9B000000FFFF := by decide +kernel
  have hkdata : BitField.setAll kdata64 (0 : BitVec 64) = 0x00CF93000000FFFF := by decide +kernel
  have hudata : BitField.setAll udata64 (0 : BitVec 64) = 0x00CFF3000000FFFF := by decide +kernel
  have hucode : BitField.setAll ucode64 (0 : BitVec 64) = 0x00AFFB000000FFFF := by decide +kernel
  have hassign : gdtSetupGdt mem gdt = storeEntry (storeEntry (storeEntry (storeEntry (clearEntries mem gdt gdtsize)
      (gdt + 1 * entrySize) 0x00AF9B000000FFFF) (gdt + 2 * entrySize) 0x00CF93000000FFFF)
      (gdt + 3 * entrySize) 0x00CFF3000000FFFF) (gdt + 4 * entrySize) 0x00AFFB000000FFFF := by
    rw [← hkcode, ← hkdata, ← hudata, ← hucode]
    unfold gdtSetupGdt kcode64 kdata64 udata64 ucode64
    simp only [assign_descriptor]
  have hclear : clearEntries mem gdt gdtsize =
      store mem gdt (List.replicate 8 0 ++ List.replicate 32 0 ++ (List.replicate 88 0 ++ List.replicate 8 0)) :=
    clearEntries_run mem gdt 15
  have hinside := store_inside (m := mem) (a := gdt) (List.replicate 8 0) (List.replicate 88 0 ++ List.replicate 8 0)
    (show (List.replicate 32 0).length = (bytesOf 8 0x00AF9B000000FFFF ++ bytesOf 8 0x00CF93000000FFFF ++
      bytesOf 8 0x00CFF3000000FFFF ++ bytesOf 8 0x00AFFB000000FFFF).length by simp [length_bytesOf])
  rw [hassign, storeEntry_four, hclear, tableBytes, List.append_assoc _ (List.replicate 88 0)]
  exact hinside

end Tables

/-! ## What the processor reads -/

/-- A segment descriptor. -/
structure Segment where
  base : ℕ
  limit : ℕ
  type : ℕ
  s : ℕ
  dpl : ℕ
  p : ℕ
  avl : ℕ
  l : ℕ
  db : ℕ
  g : ℕ
deriving DecidableEq

section
open GdtEntry64

def segmentOf (e : BitVec 64) : Segment where
  base := base15_0.get e + 2 ^ 16 * base23_16.get e + 2 ^ 24 * base31_24.get e
  limit := lim15_0.get e + 2 ^ 16 * lim19_16.get e
  type := type.get e
  s := s.get e
  dpl := dpl.get e
  p := p.get e
  avl := avl.get e
  l := l.get e
  db := db.get e
  g := g.get e

end

/-- All of the address space, in pages. -/
def flatSegment (type dpl l db : ℕ) : Segment := ⟨0, 0xFFFFF, type, 1, dpl, 1, 0, l, db, 1⟩

/-- Code is executable, readable and accessed, data writable and accessed. -/
def codeType : ℕ := 0b1011

def dataType : ℕ := 0b0011

structure TableRight (mem : ℕ → ℕ) (gdt : ℕ) : Prop where
  kernelCode : loadEntry mem (gdt + 1 * entrySize) = 0x00AF9B000000FFFF
  kernelData : loadEntry mem (gdt + 2 * entrySize) = 0x00CF93000000FFFF
  userData : loadEntry mem (gdt + 3 * entrySize) = 0x00CFF3000000FFFF
  userCode : loadEntry mem (gdt + 4 * entrySize) = 0x00AFFB000000FFFF
  others : ∀ k < gdtsize, k = 0 ∨ 5 ≤ k → loadEntry mem (gdt + k * entrySize) = 0

section Right
variable {mem : ℕ → ℕ} {gdt : ℕ}

/-- An entry of the bytes of a table. -/
def entryOf (k : ℕ) : BitVec 64 := BitVec.ofNat 64 (Nat.ofDigits 256 ((tableBytes.drop (k * entrySize)).take entrySize))

theorem loadEntry_of_load (h : load mem gdt sizepercpu = tableBytes) {k : ℕ} (hk : k < gdtsize) :
    loadEntry mem (gdt + k * entrySize) = entryOf k := by
  have hin : k * entrySize + entrySize ≤ sizepercpu := by
    unfold sizepercpu entrySize
    omega
  unfold loadEntry loadNat entryOf
  rw [← load_drop_take hin, h]

/-- What the processor reads: all segments are flat, and the two of the user are open to level 3. -/
theorem TableRight.segments (h : TableRight mem gdt) :
    segmentOf (loadEntry mem (gdt + 1 * entrySize)) = flatSegment codeType 0 1 0 ∧
    segmentOf (loadEntry mem (gdt + 2 * entrySize)) = flatSegment dataType 0 0 1 ∧
    segmentOf (loadEntry mem (gdt + 3 * entrySize)) = flatSegment dataType 3 0 1 ∧
    segmentOf (loadEntry mem (gdt + 4 * entrySize)) = flatSegment codeType 3 1 0 := by
  rw [h.kernelCode, h.kernelData, h.userData, h.userCode]
  decide +kernel

theorem tableRight_of_load (h : load mem gdt sizepercpu = tableBytes) : TableRight mem gdt := by
  have hothers : ∀ k < gdtsize, k = 0 ∨ 5 ≤ k → entryOf k = 0 := by decide +kernel
  constructor
  · rw [loadEntry_of_load h (by decide)]
    decide +kernel
  · rw [loadEntry_of_load h (by decide)]
    decide +kernel
  · rw [loadEntry_of_load h (by decide)]
    decide +kernel
  · rw [loadEntry_of_load h (by decide)]
    decide +kernel
  · intro k hk hother
    rw [loadEntry_of_load h hk]
    exact hothers k hk hother

/-- What `gdt_setup_gdt` stores is a table and the 8 bytes behind it. -/
theorem length_setup : (tableBytes ++ List.replicate 8 0).length = sizepercpu + 8 := by
  rw [List.length_append, length_tableBytes, List.length_replicate]

theorem take_setup : (tableBytes ++ List.replicate 8 0).take sizepercpu = tableBytes := by
  rw [← length_tableBytes, List.take_left]

theorem drop_setup : (tableBytes ++ List.replicate 8 0).drop sizepercpu = List.replicate 8 0 := by
  rw [← length_tableBytes, List.drop_left]

theorem gdtSetupGdt_right (mem : ℕ → ℕ) (gdt : ℕ) : TableRight (gdtSetupGdt mem gdt) gdt := by
  apply tableRight_of_load
  rw [gdtSetupGdt_run]
  have hpart : load (store mem gdt (tableBytes ++ List.replicate 8 0)) (gdt + 0) sizepercpu =
      ((tableBytes ++ List.replicate 8 0).drop 0).take sizepercpu := load_store_part (by rw [length_setup]; omega)
  rw [List.drop_zero, take_setup] at hpart
  exact hpart

/-- Only the table is changed exactly where the 8 bytes behind it are 0. -/
theorem gdtSetupGdt_changesOnly_iff : ChangesOnly mem (gdtSetupGdt mem gdt) gdt sizepercpu ↔
    ∀ j < 8, mem (gdt + sizepercpu + j) = 0 := by
  rw [gdtSetupGdt_run, changesOnly_store_iff (by rw [length_setup]; omega), length_setup, drop_setup,
    Nat.add_sub_cancel_left]
  constructor
  · intro h j hj
    have hcell := List.getElem_of_eq h (i := j) (by rwa [length_load])
    rwa [getElem_load, List.getElem_replicate] at hcell
  · intro h
    refine List.ext_getElem (by rw [length_load, List.length_replicate]) ?_
    intro j hj _
    rw [length_load] at hj
    rw [getElem_load, List.getElem_replicate]
    exact h j hj

end Right

/-! ## The tables of the processors -/

section Processors
variable {s : GdtState} {n i page : ℕ}

theorem buildGdts_page (s : GdtState) (n : ℕ) : (buildGdts s n).perCpuGdtpage = s.perCpuGdtpage := by
  induction n with
  | zero => rfl
  | succ n ih => exact ih

theorem buildGdts_mem (s : GdtState) (n : ℕ) :
    (buildGdts s n).mem = storeRow s.mem s.perCpuGdtpage sizepercpu (tableBytes ++ List.replicate 8 0) n := by
  induction n with
  | zero => rfl
  | succ n ih =>
    have hstep : (buildGdts s (n + 1)).mem = gdtSetupGdt (buildGdts s n).mem
      ((buildGdts s n).perCpuGdtpage + sizepercpu * n) := rfl
    rw [hstep, gdtSetupGdt_run, ih, buildGdts_page, Nat.mul_comm]
    rfl

theorem buildGdts_cpu (s : GdtState) (hi : i < n) : (buildGdts s n).cpu i =
    ⟨s.perCpuGdtpage + i * sizepercpu, ⟨gdtsize * entrySize - 1, s.perCpuGdtpage + i * sizepercpu⟩⟩ := by
  induction n with
  | zero => exact absurd hi (Nat.not_lt_zero i)
  | succ n ih =>
    have hstep : (buildGdts s (n + 1)).cpu = Function.update (buildGdts s n).cpu n
        ⟨(buildGdts s n).perCpuGdtpage + sizepercpu * n,
          ⟨gdtsize * entrySize - 1, (buildGdts s n).perCpuGdtpage + sizepercpu * n⟩⟩ := rfl
    rw [hstep]
    rcases Nat.lt_succ_iff_lt_or_eq.mp hi with hlt | rfl
    · rw [Function.update_of_ne (Nat.ne_of_lt hlt), ih hlt]
    · rw [Function.update_self, buildGdts_page, Nat.mul_comm]

/-- The block of the allocator, cleared. -/
def GdtState.withBlock (s : GdtState) (phys : Phys) (page order : ℕ) : GdtState :=
  ⟨phys, Libc.memset s.mem page 0 (pagesize <<< order), page, s.cpu⟩

theorem gdtInitPerCpu_run {phys : Phys}
    (halloc : Mem.pageAllocPagesVirt zonenormal (Kcore.sizeToPageorder (n * sizepercpu)) s.phys = .ok page phys) :
    gdtInitPerCpu n s = .ok () (buildGdts (s.withBlock phys page (Kcore.sizeToPageorder (n * sizepercpu))) n) := by
  have hblock : pageAllocPagesVirt zonenormal (Kcore.sizeToPageorder (n * sizepercpu)) s =
      .ok page { s with
        phys := phys
        mem := Libc.memset s.mem page 0 (pagesize <<< Kcore.sizeToPageorder (n * sizepercpu)) } := by
    refine Prog.bind_ok.mpr ⟨page, { s with phys := phys }, ?_, rfl⟩
    exact Prog.zoom_ok.mpr ⟨phys, halloc, rfl⟩
  unfold gdtInitPerCpu
  rw [if_neg (by decide), Prog.bind_run, hblock]
  rfl

/-- 32 tables are a page. -/
theorem pageorder_of_numcores (hpos : 1 ≤ n) (hmax : n ≤ Acpi.maxCpu) :
    Kcore.sizeToPageorder (n * sizepercpu) = if n ≤ 32 then 0 else 1 := by
  have hsize : sizepercpu = 128 := rfl
  have hcpus : Acpi.maxCpu = 64 := rfl
  have hpages : (n * sizepercpu + wordSize - 1) % wordSize / pagesize = if n ≤ 32 then 0 else 1 := by
    rw [hsize]
    unfold wordSize pagesize
    split_ifs <;> omega
  unfold Kcore.sizeToPageorder
  rw [hpages]
  split_ifs
  · rfl
  · rfl

/-- What `gdt_init_per_cpu` is to do. -/
structure TablesRight (s : GdtState) (page order n : ℕ) : Prop where
  place : ∀ i < n, (buildGdts s n).cpu i = ⟨page + i * sizepercpu, ⟨sizepercpu - 1, page + i * sizepercpu⟩⟩
  inside : ∀ i < n, i * sizepercpu + sizepercpu ≤ pagesize <<< order
  call : ∀ i < n, ChangesOnly (buildGdts s i).mem (buildGdts s (i + 1)).mem (page + i * sizepercpu) sizepercpu
  right : ∀ i < n, TableRight (buildGdts s n).mem (page + i * sizepercpu)

/-- What lies behind a table has not been changed before the call. -/
theorem call_iff (s : GdtState) (i : ℕ) :
    ChangesOnly (buildGdts s i).mem (buildGdts s (i + 1)).mem (s.perCpuGdtpage + i * sizepercpu) sizepercpu ↔
      ∀ j < 8, s.mem (s.perCpuGdtpage + i * sizepercpu + sizepercpu + j) = 0 := by
  have hsize : sizepercpu = 128 := rfl
  have hstep : (buildGdts s (i + 1)).mem = gdtSetupGdt (buildGdts s i).mem (s.perCpuGdtpage + i * sizepercpu) := by
    rw [← buildGdts_page s i, Nat.mul_comm]
    rfl
  rw [hstep, gdtSetupGdt_changesOnly_iff]
  apply forall₂_congr
  intro j hj
  rw [buildGdts_mem, storeRow_behind (.inr (by rw [length_setup]; omega))]

theorem tables_right (s : GdtState) (n : ℕ) {i : ℕ} (hi : i < n) :
    TableRight (buildGdts s n).mem (s.perCpuGdtpage + i * sizepercpu) := by
  apply tableRight_of_load
  rw [buildGdts_mem, load_storeRow (by rw [length_setup]; omega) hi, take_setup]

/-- The last table is at the end of the block where there are 32 or 64. -/
theorem tablesRight_iff (hpos : 1 ≤ n) (hmax : n ≤ Acpi.maxCpu) (s : GdtState) (phys : Phys) (page : ℕ) :
    TablesRight (s.withBlock phys page (Kcore.sizeToPageorder (n * sizepercpu))) page
      (Kcore.sizeToPageorder (n * sizepercpu)) n ↔
      (n = 32 ∨ n = 64 → ∀ j < 8, s.mem (page + n * sizepercpu + j) = 0) := by
  have hsize : sizepercpu = 128 := rfl
  have hcpus : Acpi.maxCpu = 64 := rfl
  obtain ⟨size, hblock⟩ : ∃ size, size = pagesize <<< Kcore.sizeToPageorder (n * sizepercpu) := ⟨_, rfl⟩
  have hbytes : size = if n ≤ 32 then 4096 else 8192 := by
    rw [hblock, pageorder_of_numcores hpos hmax]
    split_ifs
    · rfl
    · rfl
  obtain ⟨t, ht⟩ : ∃ t, t = s.withBlock phys page (Kcore.sizeToPageorder (n * sizepercpu)) := ⟨_, rfl⟩
  have hpage : t.perCpuGdtpage = page := by
    rw [ht]
    rfl
  have hmem : ∀ p, t.mem p = if page ≤ p ∧ p < page + size then 0 else s.mem p := by
    intro p
    rw [ht, hblock]
    exact Libc.memset_apply 0 _ s.mem page p
  rw [← ht]
  constructor
  · rintro h hfull j hj
    have hlast := h.call (n - 1) (by omega)
    rw [← hpage, call_iff] at hlast
    have hcell := hlast j hj
    have hend : page + (n - 1) * sizepercpu + sizepercpu = page + n * sizepercpu := by
      rw [hsize]
      omega
    have hout : ¬ (page ≤ page + n * sizepercpu + j ∧ page + n * sizepercpu + j < page + size) := by
      rw [hsize]
      split_ifs at hbytes <;> omega
    rwa [hpage, hend, hmem, if_neg hout] at hcell
  · intro h
    refine ⟨?_, ?_, ?_, ?_⟩
    · intro i hi
      rw [buildGdts_cpu t hi, hpage]
      rfl
    · intro i hi
      rw [← hblock, hbytes, hsize]
      split_ifs <;> omega
    · intro i hi
      rw [← hpage, call_iff]
      intro j hj
      rw [hmem, hpage]
      split_ifs with hin
      · rfl
      · rw [hsize] at hin
        have hend : i + 1 = n ∧ (n = 32 ∨ n = 64) := by
          split_ifs at hbytes <;> omega
        rw [Nat.add_assoc page, ← Nat.succ_mul, Nat.succ_eq_add_one, hend.1]
        exact h hend.2 j hj
    · intro i hi
      rw [← hpage]
      exact tables_right t n hi

end Processors

/-- `gdt_init` sets up `bootgdt`, and nothing else. -/
structure BootRight (mem : ℕ → ℕ) (bootgdt : ℕ) : Prop where
  call : ChangesOnly mem (gdtInit mem bootgdt).1 bootgdt sizepercpu
  right : TableRight (gdtInit mem bootgdt).1 bootgdt
  gdtr : (gdtInit mem bootgdt).2 = ⟨sizepercpu - 1, bootgdt⟩

theorem bootRight_iff (mem : ℕ → ℕ) (bootgdt : ℕ) :
    BootRight mem bootgdt ↔ ∀ j < 8, mem (bootgdt + sizepercpu + j) = 0 := by
  constructor
  · exact fun h => gdtSetupGdt_changesOnly_iff.mp h.call
  · exact fun h => ⟨gdtSetupGdt_changesOnly_iff.mpr h, gdtSetupGdt_right mem bootgdt, rfl⟩

/-- **The tables are right; only the bytes behind the last one may be overwritten.** -/
theorem gdt_tables_iff (mem : ℕ → ℕ) (bootgdt n : ℕ) (hpos : 1 ≤ n) (hmax : n ≤ Acpi.maxCpu) (s : GdtState)
    (page : ℕ) (phys : Phys) (halloc : Mem.pageAllocPagesVirt zonenormal
    (Kcore.sizeToPageorder (n * sizepercpu)) s.phys = .ok page phys) :
    (BootRight mem bootgdt ↔ ∀ j < 8, mem (bootgdt + sizepercpu + j) = 0) ∧
    gdtInitPerCpu n s = .ok () (buildGdts (s.withBlock phys page (Kcore.sizeToPageorder (n * sizepercpu))) n) ∧
    (TablesRight (s.withBlock phys page (Kcore.sizeToPageorder (n * sizepercpu))) page
    (Kcore.sizeToPageorder (n * sizepercpu)) n ↔
      (n = 32 ∨ n = 64 → ∀ j < 8, s.mem (page + n * sizepercpu + j) = 0)) :=
  ⟨bootRight_iff mem bootgdt, gdtInitPerCpu_run halloc, tablesRight_iff hpos hmax s phys page⟩

/-- Memory with one free page. -/
def onePage : Phys :=
  ⟨fun _ => ⟨0, 0, none, 0⟩,
    Kcore.listAdd (Kcore.initListHead (fun _ => ⟨none, none⟩) (.freelist .NORMAL 0)) (.page 1024) (.freelist .NORMAL 0),
    2047, 1024, 2047, ⟨0, 0, 0⟩⟩

/-- All bytes are 1. -/
def onesState : GdtState := ⟨onePage, fun _ => 1, 0, fun _ => ⟨0, ⟨0, 0⟩⟩⟩

theorem onePage_alloc {n : ℕ} (hpos : 1 ≤ n) (hmax : n ≤ 32) :
    ∃ phys, Mem.pageAllocPagesVirt zonenormal (Kcore.sizeToPageorder (n * sizepercpu)) onePage =
      .ok 0xFFFF800000400000 phys := by
  rw [pageorder_of_numcores hpos (Nat.le_trans hmax (by decide)), if_pos hmax]
  exact ⟨_, rfl⟩

theorem gdt_tables_four : ∃ phys,
    (BootRight (fun _ => 1) 0xFFFF800000300000 ↔ ∀ j < 8, (1 : ℕ) = 0) ∧
    gdtInitPerCpu 4 onesState =
      .ok () (buildGdts (onesState.withBlock phys 0xFFFF800000400000 (Kcore.sizeToPageorder (4 * sizepercpu))) 4) ∧
    (TablesRight (onesState.withBlock phys 0xFFFF800000400000 (Kcore.sizeToPageorder (4 * sizepercpu)))
      0xFFFF800000400000
      (Kcore.sizeToPageorder (4 * sizepercpu)) 4 ↔ (4 = 32 ∨ 4 = 64 → ∀ j < 8, (1 : ℕ) = 0)) := by
  obtain ⟨phys, halloc⟩ := onePage_alloc (n := 4) (by decide) (by decide)
  exact ⟨phys, gdt_tables_iff (fun _ => 1) 0xFFFF800000300000 4 (by decide)
    (by decide) onesState 0xFFFF800000400000 phys halloc⟩

/-- 32 processors, and something else behind their page. -/
theorem page_end_overwritten : ¬ ∀ (n : ℕ) (s : GdtState) (page : ℕ) (phys : Phys), 1 ≤ n → n ≤ Acpi.maxCpu →
    Mem.pageAllocPagesVirt zonenormal (Kcore.sizeToPageorder (n * sizepercpu)) s.phys = .ok page phys →
    TablesRight (s.withBlock phys page (Kcore.sizeToPageorder (n * sizepercpu))) page
      (Kcore.sizeToPageorder (n * sizepercpu)) n := by
  intro h
  obtain ⟨phys, halloc⟩ := onePage_alloc (n := 32) (by decide) (by decide)
  have hright := h 32 onesState _ phys (by decide) (by decide) halloc
  have hzero := (tablesRight_iff (by decide) (by decide) onesState phys _).mp hright (.inl rfl) 0 (by decide)
  exact Nat.one_ne_zero hzero

end Borgos.Arch
