import Borgos.Acpi.Madt
import Borgos.Boot.RelocationLaws

/-! # What the walk over the MADT reads and registers

The rounds of the loop are followed by the list of the entries they have met. An entry met once more, because its size
is 0, is in the list once more.
-/
namespace Borgos.Acpi
open Borgos.Foundations Borgos.Mem Borgos.Apic
open Borgos.Boot (Byte Memory u32)
set_option autoImplicit false

section Walk
variable (t : Memory) (bp : Byte)

/-- A local APIC of another processor. -/
def IsAp (p : ℕ) : Prop := entryType t p = madtTypeCpulapic ∧ lapicApicid t p ≠ bp ∧ (lapicApicid t p).toNat < 255

instance (p : ℕ) : Decidable (IsAp t bp p) := inferInstanceAs (Decidable (_ ∧ _ ∧ _))

/-- The ids of the processors among the entries, in their order. -/
def apicids (met : List ℕ) : List Byte := (met.filter fun p => decide (IsAp t bp p)).map (lapicApicid t)

def ioapicsMet (met : List ℕ) : ℕ := (met.filter fun p => decide (entryType t p = madtTypeIoapic)).length

def OverrideMet (met : List ℕ) (source : Byte) : Prop :=
  ∃ q ∈ met, entryType t q = madtTypeIoapicintoverride ∧ overrideSource t q = source

/-- The function panics on an entry: one processor too many, or a second override. -/
def PanicsAt (met : List ℕ) (p : ℕ) : Prop :=
  IsAp t bp p ∧ maxCpu ≤ (apicids t bp met).length + 1 ∨
    entryType t p = madtTypeIoapicintoverride ∧ OverrideMet t met (overrideSource t p)

/-- The loop comes to offset `p` with these entries behind it. -/
inductive Reached : List ℕ → ℕ → Prop
  | start : Reached [] sizeofMadt
  | next {met : List ℕ} {p : ℕ} (h : Reached met p) (hin : p < tableLength t) (hgo : ¬ PanicsAt t bp met p) :
      Reached (met ++ [p]) (p + entrySize t p)

/-- The bytes of an entry that are read. -/
def entryExtent (p : ℕ) : ℕ :=
  if entryType t p = madtTypeCpulapic then 4
  else if entryType t p = madtTypeIoapic then 12
  else if entryType t p = madtTypeIoapicintoverride then 10
  else 2

/-- The entries of the table, as far as their sizes lead. -/
inductive EntryAt : ℕ → Prop
  | first (h : sizeofMadt < tableLength t) : EntryAt sizeofMadt
  | next {p : ℕ} (h : EntryAt p) (hin : p + entrySize t p < tableLength t) : EntryAt (p + entrySize t p)

/-- A processor other than the executing one that the table describes. -/
def Described (a : Byte) : Prop := ∃ p, EntryAt t p ∧ IsAp t bp p ∧ lapicApicid t p = a

end Walk

/-! ## The property and its condition -/

def TableRead.Inside (r : TableRead) (length : ℕ) : Prop := r.offset + r.len ≤ length

/-- The processors of the table are registered: each has a slot of its own. -/
structure Grown {H : Type} (t : Memory) (bp : Byte) (s s' : MadtState H) : Prop where
  count : s'.cpuNumcores = s.cpuNumcores + {a | Described t bp a}.ncard
  slots : ∀ a, Described t bp a → ∃ slot, 1 ≤ slot ∧ slot < maxCpu ∧ s'.apicIdCpumap a = some slot ∧
    (s'.cpu slot).xapicLogicalid = a
  injective : ∀ a b slot, s'.apicIdCpumap a = some slot → s'.apicIdCpumap b = some slot → a = b

/-- A run that ends well: by a panic, or with all processors registered, and without a read behind the table. -/
def EndsWell {H : Type} (t : Memory) (bp : Byte) (s : MadtState H) : Outcome (MadtState H) Unit → Prop
  | .ok _ s' => (∀ r ∈ s'.reads, r.Inside (tableLength t)) ∧ Grown t bp s s'
  | .panic _ s' => ∀ r ∈ s'.reads, r.Inside (tableLength t)
  | .stuck => False

/-- The function ends, whatever the registers of the I/O APICs are and whenever the heap is used up. -/
def MadtRight (t : Memory) (bp : Byte) : Prop :=
  ∀ (H : Type) (kmalloc : H → Option H) (heap : H) (regs : Registers), ∃ fuel,
    EndsWell t bp (bootState bp regs heap) (halParseApicFromMadt t kmalloc bp fuel (bootState bp regs heap))

/-- Where the walk comes to an entry: it lies in the table as far as it is read, there is a place for an I/O APIC, and a
size of 0 only repeats an entry until the function panics. -/
structure EntryFine (t : Memory) (bp : Byte) (met : List ℕ) (p : ℕ) : Prop where
  whole : p + entryExtent t p ≤ tableLength t
  place : entryType t p = madtTypeIoapic → ioapicsMet t met < ioapicMax
  advances : entrySize t p = 0 → IsAp t bp p ∨ entryType t p = madtTypeIoapicintoverride

structure MadtFine (t : Memory) (bp : Byte) : Prop where
  header : sizeofMadt ≤ tableLength t
  entries : ∀ met p, Reached t bp met p → p < tableLength t → EntryFine t bp met p
  distinct : ∀ met p, Reached t bp met p → tableLength t ≤ p → (apicids t bp met).Nodup

/-! ## One more entry -/

section Lists
variable {t : Memory} {bp : Byte} {met : List ℕ} {p : ℕ}

theorem apicids_ap (h : IsAp t bp p) : apicids t bp (met ++ [p]) = apicids t bp met ++ [lapicApicid t p] := by
  simp [apicids, h]

theorem apicids_other (h : ¬ IsAp t bp p) : apicids t bp (met ++ [p]) = apicids t bp met := by
  simp [apicids, h]

theorem ioapicsMet_ioapic (h : entryType t p = madtTypeIoapic) : ioapicsMet t (met ++ [p]) = ioapicsMet t met + 1 := by
  simp [ioapicsMet, h]

theorem ioapicsMet_other (h : entryType t p ≠ madtTypeIoapic) : ioapicsMet t (met ++ [p]) = ioapicsMet t met := by
  simp [ioapicsMet, h]

theorem overrideMet_override (h : entryType t p = madtTypeIoapicintoverride) {source : Byte} :
    OverrideMet t (met ++ [p]) source ↔ OverrideMet t met source ∨ overrideSource t p = source := by
  simp [OverrideMet, or_and_right, exists_or, h]

theorem overrideMet_other (h : entryType t p ≠ madtTypeIoapicintoverride) {source : Byte} :
    OverrideMet t (met ++ [p]) source ↔ OverrideMet t met source := by
  simp [OverrideMet, or_and_right, exists_or, h]

theorem mem_apicids {a : Byte} : a ∈ apicids t bp met ↔ ∃ q ∈ met, IsAp t bp q ∧ lapicApicid t q = a := by
  simp [apicids, and_assoc]

theorem ne_of_mem_apicids {a : Byte} (h : a ∈ apicids t bp met) : a ≠ bp := by
  obtain ⟨q, -, hap, rfl⟩ := mem_apicids.mp h
  exact hap.2.1

end Lists

/-! ## One round -/

/-- What is registered behind a list of entries. -/
structure Kept {H : Type} (t : Memory) (bp : Byte) (met : List ℕ) (s : MadtState H) : Prop where
  numcores : s.cpuNumcores = 1 + (apicids t bp met).length
  room : (apicids t bp met).length < maxCpu
  boot : (s.cpu 0).xapicLogicalid = bp
  slots : ∀ i a, (apicids t bp met)[i]? = some a → (s.cpu (i + 1)).xapicLogicalid = a
  cpuids : ∀ n, (s.cpu n).cpuid = n
  mapBoot : s.apicIdCpumap bp = some 0
  map : ∀ a slot, a ≠ bp → s.apicIdCpumap a = some slot → ∃ i, slot = i + 1 ∧ (apicids t bp met)[i]? = some a
  mapped : ∀ a ∈ apicids t bp met, (s.apicIdCpumap a).isSome
  ioapics : s.apic.ioapicCount = ioapicsMet t met
  overrides : ∀ source, (s.apic.irqSourceOverride source).isSome ↔ OverrideMet t met source

section Round
variable {H : Type} {t : Memory} {bp : Byte} {met : List ℕ} {p : ℕ} {s : MadtState H} {kmalloc : H → Option H}

theorem Kept.reads (h : Kept t bp met s) (reads : List TableRead) : Kept t bp met { s with reads } :=
  ⟨h.numcores, h.room, h.boot, h.slots, h.cpuids, h.mapBoot, h.map, h.mapped, h.ioapics, h.overrides⟩

/-- An entry that registers nothing. -/
theorem Kept.skip (h : Kept t bp met s) (hap : ¬ IsAp t bp p) (hioapic : entryType t p ≠ madtTypeIoapic)
    (hoverride : entryType t p ≠ madtTypeIoapicintoverride) : Kept t bp (met ++ [p]) s := by
  refine ⟨?_, ?_, h.boot, ?_, h.cpuids, h.mapBoot, ?_, ?_, ?_, ?_⟩
  · rw [apicids_other hap]
    exact h.numcores
  · rw [apicids_other hap]
    exact h.room
  · rw [apicids_other hap]
    exact h.slots
  · rw [apicids_other hap]
    exact h.map
  · rw [apicids_other hap]
    exact h.mapped
  · rw [ioapicsMet_other hioapic]
    exact h.ioapics
  · intro source
    rw [overrideMet_other hoverride]
    exact h.overrides source

/-- The state behind a new processor. -/
def addCpu (s : MadtState H) (n : ℕ) (apicid : Byte) : MadtState H :=
  { s with
    cpu := Function.update s.cpu n ⟨n, cpuStatusHalted, 0, apicid⟩
    apicIdCpumap := Function.update s.apicIdCpumap apicid (some n)
    cpuNumcores := s.cpuNumcores + 1 }

theorem Kept.addCpu (h : Kept t bp met s) (hap : IsAp t bp p) (hroom : (apicids t bp met).length + 1 < maxCpu) :
    Kept t bp (met ++ [p]) (addCpu s (1 + (apicids t bp met).length) (lapicApicid t p)) := by
  have htype := hap.1
  have hbp := hap.2.1
  have hioapic : entryType t p ≠ madtTypeIoapic := by
    rw [htype]
    decide
  have hoverride : entryType t p ≠ madtTypeIoapicintoverride := by
    rw [htype]
    decide
  have hids := @apicids_ap t bp met p hap
  refine ⟨?_, ?_, ?_, ?_, ?_, ?_, ?_, ?_, ?_, ?_⟩
  · rw [hids, List.length_append, List.length_singleton]
    show s.cpuNumcores + 1 = _
    rw [h.numcores]
    omega
  · rw [hids, List.length_append, List.length_singleton]
    exact hroom
  · have hne : (0 : ℕ) ≠ 1 + (apicids t bp met).length := by omega
    simpa [Acpi.addCpu, hne] using h.boot
  · intro i a hi
    rw [hids] at hi
    rcases Nat.lt_trichotomy i (apicids t bp met).length with hlt | rfl | hgt
    · rw [List.getElem?_append_left hlt] at hi
      have hne : i + 1 ≠ 1 + (apicids t bp met).length := by omega
      simpa [Acpi.addCpu, hne] using h.slots i a hi
    · simp at hi
      simp [Acpi.addCpu, Nat.add_comm 1, hi]
    · rw [List.getElem?_eq_none (by simp; omega)] at hi
      cases hi
  · intro n
    by_cases hn : n = 1 + (apicids t bp met).length
    · simp [Acpi.addCpu, hn]
    · simpa [Acpi.addCpu, hn] using h.cpuids n
  · simpa [Acpi.addCpu, Function.update_of_ne hbp.symm] using h.mapBoot
  · intro a slot ha hslot
    rw [hids]
    by_cases heq : a = lapicApicid t p
    · subst heq
      simp [Acpi.addCpu] at hslot
      exact ⟨(apicids t bp met).length, by omega, by simp⟩
    · simp [Acpi.addCpu, heq] at hslot
      obtain ⟨i, hi, hget⟩ := h.map a slot ha hslot
      exact ⟨i, hi, by rw [List.getElem?_append_left (List.getElem?_eq_some_iff.mp hget).1, hget]⟩
  · intro a ha
    rw [hids] at ha
    by_cases heq : a = lapicApicid t p
    · simp [Acpi.addCpu, heq]
    · simp [heq] at ha
      simpa [Acpi.addCpu, heq] using h.mapped a ha
  · rw [ioapicsMet_other hioapic]
    exact h.ioapics
  · intro source
    rw [overrideMet_other hoverride]
    exact h.overrides source

/-- An entry that changes only the state of `apic.c`. -/
theorem Kept.apic (h : Kept t bp met s) (hap : ¬ IsAp t bp p) {apic : ApicState H}
    (hioapics : apic.ioapicCount = ioapicsMet t (met ++ [p]))
    (hoverrides : ∀ source, (apic.irqSourceOverride source).isSome ↔ OverrideMet t (met ++ [p]) source) :
    Kept t bp (met ++ [p]) { s with apic } := by
  have hids := @apicids_other t bp met p hap
  refine ⟨?_, ?_, h.boot, ?_, h.cpuids, h.mapBoot, ?_, ?_, hioapics, hoverrides⟩
  · rw [hids]
    exact h.numcores
  · rw [hids]
    exact h.room
  · rw [hids]
    exact h.slots
  · rw [hids]
    exact h.map
  · rw [hids]
    exact h.mapped

/-! ### The functions of `apic.c` -/

theorem ioapicAdd_cases (kmalloc : H → Option H) (a : ApicState H) (ioapicid : Byte) (adr : BitVec 64)
    (base : BitVec 32) :
    (a.ioapicCount < ioapicMax ∧ ∃ a', apicIoapicAdd kmalloc ioapicid adr base a = .ok () a' ∧
      a'.ioapicCount = a.ioapicCount + 1 ∧ a'.irqSourceOverride = a.irqSourceOverride) ∨
    (kmalloc a.heap = none ∧ apicIoapicAdd kmalloc ioapicid adr base a = .panic "kmalloc" a) ∨
    (ioapicMax ≤ a.ioapicCount ∧ apicIoapicAdd kmalloc ioapicid adr base a = .stuck) := by
  cases hheap : kmalloc a.heap with
  | none =>
    right
    left
    simp [apicIoapicAdd, callKmalloc, hheap]
  | some heap =>
    by_cases hroom : a.ioapicCount < ioapicMax
    · left
      refine ⟨hroom, ?_⟩
      simp [apicIoapicAdd, callKmalloc, apicIoapicRead, hheap, hroom]
    · right
      right
      simp [apicIoapicAdd, callKmalloc, apicIoapicRead, hheap, hroom, Nat.le_of_not_lt hroom]

theorem overrideAdd_cases (kmalloc : H → Option H) (a : ApicState H) (bus source : Byte) (flags : BitVec 16)
    (global : BitVec 32) :
    (a.irqSourceOverride source = none ∧ ∃ a', apicIoapicIrqoverrideAdd kmalloc bus source flags global a = .ok () a' ∧
      a'.ioapicCount = a.ioapicCount ∧
      ∀ src, (a'.irqSourceOverride src).isSome ↔ (a.irqSourceOverride src).isSome ∨ source = src) ∨
    ((kmalloc a.heap = none ∨ (a.irqSourceOverride source).isSome) ∧
      ∃ msg, apicIoapicIrqoverrideAdd kmalloc bus source flags global a = .panic msg a) := by
  cases hovr : a.irqSourceOverride source with
  | some ovr =>
    right
    refine ⟨.inr rfl, ?_⟩
    simp [apicIoapicIrqoverrideAdd, hovr]
  | none =>
    cases hheap : kmalloc a.heap with
    | none =>
      right
      refine ⟨.inl rfl, ?_⟩
      simp [apicIoapicIrqoverrideAdd, callKmalloc, hovr, hheap]
    | some heap =>
      left
      refine ⟨rfl, ?_⟩
      simp only [apicIoapicIrqoverrideAdd, callKmalloc, Prog.bind_run, Prog.get_run, Outcome.andThen_ok, hovr,
        Option.isSome_none, Bool.false_eq_true, if_false, hheap, Prog.modify_run]
      refine ⟨_, rfl, rfl, ?_⟩
      intro src
      by_cases hsrc : src = source
      · simp [hsrc]
      · simp [hsrc, Ne.symm hsrc]

/-! ### The kinds of entry -/

/-- What a round reads before the size. -/
def fieldReads (t : Memory) (p : ℕ) : List TableRead :=
  if entryType t p = madtTypeCpulapic then [⟨p, 1⟩, ⟨p + 3, 1⟩]
  else if entryType t p = madtTypeIoapic then [⟨p, 1⟩, ⟨p + 2, 1⟩, ⟨p + 4, 4⟩, ⟨p + 8, 4⟩]
  else if entryType t p = madtTypeIoapicintoverride then [⟨p, 1⟩, ⟨p + 2, 1⟩, ⟨p + 3, 1⟩, ⟨p + 8, 2⟩, ⟨p + 4, 4⟩]
  else [⟨p, 1⟩]

/-- The three ways a round goes: it registers the entry, it panics, or it has no meaning. -/
inductive RoundEnd (t : Memory) (bp : Byte) (kmalloc : H → Option H) (met : List ℕ) (p : ℕ) (s : MadtState H) :
    Outcome (MadtState H) ℕ → Prop
  | ok {s' : MadtState H} (hgo : ¬ PanicsAt t bp met p)
      (hplace : entryType t p = madtTypeIoapic → ioapicsMet t met < ioapicMax) (hkept : Kept t bp (met ++ [p]) s')
      (hreads : s'.reads = s.reads ++ fieldReads t p) :
      RoundEnd t bp kmalloc met p s (.ok (1 + (apicids t bp (met ++ [p])).length) s')
  | panic {msg : String} {s' : MadtState H} (hpanic : (∀ heap, (kmalloc heap).isSome) → PanicsAt t bp met p)
      (hfields : 2 ≤ (fieldReads t p).length) (hreads : s'.reads = s.reads ++ fieldReads t p) :
      RoundEnd t bp kmalloc met p s (.panic msg s')
  | stuck (htype : entryType t p = madtTypeIoapic) (hfull : ioapicMax ≤ ioapicsMet t met) :
      RoundEnd t bp kmalloc met p s .stuck

theorem roundEnd_lapic (h : Kept t bp met s) (htype : entryType t p = madtTypeCpulapic) :
    RoundEnd t bp kmalloc met p s (parseEntry t kmalloc 0 p (1 + (apicids t bp met).length) s) := by
  have hioapic : entryType t p ≠ madtTypeIoapic := by
    rw [htype]
    decide
  have hoverride : entryType t p ≠ madtTypeIoapicintoverride := by
    rw [htype]
    decide
  have hfields : fieldReads t p = [⟨p, 1⟩, ⟨p + 3, 1⟩] := if_pos htype
  have hother : ∀ met', ¬ IsAp t bp p → ¬ PanicsAt t bp met' p := by
    rintro met' hap (⟨hc, -⟩ | ⟨hc, -⟩)
    · exact hap hc
    · exact hoverride hc
  have hskip : ¬ IsAp t bp p → RoundEnd t bp kmalloc met p s (.ok (1 + (apicids t bp met).length)
      { s with reads := s.reads ++ [⟨p, 1⟩] ++ [⟨p + 3, 1⟩] }) := by
    intro hap
    rw [← @apicids_other t bp met p hap]
    refine .ok (hother met hap) (fun hc => absurd hc hioapic) ((h.skip hap hioapic hoverride).reads _) ?_
    simp [hfields]
  unfold parseEntry
  rw [Prog.bind_run, readAt, Prog.modify_run, Outcome.andThen_ok, if_pos htype]
  unfold parseCpulapic
  rw [Prog.bind_run, readAt, Prog.modify_run, Outcome.andThen_ok, Prog.bind_run, Prog.get_run, Outcome.andThen_ok]
  dsimp only
  rw [h.boot]
  by_cases hbp : lapicApicid t p = bp
  · rw [if_pos hbp]
    exact hskip fun hap => hap.2.1 hbp
  · rw [if_neg hbp]
    by_cases hlow : (lapicApicid t p).toNat < 255
    · rw [if_pos hlow]
      by_cases hroom : 1 + (apicids t bp met).length ≥ maxCpu
      · rw [if_pos hroom]
        refine .panic (fun _ => .inl ⟨⟨htype, hbp, hlow⟩, by omega⟩) (by simp [hfields]) ?_
        simp [hfields]
      · rw [if_neg hroom]
        have hap : IsAp t bp p := ⟨htype, hbp, hlow⟩
        have hgo : ¬ PanicsAt t bp met p := by
          rintro (⟨-, hc⟩ | ⟨hc, -⟩)
          · omega
          · exact hoverride hc
        have hcount : 1 + (apicids t bp met).length + 1 = 1 + (apicids t bp (met ++ [p])).length := by
          rw [apicids_ap hap, List.length_append, List.length_singleton]
          omega
        have hkept := (h.addCpu hap (by omega)).reads (s.reads ++ [⟨p, 1⟩] ++ [⟨p + 3, 1⟩])
        have hrun : RoundEnd t bp kmalloc met p s (.ok _ _) :=
          .ok hgo (fun hc => absurd hc hioapic) hkept (by simp [hfields])
        rw [← hcount] at hrun
        simpa [cpuInitCpustate, Acpi.addCpu] using hrun
    · rw [if_neg hlow]
      exact hskip fun hap => hlow hap.2.2

theorem roundEnd_ioapic (h : Kept t bp met s) (htype : entryType t p = madtTypeIoapic) :
    RoundEnd t bp kmalloc met p s (parseEntry t kmalloc 0 p (1 + (apicids t bp met).length) s) := by
  have hlapic : entryType t p ≠ madtTypeCpulapic := by
    rw [htype]
    decide
  have hoverride : entryType t p ≠ madtTypeIoapicintoverride := by
    rw [htype]
    decide
  have hap : ¬ IsAp t bp p := fun hc => hlapic hc.1
  have hgo : ¬ PanicsAt t bp met p := by
    rintro (⟨hc, -⟩ | ⟨hc, -⟩)
    · exact hap hc
    · exact hoverride hc
  have hfields : fieldReads t p = [⟨p, 1⟩, ⟨p + 2, 1⟩, ⟨p + 4, 4⟩, ⟨p + 8, 4⟩] := by
    rw [fieldReads, if_neg hlapic, if_pos htype]
  unfold parseEntry
  rw [Prog.bind_run, readAt, Prog.modify_run, Outcome.andThen_ok, if_neg hlapic, if_pos htype]
  simp only [parseIoapic, readAt, Prog.bind_run, Prog.modify_run, Outcome.andThen_ok, onApic, Prog.zoom]
  rcases ioapicAdd_cases kmalloc s.apic (t (p + 2)) (BitVec.ofNat 64 (p2v (u32 t (p + 4))))
    (BitVec.ofNat 32 (u32 t (p + 8))) with ⟨hroom, a', hrun, hcount, hsame⟩ | ⟨hheap, hrun⟩ | ⟨hfull, hrun⟩
  · rw [hrun, Outcome.andThen_ok, Prog.pure_run, ← @apicids_other t bp met p hap]
    have hkept : Kept t bp (met ++ [p]) { s with apic := a' } := by
      apply h.apic hap
      · rw [hcount, h.ioapics, ioapicsMet_ioapic htype]
      · intro source
        rw [hsame, overrideMet_other hoverride]
        exact h.overrides source
    refine .ok hgo (fun _ => h.ioapics ▸ hroom) (hkept.reads _) ?_
    simp [hfields]
  · rw [hrun, Outcome.andThen_panic]
    refine .panic (fun hall => ?_) (by simp [hfields]) (by simp [hfields])
    have hsome := hall s.apic.heap
    rw [hheap] at hsome
    cases hsome
  · rw [hrun, Outcome.andThen_stuck]
    exact .stuck htype (h.ioapics ▸ hfull)

theorem roundEnd_override (h : Kept t bp met s) (htype : entryType t p = madtTypeIoapicintoverride) :
    RoundEnd t bp kmalloc met p s (parseEntry t kmalloc 0 p (1 + (apicids t bp met).length) s) := by
  have hlapic : entryType t p ≠ madtTypeCpulapic := by
    rw [htype]
    decide
  have hioapic : entryType t p ≠ madtTypeIoapic := by
    rw [htype]
    decide
  have hap : ¬ IsAp t bp p := fun hc => hlapic hc.1
  have hfields : fieldReads t p = [⟨p, 1⟩, ⟨p + 2, 1⟩, ⟨p + 3, 1⟩, ⟨p + 8, 2⟩, ⟨p + 4, 4⟩] := by
    rw [fieldReads, if_neg hlapic, if_neg hioapic, if_pos htype]
  unfold parseEntry
  rw [Prog.bind_run, readAt, Prog.modify_run, Outcome.andThen_ok, if_neg hlapic, if_neg hioapic, if_pos htype]
  simp only [parseOverride, readAt, Prog.bind_run, Prog.modify_run, Outcome.andThen_ok, onApic, Prog.zoom]
  rcases overrideAdd_cases kmalloc s.apic (t (p + 2)) (overrideSource t p) (t (p + 9) ++ t (p + 8))
    (BitVec.ofNat 32 (u32 t (p + 4))) with ⟨hnone, a', hrun, hcount, hsome⟩ | ⟨hcause, msg, hrun⟩
  · rw [hrun, Outcome.andThen_ok, Prog.pure_run, ← @apicids_other t bp met p hap]
    have hgo : ¬ PanicsAt t bp met p := by
      rintro (⟨hc, -⟩ | ⟨-, hc⟩)
      · exact hap hc
      · rw [← h.overrides, hnone] at hc
        cases hc
    have hkept : Kept t bp (met ++ [p]) { s with apic := a' } := by
      apply h.apic hap
      · rw [hcount, h.ioapics, ioapicsMet_other hioapic]
      · intro source
        rw [hsome, overrideMet_override htype, h.overrides source]
    refine .ok hgo (fun hc => absurd hc hioapic) (hkept.reads _) ?_
    simp [hfields]
  · rw [hrun, Outcome.andThen_panic]
    refine .panic (fun hall => ?_) (by simp [hfields]) (by simp [hfields])
    rcases hcause with hheap | hmet
    · have hsome := hall s.apic.heap
      rw [hheap] at hsome
      cases hsome
    · exact .inr ⟨htype, (h.overrides _).mp hmet⟩

theorem roundEnd_other (h : Kept t bp met s) (hlapic : entryType t p ≠ madtTypeCpulapic)
    (hioapic : entryType t p ≠ madtTypeIoapic) (hoverride : entryType t p ≠ madtTypeIoapicintoverride) :
    RoundEnd t bp kmalloc met p s (parseEntry t kmalloc 0 p (1 + (apicids t bp met).length) s) := by
  have hap : ¬ IsAp t bp p := fun hc => hlapic hc.1
  have hgo : ¬ PanicsAt t bp met p := by
    rintro (⟨hc, -⟩ | ⟨hc, -⟩)
    · exact hap hc
    · exact hoverride hc
  have hfields : fieldReads t p = [⟨p, 1⟩] := by
    rw [fieldReads, if_neg hlapic, if_neg hioapic, if_neg hoverride]
  unfold parseEntry
  rw [Prog.bind_run, readAt, Prog.modify_run, Outcome.andThen_ok, if_neg hlapic, if_neg hioapic, if_neg hoverride,
    Prog.pure_run, ← @apicids_other t bp met p hap]
  refine .ok hgo (fun hc => absurd hc hioapic) ((h.skip hap hioapic hoverride).reads _) ?_
  simp [hfields]

theorem roundEnd (p : ℕ) (kmalloc : H → Option H) (h : Kept t bp met s) :
    RoundEnd t bp kmalloc met p s (parseEntry t kmalloc 0 p (1 + (apicids t bp met).length) s) := by
  by_cases hlapic : entryType t p = madtTypeCpulapic
  · exact roundEnd_lapic h hlapic
  · by_cases hioapic : entryType t p = madtTypeIoapic
    · exact roundEnd_ioapic h hioapic
    · by_cases hoverride : entryType t p = madtTypeIoapicintoverride
      · exact roundEnd_override h hoverride
      · exact roundEnd_other h hlapic hioapic hoverride

end Round
end Borgos.Acpi
