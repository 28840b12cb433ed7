import Borgos.Acpi.MadtLaws

/-! # When the walk over the MADT is right

One way the loop is followed along the entries it comes to; the other way the rounds left are bounded by a measure: an
entry of size 0 takes a slot of a processor, or the next round panics on it.
-/
namespace Borgos.Acpi
open Borgos.Foundations Borgos.Mem Borgos.Apic
open Borgos.Boot (Byte Memory u32 u32_lt)
set_option autoImplicit false

variable {H : Type} {t : Memory} {bp : Byte} {met : List ℕ} {p : ℕ}

/-! ## The end of the entries -/

theorem entriesEnd_eq (t : Memory) : entriesEnd t = tableLength t := by
  have hlt : tableLength t < 2 ^ 32 := u32_lt t 4
  simp only [entriesEnd, sizeofMadt, wordSize]
  omega

/-! ## The entries that are met -/

theorem Reached.entryAt (h : Reached t bp met p) : (∀ q ∈ met, EntryAt t q) ∧ (p < tableLength t → EntryAt t p) := by
  induction h with
  | start => exact ⟨by simp, EntryAt.first⟩
  | @next met p h hin hgo ih =>
    obtain ⟨hmet, hp⟩ := ih
    refine ⟨?_, EntryAt.next (hp hin)⟩
    intro q hq
    rcases List.mem_append.mp hq with hq | hq
    · exact hmet q hq
    · rw [List.mem_singleton.mp hq]
      exact hp hin

/-- What follows an entry that was met is met, or it is where the walk is. -/
theorem Reached.closed (h : Reached t bp met p) :
    (sizeofMadt ∈ met ∨ sizeofMadt = p) ∧ ∀ q ∈ met, q + entrySize t q ∈ met ∨ q + entrySize t q = p := by
  induction h with
  | start => simp
  | @next met p h hin hgo ih =>
    obtain ⟨hfirst, hnext⟩ := ih
    constructor
    · rcases hfirst with hmem | rfl <;> simp [*]
    · intro q hq
      rcases List.mem_append.mp hq with hq | hq
      · rcases hnext q hq with hmem | heq
        · simp [hmem]
        · simp [heq]
      · rw [List.mem_singleton.mp hq]
        simp

theorem Reached.entryAt_iff (h : Reached t bp met p) (hend : tableLength t ≤ p) (q : ℕ) : EntryAt t q ↔ q ∈ met := by
  refine ⟨fun hq => ?_, h.entryAt.1 q⟩
  obtain ⟨hfirst, hnext⟩ := h.closed
  induction hq with
  | first hin => exact hfirst.resolve_right fun hc => absurd hin (by omega)
  | @next q hq hin ih => exact (hnext q ih).resolve_right fun hc => absurd hin (by omega)

/-- At the end the processors among the entries met are those of the table. -/
theorem Reached.described_iff (h : Reached t bp met p) (hend : tableLength t ≤ p) (a : Byte) :
    Described t bp a ↔ a ∈ apicids t bp met := by
  simp only [Described, mem_apicids, h.entryAt_iff hend]

theorem ncard_toFinset (l : List Byte) : {a | a ∈ l}.ncard = l.toFinset.card := by
  rw [← Set.ncard_coe_finset, List.coe_toFinset]

theorem ncard_eq_length_iff (l : List Byte) : {a | a ∈ l}.ncard = l.length ↔ l.Nodup := by
  rw [ncard_toFinset]
  exact Multiset.toFinset_card_eq_card_iff_nodup

/-! ## The reads -/

/-- Reads are only added. -/
def ReadsGrow (s s' : MadtState H) : Prop := s.reads <+: s'.reads

instance : Std.Refl (@ReadsGrow H) := ⟨fun s => List.prefix_refl s.reads⟩

instance : IsTrans (MadtState H) ReadsGrow := ⟨fun _ _ _ h h' => List.IsPrefix.trans h h'⟩

theorem readAt_grows (offset len : ℕ) : (readAt offset len : Prog (MadtState H) Unit).Within ReadsGrow :=
  Prog.Within.modify fun _ => List.prefix_append _ _

theorem modify_grows {f : MadtState H → MadtState H} (hf : ∀ s, (f s).reads = s.reads) :
    (Prog.modify f).Within ReadsGrow :=
  Prog.Within.modify fun s => by
    simp [ReadsGrow, hf]

theorem onApic_grows (x : Prog (ApicState H) Unit) : (onApic x).Within ReadsGrow := by
  intro s s' h
  simp only [onApic, Prog.zoom] at h
  cases hx : x s.apic with
  | ok a apic =>
    rw [hx] at h
    cases h
    exact List.prefix_refl _
  | panic m apic =>
    rw [hx] at h
    cases h
    exact List.prefix_refl _
  | stuck =>
    rw [hx] at h
    cases h

section Grows
variable (t) (kmalloc : H → Option H)

theorem parseCpulapic_grows (cpu p numcores : ℕ) :
    (parseCpulapic t cpu p numcores : Prog (MadtState H) ℕ).Within ReadsGrow := by
  refine Prog.Within.bind (readAt_grows _ _) fun _ => Prog.Within.bind Prog.Within.get fun s => ?_
  apply Prog.Within.ite
  · exact Prog.Within.pure _
  · apply Prog.Within.ite
    · apply Prog.Within.ite
      · exact Prog.Within.panic _
      · have hslot : (cpuInitCpustate numcores : Prog (MadtState H) Unit).Within ReadsGrow := modify_grows fun _ => rfl
        refine hslot.bind fun _ => Prog.Within.bind (modify_grows ?_) fun _ => Prog.Within.pure _
        intro s
        rfl
    · exact Prog.Within.pure _

theorem parseEntry_grows (cpu p numcores : ℕ) : (parseEntry t kmalloc cpu p numcores).Within ReadsGrow := by
  apply Prog.Within.bind (readAt_grows _ _)
  intro _
  apply Prog.Within.ite
  · exact parseCpulapic_grows t cpu p numcores
  · apply Prog.Within.ite
    · apply Prog.Within.bind
      · iterate 3 refine Prog.Within.bind (readAt_grows _ _) fun _ => ?_
        exact onApic_grows _
      · intro _
        exact Prog.Within.pure _
    · apply Prog.Within.ite
      · apply Prog.Within.bind
        · iterate 4 refine Prog.Within.bind (readAt_grows _ _) fun _ => ?_
          exact onApic_grows _
        · intro _
          exact Prog.Within.pure _
      · exact Prog.Within.pure _

theorem madtLoop_grows (cpu entriesEnd fuel p numcores : ℕ) :
    (madtLoop t kmalloc cpu entriesEnd fuel p numcores).Within ReadsGrow := by
  induction fuel generalizing p numcores with
  | zero => exact Prog.Within.stuck
  | succ fuel ih =>
    apply Prog.Within.ite
    · apply Prog.Within.bind (parseEntry_grows t kmalloc cpu p numcores)
      intro numcores
      apply Prog.Within.bind (readAt_grows _ _)
      intro _
      exact ih _ numcores
    · exact Prog.Within.pure _

end Grows

/-- The extent of an entry is what its fields and its size take. -/
theorem inside_iff_whole (t : Memory) (p length : ℕ) :
    (∀ r ∈ fieldReads t p ++ [⟨p + 1, 1⟩], r.Inside length) ↔ p + entryExtent t p ≤ length := by
  by_cases hlapic : entryType t p = madtTypeCpulapic
  · simp [fieldReads, entryExtent, TableRead.Inside, hlapic]
    omega
  · by_cases hioapic : entryType t p = madtTypeIoapic
    · rw [fieldReads, entryExtent, if_neg hlapic, if_neg hlapic, if_pos hioapic, if_pos hioapic]
      simp [TableRead.Inside]
      omega
    · by_cases hoverride : entryType t p = madtTypeIoapicintoverride
      · rw [fieldReads, entryExtent, if_neg hlapic, if_neg hlapic, if_neg hioapic, if_neg hioapic, if_pos hoverride,
          if_pos hoverride]
        simp [TableRead.Inside]
        omega
      · rw [fieldReads, entryExtent, if_neg hlapic, if_neg hlapic, if_neg hioapic, if_neg hioapic, if_neg hoverride,
          if_neg hoverride]
        simp [TableRead.Inside]
        omega

/-- An entry with fields is whole even if its size is not read. -/
theorem whole_of_fields {length : ℕ} (h : ∀ r ∈ fieldReads t p, r.Inside length)
    (hfields : 2 ≤ (fieldReads t p).length) :
    p + entryExtent t p ≤ length := by
  rw [← inside_iff_whole]
  intro r hr
  rcases List.mem_append.mp hr with hr | hr
  · exact h r hr
  · rw [List.mem_singleton.mp hr]
    have hbeyond : ∃ q ∈ fieldReads t p, p + 2 ≤ q.offset := by
      unfold fieldReads at hfields ⊢
      split_ifs at hfields ⊢
      · simp
      · simp
      · simp
      · simp at hfields
    obtain ⟨q, hq, hle⟩ := hbeyond
    have hin := h q hq
    simp only [TableRead.Inside] at hin ⊢
    omega

/-! ## The rounds -/

section Loop
variable {kmalloc : H → Option H} {s : MadtState H}

theorem madtLoop_succ (kmalloc : H → Option H) (h : Kept t bp met s) (hin : p < tableLength t) (fuel : ℕ) :
    (∃ s', ¬ PanicsAt t bp met p ∧ (entryType t p = madtTypeIoapic → ioapicsMet t met < ioapicMax) ∧
      Kept t bp (met ++ [p]) s' ∧ s'.reads = s.reads ++ (fieldReads t p ++ [⟨p + 1, 1⟩]) ∧
      madtLoop t kmalloc 0 (tableLength t) (fuel + 1) p (1 + (apicids t bp met).length) s =
        madtLoop t kmalloc 0 (tableLength t) fuel (p + entrySize t p) (1 + (apicids t bp (met ++ [p])).length) s') ∨
    (∃ msg s', ((∀ heap, (kmalloc heap).isSome) → PanicsAt t bp met p) ∧ 2 ≤ (fieldReads t p).length ∧
      s'.reads = s.reads ++ fieldReads t p ∧
      madtLoop t kmalloc 0 (tableLength t) (fuel + 1) p (1 + (apicids t bp met).length) s = .panic msg s') ∨
    (entryType t p = madtTypeIoapic ∧ ioapicMax ≤ ioapicsMet t met ∧
      madtLoop t kmalloc 0 (tableLength t) (fuel + 1) p (1 + (apicids t bp met).length) s = .stuck) := by
  have hround := roundEnd p kmalloc h
  rw [madtLoop, if_pos hin, Prog.bind_run]
  generalize parseEntry t kmalloc 0 p (1 + (apicids t bp met).length) s = out at hround ⊢
  cases hround with
  | @ok s' hgo hplace hkept hreads =>
    left
    refine ⟨_, hgo, hplace, hkept.reads (s'.reads ++ [⟨p + 1, 1⟩]), ?_, rfl⟩
    simp [hreads]
  | @panic msg s' hpanic hfields hreads =>
    right
    left
    exact ⟨msg, s', hpanic, hfields, hreads, rfl⟩
  | stuck htype hfull =>
    right
    right
    exact ⟨htype, hfull, rfl⟩

theorem madtLoop_end (hend : tableLength t ≤ p) (fuel n : ℕ) :
    madtLoop t kmalloc 0 (tableLength t) (fuel + 1) p n s = .ok () s := by
  rw [madtLoop, if_neg (Nat.not_lt.mpr hend)]
  rfl

/-- A run that is not stuck comes to every entry that is reached, if there is heap. -/
theorem madtLoop_reached (hheap : ∀ heap, (kmalloc heap).isSome) (hstart : Kept t bp [] s) {fuel : ℕ}
    (hrun : madtLoop t kmalloc 0 (tableLength t) fuel sizeofMadt 1 s ≠ .stuck) (h : Reached t bp met p) :
    ∃ left s', left + met.length = fuel ∧ Kept t bp met s' ∧
      madtLoop t kmalloc 0 (tableLength t) fuel sizeofMadt 1 s =
        madtLoop t kmalloc 0 (tableLength t) left p (1 + (apicids t bp met).length) s' := by
  induction h with
  | start => exact ⟨fuel, s, rfl, hstart, rfl⟩
  | @next met p h hin hgo ih =>
    obtain ⟨left, s', hleft, hkept, heq⟩ := ih
    cases left with
    | zero => exact absurd heq hrun
    | succ left =>
      obtain ⟨u, -, -, hnext, -, hstep⟩ | ⟨msg, u, hpanic, -⟩ | ⟨-, -, hstuck⟩ :=
        madtLoop_succ kmalloc hkept hin left
      · refine ⟨left, u, ?_, hnext, heq.trans hstep⟩
        rw [List.length_append, List.length_singleton]
        omega
      · exact absurd (hpanic hheap) hgo
      · exact absurd (heq.trans hstuck) hrun

/-- The measure: bytes left, slots left, and whether an override has not been met yet. -/
def roundsLeft (t : Memory) (bp : Byte) (met : List ℕ) (p : ℕ) : ℕ :=
  2 * (tableLength t - p) + 2 * (maxCpu - (apicids t bp met).length) +
    if entryType t p = madtTypeIoapicintoverride ∧ p ∈ met then 0 else 1

theorem roundsLeft_next (hfine : EntryFine t bp met p) (hin : p < tableLength t) (hgo : ¬ PanicsAt t bp met p)
    (hroom : (apicids t bp met).length < maxCpu) :
    roundsLeft t bp (met ++ [p]) (p + entrySize t p) < roundsLeft t bp met p := by
  have hmono : (apicids t bp met).length ≤ (apicids t bp (met ++ [p])).length := by
    by_cases hap : IsAp t bp p
    · simp [apicids_ap hap]
    · simp [apicids_other hap]
  by_cases hsize : entrySize t p = 0
  · rcases hfine.advances hsize with hap | hoverride
    · have htype : entryType t p ≠ madtTypeIoapicintoverride := by
        rw [hap.1]
        decide
      simp only [roundsLeft, hsize, Nat.add_zero, htype, false_and, if_false, apicids_ap hap, List.length_append,
        List.length_singleton]
      omega
    · have hlapic : ¬ IsAp t bp p := by
        rintro ⟨hc, -⟩
        rw [hoverride] at hc
        cases hc
      have hnew : p ∉ met := fun hc => hgo (.inr ⟨hoverride, p, hc, hoverride, rfl⟩)
      simp [roundsLeft, hsize, hoverride, hnew, apicids_other hlapic]
  · have hlow : (if entryType t (p + entrySize t p) = madtTypeIoapicintoverride ∧ p + entrySize t p ∈ met ++ [p] then 0
        else 1) ≤ 1 := by
      split_ifs <;> omega
    unfold roundsLeft
    omega

/-- A fine table is walked to its end, or to a panic, within its reads. -/
theorem madtLoop_ends (kmalloc : H → Option H) (hfine : MadtFine t bp) (n : ℕ) (hn : roundsLeft t bp met p ≤ n)
    (h : Reached t bp met p) (hkept : Kept t bp met s) (hreads : ∀ r ∈ s.reads, r.Inside (tableLength t)) :
    (∃ met' p' s', Reached t bp met' p' ∧ tableLength t ≤ p' ∧ Kept t bp met' s' ∧
      (∀ r ∈ s'.reads, r.Inside (tableLength t)) ∧
      madtLoop t kmalloc 0 (tableLength t) (n + 1) p (1 + (apicids t bp met).length) s = .ok () s') ∨
    ∃ msg s', (∀ r ∈ s'.reads, r.Inside (tableLength t)) ∧
      madtLoop t kmalloc 0 (tableLength t) (n + 1) p (1 + (apicids t bp met).length) s = .panic msg s' := by
  induction n generalizing met p s with
  | zero =>
    by_cases hend : tableLength t ≤ p
    · exact .inl ⟨met, p, s, h, hend, hkept, hreads, madtLoop_end hend 0 _⟩
    · unfold roundsLeft at hn
      omega
  | succ n ih =>
    by_cases hend : tableLength t ≤ p
    · exact .inl ⟨met, p, s, h, hend, hkept, hreads, madtLoop_end hend _ _⟩
    · have hin : p < tableLength t := Nat.lt_of_not_le hend
      have hentry := hfine.entries met p h hin
      have hinside := (inside_iff_whole t p (tableLength t)).mpr hentry.whole
      obtain ⟨s', hgo, -, hnext, hread, hstep⟩ | ⟨msg, s', -, -, hread, hpanic⟩ | ⟨htype, hfull, -⟩ :=
        madtLoop_succ kmalloc hkept hin (n + 1)
      · rw [hstep]
        have hless := roundsLeft_next hentry hin hgo hkept.room
        refine ih (by omega) (h.next hin hgo) hnext ?_
        intro r hr
        rw [hread] at hr
        rcases List.mem_append.mp hr with hr | hr
        · exact hreads r hr
        · exact hinside r hr
      · refine .inr ⟨msg, s', ?_, hpanic⟩
        intro r hr
        rw [hread] at hr
        rcases List.mem_append.mp hr with hr | hr
        · exact hreads r hr
        · exact hinside r (List.mem_append_left _ hr)
      · exact absurd (hentry.place htype) (by omega)

/-- A run that ends without a panic has walked to the end. -/
theorem madtLoop_ok {fuel : ℕ} {s' : MadtState H} (h : Reached t bp met p) (hkept : Kept t bp met s)
    (hrun : madtLoop t kmalloc 0 (tableLength t) fuel p (1 + (apicids t bp met).length) s = .ok () s') :
    ∃ met' p', Reached t bp met' p' ∧ tableLength t ≤ p' ∧ Kept t bp met' s' := by
  induction fuel generalizing met p s with
  | zero => cases hrun
  | succ fuel ih =>
    by_cases hend : tableLength t ≤ p
    · rw [madtLoop_end hend] at hrun
      obtain ⟨-, rfl⟩ := Outcome.ok.inj hrun
      exact ⟨met, p, h, hend, hkept⟩
    · have hin : p < tableLength t := Nat.lt_of_not_le hend
      obtain ⟨u, hgo, -, hnext, -, hstep⟩ | ⟨msg, u, -, -, -, hpanic⟩ | ⟨-, -, hstuck⟩ :=
        madtLoop_succ kmalloc hkept hin fuel
      · exact ih (h.next hin hgo) hnext (hstep.symm.trans hrun)
      · cases hpanic.symm.trans hrun
      · cases hstuck.symm.trans hrun

end Loop

/-! ## The function -/

/-- The state in which the loop is entered. -/
def loopState (t : Memory) (bp : Byte) (regs : Registers) (heap : H) : MadtState H :=
  { bootState bp regs heap with
    cpulapicadr := p2v (u32 t 36)
    reads := [⟨36, 4⟩, ⟨40, 4⟩, ⟨4, 4⟩] }

theorem kept_loopState (t : Memory) (bp : Byte) (regs : Registers) (heap : H) :
    Kept t bp [] (loopState t bp regs heap) := by
  refine ⟨rfl, Nat.zero_lt_succ _, rfl, ?_, fun _ => rfl, ?_, ?_, ?_, rfl, ?_⟩
  · simp [apicids]
  · simp [loopState, bootState]
  · intro a slot ha
    simp [loopState, bootState, ha]
  · simp [apicids]
  · simp [loopState, bootState, OverrideMet]

theorem halParseApicFromMadt_run (t : Memory) (bp : Byte) (kmalloc : H → Option H) (heap : H) (regs : Registers)
    (fuel : ℕ) : halParseApicFromMadt t kmalloc bp fuel (bootState bp regs heap) =
      madtLoop t kmalloc 0 (tableLength t) fuel sizeofMadt 1 (loopState t bp regs heap) := by
  have hslot : ∀ s : MadtState H, s.apicIdCpumap = (bootState bp regs heap).apicIdCpumap →
      s.apicIdCpumap bp = some 0 := by
    intro s hs
    simp [hs, bootState]
  unfold halParseApicFromMadt
  simp only [readAt, Prog.bind_run, Prog.modify_run, Prog.get_run, Outcome.andThen_ok]
  rw [hslot _ rfl]
  simp only [Prog.bind_run, Prog.modify_run, Outcome.andThen_ok, entriesEnd_eq]
  rfl

/-- No two entries describe processors with one id. -/
def DistinctApicids (t : Memory) (bp : Byte) : Prop :=
  ∀ met p, Reached t bp met p → tableLength t ≤ p → (apicids t bp met).Nodup

/-- Then every processor is found under its own id. -/
theorem cpumap_own {regs : Registers} {heap : H} {fuel : ℕ} {kmalloc : H → Option H} {s : MadtState H}
    (hrun : halParseApicFromMadt t kmalloc bp fuel (bootState bp regs heap) = .ok () s)
    (hdistinct : DistinctApicids t bp) {i : ℕ} (h1 : 1 ≤ i) (hi : i < s.cpuNumcores) :
    s.apicIdCpumap (s.cpu i).xapicLogicalid = some i ∧ (s.cpu i).cpuid = i := by
  rw [halParseApicFromMadt_run] at hrun
  obtain ⟨met, p, h, hend, hkept⟩ := madtLoop_ok .start (kept_loopState t bp regs heap) hrun
  have hnodup := hdistinct met p h hend
  obtain ⟨j, rfl⟩ : ∃ j, i = j + 1 := ⟨i - 1, by omega⟩
  have hlt : j < (apicids t bp met).length := by
    rw [hkept.numcores] at hi
    omega
  obtain ⟨a, ha⟩ : ∃ a, (apicids t bp met)[j]? = some a := ⟨_, List.getElem?_eq_getElem hlt⟩
  have hmem : a ∈ apicids t bp met := List.mem_of_getElem? ha
  rw [hkept.slots j a ha]
  refine ⟨?_, hkept.cpuids _⟩
  obtain ⟨slot, hslot⟩ := Option.isSome_iff_exists.mp (hkept.mapped a hmem)
  obtain ⟨k, rfl, hk⟩ := hkept.map a slot (ne_of_mem_apicids hmem) hslot
  have hk' : k < (apicids t bp met).length := (List.getElem?_eq_some_iff.mp hk).1
  obtain rfl : k = j := (List.getElem?_inj hk' hnodup).mp (hk.trans ha.symm)
  exact hslot

/-- At the end the processors are registered as the table describes them, each once. -/
theorem grown_of_kept {regs : Registers} {heap : H} {s : MadtState H} (h : Reached t bp met p)
    (hend : tableLength t ≤ p) (hkept : Kept t bp met s) (hdistinct : (apicids t bp met).Nodup) :
    Grown t bp (bootState bp regs heap) s := by
  have hdescribed := h.described_iff hend
  refine ⟨?_, ?_, ?_⟩
  · rw [hkept.numcores, ← (ncard_eq_length_iff _).mpr hdistinct]
    simp only [hdescribed]
    rfl
  · intro a ha
    rw [hdescribed] at ha
    obtain ⟨slot, hslot⟩ := Option.isSome_iff_exists.mp (hkept.mapped a ha)
    obtain ⟨i, rfl, hi⟩ := hkept.map a slot (ne_of_mem_apicids ha) hslot
    have hlt := (List.getElem?_eq_some_iff.mp hi).1
    exact ⟨i + 1, by omega, Nat.lt_of_le_of_lt hlt hkept.room, hslot, hkept.slots i a hi⟩
  · intro a b slot ha hb
    by_cases hbp : a = bp
    · rw [hbp, hkept.mapBoot] at ha
      by_contra hne
      obtain ⟨i, hi, -⟩ := hkept.map b slot (by rw [← hbp]; exact Ne.symm hne) hb
      simp at ha
      omega
    · obtain ⟨i, rfl, hi⟩ := hkept.map a slot hbp ha
      by_cases hbp' : b = bp
      · rw [hbp', hkept.mapBoot] at hb
        simp at hb
      · obtain ⟨j, hj, hget⟩ := hkept.map b _ hbp' hb
        obtain rfl : i = j := by omega
        rw [hi] at hget
        exact Option.some_inj.mp hget

theorem madtRight_of_fine (hfine : MadtFine t bp) : MadtRight t bp := by
  intro H kmalloc heap regs
  have hheader := hfine.header
  have hreads : ∀ r ∈ (loopState t bp regs heap).reads, r.Inside (tableLength t) := by
    simp only [sizeofMadt] at hheader
    simp [loopState, TableRead.Inside]
    omega
  have hnone : (apicids t bp []).length = 0 := rfl
  refine ⟨roundsLeft t bp [] sizeofMadt + 1, ?_⟩
  rw [halParseApicFromMadt_run]
  obtain ⟨met, p, s, h, hend, hkept, hin, hrun⟩ | ⟨msg, s, hin, hrun⟩ :=
    madtLoop_ends kmalloc hfine _ le_rfl .start (kept_loopState t bp regs heap) hreads
  · rw [hnone] at hrun
    rw [hrun]
    exact ⟨hin, grown_of_kept h hend hkept (hfine.distinct met p h hend)⟩
  · rw [hnone] at hrun
    rw [hrun]
    exact hin

/-! ### Where the function ends well, the table is fine -/

section Right
variable {regs : Registers} {fuel : ℕ}

theorem EndsWell.not_stuck {s : MadtState H} {out : Outcome (MadtState H) Unit} (h : EndsWell t bp s out) :
    out ≠ .stuck := by
  rintro rfl
  exact h

/-- Where a run ends well, no state on the way has read behind the table. -/
theorem EndsWell.inside {s : MadtState H} {out : Outcome (MadtState H) Unit} (h : EndsWell t bp s out) {u : MadtState H}
    (hout : ∀ v, out.final = some v → ReadsGrow u v) : ∀ r ∈ u.reads, r.Inside (tableLength t) := by
  cases out with
  | ok a v => exact fun r hr => h.1 r ((hout v rfl).subset hr)
  | panic msg v => exact fun r hr => h r ((hout v rfl).subset hr)
  | stuck => exact h.elim

/-- An entry of size 0 that neither takes a slot nor panics is met over and over. -/
theorem Reached.repeat (h : Reached t bp met p) (hin : p < tableLength t) (hsize : entrySize t p = 0)
    (hap : ¬ IsAp t bp p) (hoverride : entryType t p ≠ madtTypeIoapicintoverride) (n : ℕ) :
    ∃ met', Reached t bp met' p ∧ n ≤ met'.length := by
  induction n with
  | zero => exact ⟨met, h, Nat.zero_le _⟩
  | succ n ih =>
    obtain ⟨met', h', hle⟩ := ih
    have hgo : ¬ PanicsAt t bp met' p := by
      rintro (⟨hc, -⟩ | ⟨hc, -⟩)
      · exact hap hc
      · exact hoverride hc
    have hnext := h'.next hin hgo
    rw [hsize, Nat.add_zero] at hnext
    refine ⟨met' ++ [p], hnext, ?_⟩
    rw [List.length_append, List.length_singleton]
    omega

theorem fine_of_right (h : MadtRight t bp) : MadtFine t bp := by
  obtain ⟨fuel, hwell⟩ := h Unit some () fun _ _ => 0
  rw [halParseApicFromMadt_run] at hwell
  have hheap : ∀ heap : Unit, (some heap).isSome := fun _ => rfl
  have hreached := fun met p => @madtLoop_reached Unit t bp met p some _ hheap
    (kept_loopState t bp (fun _ _ => 0) ()) fuel hwell.not_stuck
  refine ⟨?_, ?_, ?_⟩
  · have hin := hwell.inside (u := loopState t bp (fun _ _ => 0) ()) (madtLoop_grows t some 0 _ fuel _ 1 _)
    exact hin ⟨40, 4⟩ (by simp [loopState])
  · intro met p hp hlt
    obtain ⟨left, s, -, hkept, heq⟩ := hreached met p hp
    have hadvances : entrySize t p = 0 → IsAp t bp p ∨ entryType t p = madtTypeIoapicintoverride := by
      intro hsize
      by_contra hc
      obtain ⟨met', hmet', hle⟩ := hp.repeat hlt hsize (fun hap => hc (.inl hap)) (fun ho => hc (.inr ho)) (fuel + 1)
      obtain ⟨left', -, hleft, -⟩ := hreached met' p hmet'
      omega
    cases left with
    | zero => exact absurd heq hwell.not_stuck
    | succ left =>
      rw [heq] at hwell
      obtain ⟨u, -, hplace, -, hread, hstep⟩ | ⟨msg, u, hpanic, hfields, hread, hstep⟩ | ⟨-, -, hstep⟩ :=
        madtLoop_succ some hkept hlt left
      · rw [hstep] at hwell
        have hin := hwell.inside (madtLoop_grows t some 0 _ left _ _ u)
        refine ⟨?_, hplace, hadvances⟩
        rw [← inside_iff_whole]
        intro r hr
        apply hin r
        rw [hread]
        exact List.mem_append_right _ hr
      · rw [hstep] at hwell
        have hother : entryType t p ≠ madtTypeIoapic := by
          rcases hpanic hheap with ⟨hap, -⟩ | ⟨htype, -⟩
          · rw [hap.1]
            decide
          · rw [htype]
            decide
        refine ⟨whole_of_fields ?_ hfields, fun hc => absurd hc hother, hadvances⟩
        intro r hr
        apply hwell r
        rw [hread]
        exact List.mem_append_right _ hr
      · exact absurd hstep hwell.not_stuck
  · intro met p hp hend
    obtain ⟨left, s, -, hkept, heq⟩ := hreached met p hp
    rw [heq] at hwell
    cases left with
    | zero => exact absurd rfl hwell.not_stuck
    | succ left =>
      rw [madtLoop_end hend] at hwell
      have hcount := hwell.2.count
      rw [hkept.numcores] at hcount
      rw [← ncard_eq_length_iff]
      simp only [hp.described_iff hend] at hcount
      exact (Nat.add_left_cancel hcount).symm

end Right

theorem madt_right_iff (t : Memory) (bp : Byte) : MadtRight t bp ↔ MadtFine t bp :=
  ⟨fine_of_right, madtRight_of_fine⟩

/-- A table of 46 bytes with one entry: type 4, size 0. -/
def endlessTable : Memory := fun i => if i = 4 then 46 else if i = 44 then 4 else 0

theorem entry_of_size_zero_never_passed : ¬ MadtRight endlessTable 0 := by
  intro h
  have hentry := (fine_of_right h).entries [] 44 .start (by decide)
  have hadvances := hentry.advances (by decide)
  revert hadvances
  decide

end Borgos.Acpi
