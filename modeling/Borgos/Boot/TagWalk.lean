import Borgos.Boot.RelocationLaws

/-! # The walk over the multiboot2 tags

`multiboot2_gettag`, `multiboot2_check_moduleoverlap` and `multiboot2_relocate_modules` have one loop in common. Here
it is written once, with a check before each tag is read: the walk is stuck at a header outside of the information
block, and at a module whose copy leaves the lower half of the address space, where `memcpy` faults. A checked walk
that ends is one that ends and reads headers of the block only.
-/
namespace Borgos.Boot
open Borgos.Foundations Borgos.Mem FlatMemory
set_option autoImplicit false

section Loop
variable {α : Type} (safe : BootInfo → ℕ → Prop) [∀ s tag, Decidable (safe s tag)]
  (body : ℕ → Prog BootInfo (Option α)) (atEnd : α)

/-- The loop over the tags. The body leaves it with a result or goes on. -/
def tagLoop : ℕ → ℕ → Prog BootInfo α
  | 0, _ => Prog.stuck
  | fuel + 1, tag => do
    let s ← Prog.get
    if safe s tag then
      if tagType s.mem tag = 0 then pure atEnd
      else do
        let r ← body tag
        let s ← Prog.get
        match r with
        | some x => pure x
        | none => tagLoop fuel (tagNext s.mem tag)
    else Prog.stuck

variable {safe body atEnd} {fuel tag : ℕ} {s t : BootInfo}

theorem tagLoop_end (hsafe : safe s tag) (hend : tagType s.mem tag = 0) :
    tagLoop safe body atEnd (fuel + 1) tag s = .ok atEnd s := by
  simp only [tagLoop, Prog.bind_run, Prog.get_run, Outcome.andThen_ok, if_pos hsafe, if_pos hend, Prog.pure_run]

theorem tagLoop_next (hsafe : safe s tag) (hend : tagType s.mem tag ≠ 0) (hbody : body tag s = .ok none t) :
    tagLoop safe body atEnd (fuel + 1) tag s = tagLoop safe body atEnd fuel (tagNext t.mem tag) t := by
  simp only [tagLoop, Prog.bind_run, Prog.get_run, Outcome.andThen_ok, if_pos hsafe, if_neg hend, hbody]

theorem tagLoop_leave {x : α} (hsafe : safe s tag) (hend : tagType s.mem tag ≠ 0)
    (hbody : body tag s = .ok (some x) t) :
    tagLoop safe body atEnd (fuel + 1) tag s = .ok x t := by
  simp only [tagLoop, Prog.bind_run, Prog.get_run, Outcome.andThen_ok, if_pos hsafe, if_neg hend, hbody, Prog.pure_run]

theorem tagLoop_panic {m : String} (hsafe : safe s tag) (hend : tagType s.mem tag ≠ 0)
    (hbody : body tag s = .panic m t) :
    tagLoop safe body atEnd (fuel + 1) tag s = .panic m t := by
  simp only [tagLoop, Prog.bind_run, Prog.get_run, Outcome.andThen_ok, if_pos hsafe, if_neg hend, hbody,
    Outcome.andThen_panic]

theorem tagLoop_stuck (hsafe : safe s tag) (hend : tagType s.mem tag ≠ 0) (hbody : body tag s = .stuck) :
    tagLoop safe body atEnd (fuel + 1) tag s = .stuck := by
  simp only [tagLoop, Prog.bind_run, Prog.get_run, Outcome.andThen_ok, if_pos hsafe, if_neg hend, hbody,
    Outcome.andThen_stuck]

theorem safe_of_tagLoop (h : tagLoop safe body atEnd (fuel + 1) tag s ≠ .stuck) : safe s tag := by
  by_contra hsafe
  simp only [tagLoop, Prog.bind_run, Prog.get_run, Outcome.andThen_ok, if_neg hsafe, Prog.stuck_run] at h
  exact h rfl

/-- A checked walk that is not stuck is the walk itself. -/
theorem tagLoop_unchecked (h : tagLoop safe body atEnd fuel tag s ≠ .stuck) :
    tagLoop (fun _ _ => True) body atEnd fuel tag s = tagLoop safe body atEnd fuel tag s := by
  induction fuel generalizing tag s with
  | zero => exact absurd rfl h
  | succ fuel ih =>
    have hsafe := safe_of_tagLoop h
    by_cases hend : tagType s.mem tag = 0
    · rw [tagLoop_end hsafe hend, tagLoop_end trivial hend]
    · cases hbody : body tag s with
      | panic m t => rw [tagLoop_panic hsafe hend hbody, tagLoop_panic trivial hend hbody]
      | stuck => exact absurd (tagLoop_stuck hsafe hend hbody) h
      | ok r t =>
        cases r with
        | some x => rw [tagLoop_leave hsafe hend hbody, tagLoop_leave trivial hend hbody]
        | none =>
          rw [tagLoop_next hsafe hend hbody] at h ⊢
          rw [tagLoop_next trivial hend hbody]
          exact ih h

end Loop

/-! ## The three functions -/

section Bodies
variable (tagtype newMbi tag : ℕ)

def gettagBody : Prog BootInfo (Option (Option ℕ)) := fun s =>
  .ok (if tagType s.mem tag = tagtype then some (some tag) else none) s

def checkModuleoverlapBody : Prog BootInfo (Option Unit) := fun s =>
  if tagType s.mem tag = multibootTagTypeModule ∧ (modStart s.mem tag > newMbi ∨ modEnd s.mem tag > newMbi) then
    .panic "Multiboot2 overlap" s
  else .ok none s

def relocateModulesBody : Prog BootInfo (Option Unit) := do
  let s ← Prog.get
  if tagType s.mem tag = multibootTagTypeModule then do
    relocateModule tag
    pure none
  else pure none

variable {tagtype newMbi tag} {s t : BootInfo}

theorem gettagBody_match (h : tagType s.mem tag = tagtype) : gettagBody tagtype tag s = .ok (some (some tag)) s := by
  rw [gettagBody, if_pos h]

theorem gettagBody_other (h : tagType s.mem tag ≠ tagtype) : gettagBody tagtype tag s = .ok none s := by
  rw [gettagBody, if_neg h]

theorem relocateModulesBody_module (h : tagType s.mem tag = multibootTagTypeModule)
    (hone : relocateModule tag s = .ok () t) : relocateModulesBody tag s = .ok none t := by
  simp only [relocateModulesBody, Prog.bind_run, Prog.get_run, Outcome.andThen_ok, if_pos h, hone, Prog.pure_run]

theorem relocateModulesBody_other (h : tagType s.mem tag ≠ multibootTagTypeModule) :
    relocateModulesBody tag s = .ok none s := by
  simp only [relocateModulesBody, Prog.bind_run, Prog.get_run, Outcome.andThen_ok, if_neg h, Prog.pure_run]

end Bodies

theorem gettagFrom_eq_loop (tagtype fuel tag : ℕ) (s : BootInfo) :
    gettagFrom tagtype fuel tag s = tagLoop (fun _ _ => True) (gettagBody tagtype) none fuel tag s := by
  induction fuel generalizing tag with
  | zero => rfl
  | succ fuel ih =>
    unfold gettagFrom
    by_cases hend : tagType s.mem tag = 0
    · rw [if_pos hend, tagLoop_end trivial hend]
    · rw [if_neg hend]
      by_cases hm : tagType s.mem tag = tagtype
      · rw [if_pos hm, tagLoop_leave trivial hend (gettagBody_match hm)]
      · rw [if_neg hm, tagLoop_next trivial hend (gettagBody_other hm)]
        exact ih _

theorem checkModuleoverlapFrom_eq_loop (newMbi fuel tag : ℕ) (s : BootInfo) :
    checkModuleoverlapFrom newMbi fuel tag s =
      tagLoop (fun _ _ => True) (checkModuleoverlapBody newMbi) () fuel tag s := by
  induction fuel generalizing tag with
  | zero => rfl
  | succ fuel ih =>
    unfold checkModuleoverlapFrom
    by_cases hend : tagType s.mem tag = 0
    · rw [if_pos hend, tagLoop_end trivial hend]
    · rw [if_neg hend]
      split
      · rename_i hover
        rw [tagLoop_panic trivial hend (if_pos hover)]
      · rename_i hover
        rw [tagLoop_next trivial hend (if_neg hover)]
        exact ih _

theorem relocateModulesFrom_eq_loop (fuel tag : ℕ) (s : BootInfo) :
    relocateModulesFrom fuel tag s = tagLoop (fun _ _ => True) relocateModulesBody () fuel tag s := by
  induction fuel generalizing tag s with
  | zero => rfl
  | succ fuel ih =>
    simp only [relocateModulesFrom, Prog.bind_run, Prog.get_run, Outcome.andThen_ok]
    by_cases hend : tagType s.mem tag = 0
    · rw [if_pos hend, tagLoop_end trivial hend, Prog.pure_run]
    · rw [if_neg hend]
      by_cases hm : tagType s.mem tag = multibootTagTypeModule
      · rw [if_pos hm, Prog.bind_run]
        have hbody : relocateModulesBody tag s = (relocateModule tag s).andThen fun _ => pure none := by
          simp only [relocateModulesBody, Prog.bind_run, Prog.get_run, Outcome.andThen_ok, if_pos hm]
        cases hone : relocateModule tag s with
        | ok u t =>
          rw [tagLoop_next trivial hend (relocateModulesBody_module hm hone)]
          simp only [Outcome.andThen_ok, Prog.bind_run, Prog.get_run]
          exact ih _ t
        | panic m t =>
          rw [hone] at hbody
          rw [tagLoop_panic trivial hend hbody, Outcome.andThen_panic]
        | stuck =>
          rw [hone] at hbody
          rw [tagLoop_stuck trivial hend hbody, Outcome.andThen_stuck]
      · rw [if_neg hm, tagLoop_next trivial hend (relocateModulesBody_other hm)]
        exact ih _ s

/-! ## The property -/

/-- The header lies in the block of `n` bytes at `a`, behind the block's own header. -/
def headerInside (a n : ℕ) (_ : BootInfo) (tag : ℕ) : Prop := a + 8 ≤ tag ∧ tag + 8 ≤ a + n

instance (a n : ℕ) (s : BootInfo) (tag : ℕ) : Decidable (headerInside a n s tag) := inferInstanceAs (Decidable (_ ∧ _))

/-- `memcpy` to `heaptop` stays in the lower half of the address space. -/
def copyMapped (s : BootInfo) (tag : ℕ) : Prop :=
  s.bootmem.heaptop + (modEnd s.mem tag + wordSize - modStart s.mem tag) % wordSize ≤ 2 ^ 47

def relocateSafe (a n : ℕ) (s : BootInfo) (tag : ℕ) : Prop :=
  headerInside a n s tag ∧ (tagType s.mem tag = multibootTagTypeModule → copyMapped s tag)

instance (a n : ℕ) (s : BootInfo) (tag : ℕ) : Decidable (relocateSafe a n s tag) :=
  inferInstanceAs (Decidable (_ ∧ (_ → _ ≤ _)))

/-- From the tag at `o` on, the first one of the type is at `t`, before the end tag. -/
inductive FirstTag (mem : Memory) (a tagtype : ℕ) : ℕ → ℕ → Prop
  | here {o : ℕ} (hend : tagType mem (a + o) ≠ 0) (htype : tagType mem (a + o) = tagtype) : FirstTag mem a tagtype o o
  | next {o t : ℕ} (hend : tagType mem (a + o) ≠ 0) (htype : tagType mem (a + o) ≠ tagtype)
      (hrest : FirstTag mem a tagtype (o + tagLen mem (a + o)) t) : FirstTag mem a tagtype o t

/-- `s` has the block at `a` in the memory `mem`. -/
def Holds (mem : Memory) (a : ℕ) (s : BootInfo) : Prop := s.mem = mem ∧ s.mbiAddr = a

/-- The walks over the block at `a` end, read no header outside of it, and `multiboot2_gettag` finds the first tag. The
modules are relocated as `multiboot2_set_bootmem` does it, once and to the end of the block or behind it. -/
structure WalksWithin (mem : Memory) (a : ℕ) : Prop where
  gettag : ∀ tagtype s, Holds mem a s → ∃ fuel found,
    tagLoop (headerInside a (u32 mem a)) (gettagBody tagtype) none fuel (a + 8) s = .ok found s ∧
      multiboot2Gettag fuel tagtype s = .ok found s ∧
      ∀ tag, found = some tag ↔ ∃ t, tag = a + t ∧ FirstTag mem a tagtype 8 t
  overlap : ∀ newMbi s, Holds mem a s → ∃ fuel,
    tagLoop (headerInside a (u32 mem a)) (checkModuleoverlapBody newMbi) () fuel (a + 8) s ≠ .stuck ∧
      multiboot2CheckModuleoverlap fuel newMbi s ≠ .stuck
  relocate : ∀ s, Holds mem a s → s.modTable = [] → a + u32 mem a ≤ s.bootmem.heaptop → s.bootmem.heaptop ≤ 2 ^ 32 →
    ∃ fuel s', tagLoop (relocateSafe a (u32 mem a)) relocateModulesBody () fuel (a + 8) s = .ok () s' ∧
      multiboot2RelocateModules fuel s = .ok () s'

/-- The tags lead to an end tag, all with their headers in the block; there are not more modules than `mod_table` has
entries, and none of them ends before it starts. -/
def WellChained (mem : Memory) (a : ℕ) : Prop :=
  ∃ ts, TagsAt mem a (u32 mem a) 8 ts ∧ (moduleRanges mem a ts).length ≤ modTableSize ∧
    ∀ r ∈ moduleRanges mem a ts, r.1 ≤ r.2

/-! ## Walks along a chain -/

section Chained
variable {a n o : ℕ} {s : BootInfo} {ts : List ℕ}

theorem TagsAt.header (h : TagsAt s.mem a n o ts) (ho : 8 ≤ o) : headerInside a n s (a + o) := by
  have hroom : o + 8 ≤ n := by
    cases ts with
    | nil => exact h.1
    | cons t ts => exact h.2.1
  unfold headerInside
  omega

theorem gettag_walk (tagtype : ℕ) (h : TagsAt s.mem a n o ts) (ho : 8 ≤ o) : ∃ found,
    tagLoop (headerInside a n) (gettagBody tagtype) none (ts.length + 1) (a + o) s = .ok found s ∧
      ∀ tag, found = some tag ↔ ∃ t, tag = a + t ∧ FirstTag s.mem a tagtype o t := by
  have hin := h.header ho
  induction ts generalizing o with
  | nil =>
    refine ⟨none, tagLoop_end hin h.2, fun tag => ⟨nofun, ?_⟩⟩
    rintro ⟨t, -, hfirst⟩
    cases hfirst with
    | here hend => exact absurd h.2 hend
    | next hend => exact absurd h.2 hend
  | cons t ts ih =>
    obtain ⟨rfl, hroom, htype, -, hrest⟩ := h
    by_cases hm : tagType s.mem (a + t) = tagtype
    · refine ⟨some (a + t), tagLoop_leave hin htype (gettagBody_match hm), fun tag => ?_⟩
      rw [Option.some.injEq]
      constructor
      · rintro rfl
        exact ⟨t, rfl, .here htype hm⟩
      · rintro ⟨u, rfl, hfirst⟩
        cases hfirst with
        | here => rfl
        | next _ hne => exact absurd hm hne
    · have ho' : 8 ≤ t + tagLen s.mem (a + t) := by omega
      obtain ⟨found, hrun, hfound⟩ := ih hrest ho' (hrest.header ho')
      refine ⟨found, ?_, fun tag => ?_⟩
      · rw [List.length_cons, tagLoop_next hin htype (gettagBody_other hm), tagNext_eq]
        exact hrun
      · rw [hfound tag]
        constructor
        · rintro ⟨u, rfl, hfirst⟩
          exact ⟨u, rfl, .next htype hm hfirst⟩
        · rintro ⟨u, rfl, hfirst⟩
          cases hfirst with
          | here _ heq => exact absurd heq hm
          | next _ _ hfirst => exact ⟨u, rfl, hfirst⟩

theorem overlap_walk (newMbi : ℕ) (h : TagsAt s.mem a n o ts) (ho : 8 ≤ o) :
    tagLoop (headerInside a n) (checkModuleoverlapBody newMbi) () (ts.length + 1) (a + o) s ≠ .stuck := by
  have hin := h.header ho
  induction ts generalizing o with
  | nil =>
    rw [tagLoop_end hin h.2]
    exact nofun
  | cons t ts ih =>
    obtain ⟨rfl, hroom, htype, -, hrest⟩ := h
    have ho' : 8 ≤ t + tagLen s.mem (a + t) := by omega
    by_cases hover : tagType s.mem (a + t) = multibootTagTypeModule ∧
        (modStart s.mem (a + t) > newMbi ∨ modEnd s.mem (a + t) > newMbi)
    · rw [tagLoop_panic hin htype (if_pos hover)]
      exact nofun
    · rw [List.length_cons, tagLoop_next hin htype (if_neg hover), tagNext_eq]
      exact ih hrest ho' (hrest.header ho')

theorem relocateModule_returns (tag : ℕ) (h : s.modTable.length < modTableSize) :
    ∃ s', relocateModule tag s = .ok () s' := by
  simp only [relocateModule, moduleAdd, Prog.bind_run, Prog.get_run, Prog.modify_run, Outcome.andThen_ok, if_pos h]
  exact ⟨_, rfl⟩

theorem relocateModule_room {s' : BootInfo} {tag : ℕ} (h : relocateModule tag s = .ok () s') :
    s.modTable.length < modTableSize := by
  by_contra hroom
  simp only [relocateModule, moduleAdd, Prog.bind_run, Prog.get_run, Prog.modify_run, Outcome.andThen_ok,
    if_neg hroom, Outcome.andThen_stuck] at h
  cases h

/-- Both ends of a module are 32-bit numbers, so a copy is short or about as long as the address space. -/
theorem copyMapped_iff (tag : ℕ) (htop : s.bootmem.heaptop + 2 ^ 32 ≤ 2 ^ 47) :
    copyMapped s tag ↔ modStart s.mem tag ≤ modEnd s.mem tag := by
  have hstart : modStart s.mem tag < 2 ^ 32 := u32_lt _ _
  have hend : modEnd s.mem tag < 2 ^ 32 := u32_lt _ _
  unfold copyMapped wordSize
  omega

/-- A module that is copied behind the block leaves the block as it is. -/
theorem relocateModule_behind {s' : BootInfo} {tag : ℕ} (h : relocateModule tag s = .ok () s')
    (hr : modStart s.mem tag ≤ modEnd s.mem tag) (hblock : a + n ≤ s.bootmem.heaptop)
    (htop : s.bootmem.heaptop + 2 ^ 32 ≤ 2 ^ 47) :
    load s.mem a n = load s'.mem a n ∧ a + n ≤ s'.bootmem.heaptop ∧
      s'.bootmem.heaptop ≤ s.bootmem.heaptop + 2 ^ 32 ∧ s'.modTable.length = s.modTable.length + 1 := by
  have hend : modEnd s.mem tag < 2 ^ 32 := u32_lt _ _
  obtain ⟨e, hmoved⟩ := relocateModule_moved h hr (by omega)
  have hheap := hmoved.heaptop
  rw [totalLength_cons, totalLength_nil, Nat.add_zero] at hheap
  refine ⟨(hmoved.load_before (.inl hblock)).symm, by omega, by omega, ?_⟩
  rw [hmoved.table, List.length_append, List.length_singleton]

theorem relocate_walk (h : TagsAt s.mem a n o ts) (ho : 8 ≤ o) (hblock : a + n ≤ s.bootmem.heaptop)
    (htop : s.bootmem.heaptop + 2 ^ 32 * (moduleRanges s.mem a ts).length ≤ 2 ^ 47)
    (hroom : s.modTable.length + (moduleRanges s.mem a ts).length ≤ modTableSize)
    (hordered : ∀ r ∈ moduleRanges s.mem a ts, r.1 ≤ r.2) :
    ∃ s', tagLoop (relocateSafe a n) relocateModulesBody () (ts.length + 1) (a + o) s = .ok () s' := by
  have hin := h.header ho
  induction ts generalizing o s with
  | nil =>
    have hnot : tagType s.mem (a + o) = multibootTagTypeModule → copyMapped s (a + o) := by
      intro hm
      rw [h.2] at hm
      exact absurd hm (by decide)
    exact ⟨s, tagLoop_end ⟨hin, hnot⟩ h.2⟩
  | cons t ts ih =>
    obtain ⟨rfl, hheader, htype, -, hrest⟩ := h
    have ho' : 8 ≤ t + tagLen s.mem (a + t) := by omega
    rw [List.length_cons]
    by_cases hm : tagType s.mem (a + t) = multibootTagTypeModule
    · rw [moduleRanges, if_pos hm, List.length_cons] at htop hroom
      rw [moduleRanges, if_pos hm] at hordered
      have hr : modStart s.mem (a + t) ≤ modEnd s.mem (a + t) := hordered _ List.mem_cons_self
      have hspace : s.bootmem.heaptop + 2 ^ 32 ≤ 2 ^ 47 :=
        le_trans (Nat.add_le_add_left (Nat.le_mul_of_pos_right _ (Nat.succ_pos _)) _) htop
      obtain ⟨s₁, hone⟩ := relocateModule_returns (s := s) (a + t) (by omega)
      obtain ⟨hsame, hblock₁, htop₁, htable⟩ := relocateModule_behind hone hr hblock hspace
      have hcopy := (copyMapped_iff (a + t) hspace).mpr hr
      rw [tagLoop_next ⟨hin, fun _ => hcopy⟩ htype (relocateModulesBody_module hm hone), tagNext_eq,
        ← tagLen_same hsame hheader]
      have hrest₁ := hrest.same hsame
      have hranges := moduleRanges_same hrest hsame
      rw [hranges] at htop hroom hordered
      exact ih hrest₁ ho' hblock₁ (by omega) (by omega) (fun r hr => hordered r (List.mem_cons_of_mem _ hr))
        (hrest₁.header ho')
    · rw [moduleRanges, if_neg hm] at htop hroom hordered
      rw [tagLoop_next ⟨hin, fun h => absurd h hm⟩ htype (relocateModulesBody_other hm), tagNext_eq]
      exact ih hrest ho' hblock htop hroom hordered (hrest.header ho')

/-! ## What a walk that ends says about the tags -/

/-- Asked for type 0, `multiboot2_gettag` goes to the end tag. -/
theorem tagsAt_of_walk {fuel : ℕ} {found : Option ℕ} {s' : BootInfo}
    (h : tagLoop (headerInside a n) (gettagBody 0) none fuel (a + o) s = .ok found s') :
    ∃ ts, TagsAt s.mem a n o ts := by
  induction fuel generalizing o with
  | zero => cases h
  | succ fuel ih =>
    have hin : headerInside a n s (a + o) := safe_of_tagLoop (by rw [h]; exact nofun)
    have hroom : o + 8 ≤ n := by
      unfold headerInside at hin
      omega
    by_cases hend : tagType s.mem (a + o) = 0
    · exact ⟨[], hroom, hend⟩
    · rw [tagLoop_next hin hend (gettagBody_other hend), tagNext_eq] at h
      obtain ⟨ts, hrest⟩ := ih h
      refine ⟨o :: ts, rfl, hroom, hend, fun hm => ?_, hrest⟩
      -- the tag after this one is 8 bytes further on, or it is this tag again
      rcases Nat.eq_zero_or_pos (tagLen s.mem (a + o)) with hzero | hpos
      · rw [hzero, Nat.add_zero] at hrest
        cases ts with
        | nil => exact absurd hrest.2 hend
        | cons u us => exact hrest.2.2.2.1 hm
      · have hlen : 8 ≤ tagLen s.mem (a + o) := by
          unfold tagLen at hpos ⊢
          omega
        have hnext : o + tagLen s.mem (a + o) + 8 ≤ n := by
          cases ts with
          | nil => exact hrest.1
          | cons u us => exact hrest.2.1
        omega

theorem modules_of_walk {fuel : ℕ} {s' : BootInfo}
    (h : tagLoop (relocateSafe a n) relocateModulesBody () fuel (a + o) s = .ok () s') (htags : TagsAt s.mem a n o ts)
    (hblock : a + n ≤ s.bootmem.heaptop) (hroom : s.modTable.length ≤ modTableSize)
    (htop : s.bootmem.heaptop + 2 ^ 32 * (modTableSize + 1 - s.modTable.length) ≤ 2 ^ 47) :
    s.modTable.length + (moduleRanges s.mem a ts).length ≤ modTableSize ∧ ∀ r ∈ moduleRanges s.mem a ts, r.1 ≤ r.2 := by
  induction ts generalizing o s fuel with
  | nil =>
    rw [moduleRanges, List.length_nil]
    exact ⟨hroom, fun r hr => absurd hr List.not_mem_nil⟩
  | cons t ts ih =>
    obtain ⟨rfl, hheader, htype, -, hrest⟩ := htags
    cases fuel with
    | zero => cases h
    | succ fuel =>
      have hsafe : relocateSafe a n s (a + t) := safe_of_tagLoop (by rw [h]; intro hstuck; cases hstuck)
      by_cases hm : tagType s.mem (a + t) = multibootTagTypeModule
      · have hspace : s.bootmem.heaptop + 2 ^ 32 ≤ 2 ^ 47 := by omega
        have hr := (copyMapped_iff (a + t) hspace).mp (hsafe.2 hm)
        cases hone : relocateModule (a + t) s with
        | panic m t' =>
          have hbody : relocateModulesBody (a + t) s = .panic m t' := by
            simp only [relocateModulesBody, Prog.bind_run, Prog.get_run, Outcome.andThen_ok, if_pos hm, hone,
              Outcome.andThen_panic]
          rw [tagLoop_panic hsafe htype hbody] at h
          cases h
        | stuck =>
          have hbody : relocateModulesBody (a + t) s = .stuck := by
            simp only [relocateModulesBody, Prog.bind_run, Prog.get_run, Outcome.andThen_ok, if_pos hm, hone,
              Outcome.andThen_stuck]
          rw [tagLoop_stuck hsafe htype hbody] at h
          cases h
        | ok u s₁ =>
          have htable := relocateModule_room hone
          obtain ⟨hsame, hblock₁, htop₁, htable₁⟩ := relocateModule_behind hone hr hblock hspace
          rw [tagLoop_next hsafe htype (relocateModulesBody_module hm hone), tagNext_eq,
            ← tagLen_same hsame hheader] at h
          obtain ⟨hcount, hordered⟩ := ih h (hrest.same hsame) hblock₁ (by omega) (by omega)
          rw [← moduleRanges_same hrest hsame] at hcount hordered
          rw [moduleRanges, if_pos hm, List.length_cons]
          exact ⟨by omega, List.forall_mem_cons.mpr ⟨hr, hordered⟩⟩
      · rw [tagLoop_next hsafe htype (relocateModulesBody_other hm), tagNext_eq] at h
        rw [moduleRanges, if_neg hm]
        exact ih h hrest hblock hroom htop

/-- A tag of length 0 is followed by itself, and never by the end tag. -/
theorem TagsAt.tagLen_ne_zero (h : TagsAt s.mem a n o ts) (hend : tagType s.mem (a + o) ≠ 0) :
    tagLen s.mem (a + o) ≠ 0 := by
  induction ts with
  | nil => exact absurd h.2 hend
  | cons t ts ih =>
    intro hzero
    obtain ⟨rfl, -, -, -, hrest⟩ := h
    rw [hzero, Nat.add_zero] at hrest
    exact ih hrest hzero

end Chained

variable {mem : Memory} {a : ℕ}

theorem WellChained.walksWithin (h : WellChained mem a) : WalksWithin mem a := by
  obtain ⟨ts, htags, hcount, hordered⟩ := h
  refine ⟨?_, ?_, ?_⟩
  · rintro tagtype s ⟨rfl, rfl⟩
    obtain ⟨found, hrun, hfound⟩ := gettag_walk tagtype htags le_rfl
    refine ⟨ts.length + 1, found, hrun, ?_, hfound⟩
    rw [multiboot2Gettag, gettagFrom_eq_loop, tagLoop_unchecked (by rw [hrun]; exact nofun), hrun]
  · rintro newMbi s ⟨rfl, rfl⟩
    have hrun := overlap_walk newMbi htags le_rfl
    refine ⟨ts.length + 1, hrun, ?_⟩
    rw [multiboot2CheckModuleoverlap, checkModuleoverlapFrom_eq_loop, tagLoop_unchecked hrun]
    exact hrun
  · rintro s ⟨rfl, rfl⟩ htable hblock htop
    have hmapped : s.bootmem.heaptop + 2 ^ 32 * (moduleRanges s.mem s.mbiAddr ts).length ≤ 2 ^ 47 := by
      unfold modTableSize at hcount
      calc s.bootmem.heaptop + 2 ^ 32 * (moduleRanges s.mem s.mbiAddr ts).length
          ≤ 2 ^ 32 + 2 ^ 32 * 16 := Nat.add_le_add htop (Nat.mul_le_mul_left _ hcount)
        _ ≤ 2 ^ 47 := by decide
    obtain ⟨s', hrun⟩ := relocate_walk htags le_rfl hblock hmapped (by rw [htable, List.length_nil]; omega) hordered
    refine ⟨ts.length + 1, s', hrun, ?_⟩
    rw [multiboot2RelocateModules, relocateModulesFrom_eq_loop, tagLoop_unchecked (by rw [hrun]; exact nofun), hrun]

theorem WalksWithin.wellChained (h : WalksWithin mem a) (hspace : a + u32 mem a ≤ 2 ^ 32) : WellChained mem a := by
  -- any state with this memory and, for the modules, an empty table and room behind the block
  obtain ⟨s, hs, htable, htop⟩ : ∃ s, Holds mem a s ∧ s.modTable = [] ∧ s.bootmem.heaptop = a + u32 mem a :=
    ⟨⟨mem, a, ⟨0, a + u32 mem a, 0⟩, []⟩, ⟨rfl, rfl⟩, rfl, rfl⟩
  obtain ⟨fuel, found, hrun, -⟩ := h.gettag 0 s hs
  obtain ⟨fuel', s', hmods, -⟩ := h.relocate s hs htable htop.ge (htop.trans_le hspace)
  obtain ⟨rfl, rfl⟩ := hs
  obtain ⟨ts, htags⟩ := tagsAt_of_walk hrun
  have hroom : s.modTable.length ≤ modTableSize := by
    rw [htable]
    exact Nat.zero_le _
  have hmapped : s.bootmem.heaptop + 2 ^ 32 * (modTableSize + 1 - s.modTable.length) ≤ 2 ^ 47 := by
    rw [htable, htop, List.length_nil]
    unfold modTableSize
    omega
  obtain ⟨hcount, hordered⟩ := modules_of_walk hmods htags htop.ge hroom hmapped
  rw [htable, List.length_nil, Nat.zero_add] at hcount
  exact ⟨ts, htags, hcount, hordered⟩

/-- The walks over a block whose tags end inside of it do so too; for a block below 4 GiB they do so only then. -/
theorem tag_walks_within (mem : Memory) (a : ℕ) : (WellChained mem a → WalksWithin mem a) ∧
    (a + u32 mem a ≤ 2 ^ 32 → WalksWithin mem a → WellChained mem a) :=
  ⟨fun h => h.walksWithin, fun hspace h => h.wellChained hspace⟩

theorem tag_walks_within_sample : WalksWithin sampleBoot.mem sampleBoot.mbiAddr := by
  have hwf := sampleBoot_wellFormed
  refine (tag_walks_within sampleBoot.mem sampleBoot.mbiAddr).1 ⟨[8, 32], hwf.tags, ?_, hwf.ordered⟩
  rw [sampleBoot_mods]
  decide

/-- 24 bytes: the block's header, a tag of type 1 and size 0, and the end tag. -/
def standingTag : Memory := store (fun _ => 0) 0x8000
  [24, 0, 0, 0, 0, 0, 0, 0, 1, 0, 0, 0, 0, 0, 0, 0, 0, 0, 0, 0, 8, 0, 0, 0]

theorem standing_tag_never_passed : ¬WalksWithin standingTag 0x8000 := by
  intro h
  obtain ⟨fuel, found, hrun, -⟩ := h.gettag 0 ⟨standingTag, 0x8000, ⟨0, 0, 0⟩, []⟩ ⟨rfl, rfl⟩
  obtain ⟨ts, htags⟩ := tagsAt_of_walk hrun
  exact htags.tagLen_ne_zero (by decide) (by decide)

end Borgos.Boot
