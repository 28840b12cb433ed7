import Mathlib.Data.List.Forall2
import Mathlib.Order.Interval.Finset.Nat
import Borgos.Boot.Multiboot2

/-! # Boot relocation preserves content

The block goes to the start of the boot memory and the modules follow it. `multiboot2_check_moduleoverlap` admits only
modules that end at or before that start, so that no copy meets the source of another; the end of the block is
computed in 32 bits, so that everything depends on its lying below 4 GiB.
-/
namespace Borgos.Boot
open Borgos.Foundations Borgos.Mem FlatMemory
set_option autoImplicit false

/-! ## Tags and modules -/

def tagLen (mem : Memory) (tag : ℕ) : ℕ := (tagSize mem tag + 7) % 2 ^ 32 / 8 * 8

theorem tagNext_eq (mem : Memory) (a o : ℕ) : tagNext mem (a + o) = a + (o + tagLen mem (a + o)) := by
  rw [tagNext, tagLen, Nat.add_assoc]

/-- The tags at the offsets `ts` of the block at `a` follow one another from `o` on, and the end tag follows them;
all lie in the `n` bytes of the block. -/
def TagsAt (mem : Memory) (a n : ℕ) : ℕ → List ℕ → Prop
  | o, [] => o + 8 ≤ n ∧ tagType mem (a + o) = 0
  | o, t :: ts => t = o ∧ o + 8 ≤ n ∧ tagType mem (a + o) ≠ 0 ∧
    (tagType mem (a + o) = multibootTagTypeModule → o + 16 ≤ n) ∧ TagsAt mem a n (o + tagLen mem (a + o)) ts

/-- The ranges of the module tags, in tag order. -/
def moduleRanges (mem : Memory) (a : ℕ) : List ℕ → List (ℕ × ℕ)
  | [] => []
  | t :: ts =>
    if tagType mem (a + t) = multibootTagTypeModule then
      (modStart mem (a + t), modEnd mem (a + t)) :: moduleRanges mem a ts
    else moduleRanges mem a ts

/-- Two ranges share no byte. -/
def Apart (r q : ℕ × ℕ) : Prop := Disjoint (Finset.Ico r.1 r.2) (Finset.Ico q.1 q.2)

def mbisize (s : BootInfo) : ℕ := u32 s.mem s.mbiAddr

/-- An information block with the tags `ts`, before any module is registered. -/
structure WellFormed (s : BootInfo) (ts : List ℕ) : Prop where
  tags : TagsAt s.mem s.mbiAddr (mbisize s) 8 ts
  space : s.mbiAddr + mbisize s ≤ 2 ^ 32
  ordered : ∀ r ∈ moduleRanges s.mem s.mbiAddr ts, r.1 ≤ r.2
  apart : ((s.mbiAddr, s.mbiAddr + mbisize s) :: moduleRanges s.mem s.mbiAddr ts).Pairwise Apart
  unregistered : s.modTable = []

/-- The block and the registered modules, as physical ranges. -/
def relocated (s : BootInfo) (n : ℕ) : List (ℕ × ℕ) :=
  (s.mbiAddr, s.mbiAddr + n) :: s.modTable.map fun e => (v2p e.modStart, v2p e.modEnd)

/-- The bytes are the original ones, in disjoint ranges up to `heaptop`. -/
structure Preserved (s s' : BootInfo) (mods : List (ℕ × ℕ)) : Prop where
  block : load s'.mem s'.mbiAddr (mbisize s) = load s.mem s.mbiAddr (mbisize s)
  modules : List.Forall₂ (fun r e => v2p e.modEnd = v2p e.modStart + (r.2 - r.1) ∧
    load s'.mem (v2p e.modStart) (r.2 - r.1) = load s.mem r.1 (r.2 - r.1)) mods s'.modTable
  disjoint : (relocated s' (mbisize s)).Pairwise Apart
  inside : ∀ r ∈ relocated s' (mbisize s), s'.bootmem.addr ≤ r.1 ∧ r.2 ≤ s'.bootmem.heaptop
  last : ((relocated s' (mbisize s)).getLast?.map Prod.snd) = some s'.bootmem.heaptop

/-- `B` is where the first usable entry of the memory map puts the boot memory. -/
def BootmemChoice (s : BootInfo) (ts : List ℕ) (bootimageEnd B : ℕ) : Prop :=
  ∃ o i, ts.find? (fun t => tagType s.mem (s.mbiAddr + t) = multibootTagTypeMmap) = some o ∧
    (∀ j < i, ¬entryUsable s.mem (s.mbiAddr + o) j) ∧ (∀ j ≤ i, entryReached s.mem (s.mbiAddr + o) j) ∧
    entryUsable s.mem (s.mbiAddr + o) i ∧
    B = bootmemStart (entryAddr s.mem (s.mbiAddr + o) i) (entryLen s.mem (s.mbiAddr + o) i) bootimageEnd

/-! ## Blocks with the same bytes -/

section Same
variable {mem mem' : Memory} {a a' n : ℕ}

theorem u32_same (h : load mem a n = load mem' a' n) {o : ℕ} (ho : o + 4 ≤ n) : u32 mem (a + o) = u32 mem' (a' + o) :=
  congrArg ofBytes (load_part h ho)

theorem tagType_same (h : load mem a n = load mem' a' n) {o : ℕ} (ho : o + 4 ≤ n) :
    tagType mem (a + o) = tagType mem' (a' + o) := u32_same h ho

theorem tagLen_same (h : load mem a n = load mem' a' n) {o : ℕ} (ho : o + 8 ≤ n) :
    tagLen mem (a + o) = tagLen mem' (a' + o) := by
  unfold tagLen tagSize
  rw [Nat.add_assoc, u32_same h (by omega), Nat.add_assoc]

theorem modRange_same (h : load mem a n = load mem' a' n) {o : ℕ} (ho : o + 16 ≤ n) :
    modStart mem (a + o) = modStart mem' (a' + o) ∧ modEnd mem (a + o) = modEnd mem' (a' + o) := by
  unfold modStart modEnd
  rw [Nat.add_assoc, Nat.add_assoc a' o 8, Nat.add_assoc, Nat.add_assoc a' o 12]
  exact ⟨u32_same h (by omega), u32_same h (by omega)⟩

theorem TagsAt.same {o : ℕ} {ts : List ℕ} (ht : TagsAt mem a n o ts) (h : load mem a n = load mem' a' n) :
    TagsAt mem' a' n o ts := by
  induction ts generalizing o with
  | nil =>
    obtain ⟨ho, htype⟩ := ht
    exact ⟨ho, by rw [← tagType_same h (by omega)]; exact htype⟩
  | cons t ts ih =>
    obtain ⟨rfl, ho, htype, hmod, hrest⟩ := ht
    have hsame := tagType_same h (show t + 4 ≤ n by omega)
    refine ⟨rfl, ho, by rw [← hsame]; exact htype, by rw [← hsame]; exact hmod, ?_⟩
    rw [← tagLen_same h ho]
    exact ih hrest

theorem moduleRanges_same {o : ℕ} {ts : List ℕ} (ht : TagsAt mem a n o ts) (h : load mem a n = load mem' a' n) :
    moduleRanges mem a ts = moduleRanges mem' a' ts := by
  induction ts generalizing o with
  | nil => rfl
  | cons t ts ih =>
    obtain ⟨rfl, ho, htype, hmod, hrest⟩ := ht
    have hsame := tagType_same h (show t + 4 ≤ n by omega)
    unfold moduleRanges
    rw [← hsame, ← ih hrest]
    split_ifs with hm
    · obtain ⟨h₁, h₂⟩ := modRange_same h (hmod hm)
      rw [h₁, h₂]
    · rfl

end Same

/-! ## Moving the modules -/

/-- Where modules of these ranges go, one behind the other from `h` on. -/
def placements : ℕ → List (ℕ × ℕ) → List (ℕ × ℕ)
  | _, [] => []
  | h, r :: rs => (h, h + (r.2 - r.1)) :: placements (h + (r.2 - r.1)) rs

def totalLength (rs : List (ℕ × ℕ)) : ℕ := (rs.map fun r => r.2 - r.1).sum

@[simp] theorem totalLength_nil : totalLength [] = 0 := rfl

@[simp] theorem totalLength_cons (r : ℕ × ℕ) (rs : List (ℕ × ℕ)) :
    totalLength (r :: rs) = r.2 - r.1 + totalLength rs := by
  rw [totalLength, List.map_cons, List.sum_cons, totalLength]

theorem placements_within {h : ℕ} {rs : List (ℕ × ℕ)} : ∀ r ∈ placements h rs, h ≤ r.1 ∧ r.2 ≤ h + totalLength rs := by
  induction rs generalizing h with
  | nil => exact fun r hr => nomatch hr
  | cons q rs ih =>
    intro r hr
    rw [totalLength_cons]
    rcases List.mem_cons.mp hr with rfl | hr
    · exact ⟨Nat.le_refl h, by omega⟩
    · have hq := ih r hr
      exact ⟨by omega, by omega⟩

theorem apart_of_le {r q : ℕ × ℕ} (h : r.2 ≤ q.1) : Apart r q :=
  Finset.disjoint_left.mpr fun i hr hq => by
    rw [Finset.mem_Ico] at hr hq
    omega

/-- A range up to `h` and the modules behind it share no byte. -/
theorem placements_apart {b h : ℕ} {rs : List (ℕ × ℕ)} : ((b, h) :: placements h rs).Pairwise Apart := by
  induction rs generalizing b h with
  | nil => exact List.pairwise_singleton _ _
  | cons q rs ih => exact List.pairwise_cons.mpr ⟨fun r hr => apart_of_le (placements_within r hr).1, ih⟩

theorem placements_last {b h : ℕ} {rs : List (ℕ × ℕ)} :
    ((b, h) :: placements h rs).getLast?.map Prod.snd = some (h + totalLength rs) := by
  induction rs generalizing b h with
  | nil => rfl
  | cons q rs ih =>
    rw [placements, List.getLast?_cons_cons, ih, totalLength_cons, Nat.add_assoc]

/-- A module entry as a physical range. -/
def entryRange (e : ModuleEntry) : ℕ × ℕ := (v2p e.modStart, v2p e.modEnd)

@[simp] theorem entryRange_fst (e : ModuleEntry) : (entryRange e).1 = v2p e.modStart := by
  unfold entryRange
  rfl

@[simp] theorem entryRange_snd (e : ModuleEntry) : (entryRange e).2 = v2p e.modEnd := by
  unfold entryRange
  rfl

/-- The modules `mods` have been moved behind `heaptop` and registered as `es`. -/
structure Moved (s s' : BootInfo) (mods : List (ℕ × ℕ)) (es : List ModuleEntry) : Prop where
  mbiAddr : s'.mbiAddr = s.mbiAddr
  addr : s'.bootmem.addr = s.bootmem.addr
  heaptop : s'.bootmem.heaptop = s.bootmem.heaptop + totalLength mods
  table : s'.modTable = s.modTable ++ es
  ranges : es.map entryRange = placements s.bootmem.heaptop mods
  frame : ∀ i, i < s.bootmem.heaptop ∨ s.bootmem.heaptop + totalLength mods ≤ i → s'.mem i = s.mem i
  content : (∀ r ∈ mods, r.2 ≤ s.bootmem.heaptop) → List.Forall₂ (fun r e =>
    v2p e.modEnd = v2p e.modStart + (r.2 - r.1) ∧
      load s'.mem (v2p e.modStart) (r.2 - r.1) = load s.mem r.1 (r.2 - r.1)) mods es

theorem Moved.refl (s : BootInfo) : Moved s s [] [] where
  mbiAddr := rfl
  addr := rfl
  heaptop := by rw [totalLength_nil, Nat.add_zero]
  table := by rw [List.append_nil]
  ranges := rfl
  frame := fun _ _ => rfl
  content := fun _ => .nil

theorem Moved.load_before {s s' : BootInfo} {mods : List (ℕ × ℕ)} {es : List ModuleEntry} (hm : Moved s s' mods es)
    {a n : ℕ} (h : a + n ≤ s.bootmem.heaptop ∨ s.bootmem.heaptop + totalLength mods ≤ a) :
    load s'.mem a n = load s.mem a n := by
  refine load_eq_load.mpr fun i hi => hm.frame _ ?_
  omega

theorem Moved.cons {s s₁ s' : BootInfo} {r : ℕ × ℕ} {e : ModuleEntry} {mods : List (ℕ × ℕ)} {es : List ModuleEntry}
    (h₁ : Moved s s₁ [r] [e]) (h₂ : Moved s₁ s' mods es) : Moved s s' (r :: mods) (e :: es) := by
  have htop : s₁.bootmem.heaptop = s.bootmem.heaptop + (r.2 - r.1) := by
    rw [h₁.heaptop, totalLength_cons, totalLength_nil, Nat.add_zero]
  have hframe : ∀ i, i < s.bootmem.heaptop ∨ s.bootmem.heaptop + (r.2 - r.1) ≤ i → s₁.mem i = s.mem i := by
    intro i hi
    refine h₁.frame i ?_
    rw [totalLength_cons, totalLength_nil, Nat.add_zero]
    exact hi
  have hrange : entryRange e = (s.bootmem.heaptop, s.bootmem.heaptop + (r.2 - r.1)) := by
    exact (List.cons.inj h₁.ranges).1
  refine ⟨?_, ?_, ?_, ?_, ?_, ?_, ?_⟩
  · rw [h₂.mbiAddr, h₁.mbiAddr]
  · rw [h₂.addr, h₁.addr]
  · rw [h₂.heaptop, htop, totalLength_cons, Nat.add_assoc]
  · rw [h₂.table, h₁.table, List.append_assoc, List.singleton_append]
  · rw [List.map_cons, h₂.ranges, hrange, htop]
    rfl
  · intro i hi
    rw [totalLength_cons] at hi
    rw [h₂.frame i (by omega), hframe i (by omega)]
  · intro hsource
    have hfirst := h₁.content fun q hq => by
      rw [List.mem_singleton.mp hq]
      exact hsource r List.mem_cons_self
    have hrest := h₂.content fun q hq => by
      rw [htop]
      exact Nat.le_add_right_of_le (hsource q (List.mem_cons_of_mem r hq))
    cases hfirst with
    | cons hfirst _ =>
      have hboth := (List.forall₂_and_left _ _).mpr ⟨fun q hq => hsource q (List.mem_cons_of_mem r hq), hrest⟩
      refine .cons ?_ (hboth.imp ?_)
      · -- the later copies go behind this one
        refine ⟨hfirst.1, ?_⟩
        rw [← hfirst.2]
        refine h₂.load_before (.inl ?_)
        rw [htop, ← entryRange_fst, hrange]
      · rintro q e' ⟨hq, hlen, hload⟩
        refine ⟨hlen, ?_⟩
        rw [hload]
        refine load_eq_load.mpr fun i hi => hframe _ (.inl ?_)
        omega

theorem ofBytes_lt (bs : List Byte) : ofBytes bs < 256 ^ bs.length := by
  induction bs with
  | nil => exact Nat.one_pos
  | cons b bs ih =>
    have hb := b.isLt
    have hstep : ofBytes (b :: bs) = b.toNat + 256 * ofBytes bs := rfl
    rw [List.length_cons, Nat.pow_succ, hstep]
    omega

theorem u32_lt (mem : Memory) (a : ℕ) : u32 mem a < 2 ^ 32 := by
  have h := ofBytes_lt (load mem a 4)
  rw [length_load] at h
  exact h

theorem relocateModule_moved {s s' : BootInfo} {tag : ℕ} (hrun : relocateModule tag s = .ok () s')
    (hr : modStart s.mem tag ≤ modEnd s.mem tag)
    (hspace : s.bootmem.heaptop + (modEnd s.mem tag - modStart s.mem tag) < 2 ^ 64) :
    ∃ e, Moved s s' [(modStart s.mem tag, modEnd s.mem tag)] [e] := by
  have hlen : (modEnd s.mem tag + wordSize - modStart s.mem tag) % wordSize =
      modEnd s.mem tag - modStart s.mem tag := by
    have hend : modEnd s.mem tag < 2 ^ 32 := u32_lt _ _
    unfold wordSize
    omega
  have hsum : (s.bootmem.heaptop + (modEnd s.mem tag - modStart s.mem tag)) % wordSize =
      s.bootmem.heaptop + (modEnd s.mem tag - modStart s.mem tag) := Nat.mod_eq_of_lt hspace
  simp only [relocateModule, Prog.bind_run, Prog.get_run, Outcome.andThen_ok, Prog.modify_run, moduleAdd,
    Libc.memcpy_eq_move, hlen, hsum] at hrun
  split at hrun
  · simp only [Outcome.andThen_ok, Prog.modify_run, hsum, Outcome.ok.injEq, true_and] at hrun
    subst hrun
    have hv : v2p (p2v s.bootmem.heaptop) = s.bootmem.heaptop := v2p_p2v (by omega)
    refine ⟨_, rfl, rfl, ?_, rfl, ?_, ?_, ?_⟩
    · simp only [totalLength_cons, totalLength_nil, Nat.add_zero]
    · rw [List.map_singleton, entryRange, hv, v2p_p2v hspace]
      rfl
    · intro i hi
      rw [totalLength_cons, totalLength_nil, Nat.add_zero] at hi
      exact move_outside hi
    · intro _
      refine .cons ⟨?_, ?_⟩ .nil
      · rw [hv, v2p_p2v hspace]
      · rw [hv]
        exact load_move_self
  · cases hrun

/-- The loop over the tags at `a`, which the copies behind `heaptop` do not touch. -/
theorem relocateModulesFrom_moved {fuel a n o : ℕ} {s s' : BootInfo} {ts : List ℕ}
    (hrun : relocateModulesFrom fuel (a + o) s = .ok () s') (htags : TagsAt s.mem a n o ts)
    (hordered : ∀ r ∈ moduleRanges s.mem a ts, r.1 ≤ r.2)
    (hapart : a + n ≤ s.bootmem.heaptop ∨ s.bootmem.heaptop + totalLength (moduleRanges s.mem a ts) ≤ a)
    (hspace : s.bootmem.heaptop + totalLength (moduleRanges s.mem a ts) < 2 ^ 64) :
    ∃ es, Moved s s' (moduleRanges s.mem a ts) es := by
  induction ts generalizing fuel o s with
  | nil =>
    cases fuel with
    | zero => cases hrun
    | succ fuel =>
      simp only [relocateModulesFrom, Prog.bind_run, Prog.get_run, Outcome.andThen_ok, if_pos htags.2,
        Prog.pure_run, Outcome.ok.injEq, true_and] at hrun
      subst hrun
      exact ⟨[], Moved.refl _⟩
  | cons t ts ih =>
    obtain ⟨rfl, ho, htype, hmod, hrest⟩ := htags
    cases fuel with
    | zero => cases hrun
    | succ fuel =>
      by_cases hm : tagType s.mem (a + t) = multibootTagTypeModule
      · have hmods : moduleRanges s.mem a (t :: ts) =
            (modStart s.mem (a + t), modEnd s.mem (a + t)) :: moduleRanges s.mem a ts := by
          rw [moduleRanges, if_pos hm]
        rw [hmods] at hordered hapart hspace ⊢
        rw [totalLength_cons] at hapart hspace
        simp only [relocateModulesFrom, Prog.bind_run, Prog.get_run, Outcome.andThen_ok, if_neg htype,
          if_pos hm] at hrun
        obtain ⟨_, s₁, hone, hrun⟩ := Outcome.andThen_eq_ok.mp hrun
        obtain ⟨e, hmoved⟩ := relocateModule_moved hone (hordered _ List.mem_cons_self) (by omega)
        have htop := hmoved.heaptop
        rw [totalLength_cons, totalLength_nil, Nat.add_zero] at htop
        -- the block is as it was, so the walk goes on over the same tags
        have hblock : load s.mem a n = load s₁.mem a n := by
          refine (hmoved.load_before ?_).symm
          rw [totalLength_cons, totalLength_nil, Nat.add_zero]
          omega
        have hranges := moduleRanges_same hrest hblock
        simp only [Prog.bind_run, Prog.get_run, Outcome.andThen_ok, tagNext_eq] at hrun
        rw [← tagLen_same hblock ho] at hrun
        rw [hranges] at hordered hapart hspace ⊢
        obtain ⟨es, hmoved'⟩ := ih hrun (hrest.same hblock)
          (fun r hr => hordered r (List.mem_cons_of_mem _ hr)) (by rw [htop]; omega) (by rw [htop]; omega)
        exact ⟨e :: es, hmoved.cons hmoved'⟩
      · have hmods : moduleRanges s.mem a (t :: ts) = moduleRanges s.mem a ts := by
          rw [moduleRanges, if_neg hm]
        rw [hmods] at hordered hapart hspace ⊢
        simp only [relocateModulesFrom, Prog.bind_run, Prog.get_run, Outcome.andThen_ok, if_neg htype,
          if_neg hm, tagNext_eq] at hrun
        exact ih hrun hrest hordered hapart hspace

/-! ## The walks before the move -/

theorem gettagFrom_eq {fuel a n o tagtype : ℕ} {s s' : BootInfo} {ts : List ℕ} {found : Option ℕ}
    (hrun : gettagFrom tagtype fuel (a + o) s = .ok found s') (htags : TagsAt s.mem a n o ts) :
    s' = s ∧ found = (ts.find? fun t => tagType s.mem (a + t) = tagtype).map (a + ·) := by
  induction ts generalizing fuel o with
  | nil =>
    cases fuel with
    | zero => cases hrun
    | succ fuel =>
      simp only [gettagFrom, if_pos htags.2] at hrun
      cases hrun
      exact ⟨rfl, rfl⟩
  | cons t ts ih =>
    obtain ⟨rfl, ho, htype, hmod, hrest⟩ := htags
    cases fuel with
    | zero => cases hrun
    | succ fuel =>
      simp only [gettagFrom, if_neg htype] at hrun
      by_cases hm : tagType s.mem (a + t) = tagtype
      · rw [if_pos hm] at hrun
        cases hrun
        rw [List.find?_cons_of_pos (by simpa using hm)]
        exact ⟨rfl, rfl⟩
      · rw [if_neg hm, tagNext_eq] at hrun
        rw [List.find?_cons_of_neg (by simpa using hm)]
        exact ih hrun hrest

/-- The check admits modules that end at or before the new place only. -/
theorem checkModuleoverlapFrom_ok {fuel a n o newMbi : ℕ} {s s' : BootInfo} {ts : List ℕ}
    (hrun : checkModuleoverlapFrom newMbi fuel (a + o) s = .ok () s') (htags : TagsAt s.mem a n o ts) :
    s' = s ∧ ∀ r ∈ moduleRanges s.mem a ts, r.2 ≤ newMbi := by
  induction ts generalizing fuel o with
  | nil =>
    cases fuel with
    | zero => cases hrun
    | succ fuel =>
      simp only [checkModuleoverlapFrom, if_pos htags.2] at hrun
      cases hrun
      exact ⟨rfl, fun r hr => nomatch hr⟩
  | cons t ts ih =>
    obtain ⟨rfl, ho, htype, hmod, hrest⟩ := htags
    cases fuel with
    | zero => cases hrun
    | succ fuel =>
      simp only [checkModuleoverlapFrom, if_neg htype] at hrun
      split at hrun
      · cases hrun
      · rename_i hover
        rw [tagNext_eq] at hrun
        obtain ⟨rfl, hle⟩ := ih hrun hrest
        refine ⟨rfl, ?_⟩
        rw [moduleRanges]
        split
        · rename_i hm
          intro r hr
          rcases List.mem_cons.mp hr with rfl | hr
          · by_contra hlt
            exact hover ⟨hm, .inr (Nat.lt_of_not_le hlt)⟩
          · exact hle r hr
        · exact hle

/-- A result comes from the first usable entry. -/
theorem setBootmemFrom_ok {fuel mmap bootimageEnd n i : ℕ} {s s' : BootInfo}
    (hrun : setBootmemFrom fuel mmap bootimageEnd n i s = .ok .ok s') :
    ∃ k, i ≤ k ∧ (∀ j, i ≤ j → j < k → ¬entryUsable s.mem mmap j) ∧ (∀ j, i ≤ j → j ≤ k → entryReached s.mem mmap j) ∧
      entryUsable s.mem mmap k ∧
      setBootmemAt fuel (entryAddr s.mem mmap k) (entryLen s.mem mmap k) bootimageEnd s = .ok .ok s' := by
  induction n generalizing i with
  | zero => cases hrun
  | succ n ih =>
    simp only [setBootmemFrom] at hrun
    split at hrun
    · rename_i hreached
      split at hrun
      · rename_i husable
        exact ⟨i, Nat.le_refl i,
          fun j h₁ h₂ => by omega, fun j h₁ h₂ => Nat.le_antisymm h₁ h₂ ▸ hreached, husable, hrun⟩
      · rename_i hunusable
        obtain ⟨k, hk, hbefore, hall, husable, hrun⟩ := ih hrun
        refine ⟨k, by omega, fun j h₁ h₂ => ?_, fun j h₁ h₂ => ?_, husable, hrun⟩
        · rcases Nat.eq_or_lt_of_le h₁ with rfl | h₁
          · exact hunusable
          · exact hbefore j h₁ h₂
        · rcases Nat.eq_or_lt_of_le h₁ with rfl | h₁
          · exact hreached
          · exact hall j h₁ h₂
    · cases hrun

/-! ## Ranges in a bounded space -/

/-- The addresses of some ranges. -/
def cover (rs : List (ℕ × ℕ)) : Finset ℕ := rs.foldr (fun r S => Finset.Ico r.1 r.2 ∪ S) ∅

theorem disjoint_cover {S : Finset ℕ} {rs : List (ℕ × ℕ)} (h : ∀ r ∈ rs, Disjoint S (Finset.Ico r.1 r.2)) :
    Disjoint S (cover rs) := by
  induction rs with
  | nil => exact Finset.disjoint_empty_right S
  | cons r rs ih =>
    obtain ⟨hr, hrs⟩ := List.forall_mem_cons.mp h
    exact Finset.disjoint_union_right.mpr ⟨hr, ih hrs⟩

theorem card_cover {rs : List (ℕ × ℕ)} (h : rs.Pairwise Apart) : (cover rs).card = totalLength rs := by
  induction rs with
  | nil => rfl
  | cons r rs ih =>
    obtain ⟨hr, hrs⟩ := List.pairwise_cons.mp h
    rw [totalLength_cons, ← ih hrs, ← Nat.card_Ico]
    exact Finset.card_union_of_disjoint (disjoint_cover hr)

theorem cover_subset {M : ℕ} {rs : List (ℕ × ℕ)} (h : ∀ r ∈ rs, r.2 ≤ M) : cover rs ⊆ Finset.range M := by
  induction rs with
  | nil => exact Finset.empty_subset _
  | cons r rs ih =>
    obtain ⟨hr, hrs⟩ := List.forall_mem_cons.mp h
    refine Finset.union_subset ?_ (ih hrs)
    intro i hi
    exact Finset.mem_range.mpr (Nat.lt_of_lt_of_le (Finset.mem_Ico.mp hi).2 hr)

/-- Ranges that share no byte fit into what bounds them. -/
theorem totalLength_le {M : ℕ} {rs : List (ℕ × ℕ)} (h : rs.Pairwise Apart) (hM : ∀ r ∈ rs, r.2 ≤ M) :
    totalLength rs ≤ M := by
  calc totalLength rs = (cover rs).card := (card_cover h).symm
    _ ≤ (Finset.range M).card := Finset.card_le_card (cover_subset hM)
    _ = M := Finset.card_range M

theorem moduleRanges_lt (mem : Memory) (a : ℕ) (ts : List ℕ) : ∀ r ∈ moduleRanges mem a ts, r.2 < 2 ^ 32 := by
  induction ts with
  | nil => exact fun r hr => nomatch hr
  | cons t ts ih =>
    rw [moduleRanges]
    split
    · exact List.forall_mem_cons.mpr ⟨u32_lt _ _, ih⟩
    · exact ih

theorem WellFormed.total_le {s : BootInfo} {ts : List ℕ} (hs : WellFormed s ts) :
    mbisize s + totalLength (moduleRanges s.mem s.mbiAddr ts) ≤ 2 ^ 32 := by
  have h := totalLength_le hs.apart (List.forall_mem_cons.mpr
    ⟨hs.space, fun r hr => Nat.le_of_lt (moduleRanges_lt s.mem s.mbiAddr ts r hr)⟩)
  rw [totalLength_cons] at h
  omega

theorem WellFormed.size_pos {s : BootInfo} {ts : List ℕ} (hs : WellFormed s ts) : 16 ≤ mbisize s := by
  have htags := hs.tags
  cases ts with
  | nil => exact htags.1
  | cons t ts =>
    obtain ⟨rfl, ho, -⟩ := htags
    exact ho

/-! ## The whole function -/

/-- The state between the two moves: the block is at `B`. -/
def blockMoved (s : BootInfo) (B maxsize : ℕ) : BootInfo where
  mem := move s.mem B s.mbiAddr (mbisize s)
  mbiAddr := B
  bootmem := ⟨B, blockEnd B (mbisize s), maxsize⟩
  modTable := s.modTable

theorem mbisize_bootmem (s : BootInfo) (b : BootmemInfo) : mbisize { s with bootmem := b } = mbisize s := by
  unfold mbisize
  rfl

theorem multiboot2Relocate_run (newMbi : ℕ) (s : BootInfo) : multiboot2Relocate newMbi s =
    .ok () { s with mem := move s.mem newMbi s.mbiAddr (mbisize s), mbiAddr := newMbi } := by
  unfold multiboot2Relocate
  rw [Prog.modify_run, Libc.memcpy_eq_move, mbisize]

theorem mbisize_moved {s : BootInfo} {newMbi : ℕ} (hs : 4 ≤ mbisize s) :
    u32 (move s.mem newMbi s.mbiAddr (mbisize s)) newMbi = mbisize s :=
  u32_same (o := 0) load_move_self hs

theorem setBootmemAt_ok {fuel start len bootimageEnd : ℕ} {s s' : BootInfo} {ts : List ℕ} (hs : WellFormed s ts)
    (hrun : setBootmemAt fuel start len bootimageEnd s = .ok .ok s') :
    (∀ r ∈ moduleRanges s.mem s.mbiAddr ts, r.2 ≤ bootmemStart start len bootimageEnd) ∧
      ∃ maxsize, multiboot2RelocateModules fuel (blockMoved s (bootmemStart start len bootimageEnd) maxsize) =
        .ok () s' := by
  unfold setBootmemAt at hrun
  generalize bootmemStart start len bootimageEnd = B at hrun ⊢
  generalize (start + len + wordSize - B) % wordSize = maxsize at hrun
  split at hrun
  · cases hrun
  · obtain ⟨_, s₁, hset, hrun⟩ := Prog.bind_ok.mp hrun
    obtain rfl : s₁ = { s with bootmem := ⟨B, B, maxsize⟩ } := by
      cases hset
      rfl
    obtain ⟨_, s₂, hcheck, hrun⟩ := Prog.bind_ok.mp hrun
    obtain ⟨rfl, hle⟩ := checkModuleoverlapFrom_ok hcheck hs.tags
    obtain ⟨_, s₃, hmove, hrun⟩ := Prog.bind_ok.mp hrun
    rw [multiboot2Relocate_run, mbisize_bootmem] at hmove
    obtain rfl : s₃ = ⟨move s.mem B s.mbiAddr (mbisize s), B, ⟨B, B, maxsize⟩, s.modTable⟩ := by
      cases hmove
      rfl
    obtain ⟨_, s₄, htop, hrun⟩ := Prog.bind_ok.mp hrun
    have hs₄ : s₄ = ⟨move s.mem B s.mbiAddr (mbisize s), B,
        ⟨B, blockEnd B (u32 (move s.mem B s.mbiAddr (mbisize s)) B), maxsize⟩, s.modTable⟩ := by
      cases htop
      rfl
    rw [mbisize_moved (Nat.le_trans (by decide) hs.size_pos)] at hs₄
    obtain ⟨_, s₅, hmods, hrun⟩ := Prog.bind_ok.mp hrun
    cases hrun
    refine ⟨hle, maxsize, ?_⟩
    rw [blockMoved, ← hs₄]
    exact hmods

theorem setBootmemAt_run {fuel start len bootimageEnd : ℕ} {s s' : BootInfo} {ts : List ℕ} (hs : WellFormed s ts)
    (himage : ¬(startsAtStartmb start len ∧ bootimageEnd ≥ bootmemStartmb * 1024 * 1024))
    {B maxsize : ℕ} (hB : bootmemStart start len bootimageEnd = B)
    (hmaxsize : (start + len + wordSize - B) % wordSize = maxsize)
    (hcheck : multiboot2CheckModuleoverlap fuel B { s with bootmem := ⟨B, B, maxsize⟩ } =
      .ok () { s with bootmem := ⟨B, B, maxsize⟩ })
    (hmods : multiboot2RelocateModules fuel (blockMoved s B maxsize) = .ok () s') :
    setBootmemAt fuel start len bootimageEnd s = .ok .ok s' := by
  unfold setBootmemAt
  rw [if_neg himage, hB, hmaxsize]
  refine Prog.bind_ok.mpr ⟨(), { s with bootmem := ⟨B, B, maxsize⟩ }, rfl, ?_⟩
  refine Prog.bind_ok.mpr ⟨(), _, hcheck, ?_⟩
  refine Prog.bind_ok.mpr ⟨(), ⟨move s.mem B s.mbiAddr (mbisize s), B, ⟨B, B, maxsize⟩, s.modTable⟩, ?_, ?_⟩
  · rw [multiboot2Relocate_run, mbisize_bootmem]
  refine Prog.bind_ok.mpr ⟨(), blockMoved s B maxsize, ?_, ?_⟩
  · rw [Prog.modify_run, blockMoved]
    have hsize : u32 (move s.mem B s.mbiAddr (mbisize s)) B = mbisize s :=
      mbisize_moved (Nat.le_trans (by decide) hs.size_pos)
    simp only [hsize]
  · exact Prog.bind_ok.mpr ⟨(), s', hmods, rfl⟩

/-- A block that ends below 4 GiB is followed by its end; any other leaves room below it for all modules. -/
theorem blockEnd_cases {B n total : ℕ} (hn : n + total ≤ 2 ^ 32) :
    (B + n < 2 ^ 32 ∧ blockEnd B n = B + n) ∨ (¬B + n < 2 ^ 32 ∧ blockEnd B n + total ≤ B) := by
  unfold blockEnd
  omega

theorem WellFormed.moved {s s' : BootInfo} {ts : List ℕ} {fuel B maxsize : ℕ} (hs : WellFormed s ts)
    (hrun : multiboot2RelocateModules fuel (blockMoved s B maxsize) = .ok () s') :
    ∃ es, Moved (blockMoved s B maxsize) s' (moduleRanges s.mem s.mbiAddr ts) es := by
  have hblock : load s.mem s.mbiAddr (mbisize s) = load (blockMoved s B maxsize).mem B (mbisize s) :=
    load_move_self.symm
  have hranges := moduleRanges_same hs.tags hblock
  have hcases := blockEnd_cases (B := B) hs.total_le
  have hordered := hs.ordered
  have htop : (blockMoved s B maxsize).bootmem.heaptop = blockEnd B (mbisize s) := rfl
  have hend : blockEnd B (mbisize s) < 2 ^ 32 := Nat.mod_lt _ (by decide)
  have htotal := hs.total_le
  rw [hranges] at hordered hcases htotal ⊢
  refine relocateModulesFrom_moved hrun (hs.tags.same hblock) hordered ?_ ?_
  · rw [htop]
    omega
  · rw [htop]
    omega

theorem Moved.preserved {s s' : BootInfo} {ts : List ℕ} {B maxsize : ℕ} {es : List ModuleEntry} (hs : WellFormed s ts)
    (hmoved : Moved (blockMoved s B maxsize) s' (moduleRanges s.mem s.mbiAddr ts) es)
    (hle : ∀ r ∈ moduleRanges s.mem s.mbiAddr ts, r.2 ≤ B) (hend : blockEnd B (mbisize s) = B + mbisize s) :
    Preserved s s' (moduleRanges s.mem s.mbiAddr ts) := by
  have hstart : (blockMoved s B maxsize).bootmem.heaptop = B + mbisize s := hend
  have hmbi : s'.mbiAddr = B := hmoved.mbiAddr
  have haddr : s'.bootmem.addr = B := hmoved.addr
  have htop := hmoved.heaptop
  have hpositions := hmoved.ranges
  have hcontent := hmoved.content
  rw [hstart] at htop hpositions hcontent
  have htable : s'.modTable = es := by
    rw [hmoved.table, show (blockMoved s B maxsize).modTable = [] from hs.unregistered, List.nil_append]
  have hrelocated : relocated s' (mbisize s) =
      (B, B + mbisize s) :: placements (B + mbisize s) (moduleRanges s.mem s.mbiAddr ts) := by
    rw [← hpositions, relocated, hmbi, htable]
    rfl
  refine ⟨?_, ?_, ?_, ?_, ?_⟩
  · rw [hmbi, hmoved.load_before (.inl (Nat.le_of_eq hstart.symm))]
    exact load_move_self
  · -- the sources end before the block's new place, so that its copy left them alone
    rw [htable]
    have hboth := (List.forall₂_and_left _ _).mpr ⟨hle, hcontent fun r hr => Nat.le_add_right_of_le (hle r hr)⟩
    refine hboth.imp ?_
    rintro r e ⟨hr, hlen, hload⟩
    refine ⟨hlen, ?_⟩
    rw [hload]
    refine load_eq_load.mpr fun i hi => move_outside (.inl ?_)
    omega
  · rw [hrelocated]
    exact placements_apart
  · rw [hrelocated, haddr, htop]
    intro r hr
    rcases List.mem_cons.mp hr with rfl | hr
    · exact ⟨Nat.le_refl B, Nat.le_add_right _ _⟩
    · obtain ⟨h₁, h₂⟩ := placements_within r hr
      exact ⟨by omega, h₂⟩
  · rw [hrelocated, placements_last, htop]

/-- `heaptop` ends below the block when the modules were put there. -/
theorem Moved.not_preserved {s s' : BootInfo} {ts : List ℕ} {B maxsize : ℕ} {es : List ModuleEntry}
    (hs : WellFormed s ts) (hmoved : Moved (blockMoved s B maxsize) s' (moduleRanges s.mem s.mbiAddr ts) es)
    (hbelow : blockEnd B (mbisize s) + totalLength (moduleRanges s.mem s.mbiAddr ts) ≤ B) :
    ¬Preserved s s' (moduleRanges s.mem s.mbiAddr ts) := by
  intro hpreserved
  have hinside : s'.mbiAddr + mbisize s ≤ s'.bootmem.heaptop := (hpreserved.inside _ List.mem_cons_self).2
  have hmbi : s'.mbiAddr = B := hmoved.mbiAddr
  have htop : s'.bootmem.heaptop = blockEnd B (mbisize s) + totalLength (moduleRanges s.mem s.mbiAddr ts) :=
    hmoved.heaptop
  have hpos := hs.size_pos
  omega

/-- The bytes survive exactly when the block ends below 4 GiB. -/
theorem boot_relocation_preserves {fuel bootimageEnd : ℕ} {s s' : BootInfo} {ts : List ℕ} (hs : WellFormed s ts)
    (hrun : multiboot2SetBootmem fuel bootimageEnd s = .ok .ok s') :
    ∃ B, BootmemChoice s ts bootimageEnd B ∧
      (Preserved s s' (moduleRanges s.mem s.mbiAddr ts) ↔ B + mbisize s < 2 ^ 32) := by
  obtain ⟨found, s₁, htag, hrun⟩ := Prog.bind_ok.mp hrun
  obtain ⟨rfl, hfound⟩ := gettagFrom_eq htag hs.tags
  cases hfind : ts.find? (fun t => tagType s₁.mem (s₁.mbiAddr + t) = multibootTagTypeMmap) with
  | none =>
    rw [hfind] at hfound
    subst hfound
    cases hrun
  | some o =>
    rw [hfind] at hfound
    subst hfound
    obtain ⟨i, -, hbefore, hreached, husable, hrun⟩ := setBootmemFrom_ok hrun
    obtain ⟨hle, maxsize, hmods⟩ := setBootmemAt_ok hs hrun
    refine ⟨_, ⟨o, i, hfind, fun j hj => hbefore j (Nat.zero_le j) hj, fun j hj => hreached j (Nat.zero_le j) hj,
      husable, rfl⟩, ?_⟩
    obtain ⟨es, hmoved⟩ := hs.moved hmods
    rcases blockEnd_cases (B := bootmemStart _ _ _) hs.total_le with ⟨hlt, hend⟩ | ⟨hge, hbelow⟩
    · exact ⟨fun _ => hlt, fun _ => hmoved.preserved hs hle hend⟩
    · exact ⟨fun hpreserved => absurd hpreserved (hmoved.not_preserved hs hbelow), fun hlt => absurd hlt hge⟩

/-- A block of 80 bytes at `0x8000` with one module of four bytes, and 7 MB of memory from 1 MB on. -/
def sampleBoot : BootInfo where
  mem := store (store (fun _ => 0) 0x8000
    [80, 0, 0, 0, 0, 0, 0, 0,
      3, 0, 0, 0, 18, 0, 0, 0, 0, 0x90, 0, 0, 4, 0x90, 0, 0, 109, 0, 0, 0, 0, 0, 0, 0,
      6, 0, 0, 0, 40, 0, 0, 0, 24, 0, 0, 0, 0, 0, 0, 0,
      0, 0, 0x10, 0, 0, 0, 0, 0, 0, 0, 0x70, 0, 0, 0, 0, 0, 1, 0, 0, 0, 0, 0, 0, 0,
      0, 0, 0, 0, 8, 0, 0, 0]) 0x9000 [1, 2, 3, 4]
  mbiAddr := 0x8000
  bootmem := ⟨0, 0, 0⟩
  modTable := []

theorem sampleBoot_mods : moduleRanges sampleBoot.mem sampleBoot.mbiAddr [8, 32] = [(0x9000, 0x9004)] := by
  decide

theorem sampleBoot_wellFormed : WellFormed sampleBoot [8, 32] where
  tags := by
    refine ⟨rfl, ?_, ?_, ?_, ?_, ?_, ?_, ?_, ?_, ?_⟩
    all_goals decide
  space := by decide
  ordered := by
    rw [sampleBoot_mods]
    decide
  apart := by
    rw [sampleBoot_mods]
    have hfirst : Apart (sampleBoot.mbiAddr, sampleBoot.mbiAddr + mbisize sampleBoot) (0x9000, 0x9004) :=
      apart_of_le (by decide)
    exact List.pairwise_cons.mpr
      ⟨fun r hr => by rw [List.mem_singleton.mp hr]; exact hfirst, List.pairwise_singleton _ _⟩
  unregistered := rfl

theorem boot_relocation_sample : ∃ s', multiboot2SetBootmem 4 0x200000 sampleBoot = .ok .ok s' ∧
    ∃ B, BootmemChoice sampleBoot [8, 32] 0x200000 B ∧
      (Preserved sampleBoot s' (moduleRanges sampleBoot.mem sampleBoot.mbiAddr [8, 32]) ↔
        B + mbisize sampleBoot < 2 ^ 32) := by
  obtain ⟨s', hrun⟩ := Outcome.exists_of_value (a := BootResult.ok) (x := multiboot2SetBootmem 4 0x200000 sampleBoot)
    (by decide +kernel)
  exact ⟨s', hrun, boot_relocation_preserves sampleBoot_wellFormed hrun⟩

/-- A block of `0xFF000000` bytes at `0x10000`, and 4 GB of memory from 1 MB on. -/
def largeBoot : BootInfo where
  mem := store (fun _ => 0) 0x10000
    [0, 0, 0, 0xFF, 0, 0, 0, 0,
      6, 0, 0, 0, 40, 0, 0, 0, 24, 0, 0, 0, 0, 0, 0, 0,
      0, 0, 0x10, 0, 0, 0, 0, 0, 0, 0, 0, 0, 1, 0, 0, 0, 1, 0, 0, 0, 0, 0, 0, 0,
      9, 0, 0, 0, 0xC8, 0xFF, 0xFF, 0xFE]
  mbiAddr := 0x10000
  bootmem := ⟨0, 0, 0⟩
  modTable := []

theorem largeBoot_mods : moduleRanges largeBoot.mem largeBoot.mbiAddr [8, 48] = [] := by
  decide

theorem largeBoot_size : mbisize largeBoot = 0xFF000000 := by
  decide

theorem largeBoot_wellFormed : WellFormed largeBoot [8, 48] where
  tags := by
    rw [largeBoot_size]
    refine ⟨rfl, ?_, ?_, ?_, ?_, ?_, ?_, ?_, ?_, ?_⟩
    all_goals decide
  space := by
    rw [largeBoot_size]
    decide
  ordered := by
    rw [largeBoot_mods]
    exact fun r hr => nomatch hr
  apart := by
    rw [largeBoot_mods]
    exact List.pairwise_singleton _ _
  unregistered := rfl

theorem largeBoot_runs : ∃ s' maxsize, multiboot2SetBootmem 4 0x200000 largeBoot = .ok .ok s' ∧
    multiboot2RelocateModules 4 (blockMoved largeBoot 0x1000000 maxsize) = .ok () s' := by
  obtain ⟨s', hmods⟩ := Outcome.exists_of_value (a := ())
    (x := multiboot2RelocateModules 4 (blockMoved largeBoot 0x1000000 0xFF100000)) (by decide)
  refine ⟨s', 0xFF100000, ?_, hmods⟩
  have hstart : entryAddr largeBoot.mem 0x10008 0 = 0x100000 := by decide
  have hlen : entryLen largeBoot.mem 0x10008 0 = 0x100000000 := by decide
  have hgettag : multiboot2Gettag 4 multibootTagTypeMmap largeBoot = .ok (some 0x10008) largeBoot := by
    obtain ⟨s₁, htag⟩ := Outcome.exists_of_value (a := some 0x10008)
      (x := multiboot2Gettag 4 multibootTagTypeMmap largeBoot) (by decide)
    rw [htag, (gettagFrom_eq htag largeBoot_wellFormed.tags).1]
  refine Prog.bind_ok.mpr ⟨_, _, hgettag, ?_⟩
  simp only [setBootmemFrom, if_pos (show entryReached largeBoot.mem 0x10008 0 by decide),
    if_pos (show entryUsable largeBoot.mem 0x10008 0 by decide), hstart, hlen]
  refine setBootmemAt_run largeBoot_wellFormed (by decide) (B := 0x1000000) (by decide) (by decide) ?_
    hmods
  obtain ⟨s₁, hcheck⟩ := Outcome.exists_of_value (a := ())
    (x := multiboot2CheckModuleoverlap 4 0x1000000 { largeBoot with bootmem := ⟨0x1000000, 0x1000000, 0xFF100000⟩ })
    (by decide)
  rw [hcheck, (checkModuleoverlapFrom_ok hcheck largeBoot_wellFormed.tags).1]

theorem relocated_block_above_heaptop : ∃ s', multiboot2SetBootmem 4 0x200000 largeBoot = .ok .ok s' ∧
    WellFormed largeBoot [8, 48] ∧ ¬Preserved largeBoot s' (moduleRanges largeBoot.mem largeBoot.mbiAddr [8, 48]) := by
  obtain ⟨s', maxsize, hrun, hmods⟩ := largeBoot_runs
  obtain ⟨es, hmoved⟩ := largeBoot_wellFormed.moved hmods
  refine ⟨s', hrun, largeBoot_wellFormed, hmoved.not_preserved largeBoot_wellFormed ?_⟩
  rw [largeBoot_mods, largeBoot_size]
  decide

end Borgos.Boot
