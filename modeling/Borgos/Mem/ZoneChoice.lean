import Borgos.Mem.BootSpec

/-! # Which entry becomes the NORMAL zone

`phys_init` goes once through the memory map. It keeps one entry for the NORMAL zone and one for `PFN_MAX`. The
comparison that should keep the largest entry keeps the smaller one, and the address test looks at the entry kept so
far.
-/
namespace Borgos.Mem
open Borgos.Foundations Borgos.Kcore
set_option autoImplicit false

/-- `normaltop`. -/
def normaltop : ℕ := 4 * 1024 * 1024 * 1024

/-- The entries the search looks at. -/
def MemmapEntry.large (e : MemmapEntry) : Bool := e.type = .FREE ∧ e.size > 1024 * 1024

def largeFree (memmap : List MemmapEntry) : List MemmapEntry := memmap.filter MemmapEntry.large

theorem largeFree_cons_pos {e : MemmapEntry} (he : e.type = .FREE ∧ e.size > 1024 * 1024) (es : List MemmapEntry) :
    largeFree (e :: es) = e :: largeFree es := List.filter_cons_of_pos (decide_eq_true he)

theorem largeFree_cons_neg {e : MemmapEntry} (he : ¬(e.type = .FREE ∧ e.size > 1024 * 1024)) (es : List MemmapEntry) :
    largeFree (e :: es) = largeFree es := List.filter_cons_of_neg fun h => he (of_decide_eq_true h)

theorem mem_largeFree {e : MemmapEntry} {es : List MemmapEntry} :
    e ∈ largeFree es ↔ e ∈ es ∧ e.type = .FREE ∧ e.size > 1024 * 1024 := by
  simp [largeFree, MemmapEntry.large]

/-- The entry kept for the NORMAL zone after one more entry. -/
def keepNormal (l ptr : MemmapEntry) : MemmapEntry := if ptr.size < l.size ∧ l.addr < normaltop then ptr else l

/-- The entry kept for `PFN_MAX`. -/
def keepTop (t ptr : MemmapEntry) : MemmapEntry := if ptr.addr > t.addr then ptr else t

theorem chooseEntry_foldl (es : List MemmapEntry) (l t : MemmapEntry) :
    es.foldl chooseEntry (some l, some t) =
      (some ((largeFree es).foldl keepNormal l), some ((largeFree es).foldl keepTop t)) := by
  induction es generalizing l t with
  | nil => rfl
  | cons e es ih =>
    by_cases he : e.type = .FREE ∧ e.size > 1024 * 1024
    · have hstep : chooseEntry (some l, some t) e = (some (keepNormal l e), some (keepTop t e)) := by
        unfold chooseEntry keepNormal keepTop normaltop
        simp only [if_pos he]
        split_ifs <;> rfl
      rw [List.foldl_cons, hstep, ih, largeFree_cons_pos he, List.foldl_cons, List.foldl_cons]
    · rw [List.foldl_cons, chooseEntry, if_neg he, ih, largeFree_cons_neg he]

theorem chosen_eq (es : List MemmapEntry) {f : MemmapEntry} {rest : List MemmapEntry} (h : largeFree es = f :: rest) :
    es.foldl chooseEntry (none, none) = (some (rest.foldl keepNormal f), some (rest.foldl keepTop f)) := by
  induction es with
  | nil => exact absurd h (by simp [largeFree])
  | cons e es ih =>
    by_cases he : e.type = .FREE ∧ e.size > 1024 * 1024
    · rw [largeFree_cons_pos he] at h
      obtain ⟨rfl, rfl⟩ := List.cons.inj h
      rw [List.foldl_cons, chooseEntry, if_pos he]
      exact chooseEntry_foldl es e e
    · rw [largeFree_cons_neg he] at h
      rw [List.foldl_cons, chooseEntry, if_neg he]
      exact ih h

/-! ## What is kept -/

/-- The first entry stays, or a smaller one replaces it. -/
theorem keepNormal_foldl (rest : List MemmapEntry) (f : MemmapEntry) :
    (rest.foldl keepNormal f = f ∧ (f.addr < normaltop → ∀ e ∈ rest, f.size ≤ e.size)) ∨
      (f.addr < normaltop ∧ (rest.foldl keepNormal f).size < f.size) := by
  induction rest generalizing f with
  | nil => exact .inl ⟨rfl, fun _ _ he => absurd he List.not_mem_nil⟩
  | cons e rest ih =>
    rw [List.foldl_cons]
    by_cases hless : e.size < f.size ∧ f.addr < normaltop
    · right
      rw [keepNormal, if_pos hless]
      refine ⟨hless.2, ?_⟩
      rcases ih e with ⟨heq, -⟩ | ⟨-, hlt⟩
      · rw [heq]
        exact hless.1
      · exact hlt.trans hless.1
    · rw [keepNormal, if_neg hless]
      rcases ih f with ⟨heq, hall⟩ | hlt
      · left
        refine ⟨heq, fun haddr => List.forall_mem_cons.mpr ⟨?_, hall haddr⟩⟩
        by_contra hsize
        exact hless ⟨not_le.mp hsize, haddr⟩
      · exact .inr hlt

theorem keepNormal_mem (rest : List MemmapEntry) (f : MemmapEntry) : rest.foldl keepNormal f ∈ f :: rest := by
  induction rest generalizing f with
  | nil => exact List.mem_singleton_self f
  | cons e rest ih =>
    rw [List.foldl_cons]
    by_cases hless : e.size < f.size ∧ f.addr < normaltop
    · rw [keepNormal, if_pos hless]
      exact List.mem_cons_of_mem _ (ih e)
    · rw [keepNormal, if_neg hless]
      rcases List.mem_cons.mp (ih f) with heq | hrest
      · exact List.mem_cons.mpr (.inl heq)
      · exact List.mem_cons_of_mem _ (List.mem_cons_of_mem _ hrest)

/-- The first entry that no other one lies above is kept. -/
theorem keepTop_foldl (rest : List MemmapEntry) (f : MemmapEntry) :
    ∃ before after, f :: rest = before ++ rest.foldl keepTop f :: after ∧
      (∀ e ∈ before, e.addr < (rest.foldl keepTop f).addr) ∧ ∀ e ∈ after, e.addr ≤ (rest.foldl keepTop f).addr := by
  induction rest generalizing f with
  | nil => exact ⟨[], [], rfl, List.forall_mem_nil _, List.forall_mem_nil _⟩
  | cons e rest ih =>
    rw [List.foldl_cons]
    by_cases habove : e.addr > f.addr
    · rw [keepTop, if_pos habove]
      obtain ⟨before, after, hsplit, hbefore, hafter⟩ := ih e
      refine ⟨f :: before, after, by rw [hsplit, List.cons_append], List.forall_mem_cons.mpr ⟨?_, hbefore⟩, hafter⟩
      have hle : e.addr ≤ (rest.foldl keepTop e).addr := by
        have hmem : e ∈ before ++ rest.foldl keepTop e :: after := hsplit ▸ List.mem_cons_self
        rcases List.mem_append.mp hmem with hin | hin
        · exact (hbefore e hin).le
        · rcases List.mem_cons.mp hin with heq | hin
          · exact (congrArg MemmapEntry.addr heq).le
          · exact hafter e hin
      exact lt_of_lt_of_le habove hle
    · rw [keepTop, if_neg habove]
      obtain ⟨before, after, hsplit, hbefore, hafter⟩ := ih f
      cases before with
      | nil =>
        obtain ⟨hf, hrest⟩ := List.cons.inj hsplit
        refine ⟨[], e :: after, by rw [List.nil_append, ← hf, hrest], List.forall_mem_nil _,
          List.forall_mem_cons.mpr ⟨?_, hafter⟩⟩
        rw [← hf]
        exact not_lt.mp habove
      | cons g before =>
        obtain ⟨rfl, hrest⟩ := List.cons.inj hsplit
        obtain ⟨hlt, hbefore⟩ := List.forall_mem_cons.mp hbefore
        refine ⟨f :: e :: before, after, congrArg (fun xs => f :: e :: xs) hrest, ?_, hafter⟩
        exact List.forall_mem_cons.mpr ⟨hlt, List.forall_mem_cons.mpr ⟨lt_of_le_of_lt (not_lt.mp habove) hlt, hbefore⟩⟩

/-- The first of the FREE entries larger than 1 MiB that none of them lies above. -/
def highestLarge (memmap : List MemmapEntry) : Option MemmapEntry :=
  (largeFree memmap).find? fun e => (largeFree memmap).all fun e' => e'.addr ≤ e.addr

theorem highestLarge_eq {memmap : List MemmapEntry} {f : MemmapEntry} {rest : List MemmapEntry}
    (h : largeFree memmap = f :: rest) : highestLarge memmap = some (rest.foldl keepTop f) := by
  obtain ⟨before, after, hsplit, hbefore, hafter⟩ := keepTop_foldl rest f
  rw [highestLarge, h, hsplit, List.find?_eq_some_iff_append]
  refine ⟨?_, before, after, rfl, fun e he => ?_⟩
  · simp only [List.all_append, List.all_cons, Bool.and_eq_true, List.all_eq_true, decide_eq_true_eq]
    exact ⟨fun e he => (hbefore e he).le, le_rfl, hafter⟩
  · have hnot : ¬(rest.foldl keepTop f).addr ≤ e.addr := not_le.mpr (hbefore e he)
    simp [hnot]

/-! ## The choice -/

/-- `phys_init` goes on with the limits of these two entries. -/
def SetsLimits (b : BootInfo) (largestnormal top : MemmapEntry) : Prop :=
  ∀ s, physInit b s = (do
    let s ← Prog.get
    physPagemapInit b (s.pfnMax + 1)
    physFreepagesLow) (setLimits largestnormal top (physInitMemoryzones s))

theorem setsLimits_of_chosen {b : BootInfo} {l t : MemmapEntry}
    (h : b.memmap.foldl chooseEntry (none, none) = (some l, some t)) : SetsLimits b l t := by
  intro s
  unfold physInit
  rw [Prog.bind_run, Prog.modify_run, Outcome.andThen_ok, h]
  simp only
  rw [Prog.bind_run, Prog.modify_run, Outcome.andThen_ok]

/-- The last page of an entry, capped. -/
def MemmapEntry.topPfn (e : MemmapEntry) : ℕ := min (pagealignDown e.endAddr / pagesize) maxpgdPfn

/-- The last page of a FREE entry that no other one lies above. -/
def IsTopPfn (memmap : List MemmapEntry) (pfn : ℕ) : Prop :=
  ∃ e ∈ memmap, e.type = .FREE ∧ (∀ e' ∈ memmap, e'.type = .FREE → e'.addr ≤ e.addr) ∧ pfn = e.topPfn

/-- The NORMAL zone comes from a FREE entry below 4 GiB no other one exceeds, `PFN_MAX` from the highest FREE entry. -/
structure RightChoice (memmap : List MemmapEntry) (l : MemmapEntry) (pfnMax : ℕ) : Prop where
  mem : l ∈ memmap
  free : l.type = .FREE
  below : l.addr < normaltop
  largest : ∀ e ∈ memmap, e.type = .FREE → e.addr < normaltop → e.size ≤ l.size
  top : IsTopPfn memmap pfnMax

/-- What `phys_init` keeps is the right choice, and `PFN_MAX` the right page. -/
def ChoosesNormal (b : BootInfo) : Prop :=
  ∃ l t, b.memmap.foldl chooseEntry (none, none) = (some l, some t) ∧ SetsLimits b l t ∧
    ∀ s, RightChoice b.memmap l (setLimits l t s).pfnMax

/-- The first entry is the one to keep: it lies low, no other entry is smaller, and no other low entry is larger. -/
def FirstServes (memmap : List MemmapEntry) : Prop :=
  ∃ f rest, largeFree memmap = f :: rest ∧ f.addr < normaltop ∧
    ∀ e ∈ rest, f.size ≤ e.size ∧ (e.addr < normaltop → e.size ≤ f.size)

/-- The highest of the FREE entries larger than 1 MiB ends where `PFN_MAX` should be. -/
def TopServes (memmap : List MemmapEntry) : Prop := ∃ t, highestLarge memmap = some t ∧ IsTopPfn memmap t.topPfn

/-- It does where no FREE entry of at most 1 MiB lies above all the others. -/
theorem TopServes.of_large {memmap : List MemmapEntry} {t : MemmapEntry} (ht : highestLarge memmap = some t)
    (h : ∀ e ∈ memmap, e.type = .FREE → ∃ e' ∈ largeFree memmap, e.addr ≤ e'.addr) : TopServes memmap := by
  obtain ⟨hall, before, after, hsplit, -⟩ := List.find?_eq_some_iff_append.mp ht
  have hmem : t ∈ largeFree memmap := hsplit ▸ List.mem_append_right before List.mem_cons_self
  obtain ⟨hmap, hfree, -⟩ := mem_largeFree.mp hmem
  refine ⟨t, ht, t, hmap, hfree, fun e he htype => ?_, rfl⟩
  obtain ⟨e', he', hle⟩ := h e he htype
  exact hle.trans (of_decide_eq_true (List.all_eq_true.mp hall e' he'))

/-- 512 KiB at 16 GiB, above two large entries: `PFN_MAX` is capped all the same. -/
example : TopServes [⟨0x100000, 0x80000000, .FREE, by norm_num, by norm_num⟩,
    ⟨0x100000000, 0x80000000, .FREE, by norm_num, by norm_num⟩,
    ⟨0x400000000, 0x80000, .FREE, by norm_num, by norm_num⟩] :=
  ⟨_, rfl, _, List.mem_cons_of_mem _ (List.mem_cons_of_mem _ List.mem_cons_self), rfl, by decide, by decide⟩

/-- The choice is right exactly if the first entry larger than 1 MiB serves, and the highest of these. -/
theorem chooses_normal_iff (b : BootInfo)
    (h : ∃ e ∈ b.memmap, e.type = .FREE ∧ e.size > 1024 * 1024 ∧ e.addr < normaltop) :
    ChoosesNormal b ↔ FirstServes b.memmap ∧ TopServes b.memmap := by
  obtain ⟨f, rest, hlarge⟩ : ∃ f rest, largeFree b.memmap = f :: rest := by
    obtain ⟨e, he, hfree, hsize, -⟩ := h
    exact List.exists_cons_of_ne_nil (List.ne_nil_of_mem (mem_largeFree.mpr ⟨he, hfree, hsize⟩))
  have hchosen := chosen_eq b.memmap hlarge
  have hmem : ∀ e, e ∈ f :: rest ↔ e ∈ b.memmap ∧ e.type = .FREE ∧ e.size > 1024 * 1024 := by
    intro e
    rw [← hlarge, mem_largeFree]
  have htop := highestLarge_eq hlarge
  constructor
  · rintro ⟨l, t, hlt, -, hchoice⟩
    have hright := hchoice powerOn
    obtain ⟨rfl, rfl⟩ : rest.foldl keepNormal f = l ∧ rest.foldl keepTop f = t := by
      rw [hchosen] at hlt
      simpa using hlt
    obtain ⟨hf, hftype, -⟩ := (hmem f).mp List.mem_cons_self
    constructor
    · rcases keepNormal_foldl rest f with ⟨heq, hsmall⟩ | ⟨hbelow, hlt⟩
      · rw [heq] at hright
        refine ⟨f, rest, hlarge, hright.below, fun e he => ⟨hsmall hright.below e he, fun hlow => ?_⟩⟩
        obtain ⟨hmap, htype, -⟩ := (hmem e).mp (List.mem_cons_of_mem _ he)
        exact hright.largest e hmap htype hlow
      · exact absurd (hright.largest f hf hftype hbelow) (not_le.mpr hlt)
    · exact ⟨_, htop, hright.top⟩
  · rintro ⟨⟨f', rest', hlarge', hbelow, hall⟩, t, ht, htopPfn⟩
    obtain rfl := Option.some.inj (htop.symm.trans ht)
    obtain ⟨rfl, rfl⟩ := List.cons.inj (hlarge.symm.trans hlarge')
    have hkept : rest.foldl keepNormal f = f := by
      rcases keepNormal_foldl rest f with ⟨heq, -⟩ | ⟨-, hlt⟩
      · exact heq
      · rcases List.mem_cons.mp (keepNormal_mem rest f) with heq | hrest
        · exact heq
        · exact absurd (hall _ hrest).1 (not_le.mpr hlt)
    rw [hkept] at hchosen
    obtain ⟨hf, hftype, hfsize⟩ := (hmem f).mp List.mem_cons_self
    refine ⟨f, _, hchosen, setsLimits_of_chosen hchosen, fun s => ⟨hf, hftype, hbelow, ?_, htopPfn⟩⟩
    intro e he htype hlow
    by_cases hsize : e.size > 1024 * 1024
    · rcases List.mem_cons.mp ((hmem e).mpr ⟨he, htype, hsize⟩) with rfl | hrest
      · exact le_rfl
      · exact (hall e hrest).2 hlow
    · exact (not_lt.mp hsize).trans hfsize.le

theorem chooses_normal_iff_twoBanks :
    ChoosesNormal twoBanks ↔ FirstServes twoBanks.memmap ∧ TopServes twoBanks.memmap :=
  chooses_normal_iff twoBanks ⟨highBank, by simp [twoBanks], rfl, by decide, by decide⟩

/-! ## A map with a small bank and a large one -/

/-- 110 MiB from 16 MiB on. -/
def mainBank : MemmapEntry := ⟨0x1000000, 0x6e00000, .FREE, by norm_num, by norm_num⟩

def smallBankFirst : BootInfo := ⟨[highBank, mainBank], 0x100000, 0x13ffff⟩

/-- 2 MiB become the NORMAL zone although 110 MiB are there. -/
theorem small_bank_chosen :
    (∃ e ∈ smallBankFirst.memmap, e.type = .FREE ∧ e.size > 1024 * 1024 ∧ e.addr < normaltop) ∧
      ¬ChoosesNormal smallBankFirst := by
  refine ⟨⟨highBank, by simp [smallBankFirst], rfl, by decide, by decide⟩, ?_⟩
  rintro ⟨l, t, hchosen, -, hchoice⟩
  have hright := hchoice powerOn
  have hlarge : largeFree smallBankFirst.memmap = [highBank, mainBank] := rfl
  have hkept : [mainBank].foldl keepNormal highBank = highBank := rfl
  rw [chosen_eq _ hlarge, hkept] at hchosen
  obtain rfl : highBank = l := by simpa using congrArg Prod.fst hchosen
  exact absurd (hright.largest mainBank (by simp [smallBankFirst]) rfl (by decide)) (by decide)

end Borgos.Mem
