import Borgos.Boot.Multiboot2
import Borgos.Libc.Str

/-! # `module.c`: the registry of boot modules

`mod_table` is a fixed table of entries with a name field of fixed size. The registry remembers the stores into the
table; an index beyond it stands for the memory behind it.
-/
namespace Borgos.Kcore
open Borgos.Foundations Borgos.Libc FlatMemory
open Borgos.Boot (modTableSize)
set_option autoImplicit false

def modNameSize : ℕ := 32

structure TableEntry where
  modStart : ℕ
  modEnd : ℕ
  modName : ℕ → Libc.Byte

inductive TableStore where
  | modStart (i : ℕ)
  | modEnd (i : ℕ)
  | modName (i offset : ℕ)
deriving DecidableEq

def TableStore.Inside : TableStore → Prop
  | modStart i => i < modTableSize
  | modEnd i => i < modTableSize
  | modName i offset => i < modTableSize ∧ offset < modNameSize

structure Registry where
  modTable : ℕ → TableEntry
  modulesCount : ℕ
  stores : List TableStore

/-- What one call of `module_add` is given. -/
structure Module where
  start : ℕ
  stop : ℕ
  name : CString

def moduleAdd (r : Registry) (m : Module) : Registry :=
  let mod := r.modulesCount
  let name := (strlcpy ⟨(r.modTable mod).modName, []⟩ m.name modNameSize).2
  { modTable := Function.update r.modTable mod ⟨m.start, m.stop, name.cells⟩
    modulesCount := r.modulesCount + 1
    stores := r.stores ++ ([.modStart mod, .modEnd mod] ++ name.stored.map (.modName mod)) }

/-- The entry found, as its index in `mod_table`. -/
def moduleGet (r : Registry) (name : CString) : Option ℕ :=
  (List.range r.modulesCount).find? fun i => strcmp (r.modTable i).modName name = 0

/-- The table before the first call, with zeros in it. -/
def emptyRegistry : Registry := ⟨fun _ => ⟨0, 0, fun _ => 0⟩, 0, []⟩

def addAll (mods : List Module) : Registry := mods.foldl moduleAdd emptyRegistry

/-! ## One call -/

/-- The table holds the modules in the order of the calls, with as much of each name as fits its field. -/
structure Represents (r : Registry) (mods : List Module) : Prop where
  count : r.modulesCount = mods.length
  bounds : ∀ i m, mods[i]? = some m → (r.modTable i).modStart = m.start ∧ (r.modTable i).modEnd = m.stop
  names : ∀ i m, mods[i]? = some m → Holds (r.modTable i).modName (m.name.truncate (modNameSize - 1))
  stores : ∀ x ∈ r.stores, mods.length ≤ modTableSize → x.Inside

theorem represents_empty : Represents emptyRegistry [] := by
  constructor <;> simp [emptyRegistry]

theorem Represents.add {r : Registry} {mods : List Module} (h : Represents r mods) (m : Module) :
    Represents (moduleAdd r m) (mods ++ [m]) := by
  have hcopied : Copied m.name modNameSize
      (strlcpy ⟨(r.modTable r.modulesCount).modName, []⟩ m.name modNameSize).2 := strlcpy_spec (by decide) rfl
  have hentry : ∀ i x, (mods ++ [m])[i]? = some x → i < mods.length ∧ mods[i]? = some x ∨ i = mods.length ∧ x = m := by
    intro i x hx
    rcases Nat.lt_trichotomy i mods.length with hlt | rfl | hgt
    · rw [List.getElem?_append_left hlt] at hx
      exact .inl ⟨hlt, hx⟩
    · simp at hx
      exact .inr ⟨rfl, hx.symm⟩
    · rw [List.getElem?_eq_none (by simp; omega)] at hx
      cases hx
  have hother : ∀ i, i < mods.length → (moduleAdd r m).modTable i = r.modTable i := by
    intro i hi
    have hne : i ≠ r.modulesCount := by
      rw [h.count]
      omega
    simp [moduleAdd, hne]
  constructor
  · simp [moduleAdd, h.count]
  · intro i x hx
    rcases hentry i x hx with ⟨hlt, hold⟩ | ⟨rfl, rfl⟩
    · rw [hother i hlt]
      exact h.bounds i x hold
    · simp [moduleAdd, h.count]
  · intro i x hx
    rcases hentry i x hx with ⟨hlt, hold⟩ | ⟨rfl, rfl⟩
    · rw [hother i hlt]
      exact h.names i x hold
    · simpa [moduleAdd, h.count] using hcopied.holds
  · intro x hx hroom
    have hlt : r.modulesCount < modTableSize := by
      rw [h.count]
      simpa using hroom
    simp only [moduleAdd, List.mem_append, List.mem_cons, List.mem_map, List.not_mem_nil, or_false] at hx
    rcases hx with hx | (rfl | rfl) | ⟨offset, hoffset, rfl⟩
    · apply h.stores x hx
      simp at hroom
      omega
    · exact hlt
    · exact hlt
    · exact ⟨hlt, hcopied.below offset hoffset⟩

/-! ## Every sequence of calls -/

theorem represents_addAll (mods : List Module) : Represents (addAll mods) mods := by
  induction mods using List.reverseRecOn with
  | nil => exact represents_empty
  | append_singleton mods m ih =>
    rw [addAll, List.foldl_append]
    exact ih.add m

/-- An entry is found by what is left of its name. -/
theorem moduleGet_addAll (mods : List Module) (name : CString) :
    moduleGet (addAll mods) name = mods.findIdx? fun m => m.name.truncate (modNameSize - 1) = name := by
  have h := represents_addAll mods
  have hcmp : ∀ i m, mods[i]? = some m →
      (strcmp ((addAll mods).modTable i).modName name = 0 ↔ m.name.truncate (modNameSize - 1) = name) := by
    intro i m hm
    rw [strcmp_eq_zero]
    constructor
    · intro hname
      exact (h.names i m hm).unique hname
    · rintro rfl
      exact h.names i m hm
  cases hfind : mods.findIdx? fun m => m.name.truncate (modNameSize - 1) = name with
  | none =>
    rw [List.findIdx?_eq_none_iff] at hfind
    unfold moduleGet
    rw [List.find?_eq_none, h.count]
    intro i hi
    have hlt := List.mem_range.mp hi
    have hne := hfind mods[i] (List.getElem_mem hlt)
    simpa [hcmp i mods[i] (List.getElem?_eq_getElem hlt)] using hne
  | some j =>
    obtain ⟨hlt, heq, hfirst⟩ := List.findIdx?_eq_some_iff_getElem.mp hfind
    unfold moduleGet
    rw [h.count, List.find?_range_eq_some]
    refine ⟨?_, List.mem_range.mpr hlt, ?_⟩
    · simpa [hcmp j mods[j] (List.getElem?_eq_getElem hlt)] using heq
    · intro i hi
      have hlti : i < mods.length := by omega
      simpa [hcmp i mods[i] (List.getElem?_eq_getElem hlti)] using hfirst i hi

/-- Every module is found by exactly its own name and with its own bounds, the first one where a name was added more
than once, and no store was outside of the table or of a name. -/
structure RegistryRight (mods : List Module) : Prop where
  found : ∀ name, moduleGet (addAll mods) name = mods.findIdx? fun m => m.name = name
  bounds : ∀ i m, mods[i]? = some m →
    ((addAll mods).modTable i).modStart = m.start ∧ ((addAll mods).modTable i).modEnd = m.stop
  inside : ∀ x ∈ (addAll mods).stores, x.Inside

/-- Stores are never taken back. -/
theorem stores_addAll_append (mods more : List Module) :
    ∀ x ∈ (addAll mods).stores, x ∈ (addAll (mods ++ more)).stores := by
  induction more using List.reverseRecOn with
  | nil => simp
  | append_singleton more m ih =>
    intro x hx
    rw [← List.append_assoc, addAll, List.foldl_append]
    exact List.mem_append_left _ (ih x hx)

theorem table_overrun {mods : List Module} (h : modTableSize < mods.length) :
    .modStart modTableSize ∈ (addAll mods).stores := by
  have hsplit : mods = mods.take modTableSize ++ [mods[modTableSize]] ++ mods.drop (modTableSize + 1) := by
    rw [List.take_append_getElem, List.take_append_drop]
  have hcount := (represents_addAll (mods.take modTableSize)).count
  rw [List.length_take, Nat.min_eq_left (Nat.le_of_lt h)] at hcount
  rw [hsplit]
  apply stores_addAll_append
  rw [addAll, List.foldl_append]
  simp only [List.foldl_cons, List.foldl_nil]
  change _ ∈ (moduleAdd (addAll (mods.take modTableSize)) _).stores
  simp [moduleAdd, hcount]

theorem findIdx?_congr_mem {mods : List Module} {p q : Module → Bool} (h : ∀ m ∈ mods, p m = q m) :
    mods.findIdx? p = mods.findIdx? q := by
  induction mods with
  | nil => rfl
  | cons m mods ih =>
    simp only [List.findIdx?_cons, h m List.mem_cons_self, ih fun x hx => h x (List.mem_cons_of_mem m hx)]

/-- A name that does not fit its field is never found again. -/
theorem long_name_lost {mods : List Module} {name : CString} (h : modNameSize ≤ name.length) :
    moduleGet (addAll mods) name = none := by
  rw [moduleGet_addAll, List.findIdx?_eq_none_iff]
  intro m hm
  rw [decide_eq_false_iff_not]
  intro heq
  have hlen := CString.length_truncate m.name (modNameSize - 1)
  rw [heq] at hlen
  unfold modNameSize at h hlen
  omega

theorem registry_right_iff (mods : List Module) :
    RegistryRight mods ↔ mods.length ≤ modTableSize ∧ ∀ m ∈ mods, m.name.length < modNameSize := by
  have hrep := represents_addAll mods
  constructor
  · intro h
    constructor
    · apply Nat.le_of_not_lt
      intro hlt
      exact absurd (h.inside _ (table_overrun hlt)) (Nat.lt_irrefl modTableSize)
    · intro m hm
      apply Nat.lt_of_not_le
      intro hlong
      have hfound := h.found m.name
      rw [long_name_lost hlong, eq_comm, List.findIdx?_eq_none_iff] at hfound
      exact absurd (hfound m hm) (by simp)
  · rintro ⟨hroom, hshort⟩
    refine ⟨?_, hrep.bounds, fun x hx => hrep.stores x hx hroom⟩
    intro name
    rw [moduleGet_addAll]
    apply findIdx?_congr_mem
    intro m hm
    have hlt := hshort m hm
    unfold modNameSize at hlt ⊢
    rw [CString.truncate_of_le (by omega)]

/-- Seventeen modules: the last is stored behind the table. -/
theorem seventeenth_module_behind_table :
    ¬ RegistryRight (List.replicate 17 ⟨0x1000, 0x2000, ⟨[0x61], by decide⟩⟩) := by
  intro h
  have hover : .modStart modTableSize ∈ (addAll (List.replicate 17 ⟨0x1000, 0x2000, ⟨[0x61], by decide⟩⟩)).stores :=
    table_overrun (by decide)
  exact absurd (h.inside _ hover) (Nat.lt_irrefl modTableSize)

/-! ## The calls of the boot loader's relocation -/

/-- The entries that the relocation of the boot modules keeps track of. -/
def Matches (mods : List Module) (entries : List Boot.ModuleEntry) : Prop :=
  entries = mods.map fun m => ⟨m.start, m.stop, (m.name.truncate (modNameSize - 1)).chars⟩

theorem takeWhile_load {mem : ℕ → Libc.Byte} {a n : ℕ} {name : CString} (h : Holds (fun i => mem (a + i)) name) :
    (load mem a n).takeWhile (· ≠ 0) = (name.truncate n).chars := by
  have hchars : load mem a (min n name.length) = (name.truncate n).chars := by
    apply List.ext_getElem
    · rw [length_load]
      exact (CString.length_truncate name n).symm
    · intro k hk hk'
      rw [length_load] at hk
      have hcell := h k (by omega)
      rw [← CString.get_truncate (n := n) (by omega), CString.get_of_lt hk'] at hcell
      simpa using hcell
  have hpos : ∀ c ∈ load mem a (min n name.length), (decide (c ≠ 0)) = true := by
    intro c hc
    rw [hchars] at hc
    rw [decide_eq_true_iff]
    rintro rfl
    exact (name.truncate n).noNul hc
  obtain ⟨k, hk⟩ := Nat.exists_eq_add_of_le (Nat.min_le_left n name.length)
  have hrest : (load mem (a + min n name.length) k).takeWhile (· ≠ 0) = [] := by
    cases k with
    | zero => rfl
    | succ k =>
      have hnul := h name.length le_rfl
      have hmin : min n name.length = name.length := by omega
      rw [CString.get_eq_zero_iff.mpr le_rfl] at hnul
      simp [load, List.range_succ_eq_map, hmin, hnul]
  have hsplit : load mem a n = load mem a (min n name.length) ++ load mem (a + min n name.length) k := by
    rw [← load_add, ← hk]
  rw [hsplit, List.takeWhile_append_of_pos hpos, hrest, List.append_nil, hchars]

/-- `module_add` as the relocation sees it. -/
theorem moduleAdd_matches {mods : List Module} {s : Boot.BootInfo} {m : Module} {a : ℕ}
    (hmods : Matches mods s.modTable) (hname : Holds (fun i => s.mem (a + i)) m.name)
    (hroom : mods.length < modTableSize) :
    ∃ s', Boot.moduleAdd m.start m.stop a s = .ok () s' ∧ Matches (mods ++ [m]) s'.modTable := by
  have hlen : s.modTable.length < modTableSize := by
    rw [hmods]
    simpa using hroom
  refine ⟨_, if_pos hlen, ?_⟩
  unfold Matches at hmods ⊢
  rw [hmods, takeWhile_load hname]
  simp [modNameSize]

end Borgos.Kcore
