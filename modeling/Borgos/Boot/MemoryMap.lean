import Borgos.Boot.Bootmem
import Borgos.Boot.TagWalk

/-! # `multiboot2_set_bootmem_map`

The memory map of the boot loader is copied to the boot heap. The size of a memory-map tag counts the 16 bytes of the
tag's own header: the number of entries is computed by a division, which drops them, but the loop runs as long as
`i * entry_size` is below the size. The model records which entries are read and what is stored where.
-/
namespace Borgos.Boot
open Borgos.Foundations Borgos.Mem FlatMemory
set_option autoImplicit false

/-- `enum BootMemType`. -/
inductive BootMemType where
  | free
  | reserved
  | acpiReclaimable
  | nvs
  | unknown
  | end_
deriving DecidableEq

def BootMemType.code : BootMemType → ℕ
  | free => 1
  | reserved => 2
  | acpiReclaimable => 3
  | nvs => 4
  | unknown => 99
  | end_ => 0

/-- The `switch` over the type of an entry. -/
def bootMemType : ℕ → BootMemType
  | 1 => .free
  | 2 => .reserved
  | 3 => .acpiReclaimable
  | 4 => .nvs
  | _ => .unknown

/-- The bytes of a number of `n` bytes, the low one first. -/
def toBytes (n v : ℕ) : List Byte := (List.range n).map fun i => BitVec.ofNat 8 (v / 256 ^ i)

/-- `bootmem_memmapentry`, the bytes that were asked for it, the entries read so far and the stores made so far. -/
structure MapBuild where
  info : BootInfo
  memmapentry : ℕ
  block : ℕ
  reads : List ℕ
  stores : List (ℕ × ℕ)

namespace MapBuild

/-- A store of `len` bytes at `offset` of the map. -/
def put (s : MapBuild) (offset len v : ℕ) : MapBuild :=
  { s with
    info := { s.info with mem := store s.info.mem (v2p (s.memmapentry + offset)) (toBytes len v) }
    stores := s.stores ++ [(s.memmapentry + offset, len)] }

section Fields
variable (s : MapBuild) (offset len v : ℕ)

theorem put_memmapentry : (s.put offset len v).memmapentry = s.memmapentry := by
  unfold put
  rfl

theorem put_block : (s.put offset len v).block = s.block := by
  unfold put
  rfl

theorem put_reads : (s.put offset len v).reads = s.reads := by
  unfold put
  rfl

theorem put_stores : (s.put offset len v).stores = s.stores ++ [(s.memmapentry + offset, len)] := by
  unfold put
  rfl

theorem put_mem :
    (s.put offset len v).info.mem = store s.info.mem (v2p (s.memmapentry + offset)) (toBytes len v) := by
  rw [put]

end Fields

/-- The entry `i` of the map: address, size and type. -/
def entry (s : MapBuild) (i : ℕ) : ℕ × ℕ × ℕ :=
  (u64 s.info.mem (v2p (s.memmapentry + 24 * i)), u64 s.info.mem (v2p (s.memmapentry + (24 * i + 8))),
    u32 s.info.mem (v2p (s.memmapentry + (24 * i + 16))))

end MapBuild

/-- The body of the loop. -/
def copyEntry (mmap i : ℕ) (s : MapBuild) : MapBuild :=
  let s₀ := { s with reads := s.reads ++ [i] }
  let s₁ := s₀.put (24 * i) 8 (entryAddr s₀.info.mem mmap i)
  let s₂ := s₁.put (24 * i + 8) 8 (entryLen s₁.info.mem mmap i)
  s₂.put (24 * i + 16) 4 (bootMemType (entryType s₂.info.mem mmap i)).code

/-- The loop from `i` on; it gives the index it stops at. -/
def mapLoop (mmap : ℕ) : ℕ → ℕ → Prog MapBuild ℕ
  | 0, _ => Prog.stuck
  | fuel + 1, i => fun s =>
    if entryReached s.info.mem mmap i then mapLoop mmap fuel (i + 1) (copyEntry mmap i s) else .ok i s

/-- A division by an `entry_size` of 0 traps. -/
def multiboot2SetBootmemMap (fuel : ℕ) : Prog MapBuild BootResult := do
  let mmaptag ← Prog.zoom MapBuild.info (fun info s => { s with info := info })
    (multiboot2Gettag fuel multibootTagTypeMmap)
  match mmaptag with
  | none => pure .error
  | some mmap => do
    let s ← Prog.get
    let entrySize := u32 s.info.mem (mmap + 8)
    if entrySize = 0 then Prog.stuck
    else do
      let entries := toInt (tagSize s.info.mem mmap / entrySize)
      let bootmemMapSize := toSize (entries + 1) * 24 % wordSize
      let ptr ← Prog.zoom (fun s => s.info.bootmem) (fun b s => { s with info := { s.info with bootmem := b } })
        (bootmemAlloc bootmemMapSize)
      Prog.modify fun s => { s with memmapentry := ptr, block := bootmemMapSize }
      let i ← mapLoop mmap fuel 0
      Prog.modify fun s => s.put (24 * i + 16) 4 BootMemType.end_.code
      pure .ok

/-- The map is the translation of the `n` entries of the tag at `mmap` in `mem` and the end entry; no other entry has
been read, and nothing has been stored outside of the block. -/
structure ExactMap (mem : Memory) (mmap n : ℕ) (t : MapBuild) : Prop where
  entries : ∀ i < n, t.entry i =
    (entryAddr mem mmap i, entryLen mem mmap i, (bootMemType (entryType mem mmap i)).code)
  ending : (t.entry n).2.2 = BootMemType.end_.code
  reads : ∀ i ∈ t.reads, i < n
  stores : ∀ w ∈ t.stores, t.memmapentry ≤ w.1 ∧ w.1 + w.2 ≤ t.memmapentry + t.block

/-! ## Numbers in memory -/

@[simp] theorem length_toBytes (n v : ℕ) : (toBytes n v).length = n := by
  simp [toBytes]

theorem ofBytes_toBytes (n v : ℕ) : ofBytes (toBytes n v) = v % 256 ^ n := by
  induction n generalizing v with
  | zero => simp [toBytes, ofBytes, Nat.mod_one]
  | succ n ih =>
    have hcons : toBytes (n + 1) v = BitVec.ofNat 8 v :: toBytes n (v / 256) := by
      unfold toBytes
      rw [List.range_succ_eq_map, List.map_cons, pow_zero, Nat.div_one, List.map_map]
      refine congrArg _ (List.map_congr_left fun i _ => ?_)
      rw [Function.comp_apply, Nat.pow_succ', Nat.div_div_eq_div_mul]
    have hstep : ofBytes (toBytes (n + 1) v) = v % 256 + 256 * ofBytes (toBytes n (v / 256)) := by
      rw [hcons]
      simp [ofBytes, BitVec.toNat_ofNat]
    rw [hstep, ih, Nat.pow_succ', Nat.mod_mul]

theorem u64_lt (mem : Memory) (a : ℕ) : u64 mem a < 2 ^ 64 := by
  have h := ofBytes_lt (load mem a 8)
  rw [length_load] at h
  exact h

section Reads
variable {m m' : Memory} {a k v : ℕ}

theorem ofBytes_load_put (hv : v < 256 ^ k) : ofBytes (load (store m a (toBytes k v)) a k) = v := by
  have hload : load (store m a (toBytes k v)) a (toBytes k v).length = toBytes k v := load_store_self
  rw [length_toBytes] at hload
  rw [hload, ofBytes_toBytes, Nat.mod_eq_of_lt hv]

theorem u64_put (hv : v < 2 ^ 64) : u64 (store m a (toBytes 8 v)) a = v := ofBytes_load_put hv

theorem u32_put (hv : v < 2 ^ 32) : u32 (store m a (toBytes 4 v)) a = v := ofBytes_load_put hv

theorem u64_put_other {b : ℕ} (h : b + 8 ≤ a ∨ a + k ≤ b) : u64 (store m a (toBytes k v)) b = u64 m b := by
  unfold u64
  rw [load_store_of_disjoint (by rwa [length_toBytes])]

theorem u32_put_other {b : ℕ} (h : b + 4 ≤ a ∨ a + k ≤ b) : u32 (store m a (toBytes k v)) b = u32 m b := by
  unfold u32
  rw [load_store_of_disjoint (by rwa [length_toBytes])]

theorem u64_below {H : ℕ} (h : ∀ x < H, m x = m' x) (ha : a + 8 ≤ H) : u64 m a = u64 m' a := by
  unfold u64
  rw [load_eq_load.mpr fun i hi => h (a + i) (by omega)]

theorem u32_below {H : ℕ} (h : ∀ x < H, m x = m' x) (ha : a + 4 ≤ H) : u32 m a = u32 m' a := by
  unfold u32
  rw [load_eq_load.mpr fun i hi => h (a + i) (by omega)]

theorem put_below {H x : ℕ} (hx : x < H) (ha : H ≤ a) : store m a (toBytes k v) x = m x :=
  store_outside (.inl (lt_of_lt_of_le hx ha))

end Reads

/-! ## The loop -/

theorem code_lt (type : ℕ) : (bootMemType type).code < 2 ^ 32 := by
  unfold bootMemType
  split <;> decide

theorem code_ne_end (type : ℕ) : (bootMemType type).code ≠ BootMemType.end_.code := by
  unfold bootMemType
  split <;> decide

theorem entry_eq {s : MapBuild} {H i : ℕ} (hptr : s.memmapentry = p2v H) (hi : H + (24 * i + 24) ≤ 2 ^ 47) :
    s.entry i = (u64 s.info.mem (H + 24 * i), u64 s.info.mem (H + (24 * i + 8)),
    u32 s.info.mem (H + (24 * i + 16))) := by
  unfold MapBuild.entry
  rw [hptr, v2p_p2v_add (by omega), v2p_p2v_add (by omega), v2p_p2v_add (by omega)]

/-- After the first `i` rounds over the tag at `mmap` in `mem`, which has `n` entries. -/
structure Copied (mem : Memory) (mmap n H i : ℕ) (s : MapBuild) : Prop where
  ptr : s.memmapentry = p2v H
  block : s.block = 24 * (n + 1)
  below : ∀ x < H, s.info.mem x = mem x
  entries : ∀ j < i, j < n → s.entry j =
    (entryAddr mem mmap j, entryLen mem mmap j, (bootMemType (entryType mem mmap j)).code)
  types : ∀ j < i, (s.entry j).2.2 ≠ BootMemType.end_.code
  reads : s.reads = List.range i

section Loop
variable {mem : Memory} {mmap n H i : ℕ} {s : MapBuild}

theorem copyEntry_memmapentry (mmap i : ℕ) (s : MapBuild) : (copyEntry mmap i s).memmapentry = s.memmapentry := by
  unfold copyEntry MapBuild.put
  rfl

theorem copyEntry_block (mmap i : ℕ) (s : MapBuild) : (copyEntry mmap i s).block = s.block := by
  unfold copyEntry MapBuild.put
  rfl

theorem copyEntry_reads (mmap i : ℕ) (s : MapBuild) : (copyEntry mmap i s).reads = s.reads ++ [i] := by
  unfold copyEntry MapBuild.put
  rfl

/-- The stores of one round, as changes of physical memory. -/
theorem copyEntry_mem (mmap : ℕ) (hptr : s.memmapentry = p2v H) (hi : H + (24 * i + 24) ≤ 2 ^ 47) : ∃ addr len type,
    (copyEntry mmap i s).info.mem = store (store (store s.info.mem (H + 24 * i) (toBytes 8 addr)) (H + (24 * i + 8))
      (toBytes 8 len)) (H + (24 * i + 16)) (toBytes 4 (bootMemType type).code) ∧
    addr = entryAddr s.info.mem mmap i ∧
    len = entryLen (store s.info.mem (H + 24 * i) (toBytes 8 addr)) mmap i ∧
    type =
      entryType (store (store s.info.mem (H + 24 * i) (toBytes 8 addr)) (H + (24 * i + 8)) (toBytes 8 len)) mmap i := by
  refine ⟨_, _, _, ?_, rfl, rfl, rfl⟩
  unfold copyEntry MapBuild.put
  simp only [hptr]
  rw [v2p_p2v_add (by omega), v2p_p2v_add (by omega), v2p_p2v_add (by omega)]

theorem Copied.step (h : Copied mem mmap n H i s) (htag : mmap + 16 + 24 * n ≤ H) (hi : H + (24 * i + 24) ≤ 2 ^ 47) :
    Copied mem mmap n H (i + 1) (copyEntry mmap i s) := by
  obtain ⟨addr, len, type, hmem, haddr, hlen, htype⟩ := copyEntry_mem mmap h.ptr hi
  have hptr : (copyEntry mmap i s).memmapentry = p2v H := by
    rw [copyEntry_memmapentry, h.ptr]
  have hbelow : ∀ x < H, (copyEntry mmap i s).info.mem x = mem x := by
    intro x hx
    rw [hmem, put_below hx (by omega), put_below hx (by omega), put_below hx (by omega), h.below x hx]
  -- the new entry, and the entries before it
  have hnew : (copyEntry mmap i s).entry i = (addr, len, (bootMemType type).code) := by
    rw [entry_eq hptr hi, hmem, u64_put_other (by omega), u64_put_other (by omega),
      u64_put (by rw [haddr]; exact u64_lt _ _), u64_put_other (by omega), u64_put (by rw [hlen]; exact u64_lt _ _),
      u32_put (code_lt type)]
  have hold : ∀ j < i, (copyEntry mmap i s).entry j = s.entry j := by
    intro j hj
    rw [entry_eq hptr (by omega), entry_eq h.ptr (by omega), hmem, u64_put_other (by omega), u64_put_other (by omega),
      u64_put_other (by omega), u64_put_other (by omega), u64_put_other (by omega), u64_put_other (by omega),
      u32_put_other (by omega), u32_put_other (by omega), u32_put_other (by omega)]
  refine ⟨hptr, by rw [copyEntry_block, h.block], hbelow, ?_, ?_, ?_⟩
  · intro j hj hn
    rcases Nat.lt_succ_iff_lt_or_eq.mp hj with hj | rfl
    · rw [hold j hj]
      exact h.entries j hj hn
    · have hb₁ : ∀ x < H, store s.info.mem (H + 24 * j) (toBytes 8 addr) x = mem x := by
        intro x hx
        rw [put_below hx (by omega), h.below x hx]
      have hb₂ : ∀ x < H, store (store s.info.mem (H + 24 * j) (toBytes 8 addr)) (H + (24 * j + 8)) (toBytes 8 len) x =
          mem x := by
        intro x hx
        rw [put_below hx (by omega), hb₁ x hx]
      rw [hnew, haddr, hlen, htype]
      unfold entryAddr entryLen entryType
      rw [u64_below h.below (by omega), u64_below hb₁ (by omega), u32_below hb₂ (by omega)]
  · intro j hj
    rcases Nat.lt_succ_iff_lt_or_eq.mp hj with hj | rfl
    · rw [hold j hj]
      exact h.types j hj
    · rw [hnew]
      exact code_ne_end type
  · rw [copyEntry_reads, h.reads, List.range_succ]

/-- The header of the tag, which the stores above it leave alone. -/
structure MmapTag (mem : Memory) (mmap n H : ℕ) : Prop where
  entrySize : u32 mem (mmap + 8) = 24
  size : tagSize mem mmap = 16 + 24 * n
  below : mmap + 16 + 24 * n ≤ H
  mapped : H + 24 * (n + 2) ≤ 2 ^ 47

/-- The loop goes one entry too far. -/
theorem Copied.entryReached_iff (h : Copied mem mmap n H i s) (ht : MmapTag mem mmap n H) (hi : i ≤ n + 1) :
    entryReached s.info.mem mmap i ↔ i ≤ n := by
  have hbelow := ht.below
  have hsize : u32 mem (mmap + 4) = 16 + 24 * n := ht.size
  have hlt := u32_lt mem (mmap + 4)
  unfold entryReached tagSize
  rw [u32_below h.below (by omega), u32_below h.below (by omega), ht.entrySize, hsize]
  omega

theorem mapLoop_ends (h : Copied mem mmap n H i s) (ht : MmapTag mem mmap n H) {k : ℕ} (hk : i + k = n + 1) (more : ℕ) :
    ∃ t, mapLoop mmap (k + more + 1) i s = .ok (n + 1) t := by
  have hmapped := ht.mapped
  induction k generalizing i s with
  | zero =>
    have hstop : ¬entryReached s.info.mem mmap i := by
      rw [h.entryReached_iff ht (by omega)]
      omega
    refine ⟨s, ?_⟩
    unfold mapLoop
    rw [if_neg hstop, ← hk, Nat.add_zero]
  | succ k ih =>
    have hgo : entryReached s.info.mem mmap i := (h.entryReached_iff ht (by omega)).mpr (by omega)
    obtain ⟨t, hrun⟩ := ih (h.step ht.below (by omega)) (by omega)
    refine ⟨t, ?_⟩
    rw [Nat.add_right_comm k 1 more, mapLoop]
    simp only [if_pos hgo]
    exact hrun

theorem mapLoop_copied {fuel k : ℕ} {t : MapBuild} (h : Copied mem mmap n H i s) (ht : MmapTag mem mmap n H)
    (hi : i ≤ n + 1) (hrun : mapLoop mmap fuel i s = .ok k t) : k = n + 1 ∧ Copied mem mmap n H (n + 1) t := by
  have hmapped := ht.mapped
  induction fuel generalizing i s with
  | zero => cases hrun
  | succ fuel ih =>
    unfold mapLoop at hrun
    by_cases hgo : i ≤ n
    · rw [if_pos ((h.entryReached_iff ht hi).mpr hgo)] at hrun
      exact ih (h.step ht.below (by omega)) (by omega) hrun
    · rw [if_neg (fun hr => hgo ((h.entryReached_iff ht hi).mp hr))] at hrun
      simp only [Outcome.ok.injEq] at hrun
      obtain ⟨rfl, rfl⟩ := hrun
      have hlast : i = n + 1 := by omega
      exact ⟨hlast, hlast ▸ h⟩

end Loop

/-! ## The function -/

theorem FirstTag.gettag {mem : Memory} {a tagtype o t : ℕ} (h : FirstTag mem a tagtype o t) {s : BootInfo}
    (hs : s.mem = mem) : (∃ fuel, gettagFrom tagtype fuel (a + o) s = .ok (some (a + t)) s) ∧
      ∀ fuel found s', gettagFrom tagtype fuel (a + o) s = .ok found s' → found = some (a + t) ∧ s' = s := by
  subst hs
  induction h with
  | here hend htype =>
    refine ⟨⟨1, by simp only [gettagFrom, if_neg hend, if_pos htype]⟩, fun fuel found s' hrun => ?_⟩
    cases fuel with
    | zero => cases hrun
    | succ fuel =>
      simp only [gettagFrom, if_neg hend, if_pos htype] at hrun
      cases hrun
      exact ⟨rfl, rfl⟩
  | next hend htype _ ih =>
    obtain ⟨⟨fuel, hfuel⟩, hall⟩ := ih
    refine ⟨⟨fuel + 1, by simp only [gettagFrom, if_neg hend, if_neg htype, tagNext_eq, hfuel]⟩,
      fun fuel found s' hrun => ?_⟩
    cases fuel with
    | zero => cases hrun
    | succ fuel =>
      simp only [gettagFrom, if_neg hend, if_neg htype, tagNext_eq] at hrun
      exact hall fuel found s' hrun

/-- More fuel does not change what was found. -/
theorem gettagFrom_mono {tagtype fuel tag : ℕ} {s s' : BootInfo} {found : Option ℕ}
    (h : gettagFrom tagtype fuel tag s = .ok found s') (k : ℕ) :
    gettagFrom tagtype (fuel + k) tag s = .ok found s' := by
  induction fuel generalizing tag with
  | zero => cases h
  | succ fuel ih =>
    rw [Nat.add_right_comm]
    unfold gettagFrom at h ⊢
    by_cases hend : tagType s.mem tag = 0
    · rwa [if_pos hend] at h ⊢
    · rw [if_neg hend] at h ⊢
      by_cases hm : tagType s.mem tag = tagtype
      · rwa [if_pos hm] at h ⊢
      · rw [if_neg hm] at h ⊢
        exact ih h

/-- Before the call nothing has been read or stored. -/
def MapBuild.start (s : BootInfo) : MapBuild := ⟨s, 0, 0, [], []⟩

/-- The state in which the loop starts: the block of `24 * (n + 1)` bytes has been allocated at `H`. -/
def mapAllocated (s : BootInfo) (n : ℕ) : MapBuild :=
  ⟨{ s with bootmem := { s.bootmem with heaptop := (s.bootmem.heaptop + 24 * (n + 1)) % wordSize } },
    p2v s.bootmem.heaptop, 24 * (n + 1), [], []⟩

theorem copied_start (s : BootInfo) (mmap n : ℕ) : Copied s.mem mmap n s.bootmem.heaptop 0 (mapAllocated s n) :=
  ⟨rfl, rfl, fun _ _ => rfl, nofun, nofun, rfl⟩

theorem mapSize_eq {n : ℕ} (hn : 16 + 24 * n < 2 ^ 32) :
    toSize (toInt ((16 + 24 * n) / 24) + 1) * 24 % wordSize = 24 * (n + 1) := by
  have hdiv : (16 + 24 * n) / 24 = n := by omega
  have hint : toInt n = n := by
    unfold toInt
    rw [Nat.mod_eq_of_lt (by omega), if_pos (by omega)]
  have hsize : toSize ((n : ℤ) + 1) = n + 1 := by
    unfold toSize
    rw [Int.emod_eq_of_lt (by omega) (by omega)]
    omega
  rw [hdiv, hint, hsize, Nat.mod_eq_of_lt (by unfold wordSize; omega), Nat.mul_comm]

/-- The call, once the tag has been found, is the loop and the store of the end entry. -/
theorem multiboot2SetBootmemMap_run {fuel mmap n : ℕ} {s : BootInfo} (ht : MmapTag s.mem mmap n s.bootmem.heaptop)
    (hgettag : multiboot2Gettag fuel multibootTagTypeMmap s = .ok (some mmap) s) :
    multiboot2SetBootmemMap fuel (MapBuild.start s) = (mapLoop mmap fuel 0 (mapAllocated s n)).andThen fun i =>
      (Prog.modify fun t => t.put (24 * i + 16) 4 BootMemType.end_.code) >>= fun _ => pure .ok := by
  have hsize := ht.size
  have hlt : tagSize s.mem mmap < 2 ^ 32 := u32_lt _ _
  have hzoom : Prog.zoom MapBuild.info (fun info s => { s with info := info })
      (multiboot2Gettag fuel multibootTagTypeMmap) (MapBuild.start s) = .ok (some mmap) (MapBuild.start s) :=
    Prog.zoom_ok.mpr ⟨s, hgettag, rfl⟩
  unfold multiboot2SetBootmemMap
  rw [Prog.bind_run, hzoom, Outcome.andThen_ok]
  have hentry : u32 (MapBuild.start s).info.mem (mmap + 8) = 24 := ht.entrySize
  have hnumber : toSize (toInt (tagSize (MapBuild.start s).info.mem mmap / 24) + 1) * 24 % wordSize = 24 * (n + 1) := by
    rw [show tagSize (MapBuild.start s).info.mem mmap = 16 + 24 * n from hsize]
    exact mapSize_eq (by omega)
  simp only [Prog.bind_run, Prog.get_run, Outcome.andThen_ok, hentry, hnumber, OfNat.ofNat_ne_zero, if_false]
  rfl

/-- What the function does: the `n` entries are right, one more is read and stored after them, and the end entry goes
behind the block. -/
structure SurplusMap (mem : Memory) (mmap n : ℕ) (t : MapBuild) : Prop where
  entries : ∀ i < n, t.entry i =
    (entryAddr mem mmap i, entryLen mem mmap i, (bootMemType (entryType mem mmap i)).code)
  surplus : n ∈ t.reads
  type : (t.entry n).2.2 ≠ BootMemType.end_.code
  outside : ∃ w ∈ t.stores, t.memmapentry + t.block ≤ w.1 ∧ 0 < w.2

theorem Copied.surplus {mem : Memory} {mmap n H : ℕ} {s : MapBuild} (h : Copied mem mmap n H (n + 1) s)
    (ht : MmapTag mem mmap n H) : SurplusMap mem mmap n (s.put (24 * (n + 1) + 16) 4 BootMemType.end_.code) := by
  have hmapped := ht.mapped
  obtain ⟨t, hput⟩ : ∃ t, t = s.put (24 * (n + 1) + 16) 4 BootMemType.end_.code := ⟨_, rfl⟩
  have hptr : t.memmapentry = p2v H := by rw [hput, MapBuild.put_memmapentry, h.ptr]
  have hmem : t.info.mem = store s.info.mem (H + (24 * (n + 1) + 16)) (toBytes 4 BootMemType.end_.code) := by
    rw [hput, MapBuild.put_mem, h.ptr, v2p_p2v_add (by omega)]
  have hsame : ∀ i < n + 1, t.entry i = s.entry i := by
    intro i hi
    rw [entry_eq hptr (by omega), entry_eq h.ptr (by omega), hmem, u64_put_other (by omega), u64_put_other (by omega),
      u32_put_other (by omega)]
  rw [← hput]
  refine ⟨?_, ?_, ?_, ?_⟩
  · intro i hi
    rw [hsame i (by omega)]
    exact h.entries i (by omega) hi
  · rw [hput, MapBuild.put_reads, h.reads]
    exact List.self_mem_range_succ
  · rw [hsame n (by omega)]
    exact h.types n (by omega)
  · refine ⟨(p2v H + (24 * (n + 1) + 16), 4), ?_, ?_, Nat.succ_pos 3⟩
    · rw [hput, MapBuild.put_stores, h.ptr]
      exact List.mem_append_right _ List.mem_cons_self
    · rw [hptr, hput, MapBuild.put_block, h.block]
      generalize p2v H = q
      omega

section Call
variable {s : BootInfo} {o n : ℕ}

theorem multiboot2SetBootmemMap_returns (hfirst : FirstTag s.mem s.mbiAddr multibootTagTypeMmap 8 o)
    (ht : MmapTag s.mem (s.mbiAddr + o) n s.bootmem.heaptop) :
    ∃ fuel t, multiboot2SetBootmemMap fuel (MapBuild.start s) = .ok .ok t := by
  obtain ⟨fuel, hfuel⟩ := (hfirst.gettag rfl).1
  obtain ⟨t, hloop⟩ := mapLoop_ends (copied_start s (s.mbiAddr + o) n) ht (Nat.zero_add (n + 1)) fuel
  have hgettag := gettagFrom_mono hfuel (n + 1 + 1)
  rw [show fuel + (n + 1 + 1) = n + 1 + fuel + 1 by omega] at hgettag
  refine ⟨n + 1 + fuel + 1, t.put (24 * (n + 1) + 16) 4 BootMemType.end_.code, ?_⟩
  rw [multiboot2SetBootmemMap_run ht hgettag, hloop, Outcome.andThen_ok, Prog.bind_run, Prog.modify_run,
    Outcome.andThen_ok, Prog.pure_run]

theorem multiboot2SetBootmemMap_surplus {fuel : ℕ} {r : BootResult} {t : MapBuild}
    (hfirst : FirstTag s.mem s.mbiAddr multibootTagTypeMmap 8 o)
    (ht : MmapTag s.mem (s.mbiAddr + o) n s.bootmem.heaptop)
    (hrun : multiboot2SetBootmemMap fuel (MapBuild.start s) = .ok r t) :
    r = .ok ∧ SurplusMap s.mem (s.mbiAddr + o) n t := by
  have hgettag : multiboot2Gettag fuel multibootTagTypeMmap s = .ok (some (s.mbiAddr + o)) s := by
    obtain ⟨found, u, hg, -⟩ := Prog.bind_ok.mp hrun
    obtain ⟨s', hg', -⟩ := Prog.zoom_ok.mp hg
    obtain ⟨rfl, rfl⟩ := (hfirst.gettag rfl).2 fuel found s' hg'
    exact hg'
  rw [multiboot2SetBootmemMap_run ht hgettag] at hrun
  obtain ⟨k, u, hloop, hrun⟩ := Outcome.andThen_eq_ok.mp hrun
  obtain ⟨rfl, hcopied⟩ := mapLoop_copied (copied_start s (s.mbiAddr + o) n) ht (Nat.zero_le _) hloop
  rw [Prog.bind_run, Prog.modify_run, Outcome.andThen_ok, Prog.pure_run, Outcome.ok.injEq] at hrun
  obtain ⟨rfl, rfl⟩ := hrun
  exact ⟨rfl, hcopied.surplus ht⟩

/-- For every information block whose first memory-map tag has `n` entries and lies below the boot heap's top, the call
returns `OK`, and what it leaves is never the exact map. -/
theorem bootmem_map_never_exact (hfirst : FirstTag s.mem s.mbiAddr multibootTagTypeMmap 8 o)
    (ht : MmapTag s.mem (s.mbiAddr + o) n s.bootmem.heaptop) :
    (∃ fuel t, multiboot2SetBootmemMap fuel (MapBuild.start s) = .ok .ok t) ∧
      ∀ fuel r t, multiboot2SetBootmemMap fuel (MapBuild.start s) = .ok r t →
        ¬ExactMap s.mem (s.mbiAddr + o) n t := by
  refine ⟨multiboot2SetBootmemMap_returns hfirst ht, fun fuel r t hrun hexact => ?_⟩
  exact (multiboot2SetBootmemMap_surplus hfirst ht hrun).2.type hexact.ending

end Call

/-- The sample block, with `heaptop` above it. Its memory map has one entry. -/
def mapBoot : BootInfo := { sampleBoot with bootmem := ⟨0x8000, 0xA000, 0x10000⟩ }

theorem mapBoot_first : FirstTag mapBoot.mem mapBoot.mbiAddr multibootTagTypeMmap 8 32 := by
  have hlen : 8 + tagLen mapBoot.mem (mapBoot.mbiAddr + 8) = 32 := by decide +kernel
  refine .next (by decide +kernel) (by decide +kernel) ?_
  rw [hlen]
  exact .here (by decide +kernel) (by decide +kernel)

theorem mapBoot_tag : MmapTag mapBoot.mem (mapBoot.mbiAddr + 32) 1 mapBoot.bootmem.heaptop := by
  refine ⟨?_, ?_, ?_, ?_⟩
  all_goals decide +kernel

theorem bootmem_map_never_exact_sample : ∃ fuel t, multiboot2SetBootmemMap fuel (MapBuild.start mapBoot) = .ok .ok t ∧
    ¬ExactMap mapBoot.mem (mapBoot.mbiAddr + 32) 1 t := by
  obtain ⟨⟨fuel, t, hrun⟩, hall⟩ := bootmem_map_never_exact mapBoot_first mapBoot_tag
  exact ⟨fuel, t, hrun, hall fuel _ t hrun⟩

/-- One entry in the tag: a second one is read, and the end entry is stored behind the block. -/
theorem bootmem_map_reads_surplus_entry : ∃ fuel t,
    multiboot2SetBootmemMap fuel (MapBuild.start mapBoot) = .ok .ok t ∧ 1 ∈ t.reads ∧
      (∃ w ∈ t.stores, t.memmapentry + t.block ≤ w.1 ∧ 0 < w.2) ∧ ¬ExactMap mapBoot.mem (mapBoot.mbiAddr + 32) 1 t := by
  obtain ⟨fuel, t, hrun⟩ := multiboot2SetBootmemMap_returns mapBoot_first mapBoot_tag
  obtain ⟨-, hsurplus⟩ := multiboot2SetBootmemMap_surplus mapBoot_first mapBoot_tag hrun
  exact ⟨fuel, t, hrun, hsurplus.surplus, hsurplus.outside, fun hexact => hsurplus.type hexact.ending⟩

end Borgos.Boot
