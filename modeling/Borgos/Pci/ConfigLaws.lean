import Borgos.Foundations.Hoare
import Borgos.Pci.Config

/-! # Which devices get attached

A registering driver attaches a device when the device's `initialized` word is not zero at that moment: because the
heap block had something in it, or because any probe so far set it. This is said once, for each of the two loops, and
the exact condition under which attaching follows a successful probe is read off it.
-/
namespace Borgos.Pci
open Borgos.Foundations
set_option autoImplicit false

variable {devices : List PciDevice} {drivers : List PciDriver} {i j : ℕ}

namespace PciDriver

def Handles (d : PciDriver) (dev : PciDevice) : Prop :=
  pcidriverhandlesident dev.regs.vendorId dev.regs.deviceId d.idents = 0

def Panics (d : PciDriver) (i : ℕ) : Prop := ∃ msg, d.probe i = .panicked msg

def Marks (d : PciDriver) (i : ℕ) : Prop := ∃ res, d.probe i = .returned res true

def Succeeds (d : PciDriver) (i : ℕ) : Prop := ∃ marks, d.probe i = .returned 0 marks

theorem marks_iff_succeeds {d : PciDriver} (hd : d.registry.isSome) : d.Marks i ↔ d.Succeeds i := by
  constructor
  · rintro ⟨res, h⟩
    have hres := (d.marks_iff i res true hd h).mp rfl
    exact ⟨true, by rw [h, hres]⟩
  · rintro ⟨marks, h⟩
    have hmarks := (d.marks_iff i 0 marks hd h).mpr rfl
    exact ⟨0, by rw [h, hmarks]⟩

end PciDriver

/-! ## One device -/

section OneDevice
variable {dev : PciDevice} {d : PciDriver} {ds : List PciDriver} {s t : PciState} {e : Attachment}

/-- The driver at position `k` of `ds` is called for the device: it lists the device and no driver before it panics,
and neither does it. -/
def Called (i : ℕ) (dev : PciDevice) (ds : List PciDriver) (k : ℕ) (d : PciDriver) : Prop :=
  ds[k]? = some d ∧ d.Handles dev ∧ ∀ k' ≤ k, ∀ d', ds[k']? = some d' → d'.Handles dev → ¬ d'.Panics i

/-- The word is not zero when the driver at position `k` attaches. -/
def Marked (i : ℕ) (dev : PciDevice) (ds : List PciDriver) (word : ℤ) (k : ℕ) : Prop :=
  word ≠ 0 ∨ ∃ k' ≤ k, ∃ d', ds[k']? = some d' ∧ d'.Handles dev ∧ d'.Marks i

/-- The attachments that the loop over `ds` makes. -/
def Attaches (i : ℕ) (dev : PciDevice) (j : ℕ) (ds : List PciDriver) (word : ℤ) (e : Attachment) : Prop :=
  ∃ k d r, Called i dev ds k d ∧ d.registry = some r ∧ Marked i dev ds word k ∧ e = ⟨i, j + k, r⟩

theorem attaches_nil {word : ℤ} : ¬ Attaches i dev j [] word e := by
  rintro ⟨k, d, r, ⟨hk, -, -⟩, -, -, -⟩
  simp at hk

theorem called_cons_zero {d' : PciDriver} :
    Called i dev (d :: ds) 0 d' ↔ d' = d ∧ d.Handles dev ∧ ¬ d.Panics i := by
  constructor
  · rintro ⟨hk, hh, hp⟩
    simp only [List.getElem?_cons_zero, Option.some.injEq] at hk
    subst hk
    exact ⟨rfl, hh, hp 0 le_rfl d rfl hh⟩
  · rintro ⟨rfl, hh, hp⟩
    refine ⟨rfl, hh, ?_⟩
    intro k' hk' d'' hd'' _
    obtain rfl : k' = 0 := by omega
    simp only [List.getElem?_cons_zero, Option.some.injEq] at hd''
    exact hd'' ▸ hp

theorem called_cons_succ {d' : PciDriver} {k : ℕ} :
    Called i dev (d :: ds) (k + 1) d' ↔ (d.Handles dev → ¬ d.Panics i) ∧ Called i dev ds k d' := by
  constructor
  · rintro ⟨hk, hh, hp⟩
    refine ⟨hp 0 (Nat.zero_le _) d rfl, by simpa using hk, hh, ?_⟩
    intro k' hk' d'' hd''
    exact hp (k' + 1) (by omega) d'' (by simpa using hd'')
  · rintro ⟨h0, hk, hh, hp⟩
    refine ⟨by simpa using hk, hh, ?_⟩
    intro k' hk' d'' hd''
    cases k' with
    | zero =>
      simp only [List.getElem?_cons_zero, Option.some.injEq] at hd''
      exact hd'' ▸ h0
    | succ k' => exact hp k' (by omega) d'' (by simpa using hd'')

theorem marked_cons_zero {word : ℤ} :
    Marked i dev (d :: ds) word 0 ↔ word ≠ 0 ∨ d.Handles dev ∧ d.Marks i := by
  simp [Marked]

theorem marked_cons_succ {word : ℤ} {k : ℕ} :
    Marked i dev (d :: ds) word (k + 1) ↔ (d.Handles dev ∧ d.Marks i) ∨ Marked i dev ds word k := by
  unfold Marked
  constructor
  · rintro (hw | ⟨k', hk', d', hd', hh, hm⟩)
    · exact .inr (.inl hw)
    · cases k' with
      | zero =>
        simp only [List.getElem?_cons_zero, Option.some.injEq] at hd'
        subst hd'
        exact .inl ⟨hh, hm⟩
      | succ k' => exact .inr (.inr ⟨k', by omega, d', by simpa using hd', hh, hm⟩)
  · rintro (⟨hh, hm⟩ | hw | ⟨k', hk', d', hd', hh, hm⟩)
    · exact .inr ⟨0, by omega, d, rfl, hh, hm⟩
    · exact .inl hw
    · exact .inr ⟨k' + 1, by omega, d', by simpa using hd', hh, hm⟩

/-- The loop's first driver and its rest, with the word as the first driver leaves it. -/
theorem attaches_cons {word word' : ℤ} (hword : word' ≠ 0 ↔ word ≠ 0 ∨ d.Handles dev ∧ d.Marks i) :
    Attaches i dev j (d :: ds) word e ↔
      (d.Handles dev → ¬ d.Panics i) ∧
        ((d.Handles dev ∧ ∃ r, d.registry = some r ∧ word' ≠ 0 ∧ e = ⟨i, j, r⟩) ∨
          Attaches i dev (j + 1) ds word' e) := by
  have hmarked : ∀ k, Marked i dev (d :: ds) word (k + 1) ↔ Marked i dev ds word' k := by
    intro k
    rw [marked_cons_succ]
    unfold Marked
    rw [hword, ← or_assoc, or_comm (b := word ≠ 0)]
  constructor
  · rintro ⟨k, d', r, hc, hr, hm, he⟩
    cases k with
    | zero =>
      obtain ⟨rfl, hh, hp⟩ := called_cons_zero.mp hc
      exact ⟨fun _ => hp, .inl ⟨hh, r, hr, hword.mpr (marked_cons_zero.mp hm), he⟩⟩
    | succ k =>
      obtain ⟨hp, hc'⟩ := called_cons_succ.mp hc
      refine ⟨hp, .inr ⟨k, d', r, hc', hr, (hmarked k).mp hm, ?_⟩⟩
      rw [he, Nat.add_right_comm j 1 k, Nat.add_assoc]
  · rintro ⟨hp, ⟨hh, r, hr, hw, he⟩ | ⟨k, d', r, hc, hr, hm, he⟩⟩
    · exact ⟨0, d, r, called_cons_zero.mpr ⟨rfl, hh, hp hh⟩, hr, marked_cons_zero.mpr (hword.mp hw), he⟩
    · refine ⟨k + 1, d', r, called_cons_succ.mpr ⟨hp, hc⟩, hr, (hmarked k).mpr hm, ?_⟩
      rw [he, Nat.add_right_comm j 1 k, Nat.add_assoc]

/-! ### The loop over the drivers -/

/-- Every probe of the loop returns. -/
def Returns (i : ℕ) (dev : PciDevice) (ds : List PciDriver) : Prop :=
  ∀ (k : ℕ) (d : PciDriver), ds[k]? = some d → d.Handles dev → ¬ d.Panics i

theorem returns_cons : Returns i dev (d :: ds) ↔ (d.Handles dev → ¬ d.Panics i) ∧ Returns i dev ds := by
  constructor
  · intro h
    exact ⟨h 0 d rfl, fun k d' hd' => h (k + 1) d' (by simpa using hd')⟩
  · rintro ⟨h0, h⟩ k d' hd'
    cases k with
    | zero =>
      simp only [List.getElem?_cons_zero, Option.some.injEq] at hd'
      exact hd' ▸ h0
    | succ k => exact h k d' (by simpa using hd')

theorem driverLoop_skip (hh : ¬ d.Handles dev) : driverLoop i dev j (d :: ds) s = driverLoop i dev (j + 1) ds s := by
  unfold PciDriver.Handles at hh
  simp only [driverLoop, hh, if_false]

theorem driverLoop_panic {msg : String} (hh : d.Handles dev) (hp : d.probe i = .panicked msg) :
    driverLoop i dev j (d :: ds) s = .panic msg s := by
  unfold PciDriver.Handles at hh
  simp only [driverLoop, hh, if_true, Prog.bind_run, PciDriver.runProbe, hp, Prog.panic_run, Outcome.andThen_panic]

/-- What one driver does to the state. -/
structure DriverStep (i j : ℕ) (d : PciDriver) (s t : PciState) : Prop where
  others : ∀ i', i' ≠ i → t.initialized i' = s.initialized i'
  word : t.initialized i ≠ 0 ↔ s.initialized i ≠ 0 ∨ d.Marks i
  attached : ∀ e, e ∈ t.attached ↔ e ∈ s.attached ∨ ∃ r, d.registry = some r ∧ t.initialized i ≠ 0 ∧ e = ⟨i, j, r⟩

theorem runProbe_ok {res : ℤ} {marks : Bool} (hp : d.probe i = .returned res marks) :
    ∃ t, d.runProbe i s = .ok () t ∧ (∀ i', i' ≠ i → t.initialized i' = s.initialized i') ∧
      (t.initialized i ≠ 0 ↔ s.initialized i ≠ 0 ∨ d.Marks i) ∧ t.attached = s.attached := by
  have hmarks : d.Marks i ↔ marks = true := by
    unfold PciDriver.Marks
    simp [hp]
  cases marks with
  | true =>
    refine ⟨{ s with initialized := Function.update s.initialized i 1 }, ?_, ?_, ?_, rfl⟩
    · simp [PciDriver.runProbe, hp]
    · intro i' hi'
      exact Function.update_of_ne hi' _ _
    · simp [hmarks]
  | false =>
    refine ⟨s, ?_, fun _ _ => rfl, ?_, rfl⟩
    · simp [PciDriver.runProbe, hp]
    · simp [hmarks]

theorem runAttach_ok (d : PciDriver) (i j : ℕ) (s : PciState) :
    ∃ t, d.runAttach i j s = .ok () t ∧ t.initialized = s.initialized ∧
    ∀ e, e ∈ t.attached ↔ e ∈ s.attached ∨ ∃ r, d.registry = some r ∧ s.initialized i ≠ 0 ∧ e = ⟨i, j, r⟩ := by
  cases hr : d.registry with
  | none => exact ⟨s, by simp [PciDriver.runAttach, hr], rfl, by simp⟩
  | some r =>
    by_cases hw : s.initialized i ≠ 0
    · refine ⟨{ s with attached := s.attached ++ [⟨i, j, r⟩] }, ?_, rfl, ?_⟩
      · simp only [PciDriver.runAttach, hr, Prog.bind_run, Prog.get_run, Outcome.andThen_ok, if_pos hw, Prog.modify_run]
      · simp [hw]
    · refine ⟨s, ?_, rfl, ?_⟩
      · simp only [PciDriver.runAttach, hr, Prog.bind_run, Prog.get_run, Outcome.andThen_ok, if_neg hw, Prog.pure_run]
      · simp [hw]

theorem driverLoop_step {res : ℤ} {marks : Bool} (j : ℕ) (ds : List PciDriver) (s : PciState) (hh : d.Handles dev)
    (hp : d.probe i = .returned res marks) :
    ∃ t, driverLoop i dev j (d :: ds) s = driverLoop i dev (j + 1) ds t ∧ DriverStep i j d s t := by
  obtain ⟨t₁, hprobe, hothers, hword, hsame⟩ := runProbe_ok (s := s) hp
  obtain ⟨t, hattach, hinit, hmem⟩ := runAttach_ok d i j t₁
  refine ⟨t, ?_, ?_, ?_, ?_⟩
  · unfold PciDriver.Handles at hh
    simp only [driverLoop, hh, if_true, Prog.bind_run, hprobe, hattach, Outcome.andThen_ok]
  · rw [hinit]
    exact hothers
  · rw [hinit]
    exact hword
  · rw [hinit, ← hsame]
    exact hmem

/-- What the loop over the drivers does to the state. -/
structure DeviceStep (i : ℕ) (dev : PciDevice) (j : ℕ) (ds : List PciDriver) (s t : PciState) : Prop where
  others : ∀ i', i' ≠ i → t.initialized i' = s.initialized i'
  attached : ∀ e, e ∈ t.attached ↔ e ∈ s.attached ∨ Attaches i dev j ds (s.initialized i) e

theorem driverLoop_run (i : ℕ) (dev : PciDevice) (ds : List PciDriver) (j : ℕ) (s : PciState) :
    ∃ t, DeviceStep i dev j ds s t ∧
      ((Returns i dev ds ∧ driverLoop i dev j ds s = .ok () t) ∨
        ¬ Returns i dev ds ∧ ∃ msg, driverLoop i dev j ds s = .panic msg t) := by
  induction ds generalizing j s with
  | nil =>
    refine ⟨s, ⟨fun _ _ => rfl, ?_⟩, .inl ⟨?_, rfl⟩⟩
    · simp [attaches_nil]
    · intro k d hk
      simp at hk
  | cons d ds ih =>
    by_cases hh : d.Handles dev
    · cases hp : d.probe i with
      | panicked msg =>
        have hpanics : d.Panics i := ⟨msg, hp⟩
        refine ⟨s, ⟨fun _ _ => rfl, ?_⟩, .inr ⟨?_, msg, driverLoop_panic hh hp⟩⟩
        · intro e
          suffices hnone : ¬ Attaches i dev j (d :: ds) (s.initialized i) e by simp [hnone]
          rintro ⟨k, d', r, ⟨-, -, hcalled⟩, -⟩
          exact hcalled 0 (Nat.zero_le _) d rfl hh hpanics
        · intro hreturns
          exact hreturns 0 d rfl hh hpanics
      | returned res marks =>
        have hpanics : ¬ d.Panics i := by
          rintro ⟨msg, hmsg⟩
          rw [hp] at hmsg
          cases hmsg
        obtain ⟨s₁, hstep, hs₁⟩ := driverLoop_step j ds s hh hp
        obtain ⟨t, ht, hrun⟩ := ih (j + 1) s₁
        have hword : s₁.initialized i ≠ 0 ↔ s.initialized i ≠ 0 ∨ d.Handles dev ∧ d.Marks i := by
          rw [hs₁.word]
          simp [hh]
        refine ⟨t, ⟨?_, ?_⟩, ?_⟩
        · intro i' hi'
          rw [ht.others i' hi', hs₁.others i' hi']
        · intro e
          rw [ht.attached, hs₁.attached, attaches_cons hword]
          simp [hh, hpanics, or_assoc]
        · rw [hstep, returns_cons]
          simpa [hpanics] using hrun
    · obtain ⟨t, ht, hrun⟩ := ih (j + 1) s
      have hword : s.initialized i ≠ 0 ↔ s.initialized i ≠ 0 ∨ d.Handles dev ∧ d.Marks i := by simp [hh]
      refine ⟨t, ⟨ht.others, ?_⟩, ?_⟩
      · intro e
        rw [ht.attached, attaches_cons hword]
        simp [hh]
      · rw [driverLoop_skip hh, returns_cons]
        simpa [hh] using hrun

end OneDevice

/-! ## All devices -/

section AllDevices
variable {dev : PciDevice} {devs : List PciDevice} {e : Attachment}

/-- The loop reaches the device at position `n` of `devs`, the first one being device `i`. -/
def Reached (drivers : List PciDriver) (i : ℕ) (devs : List PciDevice) (n : ℕ) (dev : PciDevice) : Prop :=
  devs[n]? = some dev ∧ ∀ n' < n, ∀ dev', devs[n']? = some dev' → Returns (i + n') dev' drivers

theorem reached_cons_zero {dev' : PciDevice} : Reached drivers i (dev :: devs) 0 dev' ↔ dev = dev' := by
  simp [Reached]

theorem reached_cons_succ {dev' : PciDevice} {n : ℕ} :
    Reached drivers i (dev :: devs) (n + 1) dev' ↔
      Returns i dev drivers ∧ Reached drivers (i + 1) devs n dev' := by
  constructor
  · rintro ⟨hn, hbefore⟩
    refine ⟨hbefore 0 (Nat.succ_pos n) dev rfl, by simpa using hn, ?_⟩
    intro n' hn' dev'' hdev''
    have h := hbefore (n' + 1) (by omega) dev'' (by simpa using hdev'')
    rwa [show i + (n' + 1) = i + 1 + n' by omega] at h
  · rintro ⟨hfirst, hn, hbefore⟩
    refine ⟨by simpa using hn, ?_⟩
    intro n' hn' dev'' hdev''
    cases n' with
    | zero =>
      simp only [List.getElem?_cons_zero, Option.some.injEq] at hdev''
      exact hdev'' ▸ hfirst
    | succ n' =>
      have h := hbefore n' (by omega) dev'' (by simpa using hdev'')
      rwa [show i + (n' + 1) = i + 1 + n' by omega]

/-- The attachments that the loop over `devs` makes. -/
def AttachesAll (drivers : List PciDriver) (i : ℕ) (devs : List PciDevice) (words : ℕ → ℤ) (e : Attachment) : Prop :=
  ∃ n dev, Reached drivers i devs n dev ∧ Attaches (i + n) dev 0 drivers (words (i + n)) e

theorem attachesAll_cons {words : ℕ → ℤ} :
    AttachesAll drivers i (dev :: devs) words e ↔
      Attaches i dev 0 drivers (words i) e ∨ Returns i dev drivers ∧ AttachesAll drivers (i + 1) devs words e := by
  constructor
  · rintro ⟨n, dev', hr, ha⟩
    cases n with
    | zero =>
      obtain rfl := reached_cons_zero.mp hr
      exact .inl ha
    | succ n =>
      obtain ⟨hfirst, hr'⟩ := reached_cons_succ.mp hr
      rw [show i + (n + 1) = i + 1 + n by omega] at ha
      exact .inr ⟨hfirst, n, dev', hr', ha⟩
  · rintro (ha | ⟨hfirst, n, dev', hr, ha⟩)
    · exact ⟨0, dev, reached_cons_zero.mpr rfl, ha⟩
    · refine ⟨n + 1, dev', reached_cons_succ.mpr ⟨hfirst, hr⟩, ?_⟩
      rwa [show i + (n + 1) = i + 1 + n by omega]

/-- Only the words from device `i` on are read. -/
theorem attachesAll_congr {words words' : ℕ → ℤ} (h : ∀ n, words (i + n) = words' (i + n)) :
    AttachesAll drivers i devs words e ↔ AttachesAll drivers i devs words' e := by
  unfold AttachesAll
  simp only [h]

theorem deviceLoop_run (drivers : List PciDriver) (devs : List PciDevice) (i : ℕ) (s : PciState) :
    ∃ t, (deviceLoop drivers i devs s).final = some t ∧
      ∀ e, e ∈ t.attached ↔ e ∈ s.attached ∨ AttachesAll drivers i devs s.initialized e := by
  induction devs generalizing i s with
  | nil =>
    refine ⟨s, rfl, ?_⟩
    simp [AttachesAll, Reached]
  | cons dev devs ih =>
    obtain ⟨t₁, hstep, ⟨hreturns, hrun⟩ | ⟨hreturns, msg, hrun⟩⟩ := driverLoop_run i dev drivers 0 s
    · obtain ⟨t, hfinal, hmem⟩ := ih (i + 1) t₁
      refine ⟨t, ?_, ?_⟩
      · simp only [deviceLoop, Prog.bind_run, hrun, Outcome.andThen_ok, hfinal]
      · intro e
        have hwords : ∀ n, t₁.initialized (i + 1 + n) = s.initialized (i + 1 + n) :=
          fun n => hstep.others _ (by omega)
        rw [hmem, hstep.attached, attachesAll_cons, attachesAll_congr hwords, or_assoc]
        simp [hreturns]
    · refine ⟨t₁, ?_, ?_⟩
      · simp only [deviceLoop, Prog.bind_run, hrun, Outcome.andThen_panic, Outcome.final_panic]
      · intro e
        rw [hstep.attached, attachesAll_cons]
        simp [hreturns]

end AllDevices

/-! ## Attaching as probed -/

/-- Every attachment is by a driver whose probe of the device returned 0, and no device has two drivers. -/
structure AttachedAsProbed (drivers : List PciDriver) (t : PciState) : Prop where
  probed : ∀ e ∈ t.attached, ∃ d, drivers[e.driver]? = some d ∧ d.Succeeds e.device
  unique : ∀ e ∈ t.attached, ∀ e' ∈ t.attached, e.device = e'.device → e.driver = e'.driver

/-- `alone`: after a registering driver whose probe succeeded, no other registering driver is called for the device.
`clear`: when a registering driver's probe fails, the heap block had 0 in the word and no probe before has set it. -/
structure Guarded (devices : List PciDevice) (drivers : List PciDriver) : Prop where
  alone : ∀ i dev, Reached drivers 0 devices i dev → ∀ j k d d', j < k → Called i dev drivers j d →
    Called i dev drivers k d' → d.registry.isSome → d'.registry.isSome → ¬ d.Succeeds i
  clear : ∀ i dev, Reached drivers 0 devices i dev → ∀ j d, Called i dev drivers j d → d.registry.isSome →
    ¬ d.Succeeds i → dev.initialized = 0 ∧
      ∀ k < j, ∀ d', drivers[k]? = some d' → d'.Handles dev → ¬ d'.Marks i

/-- The attachments of a whole run. -/
theorem driverInit_attached (devices : List PciDevice) (drivers : List PciDriver) :
    ∃ t, (pciConfigDriverInit devices drivers).final = some t ∧
      ∀ e, e ∈ t.attached ↔ ∃ i dev, Reached drivers 0 devices i dev ∧
        Attaches i dev 0 drivers dev.initialized e := by
  obtain ⟨t, hfinal, hmem⟩ := deviceLoop_run drivers devices 0 (PciState.start devices)
  refine ⟨t, hfinal, ?_⟩
  intro e
  rw [hmem]
  simp only [PciState.start, List.not_mem_nil, false_or, AttachesAll, Nat.zero_add]
  constructor
  · rintro ⟨i, dev, hr, ha⟩
    rw [hr.1] at ha
    exact ⟨i, dev, hr, ha⟩
  · rintro ⟨i, dev, hr, ha⟩
    refine ⟨i, dev, hr, ?_⟩
    rw [hr.1]
    exact ha

section Guard
variable {t : PciState}
  (hmem : ∀ e, e ∈ t.attached ↔ ∃ i dev, Reached drivers 0 devices i dev ∧
    Attaches i dev 0 drivers dev.initialized e)
include hmem

/-- A registering driver that is called while the word is not zero attaches. -/
theorem attached_of_marked {dev : PciDevice} {d : PciDriver} (hr : Reached drivers 0 devices i dev)
    (hc : Called i dev drivers j d) (hd : d.registry.isSome) (hm : Marked i dev drivers dev.initialized j) :
    ∃ e ∈ t.attached, e.device = i ∧ e.driver = j := by
  obtain ⟨r, hregistry⟩ := Option.isSome_iff_exists.mp hd
  refine ⟨⟨i, j, r⟩, (hmem _).mpr ⟨i, dev, hr, j, d, r, hc, hregistry, hm, ?_⟩, rfl, rfl⟩
  rw [Nat.zero_add]

theorem called_of_attached {e : Attachment} (he : e ∈ t.attached) :
    ∃ dev d, Reached drivers 0 devices e.device dev ∧ Called e.device dev drivers e.driver d ∧ d.registry.isSome ∧
      Marked e.device dev drivers dev.initialized e.driver := by
  obtain ⟨i, dev, hr, j, d, r, hc, hregistry, hm, rfl⟩ := (hmem e).mp he
  simp only [Nat.zero_add]
  exact ⟨dev, d, hr, hc, by simp [hregistry], hm⟩

theorem succeeds_of_attached (hg : Guarded devices drivers) {e : Attachment} (he : e ∈ t.attached) {dev : PciDevice}
    {d : PciDriver} (hr : Reached drivers 0 devices e.device dev) (hc : Called e.device dev drivers e.driver d)
    (hd : d.registry.isSome) : d.Succeeds e.device := by
  by_contra hfail
  obtain ⟨hzero, hclear⟩ := hg.clear e.device dev hr e.driver d hc hd hfail
  obtain ⟨dev', d', hr', hc', -, hm⟩ := called_of_attached hmem he
  obtain rfl : dev = dev' := Option.some.inj (hr.1.symm.trans hr'.1)
  rcases hm with hword | ⟨k, hk, dk, hdk, hh, hmarks⟩
  · exact hword hzero
  · rcases Nat.lt_or_eq_of_le hk with hlt | rfl
    · exact hclear k hlt dk hdk hh hmarks
    · obtain rfl : d = dk := Option.some.inj (hc.1.symm.trans hdk)
      exact hfail ((PciDriver.marks_iff_succeeds hd).mp hmarks)

theorem asProbed_of_guarded (hg : Guarded devices drivers) : AttachedAsProbed drivers t := by
  refine ⟨?_, ?_⟩
  · intro e he
    obtain ⟨dev, d, hr, hc, hd, -⟩ := called_of_attached hmem he
    exact ⟨d, hc.1, succeeds_of_attached hmem hg he hr hc hd⟩
  · -- the earlier of two drivers has succeeded, and then the later one is not called
    have hnot : ∀ e ∈ t.attached, ∀ e' ∈ t.attached, e.device = e'.device → ¬ e.driver < e'.driver := by
      intro e he e' he' hdev hlt
      obtain ⟨dev, d, hr, hc, hd, -⟩ := called_of_attached hmem he
      obtain ⟨dev', d', hr', hc', hd', -⟩ := called_of_attached hmem he'
      rw [← hdev] at hr' hc'
      obtain rfl : dev = dev' := Option.some.inj (hr.1.symm.trans hr'.1)
      exact hg.alone e.device dev hr e.driver e'.driver d d' hlt hc hc' hd hd'
        (succeeds_of_attached hmem hg he hr hc hd)
    intro e he e' he' hdev
    have h₁ := hnot e he e' he' hdev
    have h₂ := hnot e' he' e he hdev.symm
    omega

theorem guarded_of_asProbed (h : AttachedAsProbed drivers t) : Guarded devices drivers := by
  refine ⟨?_, ?_⟩
  · intro i dev hr j k d d' hjk hc hc' hd hd' hs
    have hmarks : d.Marks i := (PciDriver.marks_iff_succeeds hd).mpr hs
    obtain ⟨e, he, hei, hej⟩ := attached_of_marked hmem hr hc hd (.inr ⟨j, le_rfl, d, hc.1, hc.2.1, hmarks⟩)
    obtain ⟨e', he', hei', hek⟩ := attached_of_marked hmem hr hc' hd' (.inr ⟨j, hjk.le, d, hc.1, hc.2.1, hmarks⟩)
    have heq := h.unique e he e' he' (hei.trans hei'.symm)
    omega
  · intro i dev hr j d hc hd hfail
    have hnot : ¬ Marked i dev drivers dev.initialized j := by
      intro hm
      obtain ⟨e, he, rfl, rfl⟩ := attached_of_marked hmem hr hc hd hm
      obtain ⟨d', hd', hs⟩ := h.probed e he
      obtain rfl : d = d' := Option.some.inj (hc.1.symm.trans hd')
      exact hfail hs
    refine ⟨?_, ?_⟩
    · by_contra hword
      exact hnot (.inl hword)
    · intro k hk d' hd' hh hmarks
      exact hnot (.inr ⟨k, hk.le, d', hd', hh, hmarks⟩)

end Guard

/-- `pci_config_driver_init` attaches as probed exactly when `Guarded` holds. -/
theorem attached_as_probed_iff (devices : List PciDevice) (drivers : List PciDriver) :
    (∃ t, (pciConfigDriverInit devices drivers).final = some t ∧ AttachedAsProbed drivers t) ↔
      Guarded devices drivers := by
  obtain ⟨t, hfinal, hmem⟩ := driverInit_attached devices drivers
  constructor
  · rintro ⟨t', hfinal', h⟩
    obtain rfl : t = t' := Option.some.inj (hfinal.symm.trans hfinal')
    exact guarded_of_asProbed hmem h
  · intro hg
    exact ⟨t, hfinal, asProbed_of_guarded hmem hg⟩

/-- The xHCI driver when its probe takes the `-EIO` exit after `pci_enable_device`. -/
def xhciNotEnabled : PciDriver where
  idents := [⟨0x1B36, 0x000D⟩, ⟨0x1033, 0x0194⟩, ⟨0x8086, 0x51ED⟩, ⟨0xFFFF, 0xFFFF⟩]
  registry := some .usbAttachHcd
  probe _ := .returned (-5) false
  marks_iff := by
    intro i res marks _ h
    cases h
    decide

/-- The controller is enumerated into a block whose `initialized` word is 1 from its last use. -/
theorem failed_probe_attached :
    ∃ db t, pciConfigEnumerateFunction ⟨0, 0, 3, 0⟩ ⟨0x1B36, 0x000D, 0⟩ ⟨0, 1, ⟨0, 0, 0, 0⟩, ⟨0, 0, 0⟩⟩ [] = .ok () db ∧
      (pciConfigDriverInit db [xhciNotEnabled]).final = some t ∧ ¬ AttachedAsProbed [xhciNotEnabled] t := by
  refine ⟨_, _, rfl, rfl, ?_⟩
  intro h
  obtain ⟨d, hd, marks, hprobe⟩ := h.probed ⟨0, 0, .usbAttachHcd⟩ (by simp)
  simp only [List.getElem?_cons_zero, Option.some.injEq] at hd
  subst hd
  cases hprobe

end Borgos.Pci
