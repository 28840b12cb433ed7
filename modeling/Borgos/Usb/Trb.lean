import Mathlib.Tactic
import Borgos.Mem.Layout

/-! # `xhci_hcd.c`: transfer request blocks

A TRB is four 32-bit words. Bit 0 of the last word is the cycle bit and bits 10 to 15 are the type.
-/
namespace Borgos.Usb
open Borgos.Mem
set_option autoImplicit false

/-- `xhci_trb_t`. -/
structure Trb where
  parameterLo : BitVec 32
  parameterHi : BitVec 32
  status : BitVec 32
  control : BitVec 32
deriving DecidableEq, Repr

def xhciTrbSize : ℕ := 16

/-- `XHCI_RING_TRBS`. -/
def xhciRingTrbs : ℕ := pagesize / xhciTrbSize

/-- `XHCI_RING_USABLE_TRBS`. -/
def xhciRingUsableTrbs : ℕ := xhciRingTrbs - 1

def xhciTrbCycle : BitVec 32 := 1#32

/-- `XHCI_TRB_TC`, Toggle Cycle. -/
def xhciTrbTc : BitVec 32 := 2#32

/-- `XHCI_TRB_TYPE`. -/
def xhciTrbType (ctrl : BitVec 32) : BitVec 32 := (ctrl >>> 10) &&& 0x3F#32

/-- `XHCI_TRB_SET_TYPE`. -/
def xhciTrbSetType (t : BitVec 32) : BitVec 32 := (t &&& 0x3F#32) <<< 10

def xhciTrbLink : BitVec 32 := 6#32

/-- `XHCI_TRB_GET_SLOT`. -/
def xhciTrbGetSlot (ctrl : BitVec 32) : BitVec 32 := (ctrl >>> 24) &&& 0xFF#32

/-- `XHCI_EVT_COMP_CODE`. -/
def xhciEvtCompCode (status : BitVec 32) : BitVec 32 := (status >>> 24) &&& 0xFF#32

/-- `XHCI_EVT_XFER_LEN`. -/
def xhciEvtXferLen (status : BitVec 32) : BitVec 32 := status &&& 0xFFFFFF#32

/-- `XHCI_EVT_EP_ID`. -/
def xhciEvtEpId (ctrl : BitVec 32) : BitVec 32 := (ctrl >>> 16) &&& 0x1F#32

namespace Trb

/-- The cycle bit. -/
def cycle (t : Trb) : Bool := t.control.getLsbD 0

/-- Everything but the cycle bit. -/
def payload (t : Trb) : Trb := { t with control := t.control &&& ~~~xhciTrbCycle }

/-- Bits 10 to 15 of the control word. -/
def type (t : Trb) : BitVec 6 := t.control.extractLsb' 10 6

/-- The 64-bit parameter: a pointer in Link TRBs and events. -/
def parameter (t : Trb) : ℕ := t.parameterHi.toNat * 2 ^ 32 + t.parameterLo.toNat

def zero : Trb := ⟨0#32, 0#32, 0#32, 0#32⟩

end Trb

/-- The control word as `xhcihcd_ring_enqueue` writes it. -/
def withCycle (control : BitVec 32) (cyclebit : Bool) : BitVec 32 :=
  if cyclebit then (control &&& ~~~xhciTrbCycle) ||| xhciTrbCycle else control &&& ~~~xhciTrbCycle

theorem cycle_withCycle (control : BitVec 32) (b : Bool) : (withCycle control b).getLsbD 0 = b := by
  unfold withCycle xhciTrbCycle
  cases b
  · simp
  · simp

theorem payload_withCycle (control : BitVec 32) (b : Bool) :
    withCycle control b &&& ~~~xhciTrbCycle = control &&& ~~~xhciTrbCycle := by
  unfold withCycle xhciTrbCycle
  cases b
  · ext i hi
    simp only [BitVec.getElem_and, BitVec.getElem_not, Bool.false_eq_true, if_false, Bool.and_assoc, Bool.and_self]
  · ext i hi
    simp only [BitVec.getElem_and, BitVec.getElem_or, BitVec.getElem_not, if_true]
    cases control[i] <;> cases (1#32)[i] <;> rfl

theorem withCycle_getLsbD (control : BitVec 32) (b : Bool) {i : ℕ} (hi : i ≠ 0) :
    (withCycle control b).getLsbD i = control.getLsbD i := by
  have hone : (1#32).getLsbD i = false := by
    rw [BitVec.getLsbD_one]
    simp [hi]
  by_cases h32 : i < 32
  · unfold withCycle xhciTrbCycle
    cases b
    · simp only [Bool.false_eq_true, if_false, BitVec.getLsbD_and, BitVec.getLsbD_not, hone, h32, decide_true,
        Bool.not_false, Bool.and_true]
    · simp only [if_true, BitVec.getLsbD_or, BitVec.getLsbD_and, BitVec.getLsbD_not, hone, h32, decide_true,
        Bool.not_false, Bool.and_true, Bool.or_false]
  · rw [BitVec.getLsbD_of_ge _ _ (by omega), BitVec.getLsbD_of_ge _ _ (by omega)]

theorem type_withCycle (control : BitVec 32) (b : Bool) :
    xhciTrbType (withCycle control b) = xhciTrbType control := by
  unfold xhciTrbType
  ext i hi
  rw [BitVec.getElem_and, BitVec.getElem_and, BitVec.getElem_ushiftRight, BitVec.getElem_ushiftRight,
    withCycle_getLsbD control b (by omega)]

theorem type_payload (control : BitVec 32) : xhciTrbType (control &&& ~~~xhciTrbCycle) = xhciTrbType control :=
  type_withCycle control false

theorem toNat_xhciTrbType (t : Trb) : (xhciTrbType t.control).toNat = t.type.toNat := by
  unfold xhciTrbType Trb.type
  rw [BitVec.toNat_and, BitVec.toNat_ushiftRight, BitVec.extractLsb'_toNat]
  exact Nat.and_two_pow_sub_one_eq_mod _ 6

theorem xhciTrbType_eq_iff (t : Trb) (k : BitVec 6) : xhciTrbType t.control = k.setWidth 32 ↔ t.type = k := by
  have hk : (k.setWidth 32).toNat = k.toNat := by
    have hlt := k.isLt
    rw [BitVec.toNat_setWidth, Nat.mod_eq_of_lt (by omega)]
  constructor
  · intro h
    apply BitVec.eq_of_toNat_eq
    rw [← toNat_xhciTrbType, h, hk]
  · intro h
    apply BitVec.eq_of_toNat_eq
    rw [toNat_xhciTrbType, h, hk]

/-- The split of an address into two words loses nothing. -/
theorem parameter_split {a : ℕ} (h : a < 2 ^ 64) (status control : BitVec 32) :
    Trb.parameter ⟨BitVec.ofNat 32 a, BitVec.ofNat 32 (a / 2 ^ 32), status, control⟩ = a := by
  unfold Trb.parameter
  simp only [BitVec.toNat_ofNat]
  omega

theorem v2p_lt (v : ℕ) : v2p v < 2 ^ 64 := Nat.mod_lt _ (by unfold wordSize; positivity)

end Borgos.Usb
