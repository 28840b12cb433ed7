import Borgos.Mem.Layout
import Borgos.Net.Rtl8139

/-! # `rtl8139.c`: sending frames

The chip has four transmit descriptors, each with a buffer of 2 KiB, a start address and a status register. A write to
the status register hands the descriptor to the chip, which reads the buffer, sends the frame and sets OWN and TOK. The
chip may act between any two steps of `rtl8139_send`. What is written to descriptors, returned to the caller and put on
the wire is recorded.
-/
namespace Borgos.Net
open Borgos.Foundations Borgos.Mem
set_option autoImplicit false

/-! ## Constants -/

def rtlTsdSizeMask : BitVec 32 := 0x1FFF#32
def rtlTsdOwn : BitVec 32 := 1#32 <<< 13
def rtlTsdTok : BitVec 32 := 1#32 <<< 15
def rtlTsdTabt : BitVec 32 := 1#32 <<< 30

/-- `RTL_ERTXTH_1024 << RTL_TSD_ERTXTH_SHIFT`. -/
def rtlTsdErtxth : BitVec 32 := 32#32 <<< 16

def rtlTcrClrabt : BitVec 32 := 1#32 <<< 0

def rtl8139TxSlots : ℕ := 4
def rtl8139TxSlotSize : ℕ := 2048

/-- `donebits`. -/
def rtlDonebits : BitVec 32 := rtlTsdOwn ||| rtlTsdTok

/-- `paddedlen`. -/
def paddedLen (frame : List Byte) : ℕ := if frame.length < ethFrameMin then ethFrameMin else frame.length

/-- The buffer after the `memcpy` and the `memset`. -/
def padded (frame : List Byte) : List Byte := frame ++ List.replicate (paddedLen frame - frame.length) 0

/-- The value of TSD that starts a frame of `paddedlen` bytes. -/
def tsdValue (paddedlen : ℕ) : BitVec 32 := rtlTsdErtxth ||| (BitVec.ofNat 32 paddedlen &&& rtlTsdSizeMask)

/-! ## The driver and the chip -/

/-- The counters of `if_stats_t` that sending uses. -/
structure TxStats where
  txOk : ℕ
  txErr : ℕ
  txTimeout : ℕ

inductive TxResult where
  | ok
  | error
deriving DecidableEq

/-- Where `rtl8139_send` stands: outside, before byte `i` of the buffer, before the writes of TSAD and TSD, before the
read of the status, and in the loop with `statusreg` and `timeout`. -/
inductive TxStage where
  | idle
  | copy (frame : List Byte) (i : ℕ)
  | tsad (frame : List Byte)
  | tsd (frame : List Byte)
  | read
  | wait (statusreg : BitVec 32) (timeout : ℕ)

/-- The driver's fields, the memory, the chip's registers, and of each descriptor the bytes that the chip has read.
`calls` are the frames that `rtl8139_send` was called with, `writes` tells of each write to a buffer or to TSD whether
the chip owned the descriptor, `results` has each returned value with whether the descriptor was done at that time, and
`sent` are the frames on the wire. -/
structure TxSystem where
  mem : ℕ → Byte
  txbufframe : ℕ
  txNext : ℕ
  stats : TxStats
  stage : TxStage
  tsd : ℕ → BitVec 32
  tsadReg : ℕ → ℕ
  tcr : BitVec 32
  fifo : ℕ → List Byte
  calls : List (List Byte)
  writes : List Bool
  results : List (TxResult × Bool)
  sent : List (List Byte)

/-- OWN and TOK are both set. -/
def TsdDone (v : BitVec 32) : Prop := v &&& rtlDonebits = rtlDonebits

instance (v : BitVec 32) : Decidable (TsdDone v) := inferInstanceAs (Decidable (_ = _))

def tsdSize (v : BitVec 32) : ℕ := (v &&& rtlTsdSizeMask).toNat

namespace TxSystem

/-- After `rtl8139_setup`, with the buffers at `txbufframe`. The reset leaves OWN set. -/
def start (txbufframe : ℕ) : TxSystem where
  mem _ := 0
  txbufframe := txbufframe
  txNext := 0
  stats := ⟨0, 0, 0⟩
  stage := .idle
  tsd _ := rtlTsdOwn
  tsadReg _ := 0
  tcr := 0
  fifo _ := []
  calls := []
  writes := []
  results := []
  sent := []

/-- A frame has been handed to the chip, and the descriptor is not done. -/
def Owned (s : TxSystem) (slot : ℕ) : Prop := tsdSize (s.tsd slot) ≠ 0 ∧ ¬ TsdDone (s.tsd slot)

instance (s : TxSystem) (slot : ℕ) : Decidable (s.Owned slot) := inferInstanceAs (Decidable (_ ∧ _))

def txbuf (s : TxSystem) : ℕ := s.txbufframe + s.txNext * rtl8139TxSlotSize

/-! ## `rtl8139_send` -/

def writeByte (s : TxSystem) (frame : List Byte) (i : ℕ) (b : Byte) : TxSystem :=
  { s with
    mem := Function.update s.mem (s.txbuf + i) b
    writes := s.writes ++ [decide (s.Owned s.txNext)]
    stage := .copy frame (i + 1) }

def writeTsad (s : TxSystem) (frame : List Byte) : TxSystem :=
  { s with
    tsadReg := Function.update s.tsadReg s.txNext (v2p s.txbuf % 2 ^ 32)
    stage := .tsd frame }

/-- The write to TSD. The chip starts with the first byte. -/
def writeTsd (s : TxSystem) (frame : List Byte) : TxSystem :=
  { s with
    tsd := Function.update s.tsd s.txNext (tsdValue (paddedLen frame))
    fifo := Function.update s.fifo s.txNext []
    writes := s.writes ++ [decide (s.Owned s.txNext)]
    stage := .read }

def readStatus (s : TxSystem) : TxSystem := { s with stage := .wait (s.tsd s.txNext) 10 }

def sendReturns (s : TxSystem) (r : TxResult) : TxSystem :=
  { s with
    results := s.results ++ [(r, decide (TsdDone (s.tsd s.txNext)))]
    stage := .idle }

/-- `priv->tx_next = (txslot + 1) % RTL8139_TX_SLOTS`. -/
def advance (s : TxSystem) : TxSystem := { s with txNext := (s.txNext + 1) % rtl8139TxSlots }

/-- One round of `while (timeout != 0)`, or what follows it. -/
def poll (s : TxSystem) (statusreg : BitVec 32) : ℕ → TxSystem
  | 0 => { s with stats := { s.stats with txTimeout := s.stats.txTimeout + 1 } }.sendReturns .error
  | timeout + 1 =>
    if TsdDone statusreg then
      ({ s with stats := { s.stats with txOk := s.stats.txOk + 1 } }.sendReturns .ok).advance
    else if statusreg &&& rtlTsdTabt ≠ 0 then
      ({ s with
        tcr := s.tcr ||| rtlTcrClrabt
        stats := { s.stats with txErr := s.stats.txErr + 1 } }.sendReturns .error).advance
    else { s with stage := .wait statusreg timeout }

/-! ## The chip -/

/-- The chip reads the next byte of a buffer. -/
def fetch (s : TxSystem) (slot : ℕ) : TxSystem :=
  { s with fifo := Function.update s.fifo slot (s.fifo slot ++ [s.mem (p2v (s.tsadReg slot + (s.fifo slot).length))]) }

def setTsd (s : TxSystem) (slot : ℕ) (bit : BitVec 32) : TxSystem :=
  { s with tsd := Function.update s.tsd slot (s.tsd slot ||| bit) }

/-- The frame has reached the wire. -/
def transmit (s : TxSystem) (slot : ℕ) : TxSystem := { s.setTsd slot rtlTsdTok with sent := s.sent ++ [s.fifo slot] }

/-- After an abort the chip starts again with the first byte. -/
def retransmit (s : TxSystem) (slot : ℕ) : TxSystem := { s with fifo := Function.update s.fifo slot [] }

end TxSystem

open TxSystem

/-- The checks of `rtl8139_send`. It goes on when they return `none`. -/
def rtl8139SendEntry (started : Bool) (frame : Option (List Byte)) : Prog TxSystem (Option TxResult) :=
  if started = false then pure (some .error)
  else
    match frame with
    | none => pure (some .error)
    | some frame =>
      if frame.length > 1792 then Prog.panic "TODO ERROR HANDLING"
      else do
        Prog.modify fun s => { s with stage := .copy frame 0, calls := s.calls ++ [frame] }
        pure none

/-- The call in progress has read a status that is not done, and waits. -/
def TxSystem.WaitingFor (s : TxSystem) (slot : ℕ) : Prop :=
  s.txNext = slot ∧ ∃ statusreg timeout, s.stage = .wait statusreg timeout ∧ ¬ TsdDone statusreg

/-- Steps of `rtl8139_send` and of the chip. With `careful` the first byte of a buffer is written only when the chip
does not own the descriptor, and the chip does not complete a descriptor while the driver waits for it with a status
that it has read before. -/
inductive TxStep (careful : Prop) (s : TxSystem) : TxSystem → Prop
  | call (frame : List Byte) (s' : TxSystem) (hs : s.stage = .idle)
      (h : rtl8139SendEntry true (some frame) s = .ok none s') : TxStep careful s s'
  | copy (frame : List Byte) (i : ℕ) (b : Byte) (hs : s.stage = .copy frame i) (hb : (padded frame)[i]? = some b)
      (hfree : careful → i = 0 → ¬ s.Owned s.txNext) : TxStep careful s (s.writeByte frame i b)
  | copied (frame : List Byte) (hs : s.stage = .copy frame (padded frame).length) :
      TxStep careful s { s with stage := .tsad frame }
  | tsad (frame : List Byte) (hs : s.stage = .tsad frame) : TxStep careful s (s.writeTsad frame)
  | tsd (frame : List Byte) (hs : s.stage = .tsd frame) : TxStep careful s (s.writeTsd frame)
  | read (hs : s.stage = .read) : TxStep careful s s.readStatus
  | poll (statusreg : BitVec 32) (timeout : ℕ) (hs : s.stage = .wait statusreg timeout) :
      TxStep careful s (s.poll statusreg timeout)
  | fetch (slot : ℕ) (ho : s.Owned slot) (hlen : (s.fifo slot).length < tsdSize (s.tsd slot)) :
      TxStep careful s (s.fetch slot)
  | own (slot : ℕ) (ho : s.Owned slot) (hlen : (s.fifo slot).length = tsdSize (s.tsd slot))
      (hcalm : careful → s.WaitingFor slot → ¬ TsdDone (s.tsd slot ||| rtlTsdOwn)) :
      TxStep careful s (s.setTsd slot rtlTsdOwn)
  | tok (slot : ℕ) (ho : s.Owned slot) (hlen : (s.fifo slot).length = tsdSize (s.tsd slot))
      (hcalm : careful → s.WaitingFor slot → ¬ TsdDone (s.tsd slot ||| rtlTsdTok)) : TxStep careful s (s.transmit slot)
  | tabt (slot : ℕ) (ho : s.Owned slot) : TxStep careful s (s.setTsd slot rtlTsdTabt)
  | retransmit (slot : ℕ) (ho : s.Owned slot) (htabt : s.tsd slot &&& rtlTsdTabt ≠ 0)
      (hclr : s.tcr &&& rtlTcrClrabt ≠ 0) : TxStep careful s (s.retransmit slot)

def TxRun (careful : Prop) : TxSystem → TxSystem → Prop := Relation.ReflTransGen (TxStep careful)

end Borgos.Net
