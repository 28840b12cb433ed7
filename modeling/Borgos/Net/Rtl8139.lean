import Borgos.Foundations.FlatMemory
import Borgos.Foundations.Outcome

/-! # `rtl8139.c`: receiving frames

The chip places every good frame, behind a header of four bytes, at the next double-word of a ring of 32 KiB and
lets a frame run past the end of the ring. `rtl8139_rx_drain` reads the frames and tells the chip through CAPR how
far it has come. The chip may place frames between any two steps of the drain loop. `ethernet_input` is assumed
to return: its calls are recorded and its result is a parameter.
-/
namespace Borgos.Net
open Borgos.Foundations FlatMemory
set_option autoImplicit false

abbrev Byte := BitVec 8

/-! ## Constants -/

def ethFcsLen : ℕ := 4

def ethFrameMin : ℕ := 60

/-- `ETH_HEADER_LEN + ETH_PAYLOAD_MAX`. -/
def ethFrameMax : ℕ := 14 + 1500

def ethFrameMaxFcs : ℕ := ethFrameMax + ethFcsLen

def rtl8139RxUsable : ℕ := 32768

/-- `(RTL8139_RX_USABLE - 1u) & ~3u`. -/
def rtl8139RxPtrMask : BitVec 32 := (BitVec.ofNat 32 rtl8139RxUsable - 1#32) &&& ~~~3#32

def rtl8139CaprBias : BitVec 32 := 16#32

def rtl8139RxRok : BitVec 16 := 1#16 <<< 0

/-- `FAE`, `CRC`, `LONG` and `RUNT`. -/
def rtl8139RxBad : BitVec 16 := 1#16 <<< 1 ||| 1#16 <<< 2 ||| 1#16 <<< 3 ||| 1#16 <<< 4

/-! ## Headers -/

/-- Two bytes, the low one first. -/
def le16 (x : BitVec 16) : List Byte := [BitVec.ofNat 8 x.toNat, BitVec.ofNat 8 (x.toNat / 256)]

def ofLe16 (lo hi : Byte) : BitVec 16 := BitVec.ofNat 16 (lo.toNat + 256 * hi.toNat)

/-- `rtl8139_rx_header_t`. The size includes the FCS. -/
structure RxHeader where
  status : BitVec 16
  size : BitVec 16

/-- `memcpy(&hdr, p, sizeof(hdr))`. -/
def readHeader (mem : ℕ → Byte) (p : ℕ) : RxHeader :=
  ⟨ofLe16 (mem p) (mem (p + 1)), ofLe16 (mem (p + 2)) (mem (p + 3))⟩

/-- A frame the chip accepts: `ROK`, no error bit, and a size from 64 to the maximum. `bytes` ends with the FCS. -/
structure GoodFrame where
  status : BitVec 16
  bytes : List Byte
  rok : status &&& rtl8139RxRok ≠ 0
  noError : status &&& rtl8139RxBad = 0
  min : ethFrameMin + ethFcsLen ≤ bytes.length
  max : bytes.length ≤ ethFrameMaxFcs

namespace GoodFrame

def size (f : GoodFrame) : BitVec 16 := BitVec.ofNat 16 f.bytes.length

/-- The frame without its FCS. -/
def data (f : GoodFrame) : List Byte := f.bytes.take (f.bytes.length - ethFcsLen)

/-- What the chip writes. -/
def image (f : GoodFrame) : List Byte := le16 f.status ++ le16 f.size ++ f.bytes

/-- Header and frame, up to the next double-word. -/
def span (f : GoodFrame) : ℕ := (f.bytes.length + 4 + 3) / 4 * 4

end GoodFrame

/-! ## The driver and the chip -/

/-- The counters of `if_stats_t` that receiving uses. -/
structure RxStats where
  rxOk : ℕ
  rxErr : ℕ
  rxTooBig : ℕ
  rxDropped : ℕ

/-- Where `rtl8139_rx_drain` stands: outside, before the test of `BUFE`, before the body of the loop, and before
the read pointer advances, with `off` and `hdr.size`. -/
inductive RxStage where
  | idle
  | test
  | body
  | advance (off : BitVec 32) (size : BitVec 16)
  | panicked
deriving DecidableEq

/-- The driver's fields, the chip's registers and the memory between them. `unread` are the frames the chip holds
to be unread, each with its offset, `placed` those it has placed so far, and `input` the calls of
`ethernet_input`. -/
structure RxSystem where
  rxbuf : ℕ → Byte
  rxOffset : BitVec 32
  stats : RxStats
  stage : RxStage
  capr : BitVec 16
  cbr : ℕ
  unread : List (ℕ × GoodFrame)
  placed : List GoodFrame
  input : List (List Byte)

namespace RxSystem

/-- After `rtl8139_setup`: the buffer is cleared and CAPR has its reset value. -/
def start : RxSystem :=
  ⟨fun _ => 0, 0, ⟨0, 0, 0, 0⟩, .idle, 0xFFF0#16, 0, [], [], []⟩

/-- `CR<BUFE>`. -/
def bufferEmpty (s : RxSystem) : Bool := s.unread.isEmpty

/-- The chip's offset of the next unread frame, or of the next frame to come. -/
def nextOffset (s : RxSystem) : ℕ :=
  match s.unread with
  | [] => s.cbr
  | (o, _) :: _ => o

/-- The chip places a frame. -/
def place (s : RxSystem) (f : GoodFrame) : RxSystem :=
  { s with
    rxbuf := store s.rxbuf s.cbr f.image
    cbr := (s.cbr + f.span) % rtl8139RxUsable
    unread := s.unread ++ [(s.cbr, f)]
    placed := s.placed ++ [f] }

/-- The unread frames and one more fit into the ring. -/
def Room (s : RxSystem) (f : GoodFrame) : Prop :=
  (s.unread.map fun r => r.2.span).sum + f.span ≤ rtl8139RxUsable

/-- A write to CAPR. The chip adds 16 and holds the frames before that offset to be read. -/
def writeCapr (s : RxSystem) (v : BitVec 16) : RxSystem :=
  { s with
    capr := v
    unread := s.unread.dropWhile fun r => r.1 ≠ (v + 16#16).toNat }

/-- `rtl8139_capr_set`. -/
def rtl8139CaprSet (s : RxSystem) (offset : BitVec 32) : RxSystem :=
  s.writeCapr ((offset - rtl8139CaprBias).setWidth 16)

end RxSystem

open RxSystem

/-! ## `rtl8139_rx_drain` -/

def rtl8139RxResync : Prog RxSystem Unit := Prog.panic "TODO rtl8139_rx_resync()"

/-- The call of `ethernet_input`, which returns `rc`. -/
def ethernetInput (frame : List Byte) (rc : ℤ) : Prog RxSystem ℤ := do
  Prog.modify fun s => { s with input := s.input ++ [frame] }
  pure rc

/-- `ifdev->stats`, one counter incremented. -/
def count (f : RxStats → RxStats) : Prog RxSystem Unit := Prog.modify fun s => { s with stats := f s.stats }

/-- The body of the loop up to the return of `ethernet_input`. -/
def rxDrainBody (rc : ℤ) : Prog RxSystem Unit := do
  Prog.modify fun s => { s with rxOffset := 0 }
  let s ← Prog.get
  let off := s.rxOffset
  let hdr := readHeader s.rxbuf off.toNat
  if hdr.status &&& rtl8139RxRok = 0 ∨ hdr.status &&& rtl8139RxBad ≠ 0 then
    count fun t => { t with rxErr := t.rxErr + 1 }
    rtl8139RxResync
  else if hdr.size.toNat < ethFrameMin + ethFcsLen ∨ hdr.size.toNat > ethFrameMaxFcs then
    count fun t => { t with rxTooBig := t.rxTooBig + 1 }
    rtl8139RxResync
  else
    let length := hdr.size - BitVec.ofNat 16 ethFcsLen
    let rc ← ethernetInput (load s.rxbuf (off.toNat + 4) length.toNat) rc
    if rc = 0 then count fun t => { t with rxOk := t.rxOk + 1 }
    else count fun t => { t with rxDropped := t.rxDropped + 1 }
    Prog.modify fun s => { s with stage := .advance off hdr.size }

/-- The end of the body: the read pointer and CAPR. -/
def rxDrainAdvance (off : BitVec 32) (size : BitVec 16) (s : RxSystem) : RxSystem :=
  let s := { s with rxOffset := (off + size.setWidth 32 + 4#32 + 3#32) &&& rtl8139RxPtrMask }
  { s.rtl8139CaprSet s.rxOffset with stage := .test }

/-- Steps of the chip and of the drain loop. With `careful` the body is only entered when the next unread frame
lies at the start of the ring. -/
inductive RxStep (careful : Prop) (s : RxSystem) : RxSystem → Prop
  | place (f : GoodFrame) (hroom : s.Room f) : RxStep careful s (s.place f)
  | drain (hs : s.stage = .idle) : RxStep careful s { s with stage := .test }
  | testEmpty (hs : s.stage = .test) (hb : s.bufferEmpty = true) : RxStep careful s { s with stage := .idle }
  | testFull (hs : s.stage = .test) (hb : s.bufferEmpty = false) : RxStep careful s { s with stage := .body }
  | body (rc : ℤ) (s' : RxSystem) (hs : s.stage = .body) (hclear : careful → s.nextOffset = 0)
      (h : rxDrainBody rc s = .ok () s') : RxStep careful s s'
  | bodyPanic (rc : ℤ) (msg : String) (s' : RxSystem) (hs : s.stage = .body) (hclear : careful → s.nextOffset = 0)
      (h : rxDrainBody rc s = .panic msg s') : RxStep careful s { s' with stage := .panicked }
  | advance (off : BitVec 32) (size : BitVec 16) (hs : s.stage = .advance off size) :
      RxStep careful s (rxDrainAdvance off size s)

def RxRun (careful : Prop) : RxSystem → RxSystem → Prop := Relation.ReflTransGen (RxStep careful)

end Borgos.Net
