import Borgos.Foundations.Hoare
import Borgos.Usb.ControlMsg

/-! # `usb_core.c`: string descriptors

`usb_get_ascii_string` reads the list of languages and then a string into a local buffer, each in two steps, header
first. The buffers have their sizes in their types, and an access outside of one is stuck. What the device answers to
a message is arbitrary; a message that fails panics, as `usb_control_msg` does.
-/
namespace Borgos.Usb
open Borgos.Foundations
set_option autoImplicit false

def usbMaxstringlen : ℕ := 128

def usbDeviceRequestGetDescriptor : BitVec 8 := 6#8

def usbDescriptorTypeString : BitVec 16 := 3#16

/-- `USB_BMREQUESTTYPE_DIR_IN | USB_BMREQUESTTYPE_TYPE_STANDARD | USB_BMREQUESTTYPE_RECIPIENT_DEVICE`. -/
def bmRequestTypeRead : BitVec 8 := 0x80#8

def usbPrimaryLanguageMask : BitVec 16 := 0x3ff#16

def usbLangEnglish : BitVec 16 := 0x09#16

/-- `sizeof(buf)`: a descriptor without characters and room for `USB_MAXSTRINGLEN` of them. -/
def sizeofStringBuf : ℕ := 2 + usbMaxstringlen * 2

/-- What the bus makes of an IN message: the bytes the device sends, or a failure. -/
def UsbBus (ω : Type) := SetupData → ω → Option (ℕ → BitVec 8) × ω

/-- `usb_control_msg` for an IN message: `wLength` bytes. -/
def UsbBus.msg {ω : Type} (bus : UsbBus ω) (d : SetupData) : Prog ω (List (BitVec 8)) := fun w =>
  match bus d w with
  | (some reply, w') => .ok ((List.range d.wLength.toNat).map reply) w'
  | (none, w') => .panic "usb_control_msg" w'

/-- The local buffers, the caller's `strbuf` and the bus. -/
structure StringRead (ω : Type) (strbufsize : ℕ) where
  buf : Vector (BitVec 8) sizeofStringBuf
  alignedbuf : Vector (BitVec 16) usbMaxstringlen
  strbuf : Vector (BitVec 8) strbufsize
  bus : ω

variable {ω : Type} {strbufsize : ℕ}

/-! ## Accesses -/

def readBuf (i : ℕ) : Prog (StringRead ω strbufsize) (BitVec 8) := fun s =>
  if h : i < sizeofStringBuf then .ok (s.buf[i]) s else .stuck

def writeBuf (i : ℕ) (b : BitVec 8) : Prog (StringRead ω strbufsize) Unit := fun s =>
  if h : i < sizeofStringBuf then .ok () { s with buf := s.buf.set i b } else .stuck

def readAligned (i : ℕ) : Prog (StringRead ω strbufsize) (BitVec 16) := fun s =>
  if h : i < usbMaxstringlen then .ok (s.alignedbuf[i]) s else .stuck

def writeAligned (i : ℕ) (u : BitVec 16) : Prog (StringRead ω strbufsize) Unit := fun s =>
  if h : i < usbMaxstringlen then .ok () { s with alignedbuf := s.alignedbuf.set i u } else .stuck

def writeStr (i : ℕ) (c : BitVec 8) : Prog (StringRead ω strbufsize) Unit := fun s =>
  if h : i < strbufsize then .ok () { s with strbuf := s.strbuf.set i c } else .stuck

/-- `desc->bString[i]`: two bytes, low byte first. -/
def readUnit (i : ℕ) : Prog (StringRead ω strbufsize) (BitVec 16) := do
  let lo ← readBuf (2 + 2 * i)
  let hi ← readBuf (2 + 2 * i + 1)
  pure (hi.setWidth 16 <<< 8 ||| lo.setWidth 16)

/-! ## Reading a descriptor -/

def usbControlIn (bus : UsbBus ω) (d : SetupData) : Prog (StringRead ω strbufsize) (List (BitVec 8)) :=
  Prog.zoom (fun s => s.bus) (fun w s => { s with bus := w }) (bus.msg d)

/-- The bytes of a message in the buffer, from `i` on. -/
def storeReply : ℕ → List (BitVec 8) → Prog (StringRead ω strbufsize) Unit
  | _, [] => pure ()
  | i, b :: bs => do
    writeBuf i b
    storeReply (i + 1) bs

/-- `usb_get_descriptor` into the local buffer. -/
def usbGetDescriptor (bus : UsbBus ω) (bRequest bmRequestType : BitVec 8) (wValue wIndex buflen : BitVec 16) :
    Prog (StringRead ω strbufsize) UsbStatus := do
  if buflen.toNat > sizeofDescriptorHeader then do
    let hdr ← usbControlIn bus ⟨bmRequestType, bRequest, wValue, wIndex, 2#16⟩
    let bLength := hdr.headD 0#8
    if bLength.toNat < sizeofDescriptorHeader then Prog.panic "Descriptor length too short"
    else do
      let bytes ← usbControlIn bus
        ⟨bmRequestType, bRequest, wValue, wIndex, BitVec.ofNat 16 (min bLength.toNat buflen.toNat)⟩
      storeReply 0 bytes
      pure usbOk
  else do
    let bytes ← usbControlIn bus ⟨bmRequestType, bRequest, wValue, wIndex, buflen⟩
    storeReply 0 bytes
    pure usbOk

/-- `usb_get_string_descriptor` into the local buffer. -/
def usbGetStringDescriptor (bus : UsbBus ω) (index : BitVec 8) (langId buflen : BitVec 16) :
    Prog (StringRead ω strbufsize) UsbStatus :=
  usbGetDescriptor bus usbDeviceRequestGetDescriptor bmRequestTypeRead
    (usbDescriptorTypeString <<< 8 ||| index.setWidth 16) langId buflen

/-! ## The string -/

/-- `(desc->bLength - sizeof(struct USB20_descriptor_header)) / sizeof(uint16_t)`, in `size_t`. -/
def unitCount (bLength : BitVec 8) : ℕ := (bLength.toNat + 2 ^ 64 - 2) % 2 ^ 64 / 2

/-- The loop over the languages, with `n` of them still to look at. -/
def findEnglish (langId : BitVec 16) : ℕ → ℕ → Prog (StringRead ω strbufsize) (BitVec 16)
  | 0, _ => pure langId
  | n + 1, i => do
    let u ← readUnit i
    if u &&& usbPrimaryLanguageMask = usbLangEnglish then pure u else findEnglish langId n (i + 1)

/-- `memcpy(alignedbuf, desc->bString, n * 2)`, from unit `i` on. -/
def copyUnits : ℕ → ℕ → Prog (StringRead ω strbufsize) Unit
  | 0, _ => pure ()
  | n + 1, i => do
    let u ← readUnit i
    writeAligned i u
    copyUnits n (i + 1)

/-- The character for a UTF-16 unit. -/
def asciiChar (u : BitVec 16) : BitVec 8 := if u.toNat ≤ 0x7f then u.setWidth 8 else 0x3f#8

/-- `utf16le_to_ascii`, with `n` units still to translate. -/
def utf16leToAscii : ℕ → ℕ → Prog (StringRead ω strbufsize) Unit
  | 0, _ => pure ()
  | n + 1, i => do
    let u ← readAligned i
    writeStr i (asciiChar u)
    utf16leToAscii n (i + 1)

/-- `num_chars`: the minimum is taken in `size_t` and kept in 16 bits. -/
def numChars (bLength : BitVec 8) (strbufsize : ℕ) : ℕ :=
  let n := min (unitCount bLength) ((BitVec.ofNat 32 strbufsize - 1#32).toNat) % 2 ^ 16
  if n > usbMaxstringlen then usbMaxstringlen else n

/-- `usb_get_ascii_string`. -/
def usbGetAsciiString (bus : UsbBus ω) (iString : BitVec 32) : Prog (StringRead ω strbufsize) UsbStatus := do
  let res ← usbGetStringDescriptor bus 0#8 0#16 (BitVec.ofNat 16 sizeofStringBuf)
  if res ≠ usbOk then Prog.panic "usb_get_string_descriptor failed"
  else do
    let bLength ← readBuf 0
    let langCount := (BitVec.ofNat 32 (unitCount bLength)).toInt
    if langCount = 0 then Prog.panic "String descriptor language list is empty\n"
    else do
      let first ← readUnit 0
      let langId ← findEnglish first langCount.toNat 0
      let res ← usbGetStringDescriptor bus (iString.setWidth 8) langId (BitVec.ofNat 16 sizeofStringBuf)
      if res ≠ usbOk then Prog.panic "FAILED usb_get_string_descriptor"
      else do
        let bLength ← readBuf 0
        copyUnits (numChars bLength strbufsize) 0
        utf16leToAscii (numChars bLength strbufsize) 0
        writeStr (numChars bLength strbufsize) 0#8
        pure usbOk

/-! ## Safety -/

/-- The first `k` characters are ASCII. -/
def AsciiBelow (strbuf : Vector (BitVec 8) strbufsize) (k : ℕ) : Prop :=
  ∀ j < k, ∃ c, strbuf[j]? = some c ∧ c.toNat ≤ 0x7F

/-- The string ends inside the buffer, and before its end there is only ASCII. -/
def Terminated (strbuf : Vector (BitVec 8) strbufsize) : Prop :=
  ∃ k, strbuf[k]? = some 0#8 ∧ AsciiBelow strbuf k

theorem unitCount_le {b : BitVec 8} (h : 2 ≤ b.toNat) : unitCount b = (b.toNat - 2) / 2 := by
  have hlt := b.isLt
  unfold unitCount
  omega

theorem unitCount_wrap {b : BitVec 8} (h : b.toNat < 2) : unitCount b = 2 ^ 63 - 1 := by
  unfold unitCount
  omega

/-- At most 126 languages are looked at; a length that wraps gives none. -/
theorem langCount_le (b : BitVec 8) : (BitVec.ofNat 32 (unitCount b)).toInt.toNat ≤ 126 := by
  have hlt := b.isLt
  by_cases h : 2 ≤ b.toNat
  · rw [unitCount_le h, BitVec.toInt_eq_toNat_of_lt]
    · rw [BitVec.toNat_ofNat]
      omega
    · rw [BitVec.toNat_ofNat]
      omega
  · rw [unitCount_wrap (by omega)]
    decide

theorem numChars_lt (b : BitVec 8) : numChars b usbMaxstringlen < usbMaxstringlen := by
  have h : (BitVec.ofNat 32 usbMaxstringlen - 1#32).toNat = 127 := by decide
  unfold numChars
  rw [h]
  unfold usbMaxstringlen
  dsimp only
  split <;> omega

theorem asciiChar_le (u : BitVec 16) : (asciiChar u).toNat ≤ 0x7F := by
  unfold asciiChar
  split
  · rw [BitVec.toNat_setWidth]
    omega
  · decide

section
variable {s : StringRead ω strbufsize} {i n : ℕ}

theorem readBuf_safe (h : i < sizeofStringBuf) : (readBuf i).Safe s fun _ t => t = s := by
  refine .of_ok (a := s.buf[i]) (t := s) ?_ rfl
  simp [readBuf, h]

theorem readUnit_safe (h : i < usbMaxstringlen) : (readUnit i).Safe s fun _ t => t = s := by
  have hsize : sizeofStringBuf = 2 + usbMaxstringlen * 2 := rfl
  unfold readUnit
  refine (readBuf_safe (by omega)).bind ?_
  rintro lo _ rfl
  refine (readBuf_safe (by omega)).bind ?_
  rintro hi _ rfl
  exact .pure rfl

theorem findEnglish_safe (langId : BitVec 16) (n : ℕ) : ∀ i, i + n ≤ usbMaxstringlen →
    (findEnglish langId n i).Safe s fun _ t => t = s := by
  induction n with
  | zero =>
    intro i _
    exact .pure rfl
  | succ n ih =>
    intro i h
    unfold findEnglish
    refine (readUnit_safe (by omega)).bind ?_
    rintro u _ rfl
    split
    · exact .pure rfl
    · exact ih (i + 1) (by omega)

theorem writeBuf_safe (b : BitVec 8) (h : i < sizeofStringBuf) : (writeBuf i b).Safe s fun _ _ => True := by
  refine .of_ok (a := ()) (t := { s with buf := s.buf.set i b }) ?_ trivial
  simp [writeBuf, h]

theorem storeReply_safe (bs : List (BitVec 8)) : ∀ (i : ℕ) (s : StringRead ω strbufsize),
    i + bs.length ≤ sizeofStringBuf → (storeReply i bs).Safe s fun _ _ => True := by
  induction bs with
  | nil =>
    intro i s _
    exact .pure trivial
  | cons b bs ih =>
    intro i s h
    rw [List.length_cons] at h
    unfold storeReply
    have hi : i < sizeofStringBuf := by omega
    refine (writeBuf_safe b hi).bind ?_
    intro _ t _
    exact ih (i + 1) t (by omega)

theorem usbControlIn_safe (bus : UsbBus ω) (d : SetupData) :
    (usbControlIn bus d).Safe s fun bytes _ => bytes.length = d.wLength.toNat := by
  obtain ⟨answer, w, h⟩ : ∃ answer w, bus d s.bus = (answer, w) := ⟨_, _, rfl⟩
  unfold Prog.Safe usbControlIn Prog.zoom UsbBus.msg
  rw [h]
  cases answer with
  | some reply => simp
  | none => trivial

/-- The message is no longer than the buffer, whatever the header said. -/
theorem usbGetStringDescriptor_safe (bus : UsbBus ω) (index : BitVec 8) (langId : BitVec 16) :
    (usbGetStringDescriptor bus index langId (BitVec.ofNat 16 sizeofStringBuf)).Safe s fun _ _ => True := by
  have hlen : (BitVec.ofNat 16 sizeofStringBuf).toNat = sizeofStringBuf := by decide
  unfold usbGetStringDescriptor usbGetDescriptor
  rw [hlen, if_pos (by decide)]
  refine (usbControlIn_safe bus _).bind ?_
  intro hdr t _
  dsimp only
  split
  · exact .panic _
  · refine (usbControlIn_safe bus _).bind ?_
    intro bytes t hbytes
    refine (storeReply_safe bytes 0 t ?_).bind fun _ _ _ => .pure trivial
    have hmin := Nat.min_le_right (hdr.headD 0#8).toNat sizeofStringBuf
    rw [hbytes, BitVec.toNat_ofNat, Nat.zero_add]
    exact (Nat.mod_le _ _).trans hmin

theorem writeAligned_safe (u : BitVec 16) (h : i < usbMaxstringlen) : (writeAligned i u).Safe s fun _ _ => True := by
  refine .of_ok (a := ()) (t := { s with alignedbuf := s.alignedbuf.set i u }) ?_ trivial
  simp [writeAligned, h]

theorem readAligned_safe (h : i < usbMaxstringlen) : (readAligned i).Safe s fun _ t => t = s := by
  refine .of_ok (a := s.alignedbuf[i]) (t := s) ?_ rfl
  simp [readAligned, h]

theorem copyUnits_safe (n : ℕ) : ∀ (i : ℕ) (s : StringRead ω strbufsize), i + n ≤ usbMaxstringlen →
    (copyUnits n i).Safe s fun _ _ => True := by
  induction n with
  | zero =>
    intro i s _
    exact .pure trivial
  | succ n ih =>
    intro i s h
    have hi : i < usbMaxstringlen := by omega
    unfold copyUnits
    refine (readUnit_safe hi).bind ?_
    rintro u _ rfl
    refine (writeAligned_safe u hi).bind ?_
    intro _ t _
    exact ih (i + 1) t (by omega)

theorem writeStr_safe (c : BitVec 8) (h : i < strbufsize) :
    (writeStr i c).Safe s fun _ t => t.strbuf = s.strbuf.set i c := by
  refine .of_ok (a := ()) (t := { s with strbuf := s.strbuf.set i c }) ?_ rfl
  simp [writeStr, h]

/-- One more character is ASCII. -/
theorem AsciiBelow.step {strbuf : Vector (BitVec 8) strbufsize} (h : AsciiBelow strbuf i) (hi : i < strbufsize)
    (u : BitVec 16) : AsciiBelow (strbuf.set i (asciiChar u)) (i + 1) := by
  intro j hj
  by_cases hij : i = j
  · subst hij
    exact ⟨asciiChar u, Vector.getElem?_set_self hi, asciiChar_le u⟩
  · rw [Vector.getElem?_set_ne hi hij]
    exact h j (by omega)

theorem utf16leToAscii_safe (n : ℕ) : ∀ (i : ℕ) (s : StringRead ω strbufsize), i + n ≤ usbMaxstringlen →
    i + n ≤ strbufsize → AsciiBelow s.strbuf i →
    (utf16leToAscii n i).Safe s fun _ t => AsciiBelow t.strbuf (i + n) := by
  induction n with
  | zero =>
    intro i s _ _ h
    exact .pure h
  | succ n ih =>
    intro i s h128 hsize h
    have hi : i < usbMaxstringlen := by omega
    unfold utf16leToAscii
    refine (readAligned_safe hi).bind ?_
    rintro u _ rfl
    refine (writeStr_safe (asciiChar u) (by omega)).bind ?_
    intro _ t ht
    have hnext := ih (i + 1) t (by omega) (by omega) (by rw [ht]; exact h.step (by omega) u)
    rwa [show i + 1 + n = i + (n + 1) from by omega] at hnext

/-- The terminator after the ASCII characters. -/
theorem AsciiBelow.terminate {strbuf : Vector (BitVec 8) strbufsize} (h : AsciiBelow strbuf i) (hi : i < strbufsize) :
    Terminated (strbuf.set i 0#8) := by
  refine ⟨i, Vector.getElem?_set_self hi, ?_⟩
  intro j hj
  rw [Vector.getElem?_set_ne hi (by omega)]
  exact h j hj

end

theorem ascii_string_safe (bus : UsbBus ω) (iString : BitVec 32) (s : StringRead ω usbMaxstringlen) :
    (∃ m t, usbGetAsciiString bus iString s = .panic m t) ∨
      ∃ res t, usbGetAsciiString bus iString s = .ok res t ∧ res = usbOk ∧ Terminated t.strbuf := by
  rw [← Prog.Safe.iff_panic_or]
  have hsize : 0 < sizeofStringBuf := by decide
  unfold usbGetAsciiString
  refine (usbGetStringDescriptor_safe bus _ _).bind ?_
  intro res s₁ _
  split
  · exact .panic _
  · refine (readBuf_safe hsize).bind ?_
    rintro b _ rfl
    dsimp only
    split
    · exact .panic _
    · refine (readUnit_safe (by decide)).bind ?_
      rintro first _ rfl
      have hcount : 0 + (BitVec.ofNat 32 (unitCount b)).toInt.toNat ≤ usbMaxstringlen := by
        have h := langCount_le b
        unfold usbMaxstringlen
        omega
      refine (findEnglish_safe first _ 0 hcount).bind ?_
      rintro langId _ rfl
      refine (usbGetStringDescriptor_safe bus _ _).bind ?_
      intro res s₂ _
      split
      · exact .panic _
      · refine (readBuf_safe hsize).bind ?_
        rintro b _ rfl
        have hn := numChars_lt b
        refine (copyUnits_safe _ 0 _ (by omega)).bind ?_
        intro _ s₃ _
        refine (utf16leToAscii_safe _ 0 s₃ (by omega) (by omega) (fun j hj => by omega)).bind ?_
        intro _ s₄ hascii
        rw [Nat.zero_add] at hascii
        refine (writeStr_safe 0#8 hn).bind ?_
        intro _ t ht
        refine .pure ⟨rfl, ?_⟩
        rw [ht]
        exact hascii.terminate hn

end Borgos.Usb
