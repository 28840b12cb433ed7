import Borgos.Foundations.SpillRing
import Borgos.Net.Rtl8139

/-! # The receive ring of the RTL8139

The body of the drain loop resets `rx_offset`, so that it reads the start of the ring in every iteration. A run is
in step with the chip as long as the next unread frame is there whenever the body is entered; after one iteration
it no longer is.
-/
namespace Borgos.Net
open Borgos.Foundations FlatMemory SpillRing RxSystem
set_option autoImplicit false

namespace RxSystem

/-- The frames that `ethernet_input` has not been called with. -/
def awaiting (s : RxSystem) : List GoodFrame :=
  match s.stage with
  | .advance _ _ => s.unread.tail.map Prod.snd
  | _ => s.unread.map Prod.snd

end RxSystem

/-- The driver and the chip agree. The frames passed on are those placed, in order, without those that wait; between
iterations the read pointer is that of the chip, and CAPR lies 16 before it. -/
structure RxSynced (s : RxSystem) : Prop where
  delivered : s.input ++ s.awaiting.map GoodFrame.data = s.placed.map GoodFrame.data
  running : s.stage ≠ .panicked
  aligned : s.stage = .idle ∨ s.stage = .test → s.rxOffset.toNat % 4 = 0 ∧ s.rxOffset.toNat < rtl8139RxUsable
  pointer : s.stage = .idle ∨ s.stage = .test → s.rxOffset.toNat = s.nextOffset
  capr : s.stage = .idle ∨ s.stage = .test → s.capr = BitVec.ofNat 16 s.nextOffset - 16#16

/-! ## Frames in memory -/

theorem ofLe16_le16 (x : BitVec 16) : ofLe16 (BitVec.ofNat 8 x.toNat) (BitVec.ofNat 8 (x.toNat / 256)) = x := by
  have hx := x.isLt
  refine BitVec.eq_of_toNat_eq ?_
  unfold ofLe16
  rw [BitVec.toNat_ofNat, BitVec.toNat_ofNat, BitVec.toNat_ofNat]
  omega

namespace GoodFrame
variable {f : GoodFrame} {mem : ℕ → Byte} {p : ℕ}

theorem size_toNat : f.size.toNat = f.bytes.length := by
  have hmax : f.bytes.length ≤ 14 + 1500 + 4 := f.max
  unfold size
  rw [BitVec.toNat_ofNat]
  omega

theorem length_image : f.image.length = 4 + f.bytes.length := by
  simp only [image, le16, List.length_append, List.length_cons, List.length_nil]

theorem length_image_le : f.image.length ≤ f.span := by
  rw [length_image]
  unfold span
  omega

theorem span_pos : 0 < f.span := by
  have hmin : 60 + 4 ≤ f.bytes.length := f.min
  unfold span
  omega

theorem span_lt : f.span < rtl8139RxUsable := by
  have hmax : f.bytes.length ≤ 14 + 1500 + 4 := f.max
  unfold span rtl8139RxUsable
  omega

theorem readHeader_image (h : load mem p f.image.length = f.image) : readHeader mem p = ⟨f.status, f.size⟩ := by
  have hcell : ∀ i (hi : i < f.image.length), mem (p + i) = f.image[i] := by
    intro i hi
    rw [← getElem_load (m := mem) (a := p) (by rw [length_load]; exact hi)]
    exact List.getElem_of_eq h _
  have hlen : 4 ≤ f.image.length := by
    rw [length_image]
    omega
  unfold readHeader
  rw [← ofLe16_le16 f.status, ← ofLe16_le16 f.size]
  refine congrArg₂ RxHeader.mk (congrArg₂ ofLe16 ?_ ?_) (congrArg₂ ofLe16 ?_ ?_)
  · exact hcell 0 (by omega)
  · exact hcell 1 (by omega)
  · exact hcell 2 (by omega)
  · exact hcell 3 (by omega)

theorem load_data (h : load mem p f.image.length = f.image) :
    load mem (p + 4) (f.size - BitVec.ofNat 16 ethFcsLen).toNat = f.data := by
  have hmin : 60 + 4 ≤ f.bytes.length := f.min
  have hlength : (f.size - BitVec.ofNat 16 ethFcsLen).toNat = f.bytes.length - 4 := by
    have hlt := f.size.isLt
    have hsize := size_toNat (f := f)
    unfold ethFcsLen
    rw [BitVec.toNat_sub, BitVec.toNat_ofNat]
    omega
  have hbytes : load mem (p + 4) f.bytes.length = f.bytes := by
    rw [length_image, load_add] at h
    exact (List.append_inj h (by rw [length_load]; rfl)).2
  rw [hlength]
  calc load mem (p + 4) (f.bytes.length - 4)
      = (load mem (p + 4) f.bytes.length).take (f.bytes.length - 4) :=
        (load_drop_take (i := 0) (by omega)).symm
    _ = f.data := by rw [hbytes]; rfl

end GoodFrame

/-! ## The read pointer -/

theorem and_ptrMask (n : ℕ) : n &&& 0x7FFC = n % 32768 / 4 * 4 := by
  have hmask : n &&& 0x7FFC = ((n >>> 2) &&& (2 ^ 13 - 1)) <<< 2 := by
    refine Nat.eq_of_testBit_eq fun i => ?_
    rw [show 0x7FFC = (2 ^ 13 - 1) <<< 2 from rfl]
    simp only [Nat.testBit_and, Nat.testBit_shiftLeft, Nat.testBit_shiftRight]
    by_cases hi : 2 ≤ i
    · simp [hi]
    · simp [hi]
  rw [hmask, Nat.and_two_pow_sub_one_eq_mod, Nat.shiftRight_eq_div_pow, Nat.shiftLeft_eq]
  omega

/-- The offset written after a frame of any size at the start of the ring. -/
theorem advance_offset (size : BitVec 16) :
    ((0#32 + size.setWidth 32 + 4#32 + 3#32) &&& rtl8139RxPtrMask).toNat = (size.toNat + 7) % 32768 / 4 * 4 := by
  have hlt := size.isLt
  have hsum : (0#32 + size.setWidth 32 + 4#32 + 3#32).toNat = size.toNat + 7 := by
    simp only [BitVec.toNat_add, BitVec.toNat_setWidth, BitVec.toNat_ofNat]
    omega
  rw [BitVec.toNat_and, hsum, show rtl8139RxPtrMask.toNat = 0x7FFC by decide, and_ptrMask]

theorem advance_offset_frame (f : GoodFrame) :
    ((0#32 + f.size.setWidth 32 + 4#32 + 3#32) &&& rtl8139RxPtrMask).toNat = f.span := by
  have hmax : f.bytes.length ≤ 14 + 1500 + 4 := f.max
  rw [advance_offset, GoodFrame.size_toNat]
  unfold GoodFrame.span
  omega

theorem capr_of_offset {x : BitVec 32} {n : ℕ} (hx : x.toNat = n) :
    (x - rtl8139CaprBias).setWidth 16 = BitVec.ofNat 16 n - 16#16 := by
  have hlt := x.isLt
  refine BitVec.eq_of_toNat_eq ?_
  unfold rtl8139CaprBias
  rw [BitVec.toNat_setWidth, BitVec.toNat_sub, BitVec.toNat_sub, BitVec.toNat_ofNat, BitVec.toNat_ofNat,
    BitVec.toNat_ofNat]
  omega

theorem capr_add_bias {n : ℕ} (hn : n < 2 ^ 16) : (BitVec.ofNat 16 n - 16#16 + 16#16).toNat = n := by
  rw [BitVec.sub_add_cancel, BitVec.toNat_ofNat, Nat.mod_eq_of_lt hn]

/-! ## What keeps the two in step -/

/-- The frames lie in the ring from position `A` on and the memory holds them. -/
structure RingOk (s : RxSystem) (A : ℕ) : Prop where
  laid : ∃ W, Laid GoodFrame.span rtl8139RxUsable A s.unread W ∧ s.cbr = W % rtl8139RxUsable ∧
    W ≤ A + rtl8139RxUsable
  aligned : A % 4 = 0
  holds : ∀ r ∈ s.unread, load s.rxbuf r.1 r.2.image.length = r.2.image

/-- The invariant of runs that enter the body only at the start of the ring. -/
structure RxInv (s : RxSystem) : Prop where
  ring : ∃ A, RingOk s A
  synced : RxSynced s
  body : s.stage = .body → s.unread ≠ []
  advance : ∀ off size, s.stage = .advance off size →
    ∃ f rest, s.unread = (0, f) :: rest ∧ off = 0 ∧ size = f.size

theorem RxInv.start : RxInv RxSystem.start where
  ring := ⟨0, ⟨0, rfl, rfl, by decide⟩, rfl, fun _ h => absurd h List.not_mem_nil⟩
  synced := ⟨rfl, by decide, by decide, fun _ => rfl, fun _ => by decide⟩
  body := by decide
  advance := fun _ _ h => nomatch h

theorem nextOffset_place (s : RxSystem) (f : GoodFrame) : (s.place f).nextOffset = s.nextOffset := by
  unfold nextOffset place
  cases h : s.unread with
  | nil => rfl
  | cons r rest => rfl

namespace RingOk
variable {s : RxSystem} {A : ℕ}

theorem nextOffset_eq (h : RingOk s A) : s.nextOffset = A % rtl8139RxUsable := by
  obtain ⟨W, hlaid, hcbr, -⟩ := h.laid
  unfold nextOffset
  cases hu : s.unread with
  | nil =>
    rw [hu] at hlaid
    rw [show A = W from hlaid]
    exact hcbr
  | cons r rest =>
    rw [hu] at hlaid
    exact hlaid.1

theorem base_of_head (h : RingOk s A) {o : ℕ} {f : GoodFrame} {rest : List (ℕ × GoodFrame)}
    (hu : s.unread = (o, f) :: rest) : A % rtl8139RxUsable = o := by
  rw [← h.nextOffset_eq]
  unfold nextOffset
  rw [hu]

/-- The frames in the ring are not overwritten. -/
theorem place (h : RingOk s A) {f : GoodFrame} (hroom : s.Room f) : RingOk (s.place f) A := by
  obtain ⟨W, hlaid, hcbr, hW⟩ := h.laid
  have hsum := hlaid.sum_spans
  have hfits : W + f.span ≤ A + rtl8139RxUsable := by
    unfold Room at hroom
    omega
  refine ⟨⟨W + f.span, ?_, ?_, hfits⟩, h.aligned, ?_⟩
  · show Laid _ _ A (s.unread ++ [(s.cbr, f)]) _
    rw [hcbr]
    exact hlaid.push f
  · show (s.cbr + f.span) % rtl8139RxUsable = _
    rw [hcbr, Nat.mod_add_mod]
  · intro r hr
    show load (store s.rxbuf s.cbr f.image) r.1 _ = _
    rcases List.mem_append.mp hr with hold | hnew
    · have hapart := hlaid.disjoint_next hold f.span_pos hfits
      rw [← hcbr] at hapart
      have h₁ := r.2.length_image_le
      have h₂ := f.length_image_le
      rw [load_store_of_disjoint (by omega)]
      exact h.holds r hold
    · rw [List.mem_singleton.mp hnew]
      exact load_store_self

theorem tail (h : RingOk s A) {o : ℕ} {f : GoodFrame} {rest : List (ℕ × GoodFrame)}
    (hu : s.unread = (o, f) :: rest) : ∃ W, Laid GoodFrame.span rtl8139RxUsable (A + f.span) rest W ∧
      s.cbr = W % rtl8139RxUsable ∧ W ≤ A + f.span + rtl8139RxUsable := by
  obtain ⟨W, hlaid, hcbr, hW⟩ := h.laid
  rw [hu] at hlaid
  exact ⟨W, hlaid.2, hcbr, by omega⟩

/-- The frame at the head is read. -/
theorem read {t : RxSystem} (h : RingOk s A) {o : ℕ} {f : GoodFrame} {rest : List (ℕ × GoodFrame)}
    (hu : s.unread = (o, f) :: rest) (ht : t.unread = rest) (hcbr : t.cbr = s.cbr) (hbuf : t.rxbuf = s.rxbuf) :
    RingOk t (A + f.span) := by
  have haligned := h.aligned
  refine ⟨?_, ?_, ?_⟩
  · rw [ht, hcbr]
    exact h.tail hu
  · unfold GoodFrame.span
    omega
  · rw [ht, hbuf]
    intro r hr
    exact h.holds r (by rw [hu]; exact List.mem_cons_of_mem _ hr)

end RingOk

/-! ## Steps -/

/-- The body, with a frame at the start of the ring. -/
theorem rxDrainBody_at_start {s : RxSystem} {f : GoodFrame} (hmem : load s.rxbuf 0 f.image.length = f.image) (rc : ℤ) :
    ∃ stats, rxDrainBody rc s = .ok ()
      { s with
        rxOffset := 0
        stats := stats
        stage := .advance 0 f.size
        input := s.input ++ [f.data] } := by
  have hhdr := GoodFrame.readHeader_image hmem
  have hdata := GoodFrame.load_data hmem
  have hstatus : ¬(f.status &&& rtl8139RxRok = 0 ∨ f.status &&& rtl8139RxBad ≠ 0) := by
    rintro (h | h)
    · exact f.rok h
    · exact h f.noError
  have hsize : ¬(f.size.toNat < ethFrameMin + ethFcsLen ∨ f.size.toNat > ethFrameMaxFcs) := by
    have hmin := f.min
    have hmax := f.max
    rw [GoodFrame.size_toNat]
    omega
  have hzero : (0 : BitVec 32).toNat = 0 := rfl
  unfold rxDrainBody count
  by_cases hrc : rc = 0
  · refine ⟨{ s.stats with rxOk := s.stats.rxOk + 1 }, ?_⟩
    simp only [Prog.bind_run, Prog.modify_run, Prog.get_run, Outcome.andThen_ok, hzero, hhdr, if_neg hstatus,
      if_neg hsize, hdata, ethernetInput, Prog.pure_run, if_pos hrc]
  · refine ⟨{ s.stats with rxDropped := s.stats.rxDropped + 1 }, ?_⟩
    simp only [Prog.bind_run, Prog.modify_run, Prog.get_run, Outcome.andThen_ok, hzero, hhdr, if_neg hstatus,
      if_neg hsize, hdata, ethernetInput, Prog.pure_run, if_neg hrc]

namespace RxInv
variable {s : RxSystem}

theorem place (h : RxInv s) {f : GoodFrame} (hroom : s.Room f) : RxInv (s.place f) := by
  obtain ⟨A, hA⟩ := h.ring
  have hawait : (s.place f).awaiting = s.awaiting ++ [f] := by
    unfold awaiting
    cases hs : s.stage with
    | advance off size =>
      obtain ⟨g, rest, hu, -⟩ := h.advance off size hs
      simp [RxSystem.place, hs, hu]
    | _ => simp [RxSystem.place, hs]
  refine ⟨⟨A, hA.place hroom⟩, ⟨?_, h.synced.running, h.synced.aligned, ?_, ?_⟩, ?_, ?_⟩
  · show s.input ++ _ = (s.placed ++ [f]).map GoodFrame.data
    rw [hawait, List.map_append, List.map_append, ← List.append_assoc, h.synced.delivered]
  · rw [nextOffset_place]
    exact h.synced.pointer
  · rw [nextOffset_place]
    exact h.synced.capr
  · intro _
    exact List.append_ne_nil_of_right_ne_nil _ (List.cons_ne_nil _ _)
  · intro off size hs
    obtain ⟨g, rest, hu, hoff, hsize⟩ := h.advance off size hs
    refine ⟨g, rest ++ [(s.cbr, f)], ?_, hoff, hsize⟩
    show s.unread ++ [(s.cbr, f)] = _
    rw [hu]
    rfl

/-- The loop moves to another stage before or after the body. -/
theorem restage (h : RxInv s) {t : RxStage} (hs : s.stage = .idle ∨ s.stage = .test) (ht : t ≠ .panicked)
    (hadv : ∀ off size, t ≠ .advance off size) (hbody : t = .body → s.unread ≠ []) :
    RxInv { s with stage := t } := by
  obtain ⟨A, hA⟩ := h.ring
  have hawait : ({ s with stage := t } : RxSystem).awaiting = s.awaiting := by
    unfold awaiting
    cases t with
    | advance off size => exact absurd rfl (hadv off size)
    | _ => rcases hs with hs | hs <;> rw [hs]
  refine ⟨⟨A, hA.laid, hA.aligned, hA.holds⟩, ⟨?_, ht, fun _ => h.synced.aligned hs, fun _ => h.synced.pointer hs,
    fun _ => h.synced.capr hs⟩, hbody, fun off size e => absurd e (hadv off size)⟩
  rw [hawait]
  exact h.synced.delivered

/-- In the body the next unread frame is at the head, and in memory. -/
theorem head (h : RxInv s) (hs : s.stage = .body) (hnext : s.nextOffset = 0) :
    ∃ f rest, s.unread = (0, f) :: rest ∧ load s.rxbuf 0 f.image.length = f.image := by
  obtain ⟨A, hA⟩ := h.ring
  unfold nextOffset at hnext
  cases hu : s.unread with
  | nil => exact absurd hu (h.body hs)
  | cons r rest =>
    obtain ⟨o, f⟩ := r
    simp only [hu] at hnext
    subst hnext
    refine ⟨f, rest, rfl, hA.holds (0, f) ?_⟩
    rw [hu]
    exact List.mem_cons_self

/-- The head of the ring is passed to `ethernet_input`. -/
theorem bodyStep (h : RxInv s) (hs : s.stage = .body) {f : GoodFrame} {rest : List (ℕ × GoodFrame)}
    (hu : s.unread = (0, f) :: rest) (stats : RxStats) :
    RxInv
      { s with
        rxOffset := 0
        stats := stats
        stage := .advance 0 f.size
        input := s.input ++ [f.data] } := by
  obtain ⟨A, hA⟩ := h.ring
  have hdel := h.synced.delivered
  unfold awaiting at hdel
  simp only [hs, hu, List.map_cons] at hdel
  refine ⟨⟨A, hA.laid, hA.aligned, hA.holds⟩, ⟨?_, (nomatch ·), ?_, ?_, ?_⟩, (nomatch ·), ?_⟩
  · show (s.input ++ [f.data]) ++ (s.unread.tail.map Prod.snd).map GoodFrame.data = _
    rw [hu, List.append_assoc]
    exact hdel
  · rintro (e | e) <;> cases e
  · rintro (e | e) <;> cases e
  · rintro (e | e) <;> cases e
  · intro off size e
    cases e
    exact ⟨f, rest, hu, rfl, rfl⟩

/-- The chip drops the frame that was read, and only that one. -/
theorem dropWhile_read {A : ℕ} (hA : RingOk s A) {f : GoodFrame} {rest : List (ℕ × GoodFrame)}
    (hu : s.unread = (0, f) :: rest) : s.unread.dropWhile (fun r => r.1 ≠ f.span) = rest := by
  have hpos := f.span_pos
  obtain ⟨W, hlaid, -⟩ := hA.tail hu
  rw [hu, List.dropWhile_cons_of_pos (by simpa using Nat.ne_of_lt hpos)]
  cases rest with
  | nil => rfl
  | cons r more =>
    have hr : r.1 = f.span := by
      rw [hlaid.1, Nat.add_mod, hA.base_of_head hu, Nat.zero_add, Nat.mod_mod, Nat.mod_eq_of_lt f.span_lt]
    exact List.dropWhile_cons_of_neg (by simp [hr])

theorem unread_advance {A : ℕ} (hA : RingOk s A) {f : GoodFrame} {rest : List (ℕ × GoodFrame)}
    (hu : s.unread = (0, f) :: rest) : (rxDrainAdvance 0 f.size s).unread = rest := by
  have hcapr : (rxDrainAdvance 0 f.size s).capr = BitVec.ofNat 16 f.span - 16#16 :=
    capr_of_offset (advance_offset_frame f)
  show s.unread.dropWhile (fun r => r.1 ≠ ((rxDrainAdvance 0 f.size s).capr + 16#16).toNat) = rest
  rw [hcapr, capr_add_bias (Nat.lt_trans f.span_lt (by decide))]
  exact dropWhile_read hA hu

theorem advanceStep (h : RxInv s) {off : BitVec 32} {size : BitVec 16} (hs : s.stage = .advance off size) :
    RxInv (rxDrainAdvance off size s) := by
  obtain ⟨A, hA⟩ := h.ring
  obtain ⟨f, rest, hu, rfl, rfl⟩ := h.advance off size hs
  have hoffset : (rxDrainAdvance 0 f.size s).rxOffset.toNat = f.span := advance_offset_frame f
  have hlt := f.span_lt
  have hcapr : (rxDrainAdvance 0 f.size s).capr = BitVec.ofNat 16 f.span - 16#16 :=
    capr_of_offset (advance_offset_frame f)
  have hunread := unread_advance hA hu
  have hring := hA.read hu hunread rfl rfl
  have hnext : (rxDrainAdvance 0 f.size s).nextOffset = f.span := by
    rw [hring.nextOffset_eq, Nat.add_mod, hA.base_of_head hu, Nat.zero_add, Nat.mod_mod, Nat.mod_eq_of_lt hlt]
  have hdel := h.synced.delivered
  unfold awaiting at hdel
  simp only [hs, hu, List.tail_cons] at hdel
  refine ⟨⟨_, hring⟩, ⟨?_, (nomatch ·), fun _ => ?_, fun _ => ?_, fun _ => ?_⟩, (nomatch ·), fun _ _ => (nomatch ·)⟩
  · show s.input ++ ((rxDrainAdvance 0 f.size s).unread.map Prod.snd).map GoodFrame.data = _
    rw [hunread]
    exact hdel
  · rw [hoffset]
    refine ⟨?_, hlt⟩
    unfold GoodFrame.span
    omega
  · rw [hnext]
    exact hoffset
  · rw [hnext]
    exact hcapr

theorem step {careful : Prop} {t : RxSystem} (hcareful : careful) (h : RxInv s) (hstep : RxStep careful s t) :
    RxInv t := by
  cases hstep with
  | place f hroom => exact h.place hroom
  | drain hs => exact h.restage (.inl hs) (by decide) (fun _ _ => (nomatch ·)) (nomatch ·)
  | testEmpty hs hb => exact h.restage (.inr hs) (by decide) (fun _ _ => (nomatch ·)) (nomatch ·)
  | testFull hs hb =>
    refine h.restage (.inr hs) (by decide) (fun _ _ => (nomatch ·)) fun _ hnil => ?_
    unfold bufferEmpty at hb
    rw [hnil] at hb
    cases hb
  | body rc t hs hclear hrun =>
    obtain ⟨f, rest, hu, hmem⟩ := h.head hs (hclear hcareful)
    obtain ⟨stats, hok⟩ := rxDrainBody_at_start hmem rc
    rw [hok] at hrun
    cases hrun
    exact h.bodyStep hs hu stats
  | bodyPanic rc msg t hs hclear hrun =>
    obtain ⟨f, rest, hu, hmem⟩ := h.head hs (hclear hcareful)
    obtain ⟨stats, hok⟩ := rxDrainBody_at_start hmem rc
    rw [hok] at hrun
    cases hrun
  | advance off size hs => exact h.advanceStep hs

end RxInv

/-- **Receive ring.** As long as the body is only entered when the next unread frame lies at the start of the ring,
the frames are passed on once, in order and unchanged, and the read pointer and CAPR follow the chip. -/
theorem rx_ring_in_step (s : RxSystem) (hrun : RxRun True RxSystem.start s) : RxSynced s := by
  have hinv : RxInv s := by
    induction hrun with
    | refl => exact RxInv.start
    | tail _ hstep ih => exact ih.step trivial hstep
  exact hinv.synced

/-! ## The condition is needed -/

/-- What an iteration does, wherever the chip stands. -/
theorem rxDrainBody_ok {rc : ℤ} {s s' : RxSystem} (h : rxDrainBody rc s = .ok () s') :
    ∃ size stats, ethFrameMin + ethFcsLen ≤ size.toNat ∧ size.toNat ≤ ethFrameMaxFcs ∧ s' =
      { s with
        rxOffset := 0
        stats := stats
        stage := .advance 0 size
        input := s.input ++ [load s.rxbuf 4 (size - BitVec.ofNat 16 ethFcsLen).toNat] } := by
  unfold rxDrainBody count at h
  simp only [Prog.bind_run, Prog.modify_run, Prog.get_run, Outcome.andThen_ok] at h
  split_ifs at h with hstatus hsize
  · cases h
  · cases h
  · rw [not_or] at hsize
    by_cases hrc : rc = 0
    · simp only [ethernetInput, Prog.bind_run, Prog.modify_run, Prog.pure_run, Outcome.andThen_ok, if_pos hrc] at h
      cases h
      exact ⟨_, _, Nat.le_of_not_lt hsize.1, Nat.le_of_not_lt hsize.2, rfl⟩
    · simp only [ethernetInput, Prog.bind_run, Prog.modify_run, Prog.pure_run, Outcome.andThen_ok, if_neg hrc] at h
      cases h
      exact ⟨_, _, Nat.le_of_not_lt hsize.1, Nat.le_of_not_lt hsize.2, rfl⟩

/-- An iteration that begins with the next unread frame elsewhere puts driver and chip out of step. Even where the
bytes at the start of the ring are those of the frame, the read pointer is not moved past it. -/
theorem out_of_step {s s' : RxSystem} {A o : ℕ} {f : GoodFrame} {rest : List (ℕ × GoodFrame)} (hring : RingOk s A)
    (hsynced : RxSynced s) (hs : s.stage = .body) (hu : s.unread = (o, f) :: rest) (ho : o ≠ 0) {rc : ℤ}
    (h : rxDrainBody rc s = .ok () s') {off : BitVec 32} {size : BitVec 16} (hs' : s'.stage = .advance off size) :
    ¬RxSynced (rxDrainAdvance off size s') := by
  intro hbad
  obtain ⟨size, stats, hmin, hmax, rfl⟩ := rxDrainBody_ok h
  cases hs'
  obtain ⟨t, ht⟩ : ∃ t, t = rxDrainAdvance 0 size { s with
      rxOffset := 0
      stats := stats
      stage := .advance 0 size
      input := s.input ++ [load s.rxbuf 4 (size - BitVec.ofNat 16 ethFcsLen).toNat] } := ⟨_, rfl⟩
  have hoffset : t.rxOffset.toNat = (size.toNat + 7) % 32768 / 4 * 4 := by
    rw [ht]
    exact advance_offset size
  have hmore := hsynced.delivered
  have hdel := hbad.delivered
  rw [← ht] at hdel hbad
  have hplaced : t.placed = s.placed := by rw [ht]; rfl
  have hinput : t.input = s.input ++ [load s.rxbuf 4 (size - BitVec.ofNat 16 ethFcsLen).toNat] := by rw [ht]; rfl
  have hstage : t.stage = .test := by rw [ht]; rfl
  unfold awaiting at hmore hdel
  simp only [hs, hu, List.map_cons, hstage] at hmore hdel
  rw [hplaced, hinput, ← hmore, List.append_assoc, List.singleton_append] at hdel
  obtain ⟨hdata, hrest⟩ := List.cons.inj (List.append_cancel_left hdel)
  -- the bytes may be those of the frame, but then so is the size
  have hsize : size.toNat = f.bytes.length := by
    have hlen := congrArg List.length hdata
    have hfmin : 60 + 4 ≤ f.bytes.length := f.min
    have hlt := size.isLt
    unfold ethFrameMin ethFcsLen at hmin
    rw [length_load, GoodFrame.data, List.length_take, BitVec.toNat_sub, BitVec.toNat_ofNat] at hlen
    unfold ethFcsLen at hlen
    omega
  have hunread : t.unread = rest := by
    have hlen := congrArg List.length hrest
    simp only [List.length_map] at hlen
    have hdrop : t.unread = s.unread.dropWhile (fun r => r.1 ≠ (t.capr + 16#16).toNat) := by rw [ht]; rfl
    rw [hdrop, hu, List.dropWhile_cons] at hlen ⊢
    split_ifs at hlen ⊢ with hne
    · exact (List.dropWhile_suffix _).eq_of_length hlen
    · rw [List.length_cons] at hlen
      omega
  have hnext := (hring.read hu hunread (by rw [ht]; rfl) (by rw [ht]; rfl)).nextOffset_eq
  have hpointer := hbad.pointer (.inr hstage)
  have hbase := hring.base_of_head hu
  have hfmax : f.bytes.length ≤ 14 + 1500 + 4 := f.max
  rw [hoffset, hnext, hsize] at hpointer
  unfold GoodFrame.span rtl8139RxUsable at *
  omega

/-! ## Two frames -/

/-- A frame of 64 bytes. -/
def shortFrame (b : Byte) : GoodFrame :=
  ⟨rtl8139RxRok, List.replicate 64 b, by decide, by decide, by rw [List.length_replicate]; decide,
    by rw [List.length_replicate]; decide⟩

/-- Two frames, of ones and of twos, wait and the drain has been called. -/
def twoFrames : RxSystem := { (RxSystem.start.place (shortFrame 1)).place (shortFrame 2) with stage := .test }

/-- The first of them has been passed on. -/
def firstRead (stats : RxStats) : RxSystem :=
  { twoFrames with
    stats := stats
    stage := .advance 0 (shortFrame 1).size
    input := [(shortFrame 1).data] }

theorem twoFrames_run (careful : Prop) : RxRun careful RxSystem.start twoFrames := by
  refine ((Relation.ReflTransGen.single (RxStep.place (shortFrame 1) ?_)).tail
    (RxStep.place (shortFrame 2) ?_)).tail (RxStep.drain rfl)
  · unfold Room
    decide
  · unfold Room
    decide

theorem twoFrames_ring : ∃ A, RingOk twoFrames A := by
  obtain ⟨A, hA⟩ := RxInv.start.ring
  refine ⟨A, ((hA.place ?_).place ?_).laid, hA.aligned, ((hA.place ?_).place ?_).holds⟩
  all_goals unfold Room; decide

theorem twoFrames_holds : load twoFrames.rxbuf 0 (shortFrame 1).image.length = (shortFrame 1).image := by
  obtain ⟨A, hA⟩ := twoFrames_ring
  exact hA.holds (0, shortFrame 1) List.mem_cons_self

theorem firstRead_unread (stats : RxStats) :
    (rxDrainAdvance 0 (shortFrame 1).size (firstRead stats)).unread = [(68, shortFrame 2)] := by
  obtain ⟨A, hA⟩ := twoFrames_ring
  exact RxInv.unread_advance (s := firstRead stats) ⟨hA.laid, hA.aligned, hA.holds⟩ rfl

/-- The first iteration is over. -/
theorem firstRead_run (careful : Prop) : ∃ stats, RxRun careful twoFrames
    (rxDrainAdvance 0 (shortFrame 1).size (firstRead stats)) := by
  obtain ⟨stats, hok⟩ := rxDrainBody_at_start (s := { twoFrames with stage := .body }) twoFrames_holds 0
  exact ⟨stats, ((Relation.ReflTransGen.single (RxStep.testFull rfl rfl)).tail
    (RxStep.body 0 _ rfl (fun _ => rfl) hok)).tail (RxStep.advance _ _ rfl)⟩

/-- The first frame is passed on. -/
theorem rx_ring_in_step_first : ∃ s, s.input = [(shortFrame 1).data] ∧ s.stage = .test ∧ RxSynced s := by
  obtain ⟨stats, hrun⟩ := firstRead_run True
  exact ⟨_, rfl, rfl, rx_ring_in_step _ ((twoFrames_run True).trans hrun)⟩

/-- The second iteration passes the first frame on once more. -/
theorem second_frame_not_delivered : ∃ s, RxRun False RxSystem.start s ∧ ¬RxSynced s := by
  obtain ⟨stats, hrun⟩ := firstRead_run False
  have hunread := firstRead_unread stats
  obtain ⟨stats', hok⟩ := rxDrainBody_at_start
    (s := { rxDrainAdvance 0 (shortFrame 1).size (firstRead stats) with stage := .body }) twoFrames_holds 0
  have htest : RxStep False (rxDrainAdvance 0 (shortFrame 1).size (firstRead stats))
      { rxDrainAdvance 0 (shortFrame 1).size (firstRead stats) with stage := .body } := by
    refine RxStep.testFull rfl ?_
    unfold bufferEmpty
    rw [hunread]
    rfl
  refine ⟨_, (((twoFrames_run False).trans hrun).tail htest).tail (RxStep.body 0 _ rfl (fun h => h.elim) hok),
    fun hall => ?_⟩
  have hdel := hall.delivered
  unfold awaiting at hdel
  simp only [hunread] at hdel
  have hdata : [(shortFrame 1).data, (shortFrame 1).data] = [(shortFrame 1).data, (shortFrame 2).data] := hdel
  exact absurd hdata (by decide)

end Borgos.Net
