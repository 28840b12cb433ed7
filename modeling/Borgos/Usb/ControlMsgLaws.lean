import Borgos.Usb.ControlMsg

/-! # What a control message moves

The transfer buffer is zeroed and never filled from the caller's bytes, and it is copied back whatever the direction.
So a message moves the right bytes for IN, and for OUT only if the caller's bytes are all 0.
-/
namespace Borgos.Usb
open Borgos.Foundations Borgos.Foundations.FlatMemory Borgos.Mem Borgos.Libc
set_option autoImplicit false

variable {ρ δ : Type} {kmalloc : ℕ → ℕ → Prog (Heap ρ) ℕ} {kfree : ℕ → Prog (Heap ρ) Unit} {held : ρ → ℕ → Option ℕ}
  {other : Set ℕ}

theorem load_store_eq {β : Type} {m : ℕ → β} {a n : ℕ} {xs : List β} (h : xs.length = n) :
    load (store m a xs) a n = xs := by
  subst h
  exact load_store_self

theorem onHeap_ok {α : Type} {x : Prog (Heap ρ) α} {s t : UsbState ρ δ} {a : α} :
    onHeap x s = .ok a t ↔ ∃ h, x s.heap = .ok a h ∧ t = { s with heap := h } :=
  Prog.zoom_ok

/-- A fresh request with its zeroed buffer and its setup block, all apart from what was in use. -/
structure Staged (held : ρ → ℕ → Option ℕ) (other : Set ℕ) (bufsize : BitVec 16) (s t : UsbState ρ δ)
    (req buf setup : ℕ) : Prop where
  request : t.requests req = ⟨0, none, buf, bufsize, setup, usbOk, 0⟩
  buf_ne : buf ≠ 0
  nodup : [setup, buf, req].Nodup
  out : ∀ p ∈ [setup, buf, req], ∃ n, held t.heap.alloc p = some n
  kept : ∀ p n, held s.heap.alloc p = some n → held t.heap.alloc p = some n ∧ p ∉ [setup, buf, req]
  zeros : load t.heap.mem buf bufsize.toNat = List.replicate bufsize.toNat 0
  same : ∀ x ∈ bytesInUse other (held s.heap.alloc), t.heap.mem x = s.heap.mem x
  freed : t.freed = s.freed
  bus : t.bus = s.bus

theorem usbAllocXferRequest_staged (hserve : HeapServes kmalloc kfree held other) {bufsize : BitVec 16}
    {s t : UsbState ρ δ} {req : ℕ} (hrun : usbAllocXferRequest kmalloc bufsize s = .ok req t) :
    ∃ buf setup, Staged held other bufsize s t req buf setup := by
  have hsize : bufsize.toNat < 2 ^ 16 := bufsize.isLt
  unfold usbAllocXferRequest at hrun
  obtain ⟨req', s₁, h₁, hrun⟩ := Prog.bind_ok.mp hrun
  obtain ⟨g₁, hk₁, rfl⟩ := onHeap_ok.mp h₁
  obtain ⟨hne, -, -, -, -, -, hkeeps₁⟩ := hserve.serves (by decide) hk₁
  rw [Prog.bind_run, Prog.modify_run, Outcome.andThen_ok, if_neg hne] at hrun
  obtain ⟨buf, s₂, h₂, hrun⟩ := Prog.bind_ok.mp hrun
  obtain ⟨g₂, hk₂, rfl⟩ := onHeap_ok.mp h₂
  rw [Prog.bind_run, Prog.modify_run, Outcome.andThen_ok] at hrun
  obtain ⟨setup, s₃, h₃, hrun⟩ := Prog.bind_ok.mp hrun
  obtain ⟨g₃, hk₃, rfl⟩ := onHeap_ok.mp h₃
  simp only [Prog.bind_run, Prog.modify_run, Outcome.andThen_ok, Prog.pure_run, Outcome.ok.injEq] at hrun
  obtain ⟨rfl, rfl⟩ := hrun
  obtain ⟨hbne, -, m, hm, hbapart, -, hkeeps₂⟩ := hserve.serves hsize hk₂
  obtain ⟨-, -, -, -, -, -, hkeeps₃⟩ := hserve.serves (by decide) hk₃
  -- each of the three calls keeps what was out before it
  have hkept₁ : ∀ q k, held s.heap.alloc q = some k → held g₁.alloc q = some k ∧ q ≠ req' :=
    fun q k hq => hserve.kept (by decide) hk₁ hq
  have hkept₂ : ∀ q k, held g₁.alloc q = some k → held g₂.alloc q = some k ∧ q ≠ buf :=
    fun q k hq => hserve.kept hsize hk₂ hq
  have hkept₃ : ∀ q k, held g₂.alloc q = some k → held g₃.alloc q = some k ∧ q ≠ setup :=
    fun q k hq => hserve.kept (by decide) hk₃ hq
  obtain ⟨kr, hreq⟩ := hserve.out (by decide) hk₁
  obtain ⟨kb, hbuf⟩ := hserve.out hsize hk₂
  obtain ⟨ks, hsetup⟩ := hserve.out (by decide) hk₃
  obtain ⟨hreq₂, hrb⟩ := hkept₂ _ _ hreq
  obtain ⟨hreq₃, hrs⟩ := hkept₃ _ _ hreq₂
  obtain ⟨hbuf₃, hbs⟩ := hkept₃ _ _ hbuf
  have hgrow₁ := bytesInUse_mono other fun q k hq => (hkept₁ q k hq).1
  have hgrow₂ := bytesInUse_mono other fun q k hq => (hkept₂ q k hq).1
  simp only [UsbState.setRequest] at hbapart hkeeps₂ hkeeps₃
  refine ⟨buf, setup, ?_, hbne, ?_, ?_, ?_, ?_, ?_, rfl, rfl⟩
  · simp [UsbState.setRequest, UsbState.setSetup, UsbState.setMem, UsbXferRequest.zeroed, usbOk]
  · simp [hbs.symm, hrs.symm, hrb.symm]
  · simp only [List.forall_mem_cons, List.not_mem_nil, false_implies, implies_true, and_true]
    exact ⟨⟨ks, hsetup⟩, ⟨kb, hbuf₃⟩, ⟨kr, hreq₃⟩⟩
  · intro q k hq
    obtain ⟨hq₁, hne₁⟩ := hkept₁ q k hq
    obtain ⟨hq₂, hne₂⟩ := hkept₂ q k hq₁
    obtain ⟨hq₃, hne₃⟩ := hkept₃ q k hq₂
    exact ⟨hq₃, by simp [hne₁, hne₂, hne₃]⟩
  · exact load_store_eq List.length_replicate
  · intro x hx
    have hout := Set.disjoint_right.mp hbapart (hgrow₁ hx)
    rw [Set.mem_Ico, not_and, not_lt] at hout
    calc store g₃.mem buf (List.replicate bufsize.toNat 0) x
        = g₃.mem x := store_outside (by rw [List.length_replicate]; omega)
      _ = g₂.mem x := hkeeps₃ x (hgrow₂ (hgrow₁ hx))
      _ = g₁.mem x := hkeeps₂ x (hgrow₁ hx)
      _ = s.heap.mem x := hkeeps₁ x hx

/-- With the slab allocator, a message of more than 4048 bytes does not get its buffer. -/
theorem usbAllocXferRequest_large {pageAllocPage : ℕ → Prog (Slab ρ) ℕ} {bytes : Slab ρ → ℕ → ℕ} {bufsize : BitVec 16}
    {s t : UsbState (SlabHeap ρ other) δ} {req : ℕ} (hlarge : maxKmalloc < bufsize.toNat) :
    usbAllocXferRequest (slabKmalloc pageAllocPage bytes) bufsize s ≠ .ok req t := by
  intro hrun
  unfold usbAllocXferRequest at hrun
  obtain ⟨req', s₁, -, hrun⟩ := Prog.bind_ok.mp hrun
  rw [Prog.bind_run, Prog.modify_run, Outcome.andThen_ok] at hrun
  split at hrun
  · cases hrun
  · obtain ⟨buf, s₂, h₂, -⟩ := Prog.bind_ok.mp hrun
    obtain ⟨g₂, hk₂, -⟩ := onHeap_ok.mp h₂
    have hsize : bufsize.toNat < 2 ^ 16 := bufsize.isLt
    exact slabKmalloc_large hlarge (by omega) hk₂

theorem freeBlock_run (hserve : HeapServes kmalloc kfree held other) {p n : ℕ} {s : UsbState ρ δ}
    (hp : held s.heap.alloc p = some n) :
    ∃ t, freeBlock kfree p s = .ok () t ∧ t.freed = s.freed ++ [p] ∧ t.requests = s.requests ∧ t.bus = s.bus ∧
      held t.heap.alloc = Function.update (held s.heap.alloc) p none ∧
      ∀ x ∈ bytesInUse other (held t.heap.alloc), t.heap.mem x = s.heap.mem x := by
  obtain ⟨h, hfree, hheld, hmem⟩ := hserve.frees hp
  refine ⟨{ s with heap := h, freed := s.freed ++ [p] }, ?_, rfl, rfl, rfl, hheld, hmem⟩
  unfold freeBlock
  rw [Prog.bind_run, onHeap_ok.mpr ⟨h, hfree, rfl⟩]
  rfl

/-- The three blocks are freed, in this order, and nothing else. The blocks `before` that are none of them stay. -/
theorem usbFreeXferRequest_run (hserve : HeapServes kmalloc kfree held other) {req buf setup : ℕ} {s : UsbState ρ δ}
    (before : ℕ → Option ℕ) (hbuf : (s.requests req).xferbuf = buf) (hsetup : (s.requests req).setupData = setup)
    (hne : buf ≠ 0) (hnodup : [setup, buf, req].Nodup)
    (hout : ∀ p ∈ [setup, buf, req], ∃ n, held s.heap.alloc p = some n)
    (hkept : ∀ p n, before p = some n → held s.heap.alloc p = some n ∧ p ∉ [setup, buf, req]) :
    ∃ t, usbFreeXferRequest kfree req s = .ok () t ∧ t.freed = s.freed ++ [setup, buf, req] ∧ t.bus = s.bus ∧
      ∀ x ∈ bytesInUse other before, t.heap.mem x = s.heap.mem x := by
  simp only [List.nodup_cons, List.mem_cons, List.not_mem_nil, or_false, not_or, not_false_eq_true, List.nodup_nil,
    and_true] at hnodup
  simp only [List.forall_mem_cons, List.not_mem_nil, false_implies, implies_true, and_true] at hout
  obtain ⟨⟨hsb, hsr⟩, hbr⟩ := hnodup
  obtain ⟨⟨ns, hs⟩, ⟨nb, hb⟩, ⟨nr, hr⟩⟩ := hout
  obtain ⟨s₁, h₁, hf₁, -, hb₁, hheld₁, hm₁⟩ := freeBlock_run hserve hs
  have hbuf₁ : held s₁.heap.alloc buf = some nb := by rw [hheld₁, Function.update_of_ne (Ne.symm hsb), hb]
  obtain ⟨s₂, h₂, hf₂, -, hb₂, hheld₂, hm₂⟩ := freeBlock_run hserve hbuf₁
  have hreq₂ : held s₂.heap.alloc req = some nr := by
    rw [hheld₂, Function.update_of_ne (Ne.symm hbr), hheld₁, Function.update_of_ne (Ne.symm hsr), hr]
  obtain ⟨s₃, h₃, hf₃, -, hb₃, hheld₃, hm₃⟩ := freeBlock_run hserve hreq₂
  refine ⟨s₃, ?_, ?_, by rw [hb₃, hb₂, hb₁], ?_⟩
  · unfold usbFreeXferRequest
    simp only [Prog.bind_run, Prog.get_run, Outcome.andThen_ok, hbuf, hsetup, h₁, if_pos hne, h₂, h₃]
  · rw [hf₃, hf₂, hf₁]
    simp
  · -- what was out before is out after each of the three calls
    have hstep₁ : ∀ p n, before p = some n → held s₁.heap.alloc p = some n := by
      intro p n hp
      obtain ⟨hget, hmem⟩ := hkept p n hp
      simp only [List.mem_cons, List.not_mem_nil, or_false, not_or] at hmem
      rw [hheld₁, Function.update_of_ne hmem.1, hget]
    have hstep₂ : ∀ p n, before p = some n → held s₂.heap.alloc p = some n := by
      intro p n hp
      have hmem := (hkept p n hp).2
      simp only [List.mem_cons, List.not_mem_nil, or_false, not_or] at hmem
      rw [hheld₂, Function.update_of_ne hmem.2.1, hstep₁ p n hp]
    have hstep₃ : ∀ p n, before p = some n → held s₃.heap.alloc p = some n := by
      intro p n hp
      have hmem := (hkept p n hp).2
      simp only [List.mem_cons, List.not_mem_nil, or_false, not_or] at hmem
      rw [hheld₃, Function.update_of_ne hmem.2.2, hstep₂ p n hp]
    intro x hx
    rw [hm₃ x (bytesInUse_mono other hstep₃ hx), hm₂ x (bytesInUse_mono other hstep₂ hx),
      hm₁ x (bytesInUse_mono other hstep₁ hx)]

/-! ## The whole message -/

/-- What a message is to do: for IN the caller gets what the device sent, for OUT the device gets the caller's bytes
and the caller keeps them; the three blocks of `usb_alloc_xfer_request` are freed once and nothing else is. -/
structure Moved (reply : δ → SetupData → ℕ → ℕ) (received : δ → List ℕ) (d : SetupData) (data req buf setup : ℕ)
    (s t : UsbState ρ δ) : Prop where
  inBytes : d.dirIn = true →
    load t.heap.mem data d.wLength.toNat = (List.range d.wLength.toNat).map (reply s.bus d)
  outBytes : d.dirIn = false → received t.bus = load s.heap.mem data d.wLength.toNat ∧
    load t.heap.mem data d.wLength.toNat = load s.heap.mem data d.wLength.toNat
  freed : t.freed = s.freed ++ [setup, buf, req]
  once : [setup, buf, req].Nodup

section Message
variable {reply : δ → SetupData → ℕ → ℕ} {received : δ → List ℕ} {hcd : UsbHcd ρ δ} {d : SetupData} {data req : ℕ}
  {s s₁ : UsbState ρ δ}

/-- Both ways to submit move the buffer. -/
theorem usbSubmitXferRequest_transfers (hctrl : Transfers hcd.submitCtrlXferRequest reply received)
    (hendp : Transfers hcd.submitEndpXferRequest reply received) :
    Transfers (usbSubmitXferRequest hcd) reply received := by
  constructor
  intro r s hstatus
  have hrun : usbSubmitXferRequest hcd r s = hcd.submitEndpXferRequest r s ∨
      usbSubmitXferRequest hcd r s = hcd.submitCtrlXferRequest r s := by
    unfold usbSubmitXferRequest
    rw [Prog.bind_run, Prog.get_run, Outcome.andThen_ok]
    cases (s.requests r).endpointDesc with
    | some _ => exact .inl rfl
    | none => exact .inr rfl
  rcases hrun with h | h
  · rw [h]
    exact hendp.returns r s hstatus
  · rw [h]
    exact hctrl.returns r s hstatus

/-- The message returns. The caller's buffer holds what the transfer buffer held after the transfer: the reply for IN,
zeros for OUT. -/
theorem usbControlMsg_run (dev : ℕ) (endpointDesc : Option EndpointDescriptor)
    (hserve : HeapServes kmalloc kfree held other)
    (hctrl : Transfers hcd.submitCtrlXferRequest reply received)
    (hendp : Transfers hcd.submitEndpXferRequest reply received)
    (hdata : Set.Ico data (data + d.wLength.toNat) ⊆ bytesInUse other (held s.heap.alloc))
    (halloc : usbAllocXferRequest kmalloc d.wLength s = .ok req s₁) :
    ∃ t, usbControlMsg kmalloc kfree hcd dev endpointDesc d.bRequest d.bmRequestType d.wValue d.wIndex data d.wLength s
        = .ok usbOk t ∧
      t.freed = s.freed ++ [(s₁.requests req).setupData, (s₁.requests req).xferbuf, req] ∧
      [(s₁.requests req).setupData, (s₁.requests req).xferbuf, req].Nodup ∧
      (d.dirIn = true →
        load t.heap.mem data d.wLength.toNat = (List.range d.wLength.toNat).map (reply s.bus d)) ∧
      (d.dirIn = false → load t.heap.mem data d.wLength.toNat = List.replicate d.wLength.toNat 0 ∧
        received t.bus = List.replicate d.wLength.toNat 0) := by
  obtain ⟨buf, setup, hst⟩ := usbAllocXferRequest_staged hserve halloc
  obtain ⟨s₂, hs₂⟩ : ∃ s₂, s₂ = (s₁.setRequest req ⟨dev, endpointDesc, buf, d.wLength, setup, usbOk, 0⟩).setSetup setup
      d :=
    ⟨_, rfl⟩
  have hq : s₂.requests req = ⟨dev, endpointDesc, buf, d.wLength, setup, usbOk, 0⟩ := by
    simp [hs₂, UsbState.setSetup, UsbState.setRequest]
  have hd : s₂.setups setup = d := by simp [hs₂, UsbState.setSetup]
  have hmem : s₂.heap.mem = s₁.heap.mem := by rw [hs₂]; rfl
  have hbus : s₂.bus = s.bus := by rw [hs₂, ← hst.bus]; rfl
  obtain ⟨mem, bus, hsubmit, hin, hout⟩ :=
    (usbSubmitXferRequest_transfers hctrl hendp).returns req s₂ (by rw [hq])
  rw [hq] at hin hout hsubmit
  simp only [hd] at hin hout
  obtain ⟨s₃, hs₃⟩ : ∃ s₃, s₃ = { s₂.setMem (memcpy mem data buf d.wLength.toNat) with
      bus := bus
      requests := Function.update s₂.requests req ⟨dev, endpointDesc, buf, d.wLength, setup, usbOk, d.wLength.toNat⟩
          } :=
    ⟨_, rfl⟩
  have halloc₃ : s₃.heap.alloc = s₁.heap.alloc := by rw [hs₃, hs₂]; rfl
  obtain ⟨t, hfree, hfreed, hbust, hmemt⟩ := usbFreeXferRequest_run hserve (held s.heap.alloc)
    (show (s₃.requests req).xferbuf = buf by simp [hs₃]) (show (s₃.requests req).setupData = setup by simp [hs₃])
    hst.buf_ne hst.nodup (halloc₃ ▸ hst.out) (halloc₃ ▸ hst.kept)
  have hcaller : load t.heap.mem data d.wLength.toNat = load mem buf d.wLength.toNat := by
    calc load t.heap.mem data d.wLength.toNat
        = load s₃.heap.mem data d.wLength.toNat :=
          load_eq_load.mpr fun i hi => hmemt (data + i) (hdata ⟨by omega, by omega⟩)
      _ = load (move mem data buf d.wLength.toNat) data d.wLength.toNat := by
          rw [hs₃, ← memcpy_eq_move]
          rfl
      _ = load mem buf d.wLength.toNat := load_move_self
  refine ⟨t, ?_, ?_, ?_, ?_, ?_⟩
  · have hs₂' : (s₁.setRequest req { s₁.requests req with
        dev := dev
        endpointDesc := endpointDesc
        xferlen := d.wLength }) = s₁.setRequest req ⟨dev, endpointDesc, buf, d.wLength, setup, usbOk, 0⟩ := by
      rw [hst.request]
    have hsetup : ((s₁.setRequest req ⟨dev, endpointDesc, buf, d.wLength, setup, usbOk, 0⟩).requests req).setupData =
        setup := by simp [UsbState.setRequest]
    unfold usbControlMsg
    rw [Prog.bind_run, halloc, Outcome.andThen_ok, Prog.bind_run, Prog.modify_run, Outcome.andThen_ok, hs₂',
      Prog.bind_run, Prog.modify_run, Outcome.andThen_ok, hsetup, ← hs₂, Prog.bind_run, hsubmit, Outcome.andThen_ok]
    simp only [ne_eq, not_true_eq_false, if_false, Prog.bind_run, Prog.get_run, Outcome.andThen_ok,
      Function.update_self, Prog.modify_run]
    rw [hs₃] at hfree
    simp only [UsbState.setMem] at hfree ⊢
    rw [hfree]
    rfl
  · rw [hfreed, hs₃, hst.request, ← hst.freed, hs₂]
    rfl
  · rw [hst.request]
    exact hst.nodup
  · intro hdir
    rw [hcaller, hin hdir, hbus]
    exact load_store_eq (by simp)
  · intro hdir
    obtain ⟨rfl, hrec⟩ := hout hdir
    rw [hcaller, hbust, hs₃, hmem, hst.zeros]
    refine ⟨rfl, ?_⟩
    rw [hrec, hmem, hst.zeros]

/-- With the slab allocator a message that gets its blocks is of at most 4048 bytes, and an IN message is served. -/
theorem usbControlMsg_slab (pageAllocPage : ℕ → Prog (Slab ρ) ℕ) (bytes : Slab ρ → ℕ → ℕ)
    {hcd : UsbHcd (SlabHeap ρ other) δ} {s s₁ : UsbState (SlabHeap ρ other) δ} (dev : ℕ)
    (endpointDesc : Option EndpointDescriptor) (hctrl : Transfers hcd.submitCtrlXferRequest reply received)
    (hendp : Transfers hcd.submitEndpXferRequest reply received) (hdir : d.dirIn = true)
    (hdata : Set.Ico data (data + d.wLength.toNat) ⊆ bytesInUse other s.heap.alloc.system.held)
    (halloc : usbAllocXferRequest (slabKmalloc pageAllocPage bytes) d.wLength s = .ok req s₁) :
    d.wLength.toNat ≤ maxKmalloc ∧
      ∃ t, usbControlMsg (slabKmalloc pageAllocPage bytes) (slabKfree bytes) hcd dev endpointDesc d.bRequest
          d.bmRequestType d.wValue d.wIndex data d.wLength s = .ok usbOk t ∧
        load t.heap.mem data d.wLength.toNat = (List.range d.wLength.toNat).map (reply s.bus d) := by
  obtain ⟨t, hrun, -, -, hin, -⟩ :=
    usbControlMsg_run dev endpointDesc (slab_serves pageAllocPage bytes other) hctrl hendp hdata halloc
  refine ⟨?_, t, hrun, hin hdir⟩
  by_contra hlarge
  exact usbAllocXferRequest_large (Nat.lt_of_not_le hlarge) halloc

end Message

/-! ## A small machine -/

end Borgos.Usb
