import Borgos.Usb.Xhci

/-! # What submits and transfer events do to endpoints -/
namespace Borgos.Usb
open Borgos.Foundations Borgos.Mem
set_option autoImplicit false

/-! ## What a submit does -/

/-- `ep->req` of an endpoint; an endpoint that does not exist has none. -/
def Xhci.reqOf (s : Xhci) (slot dci : ℕ) : Option ℕ := (s.eps slot dci).bind Endpoint.req

theorem setEp_self (s : Xhci) (slot dci : ℕ) (ep : Endpoint) : (s.setEp slot dci ep).eps slot dci = some ep :=
  setCell_self _ _ _ _

theorem setEp_ne (s : Xhci) {slot dci slot' dci' : ℕ} (ep : Endpoint) (h : ¬(slot' = slot ∧ dci' = dci)) :
    (s.setEp slot dci ep).eps slot' dci' = s.eps slot' dci' :=
  setCell_ne _ _ _ _ h

/-- A device in use and an endpoint number other than the default one. -/
structure Reachable (s : Xhci) (slot dci : ℕ) : Prop where
  device : s.devices slot = some true
  slot : slot ≠ 0 ∧ slot ≤ 32
  dci : 2 ≤ dci ∧ dci ≤ 31

theorem submitTarget_spec {r : ℕ} {s s' : Xhci} {t : Option (ℕ × ℕ × EndpointDescriptor)}
    (h : xhcihcdSubmitTarget r s = .ok t s') :
    s' = s ∧ ∀ slot dci desc, t = some (slot, dci, desc) → Reachable s slot dci := by
  unfold xhcihcdSubmitTarget at h
  obtain ⟨_, _, hget, h⟩ := Prog.bind_ok.mp h
  obtain ⟨rfl, rfl⟩ := Outcome.ok.inj hget
  have hnone : ∀ {t : Option (ℕ × ℕ × EndpointDescriptor)}, (pure none : Prog Xhci _) s = .ok t s' →
      s' = s ∧ ∀ slot dci desc, t = some (slot, dci, desc) → Reachable s slot dci := by
    intro t h
    obtain ⟨rfl, rfl⟩ := Outcome.ok.inj h
    exact ⟨rfl, fun _ _ _ e => nomatch e⟩
  cases hdesc : (s.requests r).endpointDesc with
  | none =>
    simp only [hdesc] at h
    exact hnone h
  | some desc =>
    simp only [hdesc] at h
    split at h
    · exact hnone h
    · split at h
      · exact hnone h
      · next hslot =>
        unfold xhciMaxSlotsSupported at hslot
        cases hdev : s.devices (s.addressToSlot (s.requests r).address) with
        | none =>
          simp only [hdev] at h
          exact absurd h Prog.panic_ne_ok
        | some b =>
          cases b with
          | false =>
            simp only [hdev] at h
            exact hnone h
          | true =>
            simp only [hdev] at h
            split at h
            · exact hnone h
            · next hdci =>
              unfold xhciMaxDci at hdci
              obtain ⟨rfl, rfl⟩ := Outcome.ok.inj h
              refine ⟨rfl, ?_⟩
              intro slot dci desc' e
              obtain ⟨rfl, e₂⟩ := Prod.mk.inj (Option.some.inj e)
              obtain ⟨rfl, -⟩ := Prod.mk.inj e₂
              exact ⟨hdev, by omega, by omega⟩

theorem ensureEndpoint_spec {slot dci : ℕ} {s s' : Xhci} {ep : Endpoint}
    (h : xhcihcdEnsureEndpoint slot dci s = .ok ep s') :
    (s.eps slot dci = some ep ∧ s' = s) ∨
      (s.eps slot dci = none ∧ ep = Endpoint.zeroed ∧ s' = s.setEp slot dci Endpoint.zeroed) := by
  unfold xhcihcdEnsureEndpoint at h
  obtain ⟨_, _, hget, h⟩ := Prog.bind_ok.mp h
  obtain ⟨rfl, rfl⟩ := Outcome.ok.inj hget
  cases hep : s.eps slot dci with
  | some e =>
    simp only [hep] at h
    obtain ⟨rfl, rfl⟩ := Outcome.ok.inj h
    exact Or.inl ⟨rfl, rfl⟩
  | none =>
    simp only [hep] at h
    obtain ⟨_, _, hmod, h⟩ := Prog.bind_ok.mp h
    obtain ⟨-, rfl⟩ := Outcome.ok.inj hmod
    obtain ⟨rfl, rfl⟩ := Outcome.ok.inj h
    exact Or.inr ⟨rfl, rfl, rfl⟩

/-- The state in which `r` has been queued on an endpoint. -/
def queued (s : Xhci) (r slot dci : ℕ) (ep : Endpoint) : Xhci :=
  xhcihcdDoorbell slot dci ((s.setRequest r { s.requests r with actualXferlen := 0 }).setEp slot dci
    { ep with
      req := some r
      ring := xhcihcdRingEnqueue ep.ring (normalTrb (s.requests r)) })

theorem submitQueue_spec {r slot dci : ℕ} {s s' : Xhci} {ep : Endpoint} {res : UsbResult}
    (hep : s.eps slot dci = some ep) (h : xhcihcdSubmitQueue r slot dci s = .ok res s') :
    (res = .error ∧ s' = s) ∨
      (res = .ok ∧ ep.halted = false ∧ ep.req = none ∧ s' = queued s r slot dci ep) := by
  unfold xhcihcdSubmitQueue at h
  obtain ⟨_, _, hget, h⟩ := Prog.bind_ok.mp h
  obtain ⟨rfl, rfl⟩ := Outcome.ok.inj hget
  simp only [hep] at h
  split at h
  · obtain ⟨rfl, rfl⟩ := Outcome.ok.inj h
    exact Or.inl ⟨rfl, rfl⟩
  · next hhalt =>
    split at h
    · obtain ⟨rfl, rfl⟩ := Outcome.ok.inj h
      exact Or.inl ⟨rfl, rfl⟩
    · next hreq =>
      split at h
      · obtain ⟨rfl, rfl⟩ := Outcome.ok.inj h
        exact Or.inl ⟨rfl, rfl⟩
      · obtain ⟨_, _, hmod, h⟩ := Prog.bind_ok.mp h
        obtain ⟨-, rfl⟩ := Outcome.ok.inj hmod
        obtain ⟨rfl, rfl⟩ := Outcome.ok.inj h
        exact Or.inr ⟨rfl, by simpa using hhalt, by simpa using hreq, rfl⟩

theorem commandExecute_frame {cmd : Trb} {s s' : Xhci} (h : xhcihcdCommandExecute cmd s = .ok () s') :
    s'.eps = s.eps ∧ s'.devices = s.devices ∧ s.doorbells <+: s'.doorbells := by
  unfold xhcihcdCommandExecute at h
  obtain ⟨_, _, hget, h⟩ := Prog.bind_ok.mp h
  obtain ⟨rfl, rfl⟩ := Outcome.ok.inj hget
  split at h
  · exact absurd h Prog.panic_ne_ok
  · obtain ⟨-, rfl⟩ := Outcome.ok.inj h
    exact ⟨rfl, rfl, List.prefix_append _ _⟩

theorem configureEndpoint_spec {page slot dci : ℕ} {desc : EndpointDescriptor} {cmd : Trb} {s s' : Xhci}
    {ep : Endpoint} {b : Bool} (hep : s.eps slot dci = some ep)
    (h : xhcihcdConfigureEndpoint page slot dci desc cmd s = .ok b s') :
    (b = false ∧ s' = s) ∨
      (b = true ∧ s'.devices = s.devices ∧ s.doorbells <+: s'.doorbells ∧ ∃ v, s'.eps = (s.setEp slot dci
        { ep with
          ring := ProducerRing.init v
          req := none
          halted := false }).eps) := by
  unfold xhcihcdConfigureEndpoint at h
  obtain ⟨_, _, hget, h⟩ := Prog.bind_ok.mp h
  obtain ⟨rfl, rfl⟩ := Outcome.ok.inj hget
  simp only [hep] at h
  split at h
  · obtain ⟨rfl, rfl⟩ := Outcome.ok.inj h
    exact Or.inl ⟨rfl, rfl⟩
  · obtain ⟨v, hv⟩ : ∃ v, v = if ep.ring.ring = 0 then page else ep.ring.ring := ⟨_, rfl⟩
    rw [← hv] at h
    by_cases hv0 : v = 0
    · rw [if_pos hv0] at h
      obtain ⟨rfl, rfl⟩ := Outcome.ok.inj h
      exact Or.inl ⟨rfl, rfl⟩
    · rw [if_neg hv0] at h
      obtain ⟨_, s₁, hmod, h⟩ := Prog.bind_ok.mp h
      obtain ⟨-, e₁⟩ := Outcome.ok.inj hmod
      obtain ⟨_, s₂, hcmd, h⟩ := Prog.bind_ok.mp h
      obtain ⟨rfl, rfl⟩ := Outcome.ok.inj h
      obtain ⟨heps, hdev, hbell⟩ := commandExecute_frame hcmd
      rw [← e₁] at heps hdev hbell
      exact Or.inr ⟨rfl, hdev, hbell, _, heps⟩

/-- The effect of a submit up to its return or its wait. -/
inductive SubmitEffect (s s' : Xhci) (r : ℕ) : SubmitState → Prop
  | refused (h : ∀ slot dci, s'.eps slot dci = s.eps slot dci ∨
      (s.eps slot dci = none ∧ s'.eps slot dci = some Endpoint.zeroed)) : SubmitEffect s s' r (.returned .error)
  | queued (slot dci : ℕ) (desc : EndpointDescriptor) (ep : Endpoint) (hreach : Reachable s slot dci)
      (htarget : xhcihcdSubmitTarget r s = .ok (some (slot, dci, desc)) s) (hep : s.eps slot dci = some ep)
      (hconf : ep.configured = true) (hhalt : ep.halted = false) (hreq : ep.req = none)
      (h : s' = queued s r slot dci ep) : SubmitEffect s s' r (.returned .ok)
  | configuring (slot dci v : ℕ) (desc : EndpointDescriptor) (ep : Endpoint) (hreach : Reachable s slot dci)
      (htarget : xhcihcdSubmitTarget r s = .ok (some (slot, dci, desc)) s)
      (hep : s.eps slot dci = some ep ∨ (s.eps slot dci = none ∧ ep = Endpoint.zeroed))
      (hconf : ep.configured = false) (h : s'.eps = (s.setEp slot dci
        { ep with
          ring := ProducerRing.init v
          req := none
          halted := false }).eps) : SubmitEffect s s' r (.configuring slot dci)

theorem setEp_setEp (s : Xhci) (slot dci : ℕ) (ep ep' : Endpoint) :
    ((s.setEp slot dci ep).setEp slot dci ep').eps = (s.setEp slot dci ep').eps := by
  unfold Xhci.setEp setCell
  simp only [Function.update_self, Function.update_idem]

theorem submit_spec {page : ℕ} {cmd : Trb} {r : ℕ} {s s' : Xhci} {st : SubmitState}
    (h : xhcihcdSubmitEndpXferRequest page cmd r s = .ok st s') :
    SubmitEffect s s' r st ∧ s'.devices = s.devices ∧ s.doorbells <+: s'.doorbells := by
  unfold xhcihcdSubmitEndpXferRequest at h
  obtain ⟨t, s₁, htarget, h⟩ := Prog.bind_ok.mp h
  obtain ⟨rfl, hreach⟩ := submitTarget_spec htarget
  cases t with
  | none =>
    obtain ⟨rfl, rfl⟩ := Outcome.ok.inj h
    exact ⟨SubmitEffect.refused fun _ _ => Or.inl rfl, rfl, List.prefix_rfl⟩
  | some t =>
    obtain ⟨slot, dci, desc⟩ := t
    have hreach := hreach slot dci desc rfl
    obtain ⟨ep, s₂, hens, h⟩ := Prog.bind_ok.mp h
    have hens' := ensureEndpoint_spec hens
    have hep₂ : s₂.eps slot dci = some ep := by
      rcases hens' with ⟨hep, rfl⟩ | ⟨-, rfl, rfl⟩
      · exact hep
      · exact setEp_self _ _ _ _
    have hdev₂ : s₂.devices = s₁.devices ∧ s₂.doorbells = s₁.doorbells := by
      rcases hens' with ⟨-, rfl⟩ | ⟨-, -, rfl⟩
      · exact ⟨rfl, rfl⟩
      · exact ⟨rfl, rfl⟩
    have hsame : ∀ slot' dci', s₂.eps slot' dci' = s₁.eps slot' dci' ∨
        (s₁.eps slot' dci' = none ∧ s₂.eps slot' dci' = some Endpoint.zeroed) := by
      intro slot' dci'
      rcases hens' with ⟨-, rfl⟩ | ⟨hnone, -, rfl⟩
      · exact Or.inl rfl
      · by_cases hc : slot' = slot ∧ dci' = dci
        · rw [hc.1, hc.2]
          exact Or.inr ⟨hnone, setEp_self _ _ _ _⟩
        · exact Or.inl (setEp_ne _ _ hc)
    by_cases hconf : ep.configured = true
    · simp only [hconf, if_true] at h
      obtain ⟨res, s₃, hq, h⟩ := Prog.bind_ok.mp h
      obtain ⟨rfl, rfl⟩ := Outcome.ok.inj h
      have hs₂ : s₁.eps slot dci = some ep ∧ s₂ = s₁ := by
        rcases hens' with h | ⟨-, rfl, -⟩
        · exact h
        · cases hconf
      obtain ⟨hep, rfl⟩ := hs₂
      rcases submitQueue_spec hep hq with ⟨rfl, rfl⟩ | ⟨rfl, hhalt, hreq, rfl⟩
      · exact ⟨SubmitEffect.refused fun _ _ => Or.inl rfl, rfl, List.prefix_rfl⟩
      · exact ⟨SubmitEffect.queued slot dci desc ep hreach htarget hep hconf hhalt hreq rfl, rfl,
          List.prefix_append _ _⟩
    · simp only [hconf, Bool.false_eq_true, if_false] at h
      obtain ⟨b, s₃, hc, h⟩ := Prog.bind_ok.mp h
      obtain ⟨rfl, rfl⟩ := Outcome.ok.inj h
      rcases configureEndpoint_spec hep₂ hc with ⟨rfl, rfl⟩ | ⟨rfl, hdev, hbell, v, heps⟩
      · exact ⟨SubmitEffect.refused hsame, hdev₂.1, by rw [hdev₂.2]⟩
      · refine ⟨SubmitEffect.configuring slot dci v desc ep hreach htarget ?_ (by simpa using hconf) ?_,
          hdev.trans hdev₂.1, by rw [← hdev₂.2]; exact hbell⟩
        · rcases hens' with ⟨hep, -⟩ | ⟨hnone, hz, -⟩
          · exact Or.inl hep
          · exact Or.inr ⟨hnone, hz⟩
        · rw [heps]
          rcases hens' with ⟨-, rfl⟩ | ⟨-, -, rfl⟩
          · rfl
          · exact setEp_setEp _ _ _ _ _

/-- The effect of the rest of a submit, after the Configure Endpoint command. -/
theorem resume_spec {r slot dci : ℕ} {s s' : Xhci} {ep : Endpoint} {cmdres res : UsbResult}
    (hep : s.eps slot dci = some ep) (h : xhcihcdSubmitResume r slot dci cmdres s = .ok res s') :
    (res = .error ∧ s' = s) ∨ (res = .error ∧ s' = s.setEp slot dci { ep with configured := true }) ∨
      (res = .ok ∧ ep.halted = false ∧ ep.req = none ∧
        s' = queued (s.setEp slot dci { ep with configured := true }) r slot dci { ep with configured := true }) := by
  unfold xhcihcdSubmitResume at h
  obtain ⟨_, _, hget, h⟩ := Prog.bind_ok.mp h
  obtain ⟨rfl, rfl⟩ := Outcome.ok.inj hget
  cases cmdres with
  | error =>
    obtain ⟨rfl, rfl⟩ := Outcome.ok.inj h
    exact Or.inl ⟨rfl, rfl⟩
  | ok =>
    simp only [hep] at h
    obtain ⟨_, s₁, hmod, h⟩ := Prog.bind_ok.mp h
    obtain ⟨-, rfl⟩ := Outcome.ok.inj hmod
    rcases submitQueue_spec (setEp_self _ _ _ _) h with ⟨rfl, rfl⟩ | ⟨rfl, hhalt, hreq, rfl⟩
    · exact Or.inr (Or.inl ⟨rfl, rfl⟩)
    · exact Or.inr (Or.inr ⟨rfl, hhalt, hreq, rfl⟩)

/-! ## What a transfer event does -/

/-- The event of an endpoint other than the default one. -/
theorem transferComplete_spec {trb : Trb} {s : Xhci} {slot dci r : ℕ} {ep : Endpoint}
    (hslot : (xhciTrbGetSlot trb.control).toNat = slot) (hdci : (xhciEvtEpId trb.control).toNat = dci)
    (hreach : Reachable s slot dci) (hep : s.eps slot dci = some ep) (hreq : ep.req = some r) :
    xhcihcdTransferComplete trb s = .ok (if (s.requests r).hasCallback then some r else none)
      (completeRequest (xhciEvtCompCode trb.status) (xhciEvtXferLen trb.status) slot dci r ep s) := by
  have hs := hreach.slot
  have hd := hreach.dci
  unfold xhcihcdTransferComplete
  simp only [Prog.bind_run, Prog.get_run, Outcome.andThen_ok, hslot, hdci]
  rw [if_neg (by unfold xhciMaxSlotsSupported; omega)]
  simp only [hreach.device]
  rw [if_neg (by unfold xhciDbEp0Target; omega), if_neg (by unfold xhciMaxDci; omega)]
  simp only [hep, hreq]
  rfl

theorem completeRequest_eps (code residual : BitVec 32) (slot dci r : ℕ) (ep : Endpoint) (s : Xhci) :
    (completeRequest code residual slot dci r ep s).eps = (s.setEp slot dci
      { ep with
        halted := if code = xhciCcSuccess ∨ code = xhciCcShortPacket then ep.halted else true
        req := none }).eps := rfl

theorem completeRequest_actual (code residual : BitVec 32) (slot dci r : ℕ) (ep : Endpoint) (s : Xhci) :
    ((completeRequest code residual slot dci r ep s).requests r).actualXferlen ≤
      ((completeRequest code residual slot dci r ep s).requests r).xferlen.toNat := by
  have hreq : (completeRequest code residual slot dci r ep s).requests r =
      { s.requests r with
        actualXferlen := if residual.toNat ≤ (s.requests r).xferlen.toNat then
          (s.requests r).xferlen.toNat - residual.toNat else 0
        status := if code = xhciCcSuccess ∨ code = xhciCcShortPacket then .ok else .error } :=
    Function.update_self _ _ _
  rw [hreq]
  show (if residual.toNat ≤ (s.requests r).xferlen.toNat then (s.requests r).xferlen.toNat - residual.toNat else 0) ≤
    (s.requests r).xferlen.toNat
  split
  · exact Nat.sub_le _ _
  · exact Nat.zero_le _

end Borgos.Usb
