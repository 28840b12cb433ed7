import Borgos.Usb.UhciTransfer
import Mathlib.Algebra.BigOperators.Intervals

/-! # The chain of a control transfer

What `uhcihcd_submit_ctrl_xfer_request` queues, for every length: the setup TD, up to eight data TDs of up to 8 bytes
and the status TD. The data toggle is set once, before the loop, so that the second data TD repeats the toggle of the
first; and the loop stops after eight data TDs whatever the length.
-/
namespace Borgos.Usb
open Borgos.Foundations Borgos.Mem
set_option autoImplicit false

/-! ## The fields of a token -/

section Token
variable {maxlen toggle endp address pid : ℕ}

theorem tdToken_eq (hm : maxlen < 2 ^ 11) (ht : toggle < 2) (he : endp < 16) (ha : address < 128) (hp : pid < 256) :
    tdToken maxlen toggle endp address pid
      = maxlen * 2 ^ 21 + (toggle * 2 ^ 19 + (endp * 2 ^ 15 + (address * 2 ^ 8 + pid))) := by
  have h8 : address <<< 8 ||| pid = address * 2 ^ 8 + pid := by
    rw [← Nat.shiftLeft_add_eq_or_of_lt hp, Nat.shiftLeft_eq]
  have h15 : endp <<< 15 ||| (address * 2 ^ 8 + pid) = endp * 2 ^ 15 + (address * 2 ^ 8 + pid) := by
    rw [← Nat.shiftLeft_add_eq_or_of_lt (by omega), Nat.shiftLeft_eq]
  have h19 : toggle <<< 19 ||| (endp * 2 ^ 15 + (address * 2 ^ 8 + pid))
      = toggle * 2 ^ 19 + (endp * 2 ^ 15 + (address * 2 ^ 8 + pid)) := by
    rw [← Nat.shiftLeft_add_eq_or_of_lt (by omega), Nat.shiftLeft_eq]
  unfold tdToken
  rw [Nat.or_assoc, Nat.or_assoc, Nat.or_assoc, h8, h15, h19, ← Nat.shiftLeft_add_eq_or_of_lt (by omega),
    Nat.shiftLeft_eq, Nat.mod_eq_of_lt (by omega)]

theorem token_fields {t : UhciTd} (h : t.token = tdToken maxlen toggle endp address pid) (hm : maxlen < 2 ^ 11)
    (ht : toggle < 2) (he : endp < 16) (ha : address < 128) (hp : pid < 256) :
    t.pid = pid ∧ t.toggle = toggle ∧ t.maxBytes = (maxlen + 1) % 2 ^ 11 := by
  unfold UhciTd.pid UhciTd.toggle UhciTd.maxBytes
  rw [h, tdToken_eq hm ht he ha hp]
  omega

end Token

namespace CtrlXferRequest
variable (req : CtrlXferRequest) (td : ℕ) (old : TdArray)

theorem dataPid_lt : req.dataPid < 256 := by
  unfold dataPid
  split <;> decide

theorem statusPid_lt : req.statusPid < 256 := by
  unfold statusPid
  split <;> decide

theorem address_lt : req.address % 128 < 128 := Nat.mod_lt _ (by decide)

theorem setupTd_fields (t : UhciTd) :
    (req.setupTd td 0 t).pid = tokenSetup ∧ (req.setupTd td 0 t).toggle = 0 ∧ (req.setupTd td 0 t).maxBytes = 8 := by
  have h := token_fields (t := req.setupTd td 0 t) rfl (by decide) (by decide) (by decide) req.address_lt (by decide)
  exact h

theorem dataTd_fields (t : UhciTd) {i n : ℕ} (hn : 0 < n) (hn8 : n ≤ 8) :
    (req.dataTd td 1 i n t).pid = req.dataPid ∧ (req.dataTd td 1 i n t).toggle = 1 ∧
    (req.dataTd td 1 i n t).maxBytes = n := by
  have h := token_fields (t := req.dataTd td 1 i n t) rfl (by omega) (by decide)
    (by decide) req.address_lt req.dataPid_lt
  rw [h.1, h.2.1, h.2.2]
  refine ⟨rfl, rfl, ?_⟩
  omega

theorem statusTd_fields (t : UhciTd) :
    (req.statusTd 1 t).pid = req.statusPid ∧ (req.statusTd 1 t).toggle = 1 ∧ (req.statusTd 1 t).maxBytes = 0 := by
  have h := token_fields (t := req.statusTd 1 t) rfl (by decide) (by decide) (by decide) req.address_lt req.statusPid_lt
  exact h

theorem statusTd_ioc (t : UhciTd) : (req.statusTd 1 t).ioc := by
  have hbit : (req.ctrl ||| tdCsIoc) / 2 ^ 24 % 2 = 1 := by
    unfold ctrl
    split <;> decide
  exact hbit

/-! ## The loop over the data stage -/

theorem packet_bytes (sz : ℕ) : (if sz ≤ packetSize then sz else packetSize) = min 8 sz := by
  unfold packetSize
  split <;> omega

section DataLoop
variable {toggle : ℕ}

theorem dataLoop_fst (left i sz : ℕ) (tds : TdArray) :
    (req.dataLoop td toggle left i sz tds).1 = i + min left ((sz + 7) / 8) := by
  induction left generalizing i sz tds with
  | zero => simp [dataLoop]
  | succ left ih =>
    simp only [dataLoop, packet_bytes]
    split
    · rw [ih]
      omega
    · simp only
      omega

theorem dataLoop_snd (left i sz : ℕ) (tds : TdArray) (j : ℕ) :
    (req.dataLoop td toggle left i sz tds).2 j
      = if i ≤ j ∧ j < i + min left ((sz + 7) / 8) then req.dataTd td toggle j (min 8 (sz - 8 * (j - i))) (tds j)
        else tds j := by
  induction left generalizing i sz tds with
  | zero => simp [dataLoop]
  | succ left ih =>
    simp only [dataLoop, packet_bytes]
    by_cases hsz : sz > 0
    · rw [if_pos hsz, ih]
      by_cases hji : j = i
      · subst hji
        rw [if_neg (by omega), if_pos (by omega), Function.update_self]
        simp
      · rw [Function.update_of_ne hji]
        by_cases hin : i ≤ j ∧ j < i + min (left + 1) ((sz + 7) / 8)
        · rw [if_pos (by omega), if_pos hin]
          congr 1
          omega
        · rw [if_neg (by omega), if_neg hin]
    · rw [if_neg hsz, if_neg (by omega)]

end DataLoop

/-! ## The chain as it is queued -/

/-- The data TDs of the chain. -/
def dataTds : ℕ := min 8 ((req.xferlen + 7) / 8)

theorem dataTds_add_two_le_tdcount : req.dataTds + 2 ≤ req.tdcount := by
  unfold dataTds tdcount packetSize
  omega

theorem buildChain_fst : (req.buildChain td old).1 = req.dataTds + 2 := by
  simp only [buildChain, dataLoop_fst, dataTds]
  omega

theorem buildChain_zero :
    (req.buildChain td old).2 0 = req.setupTd td 0 (uhciAllocTDs td req.tdcount old 0) := by
  simp only [buildChain, dataLoop_fst]
  rw [Function.update_of_ne (by omega), dataLoop_snd, if_neg (by omega), Function.update_self]

theorem buildChain_data {j : ℕ} (hj : j < req.dataTds) :
    (req.buildChain td old).2 (j + 1)
      = req.dataTd td 1 (j + 1) (min 8 (req.xferlen - 8 * j)) (uhciAllocTDs td req.tdcount old (j + 1)) := by
  unfold dataTds at hj
  simp only [buildChain, dataLoop_fst]
  rw [Function.update_of_ne (by omega), dataLoop_snd, if_pos (by omega), Function.update_of_ne (by omega)]
  simp

theorem buildChain_status :
    (req.buildChain td old).2 (req.dataTds + 1)
      = req.statusTd 1 (uhciAllocTDs td req.tdcount old (req.dataTds + 1)) := by
  simp only [buildChain, dataLoop_fst, dataLoop_snd, dataTds]
  rw [show 1 + min 8 ((req.xferlen + 7) / 8) = min 8 ((req.xferlen + 7) / 8) + 1 by omega, Function.update_self,
    if_neg (by omega), Function.update_of_ne (by omega)]

/-- The TDs behind the chain are as they were allocated. -/
theorem buildChain_behind {j : ℕ} (hj : req.dataTds + 1 < j) :
    (req.buildChain td old).2 j = uhciAllocTDs td req.tdcount old j := by
  unfold dataTds at hj
  simp only [buildChain, dataLoop_fst]
  rw [Function.update_of_ne (by omega), dataLoop_snd, if_neg (by omega), Function.update_of_ne (by omega)]

/-! ## What the chain has to be -/

/-- The bytes of the data TDs before the one at `j + 1`. -/
def dataBytes (tds : TdArray) (j : ℕ) : ℕ := ∑ k ∈ Finset.range j, (tds (k + 1)).maxBytes

/-- The chain at `td` carries the request out, with `d` data TDs. -/
structure ControlChain (tds : TdArray) (d : ℕ) : Prop where
  setup : (tds 0).pid = tokenSetup ∧ (tds 0).toggle = 0 ∧ (tds 0).maxBytes = 8 ∧ (tds 0).buffer = v2p req.setupData
  data_pid : ∀ j < d, (tds (j + 1)).pid = req.dataPid
  data_toggle : ∀ j < d, (tds (j + 1)).toggle = (j + 1) % 2
  data_length : ∀ j < d, 0 < (tds (j + 1)).maxBytes ∧ (tds (j + 1)).maxBytes ≤ 8
  data_buffer : ∀ j < d, (tds (j + 1)).buffer = v2p req.xferbuf + dataBytes tds j
  data_total : dataBytes tds d = req.xferlen
  status : (tds (d + 1)).pid = req.statusPid ∧ (tds (d + 1)).toggle = 1 ∧ (tds (d + 1)).maxBytes = 0 ∧ (tds (d + 1)).ioc
  linked : ∀ j ≤ d, ¬ (tds j).terminates ∧ (tds j).link = v2p (td + sizeofUhciTd * (j + 1))
  last : (tds (d + 1)).terminates

section Queued
variable {P : ℕ}

theorem v2p_td {j : ℕ} (hlow : P + sizeofUhciTd * req.tdcount ≤ 2 ^ 32) (hj : j < req.tdcount) :
    v2p (p2v P + sizeofUhciTd * j) = P + sizeofUhciTd * j := by
  unfold sizeofUhciTd at *
  exact v2p_p2v_add (by omega)

theorem phys32_td {j : ℕ} (hlow : P + sizeofUhciTd * req.tdcount ≤ 2 ^ 32) (hj : j < req.tdcount) :
    phys32 (p2v P + sizeofUhciTd * j) = P + sizeofUhciTd * j := by
  rw [phys32, req.v2p_td hlow hj]
  unfold sizeofUhciTd at *
  exact Nat.mod_eq_of_lt (by omega)

theorem link_queued {j : ℕ} (hj : j ≤ req.dataTds) :
    ((req.buildChain td old).2 j).link = phys32 (td + sizeofUhciTd * (j + 1)) := by
  cases j with
  | zero => simp [buildChain_zero, setupTd]
  | succ j => simp [req.buildChain_data td old hj, dataTd]

theorem last_terminates : ((req.buildChain td old).2 (req.dataTds + 1)).terminates := by
  simp [buildChain_status, statusTd, UhciTd.terminates]

theorem not_terminates {j : ℕ} (halign : 16 ∣ P) (hlow : P + sizeofUhciTd * req.tdcount ≤ 2 ^ 32)
    (hj : j ≤ req.dataTds) : ¬ ((req.buildChain (p2v P) old).2 j).terminates := by
  have hcount := req.dataTds_add_two_le_tdcount
  unfold UhciTd.terminates
  rw [req.link_queued _ old hj, req.phys32_td hlow (by omega)]
  unfold sizeofUhciTd
  omega

/-- Where the chain ends is decided by the links. -/
theorem dataTds_of_chain {d : ℕ} (halign : 16 ∣ P) (hlow : P + sizeofUhciTd * req.tdcount ≤ 2 ^ 32)
    (h : req.ControlChain (p2v P) (req.buildChain (p2v P) old).2 d) : d = req.dataTds := by
  apply Nat.le_antisymm
  · apply Nat.le_of_not_lt
    intro hlt
    exact (h.linked (req.dataTds + 1) hlt).1 (req.last_terminates _ old)
  · apply Nat.le_of_not_lt
    intro hlt
    exact req.not_terminates old halign hlow hlt h.last

theorem fields_queued {j : ℕ} (hj : j < req.dataTds) :
    ((req.buildChain td old).2 (j + 1)).pid = req.dataPid ∧ ((req.buildChain td old).2 (j + 1)).toggle = 1 ∧
      ((req.buildChain td old).2 (j + 1)).maxBytes = min 8 (req.xferlen - 8 * j) := by
  unfold dataTds at hj
  rw [req.buildChain_data td old hj]
  apply dataTd_fields
  · omega
  · omega

/-- The data stage covers the first 64 bytes of the buffer at most. -/
theorem dataBytes_queued {j : ℕ} (hj : j ≤ req.dataTds) :
    dataBytes (req.buildChain td old).2 j = min req.xferlen (8 * j) := by
  unfold dataBytes
  induction j with
  | zero => simp
  | succ j ih =>
    rw [Finset.sum_range_succ, ih (by omega), (req.fields_queued td old hj).2.2]
    omega

theorem chain_of_short (hshort : req.xferlen ≤ 8) (hsetup : v2p req.setupData < 2 ^ 32)
    (hbuf : req.xferlen = 0 ∨ v2p req.xferbuf < 2 ^ 32) (halign : 16 ∣ P)
    (hlow : P + sizeofUhciTd * req.tdcount ≤ 2 ^ 32) :
    req.ControlChain (p2v P) (req.buildChain (p2v P) old).2 req.dataTds where
  setup := by
    rw [buildChain_zero]
    obtain ⟨hpid, htoggle, hmax⟩ := req.setupTd_fields (p2v P) (uhciAllocTDs (p2v P) req.tdcount old 0)
    exact ⟨hpid, htoggle, hmax, Nat.mod_eq_of_lt hsetup⟩
  data_pid j hj := (req.fields_queued _ old hj).1
  data_toggle j hj := by
    have hj0 : j = 0 := by
      unfold dataTds at hj
      omega
    rw [(req.fields_queued _ old hj).2.1, hj0]
  data_length j hj := by
    rw [(req.fields_queued _ old hj).2.2]
    unfold dataTds at hj
    omega
  data_buffer j hj := by
    have hj0 : j = 0 := by
      unfold dataTds at hj
      omega
    have hpos : v2p req.xferbuf < 2 ^ 32 := hbuf.resolve_left (by unfold dataTds at hj; omega)
    subst hj0
    simp only [req.buildChain_data _ old hj, dataTd, phys32, dataBytes, Finset.range_zero, Finset.sum_empty]
    simpa using Nat.mod_eq_of_lt hpos
  data_total := by
    rw [dataBytes_queued _ _ _ le_rfl]
    unfold dataTds
    omega
  status := by
    rw [buildChain_status]
    obtain ⟨hpid, htoggle, hmax⟩ := req.statusTd_fields (uhciAllocTDs (p2v P) req.tdcount old (req.dataTds + 1))
    exact ⟨hpid, htoggle, hmax, req.statusTd_ioc _⟩
  linked j hj := by
    have hcount := req.dataTds_add_two_le_tdcount
    refine ⟨req.not_terminates old halign hlow hj, ?_⟩
    rw [req.link_queued _ old hj, req.phys32_td hlow (by omega), req.v2p_td hlow (by omega)]
  last := req.last_terminates _ old

/-- A second data TD would have to carry the toggle 0. -/
theorem short_of_chain (h : req.ControlChain td (req.buildChain td old).2 req.dataTds) : req.xferlen ≤ 8 := by
  apply Nat.le_of_not_lt
  intro hlong
  have h2 : 1 < req.dataTds := by
    unfold dataTds
    omega
  have htoggle := h.data_toggle 1 h2
  rw [(req.fields_queued td old h2).2.1] at htoggle
  exact absurd htoggle (by decide)

theorem buffers_of_chain (h : req.ControlChain td (req.buildChain td old).2 req.dataTds) :
    v2p req.setupData < 2 ^ 32 ∧ (req.xferlen = 0 ∨ v2p req.xferbuf < 2 ^ 32) := by
  refine ⟨?_, ?_⟩
  · have hs := h.setup.2.2.2
    rw [buildChain_zero] at hs
    rw [← hs]
    exact Nat.mod_lt _ (by positivity)
  · by_cases h0 : req.xferlen = 0
    · exact Or.inl h0
    · have h1 : 0 < req.dataTds := by
        unfold dataTds
        omega
      have hb := h.data_buffer 0 h1
      simp only [req.buildChain_data td old h1, dataTd, phys32, dataBytes, Finset.range_zero, Finset.sum_empty] at hb
      right
      rw [← Nat.add_zero (v2p req.xferbuf), ← hb]
      exact Nat.mod_lt _ (by positivity)

/-- The TDs are queued at `P` in the memory that the controller reaches. The chain is the one the request asks for
if and only if one data TD is enough and the controller reaches the setup data and the buffer. -/
theorem control_chain_iff (halign : 16 ∣ P) (hlow : P + sizeofUhciTd * req.tdcount ≤ 2 ^ 32) :
    (∃ d, req.ControlChain (p2v P) (req.buildChain (p2v P) old).2 d)
      ↔ req.xferlen ≤ 8 ∧ v2p req.setupData < 2 ^ 32 ∧ (req.xferlen = 0 ∨ v2p req.xferbuf < 2 ^ 32) := by
  constructor
  · rintro ⟨d, h⟩
    obtain rfl := req.dataTds_of_chain old halign hlow h
    exact ⟨req.short_of_chain _ old h, req.buffers_of_chain _ old h⟩
  · rintro ⟨hshort, hsetup, hbuf⟩
    exact ⟨_, req.chain_of_short old hshort hsetup hbuf halign hlow⟩

end Queued
end CtrlXferRequest

/-- A device descriptor: 18 bytes to the host, all buffers below 4 GB. -/
def descriptorRequest : CtrlXferRequest where
  address := 1
  lowSpeed := false
  setupData := p2v 0x5000
  bmRequestType := 0x80
  xferbuf := p2v 0x6000
  xferlen := 18

theorem control_chain_iff_descriptor :
    (∃ d, descriptorRequest.ControlChain (p2v 0x1000)
    (descriptorRequest.buildChain (p2v 0x1000) fun _ => ⟨0, 0, 0, 0, 0⟩).2 d)
      ↔ 18 ≤ 8 ∧ v2p (p2v 0x5000) < 2 ^ 32 ∧ (18 = 0 ∨ v2p (p2v 0x6000) < 2 ^ 32) :=
  descriptorRequest.control_chain_iff _ (by decide) (by decide)

/-- The second data TD of three repeats DATA1, whatever the memory of the TDs held before. -/
theorem second_packet_repeats_toggle :
    ∃ req : CtrlXferRequest, req.xferlen = 18 ∧ 16 ∣ 0x1000 ∧ 0x1000 + sizeofUhciTd * req.tdcount ≤ 2 ^ 32 ∧
      ¬ ∃ d, req.ControlChain (p2v 0x1000) (req.buildChain (p2v 0x1000) fun _ => ⟨0, 0, 0, 0, 0⟩).2 d := by
  refine ⟨descriptorRequest, rfl, by decide, by decide, ?_⟩
  rintro ⟨d, h⟩
  obtain rfl := descriptorRequest.dataTds_of_chain _ (by decide) (by decide) h
  exact absurd (descriptorRequest.short_of_chain _ _ h) (by decide)

end Borgos.Usb
