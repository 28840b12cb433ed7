import Borgos.Usb.UhciChainLaws
import Borgos.Foundations.Chain

/-! # The result of a UHCI transfer

The length that is reported is read from the low six bits of `ctrl`, where the field of the controller has eleven; and a
poll looks at the last TD of the chain only. For both: when the report is the truth.
-/
namespace Borgos.Usb
open Borgos.Foundations Borgos.Mem
set_option autoImplicit false

/-! ## One TD -/

section OneTd
variable (t : UhciTd)

theorem tdActlen_eq : tdActlen t = 1 + t.ctrl % 64 := by
  unfold tdActlen
  rw [show 0x3F = 2 ^ 6 - 1 by norm_num, Nat.and_two_pow_sub_one_eq_mod]

theorem tdActlen_pos : 0 < tdActlen t := by
  rw [tdActlen_eq]
  omega

theorem tdActlen_le : tdActlen t ≤ 64 := by
  rw [tdActlen_eq]
  omega

theorem tdActlen_exact : tdActlen t = t.actBytes ↔ 0 < t.actBytes ∧ t.actBytes ≤ 64 := by
  unfold UhciTd.actBytes
  rw [tdActlen_eq]
  omega

theorem actBytes_le_tdActlen (h : t.actBytes ≤ 64) : t.actBytes ≤ tdActlen t := by
  unfold UhciTd.actBytes at *
  rw [tdActlen_eq]
  omega

theorem tdActlen_of_zero (h : t.actBytes = 0) : tdActlen t = 64 := by
  unfold UhciTd.actBytes at h
  rw [tdActlen_eq]
  omega

end OneTd

/-! ## The sum over a control transfer -/

theorem ctrlActlen_eq (tdcount : ℕ) (tds : TdArray) :
    ctrlActlen tdcount tds = (∑ k ∈ Finset.range (tdcount - 2), tdActlen (tds (k + 1))) % 2 ^ 16 := by
  unfold ctrlActlen
  induction tdcount - 2 with
  | zero => simp
  | succ m ih =>
    rw [List.range'_1_concat, List.foldl_append, ih, Finset.sum_range_succ, List.foldl_cons, List.foldl_nil,
      Nat.mod_add_mod, Nat.add_comm 1 m]

/-- What the controller leaves of the TDs that were queued: those behind the chain are as before, and no packet is
longer than its TD allows. -/
structure ControllerLeft (queued : ℕ × TdArray) (after : TdArray) : Prop where
  behind : ∀ t, queued.1 ≤ t → after t = queued.2 t
  length : ∀ t < queued.1, (after t).actBytes ≤ (queued.2 t).maxBytes

/-- The bytes that `d` data TDs have moved. -/
def movedBytes (after : TdArray) (d : ℕ) : ℕ := ∑ k ∈ Finset.range d, (after (k + 1)).actBytes

section Control
variable {req : CtrlXferRequest} {td : ℕ} {old after : TdArray}

theorem data_actBytes_le (hleft : ControllerLeft (req.buildChain td old) after) {k : ℕ} (hk : k < req.dataTds) :
    (after (k + 1)).actBytes ≤ 8 := by
  have hlen := hleft.length (k + 1) (by rw [req.buildChain_fst]; omega)
  rw [(req.fields_queued td old hk).2.2] at hlen
  omega

theorem movedBytes_le (hleft : ControllerLeft (req.buildChain td old) after) :
    movedBytes after req.dataTds ≤ ∑ k ∈ Finset.range req.dataTds, tdActlen (after (k + 1)) := by
  apply Finset.sum_le_sum
  intro k hk
  have h8 := data_actBytes_le hleft (Finset.mem_range.mp hk)
  apply actBytes_le_tdActlen
  omega

/-- A TD that was allocated and not queued counts as one byte. -/
theorem tdActlen_behind (hleft : ControllerLeft (req.buildChain td old) after) {k : ℕ} (hk : req.dataTds < k)
    (hcount : k + 1 < req.tdcount) : tdActlen (after (k + 1)) = 1 := by
  rw [hleft.behind (k + 1) (by rw [req.buildChain_fst]; omega), req.buildChain_behind td old (by omega)]
  unfold uhciAllocTDs
  rw [if_pos hcount, tdActlen_eq]
  rfl

theorem sum_tdActlen_le (hlen : req.xferlen < 2 ^ 16) (hleft : ControllerLeft (req.buildChain td old) after) :
    ∑ k ∈ Finset.range (req.tdcount - 2), tdActlen (after (k + 1)) < 2 ^ 16 := by
  have hcount : req.tdcount - 2 ≤ 8192 := by
    unfold CtrlXferRequest.tdcount CtrlXferRequest.packetSize
    omega
  have hterm : ∀ k ∈ Finset.range (req.tdcount - 2),
      tdActlen (after (k + 1)) ≤ 1 + if k < 9 then 63 else 0 := by
    intro k hk
    have hk := Finset.mem_range.mp hk
    split
    · exact tdActlen_le _
    · have hd : req.dataTds ≤ 8 := Nat.min_le_left _ _
      rw [tdActlen_behind hleft (by omega) (by omega)]
  have hsmall : ∑ k ∈ Finset.range (req.tdcount - 2), (if k < 9 then 63 else 0) ≤ 9 * 63 := by
    rw [← Finset.sum_filter, Finset.sum_const, smul_eq_mul]
    apply Nat.mul_le_mul_right
    calc (Finset.filter (fun k => k < 9) (Finset.range (req.tdcount - 2))).card
        ≤ (Finset.range 9).card := Finset.card_le_card fun k hk => Finset.mem_range.mpr (Finset.mem_filter.mp hk).2
      _ = 9 := Finset.card_range 9
  have hsum := Finset.sum_le_sum hterm
  rw [Finset.sum_add_distrib, Finset.sum_const, Finset.card_range, smul_eq_mul] at hsum
  omega

theorem ctrl_length_exact_iff (hlen : req.xferlen < 2 ^ 16) (hleft : ControllerLeft (req.buildChain td old) after) :
    ctrlActlen req.tdcount after = movedBytes after req.dataTds
      ↔ req.xferlen ≤ 64 ∧ ∀ k < req.dataTds, 0 < (after (k + 1)).actBytes := by
  rw [ctrlActlen_eq, Nat.mod_eq_of_lt (sum_tdActlen_le hlen hleft)]
  have hmoved := movedBytes_le hleft
  by_cases hlong : 64 < req.xferlen
  · -- the loop also counts the status TD, and what is behind it
    have hd : req.dataTds = 8 := by
      unfold CtrlXferRequest.dataTds
      omega
    have hmore : req.dataTds < req.tdcount - 2 := by
      unfold CtrlXferRequest.tdcount CtrlXferRequest.packetSize
      omega
    have hsplit := Finset.sum_lt_sum_of_subset (Finset.range_subset_range.mpr hmore.le)
      (Finset.mem_range.mpr hmore) Finset.notMem_range_self (tdActlen_pos (after (req.dataTds + 1)))
      fun k _ _ => Nat.zero_le (tdActlen (after (k + 1)))
    constructor
    · intro heq
      omega
    · intro h
      omega
  · have hcount : req.tdcount - 2 = req.dataTds := by
      unfold CtrlXferRequest.tdcount CtrlXferRequest.packetSize CtrlXferRequest.dataTds
      omega
    have hle : ∀ k ∈ Finset.range req.dataTds, (after (k + 1)).actBytes ≤ tdActlen (after (k + 1)) := by
      intro k hk
      have h8 := data_actBytes_le hleft (Finset.mem_range.mp hk)
      exact actBytes_le_tdActlen _ (by omega)
    rw [hcount, eq_comm, movedBytes, Finset.sum_eq_sum_iff_of_le hle]
    constructor
    · intro h
      refine ⟨by omega, fun k hk => ?_⟩
      exact ((tdActlen_exact _).mp (h k (Finset.mem_range.mpr hk)).symm).1
    · rintro ⟨-, hpos⟩ k hk
      have hk := Finset.mem_range.mp hk
      have h8 := data_actBytes_le hleft hk
      exact ((tdActlen_exact _).mpr ⟨hpos k hk, by omega⟩).symm

theorem ctrl_result_length {timeout count n : ℕ} {usbint : ℕ → Bool}
    (h : uhcihcdCtrlXferResult req timeout count usbint after = .ok n) : n = ctrlActlen req.tdcount after := by
  unfold uhcihcdCtrlXferResult at h
  split at h
  · cases h
  · split at h
    · cases h
    · cases h
      rfl

end Control

theorem endp_result_length {timeout n : ℕ} {after : ℕ → UhciTd} (h : uhcihcdEndpXferResult timeout after = .ok n) :
    n = tdActlen (after (endpDelays timeout after)) := by
  unfold uhcihcdEndpXferResult at h
  simp only at h
  split at h
  · cases h
  · split at h
    · cases h
    · cases h
      have hle := tdActlen_le (after (endpDelays timeout after))
      omega

/-! ## The end of a chain -/

section Poll
variable {mem : ℕ → UhciTd} {fuel tdhead : ℕ}

theorem lastTd_of_chain {xs : List ℕ} {x : ℕ} (h : Chained (fun a => (mem a).tdnext) 0 tdhead (xs ++ [x]))
    (hfuel : xs.length < fuel) : lastTd mem fuel tdhead = some x := by
  induction xs generalizing tdhead fuel with
  | nil =>
    obtain ⟨rfl, -, hend⟩ := h
    have hend : (mem tdhead).tdnext = 0 := hend
    obtain ⟨fuel, rfl⟩ := Nat.exists_eq_add_one_of_ne_zero (Nat.ne_of_gt hfuel)
    simp [lastTd, hend]
  | cons y ys ih =>
    obtain ⟨rfl, -, hrest⟩ := h
    rw [List.length_cons] at hfuel
    obtain ⟨fuel, rfl⟩ := Nat.exists_eq_add_one_of_ne_zero (Nat.ne_of_gt (Nat.zero_lt_of_lt hfuel))
    have hnext : (mem tdhead).tdnext ≠ 0 := hrest.head_ne_null
    simp only [lastTd, ne_eq, hnext, not_false_eq_true, if_true]
    exact ih hrest (by omega)

/-- A poll of a chain always returns, with what the last TD tells. -/
theorem poll_of_chain {xs : List ℕ} {x : ℕ} (h : Chained (fun a => (mem a).tdnext) 0 tdhead (xs ++ [x]))
    (hfuel : xs.length < fuel) :
    uhcihcdPollQhXfer mem fuel tdhead
      = some (if (mem x).ctrl &&& tdCsActive = 0 then .complete .ok (tdActlen (mem x)) else .pending) := by
  unfold uhcihcdPollQhXfer
  rw [if_neg h.head_ne_null, lastTd_of_chain h hfuel]
  simp only
  split <;> rfl

end Poll

/-! ## The length -/

/-- The bytes that the TDs of a chain have moved. -/
def chainBytes (mem : ℕ → UhciTd) (xs : List ℕ) : ℕ := (xs.map fun a => (mem a).actBytes).sum

/-- One TD stands for the whole chain. -/
theorem chain_length_exact_iff (mem : ℕ → UhciTd) (xs : List ℕ) (x : ℕ) :
    tdActlen (mem x) = chainBytes mem (xs ++ [x])
      ↔ (chainBytes mem xs = 0 ∧ 0 < (mem x).actBytes ∧ (mem x).actBytes ≤ 64)
        ∨ (chainBytes mem xs = 64 ∧ (mem x).actBytes = 0) := by
  have hsplit : chainBytes mem (xs ++ [x]) = chainBytes mem xs + (mem x).actBytes := by
    unfold chainBytes
    simp
  rw [hsplit]
  by_cases h0 : (mem x).actBytes = 0
  · rw [tdActlen_of_zero _ h0]
    omega
  · have hexact := tdActlen_exact (mem x)
    have hle := tdActlen_le (mem x)
    by_cases h64 : (mem x).actBytes ≤ 64
    · rw [hexact.mpr ⟨by omega, h64⟩]
      omega
    · omega

/-- The length that is reported is the number of bytes moved: for a control transfer if and only if it has at most 64
bytes and no data TD is empty; for a TD that is waited for if and only if it moved between 1 and 64 bytes; for a chain
that is polled if and only if its last TD did and the others moved nothing, or the last TD is empty and the others moved
just the 64 bytes that an empty TD counts for. -/
theorem actual_xferlen_iff (timeout n : ℕ) :
    (∀ (req : CtrlXferRequest) (td : ℕ) (old after : TdArray) (usbint : ℕ → Bool), req.xferlen < 2 ^ 16 →
      ControllerLeft (req.buildChain td old) after →
      uhcihcdCtrlXferResult req timeout (req.buildChain td old).1 usbint after = .ok n →
      (n = movedBytes after req.dataTds ↔ req.xferlen ≤ 64 ∧ ∀ k < req.dataTds, 0 < (after (k + 1)).actBytes)) ∧
    (∀ after : ℕ → UhciTd, uhcihcdEndpXferResult timeout after = .ok n →
      (n = (after (endpDelays timeout after)).actBytes
        ↔ 0 < (after (endpDelays timeout after)).actBytes ∧ (after (endpDelays timeout after)).actBytes ≤ 64)) ∧
    (∀ (mem : ℕ → UhciTd) (fuel tdhead x : ℕ) (xs : List ℕ) (status : UsbResult),
      Chained (fun a => (mem a).tdnext) 0 tdhead (xs ++ [x]) → xs.length < fuel →
      uhcihcdPollQhXfer mem fuel tdhead = some (.complete status n) →
      (n = chainBytes mem (xs ++ [x])
        ↔ (chainBytes mem xs = 0 ∧ 0 < (mem x).actBytes ∧ (mem x).actBytes ≤ 64)
          ∨ (chainBytes mem xs = 64 ∧ (mem x).actBytes = 0))) := by
  refine ⟨?_, ?_, ?_⟩
  · intro req td old after usbint hlen hleft hok
    rw [ctrl_result_length hok]
    exact ctrl_length_exact_iff hlen hleft
  · intro after hok
    rw [endp_result_length hok]
    exact tdActlen_exact _
  · intro mem fuel tdhead x xs status hchain hfuel hok
    rw [poll_of_chain hchain hfuel] at hok
    split at hok
    · cases hok
      exact chain_length_exact_iff mem xs x
    · cases hok

/-- A TD that the device has answered with 8 bytes, and one that it has answered with none. -/
def fullTd : UhciTd := ⟨1, 3 <<< 27 ||| 7, tdToken 7 0 1 1 tokenIn, 0x6000, 0⟩
def emptyTd : UhciTd := ⟨1, 3 <<< 27 ||| 0x7FF, tdToken 7 0 1 1 tokenIn, 0x6000, 0⟩

/-- A control transfer of 8 bytes, and its TDs after all of them have been carried out. -/
def eightBytes : CtrlXferRequest := { descriptorRequest with xferlen := 8 }

def eightBytesQueued : ℕ × TdArray := eightBytes.buildChain (p2v 0x1000) fun _ => ⟨0, 0, 0, 0, 0⟩

def eightBytesLeft : TdArray := fun t =>
  if t < 3 then { eightBytesQueued.2 t with ctrl := if t = 2 then 0x7FF else 7 } else eightBytesQueued.2 t

theorem eightBytes_left : ControllerLeft eightBytesQueued eightBytesLeft where
  behind t ht := by
    have h3 : ¬ t < 3 := Nat.not_lt.mpr ht
    unfold eightBytesLeft
    rw [if_neg h3]
  length t ht := by
    have h3 : t < 3 := ht
    interval_cases t <;> decide

theorem actual_xferlen_iff_full :
    (8 = movedBytes eightBytesLeft 1 ↔ 8 ≤ 64 ∧ ∀ k < 1, 0 < (eightBytesLeft (k + 1)).actBytes) ∧
    (8 = fullTd.actBytes ↔ 0 < fullTd.actBytes ∧ fullTd.actBytes ≤ 64) ∧
    (8 = chainBytes (fun _ => fullTd) ([] ++ [0x1000])
      ↔ (chainBytes (fun _ => fullTd) [] = 0 ∧ 0 < fullTd.actBytes ∧ fullTd.actBytes ≤ 64)
        ∨ (chainBytes (fun _ => fullTd) [] = 64 ∧ fullTd.actBytes = 0)) := by
  refine ⟨?_, ?_, ?_⟩
  · exact (actual_xferlen_iff 1 8).1 eightBytes (p2v 0x1000) _ eightBytesLeft (fun _ => true)
      (by decide) eightBytes_left
      (by decide)
  · exact (actual_xferlen_iff 1 8).2.1 (fun _ => fullTd) (by decide)
  · exact (actual_xferlen_iff 1 8).2.2 (fun _ => fullTd) 1 0x1000 0x1000 [] .ok ⟨rfl, by decide, rfl⟩
      (by decide) (by decide)

/-- An empty reply is reported as 64 bytes. -/
theorem empty_reply_reported_as_64 :
    uhcihcdEndpXferResult 1 (fun _ => emptyTd) = .ok 64 ∧
      (emptyTd).actBytes = 0 ∧
      uhcihcdPollQhXfer (fun _ => emptyTd) 1 0x1000 = some (.complete .ok 64) := by decide

/-! ## The status -/

/-- The bits of an error that ends a transfer. -/
def tdErrors : ℕ := tdCsStalled ||| tdCsDatabuffer ||| tdCsBabble ||| tdCsCrcTimeout ||| tdCsBitstuff

namespace UhciTd

def active (t : UhciTd) : Prop := t.ctrl &&& tdCsActive ≠ 0

def faulty (t : UhciTd) : Prop := t.ctrl &&& tdErrors ≠ 0

end UhciTd

/-- What a poll of the chain `xs` tells about it is right: `USB_OK` only when all TDs are through without an error, and
an error when a TD before the last has stopped with one. -/
structure StatusRight (mem : ℕ → UhciTd) (xs : List ℕ) (r : PollResult) : Prop where
  ok : ∀ n, r = .complete .ok n → ∀ a ∈ xs, ¬ (mem a).active ∧ ¬ (mem a).faulty
  stopped : (∃ a ∈ xs.dropLast, ¬ (mem a).active ∧ (mem a).faulty) → ∃ status n, status ≠ .ok ∧ r = .complete status n

/-- A poll returns, and its verdict is right if and only if no TD has stopped with an error and the last TD is not
through before the others. -/
theorem poll_status_iff {mem : ℕ → UhciTd} {fuel tdhead x : ℕ} {xs : List ℕ}
    (hchain : Chained (fun a => (mem a).tdnext) 0 tdhead (xs ++ [x])) (hfuel : xs.length < fuel) :
    ∃ r, uhcihcdPollQhXfer mem fuel tdhead = some r ∧
      (StatusRight mem (xs ++ [x]) r
        ↔ (∀ a ∈ xs ++ [x], (mem a).faulty → (mem a).active) ∧ (¬ (mem x).active → ∀ a ∈ xs, ¬ (mem a).active)) := by
  refine ⟨_, poll_of_chain hchain hfuel, ?_⟩
  by_cases hlast : (mem x).ctrl &&& tdCsActive = 0
  · rw [if_pos hlast]
    have hx : ¬ (mem x).active := fun h => h hlast
    constructor
    · rintro ⟨hok, -⟩
      have hall := hok _ rfl
      exact ⟨fun a ha hfault => absurd hfault (hall a ha).2, fun _ a ha => (hall a (List.mem_append_left _ ha)).1⟩
    · rintro ⟨hfault, hactive⟩
      have hthrough : ∀ a ∈ xs ++ [x], ¬ (mem a).active := by
        intro a ha
        rcases List.mem_append.mp ha with ha | ha
        · exact hactive hx a ha
        · rw [List.mem_singleton.mp ha]
          exact hx
      refine ⟨fun n _ a ha => ⟨hthrough a ha, fun hf => hthrough a ha (hfault a ha hf)⟩, ?_⟩
      rintro ⟨a, ha, hna, hf⟩
      exact absurd (hfault a (List.mem_of_mem_dropLast ha) hf) hna
  · rw [if_neg hlast]
    constructor
    · rintro ⟨-, hstopped⟩
      refine ⟨fun a ha hf => ?_, fun hx => absurd hlast hx⟩
      rcases List.mem_append.mp ha with ha | ha
      · by_contra hna
        obtain ⟨status, n, -, hr⟩ := hstopped ⟨a, by simpa using ha, hna, hf⟩
        cases hr
      · rw [List.mem_singleton.mp ha]
        exact hlast
    · rintro ⟨hfault, -⟩
      refine ⟨fun n hr => absurd hr (by simp), ?_⟩
      rintro ⟨a, ha, hna, hf⟩
      exact absurd (hfault a (List.mem_of_mem_dropLast ha) hf) hna

/-- Two TDs that the device has answered, with no bytes and with 8. -/
def fullChain (a : ℕ) : UhciTd := if a = 0x1000 then { emptyTd with link := 0x1020, tdnext := 0x1020 } else fullTd

theorem fullChain_through : ∀ a ∈ [0x1000, 0x1020], ¬(fullChain a).faulty ∧ ¬(fullChain a).active := by
  unfold UhciTd.faulty UhciTd.active
  decide

theorem poll_status_iff_full : ∃ r, uhcihcdPollQhXfer fullChain 2 0x1000 = some r ∧ r = .complete .ok 8 ∧
    StatusRight fullChain [0x1000, 0x1020] r := by
  have hchain : Chained (fun a => (fullChain a).tdnext) 0 0x1000 ([0x1000] ++ [0x1020]) :=
    ⟨rfl, by decide, rfl, by decide, rfl⟩
  obtain ⟨r, hrun, hright⟩ := poll_status_iff hchain (show 1 < 2 by decide)
  refine ⟨r, hrun, Option.some.inj (hrun.symm.trans (by decide)), hright.mpr ⟨?_, ?_⟩⟩
  · intro a ha hfault
    exact absurd hfault (fullChain_through a ha).1
  · intro _ a ha
    exact (fullChain_through a (List.mem_append_left _ ha)).2

/-- The only TD of a transfer has stalled. -/
def stalledTd : UhciTd := ⟨1, 3 <<< 27 ||| tdCsStalled ||| 0x7FF, tdToken 7 0 1 1 tokenIn, 0x6000, 0⟩

/-- Two TDs, of which the first has stalled: the second stays active for ever. -/
def stalledChain (a : ℕ) : UhciTd :=
  if a = 0x1000 then ⟨0x1020, 3 <<< 27 ||| tdCsStalled, 0, 0x6000, 0x1020⟩
  else ⟨1, 3 <<< 27 ||| tdCsActive, 0, 0x6040, 0⟩

/-- A transfer that has stalled is reported as `USB_OK`; one of two TDs of which the first has stalled is left
queued. -/
theorem stalled_transfers_misreported :
    (uhcihcdPollQhXfer (fun _ => stalledTd) 1 0x1000 = some (.complete .ok 64) ∧
      ¬ StatusRight (fun _ => stalledTd) [0x1000] (.complete .ok 64)) ∧
    (uhcihcdPollQhXfer stalledChain 2 0x1000 = some .pending ∧
      ¬ StatusRight stalledChain [0x1000, 0x1020] .pending) := by
  refine ⟨⟨by decide, ?_⟩, by decide, ?_⟩
  · rintro ⟨hok, -⟩
    have hfault : stalledTd.faulty := by
      unfold UhciTd.faulty
      decide
    exact (hok 64 rfl 0x1000 (by decide)).2 hfault
  · rintro ⟨-, hstopped⟩
    have hfault : ¬ (stalledChain 0x1000).active ∧ (stalledChain 0x1000).faulty := by
      unfold UhciTd.active UhciTd.faulty
      decide
    obtain ⟨status, n, -, hr⟩ := hstopped ⟨0x1000, by decide, hfault⟩
    cases hr

end Borgos.Usb
