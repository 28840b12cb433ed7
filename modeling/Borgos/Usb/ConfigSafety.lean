import Borgos.Usb.ConfigDescriptorLaws

/-! # When the parse of a configuration descriptor is safe and exact

A `wTotalLength` that `kmalloc` has no class for ends in its panic. Below that the chain of descriptors decides: the
parse reads outside the buffer when a buffer of at most four bytes holds only descriptors of other kinds, and it records
too few or too many endpoints when the last setting of an accepted chain is not complete.
-/
namespace Borgos.Usb
open Borgos.Foundations
open Borgos.Mem (KmallocService maxKmalloc)
set_option autoImplicit false

/-- What the pointers of the device say after a parse that returned `USB_OK`. -/
structure Recorded (buf : ConfigBuffer) (p : ConfigParse) : Prop where
  interfaces : ∀ i, (p.interfaces i).isSome = true ↔ i < numInterfaces buf
  interface_at : ∀ i o, p.interfaces i = some o → o ∈ chain buf 0 ∧ isInterface buf o = true ∧
    alternateSetting buf o = 0 ∧ o + sizeofInterfaceDescriptor ≤ buf.length
  every_setting : ∀ o ∈ chain buf 0, isInterface buf o = true → alternateSetting buf o = 0 →
    ∃ i, p.interfaces i = some o
  interface_order : ∀ i k o o', i < k → p.interfaces i = some o → p.interfaces k = some o' → o < o'
  endpoints : ∀ i o, p.interfaces i = some o → ∀ j, (p.endpoints i j).isSome = true ↔ j < numEndpoints buf o
  endpoint_at : ∀ i o j e, p.interfaces i = some o → p.endpoints i j = some e → e ∈ chain buf 0 ∧
    isEndpoint buf e = true ∧ e + sizeofEndpointDescriptor ≤ buf.length ∧ o < e
  endpoint_order : ∀ i j k e e', j < k → p.endpoints i j = some e → p.endpoints i k = some e' → e < e'
  endpoint_before : ∀ i o j e, p.interfaces (i + 1) = some o → p.endpoints i j = some e → e < o

/-- The condition on the bytes in the buffer. -/
structure Delimited (buf : ConfigBuffer) : Prop where
  short : buf.length ≤ 4 → ∃ d ∈ chain buf 0,
    bLength buf d < sizeofDescriptorHeader ∨ isInterface buf d = true ∨ isEndpoint buf d = true
  last : Accepted buf → CompleteLast buf (chain buf 0)

section
variable {buf : ConfigBuffer} {p : ConfigParse} {es : ℕ → List ℕ}

theorem pairwise_getElem? {l : List ℕ} (h : l.Pairwise (· < ·)) {i k x y : ℕ} (hik : i < k) (hx : l[i]? = some x)
    (hy : l[k]? = some y) : x < y := by
  obtain ⟨hi, rfl⟩ := List.getElem?_eq_some_iff.mp hx
  obtain ⟨hk, rfl⟩ := List.getElem?_eq_some_iff.mp hy
  exact List.pairwise_iff_getElem.mp h i k hi hk hik

theorem isSome_getElem? {l : List ℕ} {i : ℕ} : (l[i]?).isSome = true ↔ i < l.length := by
  simp

/-- A complete chain is recorded exactly. -/
theorem ParseInv.recorded (h : ParseInv buf (chain buf 0) p es) (hc : CompleteLast buf (chain buf 0))
    (hn : (settings buf (chain buf 0)).length = numInterfaces buf) : Recorded buf p := by
  have hsorted : (settings buf (chain buf 0)).Pairwise (· < ·) := (chain_sorted buf 0).filter _
  have hset : ∀ {i j e : ℕ}, (es i)[j]? = some e → i < (settings buf (chain buf 0)).length := by
    intro i j e he
    by_contra hge
    rw [h.unset i (Nat.le_of_not_lt hge)] at he
    cases he
  refine ⟨?_, ?_, ?_, ?_, ?_, ?_, ?_, ?_⟩
  · intro i
    rw [h.interfaces, isSome_getElem?, hn]
  · rw [h.interfaces]
    intro i o ho
    have hset := ParseInv.isSetting_of_getElem ho
    exact ⟨(List.mem_filter.mp (List.mem_of_getElem? ho)).1, isInterface_of_isSetting hset,
      ParseInv.alternateSetting_of_getElem ho, h.inside o (List.mem_of_getElem? ho)⟩
  · intro o ho hi halt
    have hmem : o ∈ settings buf (chain buf 0) := by
      refine List.mem_filter.mpr ⟨ho, ?_⟩
      unfold isSetting
      rw [hi, Bool.true_and, decide_eq_true halt]
    rw [h.interfaces]
    exact List.mem_iff_getElem?.mp hmem
  · rw [h.interfaces]
    exact fun i k o o' hik ho ho' => pairwise_getElem? hsorted hik ho ho'
  · rw [h.interfaces, h.endpoints]
    intro i o ho j
    rw [isSome_getElem?, h.counted_all hc ho]
  · rw [h.interfaces, h.endpoints]
    intro i o j e ho he
    exact (h.endpointsOf i o ho).inside e (List.mem_of_getElem? he)
  · rw [h.endpoints]
    intro i j k e e' hjk he he'
    have hi := hset he
    exact pairwise_getElem? (h.endpointsOf i _ (List.getElem?_eq_getElem hi)).sorted hjk he he'
  · rw [h.interfaces, h.endpoints]
    intro i o j e ho he
    have hi := hset he
    exact (h.endpointsOf i _ (List.getElem?_eq_getElem hi)).before o ho e (List.mem_of_getElem? he)

/-- What is recorded exactly was complete. -/
theorem ParseInv.complete (h : ParseInv buf (chain buf 0) p es) (hrec : Recorded buf p) :
    CompleteLast buf (chain buf 0) := by
  intro o hlast halt
  have ha : inAlternate buf (chain buf 0) = false := by
    unfold inAlternate
    rw [hlast]
    exact decide_eq_false (not_not.mpr halt)
  have ho := h.current ha
  rw [hlast, List.getLast?_eq_getElem?] at ho
  obtain ⟨hpos, -⟩ := List.getElem?_eq_some_iff.mp ho.symm
  have hes := (h.endpointsOf _ o ho.symm).recent (by omega) ha
  have hiff : ∀ j, j < (recentEndpoints buf (chain buf 0)).length ↔ j < numEndpoints buf o := by
    intro j
    rw [← hrec.endpoints _ o (by rw [h.interfaces]; exact ho.symm) j, h.endpoints, isSome_getElem?, hes]
  have h₁ := hiff (recentEndpoints buf (chain buf 0)).length
  have h₂ := hiff (numEndpoints buf o)
  omega

end

/-! ## `usb_kbd_probe_attach` after the parse -/

section Probe
variable {buf : ConfigBuffer} {p : ConfigParse}

theorem readEndpoint_of {i j e : ℕ} (h : p.endpoints i j = some e) : readEndpoint i j p = .ok e p := by
  unfold readEndpoint
  rw [h]

theorem findInterruptEndpoint_returns (h : Recorded buf p) {i o : ℕ} (ho : p.interfaces i = some o) (n j : ℕ)
    (hn : j + n = numEndpoints buf o) : ∃ v, findInterruptEndpoint buf i n j p = .ok v p := by
  induction n generalizing j with
  | zero => exact ⟨none, rfl⟩
  | succ n ih =>
    obtain ⟨e, he⟩ := Option.isSome_iff_exists.mp ((h.endpoints i o ho j).mpr (by omega))
    have hin : e + 7 ≤ buf.length := (h.endpoint_at i o j e ho he).2.2.1
    unfold findInterruptEndpoint
    simp only [Prog.bind_run, readEndpoint_of he, readByte_at (show e + 3 < buf.length by omega),
      readByte_at (show e + 2 < buf.length by omega), Outcome.andThen_ok]
    split_ifs
    · exact ⟨some e, rfl⟩
    · exact ih (j + 1) (by omega)

theorem probeInterface_returns (h : Recorded buf p) {i : ℕ} (hi : i < numInterfaces buf) :
    ∃ v, probeInterface buf i p = .ok v p := by
  obtain ⟨o, ho⟩ := Option.isSome_iff_exists.mp ((h.interfaces i).mpr hi)
  have hin : o + 9 ≤ buf.length := (h.interface_at i o ho).2.2.2
  have hread : readInterface i p = .ok o p := by
    unfold readInterface
    rw [ho]
  unfold probeInterface
  simp only [Prog.bind_run, hread, readByte_at (show o + 5 < buf.length by omega), Outcome.andThen_ok]
  split_ifs
  · exact ⟨none, rfl⟩
  · simp only [Prog.bind_run, readByte_at (show o + 6 < buf.length by omega),
      readByte_at (show o + 7 < buf.length by omega), Outcome.andThen_ok]
    split_ifs
    · exact ⟨none, rfl⟩
    · simp only [Prog.bind_run, readByte_at (show o + 4 < buf.length by omega), Outcome.andThen_ok]
      exact findInterruptEndpoint_returns h ho _ 0 (Nat.zero_add _)

theorem probeInterfaces_returns (h : Recorded buf p) (n i : ℕ) (hn : i + n = numInterfaces buf) :
    ∃ v, probeInterfaces buf n i p = .ok v p := by
  induction n generalizing i with
  | zero => exact ⟨none, rfl⟩
  | succ n ih =>
    obtain ⟨v, hv⟩ := probeInterface_returns h (i := i) (by omega)
    unfold probeInterfaces
    rw [Prog.bind_run, hv, Outcome.andThen_ok]
    cases v with
    | some ep => exact ⟨some (i, ep), rfl⟩
    | none => exact ih (i + 1) (by omega)

/-- The search for a keyboard reads only what the parse has set. -/
theorem usbKbdProbeAttach_returns (h : Recorded buf p) (hlen : 4 < buf.length) (bDeviceClass : BitVec 8) :
    ∃ v, usbKbdProbeAttach bDeviceClass buf p = .ok v p := by
  unfold usbKbdProbeAttach
  split_ifs
  · exact ⟨none, rfl⟩
  · rw [Prog.bind_run, readByte_at hlen, Outcome.andThen_ok]
    exact probeInterfaces_returns h _ 0 (Nat.zero_add _)

end Probe

/-! ## The whole parse -/

/-- The parse returns, and after `USB_OK` everything is recorded and the search for a keyboard reads nothing else. -/
def ParsedSafely (buf : ConfigBuffer) (out : Outcome ConfigParse UsbStatus) : Prop :=
  ∃ res p, out = .ok res p ∧ (res = usbOk → Recorded buf p ∧
    ∀ bDeviceClass, ∃ v, usbKbdProbeAttach bDeviceClass buf p = .ok v p)

theorem finishParse_short {buf : ConfigBuffer} (h : buf.length ≤ 4) (p : ConfigParse) :
    finishParse buf p = .stuck := by
  unfold finishParse
  rw [Prog.bind_run, Prog.get_run, Outcome.andThen_ok, Prog.bind_run, readByte_outside h, Outcome.andThen_stuck]

theorem finishParse_long {buf : ConfigBuffer} (h : 4 < buf.length) (p : ConfigParse) : finishParse buf p =
    .ok (if p.interfaceIdx + 1 ≠ numInterfaces buf then usbStatusInvalidData else usbOk) p := by
  unfold finishParse
  rw [Prog.bind_run, Prog.get_run, Outcome.andThen_ok, Prog.bind_run, readByte_at h, Outcome.andThen_ok]
  by_cases hc : p.interfaceIdx + 1 ≠ numInterfaces buf
  · rw [if_pos hc]
    exact congrFun (if_pos hc) p
  · rw [if_neg hc]
    exact congrFun (if_neg hc) p

/-- In a buffer of at most four bytes only other descriptors are admitted. -/
theorem admits_short {buf : ConfigBuffer} (h : buf.length ≤ 4) : Admits buf [] (chain buf 0) ↔
    ¬∃ d ∈ chain buf 0, bLength buf d < sizeofDescriptorHeader ∨ isInterface buf d = true ∨
    isEndpoint buf d = true := by
  rw [admits_iff]
  constructor
  · rintro hadm ⟨d, hd, hbad⟩
    obtain ⟨pre, post, heq⟩ := List.append_of_mem hd
    have hd := hadm pre d post heq
    rcases hbad with hlen | hi | he
    · exact Nat.not_lt.mpr hd.length hlen
    · have hin : d + 9 ≤ buf.length := (hd.interface hi).1
      omega
    · have hin : d + 7 ≤ buf.length := (hd.endpoint he).2.1
      omega
  · intro hno pre d post heq
    have hd : d ∈ chain buf 0 := by
      rw [heq]
      exact List.mem_append_right _ List.mem_cons_self
    refine ⟨?_, fun hi => absurd ⟨d, hd, .inr (.inl hi)⟩ hno, fun he => absurd ⟨d, hd, .inr (.inr he)⟩ hno⟩
    exact Nat.le_of_not_lt fun hlt => hno ⟨d, hd, .inl hlt⟩

theorem parseConfiguration_safe_iff (buf : ConfigBuffer) :
    ParsedSafely buf (parseConfiguration buf ConfigParse.start) ↔ Delimited buf := by
  obtain ⟨hyes, hno⟩ := parseChain_spec (ParseInv.start buf)
    (show ([] ++ chain buf 0).Pairwise (· < ·) from chain_sorted buf 0)
  unfold parseConfiguration
  rw [Prog.bind_run, parseLoop_eq]
  rw [List.nil_append] at hyes
  by_cases hadm : Admits buf [] (chain buf 0)
  case neg =>
    obtain ⟨res, p, hrun, hres⟩ := hno hadm
    rw [hrun, Outcome.andThen_ok]
    refine iff_of_true ⟨res, p, rfl, fun e => absurd e hres⟩ ⟨fun hshort => ?_, fun hacc => ?_⟩
    · by_contra hplain
      exact hadm ((admits_short hshort).mpr hplain)
    · exact absurd (admits_iff.mpr hacc.admissible) hadm
  obtain ⟨p, es, hrun, hinv⟩ := hyes hadm
  rw [hrun, Outcome.andThen_ok]
  show ParsedSafely buf (finishParse buf p) ↔ _
  rcases Nat.lt_or_ge 4 buf.length with hlong | hshort
  · have hindex := hinv.index
    rw [finishParse_long hlong]
    by_cases hnum : (settings buf (chain buf 0)).length = numInterfaces buf
    · rw [if_neg (by omega)]
      constructor
      · rintro ⟨res, p', heq, hok⟩
        cases heq
        exact ⟨fun hshort => absurd hlong (by omega), fun _ => hinv.complete (hok rfl).1⟩
      · intro hdel
        have hrec := hinv.recorded (hdel.last ⟨admits_iff.mp hadm, hnum⟩) hnum
        exact ⟨usbOk, p, rfl, fun _ => ⟨hrec, usbKbdProbeAttach_returns hrec hlong⟩⟩
    · rw [if_pos (by omega)]
      refine iff_of_true ⟨_, p, rfl, fun e => absurd e (by decide)⟩ ⟨fun hshort => absurd hlong (by omega), ?_⟩
      exact fun hacc => absurd hacc.numInterfaces hnum
  · rw [finishParse_short hshort]
    refine iff_of_false (fun ⟨_, _, heq, _⟩ => nomatch heq) fun hdel => ?_
    exact (admits_short hshort).mp hadm (hdel.short hshort)

/-- There is a class for the buffer and `kmalloc` does not run out of memory, and the bytes are delimited. -/
structure Parseable (r : ConfigReads) : Prop where
  size : r.wTotalLength.toNat ≤ maxKmalloc
  served : r.memory.result r.wTotalLength.toNat ≠ .panic
  delimited : r.memory.result r.wTotalLength.toNat = .block → r.second = usbOk → Delimited r.buf

theorem parseable_iff (r : ConfigReads) : Parseable r ↔ r.memory.result r.wTotalLength.toNat ≠ .panic ∧
    (r.memory.result r.wTotalLength.toNat = .block → r.second = usbOk → Delimited r.buf) := by
  have hlt := r.wTotalLength.isLt
  constructor
  · exact fun h => ⟨h.served, h.delimited⟩
  · exact fun ⟨hserved, h⟩ => ⟨r.memory.le_of_served (by omega) hserved, hserved, h⟩

/-- **Configuration descriptors.** `usb_read_configuration_descriptor` returns without reading outside the buffer,
and after `USB_OK` exactly the settings and their endpoints are recorded, if and only if `wTotalLength` bytes can be
allocated and the bytes in the buffer are delimited. -/
theorem config_descriptor_exact (r : ConfigReads) :
    ParsedSafely r.buf (usbReadConfigurationDescriptor r ConfigParse.start) ↔ (r.first = usbOk → Parseable r) := by
  rw [parseable_iff]
  unfold usbReadConfigurationDescriptor
  by_cases hfirst : r.first = usbOk
  case neg =>
    rw [if_pos hfirst]
    exact iff_of_true ⟨r.first, _, rfl, fun e => absurd e hfirst⟩ fun e => absurd e hfirst
  rw [if_neg (not_not.mpr hfirst), forall_prop_of_true hfirst]
  cases hmemory : r.memory.result r.wTotalLength.toNat with
  | panic =>
    refine iff_of_false ?_ fun h => h.1 rfl
    rintro ⟨_, _, hrun, -⟩
    exact Prog.panic_ne_ok hrun
  | null =>
    have hne : usbStatusOutOfMemory ≠ usbOk := by decide
    exact iff_of_true ⟨usbStatusOutOfMemory, _, rfl, fun e => absurd e hne⟩ ⟨by simp, by simp⟩
  | block =>
    show ParsedSafely r.buf
      ((if r.second ≠ usbOk then pure r.second else parseConfiguration r.buf : Prog _ _) ConfigParse.start) ↔ _
    by_cases hsecond : r.second = usbOk
    · rw [if_neg (not_not.mpr hsecond), parseConfiguration_safe_iff]
      exact ⟨fun h => ⟨by simp, fun _ _ => h⟩, fun h => h.2 rfl hsecond⟩
    · rw [if_pos hsecond]
      exact iff_of_true ⟨r.second, _, rfl, fun e => absurd e hsecond⟩ ⟨by simp, fun _ e => absurd e hsecond⟩

/-! ## Descriptors that are not parsed -/

/-- A device that reports a `wTotalLength` of 0. -/
def emptyReads : ConfigReads := ⟨usbOk, 0, .ample, usbOk, [], rfl⟩

/-- A boot keyboard that announces one endpoint and sends none. -/
def noEndpointReads : ConfigReads :=
  ⟨usbOk, 18, .ample, usbOk, [9, 2, 18, 0, 1, 1, 0, 0x80, 50, 9, 4, 0, 0, 1, 3, 1, 1, 0], rfl⟩

/-- A device that reports a `wTotalLength` of 4049. -/
def longReads : ConfigReads := ⟨usbOk, 4049, .ample, usbOk, List.replicate 4049 0, List.length_replicate⟩

theorem chain_empty : chain emptyReads.buf 0 = [] := by
  rw [chain]
  exact if_neg (by decide)

theorem chain_noEndpoint : chain noEndpointReads.buf 0 = [0, 9] := by
  rw [chain, if_pos (by decide), if_neg (by decide), chain, if_pos (by decide), if_neg (by decide), chain,
    if_neg (by decide)]
  rfl

theorem accepted_noEndpoint : Accepted noEndpointReads.buf := by
  refine ⟨?_, by rw [chain_noEndpoint]; decide⟩
  have hadm : Admits noEndpointReads.buf [] [0, 9] := by
    refine ⟨⟨by decide, fun hi => absurd hi (by decide), by decide⟩,
      ⟨by decide, fun _ => ⟨by decide, ?_, by decide⟩, by decide⟩, trivial⟩
    intro o ho
    cases ho
  rw [chain_noEndpoint]
  exact admits_iff.mp hadm

/-- The first is read outside its buffer, the second is accepted with an endpoint that was never set, and for the third
there is no buffer. -/
theorem config_descriptor_not_exact :
    ¬ParsedSafely emptyReads.buf (usbReadConfigurationDescriptor emptyReads ConfigParse.start) ∧
    ¬ParsedSafely noEndpointReads.buf (usbReadConfigurationDescriptor noEndpointReads ConfigParse.start) ∧
    ¬ParsedSafely longReads.buf (usbReadConfigurationDescriptor longReads ConfigParse.start) := by
  refine ⟨?_, ?_, ?_⟩
  · intro h
    obtain ⟨d, hd, -⟩ := ((parseConfiguration_safe_iff emptyReads.buf).mp h).short (by decide)
    rw [chain_empty] at hd
    exact absurd hd List.not_mem_nil
  · intro h
    have hlast := ((parseConfiguration_safe_iff noEndpointReads.buf).mp h).last accepted_noEndpoint
    rw [chain_noEndpoint] at hlast
    exact absurd (hlast 9 (by decide) (by decide)) (by decide)
  · rintro ⟨_, _, hrun, -⟩
    cases hrun

end Borgos.Usb
