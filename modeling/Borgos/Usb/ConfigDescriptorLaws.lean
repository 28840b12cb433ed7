import Mathlib.Data.List.DropRight
import Borgos.Usb.ConfigDescriptor

/-! # What the parser of configuration descriptors accepts

The chain of descriptors of a buffer is a list of offsets. A descriptor is admitted after those before it; the
parser records exactly what it should of a chain whose descriptors are all admitted, with two exceptions. The
endpoints of an interface are counted when the next interface descriptor comes, so those of the last interface are
not; and `bNumInterfaces` is read from a buffer that may be too short for it.
-/
namespace Borgos.Usb
open Borgos.Foundations
set_option autoImplicit false

/-! ## The chain -/

section Fields
variable (buf : ConfigBuffer) (d : ℕ)

def bLength : ℕ := (buf.getD d 0).toNat

def descriptorType : BitVec 8 := buf.getD (d + 1) 0

def isInterface : Bool := descriptorType buf d = usbDescriptorTypeInterface

def isEndpoint : Bool := descriptorType buf d = usbDescriptorTypeEndpoint

def alternateSetting : BitVec 8 := buf.getD (d + 3) 0

def numEndpoints : ℕ := (buf.getD (d + 4) 0).toNat

/-- An interface descriptor with alternate setting 0. -/
def isSetting : Bool := isInterface buf d && alternateSetting buf d = 0

end Fields

def numInterfaces (buf : ConfigBuffer) : ℕ := (buf.getD 4 0).toNat

/-- The offsets of the descriptors from `i` on. A `bLength` below 2 ends the chain. -/
def chain (buf : ConfigBuffer) (i : ℕ) : List ℕ :=
  if i + sizeofDescriptorHeader ≤ buf.length then
    if bLength buf i < sizeofDescriptorHeader then [i] else i :: chain buf (i + bLength buf i)
  else []
termination_by buf.length - i
decreasing_by
  unfold sizeofDescriptorHeader at *
  omega

/-- The loop, along the chain. -/
def parseChain (buf : ConfigBuffer) : List ℕ → Prog ConfigParse BodyExit
  | [] => pure .next
  | d :: ds =>
    if bLength buf d < sizeofDescriptorHeader then pure (.exit usbStatusInvalidData)
    else do
      let r ← parseDescriptor buf d (descriptorType buf d)
      match r with
      | .next => parseChain buf ds
      | .exit res => pure (.exit res)

theorem getD_at {buf : ConfigBuffer} {i : ℕ} (h : i < buf.length) : buf.getD i 0 = buf[i] := by
  rw [List.getD_eq_getElem?_getD, List.getElem?_eq_getElem h, Option.getD_some]

theorem readByte_at {buf : ConfigBuffer} {i : ℕ} (h : i < buf.length) (p : ConfigParse) :
    readByte buf i p = .ok (buf.getD i 0) p := by
  unfold readByte
  rw [List.getElem?_eq_getElem h, getD_at h]

theorem readByte_outside {buf : ConfigBuffer} {i : ℕ} (h : buf.length ≤ i) (p : ConfigParse) :
    readByte buf i p = .stuck := by
  unfold readByte
  rw [List.getElem?_eq_none h]

theorem parseLoop_eq (buf : ConfigBuffer) (i : ℕ) : parseLoop buf i = parseChain buf (chain buf i) := by
  fun_induction chain buf i with
  | case1 i hin hlen =>
    have hin' : i + 2 ≤ buf.length := hin
    have h₀ : bLength buf i = buf[i].toNat := congrArg BitVec.toNat (getD_at _)
    rw [parseLoop, dif_pos hin, parseChain, if_pos hlen]
    exact dif_pos (h₀ ▸ hlen)
  | case2 i hin hlen ih =>
    have hin' : i + 2 ≤ buf.length := hin
    have h₀ : bLength buf i = buf[i].toNat := congrArg BitVec.toNat (getD_at _)
    have h₁ : descriptorType buf i = buf[i + 1] := getD_at _
    rw [parseLoop, dif_pos hin, parseChain, if_neg hlen, h₁, ← ih]
    simp only [h₀] at hlen ⊢
    exact dif_neg hlen
  | case3 i hin =>
    rw [parseLoop, dif_neg hin]
    rfl

theorem mem_chain {buf : ConfigBuffer} {i d : ℕ} (h : d ∈ chain buf i) : i ≤ d ∧ d + 2 ≤ buf.length := by
  fun_induction chain buf i with
  | case1 i hin hlen =>
    rw [List.mem_singleton.mp h]
    exact ⟨le_rfl, hin⟩
  | case2 i hin hlen ih =>
    rcases List.mem_cons.mp h with rfl | h
    · exact ⟨le_rfl, hin⟩
    · obtain ⟨hle, hd⟩ := ih h
      exact ⟨by omega, hd⟩
  | case3 i hin => exact absurd h List.not_mem_nil

/-- The chain runs forward. -/
theorem chain_sorted (buf : ConfigBuffer) (i : ℕ) : (chain buf i).Pairwise (· < ·) := by
  fun_induction chain buf i with
  | case1 i hin hlen => exact List.pairwise_singleton _ _
  | case2 i hin hlen ih =>
    refine List.pairwise_cons.mpr ⟨fun d hd => ?_, ih⟩
    have hle := (mem_chain hd).1
    unfold sizeofDescriptorHeader at hlen
    omega
  | case3 i hin => exact List.Pairwise.nil

/-! ## What is admitted -/

section Prefixes
variable (buf : ConfigBuffer) (pre : List ℕ)

/-- The interface descriptors with alternate setting 0. -/
def settings : List ℕ := pre.filter (isSetting buf)

def lastInterface : Option ℕ := (pre.filter (isInterface buf)).getLast?

/-- The endpoint descriptors after the last interface descriptor. -/
def recentEndpoints : List ℕ := (pre.rtakeWhile fun d => !isInterface buf d).filter (isEndpoint buf)

/-- The last interface descriptor has another setting than 0. -/
def inAlternate : Bool :=
  match lastInterface buf pre with
  | some o => decide (alternateSetting buf o ≠ 0)
  | none => false

/-- The last interface descriptor, if it has setting 0, is followed by as many endpoints as it says. -/
def CompleteLast : Prop :=
  ∀ o, lastInterface buf pre = some o → alternateSetting buf o = 0 →
    (recentEndpoints buf pre).length = numEndpoints buf o

/-- The descriptor `d` is admitted after those of `pre`. -/
structure Admissible (d : ℕ) : Prop where
  length : sizeofDescriptorHeader ≤ bLength buf d
  interface : isInterface buf d = true → d + sizeofInterfaceDescriptor ≤ buf.length ∧ CompleteLast buf pre ∧
    (alternateSetting buf d = 0 → (settings buf pre).length < usbDeviceMaxInterfaces)
  endpoint : isEndpoint buf d = true → settings buf pre ≠ [] ∧ d + sizeofEndpointDescriptor ≤ buf.length ∧
    (inAlternate buf pre = false → (recentEndpoints buf pre).length < usbDeviceMaxEndpoints)

/-- The descriptors `ds` are admitted one after the other. -/
def Admits : List ℕ → List ℕ → Prop
  | _, [] => True
  | pre, d :: ds => Admissible buf pre d ∧ Admits (pre ++ [d]) ds

end Prefixes

/-- Every descriptor of the chain is admitted after those before it, and the settings are as many as the
configuration says. -/
structure Accepted (buf : ConfigBuffer) : Prop where
  admissible : ∀ pre d post, chain buf 0 = pre ++ d :: post → Admissible buf pre d
  numInterfaces : (settings buf (chain buf 0)).length = numInterfaces buf

theorem admits_iff {buf : ConfigBuffer} {pre ds : List ℕ} :
    Admits buf pre ds ↔ ∀ pre' d post, ds = pre' ++ d :: post → Admissible buf (pre ++ pre') d := by
  induction ds generalizing pre with
  | nil => simp [Admits]
  | cons x ds ih =>
    rw [Admits, ih]
    constructor
    · rintro ⟨hx, hall⟩ pre' d post heq
      cases pre' with
      | nil =>
        obtain ⟨rfl, -⟩ := List.cons.inj heq
        rwa [List.append_nil]
      | cons y pre' =>
        obtain ⟨rfl, htail⟩ := List.cons.inj heq
        have h := hall pre' d post htail
        rwa [List.append_assoc] at h
    · intro h
      refine ⟨?_, fun pre' d post heq => ?_⟩
      · have hx := h [] x ds rfl
        rwa [List.append_nil] at hx
      · have hd := h (x :: pre') d post (by rw [heq]; rfl)
        rwa [List.append_assoc]

section Snoc
variable {buf : ConfigBuffer} {pre : List ℕ} {d : ℕ}

theorem isInterface_of_isSetting (h : isSetting buf d = true) : isInterface buf d = true := by
  unfold isSetting at h
  exact (Bool.and_eq_true_iff.mp h).1

theorem not_isEndpoint_of_isInterface (h : isInterface buf d = true) : isEndpoint buf d = false := by
  unfold isInterface at h
  unfold isEndpoint
  rw [of_decide_eq_true h]
  decide

theorem settings_snoc_setting (h : isSetting buf d = true) : settings buf (pre ++ [d]) = settings buf pre ++ [d] := by
  unfold settings
  rw [List.filter_append, List.filter_cons_of_pos h, List.filter_nil]

theorem settings_snoc_other (h : isSetting buf d = false) : settings buf (pre ++ [d]) = settings buf pre := by
  unfold settings
  rw [List.filter_append, List.filter_cons_of_neg (by rw [h]; exact Bool.false_ne_true), List.filter_nil,
    List.append_nil]

theorem lastInterface_snoc_interface (h : isInterface buf d = true) : lastInterface buf (pre ++ [d]) = some d := by
  unfold lastInterface
  rw [List.filter_append, List.filter_cons_of_pos h, List.filter_nil, List.getLast?_append_of_ne_nil _ (by simp)]
  rfl

theorem lastInterface_snoc_other (h : isInterface buf d = false) :
    lastInterface buf (pre ++ [d]) = lastInterface buf pre := by
  unfold lastInterface
  rw [List.filter_append, List.filter_cons_of_neg (by rw [h]; exact Bool.false_ne_true), List.filter_nil,
    List.append_nil]

theorem recentEndpoints_snoc_interface (h : isInterface buf d = true) : recentEndpoints buf (pre ++ [d]) = [] := by
  unfold recentEndpoints
  rw [List.rtakeWhile_concat_neg _ _ _ (by rw [h]; decide), List.filter_nil]

theorem recentEndpoints_snoc_other (h : isInterface buf d = false) :
    recentEndpoints buf (pre ++ [d]) = recentEndpoints buf pre ++ [d].filter (isEndpoint buf) := by
  unfold recentEndpoints
  rw [List.rtakeWhile_concat_pos _ _ _ (by rw [h]; decide), List.filter_append]

theorem inAlternate_snoc_interface (h : isInterface buf d = true) :
    inAlternate buf (pre ++ [d]) = decide (alternateSetting buf d ≠ 0) := by
  unfold inAlternate
  rw [lastInterface_snoc_interface h]

theorem inAlternate_snoc_other (h : isInterface buf d = false) :
    inAlternate buf (pre ++ [d]) = inAlternate buf pre := by
  unfold inAlternate
  rw [lastInterface_snoc_other h]

end Snoc

theorem getElem?_snoc (l : List ℕ) (x : ℕ) :
    (fun k => (l ++ [x])[k]?) = Function.update (fun k => l[k]?) l.length (some x) := by
  funext k
  rcases Nat.lt_trichotomy k l.length with hk | hk | hk
  · rw [Function.update_of_ne (by omega), List.getElem?_append_left hk]
  · rw [hk, Function.update_self, List.getElem?_append_right le_rfl, Nat.sub_self]
    rfl
  · have hnone : (l ++ [x])[k]? = none := List.getElem?_eq_none (by rw [List.length_append]; exact hk)
    rw [Function.update_of_ne (by omega), hnone, List.getElem?_eq_none (by omega)]

/-! ## The state of the parser -/

/-- The endpoints recorded for the `j`-th setting, at `o`. Those of the setting that is being read are the recent
ones; the others have been counted. -/
structure EndpointsOf (buf : ConfigBuffer) (pre : List ℕ) (j o : ℕ) (es : List ℕ) : Prop where
  recent : j + 1 = (settings buf pre).length → inAlternate buf pre = false → es = recentEndpoints buf pre
  counted : j + 1 < (settings buf pre).length ∨ inAlternate buf pre = true → es.length = numEndpoints buf o
  inside : ∀ e ∈ es, e ∈ pre ∧ isEndpoint buf e = true ∧ e + sizeofEndpointDescriptor ≤ buf.length ∧ o < e
  sorted : es.Pairwise (· < ·)
  before : ∀ o', (settings buf pre)[j + 1]? = some o' → ∀ e ∈ es, e < o'

/-- The parser has read the descriptors of `pre`. -/
structure ParseInv (buf : ConfigBuffer) (pre : List ℕ) (p : ConfigParse) (es : ℕ → List ℕ) : Prop where
  index : p.interfaceIdx + 1 = (settings buf pre).length
  interfaces : p.interfaces = fun j => (settings buf pre)[j]?
  alternate : p.inAlternateSetting = inAlternate buf pre
  endpointIndex : settings buf pre ≠ [] → inAlternate buf pre = false →
    p.endpointIdx + 1 = (recentEndpoints buf pre).length
  endpoints : p.endpoints = fun j k => (es j)[k]?
  endpointsOf : ∀ j o, (settings buf pre)[j]? = some o → EndpointsOf buf pre j o (es j)
  unset : ∀ j, (settings buf pre).length ≤ j → es j = []
  inside : ∀ o ∈ settings buf pre, o + sizeofInterfaceDescriptor ≤ buf.length
  current : inAlternate buf pre = false → lastInterface buf pre = (settings buf pre).getLast?

theorem ParseInv.start (buf : ConfigBuffer) : ParseInv buf [] ConfigParse.start fun _ => [] where
  index := rfl
  interfaces := rfl
  alternate := rfl
  endpointIndex := fun h => absurd rfl h
  endpoints := rfl
  endpointsOf := fun _ _ h => nomatch h
  unset := fun _ _ => rfl
  inside := fun _ h => absurd h List.not_mem_nil
  current := fun _ => rfl

namespace ParseInv
variable {buf : ConfigBuffer} {pre : List ℕ} {p : ConfigParse} {es : ℕ → List ℕ} {d : ℕ}

/-- A descriptor that is neither an interface nor an endpoint. -/
theorem other (h : ParseInv buf pre p es) (hi : isInterface buf d = false) (he : isEndpoint buf d = false) :
    ParseInv buf (pre ++ [d]) p es := by
  have hset : isSetting buf d = false := by
    unfold isSetting
    rw [hi, Bool.false_and]
  have hs : settings buf (pre ++ [d]) = settings buf pre := settings_snoc_other hset
  have ha : inAlternate buf (pre ++ [d]) = inAlternate buf pre := inAlternate_snoc_other hi
  have hr : recentEndpoints buf (pre ++ [d]) = recentEndpoints buf pre := by
    rw [recentEndpoints_snoc_other hi, List.filter_cons_of_neg (by rw [he]; exact Bool.false_ne_true),
      List.filter_nil, List.append_nil]
  refine ⟨hs ▸ h.index, hs ▸ h.interfaces, ha ▸ h.alternate, ?_, h.endpoints, ?_, hs ▸ h.unset, hs ▸ h.inside, ?_⟩
  · rw [hs, ha, hr]
    exact h.endpointIndex
  · rw [hs]
    intro j o hj
    have hE := h.endpointsOf j o hj
    refine ⟨?_, ?_, fun e hmem => ?_, hE.sorted, ?_⟩
    · rw [hs, ha, hr]
      exact hE.recent
    · rw [hs, ha]
      exact hE.counted
    · obtain ⟨hpre, hrest⟩ := hE.inside e hmem
      exact ⟨List.mem_append_left _ hpre, hrest⟩
    · rw [hs]
      exact hE.before
  · rw [hs, ha, lastInterface_snoc_other hi]
    exact h.current

theorem isSetting_of_getElem {j o : ℕ} (ho : (settings buf pre)[j]? = some o) : isSetting buf o = true :=
  (List.mem_filter.mp (List.mem_of_getElem? ho)).2

theorem alternateSetting_of_getElem {j o : ℕ} (ho : (settings buf pre)[j]? = some o) : alternateSetting buf o = 0 := by
  have h := isSetting_of_getElem ho
  unfold isSetting at h
  exact of_decide_eq_true (Bool.and_eq_true_iff.mp h).2

/-- The last setting, where its endpoints are being read. -/
theorem lastInterface_eq (h : ParseInv buf pre p es) (ha : inAlternate buf pre = false) {j o : ℕ}
    (hj : j + 1 = (settings buf pre).length) (ho : (settings buf pre)[j]? = some o) :
    lastInterface buf pre = some o := by
  rw [h.current ha, List.getLast?_eq_getElem?, ← hj, Nat.add_sub_cancel]
  exact ho

/-- When the last setting is complete, all are. -/
theorem counted_all (h : ParseInv buf pre p es) (hc : CompleteLast buf pre) {j o : ℕ}
    (ho : (settings buf pre)[j]? = some o) : (es j).length = numEndpoints buf o := by
  have hE := h.endpointsOf j o ho
  obtain ⟨hj, -⟩ := List.getElem?_eq_some_iff.mp ho
  rcases Nat.lt_or_ge (j + 1) (settings buf pre).length with hlt | hge
  · exact hE.counted (.inl hlt)
  · have hlast : j + 1 = (settings buf pre).length := by omega
    cases ha : inAlternate buf pre with
    | true => exact hE.counted (.inr ha)
    | false =>
      rw [hE.recent hlast ha]
      exact hc o (h.lastInterface_eq ha hlast ho) (alternateSetting_of_getElem ho)

/-- An interface descriptor with another setting. -/
theorem alternateInterface (h : ParseInv buf pre p es) (hi : isInterface buf d = true)
    (halt : alternateSetting buf d ≠ 0) (hc : CompleteLast buf pre) :
    ParseInv buf (pre ++ [d]) { p with inAlternateSetting := true } es := by
  have hset : isSetting buf d = false := by
    unfold isSetting
    rw [hi, Bool.true_and, decide_eq_false halt]
  have hs : settings buf (pre ++ [d]) = settings buf pre := settings_snoc_other hset
  have ha : inAlternate buf (pre ++ [d]) = true := by
    rw [inAlternate_snoc_interface hi, decide_eq_true halt]
  refine ⟨hs ▸ h.index, hs ▸ h.interfaces, ha.symm, ?_, h.endpoints, ?_, hs ▸ h.unset, hs ▸ h.inside, ?_⟩
  · rw [ha]
    exact fun _ e => nomatch e
  · rw [hs]
    intro j o hj
    have hE := h.endpointsOf j o hj
    refine ⟨?_, fun _ => h.counted_all hc hj, fun e hmem => ?_, hE.sorted, ?_⟩
    · rw [ha]
      exact fun _ e => nomatch e
    · obtain ⟨hpre, hrest⟩ := hE.inside e hmem
      exact ⟨List.mem_append_left _ hpre, hrest⟩
    · rw [hs]
      exact hE.before
  · rw [ha]
    exact fun e => nomatch e

/-- An interface descriptor with setting 0. -/
theorem newSetting (h : ParseInv buf pre p es) (hi : isInterface buf d = true) (halt : alternateSetting buf d = 0)
    (hin : d + sizeofInterfaceDescriptor ≤ buf.length) (hc : CompleteLast buf pre) (hlt : ∀ x ∈ pre, x < d) :
    ParseInv buf (pre ++ [d])
      { p with
        interfaces := Function.update p.interfaces (settings buf pre).length (some d)
        interfaceIdx := p.interfaceIdx + 1
        endpointIdx := -1
        inAlternateSetting := false } es := by
  have hset : isSetting buf d = true := by
    unfold isSetting
    rw [hi, Bool.true_and, decide_eq_true halt]
  have hs : settings buf (pre ++ [d]) = settings buf pre ++ [d] := settings_snoc_setting hset
  have ha : inAlternate buf (pre ++ [d]) = false := by
    rw [inAlternate_snoc_interface hi, decide_eq_false (not_not.mpr halt)]
  have hr : recentEndpoints buf (pre ++ [d]) = [] := recentEndpoints_snoc_interface hi
  refine ⟨?_, ?_, ha.symm, ?_, h.endpoints, ?_, ?_, ?_, ?_⟩
  · have hidx := h.index
    rw [hs, List.length_append, List.length_singleton]
    push_cast
    omega
  · rw [hs, getElem?_snoc, ← h.interfaces]
  · intro _ _
    rw [hr]
    rfl
  · intro j o hj
    rw [hs] at hj
    rcases Nat.lt_or_ge j (settings buf pre).length with hold | hnew
    · rw [List.getElem?_append_left hold] at hj
      have hE := h.endpointsOf j o hj
      refine ⟨?_, fun _ => h.counted_all hc hj, fun e hmem => ?_, hE.sorted, ?_⟩
      · rw [hs, List.length_append, List.length_singleton]
        omega
      · obtain ⟨hpre, hrest⟩ := hE.inside e hmem
        exact ⟨List.mem_append_left _ hpre, hrest⟩
      · intro o' ho' e hmem
        rw [hs] at ho'
        rcases Nat.lt_or_ge (j + 1) (settings buf pre).length with hmid | hend
        · rw [List.getElem?_append_left hmid] at ho'
          exact hE.before o' ho' e hmem
        · rw [List.getElem?_append_right hend, show j + 1 - (settings buf pre).length = 0 by omega] at ho'
          cases ho'
          exact hlt e (hE.inside e hmem).1
    · rw [h.unset j hnew]
      refine ⟨fun _ _ => hr.symm, ?_, fun e hmem => absurd hmem List.not_mem_nil, List.Pairwise.nil,
        fun _ _ e hmem => absurd hmem List.not_mem_nil⟩
      rw [ha, hs, List.length_append, List.length_singleton]
      rintro (hlt | hfalse)
      · omega
      · cases hfalse
  · intro j hj
    rw [hs, List.length_append] at hj
    exact h.unset j (by omega)
  · rw [hs]
    intro o ho
    rcases List.mem_append.mp ho with ho | ho
    · exact h.inside o ho
    · rw [List.mem_singleton.mp ho]
      exact hin
  · intro _
    rw [lastInterface_snoc_interface hi, hs, List.getLast?_append_of_ne_nil _ (List.cons_ne_nil _ _)]
    rfl

theorem isInterface_of_isEndpoint (he : isEndpoint buf d = true) : isInterface buf d = false := by
  cases hi : isInterface buf d with
  | false => rfl
  | true =>
    rw [not_isEndpoint_of_isInterface hi] at he
    cases he

theorem isSetting_of_isEndpoint (he : isEndpoint buf d = true) : isSetting buf d = false := by
  unfold isSetting
  rw [isInterface_of_isEndpoint he, Bool.false_and]

/-- An endpoint of another setting is passed over. -/
theorem alternateEndpoint (h : ParseInv buf pre p es) (he : isEndpoint buf d = true)
    (halt : inAlternate buf pre = true) : ParseInv buf (pre ++ [d]) p es := by
  have hi := isInterface_of_isEndpoint he
  have hs : settings buf (pre ++ [d]) = settings buf pre := settings_snoc_other (isSetting_of_isEndpoint he)
  have ha : inAlternate buf (pre ++ [d]) = true := by rw [inAlternate_snoc_other hi, halt]
  refine ⟨hs ▸ h.index, hs ▸ h.interfaces, ?_, ?_, h.endpoints, ?_, hs ▸ h.unset, hs ▸ h.inside, ?_⟩
  · rw [ha, ← halt]
    exact h.alternate
  · rw [ha]
    exact fun _ e => nomatch e
  · rw [hs]
    intro j o hj
    have hE := h.endpointsOf j o hj
    refine ⟨?_, fun _ => hE.counted (.inr halt), fun e hmem => ?_, hE.sorted, ?_⟩
    · rw [ha]
      exact fun _ e => nomatch e
    · obtain ⟨hpre, hrest⟩ := hE.inside e hmem
      exact ⟨List.mem_append_left _ hpre, hrest⟩
    · rw [hs]
      exact hE.before
  · rw [ha]
    exact fun e => nomatch e

theorem recentEndpoints_snoc_endpoint (he : isEndpoint buf d = true) :
    recentEndpoints buf (pre ++ [d]) = recentEndpoints buf pre ++ [d] := by
  rw [recentEndpoints_snoc_other (isInterface_of_isEndpoint he), List.filter_cons_of_pos he, List.filter_nil]

/-- An endpoint of the setting that is being read. -/
theorem newEndpoint (h : ParseInv buf pre p es) (he : isEndpoint buf d = true) (ha : inAlternate buf pre = false)
    {n : ℕ} (hn : n + 1 = (settings buf pre).length) (hin : d + sizeofEndpointDescriptor ≤ buf.length)
    (hlt : ∀ x ∈ pre, x < d) :
    ParseInv buf (pre ++ [d])
      { p with
        endpoints := Function.update p.endpoints n
          (Function.update (p.endpoints n) (recentEndpoints buf pre).length (some d))
        endpointIdx := p.endpointIdx + 1 }
      (Function.update es n (es n ++ [d])) := by
  have hi := isInterface_of_isEndpoint he
  have hs : settings buf (pre ++ [d]) = settings buf pre := settings_snoc_other (isSetting_of_isEndpoint he)
  have ha' : inAlternate buf (pre ++ [d]) = inAlternate buf pre := inAlternate_snoc_other hi
  have hr : recentEndpoints buf (pre ++ [d]) = recentEndpoints buf pre ++ [d] := recentEndpoints_snoc_endpoint he
  have hnlt : n < (settings buf pre).length := by omega
  obtain ⟨o, ho⟩ : ∃ o, (settings buf pre)[n]? = some o := ⟨_, List.getElem?_eq_getElem hnlt⟩
  have hen : es n = recentEndpoints buf pre := (h.endpointsOf n o ho).recent hn ha
  refine ⟨hs ▸ h.index, hs ▸ h.interfaces, ha' ▸ h.alternate, ?_, ?_, ?_, ?_, hs ▸ h.inside, ?_⟩
  · rw [hs, ha', hr, List.length_append, List.length_singleton]
    intro hne hfalse
    have hidx := h.endpointIndex hne hfalse
    push_cast
    omega
  · funext j
    show Function.update p.endpoints n _ j = _
    rw [h.endpoints]
    by_cases hj : j = n
    · subst hj
      simp only [Function.update_self, getElem?_snoc, hen]
    · rw [Function.update_of_ne hj, Function.update_of_ne hj]
  · rw [hs]
    intro j o' hj
    have hE := h.endpointsOf j o' hj
    by_cases hjn : j = n
    · subst hjn
      rw [Function.update_self]
      refine ⟨fun _ _ => by rw [hr, hen], ?_, fun e hmem => ?_, ?_, ?_⟩
      · rw [hs, ha', ha]
        rintro (hlt | hfalse)
        · omega
        · cases hfalse
      · rcases List.mem_append.mp hmem with hmem | hmem
        · obtain ⟨hpre, hrest⟩ := hE.inside e hmem
          exact ⟨List.mem_append_left _ hpre, hrest⟩
        · rw [List.mem_singleton.mp hmem]
          have hmem' : o' ∈ pre := (List.mem_filter.mp (List.mem_of_getElem? hj)).1
          exact ⟨List.mem_append_right _ List.mem_cons_self, he, hin, hlt o' hmem'⟩
      · refine List.pairwise_append.mpr ⟨hE.sorted, List.pairwise_singleton _ _, fun e hmem x hx => ?_⟩
        rw [List.mem_singleton.mp hx]
        exact hlt e (hE.inside e hmem).1
      · rw [hs]
        intro o'' ho''
        rw [List.getElem?_eq_none (by omega)] at ho''
        cases ho''
    · rw [Function.update_of_ne hjn]
      refine ⟨?_, ?_, fun e hmem => ?_, hE.sorted, ?_⟩
      · rw [hs]
        omega
      · rw [hs, ha']
        exact hE.counted
      · obtain ⟨hpre, hrest⟩ := hE.inside e hmem
        exact ⟨List.mem_append_left _ hpre, hrest⟩
      · rw [hs]
        exact hE.before
  · rw [hs]
    intro j hj
    rw [Function.update_of_ne (by omega)]
    exact h.unset j hj
  · rw [hs, ha', lastInterface_snoc_other hi]
    exact h.current

end ParseInv

/-! ## The body of the loop -/

section Body
variable {buf : ConfigBuffer} {pre : List ℕ} {p : ConfigParse} {es : ℕ → List ℕ} {d : ℕ}

/-- The setting that is being read. -/
theorem ParseInv.exists_current (h : ParseInv buf pre p es) (hidx : 0 ≤ p.interfaceIdx) :
    ∃ n o : ℕ, p.interfaceIdx = n ∧ n + 1 = (settings buf pre).length ∧ (settings buf pre)[n]? = some o := by
  have hindex := h.index
  obtain ⟨n, hn⟩ := Int.eq_ofNat_of_zero_le hidx
  have hlen : n + 1 = (settings buf pre).length := by omega
  exact ⟨n, _, hn, hlen, List.getElem?_eq_getElem (by omega)⟩

theorem endpointCountWrong_spec (h : ParseInv buf pre p es) :
    ∃ b, endpointCountWrong buf p = .ok b p ∧ (b = true ↔ ¬CompleteLast buf pre) := by
  unfold endpointCountWrong
  rw [Prog.bind_run, Prog.get_run, Outcome.andThen_ok]
  by_cases hcase : p.interfaceIdx ≥ 0 ∧ p.inAlternateSetting = false
  · rw [if_pos hcase]
    have ha : inAlternate buf pre = false := h.alternate ▸ hcase.2
    obtain ⟨n, o, hidx, hn, ho⟩ := h.exists_current hcase.1
    have hin : o + 9 ≤ buf.length := h.inside o (List.mem_of_getElem? ho)
    have hnum : currentNumEndpoints buf p = .ok (buf.getD (o + 4) 0) p := by
      unfold currentNumEndpoints
      rw [h.interfaces, hidx, Int.toNat_natCast]
      simp only [ho]
      exact readByte_at (by omega) p
    have hcount := h.endpointIndex (List.ne_nil_of_length_pos (by omega)) ha
    have hlast := h.lastInterface_eq ha hn ho
    rw [Prog.bind_run, hnum, Outcome.andThen_ok]
    refine ⟨_, rfl, ?_⟩
    rw [decide_eq_true_iff, hcount]
    have hcomplete : CompleteLast buf pre ↔ (recentEndpoints buf pre).length = numEndpoints buf o := by
      constructor
      · exact fun hc => hc o hlast (ParseInv.alternateSetting_of_getElem ho)
      · intro hc o' ho' _
        rw [hlast] at ho'
        rw [← Option.some.inj ho']
        exact hc
    rw [hcomplete, ne_eq, Nat.cast_inj]
    rfl
  · rw [if_neg hcase]
    refine ⟨false, rfl, ?_⟩
    suffices hc : CompleteLast buf pre by simpa using hc
    intro o ho halt
    exfalso
    have ha : inAlternate buf pre = false := by
      unfold inAlternate
      rw [ho]
      exact decide_eq_false (not_not.mpr halt)
    have hnone : settings buf pre = [] := by
      have hindex := h.index
      have halt' := h.alternate
      rw [ha] at halt'
      have : ¬p.interfaceIdx ≥ 0 := fun hge => hcase ⟨hge, halt'⟩
      exact List.length_eq_zero_iff.mp (by omega)
    rw [h.current ha, hnone] at ho
    cases ho

/-- The parse goes on, with the descriptors of `pre` read. -/
def Continues (buf : ConfigBuffer) (pre : List ℕ) (out : Outcome ConfigParse BodyExit) : Prop :=
  ∃ p es, out = .ok .next p ∧ ParseInv buf pre p es

/-- The parse ends with an error. -/
def Exits (out : Outcome ConfigParse BodyExit) : Prop :=
  ∃ res p, out = .ok (.exit res) p ∧ res ≠ usbOk

theorem exits_invalid (p : ConfigParse) : Exits (.ok (.exit usbStatusInvalidData) p) := ⟨_, p, rfl, by decide⟩

theorem exits_unsupported (p : ConfigParse) : Exits (.ok (.exit usbStatusDeviceUnsupported) p) :=
  ⟨_, p, rfl, by decide⟩

/-- The parse goes on exactly when `c` holds. -/
def GoesOnIff (c : Prop) (buf : ConfigBuffer) (pre : List ℕ) (out : Outcome ConfigParse BodyExit) : Prop :=
  (c → Continues buf pre out) ∧ (¬c → Exits out)

theorem goesOn {c : Prop} {out : Outcome ConfigParse BodyExit} (hc : c) (h : Continues buf pre out) :
    GoesOnIff c buf pre out :=
  ⟨fun _ => h, fun hn => absurd hc hn⟩

theorem goesOn_not {c : Prop} {out : Outcome ConfigParse BodyExit} (hn : ¬c) (h : Exits out) :
    GoesOnIff c buf pre out :=
  ⟨fun hc => absurd hc hn, fun _ => h⟩

theorem parseInterface_spec (h : ParseInv buf pre p es) (hi : isInterface buf d = true) (hlt : ∀ x ∈ pre, x < d) :
    GoesOnIff (d + sizeofInterfaceDescriptor ≤ buf.length ∧ CompleteLast buf pre ∧
      (alternateSetting buf d = 0 → (settings buf pre).length < usbDeviceMaxInterfaces))
      buf (pre ++ [d]) (parseInterface buf d p) := by
  unfold parseInterface
  by_cases hin : d + sizeofInterfaceDescriptor ≤ buf.length
  case neg =>
    rw [if_pos (Nat.lt_of_not_le hin)]
    exact goesOn_not (fun hc => hin hc.1) (exits_invalid p)
  obtain ⟨wrong, hwrong, hiff⟩ := endpointCountWrong_spec h
  rw [if_neg (Nat.not_lt.mpr hin), Prog.bind_run, hwrong, Outcome.andThen_ok]
  cases wrong with
  | true => exact goesOn_not (fun hc => hiff.mp rfl hc.2.1) (exits_invalid p)
  | false =>
    have hc : CompleteLast buf pre := not_not.mp fun hn => nomatch hiff.mpr hn
    have hread : readByte buf (d + 3) p = .ok (alternateSetting buf d) p := by
      refine readByte_at ?_ p
      unfold sizeofInterfaceDescriptor at hin
      omega
    rw [if_neg Bool.false_ne_true, Prog.bind_run, hread, Outcome.andThen_ok]
    by_cases halt : alternateSetting buf d = 0
    case neg =>
      rw [if_pos halt]
      exact goesOn ⟨hin, hc, fun e => absurd e halt⟩ ⟨_, es, rfl, h.alternateInterface hi halt hc⟩
    have hidx := h.index
    rw [if_neg (not_not.mpr halt)]
    simp only [Prog.bind_run, Prog.modify_run, Prog.get_run, Outcome.andThen_ok]
    by_cases hmax : (settings buf pre).length < usbDeviceMaxInterfaces
    case neg =>
      rw [if_pos (by omega)]
      exact goesOn_not (fun hc' => hmax (hc'.2.2 halt)) (exits_unsupported _)
    rw [if_neg (by omega)]
    refine goesOn ⟨hin, hc, fun _ => hmax⟩ ⟨_, es, rfl, ?_⟩
    have hnew := h.newSetting hi halt hin hc hlt
    have hto : (p.interfaceIdx + 1).toNat = (settings buf pre).length := by omega
    rw [← hto] at hnew
    exact hnew

theorem parseEndpoint_spec (h : ParseInv buf pre p es) (he : isEndpoint buf d = true) (hlt : ∀ x ∈ pre, x < d) :
    GoesOnIff (settings buf pre ≠ [] ∧ d + sizeofEndpointDescriptor ≤ buf.length ∧
      (inAlternate buf pre = false → (recentEndpoints buf pre).length < usbDeviceMaxEndpoints))
      buf (pre ++ [d]) (parseEndpoint buf d p) := by
  have hidx := h.index
  unfold parseEndpoint
  rw [Prog.bind_run, Prog.get_run, Outcome.andThen_ok]
  by_cases hne : settings buf pre = []
  · have hneg : p.interfaceIdx < 0 := by
      rw [hne, List.length_nil] at hidx
      omega
    rw [if_pos hneg]
    exact goesOn_not (fun hc => hc.1 hne) (exits_invalid p)
  have hpos : 0 < (settings buf pre).length := List.length_pos_of_ne_nil hne
  rw [if_neg (by omega)]
  by_cases hin : d + sizeofEndpointDescriptor ≤ buf.length
  case neg =>
    rw [if_pos (Nat.lt_of_not_le hin)]
    exact goesOn_not (fun hc => hin hc.2.1) (exits_invalid p)
  rw [if_neg (Nat.not_lt.mpr hin), h.alternate]
  by_cases ha : inAlternate buf pre = false
  case neg =>
    rw [if_neg ha]
    exact goesOn ⟨hne, hin, fun e => absurd e ha⟩ ⟨p, es, rfl, h.alternateEndpoint he (Bool.eq_true_of_not_eq_false ha)⟩
  have hcount := h.endpointIndex hne ha
  rw [if_pos ha]
  simp only [Prog.bind_run, Prog.modify_run, Prog.get_run, Outcome.andThen_ok]
  by_cases hmax : (recentEndpoints buf pre).length < usbDeviceMaxEndpoints
  case neg =>
    rw [if_pos (by omega)]
    exact goesOn_not (fun hc => hmax (hc.2.2 ha)) (exits_unsupported _)
  rw [if_neg (by omega)]
  obtain ⟨n, o, hn, hlen, -⟩ := h.exists_current (by omega)
  have hnew := h.newEndpoint he ha hlen hin hlt
  have hto : (p.endpointIdx + 1).toNat = (recentEndpoints buf pre).length := by omega
  have hn' : p.interfaceIdx.toNat = n := by omega
  rw [← hto, ← hn'] at hnew
  exact goesOn ⟨hne, hin, fun _ => hmax⟩ ⟨_, _, rfl, hnew⟩

theorem parseDescriptor_spec (h : ParseInv buf pre p es) (hlen : sizeofDescriptorHeader ≤ bLength buf d)
    (hlt : ∀ x ∈ pre, x < d) :
    GoesOnIff (Admissible buf pre d) buf (pre ++ [d]) (parseDescriptor buf d (descriptorType buf d) p) := by
  unfold parseDescriptor
  by_cases hi : descriptorType buf d = usbDescriptorTypeInterface
  · have hi' : isInterface buf d = true := decide_eq_true hi
    have he := not_isEndpoint_of_isInterface hi'
    rw [if_pos hi]
    obtain ⟨hyes, hno⟩ := parseInterface_spec h hi' hlt
    refine ⟨fun hadm => hyes (hadm.interface hi'), fun hn => hno fun hc => hn ⟨hlen, fun _ => hc, fun e => ?_⟩⟩
    rw [he] at e
    cases e
  rw [if_neg hi]
  have hi' : isInterface buf d = false := decide_eq_false hi
  by_cases he : descriptorType buf d = usbDescriptorTypeEndpoint
  · have he' : isEndpoint buf d = true := decide_eq_true he
    rw [if_pos he]
    obtain ⟨hyes, hno⟩ := parseEndpoint_spec h he' hlt
    refine ⟨fun hadm => hyes (hadm.endpoint he'), fun hn => hno fun hc => hn ⟨hlen, fun e => ?_, fun _ => hc⟩⟩
    rw [hi'] at e
    cases e
  · have he' : isEndpoint buf d = false := decide_eq_false he
    rw [if_neg he]
    refine goesOn ⟨hlen, fun e => ?_, fun e => ?_⟩ ⟨p, es, rfl, h.other hi' he'⟩
    · rw [hi'] at e
      cases e
    · rw [he'] at e
      cases e

/-- The loop goes on to its end exactly when the descriptors are all admitted. -/
theorem parseChain_spec {ds : List ℕ} (h : ParseInv buf pre p es) (hsorted : (pre ++ ds).Pairwise (· < ·)) :
    GoesOnIff (Admits buf pre ds) buf (pre ++ ds) (parseChain buf ds p) := by
  induction ds generalizing pre p es with
  | nil =>
    rw [List.append_nil]
    exact goesOn trivial ⟨p, es, rfl, h⟩
  | cons d ds ih =>
    have hlt : ∀ x ∈ pre, x < d := fun x hx =>
      (List.pairwise_append.mp hsorted).2.2 x hx d List.mem_cons_self
    unfold parseChain
    by_cases hlen : bLength buf d < sizeofDescriptorHeader
    · rw [if_pos hlen]
      exact goesOn_not (fun hadm => Nat.not_lt.mpr hadm.1.length hlen) (exits_invalid p)
    rw [if_neg hlen, Prog.bind_run]
    obtain ⟨hyes, hno⟩ := parseDescriptor_spec h (Nat.le_of_not_lt hlen) hlt
    by_cases hadm : Admissible buf pre d
    · obtain ⟨p', es', hrun, hinv⟩ := hyes hadm
      have hih := ih hinv (by rw [List.append_assoc]; exact hsorted)
      rw [hrun, Outcome.andThen_ok]
      rw [List.append_assoc] at hih
      exact ⟨fun hall => hih.1 hall.2, fun hn => hih.2 fun hall => hn ⟨hadm, hall⟩⟩
    · obtain ⟨res, p', hrun, hres⟩ := hno hadm
      rw [hrun, Outcome.andThen_ok]
      exact goesOn_not (fun hall => hadm hall.1) ⟨res, p', rfl, hres⟩

end Body
end Borgos.Usb
