import Borgos.Usb.ProtocolGroups

/-! # When the root hubs partition the declared ports

A hub covers the hull of the ranges of its major revision. It has the declared ports and no others exactly when these
ranges leave no gap; the table has all of them when there are at most four groups.
-/
namespace Borgos.Usb
open Borgos.Foundations
set_option autoImplicit false

variable {p : XhciProtocol} {h : XhciVhub} {ps T caps : List XhciProtocol} {hubs : List XhciVhub} {port : ℕ}

/-! ## Hubs are hulls -/

theorem extend_portOffset (h : XhciVhub) (p : XhciProtocol) :
    (h.extend p).portOffset = min h.portOffset p.portOffset := by
  simp only [XhciVhub.extend]
  split <;> omega

theorem extend_portEnd (h : XhciVhub) (p : XhciProtocol) : (h.extend p).portEnd = max h.portEnd p.portEnd := by
  simp only [XhciVhub.extend, XhciVhub.portEnd, XhciProtocol.portEnd]
  split <;> split <;> omega

/-- The hubs of the entries `ps`: one for each major revision, from the least port of its entries to the last one. -/
structure HubsOf (ps : List XhciProtocol) (hubs : List XhciVhub) : Prop where
  distinct : hubs.Pairwise fun a b => a.major ≠ b.major
  hub : ∀ p ∈ ps, ∃ h ∈ hubs, h.major = p.major
  least : ∀ h ∈ hubs, ∃ p ∈ ps, p.major = h.major ∧ p.portOffset = h.portOffset
  low : ∀ h ∈ hubs, ∀ p ∈ ps, p.major = h.major → h.portOffset ≤ p.portOffset
  last : ∀ h ∈ hubs, ∃ p ∈ ps, p.major = h.major ∧ p.portEnd = h.portEnd
  high : ∀ h ∈ hubs, ∀ p ∈ ps, p.major = h.major → p.portEnd ≤ h.portEnd

theorem extendHub_none (hnone : extendHub p hubs = none) : ∀ h ∈ hubs, h.major ≠ p.major := by
  induction hubs with
  | nil => simp
  | cons g gs ih =>
    unfold extendHub at hnone
    split at hnone
    · cases hnone
    · rename_i hne
      rw [Option.map_eq_none_iff] at hnone
      intro h hh
      rcases List.mem_cons.mp hh with rfl | hh
      · exact hne
      · exact ih hnone h hh

/-- The hubs are the same but for one of the protocol's major revision. -/
theorem extendHub_some {hubs' : List XhciVhub} (hsome : extendHub p hubs = some hubs') :
    ∃ pre h post, hubs = pre ++ h :: post ∧ hubs' = pre ++ h.extend p :: post ∧ h.major = p.major := by
  induction hubs generalizing hubs' with
  | nil => cases hsome
  | cons g gs ih =>
    unfold extendHub at hsome
    split at hsome
    · rename_i hm
      obtain rfl := Option.some.inj hsome
      exact ⟨[], g, gs, rfl, rfl, hm⟩
    · obtain ⟨gs', hgs, rfl⟩ := Option.map_eq_some_iff.mp hsome
      obtain ⟨pre, h, post, rfl, rfl, hm⟩ := ih hgs
      exact ⟨g :: pre, h, post, rfl, rfl, hm⟩

theorem HubsOf.extended {hubs' : List XhciVhub} (hh : HubsOf ps hubs) (hsome : extendHub p hubs = some hubs') :
    HubsOf (ps ++ [p]) hubs' := by
  obtain ⟨pre, g, post, rfl, rfl, hg⟩ := extendHub_some hsome
  have hgmem : g ∈ pre ++ g :: post := by simp
  -- every new hub is an old one of another major revision, or the extended one
  have hcases : ∀ h ∈ pre ++ g.extend p :: post, h = g.extend p ∨ h ∈ pre ++ g :: post ∧ h.major ≠ p.major := by
    have hd := hh.distinct
    rw [List.pairwise_append, List.pairwise_cons] at hd
    obtain ⟨-, ⟨hpost, -⟩, hpre⟩ := hd
    intro h hmem
    rcases List.mem_append.mp hmem with hmem | hmem
    · exact .inr ⟨by simp [hmem], by rw [← hg]; exact hpre h hmem g (by simp)⟩
    · rcases List.mem_cons.mp hmem with rfl | hmem
      · exact .inl rfl
      · exact .inr ⟨by simp [hmem], by rw [← hg]; exact (hpost h hmem).symm⟩
  have hgm : (g.extend p).major = p.major := hg
  refine ⟨?_, ?_, ?_, ?_, ?_, ?_⟩
  · have hd := hh.distinct
    rw [List.pairwise_append, List.pairwise_cons] at hd ⊢
    obtain ⟨h₁, ⟨h₂, h₃⟩, h₄⟩ := hd
    refine ⟨h₁, ⟨h₂, h₃⟩, ?_⟩
    intro a ha b hb
    rcases List.mem_cons.mp hb with rfl | hb
    · exact h₄ a ha g (by simp)
    · exact h₄ a ha b (by simp [hb])
  · intro q hq
    rcases List.mem_append.mp hq with hq | hq
    · obtain ⟨h, hmem, hm⟩ := hh.hub q hq
      rcases List.mem_append.mp hmem with hmem | hmem
      · exact ⟨h, by simp [hmem], hm⟩
      · rcases List.mem_cons.mp hmem with rfl | hmem
        · exact ⟨h.extend p, by simp, hm⟩
        · exact ⟨h, by simp [hmem], hm⟩
    · rw [List.mem_singleton.mp hq]
      exact ⟨g.extend p, by simp, hgm⟩
  · intro h hmem
    rcases hcases h hmem with rfl | ⟨hold, -⟩
    · rw [extend_portOffset]
      rcases Nat.le_total g.portOffset p.portOffset with hle | hle
      · obtain ⟨q, hq, hm, ho⟩ := hh.least g hgmem
        exact ⟨q, by simp [hq], hm, by rw [ho]; omega⟩
      · exact ⟨p, by simp, hgm.symm, by omega⟩
    · obtain ⟨q, hq, hm, ho⟩ := hh.least h hold
      exact ⟨q, by simp [hq], hm, ho⟩
  · intro h hmem q hq hm
    rcases hcases h hmem with rfl | ⟨hold, hne⟩
    · rw [extend_portOffset]
      rcases List.mem_append.mp hq with hq | hq
      · have hlow := hh.low g hgmem q hq hm
        omega
      · rw [List.mem_singleton.mp hq]
        omega
    · rcases List.mem_append.mp hq with hq | hq
      · exact hh.low h hold q hq hm
      · rw [List.mem_singleton.mp hq] at hm
        exact absurd hm.symm hne
  · intro h hmem
    rcases hcases h hmem with rfl | ⟨hold, -⟩
    · rw [extend_portEnd]
      rcases Nat.le_total p.portEnd g.portEnd with hle | hle
      · obtain ⟨q, hq, hm, ho⟩ := hh.last g hgmem
        exact ⟨q, by simp [hq], hm, by rw [ho]; omega⟩
      · exact ⟨p, by simp, hgm.symm, by omega⟩
    · obtain ⟨q, hq, hm, ho⟩ := hh.last h hold
      exact ⟨q, by simp [hq], hm, ho⟩
  · intro h hmem q hq hm
    rcases hcases h hmem with rfl | ⟨hold, hne⟩
    · rw [extend_portEnd]
      rcases List.mem_append.mp hq with hq | hq
      · have hhigh := hh.high g hgmem q hq hm
        omega
      · rw [List.mem_singleton.mp hq]
        omega
    · rcases List.mem_append.mp hq with hq | hq
      · exact hh.high h hold q hq hm
      · rw [List.mem_singleton.mp hq] at hm
        exact absurd hm.symm hne

theorem HubsOf.appended (hh : HubsOf ps hubs) (hnone : extendHub p hubs = none) (n : ℕ) :
    HubsOf (ps ++ [p]) (hubs ++ [newHub n p]) := by
  have hne := extendHub_none hnone
  have hnew : ∀ q ∈ ps, q.major ≠ p.major := by
    intro q hq hm
    obtain ⟨h, hmem, hhm⟩ := hh.hub q hq
    exact hne h hmem (hhm.trans hm)
  refine ⟨?_, ?_, ?_, ?_, ?_, ?_⟩
  · rw [List.pairwise_append]
    refine ⟨hh.distinct, by simp, ?_⟩
    intro a ha b hb
    rw [List.mem_singleton.mp hb]
    exact hne a ha
  · intro q hq
    rcases List.mem_append.mp hq with hq | hq
    · obtain ⟨h, hmem, hm⟩ := hh.hub q hq
      exact ⟨h, by simp [hmem], hm⟩
    · rw [List.mem_singleton.mp hq]
      exact ⟨newHub n p, by simp, rfl⟩
  · intro h hmem
    rcases List.mem_append.mp hmem with hmem | hmem
    · obtain ⟨q, hq, hm, ho⟩ := hh.least h hmem
      exact ⟨q, by simp [hq], hm, ho⟩
    · rw [List.mem_singleton.mp hmem]
      exact ⟨p, by simp, rfl, rfl⟩
  · intro h hmem q hq hm
    rcases List.mem_append.mp hmem with hmem | hmem
    · rcases List.mem_append.mp hq with hq | hq
      · exact hh.low h hmem q hq hm
      · rw [List.mem_singleton.mp hq] at hm
        exact absurd hm.symm (hne h hmem)
    · rw [List.mem_singleton.mp hmem] at hm ⊢
      rcases List.mem_append.mp hq with hq | hq
      · exact absurd hm (hnew q hq)
      · rw [List.mem_singleton.mp hq]
        exact le_rfl
  · intro h hmem
    rcases List.mem_append.mp hmem with hmem | hmem
    · obtain ⟨q, hq, hm, ho⟩ := hh.last h hmem
      exact ⟨q, by simp [hq], hm, ho⟩
    · rw [List.mem_singleton.mp hmem]
      exact ⟨p, by simp, rfl, rfl⟩
  · intro h hmem q hq hm
    rcases List.mem_append.mp hmem with hmem | hmem
    · rcases List.mem_append.mp hq with hq | hq
      · exact hh.high h hmem q hq hm
      · rw [List.mem_singleton.mp hq] at hm
        exact absurd hm.symm (hne h hmem)
    · rw [List.mem_singleton.mp hmem] at hm ⊢
      rcases List.mem_append.mp hq with hq | hq
      · exact absurd hm (hnew q hq)
      · rw [List.mem_singleton.mp hq]
        exact le_rfl

theorem hubLoop_hubs (qs : List XhciProtocol) (hpos : ∀ q ∈ qs, 0 < q.portCount) (hh : HubsOf ps hubs)
    {hubs' : List XhciVhub} (hrun : hubLoop qs hubs = some hubs') : HubsOf (ps ++ qs) hubs' := by
  induction qs generalizing ps hubs with
  | nil =>
    obtain rfl := Option.some.inj hrun
    rw [List.append_nil]
    exact hh
  | cons q qs ih =>
    have hq := hpos q List.mem_cons_self
    have hrest : ∀ q' ∈ qs, 0 < q'.portCount := fun q' hq' => hpos q' (List.mem_cons_of_mem q hq')
    unfold hubLoop at hrun
    rw [if_neg hq.ne'] at hrun
    rw [show ps ++ q :: qs = (ps ++ [q]) ++ qs by simp]
    cases hext : extendHub q hubs with
    | some hubs₁ =>
      rw [hext] at hrun
      exact ih hrest (hh.extended hext) hrun
    | none =>
      rw [hext] at hrun
      simp only at hrun
      split at hrun
      · cases hrun
      · exact ih hrest (hh.appended hext hubs.length) hrun

theorem hubInit_hubs (hpos : ∀ q ∈ T, 0 < q.portCount) (hok : xhcihcdHubInit T = some hubs) : HubsOf T hubs := by
  unfold xhcihcdHubInit at hok
  split at hok
  · cases hok
  · rename_i hubs' hrun
    split at hok
    · cases hok
    · obtain rfl := Option.some.inj hok
      have hempty : HubsOf [] [] := ⟨.nil, by simp, by simp, by simp, by simp, by simp⟩
      exact hubLoop_hubs T hpos hempty hrun

theorem HubsOf.has_iff (hh : HubsOf T hubs) (hmem : h ∈ hubs) :
    h.Has port ↔ ∃ p ∈ T, ∃ q ∈ T, p.major = h.major ∧ q.major = h.major ∧ p.portOffset ≤ port ∧ port < q.portEnd := by
  constructor
  · rintro ⟨hlo, hhi⟩
    obtain ⟨p, hp, hpm, hpo⟩ := hh.least h hmem
    obtain ⟨q, hq, hqm, hqe⟩ := hh.last h hmem
    exact ⟨p, hp, q, hq, hpm, hqm, by omega, by omega⟩
  · rintro ⟨p, hp, q, hq, hpm, hqm, hlo, hhi⟩
    exact ⟨(hh.low h hmem p hp hpm).trans hlo, hhi.trans_le (hh.high h hmem q hq hqm)⟩

/-! ## The chain -/

/-- The entries of an extended capability chain. -/
inductive ExtChain (read : ℕ → ℕ) : ℕ → List ExtCap → Prop where
  | none : ExtChain read 0 []
  | last (offset : ℕ) (hoff : offset ≠ 0) (hnext : xhciExtCapNext (read offset) = 0) :
      ExtChain read offset [ExtCap.at read offset]
  | more (offset : ℕ) (es : List ExtCap) (hoff : offset ≠ 0) (hnext : xhciExtCapNext (read offset) ≠ 0)
      (hrest : ExtChain read ((offset + xhciExtCapNext (read offset) * 4) % 2 ^ 32) es) :
      ExtChain read offset (ExtCap.at read offset :: es)

/-- The Supported Protocol capabilities with ports. -/
def declared (es : List ExtCap) : List XhciProtocol :=
  es.filterMap fun e =>
    if xhciExtCapId e.dw0 = xhciExtCapProtocolId ∧ e.protocol.portCount ≠ 0 then some e.protocol else none

theorem declared_pos {es : List ExtCap} {c : XhciProtocol} (hc : c ∈ declared es) : 0 < c.portCount := by
  obtain ⟨e, -, he⟩ := List.mem_filterMap.mp hc
  split at he
  · rename_i hcond
    obtain rfl := Option.some.inj he
    omega
  · cases he

theorem protocolLoop_chain {read : ℕ → ℕ} {offset : ℕ} {es : List ExtCap} (hchain : ExtChain read offset es) (left : ℕ)
    (T : List XhciProtocol) : protocolLoop read left offset T = (es.take left).foldl parseEntry T := by
  induction hchain generalizing left T with
  | none =>
    cases left with
    | zero => rfl
    | succ left => simp [protocolLoop]
  | last offset hoff hnext =>
    cases left with
    | zero => rfl
    | succ left => simp [protocolLoop, hoff, hnext]
  | more offset es hoff hnext hrest ih =>
    cases left with
    | zero => rfl
    | succ left =>
      rw [protocolLoop, if_pos hoff]
      simp only [hnext, if_false]
      rw [ih, List.take_succ_cons, List.foldl_cons]

theorem foldl_parseEntry (es : List ExtCap) (T : List XhciProtocol) :
    es.foldl parseEntry T = (declared es).foldl addProtocol T := by
  induction es generalizing T with
  | nil => rfl
  | cons e es ih =>
    rw [List.foldl_cons, ih]
    unfold declared parseEntry
    rw [List.filterMap_cons]
    by_cases hid : xhciExtCapId e.dw0 = xhciExtCapProtocolId
    · by_cases hcount : e.protocol.portCount = 0
      · simp [hid, hcount, addProtocol]
      · simp [hid, hcount]
    · simp [hid]

/-- The table is filled with what the first 256 entries declare. -/
theorem parseProtocols_eq {read : ℕ → ℕ} {xECPoff : ℕ} {es : List ExtCap} (hchain : ExtChain read xECPoff es) :
    xhcihcdParseProtocols read xECPoff = (declared (es.take 256)).foldl addProtocol [] := by
  unfold xhcihcdParseProtocols
  rw [protocolLoop_chain hchain, foldl_parseEntry]

theorem declared_split (es : List ExtCap) (n : ℕ) : declared es = declared (es.take n) ++ declared (es.drop n) := by
  unfold declared
  rw [← List.filterMap_append, List.take_append_drop]

/-! ## Visits -/

/-- The port handler that only records the port. -/
def recordPort (port : ℕ) : Prog (List ℕ) Unit := Prog.modify fun ports => ports ++ [port]

theorem hubEnumerateLoop_record (hub : XhciVhub) (left i : ℕ) (l : List ℕ) :
    hubEnumerateLoop recordPort hub left i l =
      .ok () (l ++ (List.range' i left).map fun k => (hub.portOffset + k) % 256) := by
  induction left generalizing i l with
  | zero => simp [hubEnumerateLoop]
  | succ left ih =>
    rw [hubEnumerateLoop, Prog.bind_run, recordPort, Prog.modify_run, Outcome.andThen_ok, ih, List.range'_succ]
    simp

/-- The ports that are visited for a hub. -/
def hubPorts (hub : XhciVhub) : List ℕ := (List.range' 0 hub.portCount).map fun k => (hub.portOffset + k) % 256

theorem hubEnumerateAll_record (hubs : List XhciVhub) (l : List ℕ) :
    hubEnumerateAll recordPort hubs l = .ok () (l ++ hubs.flatMap hubPorts) := by
  induction hubs generalizing l with
  | nil => simp [hubEnumerateAll]
  | cons hub hubs ih =>
    rw [hubEnumerateAll, Prog.bind_run, xhcihcdHubEnumerate, hubEnumerateLoop_record, Outcome.andThen_ok, ih]
    simp [hubPorts]

theorem hubPorts_lt (hub : XhciVhub) : ∀ port ∈ hubPorts hub, port < 256 := by
  intro port hp
  obtain ⟨k, -, rfl⟩ := List.mem_map.mp hp
  exact Nat.mod_lt _ (by norm_num)

/-- A hub whose ports are bytes visits each of them once. -/
theorem hubPorts_count {hub : XhciVhub} (hbyte : hub.portCount = 0 ∨ hub.portEnd ≤ 256) (port : ℕ) :
    (hubPorts hub).count port = if hub.Has port then 1 else 0 := by
  have hports : hubPorts hub = List.range' hub.portOffset hub.portCount := by
    unfold hubPorts
    rw [List.range'_eq_map_range, List.range'_eq_map_range]
    simp only [List.map_map, Function.comp_def, Nat.zero_add]
    refine List.map_congr_left ?_
    intro k hk
    have hlt := List.mem_range.mp hk
    unfold XhciVhub.portEnd at hbyte
    exact Nat.mod_eq_of_lt (by omega)
  rw [hports]
  by_cases hhas : hub.Has port
  · rw [if_pos hhas]
    refine List.count_eq_one_of_mem List.nodup_range' ?_
    rw [List.mem_range'_1]
    exact hhas
  · rw [if_neg hhas]
    refine List.count_eq_zero_of_not_mem ?_
    rw [List.mem_range'_1]
    exact hhas

theorem count_flatMap_hubPorts (hbyte : ∀ hub ∈ hubs, hub.portCount = 0 ∨ hub.portEnd ≤ 256) (port : ℕ) :
    (hubs.flatMap hubPorts).count port = hubs.countP fun hub => hub.Has port := by
  induction hubs with
  | nil => rfl
  | cons hub hubs ih =>
    rw [List.flatMap_cons, List.count_append, hubPorts_count (hbyte hub List.mem_cons_self),
      ih fun hub' hmem => hbyte hub' (List.mem_cons_of_mem hub hmem), List.countP_cons]
    by_cases hhas : hub.Has port
    · simp [hhas, Nat.add_comm]
    · simp [hhas]

/-- Hubs of different major revisions, of which only those of one have the port. -/
theorem countP_one (hd : hubs.Pairwise fun a b => a.major ≠ b.major) {major : ℕ}
    (hsome : ∃ h ∈ hubs, h.Has port) (hmajor : ∀ h ∈ hubs, h.Has port → h.major = major) :
    hubs.countP (fun hub => hub.Has port) = 1 := by
  induction hubs with
  | nil =>
    obtain ⟨h, hmem, -⟩ := hsome
    cases hmem
  | cons g gs ih =>
    obtain ⟨hg, hgs⟩ := List.pairwise_cons.mp hd
    rw [List.countP_cons]
    by_cases hhas : g.Has port
    · have hzero : gs.countP (fun hub => hub.Has port) = 0 := by
        rw [List.countP_eq_zero]
        intro h hmem
        simp only [decide_eq_true_eq]
        intro hp
        exact hg h hmem ((hmajor g List.mem_cons_self hhas).trans (hmajor h (List.mem_cons_of_mem g hmem) hp).symm)
      simp [hhas, hzero]
    · obtain ⟨h, hmem, hp⟩ := hsome
      have htail : ∃ h ∈ gs, h.Has port := by
        rcases List.mem_cons.mp hmem with rfl | hmem
        · exact absurd hp hhas
        · exact ⟨h, hmem, hp⟩
      simp [hhas, ih hgs htail fun h' hmem' => hmajor h' (List.mem_cons_of_mem g hmem')]

/-! ## The partition -/

/-- Every declared port is in one hub, which is of the declared major revision; no other port is in a hub; a port's
entry has the declared slot type; and the enumeration of all hubs visits each declared port once. -/
structure PortsPartitioned (caps T : List XhciProtocol) (hubs : List XhciVhub) : Prop where
  owned : ∀ c ∈ caps, ∀ port, c.Has port →
    hubs.countP (fun h => h.Has port) = 1 ∧ ∀ h ∈ hubs, h.Has port → h.major = c.major
  declared : ∀ h ∈ hubs, ∀ port, h.Has port → ∃ c ∈ caps, c.Has port
  slotType : ∀ c ∈ caps, ∀ port, c.Has port →
    (xhciProtocolForPort T port).map XhciProtocol.slotType = some c.slotType
  handled : ∀ c ∈ caps, ∀ port, c.Has port →
    ∃ visited, hubEnumerateAll recordPort hubs [] = .ok () visited ∧ visited.count port = 1

/-- Nothing is declared after the first 256 entries of the chain, there are at most four groups, the ports of each
major revision have no gap, the members of a group have one slot type, and port numbers are bytes. -/
structure Describable (es : List ExtCap) : Prop where
  reached : declared (es.drop 256) = []
  room : (grouping (declared es)).count ≤ xhciMaxProtocols
  gapless : ∀ c ∈ declared es, ∀ c' ∈ declared es, c.major = c'.major → ∀ port, c.portOffset ≤ port →
    port < c'.portEnd → ∃ d ∈ declared es, d.major = c.major ∧ d.Has port
  slotTypes : ∀ c c' g, (c, g) ∈ (grouping (declared es)).members → (c', g) ∈ (grouping (declared es)).members →
    c.slotType = c'.slotType
  bytes : ∀ c ∈ declared es, c.portEnd ≤ 256

theorem protocolForPort_some (hfind : xhciProtocolForPort T port = some p) : p ∈ T ∧ p.Has port := by
  unfold xhciProtocolForPort at hfind
  refine ⟨List.mem_of_find?_eq_some hfind, ?_⟩
  have hp := List.find?_some hfind
  simp only [decide_eq_true_eq] at hp
  exact hp

theorem grouping_fst (caps : List XhciProtocol) : (grouping caps).members.map Prod.fst = caps := by
  unfold grouping
  rw [Grouping.members_fst]
  rfl

section Groups
variable (hap : caps.Pairwise Apart)
include hap

/-- A port is in one capability, which is in one group. -/
theorem member_unique {m m' : XhciProtocol × ℕ} (hm : m ∈ (grouping caps).members) (hm' : m' ∈ (grouping caps).members)
    (hp : m.1.Has port) (hp' : m'.1.Has port) : m = m' := by
  have hpair : (grouping caps).members.Pairwise fun a b => Apart a.1 b.1 := by
    rw [← grouping_fst caps, List.pairwise_map] at hap
    exact hap
  have hsymm : Std.Symm fun a b : XhciProtocol × ℕ => Apart a.1 b.1 := ⟨fun _ _ hab => hab.symm⟩
  by_contra hne
  exact hpair.forall hm hm' hne port hp hp'

omit hap in
theorem mem_grouping {c : XhciProtocol} : c ∈ caps ↔ ∃ g, (c, g) ∈ (grouping caps).members := by
  conv_lhs => rw [← grouping_fst caps]
  simp

variable (hd : Describes (grouping caps) T)
include hd

/-- The entry that is found for a port is the one of its group. -/
theorem protocolForPort_group {c : XhciProtocol} {g : ℕ} (hc : (c, g) ∈ (grouping caps).members) (hp : c.Has port) :
    ∃ e, T[g]? = some e ∧ xhciProtocolForPort T port = some e := by
  obtain ⟨e, he, -⟩ := hd.major c g hc
  have hhas : e.Has port := (hd.ports g e he port).mpr ⟨c, hc, hp⟩
  have hfound : (xhciProtocolForPort T port).isSome := by
    unfold xhciProtocolForPort
    rw [List.find?_isSome]
    exact ⟨e, List.mem_of_getElem? he, decide_eq_true hhas⟩
  obtain ⟨e', hfind⟩ := Option.isSome_iff_exists.mp hfound
  obtain ⟨hmem, hhas'⟩ := protocolForPort_some hfind
  obtain ⟨i, hi⟩ := List.mem_iff_getElem?.mp hmem
  obtain ⟨c', hc', hp'⟩ := (hd.ports i e' hi port).mp hhas'
  have heq := member_unique hap hc hc' hp hp'
  obtain ⟨rfl, rfl⟩ := Prod.mk.inj heq
  obtain rfl : e = e' := Option.some.inj (he.symm.trans hi)
  exact ⟨e, he, hfind⟩

/-- The slot types found are the declared ones exactly when each group has one slot type. -/
theorem slotTypes_iff (hpos : ∀ c ∈ caps, 0 < c.portCount) :
    (∀ c ∈ caps, ∀ port, c.Has port → (xhciProtocolForPort T port).map XhciProtocol.slotType = some c.slotType) ↔
      ∀ c c' g, (c, g) ∈ (grouping caps).members → (c', g) ∈ (grouping caps).members → c.slotType = c'.slotType := by
  constructor
  · intro h
    have hone : ∀ c g, (c, g) ∈ (grouping caps).members → ∃ e, T[g]? = some e ∧ e.slotType = c.slotType := by
      intro c g hc
      have hmem := mem_grouping.mpr ⟨g, hc⟩
      have hfirst : c.Has c.portOffset := ⟨le_rfl, by have := hpos c hmem; unfold XhciProtocol.portEnd; omega⟩
      obtain ⟨e, he, hfind⟩ := protocolForPort_group hap hd hc hfirst
      have hs := h c hmem _ hfirst
      rw [hfind, Option.map_some] at hs
      exact ⟨e, he, Option.some.inj hs⟩
    intro c c' g hc hc'
    obtain ⟨e, he, hs⟩ := hone c g hc
    obtain ⟨e', he', hs'⟩ := hone c' g hc'
    obtain rfl : e = e' := Option.some.inj (he.symm.trans he')
    exact hs.symm.trans hs'
  · intro h c hmem port hp
    obtain ⟨g, hc⟩ := mem_grouping.mp hmem
    obtain ⟨e, he, hfind⟩ := protocolForPort_group hap hd hc hp
    obtain ⟨c', hc', hs⟩ := hd.starter g e he
    rw [hfind, Option.map_some, ← hs, h c' c g hc' hc]

omit hap in
/-- A hub has the ports between two capabilities of its major revision. -/
theorem hub_has_iff (hh : HubsOf T hubs) (hpos : ∀ c ∈ caps, 0 < c.portCount) {h : XhciVhub} (hmem : h ∈ hubs) :
    h.Has port ↔ ∃ c ∈ caps, ∃ c' ∈ caps, c.major = h.major ∧ c'.major = h.major ∧ c.portOffset ≤ port ∧
      port < c'.portEnd := by
  rw [hh.has_iff hmem]
  constructor
  · rintro ⟨e, he, e', he', hm, hm', hlo, hhi⟩
    obtain ⟨i, hi⟩ := List.mem_iff_getElem?.mp he
    obtain ⟨i', hi'⟩ := List.mem_iff_getElem?.mp he'
    have hepos := hd.nonempty i e hi
    have hepos' := hd.nonempty i' e' hi'
    obtain ⟨c, hc, hp⟩ := (hd.ports i e hi e.portOffset).mp ⟨le_rfl, by unfold XhciProtocol.portEnd; omega⟩
    obtain ⟨c', hc', hp'⟩ := (hd.ports i' e' hi' (e'.portEnd - 1)).mp
      ⟨by unfold XhciProtocol.portEnd; omega, by unfold XhciProtocol.portEnd; omega⟩
    obtain ⟨f, hf, hfm⟩ := hd.major c i hc
    obtain ⟨f', hf', hfm'⟩ := hd.major c' i' hc'
    obtain rfl : e = f := Option.some.inj (hi.symm.trans hf)
    obtain rfl : e' = f' := Option.some.inj (hi'.symm.trans hf')
    refine ⟨c, mem_grouping.mpr ⟨i, hc⟩, c', mem_grouping.mpr ⟨i', hc'⟩, hfm.symm.trans hm, hfm'.symm.trans hm',
      hp.1.trans hlo, ?_⟩
    have hend := hp'.2
    unfold XhciProtocol.portEnd at *
    omega
  · rintro ⟨c, hc, c', hc', hm, hm', hlo, hhi⟩
    have hcpos := hpos c hc
    have hcpos' := hpos c' hc'
    obtain ⟨g, hg⟩ := mem_grouping.mp hc
    obtain ⟨g', hg'⟩ := mem_grouping.mp hc'
    obtain ⟨e, he, hem⟩ := hd.major c g hg
    obtain ⟨e', he', hem'⟩ := hd.major c' g' hg'
    have hp := (hd.ports g e he c.portOffset).mpr ⟨c, hg, le_rfl, by unfold XhciProtocol.portEnd; omega⟩
    have hp' := (hd.ports g' e' he' (c'.portEnd - 1)).mpr
      ⟨c', hg', by unfold XhciProtocol.portEnd; omega, by unfold XhciProtocol.portEnd; omega⟩
    refine ⟨e, List.mem_of_getElem? he, e', List.mem_of_getElem? he', hem.trans hm, hem'.trans hm', hp.1.trans hlo, ?_⟩
    have hend := hp'.2
    unfold XhciProtocol.portEnd at *
    omega

end Groups
section Partition
variable (hap : caps.Pairwise Apart) (hpos : ∀ c ∈ caps, 0 < c.portCount) (hd : Describes (grouping caps) T)
  (hh : HubsOf T hubs)
include hpos hd hh

/-- The hub of a capability's major revision has its ports. -/
theorem hub_of_cap {c : XhciProtocol} (hc : c ∈ caps) :
    ∃ h ∈ hubs, h.major = c.major ∧ ∀ port, c.Has port → h.Has port := by
  obtain ⟨g, hg⟩ := mem_grouping.mp hc
  obtain ⟨e, he, hem⟩ := hd.major c g hg
  obtain ⟨h, hmem, hm⟩ := hh.hub e (List.mem_of_getElem? he)
  refine ⟨h, hmem, hm.trans hem, ?_⟩
  intro port hp
  rw [hub_has_iff hd hh hpos hmem]
  exact ⟨c, hc, c, hc, (hm.trans hem).symm, (hm.trans hem).symm, hp.1, hp.2⟩

include hap in
/-- The hubs own the declared ports and no others exactly when no major revision has a gap. -/
theorem owned_iff :
    ((∀ c ∈ caps, ∀ port, c.Has port →
        hubs.countP (fun h => h.Has port) = 1 ∧ ∀ h ∈ hubs, h.Has port → h.major = c.major) ∧
      ∀ h ∈ hubs, ∀ port, h.Has port → ∃ c ∈ caps, c.Has port) ↔
    ∀ c ∈ caps, ∀ c' ∈ caps, c.major = c'.major → ∀ port, c.portOffset ≤ port → port < c'.portEnd →
      ∃ d ∈ caps, d.major = c.major ∧ d.Has port := by
  constructor
  · rintro ⟨howned, hdecl⟩ c hc c' hc' hm port hlo hhi
    obtain ⟨h, hmem, hhm, -⟩ := hub_of_cap hpos hd hh hc
    have hhas : h.Has port := (hub_has_iff hd hh hpos hmem).mpr
      ⟨c, hc, c', hc', hhm.symm, hm.symm.trans hhm.symm, hlo, hhi⟩
    obtain ⟨d, hdmem, hdp⟩ := hdecl h hmem port hhas
    exact ⟨d, hdmem, ((howned d hdmem port hdp).2 h hmem hhas).symm.trans hhm, hdp⟩
  · intro hgap
    -- a hub's port is declared with the hub's major revision
    have hsame : ∀ h ∈ hubs, ∀ port, h.Has port → ∃ d ∈ caps, d.major = h.major ∧ d.Has port := by
      intro h hmem port hhas
      obtain ⟨c, hc, c', hc', hm, hm', hlo, hhi⟩ := (hub_has_iff hd hh hpos hmem).mp hhas
      obtain ⟨d, hdmem, hdm, hdp⟩ := hgap c hc c' hc' (hm.trans hm'.symm) port hlo hhi
      exact ⟨d, hdmem, hdm.trans hm, hdp⟩
    refine ⟨?_, fun h hmem port hhas => ?_⟩
    · intro c hc port hp
      have hmajor : ∀ h ∈ hubs, h.Has port → h.major = c.major := by
        intro h hmem hhas
        obtain ⟨d, hdmem, hdm, hdp⟩ := hsame h hmem port hhas
        obtain ⟨g, hg⟩ := mem_grouping.mp hc
        obtain ⟨g', hg'⟩ := mem_grouping.mp hdmem
        have heq := member_unique hap hg hg' hp hdp
        rw [← hdm, (Prod.mk.inj heq).1]
      obtain ⟨h, hmem, -, hports⟩ := hub_of_cap hpos hd hh hc
      exact ⟨countP_one hh.distinct ⟨h, hmem, hports port hp⟩ hmajor, hmajor⟩
    · obtain ⟨d, hdmem, -, hdp⟩ := hsame h hmem port hhas
      exact ⟨d, hdmem, hdp⟩

omit hd hh in
/-- Then every port is handled once exactly when port numbers are bytes. -/
theorem handled_iff (hone : ∀ c ∈ caps, ∀ port, c.Has port → hubs.countP (fun h => h.Has port) = 1)
    (hdecl : ∀ h ∈ hubs, ∀ port, h.Has port → ∃ c ∈ caps, c.Has port) :
    (∀ c ∈ caps, ∀ port, c.Has port →
      ∃ visited, hubEnumerateAll recordPort hubs [] = .ok () visited ∧ visited.count port = 1) ↔
    ∀ c ∈ caps, c.portEnd ≤ 256 := by
  have hrun := hubEnumerateAll_record hubs []
  rw [List.nil_append] at hrun
  constructor
  · intro h c hc
    have hcpos := hpos c hc
    obtain ⟨visited, hv, hcount⟩ := h c hc (c.portEnd - 1)
      ⟨by unfold XhciProtocol.portEnd; omega, by unfold XhciProtocol.portEnd; omega⟩
    rw [hrun] at hv
    obtain ⟨-, rfl⟩ := Outcome.ok.inj hv
    have hmem : c.portEnd - 1 ∈ hubs.flatMap hubPorts := List.count_pos_iff.mp (by omega)
    obtain ⟨hub, -, hin⟩ := List.mem_flatMap.mp hmem
    have hlt := hubPorts_lt hub _ hin
    omega
  · intro h c hc port hp
    refine ⟨_, hrun, ?_⟩
    rw [count_flatMap_hubPorts ?_ port]
    · exact hone c hc port hp
    · intro hub hmem
      by_cases h0 : hub.portCount = 0
      · exact .inl h0
      · -- the last port of the hub is declared
        obtain ⟨c', hc', hp'⟩ := hdecl hub hmem (hub.portEnd - 1)
          ⟨by unfold XhciVhub.portEnd; omega, by unfold XhciVhub.portEnd; omega⟩
        have hlast := hp'.2
        have hbyte := h c' hc'
        right
        omega

end Partition

/-- The ports that are declared in a chain of which the driver made root hubs are partitioned as they should be exactly
when the chain is describable. -/
theorem ports_partitioned_iff (read : ℕ → ℕ) (xECPoff : ℕ) (es : List ExtCap) (hchain : ExtChain read xECPoff es)
    (hap : (declared es).Pairwise Apart) (hubs : List XhciVhub)
    (hok : xhcihcdHubInit (xhcihcdParseProtocols read xECPoff) = some hubs) :
    PortsPartitioned (declared es) (xhcihcdParseProtocols read xECPoff) hubs ↔ Describable es := by
  have hT := parseProtocols_eq hchain
  have hpos : ∀ c ∈ declared es, 0 < c.portCount := fun c hc => declared_pos hc
  have hsplit := declared_split es 256
  obtain ⟨T, hTeq⟩ : ∃ T, xhcihcdParseProtocols read xECPoff = T := ⟨_, rfl⟩
  rw [hTeq] at hok hT ⊢
  -- with everything reached and room for all groups, the table describes the declared ranges
  have hfull : declared (es.drop 256) = [] → T = (declared es).foldl addProtocol [] := by
    intro hreach
    rw [hreach, List.append_nil] at hsplit
    rw [hT, hsplit]
  have hdesc : T = (declared es).foldl addProtocol [] → (grouping (declared es)).count ≤ xhciMaxProtocols →
      Describes (grouping (declared es)) T := by
    intro hTall hroom
    rw [hTall]
    exact foldl_describes _ describes_nil (fun m hm => by cases hm) hpos hap hroom
  have hhubs : Describes (grouping (declared es)) T → HubsOf T hubs := by
    intro hd
    refine hubInit_hubs ?_ hok
    intro q hq
    obtain ⟨i, hi⟩ := List.mem_iff_getElem?.mp hq
    exact hd.nonempty i q hi
  constructor
  · intro h
    -- a declared port has an entry
    have hentry : ∀ c ∈ declared es, ∃ e ∈ T, e.Has c.portOffset := by
      intro c hc
      have hs := h.slotType c hc c.portOffset ⟨le_rfl, by have := hpos c hc; unfold XhciProtocol.portEnd; omega⟩
      obtain ⟨e, hfind, -⟩ := Option.map_eq_some_iff.mp hs
      exact ⟨e, protocolForPort_some hfind⟩
    have hreach : declared (es.drop 256) = [] := by
      rw [List.eq_nil_iff_forall_not_mem]
      intro c hc
      have hmem : c ∈ declared es := by
        rw [hsplit]
        exact List.mem_append_right _ hc
      obtain ⟨e, he, hp⟩ := hentry c hmem
      rw [hT] at he
      rcases foldl_ports _ he hp with ⟨e', he', -⟩ | ⟨c', hc', hp'⟩
      · cases he'
      · rw [hsplit, List.pairwise_append] at hap
        exact hap.2.2 c' hc' c hc _ hp' ⟨le_rfl, by have := hpos c hmem; unfold XhciProtocol.portEnd; omega⟩
    have hTall := hfull hreach
    have hroom : (grouping (declared es)).count ≤ xhciMaxProtocols := by
      by_contra hmore
      obtain ⟨c, hc, hout⟩ := foldl_drops (declared es) describes_nil (fun m hm => by cases hm) hpos hap
        (Nat.zero_le _) (not_le.mp hmore)
      obtain ⟨e, he, hp⟩ := hentry c hc
      rw [hTall] at he
      exact hout e he _ ⟨le_rfl, by have := hpos c hc; unfold XhciProtocol.portEnd; omega⟩ hp
    have hd := hdesc hTall hroom
    have hh := hhubs hd
    exact ⟨hreach, hroom, (owned_iff hap hpos hd hh).mp ⟨h.owned, h.declared⟩,
      (slotTypes_iff hap hd hpos).mp h.slotType,
      (handled_iff hpos (fun c hc port hp => (h.owned c hc port hp).1) h.declared).mp h.handled⟩
  · intro h
    have hd := hdesc (hfull h.reached) h.room
    have hh := hhubs hd
    obtain ⟨howned, hdecl⟩ := (owned_iff hap hpos hd hh).mpr h.gapless
    exact ⟨howned, hdecl, (slotTypes_iff hap hd hpos).mpr h.slotTypes,
      (handled_iff hpos (fun c hc port hp => (howned c hc port hp).1) hdecl).mpr h.bytes⟩

/-! ## Two controllers -/

/-- A controller with its SuperSpeed ports 1 to 4 declared after its high-speed ports 5 to 8. -/
def twoRanges (offset : ℕ) : ℕ :=
  if offset = 0x20 then 0x02000402 else if offset = 0x28 then 0x0405
  else if offset = 0x30 then 0x03000002 else if offset = 0x38 then 0x0401 else 0

/-- A controller with high-speed ports on both sides of its SuperSpeed ports 3 and 4. -/
def interleavedRanges (offset : ℕ) : ℕ :=
  if offset = 0x20 then 0x02000402 else if offset = 0x28 then 0x0201
  else if offset = 0x30 then 0x03000402 else if offset = 0x38 then 0x0203
  else if offset = 0x40 then 0x02000002 else if offset = 0x48 then 0x0205 else 0

theorem twoRanges_chain : ExtChain twoRanges 0x20 [ExtCap.at twoRanges 0x20, ExtCap.at twoRanges 0x30] :=
  .more 0x20 _ (by decide) (by decide) (.last 0x30 (by decide) (by decide))

theorem interleavedRanges_chain : ExtChain interleavedRanges 0x20
    [ExtCap.at interleavedRanges 0x20, ExtCap.at interleavedRanges 0x30, ExtCap.at interleavedRanges 0x40] :=
  .more 0x20 _ (by decide) (by decide) (.more 0x30 _ (by decide) (by decide) (.last 0x40 (by decide) (by decide)))

theorem ports_partitioned_iff_two : ∃ hubs,
    xhcihcdHubInit (xhcihcdParseProtocols twoRanges 0x20) = some hubs ∧
      PortsPartitioned [⟨2, 0, 0, 5, 4⟩, ⟨3, 0, 0, 1, 4⟩] (xhcihcdParseProtocols twoRanges 0x20) hubs := by
  have hdecl : declared [ExtCap.at twoRanges 0x20, ExtCap.at twoRanges 0x30] = [⟨2, 0, 0, 5, 4⟩, ⟨3, 0, 0, 1, 4⟩] := by
    decide
  have hap : ([⟨2, 0, 0, 5, 4⟩, ⟨3, 0, 0, 1, 4⟩] : List XhciProtocol).Pairwise Apart := by
    simp [Apart, XhciProtocol.Has, XhciProtocol.portEnd]
    omega
  refine ⟨[⟨0xF0, 2, 0, 5, 4⟩, ⟨0xF1, 3, 0, 1, 4⟩], by decide, ?_⟩
  rw [← hdecl] at hap ⊢
  refine (ports_partitioned_iff twoRanges 0x20 _ twoRanges_chain hap _ (by decide)).mpr ⟨by decide, ?_, ?_, ?_, ?_⟩
  · rw [hdecl]
    decide
  · rw [hdecl]
    simp only [List.mem_cons, List.not_mem_nil, or_false]
    rintro c (rfl | rfl) c' (rfl | rfl) hm port hlo hhi
    · exact ⟨_, .inl rfl, rfl, hlo, hhi⟩
    · cases hm
    · cases hm
    · exact ⟨_, .inr rfl, rfl, hlo, hhi⟩
  · rw [hdecl, show grouping _ = ⟨[(⟨2, 0, 0, 5, 4⟩, 0), (⟨3, 0, 0, 1, 4⟩, 1)], 2⟩ by rfl]
    simp only [List.mem_cons, List.not_mem_nil, or_false, Prod.mk.injEq]
    rintro c c' g (⟨rfl, rfl⟩ | ⟨rfl, rfl⟩) (⟨rfl, hg⟩ | ⟨rfl, hg⟩)
    · rfl
    · rfl
    · rfl
    · rfl
  · rw [hdecl]
    decide

/-- The hub of the high-speed ports takes in the SuperSpeed ports between them. -/
theorem interleaved_ports_shared : ∃ es hubs, ExtChain interleavedRanges 0x20 es ∧ (declared es).Pairwise Apart ∧
    xhcihcdHubInit (xhcihcdParseProtocols interleavedRanges 0x20) = some hubs ∧
    ¬ PortsPartitioned (declared es) (xhcihcdParseProtocols interleavedRanges 0x20) hubs := by
  have hdecl : declared [ExtCap.at interleavedRanges 0x20, ExtCap.at interleavedRanges 0x30,
      ExtCap.at interleavedRanges 0x40] = [⟨2, 0, 0, 1, 2⟩, ⟨3, 0, 0, 3, 2⟩, ⟨2, 0, 0, 5, 2⟩] := by decide
  refine ⟨_, [⟨0xF0, 2, 0, 1, 6⟩, ⟨0xF1, 3, 0, 3, 2⟩], interleavedRanges_chain, ?_, by decide, ?_⟩
  · rw [hdecl]
    simp only [List.pairwise_cons, List.mem_cons, List.not_mem_nil, or_false, forall_eq_or_imp, forall_eq, Apart,
      XhciProtocol.Has, XhciProtocol.portEnd]
    refine ⟨⟨?_, ?_⟩, ?_, by simp⟩
    · omega
    · omega
    · omega
  · rw [hdecl]
    intro h
    have hone := (h.owned ⟨3, 0, 0, 3, 2⟩ (by simp) 3 (by decide)).1
    exact absurd hone (by decide)

end Borgos.Usb
