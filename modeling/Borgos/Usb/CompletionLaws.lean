import Borgos.Usb.Xhci

/-! # Whose completion is it

`xhcihcd_command_execute` and `xhcihcd_control_transfer_hw` wait for one event each. An event that comes after
its caller gave up may meet a later call: the command path compares the TRB pointer, the path of endpoint 0
does not. Calls may overlap, and every reported TRB produces at most one event.
-/
namespace Borgos.Usb
open Borgos.Foundations Borgos.Mem
set_option autoImplicit false

/-- What a call waits for. -/
inductive CallKind where
  | command
  | control (slot : ℕ)
deriving DecidableEq

/-- A TRB with completion reporting: a command, or the Status Stage of a control transfer. -/
inductive ReportingTrb where
  | command (phys : ℕ)
  | control (slot phys : ℕ)
deriving DecidableEq

/-- `ev` is a completion event of the TRB. -/
def ReportingTrb.Reports (t : ReportingTrb) (ev : Trb) : Prop :=
  match t with
  | .command phys => xhciTrbType ev.control = xhciTrbCmdCompletion ∧ ev.parameter = phys
  | .control slot phys => xhciTrbType ev.control = xhciTrbTransferEvent ∧ ev.parameter = phys ∧
      (xhciTrbGetSlot ev.control).toNat = slot ∧ (xhciEvtEpId ev.control).toNat = xhciDbEp0Target

/-- The driver, the calls that wait, the TRBs whose event may still come, each with the number of its call, and
the call and event from which the completion state was last taken. -/
structure CompletionSystem where
  hc : Xhci
  waiting : ℕ → Option CallKind
  owed : List (ℕ × ReportingTrb)
  next : ℕ
  cmdFrom : Option (ℕ × Trb)
  xferFrom : ℕ → Option (ℕ × Trb)

namespace CompletionSystem

def start (hc : Xhci) : CompletionSystem := ⟨hc, fun _ => none, [], 0, none, fun _ => none⟩

def enter (a : CompletionSystem) (hc : Xhci) (kind : CallKind) (t : ReportingTrb) : CompletionSystem :=
  { a with
    hc := hc
    waiting := Function.update a.waiting a.next (some kind)
    owed := a.owed ++ [(a.next, t)]
    next := a.next + 1 }

def leave (a : CompletionSystem) (hc : Xhci) (id : ℕ) : CompletionSystem :=
  { a with
    hc := hc
    waiting := Function.update a.waiting id none }

/-- An event has been handled. It was taken where it cleared a pending flag. -/
def afterEvent (a : CompletionSystem) (hc : Xhci) (id : ℕ) (t : ReportingTrb) (ev : Trb) : CompletionSystem :=
  { a with
    hc := hc
    owed := a.owed.erase (id, t)
    cmdFrom := if a.hc.cmdPending = true ∧ hc.cmdPending = false then some (id, ev) else a.cmdFrom
    xferFrom := fun slot =>
      if a.hc.xferPending slot = true ∧ hc.xferPending slot = false then some (id, ev) else a.xferFrom slot }

/-- The address of the Status Stage TRB of the next control transfer. -/
def statusAddress (a : CompletionSystem) (slot : ℕ) (setup : SetupPacket) (buffer : ℕ) (length : BitVec 16) : ℕ :=
  (enqueueStages (a.hc.ep0Ring slot) setup buffer length).enqueueAddress

/-- No command call waits, and no event for the place of the next command is still to come. -/
def CommandClear (a : CompletionSystem) : Prop :=
  (∀ id, a.waiting id ≠ some .command) ∧ ∀ id, (id, ReportingTrb.command a.hc.cmdRing.enqueueAddress) ∉ a.owed

/-- No control transfer of the device waits, and no event of one is still to come. -/
def ControlClear (a : CompletionSystem) (slot : ℕ) : Prop :=
  (∀ id, a.waiting id ≠ some (.control slot)) ∧ ∀ id phys, (id, ReportingTrb.control slot phys) ∉ a.owed

end CompletionSystem

/-- Steps of calls and of events. With `careful` a call is only entered when its path is clear. -/
inductive CompletionStep (xferCbFunc : ℕ → Prog Xhci Unit) (careful : Prop) (a : CompletionSystem) :
    CompletionSystem → Prop
  | command (trb : Trb) (hc : Xhci) (hclear : careful → a.CommandClear)
      (h : xhcihcdCommandExecute trb a.hc = .ok () hc) :
      CompletionStep xferCbFunc careful a (a.enter hc .command (.command a.hc.cmdRing.enqueueAddress))
  | control (slot : ℕ) (setup : SetupPacket) (buffer : ℕ) (length : BitVec 16) (hdev : a.hc.devices slot = some true)
      (hslot : slot ≠ 0 ∧ slot ≤ xhciMaxSlotsSupported) (hclear : careful → a.ControlClear slot) :
      CompletionStep xferCbFunc careful a (a.enter (xhcihcdControlTransferHw slot setup buffer length a.hc)
        (.control slot) (.control slot (a.statusAddress slot setup buffer length)))
  | event (id : ℕ) (t : ReportingTrb) (ev : Trb) (hc : Xhci) (howed : (id, t) ∈ a.owed) (hev : t.Reports ev)
      (h : dispatchEvent (xhciHandlers xferCbFunc) ev.control ev a.hc = .ok () hc) :
      CompletionStep xferCbFunc careful a (a.afterEvent hc id t ev)
  | commandTimeout (id : ℕ) (hw : a.waiting id = some .command) (hp : a.hc.cmdPending = true) :
      CompletionStep xferCbFunc careful a (a.leave (xhcihcdCommandTimeout a.hc) id)
  | controlTimeout (id slot : ℕ) (hw : a.waiting id = some (.control slot)) (hp : a.hc.xferPending slot = true) :
      CompletionStep xferCbFunc careful a (a.leave (xhcihcdControlTimeout a.hc slot) id)
  | commandReturns (id : ℕ) (hw : a.waiting id = some .command) (hp : a.hc.cmdPending = false) :
      CompletionStep xferCbFunc careful a (a.leave a.hc id)
  | controlReturns (id slot : ℕ) (hw : a.waiting id = some (.control slot)) (hp : a.hc.xferPending slot = false) :
      CompletionStep xferCbFunc careful a (a.leave a.hc id)

def CompletionRun (xferCbFunc : ℕ → Prog Xhci Unit) (careful : Prop) : CompletionSystem → CompletionSystem → Prop :=
  Relation.ReflTransGen (CompletionStep xferCbFunc careful)

/-- The completion state of commands is that of the event `ev`. -/
def CommandTaken (s : Xhci) (ev : Trb) : Prop :=
  xhcihcdCommandResult s = (xhciTrbGetSlot ev.control,
    if xhciEvtCompCode ev.status = xhciCcSuccess then .ok else .error)

/-- The completion state of endpoint 0 is that of the event `ev`. -/
def ControlTaken (s : Xhci) (slot : ℕ) (ev : Trb) : Prop :=
  s.xferCode slot = xhciEvtCompCode ev.status ∧ s.xferResidual slot = xhciEvtXferLen ev.status

/-- A call that finds its pending flag clear returns what the event of its own TRB said. -/
structure Attributed (a : CompletionSystem) : Prop where
  command : ∀ id, a.waiting id = some .command → a.hc.cmdPending = false →
    ∃ ev, a.cmdFrom = some (id, ev) ∧ CommandTaken a.hc ev
  control : ∀ id slot, a.waiting id = some (.control slot) → a.hc.xferPending slot = false →
    ∃ ev, a.xferFrom slot = some (id, ev) ∧ ControlTaken a.hc slot ev

/-! ## The handlers -/

theorem commandCompletion_spec {ev : Trb} {s s' : Xhci} (h : xhcihcdHandleCommandCompletion ev s = .ok () s') :
    (s' = s ∧ (s.cmdPending = false ∨ ev.parameter ≠ s.cmdTrbPhys)) ∨
      (s.cmdPending = true ∧ ev.parameter = s.cmdTrbPhys ∧ s'.cmdPending = false ∧ CommandTaken s' ev ∧
        s'.xferPending = s.xferPending ∧ s'.xferCode = s.xferCode ∧ s'.xferResidual = s.xferResidual) := by
  unfold xhcihcdHandleCommandCompletion at h
  obtain ⟨_, _, hget, h⟩ := Prog.bind_ok.mp h
  obtain ⟨rfl, rfl⟩ := Outcome.ok.inj hget
  split at h
  · next hc =>
    obtain ⟨-, rfl⟩ := Outcome.ok.inj h
    exact Or.inl ⟨rfl, hc⟩
  · next hc =>
    obtain ⟨-, rfl⟩ := Outcome.ok.inj h
    push Not at hc
    exact Or.inr ⟨by simpa using hc.1, hc.2, rfl, rfl, rfl, rfl, rfl⟩

/-- A transfer event of endpoint 0. -/
theorem transferEvent_ep0 {cb : ℕ → Prog Xhci Unit} {ev : Trb} {s s' : Xhci} {slot : ℕ}
    (hslot : (xhciTrbGetSlot ev.control).toNat = slot) (hdci : (xhciEvtEpId ev.control).toNat = xhciDbEp0Target)
    (h : xhcihcdHandleTransferEvent cb ev s = .ok () s') :
    s' = s ∨ (s.xferPending slot = true ∧ s' =
      { s with
        xferCode := Function.update s.xferCode slot (xhciEvtCompCode ev.status)
        xferResidual := Function.update s.xferResidual slot (xhciEvtXferLen ev.status)
        xferPending := Function.update s.xferPending slot false }) := by
  unfold xhcihcdHandleTransferEvent at h
  obtain ⟨r, s₁, h₁, h⟩ := Prog.bind_ok.mp h
  have hret : ∀ {r : Option ℕ} {s₁ : Xhci}, (pure none : Prog Xhci (Option ℕ)) s = .ok r s₁ → r = none ∧ s₁ = s := by
    intro r s₁ h
    obtain ⟨rfl, rfl⟩ := Outcome.ok.inj h
    exact ⟨rfl, rfl⟩
  have hnone : r = none ∧ (s₁ = s ∨ (s.xferPending slot = true ∧ s₁ =
      { s with
        xferCode := Function.update s.xferCode slot (xhciEvtCompCode ev.status)
        xferResidual := Function.update s.xferResidual slot (xhciEvtXferLen ev.status)
        xferPending := Function.update s.xferPending slot false })) := by
    unfold xhcihcdTransferComplete at h₁
    obtain ⟨_, _, hget, h₁⟩ := Prog.bind_ok.mp h₁
    obtain ⟨rfl, rfl⟩ := Outcome.ok.inj hget
    simp only [hslot, hdci] at h₁
    split at h₁
    · obtain ⟨hr, hs⟩ := hret h₁
      exact ⟨hr, Or.inl hs⟩
    · cases hd : s.devices slot with
      | none =>
        simp only [hd] at h₁
        exact absurd h₁ Prog.panic_ne_ok
      | some b =>
        cases b with
        | false =>
          simp only [hd] at h₁
          obtain ⟨hr, hs⟩ := hret h₁
          exact ⟨hr, Or.inl hs⟩
        | true =>
          simp only [hd, if_true] at h₁
          split at h₁
          · obtain ⟨hr, hs⟩ := hret h₁
            exact ⟨hr, Or.inl hs⟩
          · next hp =>
            obtain ⟨_, s₂, hmod, h₁⟩ := Prog.bind_ok.mp h₁
            obtain ⟨-, e₂⟩ := Outcome.ok.inj hmod
            obtain ⟨rfl, rfl⟩ := Outcome.ok.inj h₁
            exact ⟨rfl, Or.inr ⟨by simpa using hp, e₂.symm⟩⟩
  obtain ⟨rfl, hs₁⟩ := hnone
  obtain ⟨-, rfl⟩ := Outcome.ok.inj h
  exact hs₁

/-- While the device has a transfer pending, the event is taken. -/
theorem transferEvent_taken {cb : ℕ → Prog Xhci Unit} {ev : Trb} {s : Xhci} {slot : ℕ}
    (hslot : (xhciTrbGetSlot ev.control).toNat = slot) (hdci : (xhciEvtEpId ev.control).toNat = xhciDbEp0Target)
    (hs : slot ≠ 0 ∧ slot ≤ xhciMaxSlotsSupported) (hdev : s.devices slot = some true)
    (hp : s.xferPending slot = true) :
    xhcihcdHandleTransferEvent cb ev s = .ok ()
      { s with
        xferCode := Function.update s.xferCode slot (xhciEvtCompCode ev.status)
        xferResidual := Function.update s.xferResidual slot (xhciEvtXferLen ev.status)
        xferPending := Function.update s.xferPending slot false } := by
  unfold xhcihcdHandleTransferEvent xhcihcdTransferComplete
  simp only [Prog.bind_run, Prog.get_run, Outcome.andThen_ok, hslot, hdci]
  rw [if_neg (by omega)]
  simp only [hdev, if_true]
  rw [if_neg (by rw [hp]; exact fun e => nomatch e)]
  rfl

theorem dispatch_command {cb : ℕ → Prog Xhci Unit} {ev : Trb} {s s' : Xhci}
    (ht : xhciTrbType ev.control = xhciTrbCmdCompletion)
    (h : dispatchEvent (xhciHandlers cb) ev.control ev s = .ok () s') :
    xhcihcdHandleCommandCompletion ev s = .ok () s' := by
  have hk : eventKind ev.control = .commandCompletion := by
    unfold eventKind
    rw [ht]
    decide
  unfold dispatchEvent at h
  rw [hk] at h
  exact h

theorem dispatch_transfer {cb : ℕ → Prog Xhci Unit} {ev : Trb} {s s' : Xhci}
    (ht : xhciTrbType ev.control = xhciTrbTransferEvent)
    (h : dispatchEvent (xhciHandlers cb) ev.control ev s = .ok () s') :
    xhcihcdHandleTransferEvent cb ev s = .ok () s' := by
  have hk : eventKind ev.control = .transfer := by
    unfold eventKind
    rw [ht]
    decide
  unfold dispatchEvent at h
  rw [hk] at h
  exact h

/-! ## One channel

Commands form one channel, and the control transfers of each device another one. -/

/-- At most one call waits; while its flag is pending only its own event can be taken; after that the completion
state is the one of its event. -/
structure Channel (waits : ℕ → Prop) (pending : Bool) (Matches Taken : ℕ → Prop) : Prop where
  one : ∀ i j, waits i → waits j → i = j
  pend : pending = true → ∃ i, waits i ∧ ∀ j, Matches j → j = i
  done : ∀ i, waits i → pending = false → Taken i

namespace Channel
variable {waits waits' : ℕ → Prop} {pending pending' : Bool} {Matches Matches' Taken Taken' : ℕ → Prop}

theorem frame (h : Channel waits pending Matches Taken) (hw : ∀ i, waits' i ↔ waits i) (hp : pending' = pending)
    (hm : ∀ j, Matches' j → Matches j) (ht : ∀ i, Taken i → Taken' i) : Channel waits' pending' Matches' Taken' where
  one i j hi hj := h.one i j ((hw i).mp hi) ((hw j).mp hj)
  pend hpend := by
    rw [hp] at hpend
    obtain ⟨i, hi, hall⟩ := h.pend hpend
    exact ⟨i, (hw i).mpr hi, fun j hj => hall j (hm j hj)⟩
  done i hi hpend := ht i (h.done i ((hw i).mp hi) (hp ▸ hpend))

/-- A call is entered on a clear channel. -/
theorem enter {n : ℕ} (hw : ∀ i, waits' i → i = n) (hn : waits' n) (hm : ∀ j, Matches' j → j = n) :
    Channel waits' true Matches' Taken' where
  one i j hi hj := (hw i hi).trans (hw j hj).symm
  pend _ := ⟨n, hn, hm⟩
  done _ _ hf := nomatch hf

/-- An event was taken: it was the one of the call that waits. -/
theorem taken (h : Channel waits true Matches Taken) (id : ℕ) (hid : Matches id) (hw : ∀ i, waits' i ↔ waits i)
    (ht : Taken' id) : Channel waits' false Matches' Taken' where
  one i j hi hj := h.one i j ((hw i).mp hi) ((hw j).mp hj)
  pend hf := nomatch hf
  done i hi _ := by
    obtain ⟨k, hk, hall⟩ := h.pend rfl
    have e : i = id := (h.one i k ((hw i).mp hi) hk).trans (hall id hid).symm
    rw [e]
    exact ht

/-- The only call leaves. -/
theorem leave (h : Channel waits pending Matches Taken) {id : ℕ} (hid : waits id)
    (hw : ∀ i, waits' i → waits i ∧ i ≠ id) : Channel waits' false Matches' Taken' where
  one i j hi hj := h.one i j (hw i hi).1 (hw j hj).1
  pend hf := nomatch hf
  done i hi _ := absurd (h.one i id (hw i hi).1 hid) (hw i hi).2

end Channel

def CommandChannel (a : CompletionSystem) : Prop :=
  Channel (fun i => a.waiting i = some .command) a.hc.cmdPending
    (fun j => (j, ReportingTrb.command a.hc.cmdTrbPhys) ∈ a.owed)
    fun i => ∃ ev, a.cmdFrom = some (i, ev) ∧ CommandTaken a.hc ev

def ControlChannel (a : CompletionSystem) (slot : ℕ) : Prop :=
  Channel (fun i => a.waiting i = some (.control slot)) (a.hc.xferPending slot)
    (fun j => ∃ phys, (j, ReportingTrb.control slot phys) ∈ a.owed)
    fun i => ∃ ev, a.xferFrom slot = some (i, ev) ∧ ControlTaken a.hc slot ev

structure CompletionInv (a : CompletionSystem) : Prop where
  command : CommandChannel a
  control : ∀ slot, ControlChannel a slot
  fresh : ∀ i, a.next ≤ i → a.waiting i = none

theorem CompletionInv.attributed {a : CompletionSystem} (h : CompletionInv a) : Attributed a where
  command id hw hp := h.command.done id hw hp
  control id slot hw hp := (h.control slot).done id hw hp

theorem CompletionInv.start {hc : Xhci} (hcmd : hc.cmdPending = false) (hxfer : ∀ slot, hc.xferPending slot = false) :
    CompletionInv (CompletionSystem.start hc) where
  command := by
    refine ⟨(fun i j hi => nomatch hi), fun hp => ?_, (fun i hi => nomatch hi)⟩
    rw [show (CompletionSystem.start hc).hc.cmdPending = false from hcmd] at hp
    cases hp
  control slot := by
    refine ⟨(fun i j hi => nomatch hi), fun hp => ?_, (fun i hi => nomatch hi)⟩
    rw [show (CompletionSystem.start hc).hc.xferPending slot = false from hxfer slot] at hp
    cases hp
  fresh _ _ := rfl

namespace CompletionInv
variable {a : CompletionSystem}

theorem waiting_enter (h : CompletionInv a) {hc : Xhci} {kind k : CallKind} {t : ReportingTrb}
    (hne : k ≠ kind) (i : ℕ) :
    (a.enter hc kind t).waiting i = some k ↔ a.waiting i = some k := by
  show Function.update a.waiting a.next (some kind) i = some k ↔ _
  by_cases hi : i = a.next
  · rw [hi, Function.update_self, h.fresh a.next le_rfl]
    exact iff_of_false (fun e => hne (Option.some.inj e).symm) fun e => nomatch e
  · rw [Function.update_of_ne hi]

theorem fresh_enter (h : CompletionInv a) {hc : Xhci} {kind : CallKind} {t : ReportingTrb} (i : ℕ)
    (hi : (a.enter hc kind t).next ≤ i) : (a.enter hc kind t).waiting i = none := by
  have hi' : a.next + 1 ≤ i := hi
  show Function.update a.waiting a.next (some kind) i = none
  rw [Function.update_of_ne (by omega)]
  exact h.fresh i (by omega)

theorem fresh_leave (h : CompletionInv a) {hc : Xhci} {id : ℕ} (i : ℕ) (hi : a.next ≤ i) :
    (a.leave hc id).waiting i = none := by
  show Function.update a.waiting id none i = none
  by_cases e : i = id
  · rw [e, Function.update_self]
  · rw [Function.update_of_ne e]
    exact h.fresh i hi

theorem waiting_leave {hc : Xhci} {id : ℕ} {k : CallKind} {i : ℕ} (hi : (a.leave hc id).waiting i = some k) :
    a.waiting i = some k ∧ i ≠ id := by
  have hi' : Function.update a.waiting id none i = some k := hi
  by_cases e : i = id
  · rw [e, Function.update_self] at hi'
    cases hi'
  · rw [Function.update_of_ne e] at hi'
    exact ⟨hi', e⟩

theorem waiting_leave_ne {hc : Xhci} {id : ℕ} {k k' : CallKind} (hid : a.waiting id = some k') (hne : k ≠ k') (i : ℕ) :
    (a.leave hc id).waiting i = some k ↔ a.waiting i = some k := by
  refine ⟨fun hi => (waiting_leave hi).1, fun hi => ?_⟩
  show Function.update a.waiting id none i = some k
  rw [Function.update_of_ne]
  · exact hi
  · intro e
    rw [e, hid] at hi
    exact hne (Option.some.inj hi).symm

theorem owed_enter {hc : Xhci} {kind : CallKind} {t u : ReportingTrb} {j : ℕ}
    (hj : (j, u) ∈ (a.enter hc kind t).owed) : (j, u) ∈ a.owed ∨ (j = a.next ∧ u = t) := by
  rcases List.mem_append.mp hj with hj | hj
  · exact Or.inl hj
  · obtain ⟨e₁, e₂⟩ := Prod.mk.inj (List.mem_singleton.mp hj)
    exact Or.inr ⟨e₁, e₂⟩

/-! ## Steps -/

theorem enter_command (h : CompletionInv a) {trb : Trb} {hc : Xhci} (hclear : a.CommandClear)
    (hrun : xhcihcdCommandExecute trb a.hc = .ok () hc) :
    CompletionInv (a.enter hc .command (.command a.hc.cmdRing.enqueueAddress)) := by
  unfold xhcihcdCommandExecute at hrun
  obtain ⟨_, _, hget, hrun⟩ := Prog.bind_ok.mp hrun
  obtain ⟨rfl, rfl⟩ := Outcome.ok.inj hget
  split at hrun
  · exact absurd hrun Prog.panic_ne_ok
  · obtain ⟨-, rfl⟩ := Outcome.ok.inj hrun
    refine ⟨?_, ?_, fun i hi => h.fresh_enter i hi⟩
    · refine Channel.enter (n := a.next) ?_ (Function.update_self _ _ _) ?_
      · intro i hi
        have hi' : Function.update a.waiting a.next (some CallKind.command) i = some .command := hi
        by_contra hne
        rw [Function.update_of_ne hne] at hi'
        exact hclear.1 i hi'
      · intro j hj
        rcases owed_enter hj with hj | ⟨e, -⟩
        · exact absurd hj (hclear.2 j)
        · exact e
    · intro slot
      refine (h.control slot).frame (h.waiting_enter (fun e => nomatch e)) rfl ?_ fun i hi => hi
      rintro j ⟨phys, hj⟩
      rcases owed_enter hj with hj | ⟨-, e⟩
      · exact ⟨phys, hj⟩
      · cases e

theorem enter_control (h : CompletionInv a) {slot : ℕ} {setup : SetupPacket} {buffer : ℕ} {length : BitVec 16}
    (hclear : a.ControlClear slot) (phys : ℕ) :
    CompletionInv (a.enter (xhcihcdControlTransferHw slot setup buffer length a.hc) (.control slot)
      (.control slot phys)) := by
  refine ⟨?_, ?_, fun i hi => h.fresh_enter i hi⟩
  · refine h.command.frame (h.waiting_enter (fun e => nomatch e)) rfl ?_ fun i hi => hi
    intro j hj
    rcases owed_enter hj with hj | ⟨-, e⟩
    · exact hj
    · cases e
  · intro slot'
    by_cases hs : slot' = slot
    · subst hs
      have hpend : (xhcihcdControlTransferHw slot' setup buffer length a.hc).xferPending slot' = true :=
        Function.update_self _ _ _
      unfold ControlChannel
      rw [show (a.enter (xhcihcdControlTransferHw slot' setup buffer length a.hc) (.control slot')
        (.control slot' phys)).hc.xferPending slot' = true from hpend]
      refine Channel.enter (n := a.next) ?_ (Function.update_self _ _ _) ?_
      · intro i hi
        have hi' : Function.update a.waiting a.next (some (CallKind.control slot')) i = some (.control slot') := hi
        by_contra hne
        rw [Function.update_of_ne hne] at hi'
        exact hclear.1 i hi'
      · rintro j ⟨p, hj⟩
        rcases owed_enter hj with hj | ⟨e, -⟩
        · exact absurd hj (hclear.2 j p)
        · exact e
    · have hkeep : ∀ {β : Type} (f : ℕ → β) (x : β), Function.update f slot x slot' = f slot' := fun f x =>
        Function.update_of_ne hs x f
      refine (h.control slot').frame (h.waiting_enter fun e => hs (CallKind.control.inj e)) (hkeep _ _) ?_ ?_
      · rintro j ⟨p, hj⟩
        rcases owed_enter hj with hj | ⟨-, e⟩
        · exact ⟨p, hj⟩
        · exact absurd (ReportingTrb.control.inj e).1 hs
      · rintro i ⟨ev, hfrom, hcode, hres⟩
        exact ⟨ev, hfrom, (hkeep _ _).trans hcode, (hkeep _ _).trans hres⟩

theorem erase_owed {id j : ℕ} {t u : ReportingTrb} (hj : (j, u) ∈ a.owed.erase (id, t)) : (j, u) ∈ a.owed :=
  List.mem_of_mem_erase hj

theorem event_command (h : CompletionInv a) {id phys : ℕ} {ev : Trb} {hc : Xhci}
    (howed : (id, ReportingTrb.command phys) ∈ a.owed) (hparam : ev.parameter = phys)
    (hrun : xhcihcdHandleCommandCompletion ev a.hc = .ok () hc) :
    CompletionInv (a.afterEvent hc id (.command phys) ev) := by
  rcases commandCompletion_spec hrun with ⟨rfl, -⟩ | ⟨hp, hphys, hp', htaken, hxp, hxc, hxr⟩
  · have hc' : ¬(a.hc.cmdPending = true ∧ a.hc.cmdPending = false) := fun e => by
      rw [e.1] at e
      exact nomatch e.2
    refine ⟨h.command.frame (fun _ => Iff.rfl) rfl (fun j hj => erase_owed hj) ?_, fun slot => ?_, h.fresh⟩
    · rintro i ⟨e, hfrom, ht⟩
      refine ⟨e, ?_, ht⟩
      show (if _ then _ else _) = _
      rw [if_neg hc']
      exact hfrom
    · refine (h.control slot).frame (fun _ => Iff.rfl) rfl (fun j hj => ?_) ?_
      · obtain ⟨p, hj⟩ := hj
        exact ⟨p, erase_owed hj⟩
      · rintro i ⟨e, hfrom, ht⟩
        refine ⟨e, ?_, ht⟩
        show (if _ then _ else _) = _
        rw [if_neg]
        · exact hfrom
        · rintro ⟨e1, e2⟩
          rw [e1] at e2
          cases e2
  · refine ⟨?_, fun slot => ?_, h.fresh⟩
    · have hch := h.command
      unfold CommandChannel at hch ⊢
      rw [hp] at hch
      rw [show (a.afterEvent hc id (.command phys) ev).hc.cmdPending = false from hp']
      refine hch.taken id ?_ (fun _ => Iff.rfl) ⟨ev, ?_, htaken⟩
      · rw [← hphys, hparam]
        exact howed
      · show (if _ then _ else _) = _
        rw [if_pos ⟨hp, hp'⟩]
    · refine (h.control slot).frame (fun _ => Iff.rfl) (congrFun hxp slot) (fun j hj => ?_) ?_
      · obtain ⟨p, hj⟩ := hj
        exact ⟨p, erase_owed hj⟩
      · rintro i ⟨e, hfrom, hcode, hres⟩
        refine ⟨e, ?_, (congrFun hxc slot).trans hcode, (congrFun hxr slot).trans hres⟩
        show (if _ then _ else _) = _
        rw [if_neg]
        · exact hfrom
        · rintro ⟨e1, e2⟩
          rw [congrFun hxp slot, e1] at e2
          cases e2

theorem event_control (h : CompletionInv a) {cb : ℕ → Prog Xhci Unit} {id slot phys : ℕ} {ev : Trb} {hc : Xhci}
    (howed : (id, ReportingTrb.control slot phys) ∈ a.owed) (hslot : (xhciTrbGetSlot ev.control).toNat = slot)
    (hdci : (xhciEvtEpId ev.control).toNat = xhciDbEp0Target)
    (hrun : xhcihcdHandleTransferEvent cb ev a.hc = .ok () hc) :
    CompletionInv (a.afterEvent hc id (.control slot phys) ev) := by
  have hcmdp : hc.cmdPending = a.hc.cmdPending ∧ hc.cmdTrbPhys = a.hc.cmdTrbPhys ∧
      xhcihcdCommandResult hc = xhcihcdCommandResult a.hc := by
    rcases transferEvent_ep0 hslot hdci hrun with rfl | ⟨-, rfl⟩
    · exact ⟨rfl, rfl, rfl⟩
    · exact ⟨rfl, rfl, rfl⟩
  obtain ⟨hcmdp, hcmdt, hcmdr⟩ := hcmdp
  have hcmd : CommandChannel (a.afterEvent hc id (.control slot phys) ev) := by
    refine h.command.frame (fun _ => Iff.rfl) hcmdp (fun j hj => ?_) ?_
    · have hj' : (j, ReportingTrb.command hc.cmdTrbPhys) ∈ a.owed.erase (id, .control slot phys) := hj
      rw [hcmdt] at hj'
      exact erase_owed hj'
    · rintro i ⟨e, hfrom, ht⟩
      refine ⟨e, ?_, hcmdr.trans ht⟩
      show (if _ then _ else _) = _
      rw [if_neg]
      · exact hfrom
      · rintro ⟨e1, e2⟩
        rw [hcmdp, e1] at e2
        cases e2
  -- a channel whose pending flag and completion state are as before
  have hquiet : ∀ slot', hc.xferPending slot' = a.hc.xferPending slot' → hc.xferCode slot' = a.hc.xferCode slot' →
      hc.xferResidual slot' = a.hc.xferResidual slot' →
      ControlChannel (a.afterEvent hc id (.control slot phys) ev) slot' := by
    intro slot' hp hcode hres
    refine (h.control slot').frame (fun _ => Iff.rfl) hp (fun j hj => ?_) ?_
    · obtain ⟨p, hj⟩ := hj
      exact ⟨p, erase_owed hj⟩
    · rintro i ⟨e, hfrom, hc1, hc2⟩
      refine ⟨e, ?_, hcode.trans hc1, hres.trans hc2⟩
      show (if _ then _ else _) = _
      rw [if_neg]
      · exact hfrom
      · rintro ⟨e1, e2⟩
        rw [hp, e1] at e2
        cases e2
  refine ⟨hcmd, fun slot' => ?_, h.fresh⟩
  rcases transferEvent_ep0 hslot hdci hrun with rfl | ⟨hp, hhc⟩
  · exact hquiet slot' rfl rfl rfl
  · by_cases hs : slot' = slot
    · subst hs
      have hp' : hc.xferPending slot' = false := by
        rw [hhc]
        exact Function.update_self _ _ _
      have hch := h.control slot'
      unfold ControlChannel at hch ⊢
      rw [hp] at hch
      rw [show (a.afterEvent hc id (.control slot' phys) ev).hc.xferPending slot' = false from hp']
      refine hch.taken id ⟨phys, howed⟩ (fun _ => Iff.rfl) ⟨ev, ?_, ?_, ?_⟩
      · show (if _ then _ else _) = _
        rw [if_pos ⟨hp, hp'⟩]
      · show hc.xferCode slot' = _
        rw [hhc]
        exact Function.update_self _ _ _
      · show hc.xferResidual slot' = _
        rw [hhc]
        exact Function.update_self _ _ _
    · rw [hhc] at hquiet ⊢
      exact hquiet slot' (Function.update_of_ne hs _ _) (Function.update_of_ne hs _ _) (Function.update_of_ne hs _ _)

/-- The command call leaves, with the pending flag clear. -/
theorem leave_command (h : CompletionInv a) {id : ℕ} {hc : Xhci} (hw : a.waiting id = some .command)
    (hp : hc.cmdPending = false) (hxp : hc.xferPending = a.hc.xferPending) (hxc : hc.xferCode = a.hc.xferCode)
    (hxr : hc.xferResidual = a.hc.xferResidual) : CompletionInv (a.leave hc id) := by
  refine ⟨?_, fun slot => ?_, fun i hi => h.fresh_leave i hi⟩
  · unfold CommandChannel
    rw [show (a.leave hc id).hc.cmdPending = false from hp]
    exact h.command.leave hw fun i hi => waiting_leave hi
  · refine (h.control slot).frame (waiting_leave_ne hw fun e => nomatch e) (congrFun hxp slot) (fun j hj => hj) ?_
    rintro i ⟨e, hfrom, hcode, hres⟩
    exact ⟨e, hfrom, (congrFun hxc slot).trans hcode, (congrFun hxr slot).trans hres⟩

/-- A control transfer leaves, with the pending flag of its device clear. -/
theorem leave_control (h : CompletionInv a) {id slot : ℕ} {hc : Xhci} (hw : a.waiting id = some (.control slot))
    (hp : hc.xferPending slot = false) (hxp : ∀ slot', slot' ≠ slot → hc.xferPending slot' = a.hc.xferPending slot')
    (hxc : hc.xferCode = a.hc.xferCode) (hxr : hc.xferResidual = a.hc.xferResidual)
    (hcp : hc.cmdPending = a.hc.cmdPending) (hct : hc.cmdTrbPhys = a.hc.cmdTrbPhys)
    (hcr : xhcihcdCommandResult hc = xhcihcdCommandResult a.hc) : CompletionInv (a.leave hc id) := by
  refine ⟨?_, fun slot' => ?_, fun i hi => h.fresh_leave i hi⟩
  · refine h.command.frame (waiting_leave_ne hw fun e => nomatch e) hcp (fun j hj => ?_) ?_
    · have hj' : (j, ReportingTrb.command hc.cmdTrbPhys) ∈ a.owed := hj
      rw [hct] at hj'
      exact hj'
    · rintro i ⟨e, hfrom, ht⟩
      exact ⟨e, hfrom, hcr.trans ht⟩
  · by_cases hs : slot' = slot
    · subst hs
      unfold ControlChannel
      rw [show (a.leave hc id).hc.xferPending slot' = false from hp]
      exact (h.control slot').leave hw fun i hi => waiting_leave hi
    · refine (h.control slot').frame (waiting_leave_ne hw fun e => hs (CallKind.control.inj e)) (hxp slot' hs)
        (fun j hj => hj) ?_
      rintro i ⟨e, hfrom, hcode, hres⟩
      exact ⟨e, hfrom, (congrFun hxc slot').trans hcode, (congrFun hxr slot').trans hres⟩

theorem step {cb : ℕ → Prog Xhci Unit} {careful : Prop} {b : CompletionSystem} (h : CompletionInv a)
    (hcareful : careful) (hstep : CompletionStep cb careful a b) : CompletionInv b := by
  cases hstep with
  | command trb hc hclear hrun => exact h.enter_command (hclear hcareful) hrun
  | control slot setup buffer length hdev hslot hclear => exact h.enter_control (hclear hcareful) _
  | event id t ev hc howed hev hrun =>
    cases t with
    | command phys => exact h.event_command howed hev.2 (dispatch_command hev.1 hrun)
    | control slot phys => exact h.event_control howed hev.2.2.1 hev.2.2.2 (dispatch_transfer hev.1 hrun)
  | commandTimeout id hw hp => exact h.leave_command hw rfl rfl rfl rfl
  | controlTimeout id slot hw hp =>
    exact h.leave_control hw (Function.update_self _ _ _) (fun _ hne => Function.update_of_ne hne _ _) rfl rfl rfl rfl
      rfl
  | commandReturns id hw hp => exact h.leave_command hw hp rfl rfl rfl
  | controlReturns id slot hw hp => exact h.leave_control hw hp (fun _ _ => rfl) rfl rfl rfl rfl rfl

end CompletionInv

/-- **Completion attribution.** When every call is entered on a clear path, every result taken from an event is the
one of the call's own TRB. -/
theorem completions_attributed (xferCbFunc : ℕ → Prog Xhci Unit) (hc : Xhci) (hcmd : hc.cmdPending = false)
    (hxfer : ∀ slot, hc.xferPending slot = false) (a : CompletionSystem)
    (hrun : CompletionRun xferCbFunc True (CompletionSystem.start hc) a) : Attributed a := by
  have hinv : CompletionInv a := by
    induction hrun with
    | refl => exact CompletionInv.start hcmd hxfer
    | tail _ hstep ih => exact ih.step trivial hstep
  exact hinv.attributed

/-! ## Two control transfers of one device -/

/-- `GET_DESCRIPTOR` of the device descriptor. -/
def getDeviceDescriptor : SetupPacket := ⟨0x01000680#32, 0x00120000#32⟩

/-- The Transfer Event of the Status Stage at `phys`: slot 1, endpoint 0, success. -/
def ep0Success (phys : ℕ) : Trb :=
  ⟨BitVec.ofNat 32 phys, BitVec.ofNat 32 (phys / 2 ^ 32), 0x01000000#32, 0x01018000#32⟩

theorem ep0Success_control : xhciTrbType 0x01018000#32 = xhciTrbTransferEvent ∧
    (xhciTrbGetSlot 0x01018000#32).toNat = 1 ∧ (xhciEvtEpId 0x01018000#32).toNat = xhciDbEp0Target := by decide

theorem ep0Success_reports {phys : ℕ} (h : phys < 2 ^ 64) : (ReportingTrb.control 1 phys).Reports (ep0Success phys) :=
  ⟨ep0Success_control.1, parameter_split h _ _, ep0Success_control.2⟩

theorem enqueueAddress_lt (r : ProducerRing) : r.enqueueAddress < 2 ^ 64 :=
  Nat.mod_lt _ (by unfold wordSize; positivity)

namespace CompletionSystem

/-- The keyboard is asked for its device descriptor. -/
def askKeyboard (a : CompletionSystem) : CompletionSystem :=
  a.enter (xhcihcdControlTransferHw 1 getDeviceDescriptor 0xFFFF800000200000 18#16 a.hc) (.control 1)
    (.control 1 (a.statusAddress 1 getDeviceDescriptor 0xFFFF800000200000 18#16))

/-- The event of the Status Stage at `phys` is taken. -/
def keyboardAnswers (a : CompletionSystem) (id phys : ℕ) : CompletionSystem :=
  a.afterEvent
    { a.hc with
      xferCode := Function.update a.hc.xferCode 1 (xhciEvtCompCode (ep0Success phys).status)
      xferResidual := Function.update a.hc.xferResidual 1 (xhciEvtXferLen (ep0Success phys).status)
      xferPending := Function.update a.hc.xferPending 1 false } id (.control 1 phys) (ep0Success phys)

theorem askKeyboard_step {cb : ℕ → Prog Xhci Unit} {careful : Prop} {a : CompletionSystem}
    (hdev : a.hc.devices 1 = some true) (hclear : careful → a.ControlClear 1) :
    CompletionStep cb careful a a.askKeyboard :=
  CompletionStep.control 1 _ _ _ hdev (by decide) hclear

theorem keyboardAnswers_step {cb : ℕ → Prog Xhci Unit} {careful : Prop} {a : CompletionSystem} {id phys : ℕ}
    (hdev : a.hc.devices 1 = some true) (hp : a.hc.xferPending 1 = true) (hphys : phys < 2 ^ 64)
    (howed : (id, ReportingTrb.control 1 phys) ∈ a.owed) :
    CompletionStep cb careful a (a.keyboardAnswers id phys) := by
  refine CompletionStep.event id _ (ep0Success phys) _ howed (ep0Success_reports hphys) ?_
  have hkind : eventKind (ep0Success phys).control = .transfer := by
    show eventKind 0x01018000#32 = .transfer
    decide
  unfold dispatchEvent
  rw [hkind]
  exact transferEvent_taken ep0Success_control.2.1 ep0Success_control.2.2 (by decide) hdev hp

theorem askKeyboard_pending (a : CompletionSystem) : a.askKeyboard.hc.xferPending 1 = true := by
  show Function.update a.hc.xferPending 1 true 1 = true
  rw [Function.update_self]

theorem keyboardAnswers_pending (a : CompletionSystem) (id phys : ℕ) :
    (a.keyboardAnswers id phys).hc.xferPending 1 = false := by
  show Function.update a.hc.xferPending 1 false 1 = false
  rw [Function.update_self]

theorem keyboardAnswers_from (a : CompletionSystem) (id phys : ℕ) (hp : a.hc.xferPending 1 = true) :
    (a.keyboardAnswers id phys).xferFrom 1 = some (id, ep0Success phys) := by
  have hcleared := keyboardAnswers_pending a id phys
  unfold keyboardAnswers afterEvent at hcleared ⊢
  exact if_pos ⟨hp, hcleared⟩

end CompletionSystem

open CompletionSystem in
/-- The keyboard answers. -/
theorem completions_attributed_keyboard : ∃ a, a.waiting 0 = some (.control 1) ∧ a.hc.xferPending 1 = false ∧
    Attributed a := by
  obtain ⟨a, ha⟩ : ∃ a, a = CompletionSystem.start keyboardHc := ⟨_, rfl⟩
  have h₁ : CompletionStep (fun _ => pure ()) True a a.askKeyboard := by
    rw [ha]
    refine askKeyboard_step rfl fun _ => ⟨(fun _ e => nomatch e), fun _ _ e => absurd e List.not_mem_nil⟩
  have h₂ : CompletionStep (fun _ => pure ()) True a.askKeyboard
      (a.askKeyboard.keyboardAnswers 0 (a.statusAddress 1 getDeviceDescriptor 0xFFFF800000200000 18#16)) :=
    keyboardAnswers_step (by rw [ha]; rfl) (askKeyboard_pending a) (enqueueAddress_lt _)
      (by rw [ha]; exact List.mem_cons_self)
  have hall := completions_attributed (fun _ => pure ()) keyboardHc rfl (fun _ => rfl) _
    (by rw [← ha]; exact (Relation.ReflTransGen.single h₁).tail h₂)
  exact ⟨_, by rw [ha]; rfl, keyboardAnswers_pending _ _ _, hall⟩

open CompletionSystem in
/-- The keyboard answers the first transfer when its caller has given up and the second one waits. -/
theorem late_completion_misattributed : ∃ a, CompletionRun (fun _ => pure ()) False
    (CompletionSystem.start keyboardHc) a ∧ ¬Attributed a := by
  obtain ⟨a, ha⟩ : ∃ a, a = CompletionSystem.start keyboardHc := ⟨_, rfl⟩
  obtain ⟨phys, hphys⟩ : ∃ phys, phys = a.statusAddress 1 getDeviceDescriptor 0xFFFF800000200000 18#16 := ⟨_, rfl⟩
  obtain ⟨b, hb⟩ : ∃ b, b = a.askKeyboard.leave (xhcihcdControlTimeout a.askKeyboard.hc 1) 0 := ⟨_, rfl⟩
  have h₁ : CompletionStep (fun _ => pure ()) False a a.askKeyboard := by
    rw [ha]
    exact askKeyboard_step rfl fun hf => hf.elim
  have h₂ : CompletionStep (fun _ => pure ()) False a.askKeyboard b := by
    rw [hb]
    exact CompletionStep.controlTimeout 0 1 (by rw [ha]; rfl) (askKeyboard_pending a)
  have h₃ : CompletionStep (fun _ => pure ()) False b b.askKeyboard := by
    refine askKeyboard_step ?_ fun hf => hf.elim
    rw [hb, ha]
    rfl
  have howed : (0, ReportingTrb.control 1 phys) ∈ b.askKeyboard.owed := by
    rw [hphys, hb, ha]
    exact List.mem_cons_self
  have h₄ : CompletionStep (fun _ => pure ()) False b.askKeyboard (b.askKeyboard.keyboardAnswers 0 phys) :=
    keyboardAnswers_step (by rw [hb, ha]; rfl) (askKeyboard_pending b) (by rw [hphys]; exact enqueueAddress_lt _)
      howed
  refine ⟨_, ((((Relation.ReflTransGen.single (ha ▸ h₁)).tail (ha ▸ h₂)).tail h₃).tail h₄), fun hall => ?_⟩
  have hw : (b.askKeyboard.keyboardAnswers 0 phys).waiting 1 = some (.control 1) := by
    rw [hb, ha]
    rfl
  obtain ⟨ev, hfrom, -⟩ := hall.control 1 1 hw (keyboardAnswers_pending _ _ _)
  have htaken := keyboardAnswers_from b.askKeyboard 0 phys (askKeyboard_pending b)
  rw [htaken] at hfrom
  exact absurd (Prod.mk.inj (Option.some.inj hfrom)).1 (by decide)

end Borgos.Usb
