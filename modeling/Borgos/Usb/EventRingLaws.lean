import Borgos.Foundations.LapRing
import Borgos.Usb.EventRing

/-! # The event ring over all interleavings -/
namespace Borgos.Usb
open Borgos.Foundations Borgos.Mem
set_option autoImplicit false

variable {D : Type}

/-- The event a position holds. -/
def EventEntry (written : List Trb) (k : ℕ) (t : Trb) : Prop :=
  ∃ ev, written[k]? = some ev ∧ t.payload = ev.payload

/-- The driver's pointer is at position `n`. -/
def EventSystem.At (a : EventSystem D) (n : ℕ) : Prop := a.eventDequeue = n % 256 ∧ a.eventCycle = lapPhase 256 n

/-- What holds at each stage of the drain loop when `n` events have been dispatched. -/
def DrainInv (a : EventSystem D) (n : ℕ) : Prop :=
  match a.stage with
  | .idle => a.At n ∧ a.released = n
  | .test consumed => a.At n ∧ a.released + consumed = n
  | .dispatch control consumed => a.At n ∧ a.released + consumed = n ∧ n < a.written.length ∧
      control = (a.trbs (n % 256)).control
  | .advance consumed => ∃ m, n = m + 1 ∧ a.At m ∧ a.released + consumed = m
  | .finish consumed => a.At n ∧ a.released + consumed = n

/-- What a handler is called with. -/
def dispatchOf (ev : Trb) : EventKind × Trb := (eventKind ev.control, ev.payload)

structure EventInv (a : EventSystem D) : Prop where
  lapped : Lapped 256 Trb.cycle (EventEntry a.written) a.trbs a.dispatched.length a.written.length
  order : a.dispatched = (a.written.take a.dispatched.length).map dispatchOf
  enqueue : a.enqueue = a.written.length % 256
  pcs : a.pcs = lapPhase 256 a.written.length
  released : a.released ≤ a.dispatched.length
  room : a.written.length ≤ a.released + 256
  erdp : a.released ≠ 0 → a.erdp = a.entryAddress (a.released % 256) ||| xhciErdpEhb
  writing : ∀ ev, a.writing = some ev → a.written.length < a.released + 256 ∧
    (a.trbs (a.written.length % 256)).parameterLo = ev.parameterLo ∧
    (a.trbs (a.written.length % 256)).parameterHi = ev.parameterHi ∧
    (a.trbs (a.written.length % 256)).status = ev.status
  drain : DrainInv a a.dispatched.length

theorem EventInv.start (erVirt : ℕ) (dev : D) : EventInv (EventSystem.start erVirt dev) where
  lapped := by
    refine Lapped.start fun i _ => ?_
    show Trb.zero.cycle = false
    decide
  order := rfl
  enqueue := rfl
  pcs := (lapPhase_zero 256).symm
  released := le_rfl
  room := Nat.zero_le _
  erdp := fun h => absurd rfl h
  writing := fun _ h => nomatch h
  drain := ⟨⟨rfl, (lapPhase_zero 256).symm⟩, rfl⟩

namespace EventInv
variable {a : EventSystem D}

/-! ## The controller -/

theorem drain_frame {b : EventSystem D} {n : ℕ} (hstage : b.stage = a.stage) (hdeq : b.eventDequeue = a.eventDequeue)
    (hcyc : b.eventCycle = a.eventCycle) (hrel : b.released = a.released) (hlen : a.written.length ≤ b.written.length)
    (htrb : n < a.written.length → b.trbs (n % 256) = a.trbs (n % 256)) (h : DrainInv a n) : DrainInv b n := by
  have hat : ∀ m, a.At m → b.At m := by
    intro m hm
    unfold EventSystem.At
    rw [hdeq, hcyc]
    exact hm
  unfold DrainInv at h ⊢
  rw [hstage]
  cases hs : a.stage with
  | idle =>
    rw [hs] at h
    exact ⟨hat _ h.1, hrel.trans h.2⟩
  | test consumed =>
    rw [hs] at h
    exact ⟨hat _ h.1, by rw [hrel]; exact h.2⟩
  | dispatch control consumed =>
    rw [hs] at h
    obtain ⟨h1, h2, h3, h4⟩ := h
    exact ⟨hat _ h1, by rw [hrel]; exact h2, h3.trans_le hlen, by rw [htrb h3]; exact h4⟩
  | advance consumed =>
    rw [hs] at h
    obtain ⟨m, hm, h1, h2⟩ := h
    exact ⟨m, hm, hat _ h1, by rw [hrel]; exact h2⟩
  | finish consumed =>
    rw [hs] at h
    exact ⟨hat _ h.1, by rw [hrel]; exact h.2⟩

theorem entry_append {written : List Trb} (ev : Trb) {k : ℕ} {t : Trb} (h : EventEntry written k t) :
    EventEntry (written ++ [ev]) k t := by
  obtain ⟨e, he, hp⟩ := h
  refine ⟨e, ?_, hp⟩
  rw [List.getElem?_append_left (List.getElem?_eq_some_iff.mp he).1]
  exact he

theorem write (h : EventInv a) (ev : Trb) (hroom : a.written.length < a.released + 256) :
    EventInv (a.writeEvent ev) := by
  have hrel := h.released
  have hself : (a.writeEvent ev).trbs (a.written.length % 256) =
      { ev with control := (a.trbs (a.written.length % 256)).control } := by
    unfold EventSystem.writeEvent
    rw [h.enqueue]
    exact Function.update_self _ _ _
  have hl := h.lapped.touch (x := { ev with control := (a.trbs (a.written.length % 256)).control }) (by omega) rfl
  have htrbs : (a.writeEvent ev).trbs = Function.update a.trbs (a.written.length % 256)
      { ev with control := (a.trbs (a.written.length % 256)).control } := by
    unfold EventSystem.writeEvent
    rw [h.enqueue]
  refine ⟨?_, h.order, h.enqueue, h.pcs, h.released, h.room, h.erdp, ?_, ?_⟩
  · rw [htrbs]
    exact hl
  · intro ev' hev
    have e : ev' = ev := (Option.some.inj hev).symm
    show _ ∧ ((a.writeEvent ev).trbs (a.written.length % 256)).parameterLo = _ ∧
      ((a.writeEvent ev).trbs (a.written.length % 256)).parameterHi = _ ∧
      ((a.writeEvent ev).trbs (a.written.length % 256)).status = _
    rw [hself, e]
    exact ⟨hroom, rfl, rfl, rfl⟩
  · show DrainInv (a.writeEvent ev) a.dispatched.length
    refine drain_frame (a := a) rfl rfl rfl rfl le_rfl ?_ h.drain
    intro hn
    rw [htrbs, Function.update_of_ne (slot_ne hn (by omega))]

theorem commit (h : EventInv a) {ev : Trb} (hev : a.writing = some ev) : EventInv (a.commitEvent ev) := by
  have hrel := h.released
  obtain ⟨hroom, hlo, hhi, hst⟩ := h.writing ev hev
  obtain ⟨p, hp⟩ : ∃ p, p = a.written.length := ⟨_, rfl⟩
  obtain ⟨x, hx⟩ : ∃ x : Trb, x = { a.trbs (p % 256) with control := withCycle ev.control a.pcs } := ⟨_, rfl⟩
  have henq := h.enqueue
  have hpcs := h.pcs
  have hlen : (a.commitEvent ev).written.length = p + 1 := by
    rw [hp]
    exact List.length_append
  rw [← hp] at hroom hlo hhi hst henq hpcs
  have htrbs : (a.commitEvent ev).trbs = Function.update a.trbs (p % 256) x := by
    unfold EventSystem.commitEvent
    rw [henq, hx]
  have hpay : x.payload = ev.payload := by
    rw [hx]
    unfold Trb.payload
    simp only [payload_withCycle, hlo, hhi, hst]
  have hcyc : x.cycle = lapPhase 256 p := by
    rw [hx, ← hpcs]
    exact cycle_withCycle _ _
  have hl := h.lapped
  rw [← hp] at hl
  have hget : (a.written ++ [ev])[p]? = some ev := by rw [hp, List.getElem?_concat_length]
  have hpush := (hl.mono fun k t _ _ hk => entry_append ev hk).push (by omega)
    (x := x) ⟨ev, hget, hpay⟩ hcyc
  refine ⟨?_, ?_, ?_, ?_, h.released, ?_, h.erdp, (fun _ hw => nomatch hw), ?_⟩
  · rw [htrbs, hlen]
    exact hpush
  · show a.dispatched = ((a.written ++ [ev]).take a.dispatched.length).map dispatchOf
    rw [List.take_append_of_le_length (hp ▸ hl.le)]
    exact h.order
  · rw [hlen, slot_succ (by decide), ← henq]
    rfl
  · rw [hlen, lapPhase_succ (by decide), ← henq, ← hpcs]
    rfl
  · rw [hlen]
    exact hroom
  · show DrainInv (a.commitEvent ev) a.dispatched.length
    refine drain_frame (a := a) rfl rfl rfl rfl (by rw [hlen, hp]; omega) ?_ h.drain
    intro hn
    rw [htrbs, Function.update_of_ne (slot_ne (hp ▸ hn) (by omega))]

/-! ## The driver -/

/-- At the top of the loop the cycle bit tells whether there is an event. -/
theorem test_iff (h : EventInv a) (hat : a.At a.dispatched.length) :
    a.current.cycle ≠ a.eventCycle ↔ a.dispatched.length = a.written.length := by
  unfold EventSystem.current
  rw [hat.1, hat.2, ne_eq, h.lapped.owned_iff (by decide)]
  have hle := h.lapped.le
  omega

theorem test (h : EventInv a) {consumed : ℕ} (hs : a.stage = .test consumed) : EventInv (a.testEntry consumed) := by
  have hd := h.drain
  unfold DrainInv at hd
  rw [hs] at hd
  refine ⟨h.lapped, h.order, h.enqueue, h.pcs, h.released, h.room, h.erdp, h.writing, ?_⟩
  have hle := h.lapped.le
  have htest := h.test_iff hd.1
  show DrainInv (a.testEntry consumed) a.dispatched.length
  by_cases hc : a.current.cycle ≠ a.eventCycle
  · have hb : a.testEntry consumed = { a with stage := .finish consumed } := by
      unfold EventSystem.testEntry
      rw [if_pos hc]
    rw [hb]
    exact hd
  · have hb : a.testEntry consumed = { a with stage := .dispatch a.current.control consumed } := by
      unfold EventSystem.testEntry
      rw [if_neg hc]
    rw [hb]
    rw [htest] at hc
    refine ⟨hd.1, hd.2, lt_of_le_of_ne hle hc, ?_⟩
    show a.current.control = (a.trbs (a.dispatched.length % 256)).control
    unfold EventSystem.current
    rw [hd.1.1]

/-- The event of the controller at the driver's position. -/
theorem current_event (h : EventInv a) {control : BitVec 32} {consumed : ℕ}
    (hs : a.stage = .dispatch control consumed) :
    ∃ ev, a.written[a.dispatched.length]? = some ev ∧ a.current.payload = ev.payload ∧
      eventKind control = eventKind ev.control := by
  have hd := h.drain
  unfold DrainInv at hd
  rw [hs] at hd
  obtain ⟨hat, -, hlt, hctrl⟩ := hd
  obtain ⟨⟨ev, hev, hpay⟩, -⟩ := h.lapped.unread _ le_rfl hlt
  have hcur : a.current = a.trbs (a.dispatched.length % 256) := by
    unfold EventSystem.current
    rw [hat.1]
  refine ⟨ev, hev, by rw [hcur]; exact hpay, ?_⟩
  have hc : (a.trbs (a.dispatched.length % 256)).control &&& ~~~xhciTrbCycle = ev.control &&& ~~~xhciTrbCycle :=
    congrArg Trb.control hpay
  have htype : xhciTrbType control = xhciTrbType ev.control := by
    rw [hctrl, ← type_payload, hc, type_payload]
  unfold eventKind
  rw [htype]

theorem dispatch (h : EventInv a) {control : BitVec 32} {consumed : ℕ} (hs : a.stage = .dispatch control consumed)
    (dev : D) : EventInv (a.afterDispatch control consumed dev) := by
  obtain ⟨ev, hev, hpay, hkind⟩ := h.current_event hs
  have hd := h.drain
  unfold DrainInv at hd
  rw [hs] at hd
  obtain ⟨hat, hcons, hlt, -⟩ := hd
  have hlen : (a.afterDispatch control consumed dev).dispatched.length = a.dispatched.length + 1 :=
    List.length_append
  refine ⟨?_, ?_, h.enqueue, h.pcs, ?_, h.room, h.erdp, h.writing, ?_⟩
  · rw [hlen]
    exact h.lapped.consume hlt
  · rw [hlen]
    show a.dispatched ++ [(eventKind control, a.current.payload)] =
      (a.written.take (a.dispatched.length + 1)).map dispatchOf
    rw [List.take_add_one, hev, List.map_append, ← h.order, hkind, hpay]
    rfl
  · rw [hlen]
    exact h.released.trans (Nat.le_succ _)
  · rw [hlen]
    exact ⟨a.dispatched.length, rfl, hat, hcons⟩

theorem advance (h : EventInv a) {consumed : ℕ} (hs : a.stage = .advance consumed) :
    EventInv (a.advanceEntry consumed) := by
  have hd := h.drain
  unfold DrainInv at hd
  rw [hs] at hd
  obtain ⟨m, hm, ⟨hdeq, hcyc⟩, hcons⟩ := hd
  refine ⟨h.lapped, h.order, h.enqueue, h.pcs, h.released, h.room, h.erdp, h.writing, ?_⟩
  show DrainInv (a.advanceEntry consumed) a.dispatched.length
  have hlt := Nat.mod_lt m (by decide : 0 < 256)
  have hlast : m % 256 + 1 ≥ xhciRingTrbs ↔ m % 256 + 1 = 256 := by
    unfold xhciRingTrbs pagesize xhciTrbSize
    omega
  refine ⟨⟨?_, ?_⟩, ?_⟩
  · show (if a.eventDequeue + 1 ≥ xhciRingTrbs then 0 else a.eventDequeue + 1) = a.dispatched.length % 256
    rw [hm, slot_succ (by decide), hdeq]
    simp only [hlast]
  · show (if a.eventDequeue + 1 ≥ xhciRingTrbs then !a.eventCycle else a.eventCycle) = lapPhase 256 a.dispatched.length
    rw [hm, lapPhase_succ (by decide), hdeq, hcyc]
    simp only [hlast]
  · show a.released + (consumed + 1) = a.dispatched.length
    omega

theorem finish (h : EventInv a) {consumed : ℕ} (hs : a.stage = .finish consumed) :
    EventInv (a.finishDrain consumed) := by
  have hd := h.drain
  unfold DrainInv at hd
  rw [hs] at hd
  obtain ⟨hat, hcons⟩ := hd
  have hle := h.lapped.room
  have hroom := h.room
  unfold EventSystem.finishDrain
  split
  · refine ⟨h.lapped, h.order, h.enqueue, h.pcs, le_rfl, hle, ?_, ?_, ⟨hat, rfl⟩⟩
    · intro _
      show a.entryAddress a.eventDequeue ||| xhciErdpEhb = a.entryAddress (a.dispatched.length % 256) ||| xhciErdpEhb
      rw [hat.1]
    · intro ev hev
      obtain ⟨hr, hfields⟩ := h.writing ev hev
      have hrel := h.released
      exact ⟨show a.written.length < a.dispatched.length + 256 by omega, hfields⟩
  · next hz =>
    have hrel : a.released = a.dispatched.length := by omega
    exact ⟨h.lapped, h.order, h.enqueue, h.pcs, h.released, h.room, h.erdp, h.writing, ⟨hat, hrel⟩⟩

theorem driver {handlers : EventHandlers D} {b : EventSystem D} (h : EventInv a) (hstep : DriverStep handlers a b) :
    EventInv b := by
  cases hstep with
  | enter hs =>
    have hd := h.drain
    unfold DrainInv at hd
    rw [hs] at hd
    exact ⟨h.lapped, h.order, h.enqueue, h.pcs, h.released, h.room, h.erdp, h.writing, hd⟩
  | test consumed hs => exact h.test hs
  | dispatch control consumed dev hs _ => exact h.dispatch hs dev
  | advance consumed hs => exact h.advance hs
  | finish consumed hs => exact h.finish hs

end EventInv

theorem EventRun.inv {handlers : EventHandlers D} {erVirt : ℕ} {dev : D} {a : EventSystem D}
    (hrun : EventRun handlers (EventSystem.start erVirt dev) a) : EventInv a := by
  induction hrun with
  | refl => exact EventInv.start erVirt dev
  | @tail a b _ hstep ih =>
    cases hstep with
    | driver _ hd => exact ih.driver hd
    | write ev _ hroom => exact ih.write ev hroom
    | commit ev hev => exact ih.commit hev

/-! ## The handlers -/

/-- From `dev`, the handlers were called on the events, once each and in turn, and on nothing else: the handler of
transfer events, type 32, the one of command completions, type 33, and none for other events. -/
inductive Handled (handlers : EventHandlers D) (dev : D) : List Trb → D → Prop
  | nil : Handled handlers dev [] dev
  | transfer {evs : List Trb} {ev trb : Trb} {before after : D} (h : Handled handlers dev evs before)
      (htype : ev.type = 32#6) (hsame : trb.payload = ev.payload)
      (hcall : handlers.handleTransferEvent trb before = .ok () after) : Handled handlers dev (evs ++ [ev]) after
  | command {evs : List Trb} {ev trb : Trb} {before after : D} (h : Handled handlers dev evs before)
      (htype : ev.type = 33#6) (hsame : trb.payload = ev.payload)
      (hcall : handlers.handleCommandCompletion trb before = .ok () after) : Handled handlers dev (evs ++ [ev]) after
  | other {evs : List Trb} {ev : Trb} {now : D} (h : Handled handlers dev evs now)
      (htransfer : ev.type ≠ 32#6) (hcommand : ev.type ≠ 33#6) : Handled handlers dev (evs ++ [ev]) now

/-- A dispatch that returns is a call of the handler of the event's type. -/
theorem Handled.dispatch {handlers : EventHandlers D} {dev before after : D} {evs : List Trb} {ev trb : Trb}
    {control : BitVec 32} (h : Handled handlers dev evs before) (hkind : eventKind control = eventKind ev.control)
    (hsame : trb.payload = ev.payload) (hrun : dispatchEvent handlers control trb before = .ok () after) :
    Handled handlers dev (evs ++ [ev]) after := by
  have htransfer := xhciTrbType_eq_iff ev 32#6
  have hcommand := xhciTrbType_eq_iff ev 33#6
  unfold dispatchEvent at hrun
  rw [hkind] at hrun
  unfold eventKind at hrun
  split_ifs at hrun with h32 h33 h34 h37
  · exact .transfer h (htransfer.mp h32) hsame hrun
  · exact .command h (hcommand.mp h33) hsame hrun
  · cases hrun
  · cases hrun
  · cases hrun
    exact .other h (fun e => h32 (htransfer.mpr e)) fun e => h33 (hcommand.mpr e)

theorem EventRun.handled {handlers : EventHandlers D} {erVirt : ℕ} {dev : D} {a : EventSystem D}
    (hrun : EventRun handlers (EventSystem.start erVirt dev) a) :
    Handled handlers dev (a.written.take a.dispatched.length) a.dev := by
  induction hrun with
  | refl => exact .nil
  | @tail a b hbefore hstep ih =>
    have hinv := EventRun.inv hbefore
    cases hstep with
    | driver _ hd =>
      cases hd with
      | enter hs => exact ih
      | test consumed hs => exact ih
      | dispatch control consumed dev' hs hcall =>
        obtain ⟨ev, hev, hpay, hkind⟩ := hinv.current_event hs
        have htake : a.written.take (a.dispatched.length + 1) = a.written.take a.dispatched.length ++ [ev] := by
          rw [List.take_add_one, hev]
          rfl
        have hlen : (a.afterDispatch control consumed dev').dispatched.length = a.dispatched.length + 1 :=
          List.length_append
        rw [hlen]
        show Handled handlers dev (a.written.take (a.dispatched.length + 1)) dev'
        rw [htake]
        exact ih.dispatch hkind hpay hcall
      | advance consumed hs => exact ih
      | finish consumed hs =>
        have hsame : (a.finishDrain consumed).written = a.written ∧ (a.finishDrain consumed).dispatched = a.dispatched ∧
            (a.finishDrain consumed).dev = a.dev := by
          unfold EventSystem.finishDrain
          split <;> exact ⟨rfl, rfl, rfl⟩
        rw [hsame.1, hsame.2.1, hsame.2.2]
        exact ih
    | write ev _ _ => exact ih
    | commit ev _ =>
      show Handled handlers dev ((a.written ++ [ev]).take a.dispatched.length) a.dev
      rw [List.take_append_of_le_length hinv.lapped.le]
      exact ih

/-! ## The discipline -/

def DriverRun (handlers : EventHandlers D) : EventSystem D → EventSystem D → Prop :=
  Relation.ReflTransGen (DriverStep handlers)

/-- The handlers return for the events written so far. -/
def Returning (handlers : EventHandlers D) (written : List Trb) : Prop :=
  ∀ ev ∈ written, ∀ control trb dev, eventKind control = eventKind ev.control →
    ∃ dev', dispatchEvent handlers control trb dev = .ok () dev'

/-- What holds in every state that is reached from the driver's state `dev`: the handlers were called on the first
events written, once each, in order and each event to the handler of its type; the loop ends exactly at the first entry
that is not written; between calls ERDP points at the next unread entry; and a call that is not disturbed hands
everything there is to the handlers. -/
structure EventDiscipline (handlers : EventHandlers D) (dev : D) (a : EventSystem D) : Prop where
  order : a.dispatched = (a.written.take a.dispatched.length).map dispatchOf
  handled : Handled handlers dev (a.written.take a.dispatched.length) a.dev
  dequeue : a.eventDequeue < 256
  stops : ∀ consumed, a.stage = .test consumed →
    ((a.testEntry consumed).stage = .finish consumed ↔ a.dispatched.length = a.written.length)
  erdp : a.stage = .idle → a.dispatched ≠ [] →
    a.erdp = a.entryAddress (a.dispatched.length % 256) ||| xhciErdpEhb
  drains : ∀ consumed, a.stage = .test consumed → Returning handlers a.written →
    ∃ b, DriverRun handlers a b ∧ b.stage = .idle ∧ b.dispatched = a.written.map dispatchOf ∧
      Handled handlers dev a.written b.dev

namespace EventInv
variable {a : EventSystem D}

theorem eventDequeue_lt (h : EventInv a) : a.eventDequeue < 256 := by
  have hd := h.drain
  have hat : ∃ m, a.At m := by
    unfold DrainInv at hd
    cases hs : a.stage with
    | idle =>
      rw [hs] at hd
      exact ⟨_, hd.1⟩
    | test consumed =>
      rw [hs] at hd
      exact ⟨_, hd.1⟩
    | dispatch control consumed =>
      rw [hs] at hd
      exact ⟨_, hd.1⟩
    | advance consumed =>
      rw [hs] at hd
      obtain ⟨m, -, hm, -⟩ := hd
      exact ⟨m, hm⟩
    | finish consumed =>
      rw [hs] at hd
      exact ⟨_, hd.1⟩
  obtain ⟨m, hm⟩ := hat
  rw [hm.1]
  exact Nat.mod_lt m (by decide)

theorem stops (h : EventInv a) {consumed : ℕ} (hs : a.stage = .test consumed) :
    (a.testEntry consumed).stage = .finish consumed ↔ a.dispatched.length = a.written.length := by
  have hd := h.drain
  unfold DrainInv at hd
  rw [hs] at hd
  rw [← h.test_iff hd.1]
  show (if a.current.cycle ≠ a.eventCycle then DrainStage.finish consumed
    else DrainStage.dispatch a.current.control consumed) = .finish consumed ↔ _
  split
  · next hc => exact iff_of_true rfl hc
  · next hc => exact iff_of_false (fun e => nomatch e) hc

/-- One round of the loop for each event that is left. -/
theorem drains {handlers : EventHandlers D} : ∀ (n : ℕ) {a : EventSystem D} {consumed : ℕ}, EventInv a →
    a.stage = .test consumed → a.written.length = a.dispatched.length + n → Returning handlers a.written →
    ∃ b, DriverRun handlers a b ∧ b.stage = .idle ∧ b.dispatched = a.written.map dispatchOf
  | 0, a, consumed, h, hs, hn, _ => by
    have hfin := (h.stops hs).mpr hn.symm
    have hstep : DriverStep handlers a (a.testEntry consumed) := DriverStep.test consumed hs
    refine ⟨(a.testEntry consumed).finishDrain consumed,
      (Relation.ReflTransGen.single hstep).tail (DriverStep.finish consumed hfin), ?_, ?_⟩
    · unfold EventSystem.finishDrain
      split
      · rfl
      · rfl
    · have hsame : ((a.testEntry consumed).finishDrain consumed).dispatched = a.dispatched := by
        unfold EventSystem.finishDrain
        split
        · rfl
        · rfl
      rw [hsame, h.order, ← hn.trans (Nat.add_zero _), List.take_length]
  | n + 1, a, consumed, h, hs, hn, hret => by
    have hgo : ¬(a.testEntry consumed).stage = .finish consumed := by
      rw [h.stops hs]
      omega
    have hstage : (a.testEntry consumed).stage = .dispatch a.current.control consumed := by
      have hdef : (a.testEntry consumed).stage = if a.current.cycle ≠ a.eventCycle then .finish consumed
        else .dispatch a.current.control consumed := rfl
      rw [hdef] at hgo ⊢
      split at hgo
      · exact absurd rfl hgo
      · next hc => rw [if_neg hc]
    have h₁ := h.test hs
    obtain ⟨ev, hev, -, hkind⟩ := h₁.current_event hstage
    obtain ⟨dev, hdev⟩ := hret ev (List.mem_of_getElem? hev) a.current.control a.current a.dev hkind
    have h₂ := h₁.dispatch hstage dev
    obtain ⟨a₂, ha₂⟩ : ∃ a₂, a₂ = (a.testEntry consumed).afterDispatch a.current.control consumed dev := ⟨_, rfl⟩
    have hs₂ : a₂.stage = .advance consumed := by rw [ha₂]; rfl
    have hw₂ : a₂.written = a.written := by rw [ha₂]; rfl
    have hl₂ : a₂.dispatched.length = a.dispatched.length + 1 := by
      rw [ha₂]
      exact List.length_append
    have hrun : DriverRun handlers a (a₂.advanceEntry consumed) := by
      refine ((Relation.ReflTransGen.single (DriverStep.test consumed hs)).tail ?_).tail
        (DriverStep.advance consumed hs₂)
      rw [ha₂]
      exact DriverStep.dispatch _ consumed dev hstage hdev
    rw [← ha₂] at h₂
    obtain ⟨b, hb, hidle, hall⟩ := drains n (h₂.advance hs₂) rfl
      (by show a₂.written.length = a₂.dispatched.length + n; rw [hw₂, hl₂]; omega)
      (by show Returning handlers a₂.written; rw [hw₂]; exact hret)
    refine ⟨b, hrun.trans hb, hidle, ?_⟩
    rw [hall]
    show a₂.written.map dispatchOf = _
    rw [hw₂]

end EventInv

theorem DriverRun.written {handlers : EventHandlers D} {a b : EventSystem D} (h : DriverRun handlers a b) :
    b.written = a.written := by
  induction h with
  | refl => rfl
  | tail _ hstep ih =>
    rw [← ih]
    cases hstep with
    | enter hs => rfl
    | test consumed hs => rfl
    | dispatch control consumed dev hs hcall => rfl
    | advance consumed hs => rfl
    | finish consumed hs =>
      unfold EventSystem.finishDrain
      split <;> rfl

theorem EventRun.driver {handlers : EventHandlers D} {s a b : EventSystem D} (h : EventRun handlers s a)
    (hrun : DriverRun handlers a b) : EventRun handlers s b := by
  induction hrun with
  | refl => exact h
  | tail _ hstep ih => exact ih.tail (.driver _ hstep)

/-- **The event ring.** In every interleaving of a controller and `xhcihcd_process_events`. -/
theorem event_ring_discipline (handlers : EventHandlers D) (erVirt : ℕ) (dev : D) (a : EventSystem D)
    (hrun : EventRun handlers (EventSystem.start erVirt dev) a) : EventDiscipline handlers dev a := by
  have h := hrun.inv
  refine ⟨h.order, hrun.handled, h.eventDequeue_lt, fun consumed hs => h.stops hs, ?_, ?_⟩
  · intro hs hne
    have hd := h.drain
    unfold DrainInv at hd
    rw [hs] at hd
    rw [← hd.2]
    refine h.erdp ?_
    rw [hd.2]
    exact fun e => hne (List.length_eq_zero_iff.mp e)
  · intro consumed hs hret
    have hle := h.lapped.le
    obtain ⟨b, hb, hidle, hall⟩ := EventInv.drains (a.written.length - a.dispatched.length) h hs (by omega) hret
    refine ⟨b, hb, hidle, hall, ?_⟩
    have hhandled := (hrun.driver hb).handled
    rw [hb.written, hall, List.length_map, List.take_length] at hhandled
    exact hhandled

/-- Handlers that record the words they are called with. -/
def recordingHandlers : EventHandlers (List (ℕ × BitVec 32)) where
  handleTransferEvent trb := Prog.modify (· ++ [(trb.parameter, trb.status)])
  handleCommandCompletion trb := Prog.modify (· ++ [(trb.parameter, trb.status)])

/-- A command completion is written, and a call of `xhcihcd_process_events` drains it: its handler is called with it. -/
theorem event_ring_discipline_first : ∃ a : EventSystem (List (ℕ × BitVec 32)),
    EventRun recordingHandlers (EventSystem.start 0xFFFF800000100000 []) a ∧ a.stage = .idle ∧
    a.written = [⟨0x1000#32, 0#32, 0x01000000#32, xhciTrbSetType 33#32⟩] ∧ a.dev = [(0x1000, 0x01000000#32)] ∧
    a.erdp = 0x100018 ∧ EventDiscipline recordingHandlers [] a := by
  obtain ⟨ev, hev⟩ : ∃ ev : Trb, ev = ⟨0x1000#32, 0#32, 0x01000000#32, xhciTrbSetType 33#32⟩ := ⟨_, rfl⟩
  obtain ⟨s, hs⟩ : ∃ s, s = EventSystem.start 0xFFFF800000100000 ([] : List (ℕ × BitVec 32)) := ⟨_, rfl⟩
  have hrun : EventRun recordingHandlers s _ :=
    Relation.ReflTransGen.single (.write ev (by rw [hs]; rfl) (by rw [hs]; decide))
  have hrun := hrun.tail (.commit ev rfl)
  have hrun := hrun.tail (.driver _ (.enter (by rw [hs]; rfl)))
  have hrun := hrun.tail (.driver _ (.test 0 rfl))
  have hrun := hrun.tail (.driver _ (.dispatch (ev.control ||| 1#32) 0 [(0x1000, 0x01000000#32)]
    (by rw [hs, hev]; rfl) (by rw [hs, hev]; rfl)))
  have hrun := hrun.tail (.driver _ (.advance 0 rfl))
  have hrun := hrun.tail (.driver _ (.test 1 rfl))
  have hrun := hrun.tail (.driver _ (.finish 1 (by rw [hs, hev]; rfl)))
  rw [hs, hev] at hrun
  exact ⟨_, hrun, rfl, rfl, rfl, rfl, event_ring_discipline recordingHandlers _ _ _ hrun⟩

end Borgos.Usb
