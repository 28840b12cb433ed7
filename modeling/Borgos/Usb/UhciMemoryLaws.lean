import Borgos.Usb.UhciMemory

/-! # What the UHCI driver touches

Nothing takes an entry out of the log, so that one access outside of an object spoils every state that follows. The
setup makes such accesses, in a block for eight queue heads that is filled with eleven; and each transfer that a poll
completes makes one more, to a TD that has just been freed.
-/
namespace Borgos.Usb.UhciMem
open Borgos.Foundations Borgos.Mem
set_option autoImplicit false

/-! ## The log only grows -/

def Logs (s t : Heap) : Prop := s.log <+: t.log

instance : Std.Refl Logs := ⟨fun s => List.prefix_refl s.log⟩

instance : IsTrans Heap Logs := ⟨fun _ _ _ => List.IsPrefix.trans⟩

theorem Logs.undisciplined {s t : Heap} (h : Logs s t) (hs : ¬ s.Disciplined) : ¬ t.Disciplined := by
  intro ht
  apply hs
  intro a ha
  exact ht a (h.subset ha)

section Within
variable (obj qh td : ℕ)

theorem touch_within (addr len : ℕ) : (touch obj addr len).Within Logs :=
  Prog.Within.modify fun s => List.prefix_append s.log _

/-- A command that leaves the log alone. -/
theorem modify_within {f : Heap → Heap} (hf : ∀ s, (f s).log = s.log) : (Prog.modify f).Within Logs :=
  Prog.Within.modify fun s => by
    unfold Logs
    rw [hf]

theorem kmallocAligned_within (p size : ℕ) : (kmallocAligned p size).Within Logs := modify_within fun _ => rfl

theorem kfreeAligned_within (p : ℕ) : (kfreeAligned p).Within Logs := modify_within fun _ => rfl

theorem readQh_within (offset : ℕ) (field : UhciQh → ℕ) : (readQh obj qh offset field).Within Logs :=
  (touch_within _ _ _).bind fun _ => Prog.Within.get.bind fun _ => Prog.Within.pure _

theorem writeQh_within (offset : ℕ) (f : QhMem → QhMem) : (writeQh obj qh offset f).Within Logs :=
  (touch_within _ _ _).bind fun _ => modify_within fun _ => rfl

theorem headLink_within : (headLink obj qh).Within Logs := readQh_within _ _ _ _

theorem elementLink_within : (elementLink obj qh).Within Logs := readQh_within _ _ _ _

theorem parentQh_within : (parentQh obj qh).Within Logs := readQh_within _ _ _ _

theorem setHeadLink_within (link : ℕ) : (setHeadLink obj qh link).Within Logs := writeQh_within _ _ _ _

theorem setElementLink_within (link : ℕ) : (setElementLink obj qh link).Within Logs := writeQh_within _ _ _ _

theorem setParentQh_within (phys : ℕ) : (setParentQh obj qh phys).Within Logs := writeQh_within _ _ _ _

theorem xferReq_within : (xferReq qh).Within Logs :=
  (touch_within _ _ _).bind fun _ => Prog.Within.get.bind fun _ => Prog.Within.pure _

theorem setXferReq_within (req : ℕ) : (setXferReq obj qh req).Within Logs :=
  (touch_within _ _ _).bind fun _ => modify_within fun _ => rfl

theorem tdhead_within : (tdhead qh).Within Logs :=
  (touch_within _ _ _).bind fun _ => Prog.Within.get.bind fun _ => Prog.Within.pure _

theorem setTdhead_within : (setTdhead qh td).Within Logs :=
  (touch_within _ _ _).bind fun _ => modify_within fun _ => rfl

theorem tdCtrl_within : (tdCtrl obj td).Within Logs :=
  (touch_within _ _ _).bind fun _ => Prog.Within.get.bind fun _ => Prog.Within.pure _

theorem tdNext_within : (tdNext obj td).Within Logs :=
  (touch_within _ _ _).bind fun _ => Prog.Within.get.bind fun _ => Prog.Within.pure _

theorem setTdnext_within (next : ℕ) : (setTdnext obj td next).Within Logs :=
  (touch_within _ _ _).bind fun _ => modify_within fun _ => rfl

theorem writeTd_within (t : UhciTd) : (writeTd obj td t).Within Logs := by
  unfold writeTd
  apply Prog.Within.bind (touch_within _ _ _)
  intro _
  apply Prog.Within.bind (touch_within _ _ _)
  intro _
  apply Prog.Within.bind (touch_within _ _ _)
  intro _
  apply Prog.Within.bind (touch_within _ _ _)
  intro _
  exact modify_within fun _ => rfl

theorem uhciAllocQH_within : (uhciAllocQH qh).Within Logs := by
  unfold uhciAllocQH
  apply Prog.Within.bind (kmallocAligned_within _ _)
  intro _
  apply Prog.Within.bind (setHeadLink_within _ _ _)
  intro _
  apply Prog.Within.bind (setElementLink_within _ _ _)
  intro _
  exact setXferReq_within _ _ _

theorem uhciAllocTDs_within (tdcount : ℕ) : (uhciAllocTDs td tdcount).Within Logs := by
  unfold uhciAllocTDs
  apply Prog.Within.bind (kmallocAligned_within _ _)
  intro _
  apply Prog.Within.bind
  · apply Prog.Within.forM
    intro i
    exact (writeTd_within _ _ _).bind fun _ => setTdnext_within _ _ _
  · intro _
    exact setTdnext_within _ _ _

theorem tops_within : tops.Within Logs := Prog.Within.get.bind fun _ => Prog.Within.pure _

theorem insertLoop_within (left curQH : ℕ) : (insertLoop left curQH).Within Logs := by
  induction left generalizing curQH with
  | zero =>
    unfold insertLoop
    apply Prog.Within.bind (headLink_within _ _)
    intro link
    apply Prog.Within.ite
    · exact (headLink_within _ _).bind fun _ => Prog.Within.panic _
    · exact Prog.Within.pure _
  | succ left ih =>
    unfold insertLoop
    apply Prog.Within.bind (headLink_within _ _)
    intro link
    apply Prog.Within.ite
    · exact (headLink_within _ _).bind fun link => ih _
    · exact Prog.Within.pure _

theorem insert_within (qhTop : ℕ) : (uhcihcdInsertTransferQH qh qhTop).Within Logs := by
  unfold uhcihcdInsertTransferQH
  apply Prog.Within.bind tops_within
  intro top
  apply Prog.Within.bind (elementLink_within _ _)
  intro link
  apply Prog.Within.ite
  · exact (setParentQh_within _ _ _).bind fun _ => setElementLink_within _ _ _
  · apply Prog.Within.bind (elementLink_within _ _)
    intro link
    apply Prog.Within.bind (insertLoop_within _ _)
    intro curQH
    exact (setParentQh_within _ _ _).bind fun _ => setHeadLink_within _ _ _

theorem removeLoop_within (fuel prevQH curQH : ℕ) : (removeLoop qh fuel prevQH curQH).Within Logs := by
  induction fuel generalizing prevQH curQH with
  | zero =>
    unfold removeLoop
    apply Prog.Within.ite
    · exact Prog.Within.stuck
    · exact Prog.Within.pure _
  | succ fuel ih =>
    unfold removeLoop
    apply Prog.Within.ite
    · exact (headLink_within _ _).bind fun link => ih _ _
    · exact Prog.Within.pure _

theorem remove_within (fuel : ℕ) : (uhcihcdRemoveTransferQH fuel qh).Within Logs := by
  unfold uhcihcdRemoveTransferQH
  apply Prog.Within.bind tops_within
  intro top
  apply Prog.Within.bind (parentQh_within _ _)
  intro parent
  apply Prog.Within.bind (elementLink_within _ _)
  intro link
  apply Prog.Within.ite
  · exact (headLink_within _ _).bind fun _ => setElementLink_within _ _ _
  · apply Prog.Within.bind (removeLoop_within _ _ _ _)
    intro prevQH
    exact (headLink_within _ _).bind fun _ => setHeadLink_within _ _ _

theorem controller_within (c : Controller) : c.run.Within Logs := modify_within fun _ => rfl

theorem finish_within (fuel : ℕ) (result : XferResult) : (finish fuel qh td result).Within Logs := by
  unfold finish
  apply Prog.Within.bind (remove_within _ _)
  intro _
  apply Prog.Within.bind (kfreeAligned_within _)
  intro _
  apply Prog.Within.bind (kfreeAligned_within _)
  intro _
  exact Prog.Within.pure _

theorem anyFailed_within (left t : ℕ) : (anyFailed td left t).Within Logs := by
  induction left generalizing t with
  | zero => exact Prog.Within.pure _
  | succ left ih =>
    unfold anyFailed
    apply Prog.Within.bind (tdCtrl_within _ _)
    intro ctrl
    apply Prog.Within.ite
    · exact Prog.Within.pure _
    · exact ih _

theorem fillTds_within (count : ℕ) (tds : TdArray) : (fillTds td count tds).Within Logs := by
  apply Prog.Within.forM
  intro t
  apply Prog.Within.bind
  · exact Prog.Within.ite (touch_within _ _ _) (Prog.Within.pure _)
  · intro _
    exact writeTd_within _ _ _

theorem submitCtrl_within (fuel : ℕ) (req : CtrlXferRequest) (timeout : ℕ) (usbint : ℕ → Bool) (c : Controller) :
    (submitCtrl fuel req qh td timeout usbint c).Within Logs := by
  unfold submitCtrl
  apply Prog.Within.bind (uhciAllocQH_within _)
  intro _
  apply Prog.Within.bind (uhciAllocTDs_within _ _)
  intro _
  apply Prog.Within.bind (setHeadLink_within _ _ _)
  intro _
  apply Prog.Within.bind (setElementLink_within _ _ _)
  intro _
  apply Prog.Within.bind (setTdhead_within _ _)
  intro _
  apply Prog.Within.bind (fillTds_within _ _ _)
  intro _
  refine Prog.Within.bind Prog.Within.get fun s => ?_
  apply Prog.Within.bind (insert_within _ _)
  intro _
  apply Prog.Within.bind (controller_within _)
  intro _
  apply Prog.Within.ite
  · exact finish_within _ _ _ _
  apply Prog.Within.bind (anyFailed_within _ _ _)
  intro failed
  apply Prog.Within.ite
  · exact finish_within _ _ _ _
  apply Prog.Within.bind
  · apply Prog.Within.foldlM
    intro actlen t
    exact (tdCtrl_within _ _).bind fun _ => Prog.Within.pure _
  · intro actlen
    exact finish_within _ _ _ _

theorem submitEndpSync_within (fuel : ℕ) (req : EndpXferRequest) (timeout : ℕ) (after : ℕ → ℕ) (c : Controller) :
    (submitEndpSync fuel req qh td timeout after c).Within Logs := by
  unfold submitEndpSync
  apply Prog.Within.bind (uhciAllocQH_within _)
  intro _
  refine Prog.Within.ite Prog.Within.stuck ?_
  refine Prog.Within.ite (Prog.Within.panic _) ?_
  apply Prog.Within.bind (uhciAllocTDs_within _ _)
  intro _
  apply Prog.Within.bind (setHeadLink_within _ _ _)
  intro _
  apply Prog.Within.bind (setElementLink_within _ _ _)
  intro _
  apply Prog.Within.bind (setTdhead_within _ _)
  intro _
  apply Prog.Within.bind (writeTd_within _ _ _)
  intro _
  refine Prog.Within.bind Prog.Within.get fun s => ?_
  apply Prog.Within.bind (insert_within _ _)
  intro _
  apply Prog.Within.bind
  · exact Prog.Within.forM (fun _ => touch_within _ _ _) _
  intro _
  apply Prog.Within.bind (controller_within _)
  intro _
  apply Prog.Within.ite
  · exact finish_within _ _ _ _
  apply Prog.Within.bind (tdCtrl_within _ _)
  intro ctrl
  apply Prog.Within.ite
  · exact finish_within _ _ _ _
  · exact (tdCtrl_within _ _).bind fun _ => finish_within _ _ _ _

theorem submitEndp_within (req : EndpXferRequest) (request : ℕ) : (submitEndp req request qh td).Within Logs := by
  unfold submitEndp
  apply Prog.Within.bind (uhciAllocQH_within _)
  intro _
  apply Prog.Within.bind (setHeadLink_within _ _ _)
  intro _
  refine Prog.Within.ite Prog.Within.stuck ?_
  refine Prog.Within.ite (Prog.Within.panic _) ?_
  apply Prog.Within.bind (uhciAllocTDs_within _ _)
  intro _
  apply Prog.Within.bind (setElementLink_within _ _ _)
  intro _
  apply Prog.Within.bind (setTdhead_within _ _)
  intro _
  apply Prog.Within.bind (writeTd_within _ _ _)
  intro _
  apply Prog.Within.bind (setXferReq_within _ _ _)
  intro _
  refine Prog.Within.bind Prog.Within.get fun s => ?_
  exact insert_within _ _

theorem submit_within (fuel : ℕ) (request : Submit) : (request.run fuel).Within Logs := by
  cases request with
  | ctrl req qh td timeout usbint c => exact (submitCtrl_within _ _ _ _ _ _ _).bind fun _ => Prog.Within.pure _
  | endpSync req qh td timeout after c => exact (submitEndpSync_within _ _ _ _ _ _ _).bind fun _ => Prog.Within.pure _
  | endp req request qh td => exact submitEndp_within _ _ _ _

theorem lastTd_within (fuel tdend : ℕ) : (lastTd td fuel tdend).Within Logs := by
  induction fuel generalizing tdend with
  | zero => exact Prog.Within.stuck
  | succ fuel ih =>
    unfold lastTd
    apply Prog.Within.bind (tdNext_within _ _)
    intro next
    apply Prog.Within.ite
    · exact (tdNext_within _ _).bind fun next => ih _
    · exact Prog.Within.pure _

theorem completeXfer_within (fuel tdend req : ℕ) (callback : ℕ → List Submit) :
    (completeXfer fuel qh td tdend req callback).Within Logs := by
  unfold completeXfer
  apply Prog.Within.bind
  · exact Prog.Within.forM (fun _ => touch_within _ _ _) _
  intro _
  apply Prog.Within.bind (remove_within _ _)
  intro _
  apply Prog.Within.bind (kfreeAligned_within _)
  intro _
  apply Prog.Within.bind (kfreeAligned_within _)
  intro _
  apply Prog.Within.bind (touch_within _ _ _)
  intro _
  exact Prog.Within.forM (submit_within fuel) _

theorem pollQhXfer_within (fuel : ℕ) (callback : ℕ → List Submit) :
    (uhcihcdPollQhXfer fuel qh callback).Within Logs := by
  unfold uhcihcdPollQhXfer
  apply Prog.Within.bind (xferReq_within _)
  intro req
  apply Prog.Within.bind (tdhead_within _)
  intro td
  apply Prog.Within.ite
  · exact Prog.Within.pure _
  apply Prog.Within.bind (lastTd_within _ _ _)
  intro tdend
  apply Prog.Within.bind (tdCtrl_within _ _)
  intro ctrl
  apply Prog.Within.ite
  · exact completeXfer_within _ _ _ _ _ _
  · exact Prog.Within.pure _

theorem pollLoop_within (fuel : ℕ) (callback : ℕ → List Submit) : (pollLoop callback fuel qh).Within Logs := by
  induction fuel generalizing qh with
  | zero => exact Prog.Within.stuck
  | succ fuel ih =>
    unfold pollLoop
    apply Prog.Within.bind (headLink_within _ _)
    intro link
    apply Prog.Within.bind (pollQhXfer_within _ _ _)
    intro _
    apply Prog.Within.ite
    · exact ih _
    · exact Prog.Within.pure _

theorem poll_within (fuel : ℕ) (callback : ℕ → List Submit) : (uhcihcdPoll fuel callback).Within Logs := by
  apply Prog.Within.forM
  intro i
  refine Prog.Within.bind Prog.Within.get fun s => ?_
  apply Prog.Within.bind (elementLink_within _ _)
  intro link
  apply Prog.Within.ite
  · exact (elementLink_within _ _).bind fun link => pollLoop_within _ _ _
  · exact Prog.Within.pure _

end Within

/-! ## The setup -/

/-- No object is allocated or freed. -/
def SameSizes (s t : Heap) : Prop := Logs s t ∧ t.size = s.size

instance : Std.Refl SameSizes := ⟨fun s => ⟨List.prefix_refl s.log, rfl⟩⟩

instance : IsTrans Heap SameSizes := ⟨fun _ _ _ h h' => ⟨h.1.trans h'.1, h'.2.trans h.2⟩⟩

section Setup
variable (obj qh qheadlistptr i : ℕ)

theorem modify_same {f : Heap → Heap} (hlog : ∀ s, (f s).log = s.log) (hsize : ∀ s, (f s).size = s.size) :
    (Prog.modify f).Within SameSizes :=
  Prog.Within.modify fun s => ⟨by unfold Logs; rw [hlog], hsize s⟩

theorem touch_same (addr len : ℕ) : (touch obj addr len).Within SameSizes :=
  Prog.Within.modify fun s => ⟨List.prefix_append s.log _, rfl⟩

theorem writeQh_same (offset : ℕ) (f : QhMem → QhMem) : (writeQh obj qh offset f).Within SameSizes :=
  (touch_same _ _ _).bind fun _ => modify_same (fun _ => rfl) fun _ => rfl

theorem setXferReq_same (req : ℕ) : (setXferReq obj qh req).Within SameSizes :=
  (touch_same _ _ _).bind fun _ => modify_same (fun _ => rfl) fun _ => rfl

theorem clearTop_same : (clearTop qheadlistptr i).Within SameSizes := by
  unfold clearTop
  refine Prog.Within.bind (modify_same (fun _ => rfl) fun _ => rfl) fun _ => ?_
  apply Prog.Within.bind (writeQh_same _ _ _ _)
  intro _
  apply Prog.Within.bind (writeQh_same _ _ _ _)
  intro _
  exact setXferReq_same _ _ _

theorem touch_returns (addr len : ℕ) : (touch obj addr len).Returns := Prog.Returns.modify _

theorem writeQh_returns (offset : ℕ) (f : QhMem → QhMem) : (writeQh obj qh offset f).Returns :=
  (touch_returns _ _ _).bind fun _ => Prog.Returns.modify _

theorem clearTop_returns : (clearTop qheadlistptr i).Returns := by
  unfold clearTop
  apply Prog.Returns.bind (Prog.Returns.modify _)
  intro _
  apply Prog.Returns.bind (writeQh_returns _ _ _ _)
  intro _
  apply Prog.Returns.bind (writeQh_returns _ _ _ _)
  intro _
  exact (touch_returns _ _ _).bind fun _ => Prog.Returns.modify _

theorem linkTop_returns : (linkTop qheadlistptr i).Returns :=
  Prog.Returns.get.bind fun _ => writeQh_returns _ _ _ _

theorem linkTop_within : (linkTop qheadlistptr i).Within Logs :=
  Prog.Within.get.bind fun _ => writeQh_within _ _ _ _

theorem setup_returns : (uhcihcdSetupSchedule qheadlistptr).Returns := by
  unfold uhcihcdSetupSchedule
  apply Prog.Returns.bind (Prog.Returns.modify _)
  intro _
  apply Prog.Returns.bind (Prog.Returns.forM (clearTop_returns _) _)
  intro _
  exact Prog.Returns.forM (linkTop_returns _) _

theorem touch_ends {addr len : ℕ} {s : Heap} (h : ¬ (Access.mk obj addr len (s.size obj)).Inside) :
    (touch obj addr len).Ends s fun t => ¬ t.Disciplined := by
  intro t ht
  cases ht
  intro hd
  exact h (hd _ (by simp))

/-- The ninth queue head lies behind the block. -/
theorem clearTop_ends {s : Heap} (hs : s.size qheadlistptr = some (8 * sizeofUhciQh)) :
    (clearTop qheadlistptr 8).Ends s fun t => ¬ t.Disciplined := by
  unfold clearTop
  refine Prog.Ends.bind_right (Prog.Returns.modify _) fun _ t ht => ?_
  cases ht
  have hwrite : (setHeadLink qheadlistptr (qheadlistptr + sizeofUhciQh * 8) uhciQhT).Ends
      { s with queue := Function.update s.queue 8 (qheadlistptr + sizeofUhciQh * 8) } fun t => ¬ t.Disciplined := by
    refine Prog.Ends.bind (R := Logs) (touch_ends _ ?_) (fun _ => modify_within fun _ => rfl) fun _ _ =>
      Logs.undisciplined
    rintro ⟨n, hn, -, hle⟩
    have hn : s.size qheadlistptr = some n := hn
    have hle : qheadlistptr + sizeofUhciQh * 8 + 0 + 4 ≤ qheadlistptr + n := hle
    rw [hs, Option.some.injEq] at hn
    unfold sizeofUhciQh at *
    omega
  exact hwrite.bind (R := Logs) (fun _ => (setElementLink_within _ _ _).bind fun _ => setXferReq_within _ _ _)
    fun _ _ => Logs.undisciplined

theorem setup_ends (s : Heap) : (uhcihcdSetupSchedule qheadlistptr).Ends s fun t => ¬ t.Disciplined := by
  unfold uhcihcdSetupSchedule
  refine Prog.Ends.bind_right (Prog.Returns.modify _) fun _ t ht => ?_
  cases ht
  refine Prog.Ends.bind (R := Logs) ?_ (fun _ => Prog.Within.forM (linkTop_within _) _) fun _ _ => Logs.undisciplined
  refine Prog.Ends.forM (R := SameSizes) (i := 8) (Q := fun s => s.size qheadlistptr = some (8 * sizeofUhciQh))
    (by decide) (clearTop_returns _) (clearTop_same _) ?_ ?_ (fun s hs => clearTop_ends _ hs) ?_
  · intro s t h hs
    rw [h.2, hs]
  · exact fun _ _ h => h.1.undisciplined
  · exact Function.update_self _ _ _

theorem setup_within : (uhcihcdSetupSchedule qheadlistptr).Within Logs := by
  unfold uhcihcdSetupSchedule
  apply Prog.Within.bind (kmallocAligned_within _ _)
  intro _
  apply Prog.Within.bind
  · apply Prog.Within.forM
    exact fun i s t h => (clearTop_same _ i s t h).1
  · intro _
    exact Prog.Within.forM (linkTop_within _) _

end Setup

/-! ## Runs -/

theorem op_within (fuel : ℕ) (op : UhciOp) : (op.run fuel).Within Logs := by
  cases op with
  | setup qheadlistptr => exact setup_within _
  | submit request => exact submit_within _ _
  | poll callback => exact poll_within _ _
  | controller c => exact controller_within _

theorem runUhciOps_within (fuel : ℕ) (ops : List UhciOp) : (runUhciOps fuel ops).Within Logs :=
  Prog.Within.forM (op_within fuel) _

/-- The setup returns, and in every state that any run reaches after it some access has been outside of its object. -/
theorem memory_never_disciplined (fuel qheadlistptr : ℕ) (s : Heap) :
    ∃ s₁, uhcihcdSetupSchedule qheadlistptr s = .ok () s₁ ∧
      ∀ ops t, (runUhciOps fuel ops s₁).final = some t → ¬ t.Disciplined := by
  obtain ⟨u, s₁, hrun⟩ := setup_returns qheadlistptr s
  refine ⟨s₁, hrun, ?_⟩
  intro ops t ht
  have h₁ : ¬ s₁.Disciplined := setup_ends qheadlistptr s s₁ (by rw [hrun]; rfl)
  exact (runUhciOps_within fuel ops s₁ t ht).undisciplined h₁

/-- Nothing allocated, nothing logged. -/
def blankHeap : Heap where
  qh _ := ⟨0, 0, 0⟩
  xferReq _ := 0
  tdhead _ := 0
  td _ := ⟨0, 0, 0, 0, 0⟩
  queue _ := 0
  size _ := none
  log := []

/-- The setup writes to a queue head 256 bytes into a block of 256 bytes. -/
theorem ninth_head_behind_block :
    ∃ t, (uhcihcdSetupSchedule 0x1000 blankHeap).final = some t ∧ ⟨0x1000, 0x1100, 4, some 256⟩ ∈ t.log ∧
      ¬ t.Disciplined := by
  obtain ⟨u, t, hrun⟩ := setup_returns 0x1000 blankHeap
  have hfinal : (uhcihcdSetupSchedule 0x1000 blankHeap).final = some t := by
    rw [hrun]
    rfl
  have hlog : (uhcihcdSetupSchedule 0x1000 blankHeap).final.map
      (fun t => decide (⟨0x1000, 0x1100, 4, some 256⟩ ∈ t.log)) = some true := by
    decide +kernel
  have hmem : ⟨0x1000, 0x1100, 4, some 256⟩ ∈ t.log := by
    rw [hfinal] at hlog
    simpa using hlog
  refine ⟨t, hfinal, hmem, ?_⟩
  intro hd
  obtain ⟨n, hn, -, hle⟩ := hd _ hmem
  cases hn
  exact absurd hle (by decide)

/-! ## The queues with and without the log -/

def SameQueues (s : Heap) (m : QhMem) : Prop := s.qh = m

/-- An access has been logged. -/
def Heap.logged (s : Heap) (obj addr len : ℕ) : Heap := { s with log := s.log ++ [⟨obj, addr, len, s.size obj⟩] }

section Queues
variable (s : Heap) (obj qh : ℕ)

@[simp] theorem logged_qh (addr len : ℕ) : (s.logged obj addr len).qh = s.qh := rfl

theorem headLink_run : headLink obj qh s = .ok (s.qh qh).headLink (s.logged obj qh 4) := rfl

theorem elementLink_run : elementLink obj qh s = .ok (s.qh qh).elementLink (s.logged obj (qh + 4) 4) := rfl

theorem parentQh_run : parentQh obj qh s = .ok (s.qh qh).parentQh (s.logged obj (qh + 24) 4) := rfl

theorem tops_run : tops s = .ok (s.queue 0) s := rfl

theorem insertLoop_lockstep (left curQH : ℕ) :
    Lockstep SameQueues (insertLoop left curQH s) (Usb.insertLoop left curQH s.qh) := by
  induction left generalizing curQH s with
  | zero =>
    unfold insertLoop Usb.insertLoop
    rw [Prog.bind_run, headLink_run, Outcome.andThen_ok, Prog.bind_run, Prog.get_run, Outcome.andThen_ok]
    apply Lockstep.ite Iff.rfl
    · exact fun _ => Lockstep.panic _ _ _
    · exact fun _ => Lockstep.ok _ rfl
  | succ left ih =>
    unfold insertLoop Usb.insertLoop
    rw [Prog.bind_run, headLink_run, Outcome.andThen_ok, Prog.bind_run, Prog.get_run, Outcome.andThen_ok]
    apply Lockstep.ite Iff.rfl
    · intro _
      rw [Prog.bind_run, headLink_run, Outcome.andThen_ok]
      exact ih _ _
    · exact fun _ => Lockstep.ok _ rfl

theorem insert_lockstep (qhTop : ℕ) :
    Lockstep SameQueues (uhcihcdInsertTransferQH qh qhTop s) (Usb.uhcihcdInsertTransferQH qh qhTop s.qh) := by
  unfold uhcihcdInsertTransferQH Usb.uhcihcdInsertTransferQH
  rw [Prog.bind_run, tops_run, Outcome.andThen_ok, Prog.bind_run, elementLink_run, Outcome.andThen_ok, Prog.bind_run,
    Prog.get_run, Outcome.andThen_ok]
  apply Lockstep.ite Iff.rfl
  · exact fun _ => Lockstep.ok _ rfl
  · intro _
    rw [Prog.bind_run, elementLink_run, Outcome.andThen_ok]
    apply Lockstep.bind (insertLoop_lockstep _ _ _)
    rintro curQH s' _ rfl
    exact Lockstep.ok _ rfl

theorem removeLoop_lockstep (fuel prevQH curQH : ℕ) :
    Lockstep (fun s' m => s'.qh = s.qh ∧ m = s.qh) (removeLoop qh fuel prevQH curQH s)
      (Usb.removeLoop qh fuel prevQH curQH s.qh) := by
  induction fuel generalizing prevQH curQH s with
  | zero =>
    unfold removeLoop Usb.removeLoop
    rw [Prog.bind_run, Prog.get_run, Outcome.andThen_ok]
    apply Lockstep.ite Iff.rfl
    · exact fun _ => Lockstep.stuck
    · exact fun _ => Lockstep.ok _ ⟨rfl, rfl⟩
  | succ fuel ih =>
    unfold removeLoop Usb.removeLoop
    rw [Prog.bind_run, Prog.get_run, Outcome.andThen_ok]
    apply Lockstep.ite Iff.rfl
    · intro _
      exact ih (s.logged curQH curQH 4) _ _
    · exact fun _ => Lockstep.ok _ ⟨rfl, rfl⟩

/-- The queues change as they do in the functions without a log. -/
theorem remove_lockstep (fuel : ℕ) :
    Lockstep SameQueues (uhcihcdRemoveTransferQH fuel qh s) (Usb.uhcihcdRemoveTransferQH fuel qh s.qh) := by
  unfold uhcihcdRemoveTransferQH Usb.uhcihcdRemoveTransferQH
  rw [Prog.bind_run, tops_run, Outcome.andThen_ok, Prog.bind_run, parentQh_run, Outcome.andThen_ok]
  simp only
  rw [Prog.bind_run, elementLink_run, Outcome.andThen_ok, Prog.bind_run, Prog.get_run, Outcome.andThen_ok, logged_qh]
  generalize qhOfLink (s.qh (p2v (s.qh qh).parentQh)).elementLink = curQH
  generalize p2v (s.qh qh).parentQh = qhTop
  apply Lockstep.ite Iff.rfl
  · intro _
    rw [Prog.bind_run, headLink_run, Outcome.andThen_ok]
    exact Lockstep.ok _ rfl
  · intro _
    apply Lockstep.bind (removeLoop_lockstep _ _ _ _ _)
    intro prevQH s' m hsame
    obtain ⟨hs, rfl⟩ := hsame
    have hs : s'.qh = s.qh := hs
    rw [Prog.bind_run, headLink_run, Outcome.andThen_ok, hs]
    apply Lockstep.ok
    have hset : (s'.logged qh qh 4).qh.setHeadLink prevQH (s.qh qh).headLink =
        s.qh.setHeadLink prevQH (s.qh qh).headLink := by
      rw [logged_qh, hs]
    exact hset

/-- The top queue heads in one block. -/
def topAt (qheadlistptr i : ℕ) : ℕ := qheadlistptr + sizeofUhciQh * i

theorem clearTop_run (i : ℕ) : ∃ t, clearTop qh i s = .ok () t ∧ t.queue = Function.update s.queue i (topAt qh i) ∧
    t.qh = s.qh.set (topAt qh i) { s.qh (topAt qh i) with headLink := uhciQhT, elementLink := uhciQhT } := by
  refine ⟨_, rfl, rfl, ?_⟩
  change (s.qh.setHeadLink (topAt qh i) uhciQhT).setElementLink (topAt qh i) uhciQhT = _
  funext a
  simp only [QhMem.setElementLink, QhMem.setHeadLink, QhMem.set_apply, if_true]
  by_cases ha : a = topAt qh i
  · simp [ha, uhciQhT]
  · simp [ha]

theorem clearTops_run (l : List ℕ) : ∃ t, l.forM (clearTop qh) s = .ok () t ∧
    (∀ i, t.queue i = if i ∈ l then topAt qh i else s.queue i) ∧
    t.qh = l.foldl (fun m i =>
      m.set (topAt qh i) { m (topAt qh i) with headLink := uhciQhT, elementLink := uhciQhT }) s.qh := by
  induction l generalizing s with
  | nil => exact ⟨s, rfl, fun _ => rfl, rfl⟩
  | cons i l ih =>
    obtain ⟨s₁, hrun₁, hqueue₁, hqh₁⟩ := clearTop_run s qh i
    obtain ⟨t, hrun, hqueue, hqh⟩ := ih s₁
    refine ⟨t, ?_, ?_, ?_⟩
    · change (clearTop qh i >>= fun _ => l.forM (clearTop qh)) s = _
      rw [Prog.bind_run, hrun₁, Outcome.andThen_ok]
      exact hrun
    · intro j
      rw [hqueue, hqueue₁]
      by_cases hj : j = i
      · subst hj
        simp
      · simp [hj]
    · rw [hqh, hqh₁, List.foldl_cons]

theorem linkTops_run (l : List ℕ) (hl : ∀ i ∈ l, s.queue i = topAt qh i ∧ s.queue (i + 1) = topAt qh (i + 1)) :
    ∃ t, l.forM (linkTop qh) s = .ok () t ∧ t.queue = s.queue ∧
      t.qh = l.foldl (fun m i => m.setHeadLink (topAt qh i) (v2p (topAt qh (i + 1)) ||| uhciQhQ)) s.qh := by
  induction l generalizing s with
  | nil => exact ⟨s, rfl, rfl, rfl⟩
  | cons i l ih =>
    obtain ⟨s₁, hrun₁, hqueue₁, hqh₁⟩ : ∃ s₁, linkTop qh i s = .ok () s₁ ∧ s₁.queue = s.queue ∧
        s₁.qh = s.qh.setHeadLink (s.queue i) (v2p (s.queue (i + 1)) ||| uhciQhQ) := ⟨_, rfl, rfl, rfl⟩
    obtain ⟨hi, hnext⟩ := hl i List.mem_cons_self
    obtain ⟨t, hrun, hqueue, hqh⟩ := ih s₁ fun j hj => hqueue₁ ▸ hl j (List.mem_cons_of_mem i hj)
    refine ⟨t, ?_, hqueue.trans hqueue₁, ?_⟩
    · change (linkTop qh i >>= fun _ => l.forM (linkTop qh)) s = _
      rw [Prog.bind_run, hrun₁, Outcome.andThen_ok]
      exact hrun
    · rw [hqh, hqh₁, hi, hnext, List.foldl_cons]

/-- The setup leaves the queues as its two loops do without a log. -/
theorem setup_queues : ∃ t, uhcihcdSetupSchedule qh s = .ok () t ∧
    t.qh = linkTops (topAt qh) (clearTops (topAt qh) s.qh) ∧ ∀ i < qslots, t.queue i = topAt qh i := by
  obtain ⟨s₁, hrun₁, hqh₁⟩ : ∃ s₁, kmallocAligned qh (8 * sizeofUhciQh) s = .ok () s₁ ∧ s₁.qh = s.qh := ⟨_, rfl, rfl⟩
  obtain ⟨s₂, hrun₂, hqueue₂, hqh₂⟩ := clearTops_run s₁ qh (List.range qslots)
  have htop : ∀ i < qslots, s₂.queue i = topAt qh i := fun i hi => by rw [hqueue₂, if_pos (List.mem_range.mpr hi)]
  obtain ⟨t, hrun, hqueue, hqh⟩ := linkTops_run s₂ qh (List.range (qslots - 1)) fun i hi => by
    have hlt := List.mem_range.mp hi
    exact ⟨htop i (by omega), htop (i + 1) (by omega)⟩
  refine ⟨t, ?_, ?_, fun i hi => by rw [hqueue, htop i hi]⟩
  · unfold uhcihcdSetupSchedule
    rw [Prog.bind_run, hrun₁, Outcome.andThen_ok, Prog.bind_run, hrun₂, Outcome.andThen_ok]
    exact hrun
  · rw [hqh, hqh₂, hqh₁]
    rfl

end Queues

end Borgos.Usb.UhciMem
