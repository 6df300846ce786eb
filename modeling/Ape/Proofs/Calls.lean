import Ape.Proofs.Control

/-!
# `Ape.Proofs.Calls`: invariants through signals, deferred replies and whole requests

Each class of this module names a group of changes that the calls make on the control side: the
ends of deferred sleeps, signals that arrive, the signals of the caller, deferred `wait4` replies.
An invariant that does not see a group has its class for free. An invariant about a group proves
the class once. The lemmas about the calls ask for classes only.

`routeSyscall_keeps_at` and `dispatch_keeps_at` collect the calls. They leave to the caller the
memory calls, the page faults, and the calls an invariant treats in a way of its own.
-/

set_option autoImplicit false

namespace Ape

open Ape.Lib Cmd

variable {I : World → Prop}

/-- The view sees nothing of the control side, apart from the descriptors. -/
class BlindControl {γ : Type} (V : World → γ) : Prop extends BlindCaps V, BlindTrace V,
    BlindSignals V, BlindRecords V, BlindWaits V, BlindSleeps V, BlindCaller V

/-- What is computed from a view that is blind to the control of threads is blind to it. -/
theorem BlindControl.comp {γ δ : Type} {V : World → γ} (g : γ → δ) (h : BlindControl V) :
    BlindControl fun w => g (V w) where
  toBlindCaps := h.toBlindCaps.comp g
  toBlindTrace := h.toBlindTrace.comp g
  toBlindSignals := h.toBlindSignals.comp g
  toBlindRecords := h.toBlindRecords.comp g
  toBlindWaits := h.toBlindWaits.comp g
  toBlindSleeps := h.toBlindSleeps.comp g
  toBlindCaller := h.toBlindCaller.comp g

instance {γ : Type} {V : World → γ} (v : γ) [h : BlindControl V] :
    BlindControl fun w => V w = v := h.comp (· = v)

instance (pid : Nat) : BlindControl (World.filesOf pid) where
  tick _ _ := rfl
  slots _ _ := rfl
  trace _ _ := rfl
  signal w p _ := w.filesOf_modifyTask p pid fun _ => rfl
  dropped _ _ := rfl
  missedIntr _ _ := rfl
  record w p _ hf := w.filesOf_modifyTask p pid fun t => (hf t).2.2
  hostPidMap _ _ := rfl
  stale _ _ := rfl
  stopLog _ _ := rfl
  stopSkewed _ _ := rfl
  childEvents _ _ := rfl
  pendingWaits _ _ := rfl
  lifecycle _ _ := rfl
  missedWake _ _ := rfl
  waited _ _ := rfl
  leftEvents _ _ := rfl
  pendingSleeps _ _ := rfl
  requestId _ _ := rfl
  idSaturated _ _ := rfl
  sleepLog _ _ := rfl
  caller _ _ := rfl

instance (pid : Nat) : BlindEndpoints (World.filesOf pid) where
  endpoints _ _ := rfl
  doubleClose _ _ := rfl
  asyncFree _ _ := rfl
  asyncRegions _ _ := rfl
  asyncVaddr _ _ := rfl
  iouring _ _ := rfl
  fdOverflow _ _ := rfl
  earlyRecycle _ _ := rfl

instance (pid : Nat) : BlindMarks (World.filesOf pid) where
  cloexecLog _ _ := rfl
  positionSplit _ _ := rfl

/-! A command does not change how the services behave. -/

instance : BlindControl World.env where
  tick _ _ := rfl
  slots _ _ := rfl
  trace _ _ := rfl
  signal _ _ _ := rfl
  dropped _ _ := rfl
  missedIntr _ _ := rfl
  record _ _ _ _ := rfl
  hostPidMap _ _ := rfl
  stale _ _ := rfl
  stopLog _ _ := rfl
  stopSkewed _ _ := rfl
  childEvents _ _ := rfl
  pendingWaits _ _ := rfl
  lifecycle _ _ := rfl
  missedWake _ _ := rfl
  waited _ _ := rfl
  leftEvents _ _ := rfl
  pendingSleeps _ _ := rfl
  requestId _ _ := rfl
  idSaturated _ _ := rfl
  sleepLog _ _ := rfl
  caller _ _ := rfl

instance : BlindMemory World.env where
  ledger _ _ := rfl
  vspace _ _ _ := rfl
  tables _ _ _ := rfl
  scratch _ _ _ := rfl
  writeFrame _ _ _ := rfl
  frames _ _ _ := rfl
  refs _ _ := rfl
  doubleFree _ _ := rfl
  mm _ _ _ := rfl
  fileMapLog _ _ := rfl

/-! ### User values -/

/-- The value of a reply is always found. -/
theorem storeForReply_total (pid ptr : Nat) (bytes : List UInt8) (ret : Int) :
    Total (storeForReply pid ptr bytes ret) := by
  unfold storeForReply
  refine Total.ite (by simp) (Total.bind (by simp) fun r => Total.bind (by simp) fun errno => ?_)
  split <;> simp

section UserValues

variable [UserKeeps I]

/-- Zeros are written by copies to the process. -/
@[simp] theorem writeZerosToUser_keeps (pid userPtr len : Nat) :
    Keeps I (writeZerosToUser pid userPtr len) := by
  have hloop : ∀ rounds done, Keeps I (writeZerosLoop pid userPtr len rounds done) := by
    intro rounds
    induction rounds with
    | zero => intro done; exact Keeps.pure _
    | succ rounds ih => intro done; simp [writeZerosLoop, ih]
  simp [writeZerosToUser, hloop]

/-- A time is read by a copy from the process. -/
@[simp] theorem readUserTimespec_keeps (pid ptr : Nat) :
    Keeps I (readUserTimespec pid ptr) := by simp [readUserTimespec]

/-- A signal mask is read by a copy from the process. -/
@[simp] theorem importSigset_keeps (pid ptr size : Nat) :
    Keeps I (importSigset pid ptr size) :=
  Keeps.ite (by simp) (Keeps.ite (by simp) (by simp))

/-- A signal mask is stored by a copy to the process. -/
@[simp] theorem exportSigset_keeps (pid ptr : Nat) (mask : SigSet) :
    Keeps I (exportSigset pid ptr mask) := copyToUser_keeps _ _ _

/-- The bytes of a deferred reply are stored by a copy to the process. -/
@[simp] theorem storeForReply_keeps (pid ptr : Nat) (bytes : List UInt8) (ret : Int) :
    Keeps I (storeForReply pid ptr bytes ret) := by
  unfold storeForReply
  refine Keeps.ite (Keeps.pure _) (Keeps.bind (by simp) fun r =>
    Keeps.bind (by simp) fun errno => ?_)
  split <;> exact Keeps.pure _

/-- The information about a signal is stored by a copy to the process. -/
@[simp] theorem storeSiginfo_keeps (pid info signum : Nat) :
    Keeps I (storeSiginfo pid info signum) :=
  Keeps.ite (by simp) (Keeps.bind (by simp) fun _ => Keeps.bind (by simp) fun _ => by simp)

end UserValues

/-- A suspension is a call and an event. -/
@[simp] theorem tcbSuspend_keeps [BlindCaps I] [SuspendKeeps I] (pid : Nat) :
    Keeps I (tcbSuspend pid) := by simp [tcbSuspend]

/-- A resumption is a call and an event. -/
@[simp] theorem tcbResume_keeps [BlindCaps I] [TraceKeeps I] (pid : Nat) :
    Keeps I (tcbResume pid) := by simp [tcbResume]

/-- The upcall of a handler is a call and an event. -/
@[simp] theorem tcbDeliverUpcall_keeps [BlindCaps I] [TraceKeeps I] (pid handler signum : Nat) :
    Keeps I (tcbDeliverUpcall pid handler signum) := by simp [tcbDeliverUpcall]

/-- Asking for the time is a call. -/
@[simp] theorem monoNow_keeps [BlindCaps I] : Keeps I monoNow := by simp [monoNow]

/-! ### Deferred sleeps -/

/-- The ends of a deferred sleep keep the invariant. -/
class SleepsKeeps (I : World → Prop) : Prop where
  interrupt : ∀ pid, Keeps I (interruptPendingSleepReply pid)
  complete : ∀ pid requestId, Keeps I (completeSleepReply pid requestId)
  drop : ∀ pid, Keeps I (dropPendingSleepReply pid)

/-- A signal ends a sleep. -/
@[simp] theorem interruptPendingSleepReply_keeps [h : SleepsKeeps I] (pid : Nat) :
    Keeps I (interruptPendingSleepReply pid) := h.interrupt pid

/-- A sleep that is given up. -/
@[simp] theorem dropPendingSleepReply_keeps [h : SleepsKeeps I] (pid : Nat) :
    Keeps I (dropPendingSleepReply pid) := h.drop pid

section Sleeps

variable [BlindCaps I] [hs : BlindSleeps I]

omit [BlindCaps I] in
/-- A change of the table of deferred sleeps. -/
theorem pendingSleeps_keeps (f : World → OrdMap Nat PendingSleepReply) :
    Keeps I (modify fun w => { w with pendingSleepReplies := f w } : M Unit) :=
  keeps_modify fun w => hs.pendingSleeps w _

omit [BlindCaps I] in
/-- What is logged of sleeps is no part of what is kept. -/
theorem logSleep_keeps (e : SleepEvent) : Keeps I (logSleep e) :=
  keeps_modify fun w => hs.sleepLog w _

/-- The reply to a sleep stores the time that remained. -/
theorem replyPendingSleep_keeps [TraceKeeps I] [UserKeeps I] (pid : Nat) (p : PendingSleepReply)
    (ret : Int) (remainNs : Nat) : Keeps I (replyPendingSleep pid p ret remainNs) :=
  Keeps.bind (storeForReply_keeps _ _ _ _) fun _ =>
    Keeps.bind (replyAndFree_keeps _ _) fun _ => logSleep_keeps _

/-- An invariant that is blind to sleeps is kept when a sleep is given up. -/
theorem dropPendingSleepReply_keeps_blind (pid : Nat) : Keeps I (dropPendingSleepReply pid) := by
  refine Keeps.bind (Keeps.gets _) fun pending => Keeps.whenSome fun p => ?_
  exact Keeps.bind (pendingSleeps_keeps _) fun _ =>
    Keeps.bind (cspaceFree_keeps _) fun _ => logSleep_keeps _

instance (priority := low) SleepsKeeps.of_blind [TraceKeeps I] [UserKeeps I] : SleepsKeeps I where
  interrupt pid := by
    refine Keeps.bind (Keeps.gets _) fun pending => Keeps.whenSome fun p => ?_
    exact Keeps.bind (pendingSleeps_keeps _) fun _ => Keeps.bind (by simp) fun now =>
      replyPendingSleep_keeps _ _ _ _
  complete pid requestId := by
    refine Keeps.bind (Keeps.gets _) fun pending => Keeps.whenSome fun p => ?_
    exact Keeps.ite (Keeps.pure _)
      (Keeps.bind (pendingSleeps_keeps _) fun _ => replyPendingSleep_keeps _ _ _ _)
  drop := dropPendingSleepReply_keeps_blind

/-- A sleep that is scheduled is a call and a record of the sleep. -/
theorem scheduleNanosleepAsync_keeps (pid reqNs remPtr : Nat) :
    Keeps I (scheduleNanosleepAsync pid reqNs remPtr) := by
  unfold scheduleNanosleepAsync
  refine Keeps.bind monoNow_keeps fun now => Keeps.bind reservePendingReplySlot_keeps fun slot =>
    Keeps.bind (Keeps.gets _) fun requestId => Keeps.bind (keeps_modify fun w => ?_) fun _ =>
      logSleep_keeps _
  let w₁ : World := { w with nextRequestId := satAdd requestId 1 }
  let w₂ : World := { w₁ with idSaturated := w.idSaturated || decide (usizeMax ≤ requestId) }
  calc I { w₂ with pendingSleepReplies := _ } = I w₂ := hs.pendingSleeps w₂ _
    _ = I w₁ := hs.idSaturated w₁ _
    _ = I w := hs.requestId w _

end Sleeps

/-- `nanosleep` keeps the invariant when the scheduling of a sleep does. -/
theorem doNanosleep_keeps_of [UserKeeps I] (pid req rem : Nat)
    (h : ∀ ns, Keeps I (scheduleNanosleepAsync pid ns rem)) :
    Keeps I (doNanosleep pid req rem) := by
  unfold doNanosleep
  refine Keeps.ite (Keeps.throw _) (Keeps.bind (readUserTimespec_keeps _ _) fun ts => ?_)
  split
  · exact Keeps.throw _
  · simp
  · exact Keeps.bind (Keeps.gets _) fun signalled => Keeps.ite (by simp) (by simp [h])

/-- `nanosleep` reads the time and schedules the sleep. -/
theorem doNanosleep_keeps [UserKeeps I] [BlindCaps I] [BlindSleeps I] (pid req rem : Nat) :
    Keeps I (doNanosleep pid req rem) :=
  doNanosleep_keeps_of pid req rem fun _ => scheduleNanosleepAsync_keeps _ _ _

/-! ### Signals -/

/-- Every blocked signal is one that can be blocked. -/
def SignalStruct.Maskable (s : SignalStruct) : Prop :=
  s.signalBlocked &&& SIGNAL_UNBLOCKABLE_MASK = 0

/-- A mask without the signals that cannot be blocked has none of them. -/
theorem maskable_of_filtered (mask : SigSet) :
    mask &&& ~~~SIGNAL_UNBLOCKABLE_MASK &&& SIGNAL_UNBLOCKABLE_MASK = 0 := by
  rw [BitVec.and_assoc, BitVec.and_comm (~~~SIGNAL_UNBLOCKABLE_MASK)]
  simp

/-- The change leaves the pending set alone, and blocks no signal that cannot be blocked. -/
structure MaskChange (f : SignalStruct → SignalStruct) : Prop where
  pending : ∀ s, (f s).signalPending = s.signalPending
  maskable : ∀ s, s.Maskable → (f s).Maskable

/-- A change of neither the pending set nor the mask. -/
structure QuietChange (f : SignalStruct → SignalStruct) : Prop where
  pending : ∀ s, (f s).signalPending = s.signalPending
  blocked : ∀ s, (f s).signalBlocked = s.signalBlocked

/-- A quiet change is a change of the masks. -/
theorem QuietChange.mask {f : SignalStruct → SignalStruct} (h : QuietChange f) : MaskChange f := by
  refine ⟨h.pending, ?_⟩
  intro s hs
  rw [SignalStruct.Maskable, h.blocked s]
  exact hs

/-- A quiet change leaves the deliverable signals as they are. -/
theorem QuietChange.deliverable {f : SignalStruct → SignalStruct} (h : QuietChange f)
    (s : SignalStruct) : (f s).deliverable = s.deliverable := by
  rw [SignalStruct.deliverable, h.pending s, h.blocked s]
  rfl

/-- A queued signal keeps the invariant, and so does a change of neither the pending set nor the
mask. -/
class QuietSignals (I : World → Prop) : Prop where
  quiet : ∀ pid f, QuietChange f → Keeps I (modifySignal pid f)
  queue : ∀ pid signum, Keeps I (queueProcessSignal pid signum)
  dropped : Keeps I markSignalDropped
  waitIntr : ∀ pid, Keeps I (noteWaitIntr pid)

/-- Every change of the signal masks of a process keeps the invariant. -/
class OwnSignals (I : World → Prop) (pid : Nat) : Prop where
  own : ∀ f, MaskChange f → Keeps I (modifySignal pid f)

instance (priority := low) OwnSignals.of_blind [BlindSignals I] (pid : Nat) : OwnSignals I pid where
  own f _ := (modifySignal_frames pid f).keepsProp

/-- To put the saved mask back is a change of the masks. -/
theorem restoreMask_change : MaskChange SignalStruct.restoreMask := by
  constructor <;> intro s <;> unfold SignalStruct.restoreMask <;> split
  · rfl
  · rfl
  · exact fun _ => maskable_of_filtered _
  · exact id

section Masks

variable {pid : Nat} [h : OwnSignals I pid]

/-- A new mask is kept free of the signals that cannot be blocked. -/
@[simp] theorem setBlocked_keeps (mask : SigSet) : Keeps I (modifySignal pid (·.setBlocked mask)) :=
  h.own _ ⟨fun _ => rfl, fun _ _ => maskable_of_filtered mask⟩

/-- The saved mask that is put back is free of the signals that cannot be blocked. -/
@[simp] theorem restoreMask_keeps : Keeps I (modifySignal pid (·.restoreMask)) :=
  h.own _ restoreMask_change

/-- To save a mask for the end of `rt_sigsuspend` is a change of the masks. -/
@[simp] theorem saveMask_keeps (mask : SigSet) :
    Keeps I (modifySignal pid fun s => { s with sigsuspendSavedMask := some mask }) :=
  h.own _ ⟨fun _ => rfl, fun _ h => h⟩

end Masks

/-- The end of `rt_sigsuspend` puts the mask back and resumes the thread. -/
theorem wakeFromSigsuspend_keeps [BlindCaps I] [TraceKeeps I] (pid : Nat) [OwnSignals I pid] :
    Keeps I (wakeFromSigsuspend pid) :=
  Keeps.bind (Keeps.gets _) fun _ => Keeps.whenSome fun _ => Keeps.when (by simp)

instance (priority := low) QuietSignals.of_blind [BlindCaps I] [TraceKeeps I]
    [hq : QueuedKeeps I] [hs : BlindSignals I] [SleepsKeeps I] : QuietSignals I where
  quiet pid f _ := (modifySignal_frames pid f).keepsProp
  queue pid signum := by
    refine Keeps.bind (Keeps.gets _) fun task => Keeps.whenSome fun t =>
      Keeps.whenSome fun bit => ?_
    refine Keeps.bind (modifySignal_frames _ _).keepsProp fun _ =>
      Keeps.bind (hq.queued _ _) fun _ => ?_
    exact Keeps.bind (by simp) fun _ => Keeps.bind (Keeps.when (wakeFromSigsuspend_keeps _))
      fun _ => keeps_modify fun w => hs.missedIntr w _
  dropped := keeps_modify fun w => hs.dropped w _
  waitIntr _ := keeps_modify fun w => hs.missedIntr w _

/-- A signal that arrives at a process. -/
@[simp] theorem queueProcessSignal_keeps [h : QuietSignals I] (pid signum : Nat) :
    Keeps I (queueProcessSignal pid signum) := h.queue pid signum

/-- A refused delivery is marked. -/
@[simp] theorem markSignalDropped_keeps [h : QuietSignals I] :
    Keeps I markSignalDropped := h.dropped

/-- A wait that a signal ends is noted. -/
@[simp] theorem noteWaitIntr_keeps [h : QuietSignals I] (pid : Nat) : Keeps I (noteWaitIntr pid) :=
  h.waitIntr pid

/-- The block of a `wait4` is taken away. -/
@[simp] theorem clearWait4Block_keeps [h : QuietSignals I] (pid : Nat) :
    Keeps I (modifySignal pid (·.clearWait4Block)) :=
  h.quiet pid _ (.mk (fun _ => rfl) fun _ => rfl)

/-- A signal that is no longer pending makes no other one deliverable. -/
theorem clearPending_deliverable (idx : Nat) {s : SignalStruct} (hs : s.deliverable = 0) :
    (s.clearPending idx).deliverable = 0 := by
  have heq : (s.clearPending idx).deliverable = s.deliverable &&& ~~~(1#64 <<< idx) := by
    simp only [SignalStruct.deliverable, SignalStruct.clearPending]
    rw [BitVec.and_assoc, BitVec.and_assoc, BitVec.and_comm (~~~(1#64 <<< idx))]
  rw [heq, hs]
  simp

/-! ### Deferred `wait4` replies -/

/-- To record that a process is stopped or runs cannot fail. -/
theorem setStopped_total (pid : Nat) (stopped : Bool) : Total (setStopped pid stopped) :=
  Total.bind (Total.gets _) fun _ =>
    Total.bind (Total.whenSome fun _ => Total.when (Total.modify _)) fun _ => Total.modify _

/-- The record of a stop or a continuation keeps the invariant. -/
class ChangeKeeps (I : World → Prop) : Prop where
  change : ∀ parentPid e, e.kind ≠ .exited → Keeps I (recordChildChange parentPid e)

instance (priority := low) ChangeKeeps.of_blind [BlindWaits I] [BlindStops I] [BlindHosts I] :
    ChangeKeeps I :=
  ⟨fun parentPid e _ => recordChildChange_keeps parentPid e⟩

/-- The marks of a fork by a process that is marked stopped keep the invariant. -/
class ForkStopKeeps (I : World → Prop) : Prop where
  fork : ∀ pid childPid, Keeps I (do markStopSkewed; logStop (.changed pid childPid true) : M Unit)

instance (priority := low) ForkStopKeeps.of_blind [BlindStops I] : ForkStopKeeps I :=
  ⟨fun _ _ => Keeps.bind markStopSkewed_keeps fun _ => logStop_keeps _⟩

/-- The report of an exit keeps the invariant. -/
class NotifyKeeps (I : World → Prop) : Prop where
  notify : ∀ pid parentPid pgid exitCode, Keeps I (notifyParent pid parentPid pgid exitCode)

/-- `wait4` keeps the invariant. -/
class Wait4Keeps (I : World → Prop) : Prop where
  wait4 : ∀ pid target wstatus options, Keeps I (doWait4 pid target wstatus options)

/-- The end of a deferred `wait4` reply, and a change of the exit records, keep the invariant. -/
class WaitsKeeps (I : World → Prop) : Prop where
  drop : ∀ pid, Keeps I (dropWait4Reply pid)
  lifecycle : ∀ w l, I w → I { w with lifecycle := l }

/-- The stop of a child is told to its parent. -/
@[simp] theorem recordChildStopped_keeps [h : ChangeKeeps I]
    (parentPid childPid status pgid : Nat) :
    Keeps I (recordChildStopped parentPid childPid status pgid) := h.change _ _ (by simp)

/-- The continuation of a child is told to its parent. -/
@[simp] theorem recordChildContinued_keeps [h : ChangeKeeps I] (parentPid childPid pgid : Nat) :
    Keeps I (recordChildContinued parentPid childPid pgid) := h.change _ _ (by simp)

/-- `wait4` takes an event or blocks. -/
@[simp] theorem doWait4_keeps [h : Wait4Keeps I] (pid : Nat) (target : Int)
    (wstatus options : Nat) : Keeps I (doWait4 pid target wstatus options) := h.wait4 _ _ _ _

/-- The end of a child is told to its parent. -/
@[simp] theorem notifyParent_keeps [h : NotifyKeeps I] (pid parentPid pgid exitCode : Nat) :
    Keeps I (notifyParent pid parentPid pgid exitCode) := h.notify _ _ _ _

/-- A deferred `wait4` that is given up. -/
@[simp] theorem dropWait4Reply_keeps [h : WaitsKeeps I] (pid : Nat) :
    Keeps I (dropWait4Reply pid) := h.drop pid

section Waits

variable [BlindCaps I] [TraceKeeps I] [QuietSignals I]

/-- A parent that waits for the child is resumed. -/
theorem resumeWait4Parent_keeps (parentPid childPid pgid : Nat) :
    Keeps I (resumeWait4Parent parentPid childPid pgid) :=
  Keeps.bind (Keeps.gets _) fun _ => Keeps.whenSome fun _ => Keeps.when (by simp)

/-- The wake of a parent keeps what the removal of an event and of a deferred reply keep. -/
theorem tryWakePendingWait4Reply_keeps_of [UserKeeps I] [BlindHosts I] {parentPid : Nat}
    (hpop : ∀ target options callerPgid,
      Keeps I (popChildEventMatching parentPid target options callerPgid))
    (herase : Keeps I (modify fun w =>
      { w with pendingWaitReplies := w.pendingWaitReplies.erase parentPid } : M Unit)) :
    Keeps I (tryWakePendingWait4Reply parentPid) := by
  have hresult : ∀ p, Keeps I (pendingWaitResult parentPid p) := by
    intro p
    unfold pendingWaitResult
    refine Keeps.bind (hpop _ _ _) fun event => ?_
    split
    · exact Keeps.bind (noteStale_keeps _) fun _ =>
        Keeps.bind (storeForReply_keeps _ _ _ _) fun _ => Keeps.pure _
    · exact Keeps.bind (Keeps.gets _) fun waitable => Keeps.ite (Keeps.pure _) (Keeps.pure _)
  unfold tryWakePendingWait4Reply
  refine Keeps.bind (Keeps.gets _) fun pending => ?_
  split
  · exact Keeps.pure _
  · refine Keeps.bind (hresult _) fun ret => ?_
    split
    · exact Keeps.pure _
    · exact Keeps.bind herase fun _ => Keeps.bind (by simp) fun _ =>
        Keeps.bind (replyAndFree_keeps _ _) fun _ => Keeps.pure _

variable [hw : BlindWaits I] [BlindHosts I] [UserKeeps I]

/-- The deferred `wait4` of a parent is answered when there is an event for it. -/
theorem tryWakePendingWait4Reply_keeps (parentPid : Nat) :
    Keeps I (tryWakePendingWait4Reply parentPid) :=
  tryWakePendingWait4Reply_keeps_of (by simp) (keeps_modify fun w => hw.pendingWaits w _)

instance (priority := low) NotifyKeeps.of_blind : NotifyKeeps I where
  notify pid parentPid pgid exitCode := by
    unfold notifyParent
    refine Keeps.ite (by simp) (Keeps.bind (by simp) fun _ => Keeps.bind (by simp) fun _ => ?_)
    exact Keeps.bind (tryWakePendingWait4Reply_keeps _) fun replied => Keeps.when
      (Keeps.bind (resumeWait4Parent_keeps _ _ _) fun _ => by simp)

instance (priority := low) Wait4Keeps.of_blind : Wait4Keeps I where
  wait4 pid target wstatus options := by
    have hblock : ∀ r : Wait4BlockRequest,
        Keeps I (modifySignal pid fun s => { s with wait4Blocked := some r }) :=
      fun r => QuietSignals.quiet pid _ (.mk (fun _ => rfl) fun _ => rfl)
    unfold doWait4
    refine Keeps.bind (by simp) fun task => Keeps.bind (by simp) fun _ =>
      Keeps.bind (by simp) fun event => ?_
    split
    · exact Keeps.bind (Keeps.onError (by simp) fun _ => by simp) fun _ => by simp
    · refine Keeps.bind (by simp) fun waitable => Keeps.ite (by simp) (Keeps.ite (by simp) ?_)
      exact Keeps.bind (by simp) fun _ => Keeps.bind (hblock _) fun _ =>
        Keeps.bind (by simp) fun _ => Keeps.throw _

omit [BlindCaps I] [TraceKeeps I] [QuietSignals I] [BlindHosts I] [UserKeeps I] in
instance (priority := low) WaitsKeeps.of_blind : WaitsKeeps I where
  drop := dropWait4Reply_keeps_blind
  lifecycle w l h := (hw.lifecycle w l).mpr h

end Waits

/-! ### Delivery -/

/-- The dequeue of a signal of the process keeps the invariant. -/
class PopKeeps (I : World → Prop) (pid : Nat) : Prop where
  pop : ∀ mask, Keeps I (popPendingSignalFromMask pid mask)

/-- The dequeue of a signal keeps an invariant that does not see the trace and that the change of
the pending set keeps. -/
theorem PopKeeps.of_clear [BlindTrace I] {pid : Nat}
    (h : ∀ idx, Keeps I (modifySignal pid (·.clearPending idx))) : PopKeeps I pid where
  pop mask := by
    unfold popPendingSignalFromMask
    refine Keeps.bind (getProcess_keeps _) fun task => ?_
    split
    · exact Keeps.pure _
    · exact Keeps.bind (h _) fun _ => Keeps.bind (emit_frames _).keepsProp fun _ => Keeps.pure _

instance (priority := low) PopKeeps.of_blind [BlindTrace I] [BlindSignals I] (pid : Nat) :
    PopKeeps I pid := PopKeeps.of_clear fun _ => (modifySignal_frames pid _).keepsProp

/-- A pending signal of the mask is taken. -/
@[simp] theorem popPendingSignalFromMask_keeps {pid : Nat} [h : PopKeeps I pid] (mask : SigSet) :
    Keeps I (popPendingSignalFromMask pid mask) := h.pop mask

/-- The commands that stop or continue a process keep the invariant, apart from an arriving
`SIGCONT`. -/
class StopsKeeps (I : World → Prop) : Prop where
  deliverStop : ∀ pid signum, Keeps I (deliverStop pid signum)
  deliverCont : ∀ pid, Keeps I (deliverCont pid)
  killStop : ∀ caller pid signum, Keeps I (killStop caller pid signum)

section Delivery

variable [Bookkeeping I] [QuietSignals I] [ChangeKeeps I]

instance (priority := low) StopsKeeps.of_blind [BlindStops I] [SuspendKeeps I] : StopsKeeps I where
  deliverStop pid signum := by
    unfold Ape.deliverStop
    refine Keeps.bind (by simp) fun task => Keeps.bind (by simp) fun r =>
      Keeps.bind (by simp) fun _ => Keeps.bind (by simp) fun _ =>
        Keeps.bind ?_ fun _ => Keeps.pure _
    exact Keeps.when (Keeps.bind (by simp) fun _ => by simp)
  deliverCont pid := by
    unfold Ape.deliverCont
    refine Keeps.bind (by simp) fun task => Keeps.bind (by simp) fun r =>
      Keeps.bind (by simp) fun _ => Keeps.bind (by simp) fun _ =>
        Keeps.bind ?_ fun _ => Keeps.pure _
    exact Keeps.when (Keeps.bind (by simp) fun _ => by simp)
  killStop caller pid signum := by
    unfold Ape.killStop
    refine Keeps.bind (Keeps.gets _) fun task => Keeps.bind (by simp) fun _ =>
      Keeps.bind (Keeps.gets _) fun now =>
        Keeps.bind (Keeps.whenSome fun _ => Keeps.when (Keeps.bind (by simp) fun _ => by simp))
          fun _ => Keeps.whenSome fun t => Keeps.when (Keeps.bind (by simp) fun _ => by simp)

end Delivery

/-- The default action of a stop signal. -/
@[simp] theorem deliverStop_keeps [h : StopsKeeps I] (pid signum : Nat) :
    Keeps I (deliverStop pid signum) := h.deliverStop pid signum

/-- The default action of `SIGCONT`. -/
@[simp] theorem deliverCont_keeps [h : StopsKeeps I] (pid : Nat) : Keeps I (deliverCont pid) :=
  h.deliverCont pid

section Consume

variable [BlindCaps I] [TraceKeeps I] [QuietSignals I] [StopsKeeps I]

/-- The delivery of a signal, over its kinds of action. -/
@[simp] theorem deliverSignal_keeps (pid signum : Nat) (action : SignalAction) :
    Keeps I (deliverSignal pid signum action) := by
  unfold deliverSignal
  refine Keeps.ite (by simp) (Keeps.ite ?_ (Keeps.ite (by simp) ?_))
  · exact Keeps.bind (by simp) fun _ => Keeps.bind (by simp) fun _ => by simp
  · exact Keeps.ite (by simp) (Keeps.ite (by simp) (by simp))

variable {pid : Nat} [PopKeeps I pid]

/-- A syscall return takes a deliverable signal and delivers it. -/
theorem consumeDeliverableSignalOnSyscallReturn_keeps :
    Keeps I (consumeDeliverableSignalOnSyscallReturn pid) := by
  unfold consumeDeliverableSignalOnSyscallReturn
  refine Keeps.bind (Keeps.gets _) fun task => ?_
  split
  · exact Keeps.pure _
  · refine Keeps.bind (popPendingSignalFromMask_keeps _) fun signum => ?_
    split
    · exact Keeps.pure _
    · exact deliverSignal_keeps _ _ _

/-- The end of a call keeps the invariant when the end of a process does. -/
theorem finishSyscall_keeps (hterm : ∀ code, Keeps I (terminateProcess pid code)) (sys : Syscall)
    (ret : Int) : Keeps I (finishSyscall pid sys ret) := by
  unfold finishSyscall
  refine Keeps.bind (Keeps.attempt consumeDeliverableSignalOnSyscallReturn_keeps) fun action => ?_
  split
  · exact Keeps.pure _
  · exact Keeps.ite (by simp) (by simp)
  · exact Keeps.bind (hterm _) fun _ => Keeps.pure _
  · exact Keeps.pure _

end Consume

/-! ### The signal calls -/

/-- A new signal action of the process keeps the invariant. -/
class OwnActions (I : World → Prop) (pid : Nat) : Prop where
  own : ∀ signum action, signum ≠ SIGKILL → signum ≠ SIGSTOP → Keeps I (modifyTask pid fun t =>
    { t with signalActions := t.signalActions.insert signum action })

instance (priority := low) OwnActions.of_blind [h : BlindActions I] (pid : Nat) :
    OwnActions I pid where
  own _ _ _ _ := keeps_modify fun w => h.actions w pid _

/-- `rt_sigaction` copies actions to and from the process and sets one. -/
@[simp] theorem doRtSigaction_keeps [UserKeeps I] {pid : Nat} [h : OwnActions I pid]
    (signum act oldact size : Nat) : Keeps I (doRtSigaction pid signum act oldact size) := by
  unfold doRtSigaction
  refine Keeps.ite (by simp) (Keeps.bind (by simp) fun _ => Keeps.ite (by simp) ?_)
  by_cases hsig : signum = SIGKILL ∨ signum = SIGSTOP
  · rw [if_pos hsig]
    exact Keeps.pure _
  · rw [if_neg hsig]
    obtain ⟨hkill, hstop⟩ := not_or.mp hsig
    refine Keeps.bind (by simp [readSigaction]) fun action => Keeps.bind (by simp) fun _ => ?_
    exact Keeps.bind (h.own _ _ hkill hstop) fun _ => Keeps.pure _

/-- `rt_sigpending` stores a mask. -/
@[simp] theorem doRtSigpending_keeps [UserKeeps I] (pid set size : Nat) :
    Keeps I (doRtSigpending pid set size) := by
  unfold doRtSigpending
  refine Keeps.ite (by simp) (Keeps.ite (by simp) ?_)
  exact Keeps.bind (by simp) fun task => Keeps.bind (by simp) fun _ => Keeps.pure _

/-- The two calls that dequeue a signal of their caller keep the invariant. -/
class DequeueKeeps (I : World → Prop) (pid : Nat) : Prop where
  timedwait : ∀ set info timeout size, Keeps I (doRtSigtimedwait pid set info timeout size)
  suspend : ∀ mask size, Keeps I (doRtSigsuspend pid mask size)

section Own

variable [UserKeeps I] {pid : Nat} [OwnSignals I pid]

/-- `rt_sigprocmask` copies masks to and from the process and sets one. -/
theorem doRtSigprocmask_keeps (how set oldset size : Nat) :
    Keeps I (doRtSigprocmask pid how set oldset size) := by
  have hstore : ∀ old, Keeps I (storeOldMask pid oldset old) := by simp [storeOldMask]
  unfold doRtSigprocmask
  refine Keeps.ite (by simp) (Keeps.bind (by simp) fun old => Keeps.ite (hstore old) ?_)
  refine Keeps.bind (by simp) fun mask => Keeps.bind (by simp) fun task => ?_
  split
  · exact Keeps.pure _
  · exact Keeps.bind (by simp) fun _ => hstore old

omit [UserKeeps I] in
/-- `rt_sigreturn` puts a mask back. -/
theorem doRtSigreturn_keeps : Keeps I (doRtSigreturn pid) := by simp [doRtSigreturn]

variable [BlindCaps I]

omit [OwnSignals I pid] in
/-- A timeout is read from the process, and the time is asked for. -/
theorem parseTimeoutDeadline_keeps (timeout : Nat) :
    Keeps I (parseTimeoutDeadline pid timeout) := by
  unfold parseTimeoutDeadline
  exact Keeps.bind (by simp) fun now => Keeps.ite (by simp) (by simp)

omit [OwnSignals I pid] in
/-- A scan reads each entry, asks its backend and stores the answer. -/
theorem pollScanLoop_keeps (fdsPtr : Nat) (l : List Nat) (ready : Nat) :
    Keeps I (pollScanLoop pid fdsPtr l ready) := by
  induction l generalizing ready with
  | nil => exact Keeps.pure _
  | cons i rest ih =>
    have hpoll : ∀ fd, Keeps I (pollRevents pid fd) := by
      intro fd
      refine Keeps.ite (by simp) (Keeps.bind (by simp) fun task => Keeps.ite (by simp) ?_)
      refine Keeps.bind ?_ fun revents => Keeps.pure _
      exact Keeps.bind (by simp) fun task => Keeps.bind (by simp) fun _ => by simp
    unfold pollScanLoop
    exact Keeps.bind (by simp) fun p => Keeps.bind (by simp) fun raw =>
      Keeps.bind (hpoll _) fun r => Keeps.bind (by simp) fun _ => ih _

omit [OwnSignals I pid] in
/-- `ppoll` scans until there is an answer, a signal or the end of the time. -/
theorem ppollLoop_keeps (fdsPtr nfds : Nat) (deadline : Option Nat) (rounds : Nat) :
    Keeps I (ppollLoop pid fdsPtr nfds deadline rounds) := by
  induction rounds with
  | zero => exact Keeps.throw _
  | succ rounds ih =>
    unfold ppollLoop
    refine Keeps.bind (pollScanLoop_keeps _ _ _) fun ready => Keeps.ite (by simp) ?_
    refine Keeps.bind (by simp) fun signalled => Keeps.ite (by simp) ?_
    exact Keeps.bind (by simp) fun now => Keeps.ite (by simp) (Keeps.bind (by simp) fun _ => ih)

omit [OwnSignals I pid] in
/-- The scans of `ppoll`, after its timeout was read. -/
theorem ppollBody_keeps (fdsPtr nfds timeout : Nat) :
    Keeps I (ppollBody pid fdsPtr nfds timeout) := by
  have hdeadline : Keeps I (parsePollDeadline pid timeout) := by
    refine Keeps.ite (by simp) (Keeps.bind (by simp) fun ts => ?_)
    exact Keeps.bind (by simp) fun ns => by simp
  unfold ppollBody
  refine Keeps.bind (Keeps.attempt hdeadline) fun r => ?_
  split
  · exact Keeps.throw _
  · exact Keeps.bind (Keeps.gets _) fun rounds => ppollLoop_keeps _ _ _ _

/-- `ppoll` changes the mask for the time of its scans. -/
theorem doPpoll_keeps (fdsPtr nfds timeout sigmask size : Nat) :
    Keeps I (doPpoll pid fdsPtr nfds timeout sigmask size) := by
  unfold doPpoll
  refine Keeps.ite (by simp) (Keeps.ite (by simp) (Keeps.ite (by simp) (Keeps.ite ?_ ?_)))
  · exact ppollBody_keeps _ _ _
  refine Keeps.ite (by simp) (Keeps.bind (by simp) fun task => Keeps.bind (by simp) fun mask => ?_)
  exact Keeps.bind (by simp) fun _ =>
    Keeps.bind (Keeps.attempt (ppollBody_keeps _ _ _)) fun r => by simp

variable [TraceKeeps I] [QuietSignals I] [PopKeeps I pid]

omit [UserKeeps I] [OwnSignals I pid] [TraceKeeps I] [QuietSignals I] in
/-- `rt_sigtimedwait` looks for a signal until the time is over. -/
theorem sigtimedwaitLoop_keeps (mask : SigSet) (deadline rounds : Nat) :
    Keeps I (sigtimedwaitLoop pid mask deadline rounds) := by
  induction rounds with
  | zero => exact Keeps.throw _
  | succ rounds ih =>
    unfold sigtimedwaitLoop
    refine Keeps.bind (by simp) fun candidate => ?_
    split
    · exact Keeps.pure _
    · exact Keeps.bind (by simp) fun now => Keeps.ite (by simp) (Keeps.bind (by simp) fun _ => ih)

instance (priority := low) DequeueKeeps.of_own [SuspendKeeps I] : DequeueKeeps I pid where
  timedwait set info timeout size := by
    unfold doRtSigtimedwait
    -- a set of a wrong size, a null set and a bad timeout are refused before the loop
    refine Keeps.ite (by simp) (Keeps.bind (by simp) fun mask => Keeps.ite (by simp) ?_)
    refine Keeps.bind (Keeps.attempt (parseTimeoutDeadline_keeps _)) fun r => ?_
    split
    · exact Keeps.throw _
    · refine Keeps.bind (Keeps.gets _) fun rounds =>
        Keeps.bind (sigtimedwaitLoop_keeps _ _ _) fun signum => ?_
      split
      · exact Keeps.pure _
      -- the signal that was found is dequeued, and its record is stored
      · exact Keeps.bind (by simp) fun _ => Keeps.bind (by simp) fun _ => Keeps.pure _
  suspend mask size := by
    unfold doRtSigsuspend
    refine Keeps.ite (by simp) (Keeps.bind (by simp) fun suspendMask => ?_)
    -- the mask is replaced for the wait and comes back on both exits
    refine Keeps.bind (by simp) fun task => Keeps.bind (by simp) fun _ =>
      Keeps.bind (by simp) fun task' => Keeps.bind (by simp) fun observed => ?_
    split
    · exact Keeps.bind (by simp) fun _ => Keeps.bind (by simp) fun _ => Keeps.pure _
    · exact Keeps.bind (by simp) fun _ => Keeps.bind (by simp) fun _ =>
        Keeps.bind (by simp) fun r => by simp

end Own

/-! ### Job control -/

section Jobs

variable [Bookkeeping I]

/-- The capability space of a process that ends is given back. -/
@[simp] theorem releaseCnode_keeps (pid : Nat) : Keeps I (releaseCnode pid) := by
  unfold releaseCnode
  exact Keeps.bind (Keeps.gets _) fun task => Keeps.whenSome fun t =>
    Keeps.bind (by simp) fun r => by simp

omit [Bookkeeping I] in
/-- The process of the host is ended. -/
@[simp] theorem killHostProcess_keeps [BlindHosts I] (pid : Nat) : Keeps I (killHostProcess pid) :=
  Keeps.bind (Keeps.gets _) fun _ => Keeps.whenSome fun _ =>
    keeps_modify fun w => BlindHosts.hostPidMap w _

omit [Bookkeeping I] in
/-- `setsid` changes the session and the group of its caller. -/
theorem doSetsid_keeps [h : BlindJobs I] (pid : Nat) : Keeps I (doSetsid pid) := by
  unfold doSetsid
  refine Keeps.bind (by simp) fun task => Keeps.ite (by simp) ?_
  exact Keeps.bind (keeps_modify fun w => h.jobs w pid (fun _ => pid) (fun _ => pid) fun _ => 0)
    fun _ => Keeps.pure _

omit [Bookkeeping I] in
/-- `setpgid` changes the group of a process. -/
theorem doSetpgid_keeps [h : BlindJobs I] (pid target pgid : Nat) :
    Keeps I (doSetpgid pid target pgid) := by
  unfold doSetpgid
  refine Keeps.bind (by simp) fun caller => Keeps.bind (by simp) fun task => Keeps.ite (by simp) ?_
  refine Keeps.bind (Keeps.when (Keeps.bind (by simp) fun _ => by simp)) fun _ =>
    Keeps.ite (by simp) ?_
  exact Keeps.bind (keeps_modify fun w => h.jobs w _ (·.sessionId) _ (·.controllingTty))
    fun _ => Keeps.pure _

/-- An arriving `SIGCONT` keeps the invariant. -/
class ContKeeps (I : World → Prop) : Prop where
  cont : ∀ pid, Keeps I (killCont pid)

variable [hq : QuietSignals I]

omit [Bookkeeping I] in
/-- The address that is cleared at the end is no part of the masks. -/
@[simp] theorem clearChildTid_keeps (pid tid : Nat) :
    Keeps I (modifySignal pid fun s => { s with clearChildTid := tid }) :=
  hq.quiet pid _ (.mk (fun _ => rfl) fun _ => rfl)

omit [Bookkeeping I] in
/-- `set_tid_address` records an address. -/
@[simp] theorem doSetTidAddress_keeps (pid tidptr : Nat) :
    Keeps I (doSetTidAddress pid tidptr) := by
  simp [doSetTidAddress]

section Cont

variable [ChangeKeeps I]

variable [BlindStops I]

/-- `SIGCONT` keeps what the discarding of the stop signals keeps. -/
theorem killCont_keeps_of {pid : Nat} (hdiscard : ∀ signum, Keeps I (discardStop pid signum)) :
    Keeps I (killCont pid) := by
  unfold killCont
  refine Keeps.bind (Keeps.gets _) fun task => Keeps.bind ?_ fun _ =>
    Keeps.bind (by simp) fun _ => ?_
  · exact Keeps.whenSome fun _ => Keeps.bind (Keeps.forEach hdiscard) fun _ => by simp
  · exact Keeps.bind (by simp) fun _ => Keeps.bind (Keeps.gets _) fun now => by simp

/-- `SIGCONT` keeps an invariant that does not see the trace and that the change of a pending set
keeps. -/
theorem ContKeeps.of_clear [BlindTrace I]
    (h : ∀ pid idx, Keeps I (modifySignal pid (·.clearPending idx))) : ContKeeps I where
  cont pid := killCont_keeps_of fun _ => Keeps.bind (Keeps.gets _) fun _ => Keeps.whenSome fun _ =>
    Keeps.bind (h pid _) fun _ => Keeps.when (emit_frames _).keepsProp

instance (priority := low) ContKeeps.of_blind [BlindTrace I] [BlindSignals I] : ContKeeps I :=
  ContKeeps.of_clear fun pid _ => (modifySignal_frames pid _).keepsProp

end Cont

variable [hs : StopsKeeps I]

omit [Bookkeeping I] in
/-- `kill` keeps the invariant when the `SIGCONT` that it sends to its targets does. -/
theorem doKill_keeps_at (hterm : ∀ pid code, Keeps I (terminateProcess pid code)) (caller : Nat)
    (target sig : Int) {w : World} (hw : I w)
    (hcont : sig = SIGCONT → ∀ t ∈ w.killTargets caller target, Keeps I (killCont t)) :
    I ((doKill caller target sig).run w).2 := by
  -- `SIGKILL` ends the other targets first and the caller last
  have himm : ∀ targets, Keeps I (killImmediate caller targets) := fun targets =>
    Keeps.bind (Keeps.forEach fun t => hterm _ _) fun _ => Keeps.when (hterm _ _)
  have hsend : Keeps I (sendSignal caller (w.killTargets caller target) sig.toNat) := by
    unfold sendSignal
    refine Keeps.ite (himm _) ?_
    by_cases hsig : sig.toNat = SIGCONT
    · rw [if_pos hsig]
      have hint : sig = SIGCONT := by
        unfold SIGCONT at hsig ⊢
        omega
      exact Keeps.forEach_mem (hcont hint)
    · rw [if_neg hsig]
      refine Keeps.ite ?_ ?_
      · exact Keeps.forEach fun t => hs.killStop _ _ _
      · exact Keeps.forEach fun t => queueProcessSignal_keeps _ _
  have hrest : Keeps I (do
      sendSignal caller (w.killTargets caller target) sig.toNat
      pure 0 : M Int) := Keeps.bind hsend fun _ => Keeps.pure _
  unfold doKill
  split
  -- a signal number out of range, no target, and the null signal change nothing
  · exact hw
  · rw [run_gets_bind]
    split
    · exact hw
    split
    · exact hw
    · exact hrest w hw

variable [hc : ContKeeps I]

omit [Bookkeeping I] in
/-- `kill` sends a signal to each target, and ends those that it kills. -/
theorem doKill_keeps (hterm : ∀ pid code, Keeps I (terminateProcess pid code)) (caller : Nat)
    (target sig : Int) : Keeps I (doKill caller target sig) := fun _ hw =>
  doKill_keeps_at hterm caller target sig hw fun _ t _ => hc.cont t

end Jobs

/-! ### Requests -/

/-- The calls that change address spaces on purpose. -/
def Syscall.isMemory : Syscall → Bool
  | .clone .. | .brk .. | .mmap .. | .munmap .. | .mprotect .. | .mremap .. | .execve .. => true
  | _ => false

/-- The calls that change the session or the group of a process. -/
def Syscall.isJob : Syscall → Bool
  | .setsid | .setpgid .. => true
  | _ => false

/-- The value of a call does not matter to the invariant. -/
theorem keeps_value {α : Type} {c : M α} {f : α → Int} (h : Keeps I c) :
    Keeps I (do return f (← c)) := Keeps.bind h fun _ => Keeps.pure _

/-- A call that returns zero keeps what its body keeps. -/
theorem keeps_unit {α : Type} {c : M α} (h : Keeps I c) :
    Keeps I (do let _ ← c; return (0 : Int)) := Keeps.bind h fun _ => Keeps.pure _

/-- The calls on descriptors. -/
def Syscall.isFile : Syscall → Bool
  | .read .. | .write .. | .readv .. | .writev .. | .close .. | .openat .. | .lseek .. | .fcntl ..
  | .dup .. | .dup3 .. | .pipe2 .. => true
  | _ => false

/-- The calls on descriptors keep what the functions behind them keep. -/
theorem fileCall_keeps [UserKeeps I] (pid : Nat) [hf : FileCalls I pid] {sys : Syscall}
    (hsys : sys.isFile) : Keeps I (routeSyscall pid sys) := by
  cases sys with
  | read => exact keeps_value (hf.read _ _ _)
  | write => exact keeps_value (hf.write _ _ _)
  | readv => exact keeps_value (sysRwVector_keeps _ _ _ fun _ _ => hf.read _ _ _)
  | writev => exact keeps_value (sysRwVector_keeps _ _ _ fun _ _ => hf.write _ _ _)
  | close => exact keeps_unit (hf.close _)
  | openat => exact keeps_value (hf.openat _ _)
  | lseek => exact hf.lseek _ _ _
  | fcntl => exact keeps_value (hf.fcntl _ _ _)
  | dup => exact keeps_value (hf.fcntl _ _ _)
  | dup3 => exact keeps_value (hf.dup3 _ _ _)
  | pipe2 => exact keeps_unit (hf.pipe2 _ _)
  | _ => cases hsys

/-- The job calls keep an invariant that does not see sessions and groups. -/
theorem jobCall_keeps [BlindJobs I] (pid : Nat) {sys : Syscall} (hsys : sys.isJob) :
    Keeps I (routeSyscall pid sys) := by
  cases sys with
  | setsid => exact Keeps.bind (doSetsid_keeps _) fun _ => Keeps.pure _
  | setpgid => exact doSetpgid_keeps _ _ _
  | _ => cases hsys

/-- The calls that take a signal of their caller themselves. -/
def Syscall.isDequeue : Syscall → Bool
  | .rtSigtimedwait .. | .rtSigsuspend .. => true
  | _ => false

/-- A call keeps the invariant when it is not a call on descriptors, a memory call, a job call, a
wait, a sleep, a `kill`, a call that takes a signal or one that sets an action, or when it does so
itself. -/
theorem routeSyscall_keeps_apart [UserKeeps I] [QuietSignals I]
    (hterm : ∀ pid code, Keeps I (terminateProcess pid code))
    (pid : Nat) [OwnSignals I pid] [BlindCaps I]
    (sys : Syscall) {w : World} (hw : I w)
    (hfile : sys.isFile → I ((routeSyscall pid sys).run w).2)
    (hmem : sys.isMemory → I ((routeSyscall pid sys).run w).2)
    (hjob : sys.isJob → I ((routeSyscall pid sys).run w).2)
    (hwait : ∀ target wstatus options, sys = .wait4 target wstatus options →
      I ((routeSyscall pid sys).run w).2)
    (hsleep : ∀ req rem, sys = .nanosleep req rem → I ((routeSyscall pid sys).run w).2)
    (hkill : ∀ target sig, sys = .kill target sig → I ((routeSyscall pid sys).run w).2)
    (hdequeue : sys.isDequeue → I ((routeSyscall pid sys).run w).2)
    (haction : ∀ signum act oldact size, sys = .rtSigaction signum act oldact size →
      I ((routeSyscall pid sys).run w).2) :
    I ((routeSyscall pid sys).run w).2 := by
  -- the calls that are left have no case of their own, and keep the invariant as they are
  cases sys with
  | clone | brk | mmap | munmap | mprotect | mremap | execve => exact hmem rfl
  | nanosleep req rem => exact hsleep req rem rfl
  | read | write | readv | writev | close | openat | lseek | fcntl | dup | dup3 | pipe2 =>
    exact hfile rfl
  | wait4 target wstatus options => exact hwait target wstatus options rfl
  | exit => exact keeps_unit (hterm _ _) w hw
  | kill target sig => exact hkill target sig rfl
  | setsid | setpgid => exact hjob rfl
  | setTidAddress => exact keeps_value (doSetTidAddress_keeps _ _) w hw
  | rtSigaction signum act oldact size => exact haction signum act oldact size rfl
  | rtSigprocmask => exact doRtSigprocmask_keeps _ _ _ _ w hw
  | rtSigpending => exact doRtSigpending_keeps _ _ _ w hw
  | rtSigtimedwait | rtSigsuspend => exact hdequeue rfl
  | rtSigreturn => exact doRtSigreturn_keeps w hw
  | ppoll => exact doPpoll_keeps _ _ _ _ _ w hw
  | futex => exact hw
  | userRead => exact keeps_unit (copyFromUser_keeps _ _ _) w hw
  | userWrite => exact keeps_unit (copyToUser_keeps _ _ _) w hw

/-- A call keeps the invariant when it is not a memory call, a job call, a wait, a sleep, a `kill`,
a call that takes a signal or one that sets an action, or when it does so itself. -/
theorem routeSyscall_keeps_but [UserKeeps I] [FilesKeeps I] [QuietSignals I]
    (hterm : ∀ pid code, Keeps I (terminateProcess pid code))
    (pid : Nat) [OwnSignals I pid] [BlindCaps I]
    (sys : Syscall) {w : World} (hw : I w)
    (hmem : sys.isMemory → I ((routeSyscall pid sys).run w).2)
    (hjob : sys.isJob → I ((routeSyscall pid sys).run w).2)
    (hwait : ∀ target wstatus options, sys = .wait4 target wstatus options →
      I ((routeSyscall pid sys).run w).2)
    (hsleep : ∀ req rem, sys = .nanosleep req rem → I ((routeSyscall pid sys).run w).2)
    (hkill : ∀ target sig, sys = .kill target sig → I ((routeSyscall pid sys).run w).2)
    (hdequeue : sys.isDequeue → I ((routeSyscall pid sys).run w).2)
    (haction : ∀ signum act oldact size, sys = .rtSigaction signum act oldact size →
      I ((routeSyscall pid sys).run w).2) :
    I ((routeSyscall pid sys).run w).2 :=
  routeSyscall_keeps_apart hterm pid sys hw (fun hfile => fileCall_keeps pid hfile w hw) hmem hjob
    hwait hsleep hkill hdequeue haction

/-- A call keeps the invariant when it is not a memory call, a job call, a wait, a sleep, a `kill`
or a call that takes a signal, or when it does so itself. -/
theorem routeSyscall_keeps_of [UserKeeps I] [FilesKeeps I] [QuietSignals I]
    (hterm : ∀ pid code, Keeps I (terminateProcess pid code))
    (pid : Nat) [OwnSignals I pid] [OwnActions I pid] [BlindCaps I]
    (sys : Syscall) {w : World} (hw : I w)
    (hmem : sys.isMemory → I ((routeSyscall pid sys).run w).2)
    (hjob : sys.isJob → I ((routeSyscall pid sys).run w).2)
    (hwait : ∀ target wstatus options, sys = .wait4 target wstatus options →
      I ((routeSyscall pid sys).run w).2)
    (hsleep : ∀ req rem, sys = .nanosleep req rem → I ((routeSyscall pid sys).run w).2)
    (hkill : ∀ target sig, sys = .kill target sig → I ((routeSyscall pid sys).run w).2)
    (hdequeue : sys.isDequeue → I ((routeSyscall pid sys).run w).2) :
    I ((routeSyscall pid sys).run w).2 :=
  routeSyscall_keeps_but hterm pid sys hw hmem hjob hwait hsleep hkill hdequeue
    fun _ _ _ _ hsys => hsys ▸ doRtSigaction_keeps _ _ _ _ w hw

/-- A call keeps the invariant when it is not a memory call, a job call, a wait or a sleep, or when
it does so itself. -/
theorem routeSyscall_keeps_at [UserKeeps I] [FilesKeeps I] [QuietSignals I] [ContKeeps I]
    [StopsKeeps I]
    (hterm : ∀ pid code, Keeps I (terminateProcess pid code))
    (pid : Nat) [OwnSignals I pid] [OwnActions I pid] [BlindCaps I] [hd : DequeueKeeps I pid]
    (sys : Syscall) {w : World} (hw : I w)
    (hmem : sys.isMemory → I ((routeSyscall pid sys).run w).2)
    (hjob : sys.isJob → I ((routeSyscall pid sys).run w).2)
    (hwait : ∀ target wstatus options, sys = .wait4 target wstatus options →
      I ((routeSyscall pid sys).run w).2)
    (hsleep : ∀ req rem, sys = .nanosleep req rem → I ((routeSyscall pid sys).run w).2) :
    I ((routeSyscall pid sys).run w).2 := by
  refine routeSyscall_keeps_of hterm pid sys hw hmem hjob hwait hsleep (fun target sig hsys => ?_)
    fun hsys => ?_
  · subst hsys
    exact doKill_keeps hterm _ _ _ w hw
  · cases sys with
    | rtSigtimedwait => exact hd.timedwait _ _ _ _ w hw
    | rtSigsuspend => exact hd.suspend _ _ w hw
    | _ => cases hsys

/-- The value that the outcome of a call stands for. -/
def World.retOf (w : World) : Except Err Int → Int
  | .ok ret => ret
  | .error e => w.mapErrorToErrno e

/-- A handled call ends with the routed call when that one sends no reply or does not return, and
else with the look for a signal after it. -/
theorem handleSyscall_cases (pid : Nat) (sys : Syscall) (w : World) :
    ((((routeSyscall pid sys).run w).1 = .error .success ∨
        ((routeSyscall pid sys).run w).1 = .error .stalled ∨
        ((routeSyscall pid sys).run w).1 = .error .panicked) ∧
      (handleSyscall pid sys).run w = (routeSyscall pid sys).run w) ∨
    (((routeSyscall pid sys).run w).1 ≠ .error .success ∧
      (handleSyscall pid sys).run w = (finishSyscall pid sys
        (((routeSyscall pid sys).run w).2.retOf ((routeSyscall pid sys).run w).1)).run
          ((routeSyscall pid sys).run w).2) := by
  rw [handleSyscall, run_bind_ok (run_attempt _ _)]
  rcases (routeSyscall pid sys).run w with ⟨e | ret, w'⟩
  · cases e with
    | success => exact .inl ⟨.inl rfl, rfl⟩
    | stalled => exact .inl ⟨.inr (.inl rfl), rfl⟩
    | panicked => exact .inl ⟨.inr (.inr rfl), rfl⟩
    | _ => exact .inr ⟨by simp, rfl⟩
  · exact .inr ⟨by simp, rfl⟩

/-- A handled call keeps the invariant when the call and its end do. -/
theorem handleSyscall_keeps_at {pid : Nat} {sys : Syscall}
    (hfinish : ∀ ret, Keeps I (finishSyscall pid sys ret)) {w : World}
    (hroute : I ((routeSyscall pid sys).run w).2) : I ((handleSyscall pid sys).run w).2 := by
  rcases handleSyscall_cases pid sys w with ⟨_, heq⟩ | ⟨_, heq⟩
  · rw [heq]
    exact hroute
  · rw [heq]
    exact hfinish _ _ hroute

/-- A served request keeps an invariant that does not see the caller when its handler does. -/
theorem dispatch_at_of_handle [hc : BlindCaller I] {r : Request} {w : World}
    (h : I ((handle r).run { w with activeCallerPid := r.caller }).2) :
    I ((dispatch r).run w).2 := by
  have hout : ∀ out : Except Err Int, I ((ofExcept out : M Int).run { ((handle r).run
      { w with activeCallerPid := r.caller }).2 with activeCallerPid := none }).2 :=
    fun out => Keeps.ofExcept out _ ((hc.caller _ _).mpr h)
  exact hout _

/-- The state after a handled page fault is the one after the fault. -/
theorem handle_pageFault_state (pid addr : Nat) (cause : FaultCause) (w : World) :
    ((handle (.pageFault pid addr cause)).run w).2 = ((pageFault pid addr cause).run w).2 := by
  unfold handle
  rw [run_bind]
  split <;> simp_all

/-- A request keeps the invariant when its memory call or its page fault does. -/
theorem dispatch_keeps_at [BlindControl I] [UserKeeps I] [FilesKeeps I]
    (hterm : ∀ pid code, Keeps I (terminateProcess pid code)) (r : Request) {w : World} (hw : I w)
    (hmem : ∀ pid sys, r = .syscall pid sys → sys.isMemory →
      I ((routeSyscall pid sys).run { w with activeCallerPid := some pid }).2)
    (hfault : ∀ pid addr cause, r = .pageFault pid addr cause →
      I ((pageFault pid addr cause).run { w with activeCallerPid := some pid }).2) :
    I ((dispatch r).run w).2 := by
  have hw' : I { w with activeCallerPid := r.caller } := (BlindCaller.caller w _).mpr hw
  refine dispatch_at_of_handle ?_
  cases r with
  | syscall pid sys =>
    refine handleSyscall_keeps_at (finishSyscall_keeps (hterm pid) sys) ?_
    refine routeSyscall_keeps_at hterm pid sys hw' (hmem pid sys rfl)
      (fun hsys => jobCall_keeps pid hsys _ hw')
        (fun _ _ _ hsys => hsys ▸ doWait4_keeps _ _ _ _ _ hw')
      fun req rem hsys => ?_
    subst hsys
    exact doNanosleep_keeps pid req rem _ hw'
  | pageFault pid addr cause =>
    rw [handle_pageFault_state]
    exact hfault pid addr cause rfl
  | fault pid kind => exact Keeps.bind (hterm _ _) (fun _ => Keeps.pure _) _ hw'
  | sleepDone pid requestId =>
    exact Keeps.bind (SleepsKeeps.complete _ _) (fun _ => Keeps.pure _) _ hw'

end Ape
