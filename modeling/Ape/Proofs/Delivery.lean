import Ape.Proofs.Sleeps
import Ape.Proofs.Signals

/-!
# `Ape.Proofs.Delivery`: the signal that a syscall return takes

A syscall return takes the lowest deliverable signal of its process, and what it makes of the
signal depends on the action only (`consume_result`). A signal that is ignored is no interruption
there. The other places that look for a signal test the mask alone: the deferred `nanosleep`,
`rt_sigsuspend`, and the loop of `ppoll`. `ignored_signal_iff` says in which states an ignored
signal is nevertheless noticed by none of them.
-/

set_option autoImplicit false

namespace Ape

open Ape.Lib Cmd

/-! ### The lowest signal of a set -/

/-- The lowest signal of a set is in it, and no lower one is. -/
theorem SigSet.lowest?_eq_some {s : SigSet} {i : Nat} :
    SigSet.lowest? s = some i ↔
      i < 64 ∧ s.getLsbD i = true ∧ ∀ j, j < i → s.getLsbD j = false := by
  rw [SigSet.lowest?, List.find?_range_eq_some, List.mem_range]
  simp only [Bool.not_eq_true']
  exact ⟨fun h => ⟨h.2.1, h.1, h.2.2⟩, fun h => ⟨h.2.1, h.1, h.2.2⟩⟩

/-- Only the empty set has no lowest signal. -/
theorem SigSet.lowest?_eq_none {s : SigSet} : SigSet.lowest? s = none ↔ s = 0 := by
  rw [SigSet.lowest?, List.find?_range_eq_none]
  constructor
  · intro h
    refine BitVec.eq_of_getLsbD_eq fun i hi => ?_
    simpa using h i hi
  · intro h i _
    rw [h]
    simp

/-! ### The return path -/

/-- What a syscall return makes of a signal with the action. -/
def SignalAction.effect (action : SignalAction) (signum : Nat) : PendingSignalAction :=
  if action.handler = SIG_IGN_HANDLER then .none
  else if action.handler ≠ SIG_DFL_HANDLER then .interrupt (action.flags &&& SA_RESTART != 0)
  else if defaultIgnoredSignal signum then .none
  else if defaultStopSignal signum then .interrupt false
  else if signum = SIGCONT then .none
  else .terminate (getExitCodeForSignal signum)

/-- The signal that a syscall return takes: the lowest one that is deliverable. -/
def TaskStruct.nextSignal (t : TaskStruct) : Option Nat :=
  (SigSet.lowest? t.signal.deliverable).map (· + 1)

/-- What a syscall return of the process makes of its signals. -/
def TaskStruct.returnEffect (t : TaskStruct) : PendingSignalAction :=
  t.nextSignal.elim .none fun signum => (t.signalAction signum).effect signum

/-- The state in which a signal was taken out of the pending set of the process. -/
def World.taken (w : World) (pid signum : Nat) (action : SignalAction) : World :=
  { w.modifySignal pid (·.clearPending (signum - 1)) with
    trace := w.trace ++ [.dequeued pid signum action] }

/-- To queue an event of a child cannot fail. -/
theorem recordChildChange_total (parentPid : Nat) (e : ChildStateEvent) :
    Total (recordChildChange parentPid e) :=
  Total.bind (Total.modify _) fun _ => Total.bind (Total.modify _) fun _ => Total.modify _

section Result

variable {w : World} {pid : Nat} {t : TaskStruct} (h : w.task? pid = some t)

include h

/-- A stop interrupts the call, also when the thread cannot be stopped. -/
theorem deliverStop_result (signum : Nat) :
    ((deliverStop pid signum).run w).1 = .ok (.interrupt false) := by
  have hdropped : Total markSignalDropped := Total.modify _
  have hskewed : Total markStopSkewed := Total.modify _
  rw [deliverStop, run_bind_ok (run_getProcess h)]
  refine Returns.bind (Total.attempt _) (fun r => ?_) w
  refine Returns.bind (Total.when hdropped) fun _ => ?_
  refine Returns.bind (Total.when (setStopped_total _ _)) fun _ => ?_
  exact Returns.bind (Total.when (Total.bind (Total.when hskewed) fun _ =>
    recordChildChange_total _ _)) fun _ => Returns.pure _

/-- A continuation does not interrupt the call. -/
theorem deliverCont_result : ((deliverCont pid).run w).1 = .ok .none := by
  have hdropped : Total markSignalDropped := Total.modify _
  have hskewed : Total markStopSkewed := Total.modify _
  rw [deliverCont, run_bind_ok (run_getProcess h)]
  refine Returns.bind (Total.attempt _) (fun r => ?_) w
  refine Returns.bind (Total.when hdropped) fun _ => ?_
  refine Returns.bind (Total.when (setStopped_total _ _)) fun _ => ?_
  exact Returns.bind (Total.when (Total.bind (Total.when hskewed) fun _ =>
    recordChildChange_total _ _)) fun _ => Returns.pure _

/-- The delivery of a signal to a process that is there does not fail, and returns what the action
stands for. -/
theorem deliverSignal_result (signum : Nat) (action : SignalAction) :
    ((deliverSignal pid signum action).run w).1 = .ok (action.effect signum) := by
  unfold deliverSignal SignalAction.effect
  split
  · rfl
  split
  · have hdropped : Total markSignalDropped := Total.modify _
    rw [run_bind_ok (run_getProcess h)]
    exact Returns.bind (Total.attempt _) (fun r =>
      Returns.bind (Total.when hdropped) fun _ => Returns.pure _) w
  split
  · rfl
  split
  · exact deliverStop_result h signum
  split
  · exact deliverCont_result h
  · rfl

omit h in
/-- Deliverable signals are pending. -/
theorem SignalStruct.pending_and_deliverable (s : SignalStruct) :
    s.signalPending &&& s.deliverable = s.deliverable := by
  rw [SignalStruct.deliverable, ← BitVec.and_assoc, BitVec.and_self]

/-- The lowest pending signal of a set is taken out of the pending set. -/
theorem run_popPendingSignalFromMask (mask : SigSet) :
    (popPendingSignalFromMask pid mask).run w =
      match SigSet.lowest? (t.signal.signalPending &&& mask) with
      | none => (.ok none, w)
      | some idx => (.ok (some (idx + 1)), { w.modifySignal pid (·.clearPending idx) with
          trace := w.trace ++ [.dequeued pid (idx + 1) (t.signalAction (idx + 1))] }) := by
  rw [popPendingSignalFromMask, run_bind_ok (run_getProcess h)]
  cases SigSet.lowest? (t.signal.signalPending &&& mask) <;> rfl

/-- A syscall return takes the lowest deliverable signal and delivers it. -/
theorem run_consume :
    (consumeDeliverableSignalOnSyscallReturn pid).run w =
      match t.nextSignal with
      | none => (.ok .none, w)
      | some signum => (deliverSignal pid signum (t.signalAction signum)).run
          (w.taken pid signum (t.signalAction signum)) := by
  have hpop := run_popPendingSignalFromMask h t.signal.deliverable
  rw [t.signal.pending_and_deliverable] at hpop
  rw [consumeDeliverableSignalOnSyscallReturn, run_gets_bind, h, TaskStruct.nextSignal]
  cases hlow : SigSet.lowest? t.signal.deliverable with
  | none =>
    rw [hlow] at hpop
    rw [run_bind_ok hpop]
    rfl
  | some idx =>
    rw [hlow] at hpop
    rw [run_bind_ok hpop]
    rfl

/-- The process after a signal was taken has it no longer pending. -/
theorem World.task?_taken (signum : Nat) (action : SignalAction) :
    (w.taken pid signum action).task? pid
      = some { t with signal := t.signal.clearPending (signum - 1) } := by
  have htask : w.tasks.get? pid = some t := h
  show (w.tasks.modify pid _).get? pid = _
  rw [OrdMap.get?_modify, if_pos rfl, htask]
  rfl

/-- The result of a syscall return is that of the lowest deliverable signal. -/
theorem consume_result :
    ((consumeDeliverableSignalOnSyscallReturn pid).run w).1 = .ok t.returnEffect := by
  rw [run_consume h, TaskStruct.returnEffect]
  cases t.nextSignal with
  | none => rfl
  | some signum => exact deliverSignal_result (World.task?_taken h _ _) _ _

end Result

/-! ### Ignored signals -/

/-- A syscall return treats an ignored signal as no interruption. -/
theorem SignalAction.effect_of_ignores {action : SignalAction} {signum : Nat}
    (h : action.ignores signum = true) : action.effect signum = .none := by
  unfold SignalAction.effect
  split
  · rfl
  · rename_i hign
    have hdfl : action.handler = SIG_DFL_HANDLER ∧ defaultIgnoredSignal signum = true := by
      simpa [SignalAction.ignores, hign] using h
    rw [if_neg (fun hne => hne hdfl.1), if_pos hdfl.2]

/-- The mask that the process gets back at the end of a `rt_sigsuspend`. -/
def World.savedMaskOf (pid : Nat) (w : World) : Option SigSet :=
  (w.signalsOf pid).bind (·.sigsuspendSavedMask)

/-- No syscall of the process can tell the two states apart by their signals: its deferred
`nanosleep` and its `rt_sigsuspend` go on, a look for a deliverable signal has the same answer,
under its mask and under every temporary one, and so has the next syscall return. -/
structure World.SameWaits (pid : Nat) (w w' : World) : Prop where
  sleep : w'.pendingSleepReplies.get? pid = w.pendingSleepReplies.get? pid
  suspended : w'.savedMaskOf pid = w.savedMaskOf pid
  deliverable : w'.hasDeliverableSignal pid = w.hasDeliverableSignal pid
  masked : ∀ mask, (w'.modifySignal pid (·.setBlocked mask)).hasDeliverableSignal pid
    = (w.modifySignal pid (·.setBlocked mask)).hasDeliverableSignal pid
  returned : ((consumeDeliverableSignalOnSyscallReturn pid).run w').1
    = ((consumeDeliverableSignalOnSyscallReturn pid).run w).1

/-- The signal, or one that cannot be blocked, is pending. -/
def TaskStruct.Foreseen (t : TaskStruct) (bit : SigSet) : Prop :=
  t.signal.signalPending &&& (bit ||| SIGNAL_UNBLOCKABLE_MASK) ≠ 0

/-- The arriving signal does not come before a signal that a syscall return would act on. -/
def TaskStruct.Behind (t : TaskStruct) (signum : Nat) : Prop :=
  (t.signal.signalPending ||| t.signal.signalBlocked).getLsbD (signum - 1) = true ∨
    ∃ next, t.nextSignal = some next ∧
      (next < signum ∨ (t.signalAction next).effect next = .none)

/-- The states in which an ignored signal is noticed by nothing. -/
def World.Unnoticed (w : World) (pid : Nat) (t : TaskStruct) (signum : Nat) (bit : SigSet) : Prop :=
  t.Foreseen bit ∧
    ((t.signal.queueSignal bit).deliverable = 0 ∨
      w.pendingSleepReplies.get? pid = none ∧ t.signal.sigsuspendSavedMask = none ∧
        t.signal.deliverable ≠ 0 ∧ t.Behind signum)

/-- The state after a signal was queued, with nothing to wake. -/
def World.afterQueue (w : World) (pid signum : Nat) (bit : SigSet) : World :=
  { w.modifySignal pid (·.queueSignal bit) with trace := w.trace ++ [.queued pid signum] }

section Queue

variable {w : World} {pid : Nat} {t : TaskStruct}

/-- The process after a signal arrived has it pending. -/
theorem World.task?_afterQueue (h : w.task? pid = some t) (signum : Nat) (bit : SigSet) :
    (w.afterQueue pid signum bit).task? pid = some
    { t with signal := t.signal.queueSignal bit } := by
  show (w.tasks.modify pid _).get? pid = _
  rw [OrdMap.get?_modify, if_pos rfl]
  have htask : w.tasks.get? pid = some t := h
  rw [htask]
  rfl

variable {signum : Nat} {bit : SigSet}

/-- Without a deferred sleep and a saved mask, or without a deliverable signal, a signal is only
put into the pending set. -/
theorem queueProcessSignal_idle (h : w.task? pid = some t) (hbit : signalBit signum = some bit)
    (hidle : (t.signal.queueSignal bit).deliverable = 0 ∨
      w.pendingSleepReplies.get? pid = none ∧ t.signal.sigsuspendSavedMask = none) :
    ((queueProcessSignal pid signum).run w).2
      = ((noteWaitIntr pid).run (w.afterQueue pid signum bit)).2 := by
  -- nobody waits for the signal, so the two wakes do nothing
  have hsleep : (when ((t.signal.queueSignal bit).deliverable ≠ 0)
      (interruptPendingSleepReply pid)).run (w.afterQueue pid signum bit)
        = (.ok (), w.afterQueue pid signum bit) := by
    rcases hidle with hzero | ⟨hnone, _⟩
    · rw [when_neg (not_not.mpr hzero)]
      rfl
    · by_cases hd : (t.signal.queueSignal bit).deliverable ≠ 0
      · have hnone' : (w.afterQueue pid signum bit).pendingSleepReplies.get? pid = none := hnone
        rw [when_pos hd, interruptPendingSleepReply, run_gets_bind, hnone']
        rfl
      · rw [when_neg hd]
        rfl
  have hwake : ¬ ((t.signal.queueSignal bit).sigsuspendSavedMask.isSome ∧
      (t.signal.queueSignal bit).deliverable ≠ 0) := by
    rintro ⟨hsaved, hd⟩
    rcases hidle with hzero | ⟨_, hnone⟩
    · exact hd hzero
    · have hsaved' : t.signal.sigsuspendSavedMask.isSome = true := hsaved
      rw [hnone] at hsaved'
      cases hsaved'
  have hrun : (queueProcessSignal pid signum).run w = (do
      when ((t.signal.queueSignal bit).deliverable ≠ 0) (interruptPendingSleepReply pid)
      when ((t.signal.queueSignal bit).sigsuspendSavedMask.isSome ∧
        (t.signal.queueSignal bit).deliverable ≠ 0) (wakeFromSigsuspend pid)
      noteWaitIntr pid : M Unit).run (w.afterQueue pid signum bit) := by
    rw [queueProcessSignal, run_gets_bind, h, hbit]
    rfl
  rw [hrun, run_bind_ok hsleep, when_neg hwake]
  rfl

/-- To end a sleep cannot fail. -/
theorem interruptPendingSleepReply_total (pid : Nat) : Total (interruptPendingSleepReply pid) := by
  refine Total.bind (Total.gets _) fun pending => Total.whenSome fun p => ?_
  refine Total.bind (Total.modify _) fun _ => Total.bind (Total.attempt _) fun now => ?_
  refine Total.bind (storeForReply_total _ _ _ _) fun final => ?_
  exact Total.bind (Total.bind (Total.modify _) fun _ => Total.modify _) fun _ => Total.modify _

/-- To end a `rt_sigsuspend` cannot fail. -/
theorem wakeFromSigsuspend_total (pid : Nat) : Total (wakeFromSigsuspend pid) :=
  Total.bind (Total.gets _) fun _ => Total.whenSome fun _ =>
    Total.when (Total.bind (Total.modify _) fun _ => Total.ignore _)

/-- The arrival of a signal cannot fail. -/
theorem queueProcessSignal_total (pid signum : Nat) : Total (queueProcessSignal pid signum) := by
  refine Total.bind (Total.gets _) fun _ => Total.whenSome fun _ => Total.whenSome fun _ => ?_
  refine Total.bind (Total.modify _) fun _ => Total.bind (Total.modify _) fun _ => ?_
  exact Total.bind (Total.when (interruptPendingSleepReply_total pid)) fun _ =>
    Total.bind (Total.when (wakeFromSigsuspend_total pid)) fun _ => Total.modify _

/-- The end of a deferred sleep takes it out of the table, and leaves the signals alone. -/
theorem interruptPendingSleepReply_view (pid : Nat) (w : World) :
    ((interruptPendingSleepReply pid).run w).2.quietView
      = { w.quietView with pending := w.pendingSleepReplies.erase pid } := by
  rw [interruptPendingSleepReply, run_gets_bind]
  cases hp : w.pendingSleepReplies.get? pid with
  | none =>
    rw [OrdMap.erase_of_get?_none _ hp]
    rfl
  | some p =>
    have hrest : Frames World.quietView (attempt monoNow : M _) :=
      Frames.of_keeps fun v => by simp
    show ((Cmd.run (_ >>= _) w).2).quietView = _
    rw [run_modify_bind, run_bind]
    split
    · rename_i now w' hnow
      rw [replyPendingSleep_quietView]
      exact (congrArg (fun r => World.quietView r.2) hnow).symm.trans (hrest _)
    · rename_i e w' hnow
      exact (congrArg (fun r => World.quietView r.2) hnow).symm.trans (hrest _)

/-- A mask that was put back is no longer saved. -/
theorem restoreMask_saved (s : SignalStruct) : s.restoreMask.sigsuspendSavedMask = none := by
  unfold SignalStruct.restoreMask
  cases hs : s.sigsuspendSavedMask with
  | none => exact hs
  | some old => rfl

/-- Without a saved mask there is nothing to put back. -/
theorem restoreMask_of_none {s : SignalStruct} (h : s.sigsuspendSavedMask = none) :
    s.restoreMask = s := by
  unfold SignalStruct.restoreMask
  rw [h]

/-- No `nanosleep` of the process is going on, and these are its signals. -/
def World.Woken (pid : Nat) (s : SignalStruct) (w : World) : Prop :=
  w.pendingSleepReplies.get? pid = none ∧ w.signalsOf pid = some s

/-- A command that is quiet about signals and sleeps leaves a process woken. -/
theorem Frames.woken {α : Type} {c : M α} {s : SignalStruct} (h : Frames World.quietView c) :
    Keeps (World.Woken pid s) c :=
  h.keeps fun v => v.pending.get? pid = none ∧ v.signals pid = some s

/-- The end of a `rt_sigsuspend` gives the mask back. -/
theorem wakeFromSigsuspend_woken {s : SignalStruct} (hd : s.deliverable ≠ 0)
    (hs : s.sigsuspendSavedMask.isSome = true) :
    Triple (World.Woken pid s) (wakeFromSigsuspend pid) (fun _ => World.Woken pid s.restoreMask)
      (fun _ => World.Woken pid s.restoreMask) := by
  refine Triple.bind (R := fun o w => w.Woken pid s ∧ w.task? pid = o)
    (Triple.gets fun w h => ⟨h, rfl⟩) fun task => ?_
  refine Triple.whenSome ?_ ?_
  · intro t ht
    subst ht
    refine Triple.when (fun _ => ?_) fun w hno h => absurd (And.intro hs hd) ?_
    · refine Triple.bind (R := fun _ => World.Woken pid s.restoreMask) ?_
        fun _ => (Frames.woken (Frames.of_keeps fun v => by simp)).triple
      refine Triple.modify fun w h => ⟨h.1.1, ?_⟩
      rw [World.signalsOf_modifySignal, if_pos rfl, h.1.2]
      rfl
    · have hsig : w.signalsOf pid = some s := h.1.2
      rw [World.signalsOf, h.2] at hsig
      rw [← Option.some.inj hsig]
      exact hno
  · intro w hnone h
    have hsig : w.signalsOf pid = some s := h.1.2
    rw [World.signalsOf, h.2, hnone] at hsig
    cases hsig

/-- What a signal that is queued does to its process when one is deliverable. -/
theorem queueProcessSignal_deliverable_run (h : w.task? pid = some t)
    (hbit : signalBit signum = some bit) (hd : (t.signal.queueSignal bit).deliverable ≠ 0) :
    (queueProcessSignal pid signum).run w = (do
      interruptPendingSleepReply pid
      when ((t.signal.queueSignal bit).sigsuspendSavedMask.isSome ∧
        (t.signal.queueSignal bit).deliverable ≠ 0) (wakeFromSigsuspend pid)
      noteWaitIntr pid : M Unit).run (w.afterQueue pid signum bit) := by
  rw [queueProcessSignal, run_gets_bind, h, hbit]
  dsimp only [whenSome]
  rw [when_pos hd]
  rfl

/-- The interruption of a sleep leaves the process awake, with the signals it had. -/
theorem interruptPendingSleepReply_woken (h : w.task? pid = some t) (signum : Nat) (bit : SigSet) :
    Triple (fun w' => w' = w.afterQueue pid signum bit) (interruptPendingSleepReply pid)
      (fun _ => World.Woken pid (t.signal.queueSignal bit))
      (fun _ => World.Woken pid (t.signal.queueSignal bit)) := by
  rintro _ rfl
  have hview := interruptPendingSleepReply_view pid (w.afterQueue pid signum bit)
  have hpending : ((interruptPendingSleepReply pid).run
      (w.afterQueue pid signum bit)).2.pendingSleepReplies = w.pendingSleepReplies.erase pid :=
    congrArg QuietView.pending hview
  have hsignals := congrFun (congrArg QuietView.signals hview) pid
  have hwoken : ((interruptPendingSleepReply pid).run (w.afterQueue pid signum bit)).2.Woken pid
      (t.signal.queueSignal bit) := by
    refine ⟨?_, hsignals.trans ?_⟩
    · rw [hpending]
      exact OrdMap.get?_erase_self _ _
    · show (w.afterQueue pid signum bit).signalsOf pid = _
      rw [World.signalsOf, World.task?_afterQueue h signum bit]
      rfl
  refine ⟨fun _ _ => hwoken, ?_⟩
  intro e he
  exact absurd he (interruptPendingSleepReply_total pid _ e)

/-- A deliverable signal ends the deferred sleep and the `rt_sigsuspend` of its process. -/
theorem queueProcessSignal_wakes (h : w.task? pid = some t) (hbit : signalBit signum = some bit)
    (hd : (t.signal.queueSignal bit).deliverable ≠ 0) :
    ((queueProcessSignal pid signum).run w).2.Woken pid (t.signal.queueSignal bit).restoreMask := by
  rw [queueProcessSignal_deliverable_run h hbit hd]
  refine Triple.ends (P := fun w' => w' = w.afterQueue pid signum bit)
    (R := World.Woken pid (t.signal.queueSignal bit).restoreMask) ?_ rfl
  refine Triple.bind (R := fun _ => World.Woken pid (t.signal.queueSignal bit)) ?_ fun _ => ?_
  · exact (interruptPendingSleepReply_total pid).triple
      (interruptPendingSleepReply_woken h signum bit)
  · refine Triple.bind (R := fun _ => World.Woken pid (t.signal.queueSignal bit).restoreMask) ?_
      fun _ => Triple.modify fun w h => h
    refine Triple.when (fun hp => wakeFromSigsuspend_woken hd hp.1) fun w hno h => ?_
    rw [restoreMask_of_none (Option.not_isSome_iff_eq_none.mp fun hs => hno ⟨hs, hd⟩)]
    exact h

end Queue

section Sets

variable {signum : Nat} {t : TaskStruct} {bit : SigSet}

/-- A set with a signal in it is not empty. -/
theorem SigSet.ne_zero_iff {s : SigSet} : s ≠ 0 ↔ ∃ i, i < 64 ∧ s.getLsbD i = true := by
  constructor
  · intro h
    obtain ⟨i, hi⟩ := Option.ne_none_iff_exists'.mp (mt SigSet.lowest?_eq_none.mp h)
    exact ⟨i, (SigSet.lowest?_eq_some.mp hi).1, (SigSet.lowest?_eq_some.mp hi).2.1⟩
  · rintro ⟨i, _, hi⟩ hzero
    rw [hzero] at hi
    simp at hi

/-- The process with one more pending signal. -/
def TaskStruct.queued (t : TaskStruct) (bit : SigSet) : TaskStruct :=
  { t with signal := t.signal.queueSignal bit }

/-- A signal is deliverable when it is pending and not blocked. -/
theorem SignalStruct.deliverable_bit (s : SignalStruct) {i : Nat} (hi : i < 64) :
    s.deliverable.getLsbD i = (s.signalPending.getLsbD i && !s.signalBlocked.getLsbD i) := by
  rw [SignalStruct.deliverable, BitVec.getLsbD_and, BitVec.getLsbD_not]
  simp [hi]

/-- A signal that arrives is deliverable when it is not blocked. -/
theorem SignalStruct.queueSignal_bit (hbit : signalBit signum = some bit) (s : SignalStruct)
    {i : Nat} (hi : i < 64) : (s.queueSignal bit).deliverable.getLsbD i =
      ((s.signalPending.getLsbD i || decide (i = signum - 1)) && !s.signalBlocked.getLsbD i) := by
  obtain ⟨_, rfl⟩ := signalBit_some hbit
  rw [SignalStruct.deliverable_bit _ hi]
  show ((s.signalPending ||| _).getLsbD i && _) = _
  rw [BitVec.getLsbD_or, getLsbD_bit _ _ hi]
  rfl

/-- A new mask blocks what it says, except for the signals that cannot be blocked. -/
theorem SignalStruct.setBlocked_bit (s : SignalStruct) (mask : SigSet) {i : Nat} (hi : i < 64) :
    (s.setBlocked mask).signalBlocked.getLsbD i
      = (mask.getLsbD i && !SIGNAL_UNBLOCKABLE_MASK.getLsbD i) := by
  show (mask &&& ~~~SIGNAL_UNBLOCKABLE_MASK).getLsbD i = _
  rw [BitVec.getLsbD_and, BitVec.getLsbD_not]
  simp [hi]

/-- A signal with a bit is one of sixty-four. -/
theorem signalBit_lt (hbit : signalBit signum = some bit) : signum - 1 < 64 := by
  unfold signalBit SIGNAL_MAX at hbit
  split at hbit
  · omega
  · cases hbit

/-- A deliverable signal stays one when another is queued. -/
theorem queueSignal_deliverable_ne (hbit : signalBit signum = some bit) {s : SignalStruct}
    (h : s.deliverable ≠ 0) : (s.queueSignal bit).deliverable ≠ 0 := by
  obtain ⟨i, hi, hbit'⟩ := SigSet.ne_zero_iff.mp h
  refine SigSet.ne_zero_iff.mpr ⟨i, hi, ?_⟩
  rw [SignalStruct.deliverable_bit _ hi, Bool.and_eq_true] at hbit'
  rw [SignalStruct.queueSignal_bit hbit _ hi, hbit'.1, hbit'.2]
  rfl

/-- No temporary mask shows a signal that was not there before, exactly when the signal or one that
cannot be blocked was pending. -/
theorem foreseen_iff (hbit : signalBit signum = some bit) :
    (∀ mask, ((t.queued bit).signal.setBlocked mask).deliverable ≠ 0 ↔
      (t.signal.setBlocked mask).deliverable ≠ 0) ↔ t.Foreseen bit := by
  have hlt := signalBit_lt hbit
  have hone : ∀ i, i < 64 → bit.getLsbD i = decide (i = signum - 1) := by
    intro i hi
    rw [(signalBit_some hbit).2, getLsbD_bit _ _ hi]
  constructor
  · intro h
    -- the mask that blocks every other signal
    have hnew : ((t.queued bit).signal.setBlocked (~~~bit)).deliverable ≠ 0 := by
      refine SigSet.ne_zero_iff.mpr ⟨signum - 1, hlt, ?_⟩
      show ((t.signal.setBlocked (~~~bit)).queueSignal bit).deliverable.getLsbD _ = true
      rw [SignalStruct.queueSignal_bit hbit _ hlt, SignalStruct.setBlocked_bit _ _ hlt,
        BitVec.getLsbD_not, hone _ hlt]
      simp
    obtain ⟨i, hi, hold⟩ := SigSet.ne_zero_iff.mp ((h _).mp hnew)
    rw [SignalStruct.deliverable_bit _ hi, SignalStruct.setBlocked_bit _ _ hi, Bool.and_eq_true,
      BitVec.getLsbD_not] at hold
    refine SigSet.ne_zero_iff.mpr ⟨i, hi, ?_⟩
    have hpending : t.signal.signalPending.getLsbD i = true := hold.1
    rw [BitVec.getLsbD_and, BitVec.getLsbD_or, hpending]
    cases hb : bit.getLsbD i
    · have hmask := hold.2
      rw [hb] at hmask
      simpa [hi] using hmask
    · rfl
  · intro h mask
    obtain ⟨i, hi, hpending⟩ := SigSet.ne_zero_iff.mp h
    rw [BitVec.getLsbD_and, BitVec.getLsbD_or, Bool.and_eq_true, Bool.or_eq_true] at hpending
    refine ⟨?_, fun hold => queueSignal_deliverable_ne hbit hold⟩
    intro hnew
    have hnew' : ((t.signal.setBlocked mask).queueSignal bit).deliverable ≠ 0 := hnew
    obtain ⟨j, hj, hnew'⟩ := SigSet.ne_zero_iff.mp hnew'
    rw [SignalStruct.queueSignal_bit hbit _ hj, Bool.and_eq_true, Bool.or_eq_true] at hnew'
    by_cases hjp : t.signal.signalPending.getLsbD j = true
    · refine SigSet.ne_zero_iff.mpr ⟨j, hj, ?_⟩
      rw [SignalStruct.deliverable_bit _ hj, Bool.and_eq_true]
      exact ⟨hjp, hnew'.2⟩
    · have hjs : j = signum - 1 := by simpa using hnew'.1.resolve_left hjp
      refine SigSet.ne_zero_iff.mpr ⟨i, hi, ?_⟩
      rw [SignalStruct.deliverable_bit _ hi, Bool.and_eq_true, SignalStruct.setBlocked_bit _ _ hi]
      refine ⟨hpending.1, ?_⟩
      rcases hpending.2 with hb | hu
      · rw [hone _ hi] at hb
        have hij : i = j := by rw [hjs]; simpa using hb
        exact absurd (hij ▸ hpending.1) hjp
      · rw [hu]
        simp

/-- The next signal is the lowest deliverable one. -/
theorem TaskStruct.nextSignal_eq_some {i : Nat} :
    t.nextSignal = some (i + 1) ↔ SigSet.lowest? t.signal.deliverable = some i := by
  rw [TaskStruct.nextSignal]
  simp

/-- The effect of a return is that of the action of the next signal. -/
theorem TaskStruct.returnEffect_of_next {next : Nat} (h : t.nextSignal = some next) :
    t.returnEffect = (t.signalAction next).effect next := by rw [TaskStruct.returnEffect, h]; rfl

/-- Among the deliverable signals of the process, an ignored one that is queued changes what a
syscall return makes of them unless it comes after a signal that matters. -/
theorem behind_iff (hbit : signalBit signum = some bit)
    (hign : (t.signalAction signum).ignores signum = true) (hd : t.signal.deliverable ≠ 0) :
    (t.queued bit).returnEffect = t.returnEffect ↔ t.Behind signum := by
  have hlt := signalBit_lt hbit
  have hpos : 1 ≤ signum := (signalBit_some hbit).1
  obtain ⟨i, hi⟩ := Option.ne_none_iff_exists'.mp (mt SigSet.lowest?_eq_none.mp hd)
  -- the signal that the return took before the new one was there
  have hnext : t.nextSignal = some (i + 1) := TaskStruct.nextSignal_eq_some.mpr hi
  obtain ⟨hi64, hset, hlow⟩ := SigSet.lowest?_eq_some.mp hi
  by_cases hold : (t.signal.signalPending ||| t.signal.signalBlocked).getLsbD (signum - 1) = true
  · -- the set of the deliverable signals stays as it was
    refine iff_of_true ?_ (.inl hold)
    have hsame : (t.queued bit).signal.deliverable = t.signal.deliverable := by
      refine BitVec.eq_of_getLsbD_eq fun j hj => ?_
      show (t.signal.queueSignal bit).deliverable.getLsbD j = _
      rw [SignalStruct.queueSignal_bit hbit _ hj, SignalStruct.deliverable_bit _ hj]
      by_cases hjs : j = signum - 1
      · rw [BitVec.getLsbD_or, ← hjs, Bool.or_eq_true] at hold
        rcases hold with h | h <;> rw [h] <;> simp
      · simp [hjs]
    rw [TaskStruct.returnEffect, TaskStruct.nextSignal, hsame]
    rfl
  -- the new signal is free, so it joins the deliverable ones
  · have hnew : ∀ j, j < 64 → (t.queued bit).signal.deliverable.getLsbD j
        = (t.signal.deliverable.getLsbD j || decide (j = signum - 1)) := by
      intro j hj
      show (t.signal.queueSignal bit).deliverable.getLsbD j = _
      rw [SignalStruct.queueSignal_bit hbit _ hj, SignalStruct.deliverable_bit _ hj]
      by_cases hjs : j = signum - 1
      · rw [BitVec.getLsbD_or, ← hjs, Bool.or_eq_true, not_or] at hold
        rw [Bool.eq_false_iff.mpr hold.2]
        simp
      · simp [hjs]
    by_cases horder : i < signum - 1
    · -- a lower signal is still taken first
      refine iff_of_true ?_ (.inr ⟨i + 1, hnext, .inl (by omega)⟩)
      have hnext' : (t.queued bit).nextSignal = some (i + 1) := by
        refine TaskStruct.nextSignal_eq_some.mpr
          (SigSet.lowest?_eq_some.mpr ⟨hi64, ?_, fun j hj => ?_⟩)
        · rw [hnew i hi64, hset]
          rfl
        · have hne : j ≠ signum - 1 := by omega
          rw [hnew j (by omega), hlow j hj]
          simp [hne]
      rw [TaskStruct.returnEffect_of_next hnext, TaskStruct.returnEffect_of_next hnext']
      rfl
    · -- the ignored signal hides the others
      have hfree : t.signal.deliverable.getLsbD (signum - 1) = false := by
        rw [BitVec.getLsbD_or, Bool.or_eq_true, not_or] at hold
        rw [SignalStruct.deliverable_bit _ hlt, Bool.eq_false_iff.mpr hold.1]
        rfl
      have hne : i ≠ signum - 1 := fun heq => by rw [← heq, hset] at hfree; cases hfree
      have hnext' : (t.queued bit).nextSignal = some signum := by
        have hsucc : signum = signum - 1 + 1 := by omega
        rw [hsucc]
        refine TaskStruct.nextSignal_eq_some.mpr
          (SigSet.lowest?_eq_some.mpr ⟨hlt, ?_, fun j hj => ?_⟩)
        · rw [hnew _ hlt]
          simp
        · have hjne : j ≠ signum - 1 := by omega
          rw [hnew j (by omega), hlow j (by omega)]
          simp [hjne]
      rw [TaskStruct.returnEffect_of_next hnext, TaskStruct.returnEffect_of_next hnext']
      have hnone : ((t.queued bit).signalAction signum).effect signum = .none :=
        SignalAction.effect_of_ignores hign
      rw [hnone]
      constructor
      · exact fun h => .inr ⟨i + 1, hnext, .inr h.symm⟩
      · rintro (h | ⟨next, hn, h⟩)
        · exact absurd h hold
        · have heq : next = i + 1 := Option.some.inj (hn.symm.trans hnext)
          subst heq
          rcases h with h | h
          · omega
          · exact h.symm

end Sets

section Noticed

variable {w : World} {pid signum : Nat} {t : TaskStruct} {bit : SigSet}

/-- A process has a deliverable signal when the set of them is not empty. -/
theorem World.hasDeliverableSignal_of_task (h : w.task? pid = some t) :
    w.hasDeliverableSignal pid = (t.signal.deliverable != 0) := by
  rw [World.hasDeliverableSignal, h]

/-- What a changed signal state makes deliverable. -/
theorem World.hasDeliverableSignal_modifySignal (h : w.task? pid = some t)
    (f : SignalStruct → SignalStruct) :
    (w.modifySignal pid f).hasDeliverableSignal pid = ((f t.signal).deliverable != 0) := by
  have htask : w.tasks.get? pid = some t := h
  refine World.hasDeliverableSignal_of_task (t := { t with signal := f t.signal }) ?_
  show (w.tasks.modify pid _).get? pid = _
  rw [OrdMap.get?_modify, if_pos rfl, htask]
  rfl

/-- The saved mask of a process is in its record. -/
theorem World.savedMaskOf_of_task (h : w.task? pid = some t) :
    w.savedMaskOf pid = t.signal.sigsuspendSavedMask := by
  rw [World.savedMaskOf, World.signalsOf, h]
  rfl

/-- When there is nothing to wake, the states differ for the process as its sets do. -/
theorem sameWaits_idle (h : w.task? pid = some t) (hbit : signalBit signum = some bit)
    (hidle : (t.queued bit).signal.deliverable = 0 ∨
      w.pendingSleepReplies.get? pid = none ∧ t.signal.sigsuspendSavedMask = none) :
    w.SameWaits pid ((queueProcessSignal pid signum).run w).2 ↔
      ((t.queued bit).signal.deliverable ≠ 0 ↔ t.signal.deliverable ≠ 0) ∧ t.Foreseen bit ∧
        (t.queued bit).returnEffect = t.returnEffect := by
  let w' : World := ((noteWaitIntr pid).run (w.afterQueue pid signum bit)).2
  have hrun : ((queueProcessSignal pid signum).run w).2 = w' := queueProcessSignal_idle h hbit hidle
  have h' : w'.task? pid = some (t.queued bit) :=
    World.task?_afterQueue h signum bit
  -- each part of `SameWaits` is a statement about the record alone
  have hdeliverable : w'.hasDeliverableSignal pid = w.hasDeliverableSignal pid ↔
      ((t.queued bit).signal.deliverable ≠ 0 ↔ t.signal.deliverable ≠ 0) := by
    rw [World.hasDeliverableSignal_of_task h, World.hasDeliverableSignal_of_task h',
      Bool.eq_iff_iff,
      bne_iff_ne, bne_iff_ne]
  have hmasked : (∀ mask, (w'.modifySignal pid (·.setBlocked mask)).hasDeliverableSignal pid
      = (w.modifySignal pid (·.setBlocked mask)).hasDeliverableSignal pid) ↔ t.Foreseen bit := by
    rw [← foreseen_iff hbit]
    refine forall_congr' fun mask => ?_
    rw [World.hasDeliverableSignal_modifySignal h, World.hasDeliverableSignal_modifySignal h',
      Bool.eq_iff_iff, bne_iff_ne, bne_iff_ne]
  have hreturned : ((consumeDeliverableSignalOnSyscallReturn pid).run w').1
      = ((consumeDeliverableSignalOnSyscallReturn pid).run w).1 ↔
        (t.queued bit).returnEffect = t.returnEffect := by
    rw [consume_result h, consume_result h', Except.ok.injEq]
  rw [hrun]
  constructor
  · exact fun hs => ⟨hdeliverable.mp hs.deliverable, hmasked.mp hs.masked, hreturned.mp hs.returned⟩
  · rintro ⟨hd, hm, hr⟩
    refine ⟨rfl, ?_, hdeliverable.mpr hd, hmasked.mpr hm, hreturned.mpr hr⟩
    rw [World.savedMaskOf_of_task h, World.savedMaskOf_of_task h']
    rfl

/-- An ignored signal that is queued is noticed by no call of its process exactly when it, or one
that cannot be blocked, was pending before, and either no signal is deliverable or nothing of the
process waits, a signal was deliverable before, and the ignored one does not come before it. -/
theorem ignored_signal_iff (h : w.task? pid = some t) (hbit : signalBit signum = some bit)
    (hign : (t.signalAction signum).ignores signum = true) :
    w.SameWaits pid ((queueProcessSignal pid signum).run w).2 ↔ w.Unnoticed pid t signum bit := by
  by_cases hzero : (t.queued bit).signal.deliverable = 0
  · have hold : t.signal.deliverable = 0 := by
      by_contra hne
      exact queueSignal_deliverable_ne hbit hne hzero
    have heffect : (t.queued bit).returnEffect = t.returnEffect := by
      rw [TaskStruct.returnEffect, TaskStruct.returnEffect, TaskStruct.nextSignal,
        TaskStruct.nextSignal, hzero, hold]
      rfl
    rw [sameWaits_idle h hbit (.inl hzero)]
    constructor
    · intro hs
      exact ⟨hs.2.1, .inl hzero⟩
    · intro hs
      exact ⟨iff_of_false (not_not.mpr hzero) (not_not.mpr hold), hs.1, heffect⟩
  · constructor
    · intro hs
      -- nothing of the process waits afterwards, so nothing waited before
      obtain ⟨hsleep, hsignals⟩ := queueProcessSignal_wakes h hbit hzero
      have hsaved := hs.suspended
      rw [hs.sleep] at hsleep
      rw [World.savedMaskOf, hsignals, World.savedMaskOf_of_task h] at hsaved
      have hsaved := hsaved.symm.trans (restoreMask_saved _)
      obtain ⟨hd, hforeseen, heffect⟩ := (sameWaits_idle h hbit (.inr ⟨hsleep, hsaved⟩)).mp hs
      exact ⟨hforeseen, .inr ⟨hsleep, hsaved, hd.mp hzero,
        (behind_iff hbit hign (hd.mp hzero)).mp heffect⟩⟩
    · rintro ⟨hforeseen, hz | ⟨hsleep, hsaved, hd, hbehind⟩⟩
      · exact absurd hz hzero
      · exact (sameWaits_idle h hbit (.inr ⟨hsleep, hsaved⟩)).mpr
          ⟨iff_of_true hzero hd, hforeseen, (behind_iff hbit hign hd).mpr hbehind⟩

end Noticed

/-- The sample in which a process sleeps is reachable. -/
theorem sampleSleep_reachable : Reachable sampleSleep :=
  (sampleFork_reachable.after (by decide +kernel)).after (by decide +kernel)

/-- `init` sleeps, and leaves `SIGCHLD` at its default. -/
theorem ignored_signal_iff_sample :
    ∃ t, sampleSleep.task? 1 = some t ∧ (t.signalAction SIGCHLD).ignores SIGCHLD = true ∧
      (sampleSleep.SameWaits 1 ((queueProcessSignal 1 SIGCHLD).run sampleSleep).2 ↔
        sampleSleep.Unnoticed 1 t SIGCHLD (1#64 <<< 16)) := by
  have hsome : (sampleSleep.task? 1).isSome = true := by decide +kernel
  have hign : (sampleSleep.task? 1).all fun t => (t.signalAction SIGCHLD).ignores SIGCHLD := by
    decide +kernel
  obtain ⟨t, ht⟩ := Option.isSome_iff_exists.mp hsome
  rw [ht] at hign
  exact ⟨t, ht, hign, ignored_signal_iff ht (by decide) hign⟩

/-- The exit of its child cuts the sleep of `init` short: its reply is sent with `-EINTR`. -/
theorem sigchld_interrupts_nanosleep :
    Reachable sampleSleep ∧ (sampleSleep.pendingSleepReplies.get? 1).isSome = true ∧
      ((sampleSleep.task? 1).all fun t => (t.signalAction SIGCHLD).ignores SIGCHLD) = true ∧
      ¬ sampleSleep.SameWaits 1 ((queueProcessSignal 1 SIGCHLD).run sampleSleep).2 ∧
      (sampleSleep.pendingSleepReplies.get? 1).any (fun p =>
        .replied p.replySlot (-EINTR) ∈ (sampleSleep.after
          (.syscall 2 (.exit 0))).trace) = true := by
  refine ⟨sampleSleep_reachable, by decide +kernel, by decide +kernel,
    fun h => ?_, by decide +kernel⟩
  have hgone : ((queueProcessSignal 1 SIGCHLD).run sampleSleep).2.pendingSleepReplies.get? 1
      = none := by decide +kernel
  have hwaits : (sampleSleep.pendingSleepReplies.get? 1).isSome = true := by decide +kernel
  rw [← h.sleep, hgone] at hwaits
  cases hwaits

end Ape
