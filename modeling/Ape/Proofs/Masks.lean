import Ape.Proofs.CarriedOut
import Ape.Proofs.UserCopy

/-!
# `Ape.Proofs.Masks`: the calls that wait under a temporary mask

`ppoll` and `rt_sigsuspend` install a mask, wait for a signal that it lets through, and put the old
mask back. No process ever blocks `SIGKILL` or `SIGSTOP` (`World.Maskable`), so what is put back is
what was there. But the mask is put back before a syscall return looks for a signal, and a thread
that is woken from `rt_sigsuspend` is resumed without such a look.
`temporary_mask_delivery` says when the action of the signal that ends the wait is carried out all
the same.
-/

set_option autoImplicit false

namespace Ape

open Ape.Lib Cmd

/-! ### No process blocks what cannot be blocked -/

/-- No process blocks a signal that cannot be blocked. -/
def World.Maskable (w : World) : Prop := ∀ pid s, w.signalsOf pid = some s → s.Maskable

/-- What the invariant asks of the signals. -/
def maskable (v : QuietView) : Prop := ∀ pid s, v.signals pid = some s → s.Maskable

instance : BlindSlots World.Maskable := BlindSlots.comp
    (V := World.quietView) maskable inferInstance

instance : BlindTrace World.Maskable := BlindTrace.comp
    (V := World.quietView) maskable inferInstance

instance : BlindRecords World.Maskable :=
  BlindRecords.comp (V := World.quietView) maskable inferInstance

instance : BlindWaits World.Maskable := BlindWaits.comp
    (V := World.quietView) maskable inferInstance

instance : BlindCaller World.Maskable :=
  BlindCaller.comp (V := World.quietView) maskable inferInstance

instance : BlindFiles World.Maskable := BlindFiles.comp
    (V := World.quietView) maskable inferInstance

instance : BlindMemory World.Maskable :=
  BlindMemory.comp (V := World.quietView) maskable inferInstance

instance : BlindSleeps World.Maskable :=
  ⟨fun _ _ => rfl, fun _ _ => rfl, fun _ _ => rfl, fun _ _ => rfl⟩

/-- A change that keeps masks free of what cannot be blocked keeps all of them so. -/
theorem modifySignal_maskable (pid : Nat) {f : SignalStruct → SignalStruct}
    (hf : ∀ s, s.Maskable → (f s).Maskable) : Keeps World.Maskable (modifySignal pid f) := by
  intro w hw q s hs
  have hs' : (w.modifySignal pid f).signalsOf q = some s := hs
  rw [World.signalsOf_modifySignal] at hs'
  split at hs'
  · obtain ⟨s₀, hs₀, rfl⟩ := Option.map_eq_some_iff.mp hs'
    exact hf s₀ (hw q s₀ hs₀)
  · exact hw q s hs'

instance (pid : Nat) : OwnSignals World.Maskable pid :=
  ⟨fun _ hf => modifySignal_maskable pid hf.maskable⟩

instance (pid : Nat) : PopKeeps World.Maskable pid :=
  PopKeeps.of_clear fun _ => modifySignal_maskable pid fun _ h => h

instance : QuietSignals World.Maskable where
  quiet pid f hf := modifySignal_maskable pid hf.mask.maskable
  queue pid signum := by
    refine Keeps.bind (Keeps.gets _) fun task => Keeps.whenSome fun t =>
      Keeps.whenSome fun bit => ?_
    refine Keeps.bind (modifySignal_maskable pid fun _ h => h) fun _ =>
      Keeps.bind (fun _ h => h) fun _ => ?_
    exact Keeps.bind (by simp) fun _ => Keeps.bind (Keeps.when (wakeFromSigsuspend_keeps _))
      fun _ => fun _ h => h
  dropped := fun _ h => h
  waitIntr := fun _ _ h => h

instance : ContKeeps World.Maskable :=
  ContKeeps.of_clear fun pid _ => modifySignal_maskable pid fun _ h => h

instance : ProcessKeeps World.Maskable where
  erase w pid h _ q s hs := by
    have hs' : ((w.tasks.erase pid).get? q).map (·.signal) = some s := hs
    -- an erased process has no mask left to speak of
    rw [OrdMap.get?_erase] at hs'
    split at hs'
    · cases hs'
    · exact h q s hs'
  register w parentPid cnode h q s hs := by
    have hs' : ((w.registered parentPid cnode).tasks.get? q).map (·.signal) = some s := hs
    -- the mask of a process that is registered is empty
    rw [World.registered, OrdMap.get?_insert] at hs'
    split at hs'
    · cases hs'
      exact BitVec.zero_and
    · exact h q s hs'
  inherit w child parent pid h _ q s hs := by
    have hs' : ((w.modifyTask child (·.inherit parent)).task? q).map (·.signal) = some s := hs
    rw [World.task?, World.modifyTask, OrdMap.get?_modify] at hs'
    split at hs'
    -- `fork` filters the mask that the child inherits
    · rw [Option.map_map] at hs'
      obtain ⟨t', _, rfl⟩ := Option.map_eq_some_iff.mp hs'
      have hblocked : (t'.inherit parent).signal.signalBlocked
          = parent.signal.signalBlocked &&& ~~~SIGNAL_UNBLOCKABLE_MASK := by
        unfold TaskStruct.inherit
        dsimp only
        split <;> rfl
      show (t'.inherit parent).signal.signalBlocked &&& _ = 0
      rw [hblocked]
      exact maskable_of_filtered _
    · exact h q s hs'
  panicked w b h := h

/-- In every reachable state no mask blocks what cannot be blocked. -/
theorem Reachable.maskable {w : World} (h : Reachable w) : w.Maskable := by
  refine Reachable.invariant ?_ ?_ w h
  · intro w w' path hi hr
    have hstart : w.Maskable := by
      intro pid s hs
      rw [World.signalsOf, World.task?, hi.noTasks] at hs
      cases hs
    have := loadInit_keeps_blind (I := World.Maskable) path w hstart
    rwa [hr] at this
  · intro w r w' _ hw hs
    rw [← hs.2]
    exact dispatch_keeps_of terminateProcess_keeps_blind
      (fun pid sys ret => finishSyscall_keeps (terminateProcess_keeps_blind pid) sys ret)
      doNanosleep_keeps r hw fun pid _ _ hsys => jobCall_keeps pid hsys _ hw

/-! ### The mask comes back -/

/-- The mask of a process. -/
def World.maskOf (pid : Nat) (w : World) : Option SigSet := (w.signalsOf pid).map (·.signalBlocked)

/-- What is put back is what was there. -/
theorem Maskable.filtered {s : SignalStruct} (h : s.Maskable) :
    s.signalBlocked &&& ~~~SIGNAL_UNBLOCKABLE_MASK = s.signalBlocked := by
  refine BitVec.eq_of_getLsbD_eq fun i hi => ?_
  have hbit : (s.signalBlocked &&& SIGNAL_UNBLOCKABLE_MASK).getLsbD i = false := by
    rw [SignalStruct.Maskable] at h
    rw [h]
    exact BitVec.getLsbD_zero
  rw [BitVec.getLsbD_and] at hbit
  rw [BitVec.getLsbD_and, BitVec.getLsbD_not]
  cases hb : s.signalBlocked.getLsbD i
  · rfl
  · rw [hb] at hbit
    have hfree : SIGNAL_UNBLOCKABLE_MASK.getLsbD i = false := hbit
    rw [hfree]
    simp [hi]

/-- A mask that was replaced and put back is the old one. -/
theorem Maskable.setBlocked_back {s : SignalStruct} (h : s.Maskable) (mask : SigSet) :
    (s.setBlocked mask).setBlocked s.signalBlocked = s := by
  show { s with signalBlocked := s.signalBlocked &&& ~~~SIGNAL_UNBLOCKABLE_MASK } = s
  rw [Maskable.filtered h]

section Back

variable {pid : Nat} {s : SignalStruct}

/-- A command that leaves the signals alone. -/
theorem Frames.signals {α : Type} {c : M α} (h : ∀ v, Keeps (fun w => w.quietView = v) c) :
    Keeps (fun w => w.signalsOf pid = some s) c :=
  (Frames.of_keeps h).keeps fun v => v.signals pid = some s

/-- The process that is found has the signals. -/
theorem getProcess_signals :
    Triple (fun w => w.signalsOf pid = some s) (getProcess pid)
      (fun t w => w.signalsOf pid = some s ∧ t.signal = s)
      (fun _ w => w.signalsOf pid = some s) := by
  refine (getProcess_task pid).post fun t w h => ⟨h.1, ?_⟩
  have hsig := h.1
  rw [World.signalsOf, h.2] at hsig
  exact Option.some.inj hsig

/-- A change of the signals of the process. -/
theorem modifySignal_signals (f : SignalStruct → SignalStruct) {E : Err → World → Prop} :
    Triple (fun w => w.signalsOf pid = some s) (modifySignal pid f)
      (fun _ w => w.signalsOf pid = some (f s)) E := by
  refine Triple.modify fun w h => ?_
  rw [World.signalsOf_modifySignal, if_pos rfl, h]
  rfl

/-- `ppoll` leaves the signals of its caller as they were, on every exit. -/
theorem doPpoll_signals (hm : s.Maskable) (fdsPtr nfds timeout sigmask size : Nat) :
    Keeps (fun w => w.signalsOf pid = some s) (doPpoll pid fdsPtr nfds timeout sigmask size) := by
  -- under the temporary mask the rounds leave the signals as they find them
  have hbody : ∀ s', Keeps (fun w => w.signalsOf pid = some s')
    (ppollBody pid fdsPtr nfds timeout) :=
    fun s' => Frames.signals fun v => ppollBody_keeps _ _ _
  unfold doPpoll
  refine Keeps.ite (by simp) (Keeps.ite (by simp) (Keeps.ite (by simp) (Keeps.ite (hbody s) ?_)))
  refine Keeps.ite (by simp) (Triple.keeps ?_)
  refine Triple.bind getProcess_signals fun task => ?_
  -- the set is read while the mask is still the old one
  refine Triple.bind (R := fun _ w => w.signalsOf pid = some s ∧ task.signal = s) ?_ ?_
  · intro w h
    have hkeep : Keeps (fun w => w.signalsOf pid = some s) (importSigset pid sigmask size) :=
      Frames.signals fun v => importSigset_keeps _ _ _
    exact ⟨fun _ _ => ⟨hkeep w h.1, h.2⟩, fun _ _ => hkeep w h.1⟩
  intro mask
  refine Triple.of_pre fun w₀ h => ?_
  obtain ⟨hsig, rfl⟩ := h
  refine Triple.pre (K := fun w => w.signalsOf pid = some task.signal) ?_
    fun w heq => by rw [heq, hsig]
  refine Triple.bind (modifySignal_signals _) fun _ => ?_
  refine Triple.bind (R := fun _ w => w.signalsOf pid = some (task.signal.setBlocked mask))
    (Triple.attempt (hbody _).triple) fun r => ?_
  refine Triple.bind (R := fun _ w => w.signalsOf pid = some task.signal) ?_ fun _ =>
    Triple.ofExcept (fun _ _ _ h => h) fun _ _ _ h => h
  refine (modifySignal_signals (·.setBlocked task.signal.signalBlocked)
    (E := fun _ w => w.signalsOf pid = some task.signal)).post fun _ w h => ?_
  -- the old mask held no unblockable bit, so the mask that is put back is the old one
  rwa [Maskable.setBlocked_back hm] at h

/-- The mask of the process is `old`, or the process waits and gets `old` back. -/
def World.GivesBack (pid : Nat) (old : SigSet) (w : World) : Prop :=
  w.maskOf pid = some old ∨ w.savedMaskOf pid = some old

/-- The mask of a process is in its signals. -/
theorem World.maskOf_of_signals {w : World} (h : w.signalsOf pid = some s) :
    w.maskOf pid = some s.signalBlocked := by rw [World.maskOf, h]; rfl

/-- The saved mask of a process is in its signals. -/
theorem World.savedMaskOf_of_signals {w : World} (h : w.signalsOf pid = some s) :
    w.savedMaskOf pid = s.sigsuspendSavedMask := by rw [World.savedMaskOf, h]; rfl

/-- The look of `rt_sigsuspend` for a signal does not fail. -/
theorem popPendingSignalFromMask_there {w : World} (h : w.signalsOf pid = some s) (mask : SigSet) :
    ∃ o s' w', (popPendingSignalFromMask pid mask).run w = (.ok o, w') ∧
      w'.signalsOf pid = some s' := by
  obtain ⟨t, ht, hsig⟩ := Option.map_eq_some_iff.mp h
  have hrun := run_popPendingSignalFromMask ht mask
  cases hlow : SigSet.lowest? (t.signal.signalPending &&& mask) with
  | none => exact ⟨none, s, w, by rw [hrun, hlow], h⟩
  | some idx =>
    rw [hlow] at hrun
    refine ⟨some (idx + 1), s.clearPending idx, _, hrun, ?_⟩
    show (w.modifySignal pid (·.clearPending idx)).signalsOf pid = _
    rw [World.signalsOf_modifySignal, if_pos rfl, h]
    rfl

/-- The record of a process has its signals. -/
theorem run_getProcess_signals {w : World} (h : w.signalsOf pid = some s) :
    ∃ t, (getProcess pid).run w = (.ok t, w) ∧ t.signal = s := by
  obtain ⟨t, ht, hsig⟩ := Option.map_eq_some_iff.mp h
  exact ⟨t, run_getProcess ht, hsig⟩

/-- `rt_sigsuspend` ends with the mask it found, or with a thread that waits and gets it back. -/
theorem doRtSigsuspend_givesBack (hm : s.Maskable) (mask size : Nat) :
    Triple (fun w => w.signalsOf pid = some s) (doRtSigsuspend pid mask size)
      (fun _ => World.GivesBack pid s.signalBlocked)
      (fun _ => World.GivesBack pid s.signalBlocked) := by
  have hstart : ∀ w : World, w.signalsOf pid = some s → w.GivesBack pid s.signalBlocked :=
    fun w h => .inl (World.maskOf_of_signals h)
  -- putting the mask back
  have hput : ∀ s', Triple (fun w => w.signalsOf pid = some s')
      (modifySignal pid (·.setBlocked s.signalBlocked))
      (fun _ => World.GivesBack pid s.signalBlocked)
      (fun _ => World.GivesBack pid s.signalBlocked) := fun s' =>
    (modifySignal_signals (·.setBlocked s.signalBlocked) (E := fun _ _ => False)).imp (fun _ h => h)
      (fun _ w h => .inl ((World.maskOf_of_signals h).trans (congrArg some (Maskable.filtered hm))))
      fun _ _ h => h.elim
  unfold doRtSigsuspend
  refine Triple.ite (fun _ => Triple.pure hstart) fun _ => ?_
  have himport : Keeps (fun w => w.signalsOf pid = some s) (importSigset pid mask size) :=
    Frames.signals fun v => importSigset_keeps _ _ _
  refine Triple.bind (himport.triple.errors fun _ w h => hstart w h)
    fun suspendMask => ?_
  refine Triple.bind (getProcess_signals.errors fun _ w h => hstart w h)
    fun task => ?_
  refine Triple.of_pre fun w₀ h => ?_
  obtain ⟨hsig, rfl⟩ := h
  refine Triple.pre (K := fun w => w.signalsOf pid = some task.signal) ?_
    fun w heq => by rw [heq, hsig]
  refine Triple.bind (modifySignal_signals _) fun _ w htemp => ?_
  -- the process is there, so the look under the temporary mask succeeds
  obtain ⟨task', hget, _⟩ := run_getProcess_signals htemp
  obtain ⟨o, s', w', hpop, hs'⟩ := popPendingSignalFromMask_there htemp task'.signal.deliverable
  rw [run_bind_ok hget, run_bind_ok hpop]
  cases o with
  | some signum =>
    have hmark : Keeps (fun w => w.signalsOf pid = some s')
        (when (¬ (task'.signalAction signum).ignores signum) markSignalDropped) :=
      Keeps.when fun _ h => h
    have htotal : Total (when (¬ (task'.signalAction signum).ignores signum) markSignalDropped) :=
      Total.when (Total.modify _)
    refine Triple.bind (P := fun w => w.signalsOf pid = some s')
      (R := fun _ w => w.signalsOf pid = some s') (htotal.triple hmark.triple) (fun _ => ?_) w' hs'
    exact Triple.bind (hput s') fun _ => Triple.pure fun _ h => h
  | none =>
    refine Triple.bind (P := fun w => w.signalsOf pid = some s') (R := fun _ w => w.signalsOf pid
      = some { s' with sigsuspendSavedMask := some task.signal.signalBlocked })
      (modifySignal_signals _) (fun _ => ?_) w' hs'
    have hwaits : ∀ w : World, w.signalsOf pid
        = some { s' with sigsuspendSavedMask := some task.signal.signalBlocked } →
        w.GivesBack pid task.signal.signalBlocked :=
      fun w h => .inr (World.savedMaskOf_of_signals h)
    refine Triple.bind (getProcess_signals.imp (fun _ h => h) (fun _ _ h => h.1)
      fun _ w h => hwaits w h)
      fun _ => ?_
    have hsuspend : Keeps (fun w => w.signalsOf pid
        = some { s' with sigsuspendSavedMask := some task.signal.signalBlocked })
        (attempt (tcbSuspend pid)) := Frames.signals fun v => by simp
    refine Triple.bind (hsuspend.triple.errors fun _ w h => hwaits w h)
      fun r => ?_
    refine Triple.bind (R := fun _ => World.GivesBack pid task.signal.signalBlocked) ?_
      fun _ => Triple.pure fun _ h => h
    refine Triple.when (fun _ => ?_) fun w _ h => hwaits w h
    refine (modifySignal_signals (·.restoreMask) (E := fun _ _ => False)).imp (fun _ h => h)
      (fun _ w h => .inl ((World.maskOf_of_signals h).trans ?_)) fun _ _ h => h.elim
    exact congrArg some (Maskable.filtered hm)

end Back

/-! ### The signal that ends the wait -/

section Delivered

variable {w : World} {pid : Nat} {t : TaskStruct}

/-- `ppoll` leaves the actions of the processes and the trace alone. -/
theorem doPpoll_actionView (fds nfds timeout sigmask size : Nat) :
    Frames World.actionView (doPpoll pid fds nfds timeout sigmask size) :=
  Frames.of_keeps fun _ => doPpoll_keeps fds nfds timeout sigmask size

/-- A `ppoll` that is interrupted ends with the delivery of a signal. -/
theorem run_ppoll_interrupted {fds nfds timeout sigmask size : Nat}
    (hret : ((doPpoll pid fds nfds timeout sigmask size).run w).1 = .ok (-EINTR)) :
    ((handleSyscall pid (.ppoll fds nfds timeout sigmask size)).run w).2
      = ((finishSyscall pid (.ppoll fds nfds timeout sigmask size) (-EINTR)).run
        ((doPpoll pid fds nfds timeout sigmask size).run w).2).2 := by
  let w' : World := ((doPpoll pid fds nfds timeout sigmask size).run w).2
  rcases handleSyscall_cases pid (.ppoll fds nfds timeout sigmask size) w with ⟨herr, _⟩ | ⟨_, heq⟩
  · have hret' : ((routeSyscall pid (.ppoll fds nfds timeout sigmask size)).run w).1
        = .ok (-EINTR) := hret
    rw [hret'] at herr
    rcases herr with herr | herr | herr <;> cases herr
  · rw [heq]
    show ((finishSyscall pid _ (w'.retOf ((doPpoll pid fds nfds timeout sigmask size).run w).1)).run
      w').2 = _
    rw [hret]
    rfl

/-- After a `ppoll` that was interrupted, the signal that is carried out is the lowest one that the
mask of the process lets through, whatever the temporary mask was. -/
theorem ppoll_carriesOut (h : w.task? pid = some t) (hm : t.signal.Maskable)
    {fds nfds timeout sigmask size : Nat} (signum : Nat)
    (hret : ((doPpoll pid fds nfds timeout sigmask size).run w).1 = .ok (-EINTR)) :
    w.CarriesOut pid signum (t.signalAction signum)
        ((handleSyscall pid (.ppoll fds nfds timeout sigmask size)).run w).2 ↔
      t.nextSignal = some signum ∧ ((doPpoll pid fds nfds timeout sigmask size).run w).2.Allows pid
        signum (t.signalAction signum) := by
  let w' : World := ((doPpoll pid fds nfds timeout sigmask size).run w).2
  have hstart : w.signalsOf pid = some t.signal := by rw [World.signalsOf, h]; rfl
  have hsignals : w'.signalsOf pid = some t.signal :=
    doPpoll_signals hm fds nfds timeout sigmask size w hstart
  obtain ⟨t', ht', hsig⟩ := Option.map_eq_some_iff.mp hsignals
  -- the process looks as before, so a return takes the same signal with the same action
  have hview : w'.actionView = w.actionView := doPpoll_actionView fds nfds timeout sigmask size w
  have htrace : w'.trace = w.trace := congrArg ActionView.trace hview
  have hactions : t'.signalActions = t.signalActions := by
    have hsame : w'.actionsOf pid = w.actionsOf pid :=
      congrFun (congrArg ActionView.actions hview) pid
    rw [World.actionsOf_of_task ht', World.actionsOf_of_task h] at hsame
    exact Option.some.inj hsame
  have hnext : t'.nextSignal = t.nextSignal := by
    rw [TaskStruct.nextSignal, TaskStruct.nextSignal, hsig]
  have haction : t'.signalAction signum = t.signalAction signum := by
    rw [TaskStruct.signalAction, TaskStruct.signalAction, hactions]
  have hdelivers := finishSyscall_carriesOut ht' signum
    (.ppoll fds nfds timeout sigmask size) (-EINTR)
  rw [haction, hnext] at hdelivers
  rw [run_ppoll_interrupted hret, ← hdelivers]
  unfold World.CarriesOut
  rw [htrace]

/-- If the arriving signal makes the thread of the process run, its action is carried out as
well. -/
def World.HandledFirst (w : World) (pid signum : Nat) : Prop :=
  w.eventCount (Event.resumes pid)
      < ((queueProcessSignal pid signum).run w).2.eventCount (Event.resumes pid) →
    ∃ action, w.CarriesOut pid signum action ((queueProcessSignal pid signum).run w).2

/-- The thread of a process that waits in `rt_sigsuspend` is resumed, when the services agree. -/
theorem wakeFromSigsuspend_resumes (n : Nat) {s : SignalStruct} (hd : s.deliverable ≠ 0)
    (hs : s.sigsuspendSavedMask.isSome = true) :
    Triple (fun w => (n ≤ w.eventCount (Event.resumes pid) ∧ w.env = agreeing) ∧
        w.signalsOf pid = some s)
      (wakeFromSigsuspend pid) (fun _ w => n < w.eventCount (Event.resumes pid))
      (fun _ _ => False) := by
  rintro w ⟨⟨hn, henv⟩, hsig⟩
  obtain ⟨t, ht, rfl⟩ := Option.map_eq_some_iff.mp hsig
  have hrun : (wakeFromSigsuspend pid).run w = (ignore (tcbResume pid)).run
      (w.modifySignal pid (·.restoreMask)) := by
    rw [wakeFromSigsuspend, run_gets_bind, ht]
    dsimp only [whenSome]
    rw [when_pos ⟨hs, hd⟩]
    rfl
  obtain ⟨a, hext⟩ := run_ext_agreeing (w := w.modifySignal pid (·.restoreMask)) henv
  rw [hrun]
  refine ⟨fun _ _ => ?_, fun e he => by cases he⟩
  show n < ((tcbResume pid).run (w.modifySignal pid (·.restoreMask))).2.eventCount _
  have hresumed : Event.resumes pid (.resumed pid) = true := beq_self_eq_true _
  rw [tcbResume, run_bind_ok hext, eventCount_emit hresumed]
  exact Nat.lt_succ_of_le hn

/-- A signal that arrives while its process waits in `rt_sigsuspend` is not carried out before the
thread runs. -/
theorem sigsuspend_not_handledFirst (h : w.task? pid = some t) {signum : Nat} {bit : SigSet}
    (hbit : signalBit signum = some bit) (hwaits : t.signal.sigsuspendSavedMask.isSome = true)
    (hfree : t.signal.signalBlocked.getLsbD (signum - 1) = false) :
    ¬ (w.withEnv agreeing).HandledFirst pid signum := by
  let w₀ : World := w.withEnv agreeing
  have h₀ : w₀.task? pid = some t := h
  have hlt := signalBit_lt hbit
  have hd : (t.signal.queueSignal bit).deliverable ≠ 0 := by
    refine SigSet.ne_zero_iff.mpr ⟨signum - 1, hlt, ?_⟩
    rw [SignalStruct.queueSignal_bit hbit _ hlt, hfree]
    simp
  -- the thread runs
  have hresumes : w₀.eventCount (Event.resumes pid)
      < ((queueProcessSignal pid signum).run w₀).2.eventCount (Event.resumes pid) := by
    let n : Nat := w₀.eventCount (Event.resumes pid)
    let J (w : World) : Prop := n ≤ w.eventCount (Event.resumes pid) ∧ w.env = agreeing
    rw [queueProcessSignal_deliverable_run h₀ hbit hd]
    refine Triple.ends (P := fun w' => w' = w₀.afterQueue pid signum bit)
      (R := fun w => n < w.eventCount (Event.resumes pid)) ?_ rfl
    refine Triple.bind (R := fun _ w => J w ∧ w.signalsOf pid = some (t.signal.queueSignal bit)) ?_
      fun _ => ?_
    · have hcount : Keeps (fun w => n ≤ w.eventCount (Event.resumes pid))
          (interruptPendingSleepReply pid) := by simp
      have henv : Keeps (fun w : World => w.env = agreeing)
        (interruptPendingSleepReply pid) := by simp
      rintro _ rfl
      have hwoken := (interruptPendingSleepReply_woken h₀ signum bit) _ rfl
      refine ⟨fun a ha => ⟨⟨hcount _ ?_, henv _ rfl⟩, (hwoken.1 a ha).2⟩,
        fun e he => absurd he (interruptPendingSleepReply_total pid _ e)⟩
      exact emit_eventCount_le _ n (.queued pid signum)
        (w₀.modifySignal pid (·.queueSignal bit)) le_rfl
    · refine Triple.bind (R := fun _ w => n < w.eventCount (Event.resumes pid)) ?_
        fun _ => Triple.modify fun w h => h
      refine Triple.when (fun hp => ?_) fun w hno h => absurd (And.intro hwaits hd) hno
      exact (wakeFromSigsuspend_resumes n hd hp.1).errors fun _ _ h => h.elim
  -- and no signal is taken
  have htakes : ((queueProcessSignal pid signum).run w₀).2.eventCount (Event.takes pid signum)
      = w₀.eventCount (Event.takes pid signum) :=
    queueProcessSignal_keeps pid signum
      (I := fun w => w.eventCount (Event.takes pid signum) = _) w₀ rfl
  intro hfirst
  obtain ⟨action, hcarried⟩ := hfirst hresumes
  have hlt' := hcarried.takes
  rw [htakes] at hlt'
  exact lt_irrefl _ hlt'

/-- The mask that was saved is put back when a signal arrives that is let through. -/
theorem queueProcessSignal_givesBack (h : w.task? pid = some t) {signum : Nat} {bit old : SigSet}
    (hbit : signalBit signum = some bit) (hsaved : t.signal.sigsuspendSavedMask = some old)
    (hold : old &&& SIGNAL_UNBLOCKABLE_MASK = 0)
    (hfree : t.signal.signalBlocked.getLsbD (signum - 1) = false) :
    ((queueProcessSignal pid signum).run w).2.maskOf pid = some old := by
  have hlt := signalBit_lt hbit
  have hd : (t.signal.queueSignal bit).deliverable ≠ 0 := by
    refine SigSet.ne_zero_iff.mpr ⟨signum - 1, hlt, ?_⟩
    rw [SignalStruct.queueSignal_bit hbit _ hlt, hfree]
    simp
  rw [World.maskOf_of_signals (queueProcessSignal_wakes h hbit hd).2]
  have hsaved' : (t.signal.queueSignal bit).sigsuspendSavedMask = some old := hsaved
  rw [SignalStruct.restoreMask, hsaved']
  exact congrArg some (Maskable.filtered (s := { t.signal with signalBlocked := old }) hold)

end Delivered

/-- What becomes of the signal that ends a wait under a temporary mask. After `ppoll` its action is
carried out exactly when it is the lowest deliverable one under the old mask and what is asked of
the thread is not refused, and `rt_sigsuspend` never waits for the action. The mask comes back on
every exit, and when `rt_sigsuspend` is left by a signal that its mask lets through. -/
theorem temporary_mask_delivery {w : World} (hw : Reachable w) {pid : Nat} {t : TaskStruct}
    (h : w.task? pid = some t) :
    (∀ fds nfds timeout sigmask size mask signum, sigmask ≠ 0 →
      ((importSigset pid sigmask size).run w).1 = .ok mask →
      (t.signal.setBlocked mask).deliverable.getLsbD (signum - 1) = true →
      ((doPpoll pid fds nfds timeout sigmask size).run w).1 = .ok (-EINTR) →
      (w.CarriesOut pid signum (t.signalAction signum)
          ((handleSyscall pid (.ppoll fds nfds timeout sigmask size)).run w).2 ↔
        t.nextSignal = some signum ∧ ((doPpoll pid fds nfds timeout sigmask size).run
          w).2.Allows pid
          signum (t.signalAction signum))) ∧
    (∀ signum bit, signalBit signum = some bit → t.signal.sigsuspendSavedMask.isSome = true →
      t.signal.signalBlocked.getLsbD (signum - 1) = false →
      ¬ ∀ env, (w.withEnv env).HandledFirst pid signum) ∧
    (∀ fds nfds timeout sigmask size,
      ((doPpoll pid fds nfds timeout sigmask size).run w).2.maskOf pid
        = some t.signal.signalBlocked) ∧
    (∀ mask size,
      ((doRtSigsuspend pid mask size).run w).2.GivesBack pid t.signal.signalBlocked) ∧
    (∀ signum bit old, signalBit signum = some bit → t.signal.sigsuspendSavedMask = some old →
      old &&& SIGNAL_UNBLOCKABLE_MASK = 0 →
      t.signal.signalBlocked.getLsbD (signum - 1) = false →
      ((queueProcessSignal pid signum).run w).2.maskOf pid = some old) := by
  have hstart : w.signalsOf pid = some t.signal := by rw [World.signalsOf, h]; rfl
  have hm : t.signal.Maskable := hw.maskable pid t.signal hstart
  refine ⟨fun _ _ _ _ _ _ signum _ _ _ hret => ppoll_carriesOut h hm signum hret,
    ?_, fun _ _ _ _ _ => ?_, ?_, fun signum bit old hbit hsaved hold hfree =>
      queueProcessSignal_givesBack h hbit hsaved hold hfree⟩
  · intro signum bit hbit hwaits hfree hall
    exact sigsuspend_not_handledFirst h hbit hwaits hfree (hall agreeing)
  · exact World.maskOf_of_signals (doPpoll_signals hm _ _ _ _ _ w hstart)
  · intro mask size
    exact (doRtSigsuspend_givesBack hm mask size).ends hstart

/-! ### A signal that is blocked except during the wait -/

/-- `init` blocks signal 10 and sends it to itself. An empty mask and a poll entry without a
descriptor are in its memory. -/
def samplePoll : World :=
  [Request.syscall 1 (.userWrite 0x3ffff800 (leBytes 8 512 ++ leBytes 8 0 ++ leBytes 8 0xffffffff)),
    .syscall 1 (.rtSigprocmask 2 0x3ffff800 0 8), .syscall 1 (.kill 1 10)].foldl
      World.after sampleBoot

/-- The call that waits for it. -/
def samplePpoll : Syscall := .ppoll 0x3ffff810 1 0 0x3ffff808 8

/-- The sample in which the signal is pending is reachable. -/
theorem samplePoll_reachable : Reachable samplePoll :=
  ((sampleBoot_reachable.after (by decide +kernel)).after (by decide +kernel)).after
    (by decide +kernel)

/-- The signal that lets `ppoll` return is not carried out, since it is blocked before and after. -/
theorem temporary_mask_delivery_sample :
    ∃ t, samplePoll.task? 1 = some t ∧
      ¬ samplePoll.CarriesOut 1 10 (t.signalAction 10)
        ((handleSyscall 1 samplePpoll).run samplePoll).2 := by
  have hsome : (samplePoll.task? 1).isSome = true := by decide +kernel
  have hlet : (samplePoll.task? 1).all fun t =>
    (t.signal.setBlocked 0).deliverable.getLsbD 9 := by decide +kernel
  have hblocked : (samplePoll.task? 1).all fun t => t.nextSignal = none := by decide +kernel
  obtain ⟨t, ht⟩ := Option.isSome_iff_exists.mp hsome
  rw [ht] at hlet hblocked
  have hnone : t.nextSignal = none := by simpa using hblocked
  refine ⟨t, ht, ?_⟩
  intro hcarried
  have hnext := (((temporary_mask_delivery samplePoll_reachable ht).1 0x3ffff810 1 0
    0x3ffff808 8 0 10
    (by decide) (by decide +kernel) hlet (by decide +kernel)).mp hcarried).1
  rw [hnone] at hnext
  cases hnext

/-- `ppoll` is answered with `-EINTR`, and the signal that ended it is not carried out. -/
theorem ppoll_drops_its_signal :
    Reachable samplePoll ∧ ((handleSyscall 1 samplePpoll).run samplePoll).1 = .ok (-EINTR) ∧
      ((samplePoll.task? 1).all fun t => (t.signal.setBlocked 0).deliverable.getLsbD 9) = true ∧
      ∀ action, ¬ samplePoll.CarriesOut 1 10 action
        ((handleSyscall 1 samplePpoll).run samplePoll).2 := by
  refine ⟨samplePoll_reachable, by decide +kernel, by decide +kernel, fun action hcarried => ?_⟩
  have hcount : ((handleSyscall 1 samplePpoll).run samplePoll).2.eventCount (Event.takes 1 10)
    = samplePoll.eventCount (Event.takes 1 10) := by decide +kernel
  have htakes := hcarried.takes
  rw [hcount] at htakes
  exact lt_irrefl _ htakes

end Ape
