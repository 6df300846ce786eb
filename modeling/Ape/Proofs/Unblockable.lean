import Ape.Proofs.Masks
import Ape.Proofs.ProcessTable

/-!
# `Ape.Proofs.Unblockable`: `SIGKILL` and `SIGSTOP`

No process blocks `SIGKILL` or `SIGSTOP`, also not after its saved mask is put back, and no process
has an action for one of them (`Reachable.unblockable`). What else a process can do about a
`SIGSTOP` is take it: `rt_sigtimedwait` returns it and `rt_sigsuspend` drops it, and neither stops
the process. `unblockable_signals` says that nothing else takes a pending `SIGSTOP` away from the
process, apart from its stop on a syscall return and a `SIGCONT`.
-/

set_option autoImplicit false

namespace Ape

open Ape.Lib Cmd

/-! ### No action for a signal that cannot be caught -/

/-- No table of actions has an entry for `SIGKILL` or `SIGSTOP`. -/
def noActions (v : Nat → Option (OrdMap Nat SignalAction)) : Prop :=
  ∀ pid a, v pid = some a → a.get? SIGKILL = none ∧ a.get? SIGSTOP = none

/-- No process has an action for a signal that cannot be caught. -/
def World.NoActions (w : World) : Prop := noActions w.actionsOf

/-- What the invariant asks of the actions. -/
def actionsFree (v : ActionView) : Prop := noActions v.actions

instance : BlindTrace World.NoActions := ⟨fun _ _ => rfl⟩

instance : BlindSlots World.NoActions :=
  BlindSlots.comp (V := World.actionView) actionsFree inferInstance

instance : BlindSignals World.NoActions :=
  BlindSignals.comp (V := World.actionView) actionsFree inferInstance

instance : BlindHosts World.NoActions :=
  BlindHosts.comp (V := World.actionView) actionsFree inferInstance

instance : BlindRest World.NoActions :=
  BlindRest.comp (V := World.actionView) actionsFree inferInstance

instance : BlindStops World.NoActions :=
  BlindStops.comp (V := World.actionView) actionsFree inferInstance

instance : BlindJobs World.NoActions :=
  BlindJobs.comp (V := World.actionView) actionsFree inferInstance

instance : BlindWaits World.NoActions :=
  BlindWaits.comp (V := World.actionView) actionsFree inferInstance

instance : BlindSleeps World.NoActions :=
  BlindSleeps.comp (V := World.actionView) actionsFree inferInstance

instance : BlindCaller World.NoActions :=
  BlindCaller.comp (V := World.actionView) actionsFree inferInstance

instance : BlindFiles World.NoActions :=
  BlindFiles.comp (V := World.actionView) actionsFree inferInstance

instance : BlindMemory World.NoActions :=
  BlindMemory.comp (V := World.actionView) actionsFree inferInstance

/-- `rt_sigaction` refuses an action for the two signals. -/
instance (pid : Nat) : OwnActions World.NoActions pid where
  own signum action hkill hstop := by
    intro w hw q a ha
    have ha' : ((w.tasks.modify pid _).get? q).map (·.signalActions) = some a := ha
    rw [OrdMap.get?_modify] at ha'
    split at ha'
    · rw [Option.map_map] at ha'
      obtain ⟨t, ht, rfl⟩ := Option.map_eq_some_iff.mp ha'
      obtain ⟨hk, hs⟩ := hw q t.signalActions (World.actionsOf_of_task ht)
      show (t.signalActions.insert signum action).get? SIGKILL = none ∧
        (t.signalActions.insert signum action).get? SIGSTOP = none
      rw [OrdMap.get?_insert_ne _ _ hkill.symm, OrdMap.get?_insert_ne _ _ hstop.symm]
      exact ⟨hk, hs⟩
    · exact hw q a ha'

/-- A new process has no action, and a child has those of its parent. -/
instance : ProcessKeeps World.NoActions where
  erase w pid h _ := by
    intro q a ha
    have ha' : ((w.tasks.erase pid).get? q).map (·.signalActions) = some a := ha
    rw [OrdMap.get?_erase] at ha'
    split at ha'
    · cases ha'
    · exact h q a ha'
  register w parentPid cnode h := by
    intro q a ha
    have ha' : ((w.registered parentPid cnode).tasks.get? q).map (·.signalActions) = some a := ha
    rw [World.registered, OrdMap.get?_insert] at ha'
    split at ha'
    -- a new process has the default actions
    · cases ha'
      exact ⟨rfl, rfl⟩
    · exact h q a ha'
  inherit w child parent pid h hfork := by
    intro q a ha
    have ha' : ((w.tasks.modify child (·.inherit parent)).get? q).map (·.signalActions)
      = some a := ha
    rw [OrdMap.get?_modify] at ha'
    split at ha'
    -- a child has the actions of its parent
    · rw [Option.map_map] at ha'
      obtain ⟨t, _, rfl⟩ := Option.map_eq_some_iff.mp ha'
      obtain ⟨p, hp, hrecord⟩ := World.task?_of_record hfork.1
      have hsame : p.signalActions = parent.signalActions := by
        have hactions := congrArg TaskStruct.signalActions hrecord
        exact hactions
      have hinherit : (t.inherit parent).signalActions = parent.signalActions := by
        unfold TaskStruct.inherit
        dsimp only
        split <;> rfl
      show (t.inherit parent).signalActions.get? SIGKILL = none ∧
        (t.inherit parent).signalActions.get? SIGSTOP = none
      rw [hinherit, ← hsame]
      exact h pid p.signalActions (World.actionsOf_of_task hp)
    · exact h q a ha'
  panicked w b h := h

/-- No process has an action for `SIGKILL` or `SIGSTOP` in any reachable state. -/
theorem Reachable.noActions {w : World} (h : Reachable w) : w.NoActions := by
  refine Reachable.invariant ?_ ?_ w h
  · intro w w' path hi hr
    have hstart : w.NoActions := by
      intro pid a ha
      rw [World.actionsOf, World.task?, hi.noTasks] at ha
      cases ha
    have hload := loadInit_keeps_blind (I := World.NoActions) path w hstart
    rwa [hr] at hload
  · intro w r w' _ hw hs
    rw [← hs.2]
    exact dispatch_keeps_of terminateProcess_keeps_blind
      (fun pid sys ret => finishSyscall_keeps (terminateProcess_keeps_blind pid) sys ret)
      doNanosleep_keeps r hw fun pid _ _ hsys => jobCall_keeps pid hsys _ hw

/-- The process can neither block nor catch `SIGKILL` and `SIGSTOP`: its mask has neither bit, nor
has the mask that it gets back, and there is no action for them. -/
structure TaskStruct.Unblockable (t : TaskStruct) : Prop where
  blocked : t.signal.signalBlocked &&& SIGNAL_UNBLOCKABLE_MASK = 0
  restored : t.signal.restoreMask.signalBlocked &&& SIGNAL_UNBLOCKABLE_MASK = 0
  kill : t.signalActions.get? SIGKILL = none
  stop : t.signalActions.get? SIGSTOP = none

/-- In every reachable state no process blocks or handles what cannot be. -/
theorem Reachable.unblockable {w : World} (h : Reachable w) {pid : Nat} {t : TaskStruct}
    (ht : w.task? pid = some t) : t.Unblockable := by
  have hsig : w.signalsOf pid = some t.signal := by rw [World.signalsOf, ht]; rfl
  have hmask : t.signal.Maskable := h.maskable pid t.signal hsig
  obtain ⟨hkill, hstop⟩ := h.noActions pid t.signalActions (World.actionsOf_of_task ht)
  exact ⟨hmask, restoreMask_change.maskable _ hmask, hkill, hstop⟩

/-! ### A pending `SIGSTOP` -/

/-- `SIGSTOP` is pending for the process. -/
def World.StopPending (pid : Nat) (w : World) : Prop :=
  ∃ p, w.pendingOf pid = some p ∧ p.getLsbD (SIGSTOP - 1) = true

/-- The process is not a new one, and `SIGSTOP` is pending for it as long as it is there. -/
def holdsStop (pid : Nat) (v : SignalView) : Prop :=
  pid < v.nextPid ∧ ∀ p, v.pending pid = some p → p.getLsbD (SIGSTOP - 1) = true

/-- The process keeps its pending `SIGSTOP`. -/
def World.HoldsStop (pid : Nat) (w : World) : Prop := holdsStop pid w.signalView

section Holds

variable {pid : Nat}

instance : BlindSlots (World.HoldsStop pid) :=
  BlindSlots.comp (V := World.signalView) (holdsStop pid) inferInstance

instance : BlindTrace (World.HoldsStop pid) := ⟨fun _ _ => rfl⟩

instance : BlindRecords (World.HoldsStop pid) :=
  BlindRecords.comp (V := World.signalView) (holdsStop pid) inferInstance

instance : BlindWaits (World.HoldsStop pid) :=
  BlindWaits.comp (V := World.signalView) (holdsStop pid) inferInstance

instance : BlindSleeps (World.HoldsStop pid) :=
  BlindSleeps.comp (V := World.signalView) (holdsStop pid) inferInstance

instance : BlindCaller (World.HoldsStop pid) :=
  BlindCaller.comp (V := World.signalView) (holdsStop pid) inferInstance

instance : BlindFiles (World.HoldsStop pid) :=
  BlindFiles.comp (V := World.signalView) (holdsStop pid) inferInstance

instance : BlindMemory (World.HoldsStop pid) :=
  BlindMemory.comp (V := World.signalView) (holdsStop pid) inferInstance

/-- A change of the signals of a process that keeps a pending `SIGSTOP`. -/
theorem modifySignal_holdsStop (q : Nat) {f : SignalStruct → SignalStruct}
    (hf : ∀ s, s.signalPending.getLsbD (SIGSTOP - 1) = true →
      (f s).signalPending.getLsbD (SIGSTOP - 1) = true) :
    Keeps (World.HoldsStop pid) (modifySignal q f) := by
  intro w hw
  refine ⟨hw.1, ?_⟩
  intro p hp
  have hp' : ((w.tasks.modify q _).get? pid).map (·.signal.signalPending) = some p := hp
  rw [OrdMap.get?_modify] at hp'
  split at hp'
  · rw [Option.map_map] at hp'
    obtain ⟨t, ht, rfl⟩ := Option.map_eq_some_iff.mp hp'
    exact hf t.signal (hw.2 t.signal.signalPending (congrArg (Option.map fun t : TaskStruct =>
      t.signal.signalPending) ht))
  · exact hw.2 p hp'

/-- What happens to the signals of another process. -/
theorem modifySignal_holdsStop_other {q : Nat} (hq : q ≠ pid) (f : SignalStruct → SignalStruct) :
    Keeps (World.HoldsStop pid) (modifySignal q f) := by
  intro w hw
  refine ⟨hw.1, fun p hp => hw.2 p ?_⟩
  have hp' : ((w.tasks.modify q _).get? pid).map (·.signal.signalPending) = some p := hp
  rw [OrdMap.get?_modify, if_neg hq.symm] at hp'
  exact hp'

instance (q : Nat) : OwnSignals (World.HoldsStop pid) q where
  own _ hf := modifySignal_holdsStop q fun s hs => by rw [hf.pending s]; exact hs

instance : QuietSignals (World.HoldsStop pid) where
  quiet q _ hf := modifySignal_holdsStop q fun s hs => by rw [hf.pending s]; exact hs
  queue q signum := by
    refine Keeps.bind (Keeps.gets _) fun task => Keeps.whenSome fun t =>
      Keeps.whenSome fun bit => ?_
    have hqueue : Keeps (World.HoldsStop pid) (modifySignal q (·.queueSignal bit)) := by
      refine modifySignal_holdsStop q fun s hs => ?_
      show (s.signalPending ||| bit).getLsbD (SIGSTOP - 1) = true
      rw [BitVec.getLsbD_or, hs]
      rfl
    refine Keeps.bind hqueue fun _ => Keeps.bind (emit_frames _).keepsProp fun _ => ?_
    exact Keeps.bind (by simp) fun _ => Keeps.bind (Keeps.when (wakeFromSigsuspend_keeps _))
      fun _ => fun _ h => h
  dropped := fun _ h => h
  waitIntr := fun _ _ h => h

/-- A new process is another one. -/
instance : ProcessKeeps (World.HoldsStop pid) where
  erase w q h _ := by
    refine ⟨h.1, ?_⟩
    intro p hp
    have hp' : ((w.tasks.erase q).get? pid).map (·.signal.signalPending) = some p := hp
    rw [OrdMap.get?_erase] at hp'
    split at hp'
    · cases hp'
    · exact h.2 p hp'
  register w parentPid cnode h := by
    have hlt : pid < w.nextPid := h.1
    have hne : pid ≠ w.nextPid := by omega
    refine ⟨Nat.lt_succ_of_lt hlt, ?_⟩
    intro p hp
    have hp' : ((w.registered parentPid cnode).tasks.get? pid).map (·.signal.signalPending)
      = some p := hp
    rw [World.registered, OrdMap.get?_insert_ne _ _ hne] at hp'
    exact h.2 p hp'
  inherit w child parent q h hfork := by
    -- the child has no pending signals, so it is not the process
    have hne : pid ≠ child := by
      rintro rfl
      exact absurd (h.2 0 hfork.2.fresh.2) (by decide)
    refine ⟨h.1, ?_⟩
    intro p hp
    have hp' : ((w.tasks.modify child (·.inherit parent)).get? pid).map (·.signal.signalPending)
      = some p := hp
    rw [OrdMap.get?_modify, if_neg hne] at hp'
    exact h.2 p hp'
  panicked w b h := h

/-- A `SIGCONT` for another process. -/
theorem killCont_holdsStop {q : Nat} (hq : q ≠ pid) : Keeps (World.HoldsStop pid) (killCont q) :=
  killCont_keeps_of fun _ => Keeps.bind (Keeps.gets _) fun _ => Keeps.whenSome fun _ =>
    Keeps.bind (modifySignal_holdsStop_other hq _) fun _ => Keeps.when (emit_frames _).keepsProp

/-! ### The calls that take a signal -/

variable {s : SignalStruct}

/-- The look for a signal keeps `SIGSTOP` pending when another signal comes first. -/
theorem popPendingSignalFromMask_holdsStop {mask : SigSet}
    (hlow : SigSet.lowest? (s.signalPending &&& mask) ≠ some (SIGSTOP - 1)) :
    Triple (fun w => w.HoldsStop pid ∧ w.signalsOf pid = some s) (popPendingSignalFromMask pid mask)
      (fun o w => w.HoldsStop pid ∧ (o = none → w.signalsOf pid = some s))
      (fun _ => World.HoldsStop pid) := by
  rintro w ⟨hw, hs⟩
  obtain ⟨t, ht, rfl⟩ := Option.map_eq_some_iff.mp hs
  rw [run_popPendingSignalFromMask ht]
  cases hidx : SigSet.lowest? (t.signal.signalPending &&& mask) with
  | none =>
    refine ⟨fun o ho => ⟨hw, fun _ => hs⟩, fun e he => by cases he⟩
  | some idx =>
    have hne : idx ≠ SIGSTOP - 1 := fun heq => hlow (by rw [hidx, heq])
    have hkeep : Keeps (World.HoldsStop pid) (modifySignal pid (·.clearPending idx)) := by
      refine modifySignal_holdsStop pid fun s hs => ?_
      show (s.signalPending &&& ~~~(1#64 <<< idx)).getLsbD (SIGSTOP - 1) = true
      rw [BitVec.getLsbD_and, BitVec.getLsbD_not, getLsbD_bit _ _ (by decide), hs]
      simp [hne.symm, show SIGSTOP - 1 < 64 from by decide]
    refine ⟨fun o ho => ⟨hkeep w hw, ?_⟩, fun e he => by cases he⟩
    intro hnone
    subst hnone
    cases ho

/-- What leaves the signals alone keeps the signals of the process. -/
theorem Frames.heldSignals {α : Type} {c : M α} (hI : Keeps (World.HoldsStop pid) c)
    (hc : ∀ v, Keeps (fun w => w.quietView = v) c) :
    Keeps (fun w => w.HoldsStop pid ∧ w.signalsOf pid = some s) c :=
  fun w h => ⟨hI w h.1, Frames.signals hc w h.2⟩

/-- `rt_sigtimedwait` leaves a pending stop, unless it is the signal that it takes. -/
theorem sigtimedwaitLoop_holdsStop {mask : SigSet}
    (hlow : SigSet.lowest? (s.signalPending &&& mask) ≠ some (SIGSTOP - 1))
    (deadline rounds : Nat) :
    Triple (fun w => w.HoldsStop pid ∧ w.signalsOf pid = some s)
      (sigtimedwaitLoop pid mask deadline rounds) (fun _ => World.HoldsStop pid)
      (fun _ => World.HoldsStop pid) := by
  induction rounds with
  | zero => exact Triple.throw fun w h => h.1
  | succ rounds ih =>
    unfold sigtimedwaitLoop
    refine Triple.bind (popPendingSignalFromMask_holdsStop hlow) fun candidate => ?_
    cases candidate with
    | some signum => exact Triple.pure fun w h => h.1
    | none =>
      -- no signal of the set is pending, and none arrives during the call
      have hyield : ∀ {α : Type} {c : M α}, Keeps (World.HoldsStop pid) c →
          (∀ v, Keeps (fun w => w.quietView = v) c) →
          Triple (fun w => w.HoldsStop pid ∧ w.signalsOf pid = some s) c
            (fun _ w => w.HoldsStop pid ∧ w.signalsOf pid = some s)
              (fun _ => World.HoldsStop pid) :=
        fun hI hc => (Frames.heldSignals hI hc).triple.errors fun _ _ h => h.1
      refine Triple.pre (K := fun w => w.HoldsStop pid ∧ w.signalsOf pid = some s) ?_
        fun w h => ⟨h.1, h.2 rfl⟩
      refine Triple.bind (hyield monoNow_keeps fun v => monoNow_keeps) fun now => ?_
      refine Triple.ite (fun _ => Triple.pure fun w h => h.1) fun _ => ?_
      exact Triple.bind (hyield (by simp) fun v => by simp) fun _ => ih

/-- What `rt_sigtimedwait` reads before it looks for a signal: the set, when the timeout is
valid. -/
def sigtimedwaitSet (pid set timeout sigsetsize : Nat) : M SigSet := do
  let mask ← importSigset pid set sigsetsize
  let _ ← parseTimeoutDeadline pid timeout
  pure mask

/-- `rt_sigtimedwait` leaves a pending stop, unless its set has the stop as its lowest pending
signal. -/
theorem doRtSigtimedwait_holdsStop {w : World} (hw : w.HoldsStop pid)
    (hs : w.signalsOf pid = some s)
    (set info timeout size : Nat)
    (hlow : ∀ mask, ((sigtimedwaitSet pid set timeout size).run w).1 = .ok mask →
      SigSet.lowest? (s.signalPending &&& mask) ≠ some (SIGSTOP - 1)) :
    ((doRtSigtimedwait pid set info timeout size).run w).2.HoldsStop pid := by
  unfold doRtSigtimedwait
  split
  · exact hw
  have himport := Frames.heldSignals (s := s) (importSigset_keeps pid set size)
    (fun v => importSigset_keeps pid set size) w ⟨hw, hs⟩
  rcases hread : (importSigset pid set size).run w with ⟨e | mask, w₁⟩
  · rw [hread] at himport
    rw [run_bind_error hread]
    exact himport.1
  rw [hread] at himport
  rw [run_bind_ok hread]
  split
  · exact himport.1
  have hparse := Frames.heldSignals (s := s) (c := parseTimeoutDeadline pid timeout)
    (parseTimeoutDeadline_keeps timeout) (fun v => parseTimeoutDeadline_keeps timeout) w₁ himport
  rw [run_bind_ok (run_attempt _ _)]
  rcases htime : (parseTimeoutDeadline pid timeout).run w₁ with ⟨e | deadline, w₂⟩
  · rw [htime] at hparse
    exact hparse.1
  rw [htime] at hparse
  have hset : ((sigtimedwaitSet pid set timeout size).run w).1 = .ok mask := by
    rw [sigtimedwaitSet, run_bind_ok hread, run_bind_ok htime]
    rfl
  -- the loop, and the stores after it
  refine Triple.ends (P := fun w => w.HoldsStop pid ∧ w.signalsOf pid = some s) ?_ hparse
  refine Triple.bind (R := fun _ w => w.HoldsStop pid ∧ w.signalsOf pid = some s)
    (Triple.gets fun w h => h) fun rounds => ?_
  refine Triple.bind (sigtimedwaitLoop_holdsStop (hlow mask hset) deadline rounds) fun signum => ?_
  cases signum with
  | none => exact Triple.pure fun w h => h
  | some signum =>
    exact Keeps.triple (Keeps.bind (Keeps.onError (by simp) fun _ => by simp) fun _ =>
      Keeps.bind (emit_frames _).keepsProp fun _ => Keeps.pure _)

/-- `rt_sigsuspend` leaves a pending stop. -/
theorem doRtSigsuspend_holdsStop {w : World} (hw : w.HoldsStop pid) (hs : w.signalsOf pid = some s)
    (set size : Nat)
    (hlow : ∀ mask, ((importSigset pid set size).run w).1 = .ok mask →
      SigSet.lowest? (s.setBlocked (mask &&& ~~~SIGNAL_UNBLOCKABLE_MASK)).deliverable
        ≠ some (SIGSTOP - 1)) :
    ((doRtSigsuspend pid set size).run w).2.HoldsStop pid := by
  unfold doRtSigsuspend
  split
  · exact hw
  have himport := Frames.heldSignals (s := s) (importSigset_keeps pid set size)
    (fun v => importSigset_keeps pid set size) w ⟨hw, hs⟩
  rcases hread : (importSigset pid set size).run w with ⟨e | mask, w₁⟩
  · rw [hread] at himport
    rw [run_bind_error hread]
    exact himport.1
  rw [hread] at himport
  rw [run_bind_ok hread]
  have hlow' := hlow mask (by rw [hread])
  obtain ⟨task, hget, rfl⟩ := run_getProcess_signals himport.2
  rw [run_bind_ok hget]
  -- the look under the temporary mask
  refine Triple.ends (P := fun w => w.HoldsStop pid ∧ w.signalsOf pid = some task.signal) ?_ himport
  refine Triple.bind (R := fun _ w => w.HoldsStop pid ∧ w.signalsOf pid = some
    (task.signal.setBlocked (mask &&& ~~~SIGNAL_UNBLOCKABLE_MASK))) ?_ fun _ => ?_
  · intro w h
    refine ⟨fun a ha => ⟨?_, ?_⟩, fun e he => by cases he⟩
    · exact setBlocked_keeps (I := World.HoldsStop pid) _ w h.1
    · exact (modifySignal_signals _ (E := fun _ _ => False) w h.2).1 a ha
  intro w₀ h₀
  obtain ⟨task', hget', hsignal⟩ := run_getProcess_signals h₀.2
  rw [run_bind_ok hget']
  have hlow'' : SigSet.lowest? (task'.signal.signalPending &&& task'.signal.deliverable)
      ≠ some (SIGSTOP - 1) := by
    rw [task'.signal.pending_and_deliverable, hsignal]
    exact hlow'
  have hpop := @popPendingSignalFromMask_holdsStop pid _ _ hlow''
  refine Triple.bind (hpop.post fun _ _ h => h.1) (fun observed => ?_)
    w₀ ⟨h₀.1, hsignal ▸ h₀.2⟩
  cases observed with
  | some signum =>
    exact Keeps.triple (Keeps.bind (by simp) fun _ => Keeps.bind (by simp) fun _ => Keeps.pure _)
  | none =>
    exact Keeps.triple (Keeps.bind (by simp) fun _ => Keeps.bind (by simp) fun _ =>
      Keeps.bind (by simp) fun r => by simp)

end Holds

/-! ### The stop on the return of a call -/

section Returns

variable {w : World} {pid : Nat} {t : TaskStruct}

/-- What led from `w` to `w'` suspended the thread of the process, and left the process marked
stopped. -/
def World.Stops (w w' : World) (pid : Nat) : Prop :=
  (∃ tail, w'.trace = w.trace ++ tail ∧ Event.suspended pid ∈ tail) ∧
    (w'.task? pid).any (·.stopped) = true

/-- The delivery of a stop signal stops the process when the kernel suspends its thread. -/
theorem deliverStop_stops (h : w.task? pid = some t) (henv : (w.env w.tick).err = none)
    (signum : Nat) : w.Stops ((deliverStop pid signum).run w).2 pid := by
  have hsuspend : (tcbSuspend pid).run w
      = (.ok (), { w with tick := w.tick + 1, trace := w.trace ++ [.suspended pid] }) := by
    rw [tcbSuspend, run_bind_ok (run_ext_ok henv)]
    rfl
  rw [deliverStop, run_bind_ok (run_getProcess h), run_bind_ok (run_attempt _ _), hsuspend]
  let P (w' : World) : Prop :=
    w'.trace = w.trace ++ [.suspended pid] ∧ (w'.task? pid).isSome = true
  have hlive : (w.task? pid).isSome = true := by rw [h]; rfl
  refine Triple.ends (P := P) (R := fun w' => w.Stops w' pid) ?_ ⟨rfl, hlive⟩
  refine Triple.bind (R := fun _ => P) (Triple.when (fun hno => absurd rfl hno) fun _ _ h => h)
    fun _ => ?_
  refine Triple.bind (R := fun _ w' => w.Stops w' pid) ?_ fun _ => ?_
  · refine Triple.when (fun _ => ?_) fun _ hno _ => absurd rfl hno
    refine Triple.bind (R := fun _ => P) (Triple.gets fun _ hw' => hw') fun _ => ?_
    refine Triple.bind (R := fun _ => P) ?_ fun _ => ?_
    · refine Triple.whenSome (fun _ _ => ?_) fun _ _ hw' => hw'
      exact Triple.when (fun _ => Triple.modify fun _ hw' => hw') fun _ _ hw' => hw'
    -- the mark
    refine Triple.modify fun w' hw' => ⟨⟨[.suspended pid], hw'.1, List.mem_singleton.mpr rfl⟩, ?_⟩
    obtain ⟨t', ht'⟩ := Option.isSome_iff_exists.mp hw'.2
    have hget : w'.tasks.get? pid = some t' := ht'
    show ((w'.tasks.modify pid _).get? pid).any (·.stopped) = true
    rw [OrdMap.get?_modify, if_pos rfl, hget]
    rfl
  · refine Keeps.triple (Keeps.bind (Keeps.when ?_) fun _ => Keeps.pure _)
    exact Keeps.bind (Keeps.when fun _ hw' => hw') fun _ => fun _ hw' => hw'

/-- A return of a process with a pending stop stops it when that is the next signal. -/
theorem finishSyscall_heeds (h : w.task? pid = some t) (hw : w.HoldsStop pid)
    (hactions : t.signalActions.get? SIGSTOP = none)
    (henv : t.nextSignal = some SIGSTOP → (w.env w.tick).err = none) (sys : Syscall) (ret : Int) :
    ((finishSyscall pid sys ret).run w).2.HoldsStop pid ∨
      w.Stops ((finishSyscall pid sys ret).run w).2 pid := by
  by_cases hnext : t.nextSignal = some SIGSTOP
  · right
    have haction : t.signalAction SIGSTOP = SignalAction.default := by
      rw [TaskStruct.signalAction, hactions]
      rfl
    let w₁ : World := w.taken pid SIGSTOP SignalAction.default
    have hconsume : (consumeDeliverableSignalOnSyscallReturn pid).run w
        = (deliverStop pid SIGSTOP).run w₁ := by
      rw [run_consume h, hnext]
      dsimp only
      rw [haction]
      rfl
    have htask : w₁.task? pid = some _ := World.task?_taken h SIGSTOP SignalAction.default
    have hstops : w₁.Stops ((deliverStop pid SIGSTOP).run w₁).2 pid :=
      deliverStop_stops htask (henv hnext) SIGSTOP
    have hresult := deliverStop_result htask SIGSTOP
    have hend : ((finishSyscall pid sys ret).run w).2 = ((deliverStop pid SIGSTOP).run w₁).2 := by
      rw [finishSyscall, run_bind_ok (run_attempt _ _), hconsume, hresult]
      dsimp only
      split <;> rfl
    rw [hend]
    obtain ⟨⟨tail, htrace, hmem⟩, hmarked⟩ := hstops
    refine ⟨⟨.dequeued pid SIGSTOP SignalAction.default :: tail, ?_, ?_⟩, hmarked⟩
    · rw [htrace]
      show w.trace ++ [_] ++ tail = _
      rw [List.append_assoc]
      rfl
    · exact List.mem_cons_of_mem _ hmem
  · left
    -- another signal is taken, or none
    have hconsume : ((consumeDeliverableSignalOnSyscallReturn pid).run w).2.HoldsStop pid := by
      rw [run_consume h]
      cases hsig : t.nextSignal with
      | none => exact hw
      | some signum =>
        refine deliverSignal_keeps pid signum _ (I := World.HoldsStop pid) _ ?_
        have hne : signum - 1 ≠ SIGSTOP - 1 := by
          intro heq
          obtain ⟨idx, _, rfl⟩ := Option.map_eq_some_iff.mp hsig
          have hidx : idx = SIGSTOP - 1 := heq
          subst hidx
          exact hnext hsig
        refine modifySignal_holdsStop pid (f := (·.clearPending (signum - 1))) (fun s hs => ?_) w hw
        show (s.signalPending &&& ~~~(1#64 <<< (signum - 1))).getLsbD (SIGSTOP - 1) = true
        rw [BitVec.getLsbD_and, BitVec.getLsbD_not, getLsbD_bit _ _ (by decide), hs]
        simp [hne.symm, show SIGSTOP - 1 < 64 from by decide]
    refine Triple.ends (P := fun w' => w' = w) (R := World.HoldsStop pid) ?_ rfl
    refine Triple.bind (R := fun _ => World.HoldsStop pid) ?_ fun action => Keeps.triple ?_
    · intro w' hw'
      subst hw'
      exact ⟨fun _ _ => hconsume, fun _ _ => hconsume⟩
    · split
      · exact Keeps.pure _
      · exact Keeps.ite (by simp) (by simp)
      · exact Keeps.bind (terminateProcess_keeps_blind pid _) fun _ => Keeps.pure _
      · exact Keeps.pure _

/-- A process that is gone takes no signal on its return. -/
theorem finishSyscall_gone (h : w.task? pid = none) (hw : w.HoldsStop pid) (sys : Syscall)
    (ret : Int) : ((finishSyscall pid sys ret).run w).2.HoldsStop pid := by
  have hconsume : (consumeDeliverableSignalOnSyscallReturn pid).run w = (.ok .none, w) := by
    rw [consumeDeliverableSignalOnSyscallReturn, run_gets_bind, h]
    rfl
  rw [finishSyscall, run_bind_ok (run_attempt _ _), hconsume]
  exact hw

end Returns

/-! ### What takes a `SIGSTOP` away -/

/-- After the call of the process a pending `SIGSTOP` is still pending, or has stopped the process,
or was cancelled by a `SIGCONT` that the process sent. -/
def World.StopKept (w : World) (pid : Nat) (sys : Syscall) : Prop :=
  w.StopPending pid → (w.after (.syscall pid sys)).task? pid ≠ none →
    (w.after (.syscall pid sys)).StopPending pid ∨ w.Stops (w.after (.syscall pid sys)) pid ∨
      ∃ target, sys = .kill target SIGCONT ∧ pid ∈ w.killTargets pid target

/-- The call that the process makes in the state `w` leaves a pending `SIGSTOP` to the syscall
return, and the kernel suspends the thread there: `rt_sigtimedwait` and `rt_sigsuspend` find another
signal first, or none. -/
structure World.StopHeeded (w : World) (pid : Nat) (sys : Syscall) : Prop where
  timedwait : ∀ set info timeout size mask s, sys = .rtSigtimedwait set info timeout size →
    w.signalsOf pid = some s → ((sigtimedwaitSet pid set timeout size).run w).1 = .ok mask →
    SigSet.lowest? (s.signalPending &&& mask) ≠ some (SIGSTOP - 1)
  suspend : ∀ set size mask s, sys = .rtSigsuspend set size → w.signalsOf pid = some s →
    ((importSigset pid set size).run w).1 = .ok mask →
    SigSet.lowest? (s.setBlocked (mask &&& ~~~SIGNAL_UNBLOCKABLE_MASK)).deliverable
      ≠ some (SIGSTOP - 1)
  suspended : ∀ w₁ t, w₁ = ((routeSyscall pid sys).run w).2 →
    ((routeSyscall pid sys).run w).1 ≠ .error .success → w₁.task? pid = some t →
    t.nextSignal = some SIGSTOP → (w₁.env w₁.tick).err = none

/-- A call leaves `SIGSTOP` pending, unless it takes it itself or is a `SIGCONT` to the process. -/
theorem routeSyscall_holdsStop {w : World} {pid : Nat} {sys : Syscall} {s : SignalStruct}
    (hw : w.HoldsStop pid) (hs : w.signalsOf pid = some s) (hheeded : w.StopHeeded pid sys)
    (hcont : ∀ target, sys = .kill target SIGCONT → pid ∉ w.killTargets pid target) :
    ((routeSyscall pid sys).run w).2.HoldsStop pid := by
  refine routeSyscall_keeps_of terminateProcess_keeps_blind pid sys hw
    (fun hsys => memoryCall_keeps_blind pid hsys w hw) (fun hsys => jobCall_keeps pid hsys w hw)
    (fun _ _ _ hsys => hsys ▸ doWait4_keeps _ _ _ _ w hw)
    (fun req rem hsys => hsys ▸ doNanosleep_keeps pid req rem w hw)
    (fun target sig hsys => ?_) fun hsys => ?_
  · subst hsys
    refine doKill_keeps_at terminateProcess_keeps_blind pid target sig hw fun hsig q hq => ?_
    subst hsig
    refine killCont_holdsStop fun heq => ?_
    subst heq
    exact hcont target rfl hq
  -- the two calls that may take a pending stop signal
  · cases sys with
    | rtSigtimedwait set info timeout size =>
      exact doRtSigtimedwait_holdsStop hw hs set info timeout size fun mask hmask =>
        hheeded.timedwait set info timeout size mask s rfl hs hmask
    | rtSigsuspend set size =>
      exact doRtSigsuspend_holdsStop hw hs set size fun mask hmask =>
        hheeded.suspend set size mask s rfl hs hmask
    | _ => cases hsys

/-- In every reachable state no process can block or catch `SIGKILL` and `SIGSTOP`. A call that does
not take a pending `SIGSTOP` of its process with `rt_sigtimedwait` or `rt_sigsuspend`, and whose
return is not refused the suspension of the thread, removes the signal only by stopping the process
or by sending it a `SIGCONT`. -/
theorem unblockable_signals {w : World} (h : Reachable w) :
    (∀ pid t, w.task? pid = some t → t.Unblockable) ∧
    ∀ pid sys, World.StopHeeded { w with activeCallerPid := some pid } pid sys →
      w.StopKept pid sys := by
  refine ⟨fun pid t ht => h.unblockable ht, ?_⟩
  intro pid sys hheeded hpending hlive
  obtain ⟨p, hp, hbit⟩ := hpending
  by_cases hcont : ∃ target, sys = .kill target SIGCONT ∧ pid ∈ w.killTargets pid target
  · exact .inr (.inr hcont)
  let w₀ : World := { w with activeCallerPid := some pid }
  obtain ⟨t, ht, rfl⟩ := Option.map_eq_some_iff.mp hp
  have hhold : w₀.HoldsStop pid := by
    refine ⟨h.signalsOk.below pid _ hp, ?_⟩
    intro p' hp'
    have hsame : t.signal.signalPending = p' := Option.some.inj (hp.symm.trans hp')
    rw [← hsame]
    exact hbit
  have hsig : w₀.signalsOf pid = some t.signal :=
    congrArg (Option.map fun t : TaskStruct => t.signal) ht
  have hroute : ((routeSyscall pid sys).run w₀).2.HoldsStop pid :=
    routeSyscall_holdsStop hhold hsig hheeded fun target hsys hmem => hcont ⟨target, hsys, hmem⟩
  -- the trace and the actions after the call
  have hstart : w₀.SignalsOk w.trace fun _ => False := h.signalsOk
  have htrace : ((routeSyscall pid sys).run w₀).2.SignalsOk w.trace fun _ => False :=
    routeSyscall_keeps_at terminateProcess_keeps_blind pid sys hstart
      (fun hsys => memoryCall_keeps_blind pid hsys w₀ hstart)
      (fun hsys => jobCall_keeps pid hsys w₀ hstart)
      (fun _ _ _ hsys => hsys ▸ doWait4_keeps _ _ _ _ w₀ hstart)
      fun req rem hsys => hsys ▸ doNanosleep_keeps pid req rem w₀ hstart
  obtain ⟨tail, htail, _⟩ := htrace.history
  have hfree : w₀.NoActions := h.noActions
  have hactions : ((routeSyscall pid sys).run w₀).2.NoActions :=
    routeSyscall_keeps_at terminateProcess_keeps_blind pid sys hfree
      (fun hsys => memoryCall_keeps_blind pid hsys w₀ hfree)
      (fun hsys => jobCall_keeps pid hsys w₀ hfree)
      (fun _ _ _ hsys => hsys ▸ doWait4_keeps _ _ _ _ w₀ hfree)
      fun req rem hsys => hsys ▸ doNanosleep_keeps pid req rem w₀ hfree
  -- the return
  let I (w' : World) : Prop := w'.HoldsStop pid ∨ w.Stops w' pid
  have : BlindCaller I := ⟨fun _ _ => rfl⟩
  have hend : I (w.after (.syscall pid sys)) := by
    refine dispatch_at_of_handle (I := I) ?_
    show I ((handleSyscall pid sys).run w₀).2
    rcases handleSyscall_cases pid sys w₀ with ⟨_, heq⟩ | ⟨hret, heq⟩
    · rw [heq]
      exact .inl hroute
    rw [heq]
    cases ht₁ : ((routeSyscall pid sys).run w₀).2.task? pid with
    | none =>
      -- the process is gone, and has nothing to return to
      refine .inl (finishSyscall_gone ht₁ hroute sys _)
    | some t₁ =>
      have hact := (hactions pid t₁.signalActions (World.actionsOf_of_task ht₁)).2
      rcases finishSyscall_heeds ht₁ hroute hact
        (hheeded.suspended _ t₁ rfl hret ht₁) sys _ with hkept | hstops
      · exact .inl hkept
      · obtain ⟨⟨more, hmore, hmem⟩, hmarked⟩ := hstops
        refine .inr ⟨⟨tail ++ more, ?_, List.mem_append_right _ hmem⟩, hmarked⟩
        have htail' : ((routeSyscall pid sys).run w₀).2.trace = w.trace ++ tail := htail
        rw [hmore, htail', List.append_assoc]
  rcases hend with hkept | hstops
  · left
    obtain ⟨t', ht'⟩ := Option.ne_none_iff_exists'.mp hlive
    have hp' : (w.after (.syscall pid sys)).pendingOf pid = some t'.signal.signalPending :=
      congrArg (Option.map fun t : TaskStruct => t.signal.signalPending) ht'
    exact ⟨_, hp', hkept.2 _ hp'⟩
  · exact .inr (.inl hstops)

/-- The child of `init` ends, and `init` sends itself `SIGSTOP`. The return of the call takes the
`SIGCHLD` of the child first. The set with the bit of `SIGSTOP` is in the memory of `init`. -/
def sampleStop : World :=
  [Request.syscall 1 (.userWrite 0x3ffff800 (leBytes 8 (2 ^ 18))), .syscall 2 (.exit 0),
    .syscall 1 (.kill 1 SIGSTOP)].foldl World.after sampleFork

/-- The sample with a stop is reachable. -/
theorem sampleStop_reachable : Reachable sampleStop :=
  ((sampleFork_reachable.after (by decide +kernel)).after (by decide +kernel)).after
    (by decide +kernel)

/-- The next call of `init` stops it. -/
theorem unblockable_signals_sampleStop :
    (∀ t, sampleStop.task? 1 = some t → t.Unblockable) ∧ sampleStop.StopKept 1 .setsid := by
  obtain ⟨hfree, hkept⟩ := unblockable_signals sampleStop_reachable
  refine ⟨hfree 1, hkept 1 .setsid ⟨?_, ?_, ?_⟩⟩
  · intro set info timeout size mask s hsys
    cases hsys
  · intro set size mask s hsys
    cases hsys
  · rintro w₁ t rfl _ _ _
    decide +kernel

/-- `rt_sigtimedwait` with `SIGSTOP` in its set returns the signal, and `init` goes on. -/
theorem sigtimedwait_takes_stop : Reachable sampleStop ∧
    ((handleSyscall 1 (.rtSigtimedwait 0x3ffff800 0 0 8)).run
      { sampleStop with activeCallerPid := some 1 }).1 = .ok 19 ∧
    ¬ sampleStop.StopKept 1 (.rtSigtimedwait 0x3ffff800 0 0 8) := by
  refine ⟨sampleStop_reachable, by decide +kernel, ?_⟩
  intro hkept
  have hpending : (sampleStop.pendingOf 1).all (·.getLsbD (SIGSTOP - 1)) = true ∧
      (sampleStop.pendingOf 1).isSome = true := by decide +kernel
  obtain ⟨p, hp⟩ := Option.isSome_iff_exists.mp hpending.2
  have hbit : p.getLsbD (SIGSTOP - 1) = true := by
    have hall := hpending.1
    rw [hp] at hall
    exact hall
  let w' : World := sampleStop.after (.syscall 1 (.rtSigtimedwait 0x3ffff800 0 0 8))
  have hlive : (w'.task? 1).isSome = true := by decide +kernel
  rcases hkept ⟨p, hp, hbit⟩ (Option.isSome_iff_ne_none.mp hlive) with hstill | hstops | hcont
  -- the bit was taken, the process runs on, and no `SIGCONT` was sent
  · have hgone : (w'.pendingOf 1).any (·.getLsbD (SIGSTOP - 1)) = false := by decide +kernel
    obtain ⟨p', hp', hbit'⟩ := hstill
    rw [hp'] at hgone
    rw [show Option.any _ (some p') = p'.getLsbD (SIGSTOP - 1) from rfl, hbit'] at hgone
    cases hgone
  · have hruns : (w'.task? 1).any (·.stopped) = false := by decide +kernel
    exact absurd hstops.2 (by rw [hruns]; exact Bool.false_ne_true)
  · obtain ⟨target, hsys, _⟩ := hcont
    cases hsys

end Ape
