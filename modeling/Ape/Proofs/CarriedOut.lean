import Ape.Proofs.Observe

/-!
# `Ape.Proofs.CarriedOut`: the events of a signal that is delivered

A syscall return takes a signal out of the pending set, and then asks the thread of the process, or
ends the process, to carry out its action. The kernel can refuse what is asked of the thread.
`World.CarriesOut` says that both events are in the trace. `finishSyscall_carriesOut` says for which
signal that is so.
-/

set_option autoImplicit false

namespace Ape

open Ape.Lib Cmd

/-- The event by which the thread of the process carries out the action, if the thread is asked. -/
def SignalAction.call (action : SignalAction) (pid signum : Nat) : Option Event :=
  if action.handler = SIG_IGN_HANDLER then none
  else if action.handler ≠ SIG_DFL_HANDLER then some (.upcall pid action.handler signum)
  else if defaultIgnoredSignal signum then none
  else if defaultStopSignal signum then some (.suspended pid)
  else if signum = SIGCONT then some (.resumed pid)
  else none

/-- What is asked of the thread in the state to carry out the action is not refused. -/
def World.Allows (w : World) (pid signum : Nat) (action : SignalAction) : Prop :=
  (action.call pid signum).isSome → (w.env w.tick).err = none

/-- Between the states the signal is taken out of the pending set with the action, and unless it is
ignored the action is carried out afterwards. -/
def World.CarriesOut (w : World) (pid signum : Nat) (action : SignalAction) (w' : World) : Prop :=
  ∃ pre post, w'.trace = w.trace ++ (pre ++ .dequeued pid signum action :: post) ∧
    (action.ignores signum = false → ∃ a ∈ post, a.carriesOut pid signum action)

section Calls

variable {pid signum : Nat} {action : SignalAction}

/-- The call that the thread is asked for carries out the action. -/
theorem SignalAction.call_carriesOut {e : Event} (h : action.call pid signum = some e) :
    e.carriesOut pid signum action := by
  unfold SignalAction.call at h
  split at h
  -- a handler is called, the default stops, or the default continues: the three calls
  · cases h
  rename_i hnotign
  split at h
  · rename_i hhandler
    cases h
    exact ⟨rfl, rfl, rfl, hhandler, hnotign⟩
  rename_i hdfl
  have hdfl := not_not.mp hdfl
  split at h
  · cases h
  split at h
  · rename_i hstop
    cases h
    exact ⟨rfl, hdfl, hstop⟩
  split at h
  · rename_i hcont
    cases h
    exact ⟨rfl, hdfl, hcont⟩
  · cases h

/-- The thread is not asked for an action that is ignored. -/
theorem SignalAction.call_of_ignores (h : action.ignores signum = true) :
    action.call pid signum = none := by
  unfold SignalAction.call
  split
  · rfl
  rename_i hnotign
  have hdfl : action.handler = SIG_DFL_HANDLER ∧ defaultIgnoredSignal signum = true := by
    simpa [SignalAction.ignores, hnotign] using h
  rw [if_neg (not_not.mpr hdfl.1), if_pos hdfl.2]

/-- An action that the thread is asked for does not end the process. -/
theorem SignalAction.effect_of_call {e : Event} (h : action.call pid signum = some e) (code : Nat) :
    action.effect signum ≠ .terminate code := by
  unfold SignalAction.call at h
  unfold SignalAction.effect
  split
  · simp
  split
  · simp
  split
  · simp
  split
  · simp
  split
  · simp
  · rename_i hnotign hdfl hdefault hstop hcont
    rw [if_neg hnotign, if_neg hdfl, if_neg hdefault, if_neg hstop, if_neg hcont] at h
    cases h

/-- An action that is not ignored, and for which the thread is not asked, ends the process. -/
theorem SignalAction.effect_of_call_none (hign : action.ignores signum = false)
    (h : action.call pid signum = none) :
    action.effect signum = .terminate (getExitCodeForSignal signum) ∧
      action.handler = SIG_DFL_HANDLER := by
  unfold SignalAction.call at h
  unfold SignalAction.effect
  split at h
  · rename_i heq
    simp [SignalAction.ignores, heq] at hign
  rename_i hnotign
  split at h
  · cases h
  rename_i hdfl
  have hdfl := not_not.mp hdfl
  split at h
  -- a default that ignores would make the action one that ignores
  · rename_i hdefault
    simp [SignalAction.ignores, hdfl, hdefault] at hign
  rename_i hdefault
  split at h
  · cases h
  rename_i hstop
  split at h
  · cases h
  rename_i hcont
  rw [if_neg hnotign, if_neg (not_not.mpr hdfl), if_neg hdefault, if_neg hstop, if_neg hcont]
  exact ⟨rfl, hdfl⟩

end Calls

/-! ### The trace of a delivery -/

/-- A call to the thread is in the trace when it is not refused. -/
theorem trace_callThread (e : Event) (w : World) :
    ((do let _ ← ext; emit e : M Unit).run w).2.trace
      = w.trace ++ if (w.env w.tick).err = none then [e] else [] := by
  cases herr : (w.env w.tick).err with
  | none =>
    rw [run_bind_ok (run_ext_ok herr)]
    rfl
  | some err =>
    rw [run_bind_error (run_ext_error herr)]
    exact (List.append_nil _).symm

/-- What follows a call to the thread adds nothing to the trace. -/
theorem trace_attempt_bind {α : Type} {c : M Unit} {k : Except Err Unit → M α}
    (hk : ∀ r, Frames World.trace (k r)) (w : World) :
    ((attempt c >>= k).run w).2.trace = (c.run w).2.trace := by
  rw [run_bind_ok (run_attempt c w)]
  exact hk _ _

section Delivered

variable {w : World} {pid : Nat} {t : TaskStruct}

/-- What is left to do after the thread was stopped or resumed adds nothing to the trace. -/
theorem trace_afterStop (stop : Bool) (ret : PendingSignalAction) (p : Prop) [Decidable p]
    {report : M Unit} (hreport : Frames World.trace report) (r : Except Err Unit) :
    Frames World.trace (do
      when (¬ r.isOk) markSignalDropped
      when r.isOk (setStopped pid stop)
      when p do
        when (¬ r.isOk) markStopSkewed
        report
      pure ret : M PendingSignalAction) := by
  refine Frames.of_keeps fun v => ?_
  refine Keeps.bind (Keeps.when fun w h => h) fun _ => Keeps.bind (by simp) fun _ => ?_
  refine Keeps.bind (Keeps.when (Keeps.bind (by simp) fun _ => ?_)) fun _ => Keeps.pure _
  exact hreport.keeps (· = v)

/-- A delivery adds the call to the thread to the trace, when it makes one that is not refused. -/
theorem deliverSignal_trace (h : w.task? pid = some t) (signum : Nat) (action : SignalAction) :
    ((deliverSignal pid signum action).run w).2.trace
      = w.trace ++ if (w.env w.tick).err = none then (action.call pid signum).toList else [] := by
  unfold deliverSignal SignalAction.call
  split
  · simp
  split
  · rw [run_bind_ok (run_getProcess h)]
    refine (trace_attempt_bind (fun r => ?_) w).trans (trace_callThread _ w)
    exact Frames.of_keeps fun v => Keeps.bind (Keeps.when fun w h => h) fun _ => Keeps.pure _
  split
  · simp
  split
  · rw [deliverStop, run_bind_ok (run_getProcess h)]
    refine (trace_attempt_bind (fun r => ?_) w).trans (trace_callThread _ w)
    exact trace_afterStop true _ _ (Frames.of_keeps fun v => by simp) r
  split
  · rw [deliverCont, run_bind_ok (run_getProcess h)]
    refine (trace_attempt_bind (fun r => ?_) w).trans (trace_callThread _ w)
    exact trace_afterStop false _ _ (Frames.of_keeps fun v => by simp) r
  · simp

/-- The trace after a syscall return that takes the signal, up to the end of the process. -/
theorem consume_trace (h : w.task? pid = some t) {signum : Nat}
    (hnext : t.nextSignal = some signum) :
    ((consumeDeliverableSignalOnSyscallReturn pid).run w).2.trace
      = w.trace ++ .dequeued pid signum (t.signalAction signum) ::
        if (w.env w.tick).err = none then ((t.signalAction signum).call pid
          signum).toList else [] := by
  rw [run_consume h, hnext]
  refine (deliverSignal_trace (World.task?_taken h signum _) signum _).trans ?_
  show w.trace ++ [_] ++ _ = _
  rw [List.append_assoc]
  rfl

/-- The end of a process is in the trace. -/
theorem terminateProcess_extends (h : w.task? pid = some t) (code : Nat) :
    ((terminateProcess pid code).run w).2.Extends w.trace [.terminated pid code] := by
  -- the descriptors that the release closes are all those that are open
  have hopen : w.OpenIn pid t.files.fds.keys := by
    intro fs hfs fd _ hget
    rw [World.filesOf, h] at hfs
    cases hfs
    exact OrdMap.mem_keys.mpr (Option.isSome_iff_ne_none.mpr hget)
  have hstart : w.Extends w.trace [] := ⟨[], (List.append_nil _).symm, List.nil_subset _⟩
  unfold terminateProcess
  rw [run_bind_ok (run_getProcess h)]
  refine Triple.ends (P := fun w' => w'.Extends w.trace [] ∧ w'.OpenIn pid t.files.fds.keys) ?_
    ⟨hstart, hopen⟩
  have hrelease := (releaseProcess_total pid t).triple
    (F := fun _ => World.Extends w.trace [.terminated pid code])
    (releaseProcess_keeps_blind (I := World.Extends w.trace []) pid t)
  refine Triple.bind hrelease fun _ => ?_
  refine Triple.bind (R := fun _ => World.Extends w.trace [])
    (Triple.modify fun _ h => h) fun _ => ?_
  refine Triple.bind (R := fun _ => World.Extends w.trace [.terminated pid code])
    (Triple.modify ?_) fun _ => ?_
  · rintro w' ⟨post, htrace, _⟩
    -- the event of the end is logged behind what the release logged
    refine ⟨post ++ [.terminated pid code], ?_, List.subset_append_right _ _⟩
    show w'.trace ++ [_] = w.trace ++ (post ++ [_])
    rw [htrace, List.append_assoc]
  -- the parent is told after that, and no call takes an event out of the trace
  refine Keeps.triple (Keeps.bind (by simp) fun _ => Keeps.ite ?_ ?_)
  · exact Keeps.bind (fun _ h => h) fun _ => Keeps.throw _
  · exact Keeps.bind (Keeps.gets _) fun caller => Keeps.when (Keeps.throw _)

/-- After the delivery, a syscall return does no more than end the process if the action says so. -/
theorem run_finishSyscall (h : w.task? pid = some t) (sys : Syscall) (ret : Int) :
    ((finishSyscall pid sys ret).run w).2 =
      match t.returnEffect with
      | .terminate code => ((terminateProcess pid code).run
          ((consumeDeliverableSignalOnSyscallReturn pid).run w).2).2
      | _ => ((consumeDeliverableSignalOnSyscallReturn pid).run w).2 := by
  rw [finishSyscall, run_bind_ok (run_attempt _ w), consume_result h]
  cases t.returnEffect with
  | none => rfl
  | interrupt restart =>
    dsimp only
    split <;> rfl
  | terminate code =>
    dsimp only
    rw [run_bind]
    split <;> rename_i heq <;> rw [heq]
    rfl

/-- The delivery of a signal that ends its process does nothing before that. -/
theorem deliverSignal_of_terminate {signum code : Nat} {action : SignalAction}
    (heffect : action.effect signum = .terminate code) :
    deliverSignal pid signum action = pure (.terminate code) := by
  unfold SignalAction.effect at heffect
  unfold deliverSignal
  split at heffect
  · cases heffect
  split at heffect
  · cases heffect
  split at heffect
  · cases heffect
  split at heffect
  · cases heffect
  split at heffect
  · cases heffect
  · rename_i hnotign hdfl hdefault hstop hcont
    rw [if_neg hnotign, if_neg hdfl, if_neg hdefault, if_neg hstop, if_neg hcont]
    cases heffect
    rfl

/-! ### The signal that a syscall return carries out -/

/-- A syscall return takes the lowest deliverable signal, and no other. -/
theorem consume_takes (h : w.task? pid = some t) (signum : Nat) :
    ((consumeDeliverableSignalOnSyscallReturn pid).run w).2.eventCount (Event.takes pid signum)
      = w.eventCount (Event.takes pid signum) + if t.nextSignal = some signum then 1 else 0 := by
  rw [run_consume h]
  cases t.nextSignal with
  | none => rfl
  | some next =>
    -- what is left does not take a signal
    refine deliverSignal_keeps pid next _ (I := fun w' => w'.eventCount (Event.takes pid signum)
      = w.eventCount (Event.takes pid signum) + if some next = some signum then 1 else 0) _ ?_
    show (w.trace ++ [_]).countP (Event.takes pid signum) = w.trace.countP
      (Event.takes pid signum) + _
    rw [List.countP_append, List.countP_singleton]
    simp [Event.takes]

/-- The rest of a call takes no signal. -/
theorem finishSyscall_takes (h : w.task? pid = some t) (signum : Nat) (sys : Syscall) (ret : Int) :
    ((finishSyscall pid sys ret).run w).2.eventCount (Event.takes pid signum)
      = w.eventCount (Event.takes pid signum) + if t.nextSignal = some signum then 1 else 0 := by
  let I (w' : World) : Prop := w'.eventCount (Event.takes pid signum)
    = w.eventCount (Event.takes pid signum) + if t.nextSignal = some signum then 1 else 0
  refine Triple.ends (P := fun w' => w' = w) (R := I) ?_ rfl
  refine Triple.bind (R := fun _ => I) ?_ fun action => Keeps.triple ?_
  · intro w' hw
    subst hw
    exact ⟨fun _ _ => consume_takes h signum, fun _ _ => consume_takes h signum⟩
  · have hterm : ∀ code, Keeps I (terminateProcess pid code) := fun code =>
      terminateProcess_keeps_blind pid code
    split
    · exact Keeps.pure _
    · exact Keeps.ite (by simp) (by simp)
    · exact Keeps.bind (hterm _) fun _ => Keeps.pure _
    · exact Keeps.pure _

/-- A signal that is carried out was taken. -/
theorem World.CarriesOut.takes {w w' : World} {pid signum : Nat} {action : SignalAction}
    (h : w.CarriesOut pid signum action w') :
    w.eventCount (Event.takes pid signum) < w'.eventCount (Event.takes pid signum) := by
  obtain ⟨pre, post, htrace, _⟩ := h
  have htaken : Event.takes pid signum (.dequeued pid signum action) = true := by simp [Event.takes]
  unfold World.eventCount
  rw [htrace, List.countP_append, List.countP_append, List.countP_cons_of_pos htaken]
  omega

/-- A syscall return carries out the lowest deliverable signal, with the action that the process
has set for it, unless what is asked of the thread is refused. -/
theorem finishSyscall_carriesOut (h : w.task? pid = some t) (signum : Nat) (sys : Syscall)
    (ret : Int) :
    w.CarriesOut pid signum (t.signalAction signum) ((finishSyscall pid sys ret).run w).2 ↔
      t.nextSignal = some signum ∧ w.Allows pid signum (t.signalAction signum) := by
  let action := t.signalAction signum
  have hrun := run_finishSyscall h sys ret
  -- what a return does that takes the signal and asks the thread
  have hasked : ∀ e, t.nextSignal = some signum → action.call pid signum = some e →
      ((finishSyscall pid sys ret).run w).2.trace = w.trace ++
        .dequeued pid signum action :: if (w.env w.tick).err = none then [e] else [] := by
    intro e hnext hcall
    have heffect : ∀ code, t.returnEffect ≠ .terminate code := by
      intro code
      rw [TaskStruct.returnEffect_of_next hnext]
      exact action.effect_of_call hcall code
    rw [hrun]
    split
    · exact absurd ‹_› (heffect _)
    · rw [consume_trace h hnext, hcall]
      rfl
  constructor
  · intro hcarried
    have hnext : t.nextSignal = some signum := by
      by_contra hne
      have hcount := hcarried.takes
      rw [finishSyscall_takes h signum sys ret, if_neg hne] at hcount
      exact lt_irrefl _ hcount
    refine ⟨hnext, ?_⟩
    intro hsome
    obtain ⟨e, hcall⟩ := Option.isSome_iff_exists.mp hsome
    by_contra herr
    obtain ⟨pre, post, htrace, hanswered⟩ := hcarried
    rw [hasked e hnext hcall, if_neg herr, List.append_cancel_left_eq] at htrace
    have hign : action.ignores signum = false := Bool.eq_false_iff.mpr fun hign => by
      rw [action.call_of_ignores hign] at hcall
      cases hcall
    -- nothing follows the event that takes the signal
    have hlength := congrArg List.length htrace
    simp only [List.length_append, List.length_cons, List.length_nil] at hlength
    have hpost : post = [] := List.length_eq_zero_iff.mp (by omega)
    obtain ⟨a, ha, _⟩ := hanswered hign
    rw [hpost] at ha
    cases ha
  · rintro ⟨hnext, hallows⟩
    have heffect := TaskStruct.returnEffect_of_next hnext
    cases hcall : action.call pid signum with
    | some e =>
      have hagreed : (w.env w.tick).err = none := hallows (by rw [hcall]; rfl)
      refine ⟨[], [e], ?_, fun _ => ⟨e, List.mem_singleton_self e, action.call_carriesOut hcall⟩⟩
      rw [hasked e hnext hcall, if_pos hagreed]
      rfl
    | none =>
      have hconsume := consume_trace h hnext
      rw [hcall] at hconsume
      cases hign : action.ignores signum with
      | true =>
        rw [SignalAction.effect_of_ignores hign] at heffect
        rw [hrun, heffect]
        refine ⟨[], [], ?_, fun hno => absurd hign (by rw [hno]; simp)⟩
        simpa using hconsume
      | false =>
        obtain ⟨hterm, hdfl⟩ := action.effect_of_call_none hign hcall
        have hstate : ((consumeDeliverableSignalOnSyscallReturn pid).run w).2
            = w.taken pid signum action := by
          rw [run_consume h, hnext]
          exact congrArg (fun c : M PendingSignalAction => (c.run _).2)
            (deliverSignal_of_terminate hterm)
        rw [hrun, heffect, hterm]
        dsimp only
        rw [hstate]
        obtain ⟨post, htrace, hended⟩ :=
          terminateProcess_extends (World.task?_taken h signum action) (getExitCodeForSignal signum)
        refine ⟨[], post, ?_, fun _ => ⟨_, hended (List.mem_singleton_self _), rfl, hdfl, rfl⟩⟩
        rw [htrace]
        show w.trace ++ [_] ++ post = w.trace ++ ([] ++ _ :: post)
        rw [List.append_assoc]
        rfl

end Delivered

end Ape
