import Ape.Proofs.Delivery
import Ape.Proofs.Reaps
import Ape.Proofs.StoredBytes
import Mathlib.Data.Multiset.Basic

/-!
# `Ape.Proofs.WaitStatus`: what a parent reads from a wait status

A process ends, stops or continues on one of several ways, and each way has a status for the
parent: `encode_wait_status` of an exit code, `encode_wait_stopped_status` of a stop signal, or the
constant of a continuation. A death by a signal has no encoder of its own. It goes through the
exit code `128 + signum`, so the parent reads an exit.

`Change` names the ways, with the command of the server for each, and `WaitReason` is what the
macros of `wait(2)` read. The events that a parent was told of or will be told of are one multiset,
`World.told`. A change puts one event into it (`Change.records`), no request changes an event that
is in it (`dispatch_told`), and `wait4` stores the status of an event of it: after the call the four
bytes of the status are in the memory of the caller (`World.StatusStored`).
-/

set_option autoImplicit false

namespace Ape

open Ape.Lib Cmd

/-! ### The macros -/

/-- What a parent reads from a status. -/
inductive WaitReason where
  | exited (code : Nat)
  | signalled (signum : Nat)
  | stopped (signum : Nat)
  | continued
  deriving DecidableEq

/-- `WTERMSIG`. -/
def wTermSig (status : Nat) : Nat := status &&& 0x7f

/-- `WEXITSTATUS` and `WSTOPSIG`. -/
def wExitStatus (status : Nat) : Nat := (status >>> 8) &&& 0xff

/-- `WIFEXITED`, `WIFSIGNALED`, `WIFSTOPPED` and `WIFCONTINUED`, and the value that goes with the
one that holds. -/
def decodeWaitStatus (status : Nat) : Option WaitReason :=
  if wTermSig status = 0 then some (.exited (wExitStatus status))
  else if wTermSig status ≠ 0x7f then some (.signalled (wTermSig status))
  else if status &&& 0xff = 0x7f then some (.stopped (wExitStatus status))
  else if status = 0xffff then some .continued
  else none

/-- The status of an exit is read as an exit, whatever the code. -/
theorem decode_encodeWaitStatus (code : Nat) :
    decodeWaitStatus (encodeWaitStatus code) = some (.exited (code % 256)) := by
  have hterm : wTermSig (encodeWaitStatus code) = 0 := by
    rw [wTermSig, show (0x7f : Nat) = 2 ^ 7 - 1 from rfl, Nat.and_two_pow_sub_one_eq_mod,
      encodeWaitStatus]
    omega
  have hexit : wExitStatus (encodeWaitStatus code) = code % 256 := by
    rw [wExitStatus, show (0xff : Nat) = 2 ^ 8 - 1 from rfl, Nat.and_two_pow_sub_one_eq_mod,
      Nat.shiftRight_eq_div_pow, encodeWaitStatus]
    omega
  rw [decodeWaitStatus, if_pos hterm, hexit]

/-- The status of a stop is read as that stop. -/
theorem decode_encodeWaitStoppedStatus {signum : Nat} (h : defaultStopSignal signum = true) :
    decodeWaitStatus (encodeWaitStoppedStatus signum) = some (.stopped signum) := by
  simp only [defaultStopSignal, Bool.or_eq_true, beq_iff_eq] at h
  rcases h with ((rfl | rfl) | rfl) | rfl <;> rfl

/-! ### The ways -/

/-- What the default action of a signal makes of a process. -/
def signalReason (signum : Nat) : WaitReason :=
  if defaultStopSignal signum then .stopped signum
  else if signum = SIGCONT then .continued
  else .signalled signum

/-- The signal of a fault. The other faults end a process with the code `usize::MAX`. -/
def FaultKind.signal? : FaultKind → Option Nat
  | .illegalInstruction => some SIGILL
  | .breakpoint => some SIGTRAP
  | .accessFault | .accessMisaligned => some SIGSEGV
  | .unknownFault | .virtExit => none

/-- What a fault makes of a process. -/
def FaultKind.reason (kind : FaultKind) : WaitReason :=
  (kind.signal?.map WaitReason.signalled).getD (.exited (usizeMax % 256))

/-- The ways in which a process changes state. -/
inductive Change where
  /-- `exit` and `exit_group`. -/
  | exit (code : Nat)
  /-- A fault other than a page fault. -/
  | fault (kind : FaultKind)
  /-- A page fault that ends its process. -/
  | pageFault (signum : Nat)
  /-- A signal that `do_kill` does not only queue. -/
  | kill (caller signum : Nat)
  /-- The default action of a signal that a syscall return takes. -/
  | deliver (signum : Nat) (action : SignalAction)
  deriving DecidableEq

namespace Change

/-- The end of a process by a default action, as in `handle_syscall`. -/
def finish (pid : Nat) : PendingSignalAction → M Unit
  | .terminate exitCode => terminateProcess pid exitCode
  | _ => pure ()

/-- What the server does with `pid`. -/
def run (pid : Nat) : Change → M Unit
  | .exit code => do let _ ← routeSyscall pid (.exit code)
  | .fault kind => do let _ ← handle (.fault pid kind)
  | .pageFault signum => terminateBySignal pid signum
  | .kill caller signum => sendSignal caller [pid] signum
  | .deliver signum action => do finish pid (← deliverSignal pid signum action)

/-- Why the process changes state. -/
def reason : Change → WaitReason
  | .exit code => .exited (code % 256)
  | .fault kind => kind.reason
  | .pageFault signum => .signalled signum
  | .kill _ signum | .deliver signum _ => signalReason signum

/-- The process dies by a signal. -/
def IsSignalDeath (c : Change) : Prop := ∃ signum, c.reason = .signalled signum

/-- A process that is stopped does not stop, and only a stopped process continues. -/
def Turns (signum : Nat) (t : TaskStruct) : Prop :=
  (defaultStopSignal signum = true → t.stopped = false) ∧ (signum = SIGCONT → t.stopped = true)

/-- The process with the record `t` changes state on this way. -/
def Applies (t : TaskStruct) : Change → Prop
  | .exit _ | .fault _ | .pageFault _ => True
  | .kill _ signum =>
    (signum = SIGKILL ∨ signum = SIGCONT ∨ defaultStopSignal signum = true) ∧ Turns signum t
  | .deliver signum action =>
    action.handler = SIG_DFL_HANDLER ∧ defaultIgnoredSignal signum = false ∧ Turns signum t

/-- The exit code, for a process that ends. -/
def exitCode : Change → Nat
  | .exit code => code
  | .fault kind => kind.exitCode
  | .pageFault signum | .kill _ signum | .deliver signum _ => getExitCodeForSignal signum

/-- The event that the server records for the parent. -/
def event (pid : Nat) (t : TaskStruct) (c : Change) : ChildStateEvent :=
  match c.reason with
  | .exited _ | .signalled _ => ⟨pid, encodeWaitStatus c.exitCode, t.processGroupId, .exited⟩
  | .stopped signum => ⟨pid, encodeWaitStoppedStatus signum, t.processGroupId, .stopped⟩
  | .continued => ⟨pid, 0xffff, t.processGroupId, .continued⟩

end Change

/-! ### The events that a parent is told of -/

/-- The events that were taken by anyone, and those that wait for `p`. -/
def ReapView.told (v : ReapView) (p : Nat) : Multiset ChildStateEvent := ↑(v.waited ++ v.events p)

/-- The events that were taken by anyone, and those that wait for `p`. -/
def World.told (w : World) (p : Nat) : Multiset ChildStateEvent := w.reapView.told p

/-- The events of `p` are `m`. -/
abbrev World.Told (p : Nat) (m : Multiset ChildStateEvent) : World → Prop :=
  World.Reaps fun v => v.told p = m

namespace ReapView

variable {v : ReapView} {p q : Nat} {e : ChildStateEvent} {rest : List ChildStateEvent}

/-- What a parent was told, with one more event. -/
theorem told_record (v : ReapView) (p : Nat) (e : ChildStateEvent) :
    (v.record p e).told p = e ::ₘ v.told p := by
  have hqueue : (v.record p e).events p = v.events p ++ [e] := if_pos rfl
  rw [told, told, hqueue, ← List.append_assoc]
  exact Multiset.coe_eq_coe.mpr (List.perm_append_singleton e (v.waited ++ v.events p))

/-- An event for another parent. -/
theorem told_record_ne (hpq : p ≠ q) (e : ChildStateEvent) :
    (v.record q e).told p = v.told p := by
  have hqueue : (v.record q e).events p = v.events p := if_neg hpq
  rw [told, told, hqueue]
  rfl

/-- An event that its parent takes is still one that the parent was told of. -/
theorem told_take (h : (v.events p).Perm (e :: rest)) : (v.take p e rest).told p = v.told p := by
  have hqueue : (v.take p e rest).events p = rest := if_pos rfl
  rw [told, told, hqueue]
  exact Multiset.coe_eq_coe.mpr (List.perm_middle.symm.trans (h.symm.append_left v.waited))

/-- An event that another parent takes is told no more and no less. -/
theorem told_take_ne (hpq : p ≠ q) (e : ChildStateEvent) (rest : List ChildStateEvent) :
    (v.take q e rest).told p = e ::ₘ v.told p := by
  have hqueue : (v.take q e rest).events p = v.events p := if_neg hpq
  rw [told, told, hqueue]
  rfl

end ReapView

/-! ### A change puts one event in -/

section Records

variable {p pid : Nat} {m : Multiset ChildStateEvent} {t : TaskStruct}

instance : EraseKeeps (World.Told p m) where
  erase w q h _ := by
    show ReapView.told (World.reapView _) p = m
    rw [World.reapView_erase]
    exact h
  panicked _ _ h := h

/-- An event is told to its parent. -/
theorem recordChildEvent_told (e : ChildStateEvent) {E : Err → World → Prop} :
    Triple (World.Told p m) (recordChildEvent p e) (fun _ => World.Told p (e ::ₘ m)) E := by
  intro w hw
  refine ⟨fun _ _ => ?_, fun _ h => by cases h⟩
  show ReapView.told (World.reapView _) p = e ::ₘ m
  rw [World.reapView_record, ReapView.told_record]
  exact congrArg _ hw

/-- A stop or continuation is told to its parent. -/
theorem recordChildChange_told (e : ChildStateEvent) {E : Err → World → Prop} :
    Triple (World.Told p m) (recordChildChange p e) (fun _ => World.Told p (e ::ₘ m)) E :=
  Triple.bind (R := fun _ => World.Told p m) (Triple.modify fun _ h => h) fun _ =>
    Triple.bind (R := fun _ => World.Told p m) (Triple.modify fun _ h => h) fun _ =>
      recordChildEvent_told e

/-- A parent takes events from its own queue only. -/
theorem popChildEventMatching_told (target : Int) (options callerPgid : Nat) :
    Keeps (World.Told p m) (popChildEventMatching p target options callerPgid) := by
  intro w hw
  rcases popChildEventMatching_cases p target options callerPgid w with ⟨_, hrun⟩ | ⟨e, hfind, hrun⟩
  · rw [hrun]
    exact hw
  · rw [hrun]
    show ReapView.told (World.reapView _) p = m
    rw [World.reapView_popped]
    exact (ReapView.told_take (v := w.reapView) (perm_eraseP_of_find? hfind)).trans hw

/-- The end of a child is told to its parent with the encoded code. -/
theorem notifyParent_told (hp : p ≠ 0) (pgid code : Nat) :
    Triple (World.Told p m) (notifyParent pid p pgid code)
      (fun _ => World.Told p (⟨pid, encodeWaitStatus code, pgid, .exited⟩ ::ₘ m))
      (fun _ => World.Told p (⟨pid, encodeWaitStatus code, pgid, .exited⟩ ::ₘ m)) := by
  unfold notifyParent
  rw [if_neg hp]
  refine Triple.bind (R := fun _ => World.Told p m) (Triple.modify fun _ h => h) fun _ =>
    Triple.bind (recordChildEvent_told _) fun _ => Keeps.triple ?_
  refine Keeps.bind (tryWakePendingWait4Reply_keeps_of
    (fun _ _ _ => popChildEventMatching_told _ _ _)
    fun _ h => h) fun _ => Keeps.when ?_
  exact Keeps.bind (resumeWait4Parent_keeps _ _ _) fun _ => by simp

/-- The end of a process puts its exit status in. -/
theorem terminateProcess_told (hparent : t.parentPid = p) (hp : p ≠ 0) (code : Nat) :
    Triple (fun w => w.Told p m ∧ w.task? pid = some t) (terminateProcess pid code)
      (fun _ => World.Told p (⟨pid, encodeWaitStatus code, t.processGroupId, .exited⟩ ::ₘ m))
      (fun _ => World.Told p (⟨pid, encodeWaitStatus code, t.processGroupId, .exited⟩ ::ₘ m)) := by
  subst hparent
  intro w hw
  have hget : (getProcess pid).run w = (.ok t, w) := run_getProcess hw.2
  unfold terminateProcess
  rw [run_bind_ok hget]
  refine (Triple.bind (R := fun _ => World.Told t.parentPid m) (P := fun w => w.Told t.parentPid m ∧
    w.OpenIn pid t.files.fds.keys) ?_ fun _ => ?_) w ⟨hw.1, ?_⟩
  · exact (releaseProcess_total pid t).triple (releaseProcess_keeps_blind pid t)
  · refine Triple.bind (R := fun _ => World.Told t.parentPid m)
      (Triple.modify fun _ h => h) fun _ =>
      Triple.bind (R := fun _ => World.Told t.parentPid m) (Triple.modify fun _ h => h) fun _ =>
        Triple.bind (notifyParent_told hp _ _) fun _ => Keeps.triple (Keeps.ite ?_ ?_)
    · exact Keeps.bind (fun _ h => h) fun _ => Keeps.throw _
    · exact Keeps.bind (Keeps.gets _) fun _ => Keeps.when (Keeps.throw _)
  · intro fs hfs fd _ hopen
    have hfiles : w.filesOf pid = some t.files := by rw [World.filesOf, hw.2]; rfl
    obtain rfl := Option.some.inj (hfiles.symm.trans hfs)
    exact OrdMap.mem_keys.mpr (Option.isSome_iff_ne_none.mpr hopen)

/-- A step that cannot fail and leaves the events of the parent alone. -/
theorem told_step {α : Type} {c : M α} {E : Err → World → Prop} (h : Keeps (World.Told p m) c)
    (ht : Total c) : Triple (World.Told p m) c (fun _ => World.Told p m) E :=
  ht.triple h.triple

/-- The record of a process that is there. -/
theorem getProcess_told {E : Err → World → Prop} :
    Triple (fun w => w.Told p m ∧ w.task? pid = some t) (getProcess pid)
      (fun t' w => t' = t ∧ w.Told p m) E := by
  intro w hw
  rw [run_getProcess hw.2]
  exact ⟨fun t' ht => by cases ht; exact ⟨rfl, hw.1⟩, fun e he => by cases he⟩

/-- The default action of a stop signal puts the stop in. -/
theorem deliverStop_told (hparent : t.parentPid = p) (hp : p ≠ 0) (hrun : t.stopped = false)
    (signum : Nat) {E : Err → World → Prop} :
    Triple (fun w => w.Told p m ∧ w.task? pid = some t) (deliverStop pid signum)
      (fun r w => r = .interrupt false ∧
        w.Told p (⟨pid, encodeWaitStoppedStatus signum, t.processGroupId, .stopped⟩ ::ₘ m)) E := by
  subst hparent
  refine Triple.bind getProcess_told fun t' => Triple.of_fact fun ht => ?_
  subst ht
  refine Triple.bind (told_step (by simp) (Total.attempt _)) fun r => ?_
  refine Triple.bind (told_step (by simp) (Total.when (Total.modify _))) fun _ => ?_
  refine Triple.bind (told_step (by simp) (Total.when (setStopped_total _ _))) fun _ => ?_
  rw [when_pos ⟨hp, hrun⟩]
  refine Triple.bind (Triple.bind (told_step (by simp) (Total.when (Total.modify _))) fun _ =>
    recordChildChange_told _) fun _ => Triple.pure fun w h => ⟨rfl, h⟩

/-- The default action of `SIGCONT` puts the continuation in. -/
theorem deliverCont_told (hparent : t.parentPid = p) (hp : p ≠ 0) (hstop : t.stopped = true)
    {E : Err → World → Prop} :
    Triple (fun w => w.Told p m ∧ w.task? pid = some t) (deliverCont pid)
      (fun r w => r = .none ∧ w.Told p (⟨pid, 0xffff, t.processGroupId, .continued⟩ ::ₘ m)) E := by
  subst hparent
  refine Triple.bind getProcess_told fun t' => Triple.of_fact fun ht => ?_
  subst ht
  refine Triple.bind (told_step (by simp) (Total.attempt _)) fun r => ?_
  refine Triple.bind (told_step (by simp) (Total.when (Total.modify _))) fun _ => ?_
  refine Triple.bind (told_step (by simp) (Total.when (setStopped_total _ _))) fun _ => ?_
  rw [when_pos ⟨hp, hstop⟩]
  refine Triple.bind (Triple.bind (told_step (by simp) (Total.when (Total.modify _))) fun _ =>
    recordChildChange_told _) fun _ => Triple.pure fun w h => ⟨rfl, h⟩

/-- A stop signal that arrives puts the stop in. -/
theorem killStop_told (hparent : t.parentPid = p) (hp : p ≠ 0) (hrun : t.stopped = false)
    (caller signum : Nat) {E : Err → World → Prop} :
    Triple (fun w => w.Told p m ∧ w.task? pid = some t) (killStop caller pid signum)
      (fun _ w => w.Told p (⟨pid, encodeWaitStoppedStatus signum,
        t.processGroupId, .stopped⟩ ::ₘ m))
      E := by
  subst hparent
  unfold killStop
  refine Triple.bind (R := fun o w => o = some t ∧ w.Told t.parentPid m)
    (Triple.gets fun w h => ⟨h.2, h.1⟩) fun o =>
      Triple.of_fact (P := World.Told t.parentPid m) fun ho => ?_
  subst ho
  refine Triple.bind (told_step (queueProcessSignal_keeps pid signum)
    (queueProcessSignal_total pid signum)) fun _ => ?_
  refine Triple.bind (told_step (Keeps.gets _) (Total.gets _)) fun now => ?_
  refine Triple.bind (told_step
    (Keeps.whenSome fun _ => Keeps.when (Keeps.bind (by simp) fun _ => by simp))
    (Total.whenSome fun _ => Total.when (Total.bind (Total.ignore _) fun _ =>
      setStopped_total _ _)))
    fun _ => ?_
  show Triple _ (when (t.parentPid ≠ 0 ∧ t.stopped = false) _) _ _
  rw [when_pos ⟨hp, hrun⟩]
  exact Triple.bind (told_step (by simp) (Total.when (Total.modify _))) fun _ =>
    recordChildChange_told _

/-- To discard a stop signal cannot fail. -/
theorem discardStop_total (pid signum : Nat) : Total (discardStop pid signum) :=
  Total.bind (Total.gets _) fun _ => Total.whenSome fun _ =>
    Total.bind (Total.modify _) fun _ => Total.when (Total.modify _)

/-- A `SIGCONT` that arrives puts the continuation in. -/
theorem killCont_told (hparent : t.parentPid = p) (hp : p ≠ 0) (hstop : t.stopped = true)
    {E : Err → World → Prop} :
    Triple (fun w => w.Told p m ∧ w.task? pid = some t) (killCont pid)
      (fun _ w => w.Told p (⟨pid, 0xffff, t.processGroupId, .continued⟩ ::ₘ m)) E := by
  subst hparent
  -- the stop signals that are discarded are not reported
  have hdiscard : ∀ signum, Keeps (World.Told t.parentPid m) (discardStop pid signum) :=
    fun signum => Keeps.bind (Keeps.gets _) fun _ => Keeps.whenSome fun _ =>
      Keeps.bind (modifySignal_frames pid _).keepsProp fun _ => Keeps.when (emit_frames _).keepsProp
  unfold killCont
  refine Triple.bind (R := fun o w => o = some t ∧ w.Told t.parentPid m)
    (Triple.gets fun w h => ⟨h.2, h.1⟩) fun o =>
      Triple.of_fact (P := World.Told t.parentPid m) fun ho => ?_
  subst ho
  refine Triple.bind (told_step (Keeps.whenSome fun _ =>
    Keeps.bind (Keeps.forEach fun signum => hdiscard signum) fun _ => by simp)
    (Total.whenSome fun _ => Total.bind (Total.forEach fun signum => discardStop_total pid signum)
      fun _ => setStopped_total _ _)) fun _ => ?_
  refine Triple.bind (R := fun _ => World.Told t.parentPid
    (⟨pid, 0xffff, t.processGroupId, .continued⟩ ::ₘ m)) ?_ fun _ => ?_
  -- the report, as the process was stopped
  · show Triple _ (when (t.parentPid ≠ 0 ∧ t.stopped = true) _) _ _
    rw [when_pos ⟨hp, hstop⟩]
    exact recordChildChange_told _
  · refine Triple.bind (told_step (queueProcessSignal_keeps pid SIGCONT)
      (queueProcessSignal_total pid SIGCONT)) fun _ => ?_
    refine Triple.bind (told_step (Keeps.gets _) (Total.gets _)) fun _ => ?_
    exact told_step (Keeps.whenSome fun _ => by simp) (Total.whenSome fun _ => Total.ignore _)

/-- `SIGKILL` to one process puts its exit status in. -/
theorem killImmediate_told (hparent : t.parentPid = p) (hp : p ≠ 0) (caller : Nat) :
    Triple (fun w => w.Told p m ∧ w.task? pid = some t) (killImmediate caller [pid])
      (fun _ => World.Told p (⟨pid, encodeWaitStatus (getExitCodeForSignal SIGKILL),
        t.processGroupId, .exited⟩ ::ₘ m))
      (fun _ => World.Told p (⟨pid, encodeWaitStatus (getExitCodeForSignal SIGKILL),
        t.processGroupId, .exited⟩ ::ₘ m)) := by
  have hend := @terminateProcess_told _ pid m _ hparent hp (getExitCodeForSignal SIGKILL)
  unfold killImmediate
  by_cases hself : caller = pid
  · rw [show [pid].filter (· ≠ caller) = [] by simp [hself], when_pos (by simp [hself])]
    refine Triple.bind (R := fun _ w => w.Told p m ∧ w.task? pid = some t)
      (Triple.pure fun _ h => h) fun _ => ?_
    rw [hself]
    exact hend
  · rw [show [pid].filter (· ≠ caller) = [pid] by simp [Ne.symm hself],
      when_neg (by simpa using hself)]
    refine Triple.bind ?_ fun _ => Triple.pure fun _ h => h
    exact Triple.bind hend fun _ => Triple.pure fun _ h => h

/-- On each way the parent of the process is told of one event. -/
theorem Change.records {c : Change} (hparent : t.parentPid = p) (hp : p ≠ 0) (h : c.Applies t) :
    Triple (fun w => w.Told p m ∧ w.task? pid = some t) (c.run pid)
      (fun _ => World.Told p (c.event pid t ::ₘ m))
      (fun _ => World.Told p (c.event pid t ::ₘ m)) := by
  have hend := fun code => @terminateProcess_told _ pid m _ hparent hp code
  -- each way to change against the event it leaves
  cases c with
  | exit code =>
    refine Triple.bind (R := fun _ => World.Told p ((Change.exit code).event pid t ::ₘ m)) ?_
      fun _ => Triple.pure fun _ h => h
    exact Triple.bind (hend code) fun _ => Triple.pure fun _ h => h
  | fault kind =>
    have hevent : (Change.fault kind).event pid t =
        ⟨pid, encodeWaitStatus kind.exitCode, t.processGroupId, .exited⟩ := by cases kind <;> rfl
    rw [hevent]
    refine Triple.bind (R := fun _ => World.Told p _) ?_ fun _ => Triple.pure fun _ h => h
    exact Triple.bind (hend _) fun _ => Triple.pure fun _ h => h
  | pageFault signum => exact hend _
  | kill caller signum =>
    obtain ⟨hsig, hturns⟩ := h
    simp only [run, sendSignal]
    -- kill, continue and stop, which the source tells apart
    rcases hsig with rfl | rfl | hstop
    · exact killImmediate_told hparent hp caller
    · exact Triple.bind (killCont_told hparent hp (hturns.2 rfl)) fun _ => Triple.pure fun _ h => h
    · have hne : signum ≠ SIGKILL ∧ signum ≠ SIGCONT := by
        constructor <;> rintro rfl <;> exact absurd hstop (by decide)
      rw [if_neg hne.1, if_neg hne.2, if_pos hstop]
      have hevent : (Change.kill caller signum).event pid t =
          ⟨pid, encodeWaitStoppedStatus signum, t.processGroupId, .stopped⟩ := by
        simp only [event, reason, signalReason, if_pos hstop]
      rw [hevent]
      exact Triple.bind (killStop_told hparent hp (hturns.1 hstop) caller signum) fun _ =>
        Triple.pure fun _ h => h
  | deliver signum action =>
    obtain ⟨hdfl, hignored, hturns⟩ := h
    simp only [run, deliverSignal]
    rw [if_neg (by rw [hdfl]; decide), if_neg (by simp [hdfl]), if_neg (by simp [hignored])]
    -- the default action stops, continues or ends the process
    by_cases hstop : defaultStopSignal signum = true
    · have hevent : (Change.deliver signum action).event pid t =
          ⟨pid, encodeWaitStoppedStatus signum, t.processGroupId, .stopped⟩ := by
        simp only [event, reason, signalReason, if_pos hstop]
      rw [if_pos hstop, hevent]
      refine Triple.bind (deliverStop_told hparent hp (hturns.1 hstop) signum) fun r =>
        Triple.of_fact fun hr => ?_
      subst hr
      exact Triple.pure fun _ h => h
    rw [if_neg hstop]
    by_cases hcont : signum = SIGCONT
    · subst hcont
      rw [if_pos rfl]
      refine Triple.bind (deliverCont_told hparent hp (hturns.2 rfl)) fun r =>
        Triple.of_fact fun hr => ?_
      subst hr
      exact Triple.pure fun _ h => h
    · have hevent : (Change.deliver signum action).event pid t =
          ⟨pid, encodeWaitStatus (getExitCodeForSignal signum), t.processGroupId, .exited⟩ := by
        simp only [event, reason, signalReason, if_neg hstop, if_neg hcont, exitCode]
      rw [if_neg hcont, hevent]
      exact hend _

end Records

/-- What the parent reads is the reason, unless the process died by a signal. -/
theorem Change.decode_event_iff (c : Change) (pid : Nat) (t : TaskStruct) :
    decodeWaitStatus (c.event pid t).waitStatus = some c.reason ↔ ¬ c.IsSignalDeath := by
  -- the code of an exit fits its byte
  have hcode : ∀ code, c.reason = .exited code → c.exitCode % 256 = code := by
    intro code h
    cases c with
    | exit n => exact WaitReason.exited.inj h
    | fault kind => cases kind <;> cases h <;> rfl
    | pageFault n => cases h
    | kill caller n | deliver n action =>
      simp only [reason, signalReason] at h
      split at h
      · cases h
      · split at h <;> cases h
  have hstop : ∀ signum, c.reason = .stopped signum → defaultStopSignal signum = true := by
      intro signum h
      cases c with
      | exit n => cases h
      | fault kind => cases kind <;> cases h
      | pageFault n => cases h
      | kill caller n | deliver n action =>
        simp only [reason, signalReason] at h
        split at h
        · rename_i hdefault
          cases h
          exact hdefault
        · split at h <;> cases h
  unfold event IsSignalDeath
  -- the four reasons against the decoder
  rcases hreason : c.reason with code | signum | signum | _
  · simp only [decode_encodeWaitStatus, hcode code hreason, reduceCtorEq, exists_false,
      not_false_eq_true]
  · simp only [decode_encodeWaitStatus, Option.some.injEq, reduceCtorEq, WaitReason.signalled.injEq,
      exists_eq', not_true_eq_false]
  · simp only [decode_encodeWaitStoppedStatus (hstop signum hreason), reduceCtorEq, exists_false,
      not_false_eq_true]
  · simp only [reduceCtorEq, exists_false, not_false_eq_true, iff_true]
    rfl

/-! ### No request takes one out or changes one -/

/-- The events of `p` include `m`. -/
abbrev World.ToldAll (p : Nat) (m : Multiset ChildStateEvent) : World → Prop :=
  World.Reaps fun v => m ≤ v.told p

section Runs

variable {p : Nat} {m : Multiset ChildStateEvent}

instance : TakeKeeps fun v => m ≤ v.told p where
  take v q e rest h hperm := by
    by_cases hq : p = q
    · subst hq
      rwa [ReapView.told_take hperm]
    · rw [ReapView.told_take_ne hq]
      exact h.trans (Multiset.le_cons_self _ e)

/-- An event is told on top of what was told. -/
theorem recordChildEvent_toldAll (q : Nat) (e : ChildStateEvent) :
    Keeps (World.ToldAll p m) (recordChildEvent q e) := by
  intro w hw
  show m ≤ ReapView.told (World.reapView _) p
  rw [World.reapView_record]
  by_cases hq : p = q
  · subst hq
    rw [ReapView.told_record]
    exact le_trans hw (Multiset.le_cons_self _ e)
  · rw [ReapView.told_record_ne hq]
    exact hw

instance : ChangeKeeps (World.ToldAll p m) where
  change q e _ := Keeps.bind (fun _ h => h) fun _ => Keeps.bind (fun _ h => h) fun _ =>
    recordChildEvent_toldAll q e

instance : NotifyKeeps (World.ToldAll p m) where
  notify pid parent pgid code := by
    refine Keeps.ite (Keeps.pure _) (Keeps.bind (fun _ h => h) fun _ =>
      Keeps.bind (recordChildEvent_toldAll _ _) fun _ => ?_)
    refine Keeps.bind (tryWakePendingWait4Reply_reaps parent) fun _ => Keeps.when ?_
    exact Keeps.bind (resumeWait4Parent_keeps _ _ _) fun _ => by simp

instance : ProcessKeeps (World.ToldAll p m) where
  erase w q h _ := by
    show m ≤ ReapView.told (World.reapView _) p
    rw [World.reapView_erase]
    exact h
  panicked _ _ h := h
  register _ _ _ h := h
  inherit _ _ _ _ h _ := h

/-- No request takes an event out of what a parent was or will be told of. -/
theorem dispatch_told (r : Request) (w : World) (p : Nat) :
    w.told p ≤ ((dispatch r).run w).2.told p :=
  dispatch_keeps_of (I := World.ToldAll p (w.told p)) terminateProcess_keeps_blind
    (fun pid sys ret => finishSyscall_keeps (terminateProcess_keeps_blind pid) sys ret)
    doNanosleep_keeps r (le_refl _) fun pid _ _ hsys => jobCall_keeps pid hsys _ (le_refl _)

end Runs

/-! ### What `wait4` stores -/

/-- Between `w` and `w'` the four bytes of a status were stored for the caller of `wait4`, if it
gave a place. -/
def World.StatusStored (w : World) (pid ptr status : Nat) (w' : World) : Prop :=
  if ptr = 0 then w'.readView = w.readView else w.Copied pid ptr (leBytes 4 status) (.ok ()) w'

/-- The status could not be stored, and `value` is the error number. -/
def World.StatusRefused (w : World) (pid ptr status : Nat) (value : Int) (w' : World) : Prop :=
  ptr ≠ 0 ∧ ∃ e, w.Copied pid ptr (leBytes 4 status) (.error e) w' ∧ value = w'.mapErrorToErrno e

/-- What comes after the copy leaves the memory. -/
theorem World.StatusStored.congr {w v w' : World} {pid ptr status : Nat}
    (h : w.StatusStored pid ptr status v) (hv : w'.readView = v.readView) :
    w.StatusStored pid ptr status w' := by
  unfold World.StatusStored at h ⊢
  split at h
  · rename_i hzero
    rw [if_pos hzero]
    exact hv.trans h
  · rename_i hne
    rw [if_neg hne]
    exact h.congr hv

section Reports

variable {w₀ : World} {pid : Nat} {queue waited : List ChildStateEvent} {E : Err → World → Prop}

/-- The queue of the process, and the events that were taken. -/
abbrev World.Queued (pid : Nat) (queue waited : List ChildStateEvent) : World → Prop :=
  World.Reaps fun v => v.events pid = queue ∧ v.waited = waited

/-- The events that were taken. -/
abbrev World.Waited (waited : List ChildStateEvent) : World → Prop :=
  World.Reaps fun v => v.waited = waited

/-- The event that is taken was in the queue of the process. -/
theorem popChildEventMatching_takes (target : Int) (options callerPgid : Nat) :
    Triple (fun w => World.Queued pid queue waited w ∧ w₀.MemoryOf w)
      (popChildEventMatching pid target options callerPgid)
      (fun r w => w₀.MemoryOf w ∧ ∀ c status, r = some (c, status) → ∃ e ∈ queue, c = e.childPid ∧
        status = e.waitStatus ∧ w.Waited (e :: waited)) E := by
  rintro w ⟨hw, hmem⟩
  rcases popChildEventMatching_cases pid target options callerPgid w with ⟨_,
    hrun⟩ | ⟨e, hfind, hrun⟩
  · rw [hrun]
    refine ⟨fun r hr => ⟨hmem, fun c status h => ?_⟩, fun _ h => by cases h⟩
    cases hr
    cases h
  · rw [hrun]
    refine ⟨fun r hr => ⟨hmem, fun c status h => ?_⟩, fun _ h => by cases h⟩
    cases hr
    cases h
    exact ⟨e, hw.1 ▸ List.mem_of_find?_eq_some hfind, rfl, rfl, congrArg (e :: ·) hw.2⟩

/-- The copy of a status in `wait4` keeps the events that were taken. -/
theorem copyStatus_waited (ptr status : Nat) :
    Keeps (World.Waited waited) (copyToUser pid ptr (leBytes 4 status)) :=
  UserKeeps.copyToUser (I := World.Waited waited) pid ptr (leBytes 4 status)

/-- `wait4` returns the child of an event of its queue, and stores the status of that event. -/
theorem doWait4_reports (target : Int) (wstatus options : Nat) :
    Triple (fun w => World.Queued pid queue waited w ∧ w₀.MemoryOf w)
      (doWait4 pid target wstatus options)
      (fun ret w => 0 < ret → ∃ e ∈ queue, w.Waited (e :: waited) ∧ ret = e.childPid ∧
        w₀.StatusStored pid wstatus e.waitStatus w) (fun _ _ => True) := by
  -- what is read only changes neither the queue nor the memory
  have htrue : ∀ {α : Type} {c : M α}, Keeps (World.Queued pid queue waited) c →
      Keeps w₀.MemoryOf c → Triple (fun w => World.Queued pid queue waited w ∧ w₀.MemoryOf w) c
        (fun _ w => World.Queued pid queue waited w ∧ w₀.MemoryOf w) fun _ _ => True := fun h h' =>
    Keeps.triple (fun w hw => ⟨h w hw.1, h' w hw.2⟩) |>.imp (fun _ hw => hw) (fun _ _ hw => hw)
      fun _ _ _ => trivial
  unfold doWait4
  refine Triple.bind (htrue (by simp) (memoryOf_keeps (by simp) (by simp))) fun task => ?_
  refine Triple.bind (htrue (by simp) (memoryOf_keeps (by simp) (by simp))) fun _ => ?_
  refine Triple.bind (popChildEventMatching_takes target options task.processGroupId) fun r => ?_
  rcases r with _ | ⟨c, status⟩
  · -- without an event the value is an error number or zero
    refine Triple.bind (R := fun _ _ => True) (Triple.gets fun _ _ => trivial) fun _ => ?_
    refine Triple.ite (fun _ => Triple.pure fun _ _ h => absurd h (by decide)) fun _ => ?_
    refine Triple.ite (fun _ => Triple.pure fun _ _ h => absurd h (by decide)) fun _ => ?_
    refine Triple.bind (triple_true _) fun _ => Triple.bind (triple_true _) fun _ => ?_
    exact Triple.bind (triple_true _) fun _ => Triple.throw fun _ _ => trivial
  · refine Triple.of_pre fun w h => ?_
    obtain ⟨hmem, htaken⟩ := h
    obtain ⟨e, he, rfl, rfl, hwaited⟩ := htaken _ _ rfl
    refine Triple.bind (R := fun _ w' => w'.Waited (e :: waited) ∧
      w₀.StatusStored pid wstatus e.waitStatus w') ?_ fun _ => ?_
    · refine Triple.onError (F := fun _ _ => True) ?_ fun _ => triple_true _
      refine Triple.when ?_ ?_
      · -- the copy starts from the memory that the call was made with
        intro hne w' hw'
        subst hw'
        refine ⟨fun u hok => ⟨copyStatus_waited _ _ w' hwaited, ?_⟩, fun _ _ => trivial⟩
        rw [World.StatusStored, if_neg hne]
        exact hmem.copied (Prod.ext hok rfl) rfl
      · intro w' hzero hw'
        subst hw'
        rw [World.StatusStored, if_pos (by omega)]
        exact ⟨hwaited, hmem.1⟩
    · refine Triple.bind (R := fun _ w' => w'.Waited (e :: waited) ∧
        w₀.StatusStored pid wstatus e.waitStatus w')
        (Triple.modify fun _ h => ⟨h.1, h.2.congr rfl⟩) fun _ => ?_
      exact Triple.pure fun w' h _ => ⟨e, he, h.1, rfl, h.2⟩

/-- A deferred `wait4` is answered in the same way. -/
theorem pendingWaitResult_reports (p : PendingWaitReply) :
    Triple (fun w => World.Queued pid queue waited w ∧ w₀.MemoryOf w) (pendingWaitResult pid p)
      (fun r w => ∀ ret, r = some ret → ret = -ECHILD ∨ ∃ e ∈ queue, w.Waited (e :: waited) ∧
        (ret = e.childPid ∧ w₀.StatusStored pid p.wstatus e.waitStatus w ∨
          w₀.StatusRefused pid p.wstatus e.waitStatus ret w)) (fun _ _ => True) := by
  unfold pendingWaitResult
  refine Triple.bind (popChildEventMatching_takes _ _ _) fun r => ?_
  rcases r with _ | ⟨c, status⟩
  · refine Triple.bind (R := fun _ _ => True) (Triple.gets fun _ _ => trivial) fun waitable => ?_
    refine Triple.ite (fun _ => Triple.pure fun _ _ ret h => by cases h) fun _ =>
      Triple.pure fun _ _ ret h => ?_
    cases h
    exact .inl rfl
  · refine Triple.of_pre fun w h => ?_
    obtain ⟨hmem, htaken⟩ := h
    obtain ⟨e, he, rfl, rfl, hwaited⟩ := htaken _ _ rfl
    refine Triple.bind (R := fun _ w' => World.Waited (e :: waited) w' ∧ w₀.MemoryOf w')
      (Triple.modify fun w' hw' => hw' ▸ ⟨hwaited, hmem⟩) fun _ => ?_
    refine Triple.bind (R := fun (ret : Int) w' => World.Waited (e :: waited) w' ∧
      (ret = e.childPid ∧ w₀.StatusStored pid p.wstatus e.waitStatus w' ∨
        w₀.StatusRefused pid p.wstatus e.waitStatus ret w')) ?_ ?_
    -- the reply stores the status where the caller asked for it
    · unfold storeForReply
      refine Triple.ite (fun hzero => Triple.pure ?_) ?_
      · intro w' hw'
        refine ⟨hw'.1, .inl ⟨rfl, ?_⟩⟩
        rw [World.StatusStored, if_pos hzero]
        exact hw'.2.1
      rintro hne w' ⟨hwaited', hmem'⟩
      have hcopied : Keeps (World.Waited (e :: waited)) (copyToUser pid p.wstatus _) :=
        copyStatus_waited p.wstatus e.waitStatus
      have hkept := hcopied w' hwaited'
      rcases hcopy : (copyToUser pid p.wstatus (leBytes 4 e.waitStatus)).run w' with ⟨err | u, w''⟩
      · -- the copy failed, and its error number is the reply
        rw [hcopy] at hkept
        rw [run_bind_ok (by rw [run_attempt, hcopy]), run_gets_bind]
        refine ⟨fun ret hret => ?_, fun _ hret => by cases hret⟩
        cases hret
        exact ⟨hkept, .inr ⟨hne, err, hmem'.copied hcopy rfl, rfl⟩⟩
      · rw [hcopy] at hkept
        rw [run_bind_ok (by rw [run_attempt, hcopy]), run_gets_bind]
        refine ⟨fun ret hret => ?_, fun _ hret => by cases hret⟩
        cases hret
        refine ⟨hkept, .inl ⟨rfl, ?_⟩⟩
        rw [World.StatusStored, if_neg hne]
        exact hmem'.copied hcopy rfl
    · intro ret
      refine Triple.pure fun w' h ret' hret => ?_
      cases hret
      exact .inr ⟨e, he, h.1, h.2⟩

end Reports

/-! ### The reason and the status -/

/-- A change of a child tells its parent of one event, and the wait macros read the reason of the
change from the status of the event exactly when the child did not die by a signal. The event stays
as it is until it is taken. `wait4` takes an event of its caller, returns its child and stores its
status: the memory after the call is that after the copy, and in a buffer of the caller it has the
four bytes of the status, with all other bytes as before. A deferred `wait4` does the same, or
replies with the error number of the copy. -/
theorem wait_status_iff (c : Change) (w : World) (pid : Nat) (t : TaskStruct)
    (ht : w.task? pid = some t) (hparent : t.parentPid ≠ 0) (happlies : c.Applies t) :
    (∃ e, ((c.run pid).run w).2.told t.parentPid = e ::ₘ w.told t.parentPid ∧ e.childPid = pid ∧
      (decodeWaitStatus e.waitStatus = some c.reason ↔ ¬ c.IsSignalDeath)) ∧
    (∀ (r : Request) (w : World) (parent : Nat),
      w.told parent ≤ ((dispatch r).run w).2.told parent) ∧
    (∀ (w : World) (pid : Nat) (target : Int) (wstatus options : Nat) (ret : Int) (w' : World),
      (doWait4 pid target wstatus options).run w = (.ok ret, w') → 0 < ret →
      ∃ e ∈ w.eventsOf pid, w'.waited = e :: w.waited ∧ ret = e.childPid ∧
        w.StatusStored pid wstatus e.waitStatus w') ∧
    ∀ (w : World) (pid : Nat) (p : PendingWaitReply) (ret : Int) (w' : World),
      (pendingWaitResult pid p).run w = (.ok (some ret), w') → ret = -ECHILD ∨
      ∃ e ∈ w.eventsOf pid, w'.waited = e :: w.waited ∧
        (ret = e.childPid ∧ w.StatusStored pid p.wstatus e.waitStatus w' ∨
          w.StatusRefused pid p.wstatus e.waitStatus ret w') := by
  refine ⟨⟨c.event pid t, ?_, ?_, c.decode_event_iff pid t⟩, dispatch_told, ?_, ?_⟩
  · exact (c.records rfl hparent happlies).ends ⟨rfl, ht⟩
  · unfold Change.event
    split <;> rfl
  · intro w pid target wstatus options ret w' hrun hpos
    have hreport := (doWait4_reports target wstatus options w ⟨⟨rfl, rfl⟩, .refl w⟩).1 ret
      (by rw [hrun]) hpos
    rw [hrun] at hreport
    exact hreport
  · intro w pid p ret w' hrun
    have hreport := (pendingWaitResult_reports p w ⟨⟨rfl, rfl⟩, .refl w⟩).1 (some ret)
      (by rw [hrun]) ret rfl
    rw [hrun] at hreport
    exact hreport

/-- The child of `init` calls `exit(300)`, and `init` reads the code 44. -/
theorem wait_status_iff_exit :
    ∃ e ∈ (((Change.exit 300).run 2).run sampleFork).2.told 1, e.childPid = 2 ∧
      decodeWaitStatus e.waitStatus = some (.exited 44) := by
  have hchild : (sampleFork.task? 2).map (·.parentPid) = some 1 := by decide +kernel
  obtain ⟨t, ht, hparent⟩ := Option.map_eq_some_iff.mp hchild
  obtain ⟨e, htold, hpid, hstatus⟩ :=
    (wait_status_iff (.exit 300) sampleFork 2 t ht (by rw [hparent]; decide) trivial).1
  have hexit : ¬ (Change.exit 300).IsSignalDeath := fun ⟨_, h⟩ => by cases h
  rw [hparent] at htold
  exact ⟨e, htold ▸ Multiset.mem_cons_self e _, hpid, hstatus.mpr hexit⟩

/-- `init` kills its child with `SIGKILL`, or the child calls `exit(137)`. The event is the same,
and the parent reads an exit. -/
theorem killed_child_looks_exited :
    Reachable (sampleFork.after (.syscall 1 (.kill 2 SIGKILL))) ∧
    (sampleFork.after (.syscall 1 (.kill 2 SIGKILL))).eventsOf 1 =
      (sampleFork.after (.syscall 2 (.exit 137))).eventsOf 1 ∧
    ((sampleFork.after (.syscall 1 (.kill 2 SIGKILL))).eventsOf 1).map
      (fun e => decodeWaitStatus e.waitStatus) = [some (.exited 137)] :=
  ⟨sampleFork_reachable.after (by decide +kernel), by decide +kernel, by decide +kernel⟩

end Ape
