import Ape.Proofs.Delivery
import Ape.Proofs.Reaps

/-!
# `Ape.Proofs.WaitSignals`: signals for a process whose `wait4` is deferred

`queue_process_signal` answers a deferred sleep and ends a `rt_sigsuspend`. It does not look at the
deferred `wait4` replies. So a process that waits for a child keeps its reply pending when a signal
arrives that is neither blocked nor ignored. `missedIntr` marks that such a signal met a deferred
`wait4`.

`World.Uninterrupted ex` says that no process outside `ex` waits and has such a signal, unless one
was missed. A request changes the masks and the actions of its caller only, and the caller of a
request does not wait for the reply of another one.
-/

set_option autoImplicit false

namespace Ape

open Ape.Lib Cmd

/-! ### Processes that wait and have a signal -/

/-- The process has a pending signal that is neither blocked nor ignored. -/
def World.interruptible (w : World) (pid : Nat) : Bool := (w.task? pid).any (·.interruptible)

/-- Which processes wait for a child, and which have a signal. -/
structure IntrView where
  waits : Nat → Bool
  signalled : Nat → Bool
  missed : Bool

/-- What matters to a wait that a signal can end. -/
def World.intrView (w : World) : IntrView :=
  ⟨fun pid => w.pendingWaitReplies.contains pid, w.interruptible, w.missedIntr⟩

/-- No process outside `ex` waits and has a signal, unless one was missed. -/
def IntrView.Quiet (ex : List Nat) (v : IntrView) : Prop :=
  v.missed = true ∨ ∀ q, q ∉ ex → v.waits q = true → v.signalled q = false

/-- No process outside `ex` waits and has a signal, unless one was missed. -/
def World.Uninterrupted (ex : List Nat) (w : World) : Prop := w.intrView.Quiet ex

namespace IntrView.Quiet

variable {v v' : IntrView} {ex : List Nat}

/-- Fewer processes wait, and fewer have a signal. -/
theorem shrink (h : v.Quiet ex) (hmissed : v.missed = true → v'.missed = true)
    (hwaits : ∀ q, q ∉ ex → v'.waits q = true → v.waits q = true)
    (hsignalled : ∀ q, q ∉ ex → v.signalled q = false → v'.signalled q = false) : v'.Quiet ex :=
  h.imp hmissed fun hall q hq hw => hsignalled q hq (hall q hq (hwaits q hq hw))

/-- One process more may be excepted. -/
theorem weaken (h : v.Quiet ex) (pid : Nat) : v.Quiet (pid :: ex) :=
  h.imp id fun hall q hq => hall q fun hmem => hq (List.mem_cons_of_mem _ hmem)

/-- The exception ends when the process does not wait or has no signal. -/
theorem settle {pid : Nat} (h : v.Quiet (pid :: ex))
    (hpid : v.missed = true ∨ (v.waits pid = true → v.signalled pid = false)) : v.Quiet ex := by
  rcases h with hmissed | hall
  · exact .inl hmissed
  · refine hpid.imp id fun hself q hq hw => ?_
    by_cases heq : q = pid
    · rw [heq] at hw ⊢
      exact hself hw
    · exact hall q (fun hmem => (List.mem_cons.mp hmem).elim heq hq) hw

end IntrView.Quiet

/-! ### What is not seen -/

/-- A change of a process record that keeps its signals and its actions. -/
theorem World.intrView_modifyTask (w : World) (pid : Nat) {f : TaskStruct → TaskStruct}
    (hf : ∀ t, (f t).interruptible = t.interruptible) :
    (w.modifyTask pid f).intrView = w.intrView := by
  refine congrArg (IntrView.mk _ · _) (funext fun q => ?_)
  rw [World.interruptible, World.interruptible, World.task?, World.modifyTask, OrdMap.get?_modify]
  by_cases h : q = pid
  · rw [if_pos h, Option.any_map]
    exact congrArg (Option.any · _) (funext hf)
  · rw [if_neg h]
    rfl

instance : BlindSlots World.intrView where
  tick _ _ := rfl
  slots _ _ := rfl
  ledger _ _ := rfl

instance : BlindTrace World.intrView := ⟨fun _ _ => rfl⟩

instance : BlindHosts World.intrView := ⟨fun _ _ => rfl, fun _ _ => rfl⟩

instance : BlindRest World.intrView :=
  ⟨fun w pid _ => w.intrView_modifyTask pid fun _ => rfl,
    fun w pid _ => w.intrView_modifyTask pid fun _ => rfl⟩

instance : BlindStops World.intrView :=
  ⟨fun w pid _ _ => w.intrView_modifyTask pid fun _ => rfl, fun _ _ => rfl, fun _ _ => rfl⟩

instance : BlindJobs World.intrView :=
  ⟨fun w pid _ _ _ => w.intrView_modifyTask pid fun _ => rfl⟩

instance : BlindSleeps World.intrView :=
  ⟨fun _ _ => rfl, fun _ _ => rfl, fun _ _ => rfl, fun _ _ => rfl⟩

instance : BlindCaller World.intrView := ⟨fun _ _ => rfl⟩

instance : BlindFiles World.intrView where
  cloexecLog _ _ := rfl
  positionSplit _ _ := rfl
  endpoints _ _ := rfl
  doubleClose _ _ := rfl
  asyncFree _ _ := rfl
  asyncRegions _ _ := rfl
  asyncVaddr _ _ := rfl
  iouring _ _ := rfl
  fdOverflow _ _ := rfl
  earlyRecycle _ _ := rfl
  files w pid _ := w.intrView_modifyTask pid fun _ => rfl

instance : BlindMemory World.intrView where
  vspace w pid _ := w.intrView_modifyTask pid fun _ => rfl
  tables w pid _ := w.intrView_modifyTask pid fun _ => rfl
  scratch _ _ _ := rfl
  writeFrame _ _ _ := rfl
  frames _ _ _ := rfl
  refs _ _ := rfl
  doubleFree _ _ := rfl
  mm w pid _ := w.intrView_modifyTask pid fun _ => rfl
  fileMapLog _ _ := rfl

section Blind

variable (ex : List Nat)

instance : BlindSlots (World.Uninterrupted ex) := BlindSlots.comp
    (V := World.intrView) _ inferInstance

instance : BlindTrace (World.Uninterrupted ex) := BlindTrace.comp
    (V := World.intrView) _ inferInstance

instance : BlindHosts (World.Uninterrupted ex) := BlindHosts.comp
    (V := World.intrView) _ inferInstance

instance : BlindRest (World.Uninterrupted ex) := BlindRest.comp
    (V := World.intrView) _ inferInstance

instance : BlindStops (World.Uninterrupted ex) := BlindStops.comp
    (V := World.intrView) _ inferInstance

instance : BlindJobs (World.Uninterrupted ex) := BlindJobs.comp
    (V := World.intrView) _ inferInstance

instance : BlindSleeps (World.Uninterrupted ex) :=
  BlindSleeps.comp (V := World.intrView) _ inferInstance

instance : BlindCaller (World.Uninterrupted ex) :=
  BlindCaller.comp (V := World.intrView) _ inferInstance

instance : BlindFiles (World.Uninterrupted ex) := BlindFiles.comp
    (V := World.intrView) _ inferInstance

instance : BlindMemory (World.Uninterrupted ex) :=
  BlindMemory.comp (V := World.intrView) _ inferInstance

instance : ChangeKeeps (World.Uninterrupted ex) := ⟨fun _ _ _ _ h => h⟩

end Blind

/-! ### Signals -/

section Signals

variable {ex : List Nat}

/-- Fewer deliverable signals, or an excepted process. -/
theorem modifyRecord_uninterrupted {pid : Nat} {f : TaskStruct → TaskStruct}
    (hf : pid ∈ ex ∨ ∀ t, t.interruptible = false → (f t).interruptible = false) :
    Keeps (World.Uninterrupted ex) (modifyTask pid f) := by
  intro w h
  refine IntrView.Quiet.shrink h id (fun _ _ hw => hw) fun q hq hs => ?_
  have hs' : (w.tasks.get? q).any (·.interruptible) = false := hs
  show ((w.tasks.modify pid f).get? q).any (·.interruptible) = false
  rw [OrdMap.get?_modify]
  split
  · rename_i heq
    subst heq
    rw [Option.any_map]
    cases htask : w.tasks.get? q with
    | none => rfl
    | some t =>
      rw [htask] at hs'
      exact hf.resolve_left hq t hs'
  · exact hs'

/-- Fewer deliverable signals. -/
theorem interruptible_of_fewer {t : TaskStruct} {s : SignalStruct} (ht : t.interruptible = false)
    (h : ∀ i, s.deliverable.getLsbD i = true → t.signal.deliverable.getLsbD i = true) :
    ({ t with signal := s } : TaskStruct).interruptible = false := by
  rw [TaskStruct.interruptible, List.any_eq_false] at ht ⊢
  intro i hi hnew
  refine ht i hi ?_
  have hnew' : (s.deliverable.getLsbD i && !(t.signalAction (i + 1)).ignores (i + 1)) = true := hnew
  rw [Bool.and_eq_true] at hnew' ⊢
  exact ⟨h i hnew'.1, hnew'.2⟩

/-- A process without pending signals. -/
theorem interruptible_of_none {t : TaskStruct} (h : t.signal.signalPending = 0) :
    t.interruptible = false := by
  have hzero : t.signal.deliverable = 0 := by
    rw [SignalStruct.deliverable, h]
    exact BitVec.zero_and
  rw [TaskStruct.interruptible, List.any_eq_false, hzero]
  intro i _ hi
  rw [Bool.and_eq_true] at hi
  exact absurd hi.1 (by simp)

/-- A change that makes no signal deliverable interrupts no wait. -/
theorem modifySignal_uninterrupted {pid : Nat} {f : SignalStruct → SignalStruct}
    (hf : ∀ s i, (f s).deliverable.getLsbD i = true → s.deliverable.getLsbD i = true) :
    Keeps (World.Uninterrupted ex) (modifySignal pid f) :=
  modifyRecord_uninterrupted (.inr fun t ht => interruptible_of_fewer ht (hf t.signal))

/-- A signal that is taken out makes none deliverable. -/
theorem clearPending_fewer (idx : Nat) (s : SignalStruct) (i : Nat)
    (h : (s.clearPending idx).deliverable.getLsbD i = true) : s.deliverable.getLsbD i = true := by
  simp only [SignalStruct.deliverable, SignalStruct.clearPending, BitVec.getLsbD_and,
    Bool.and_eq_true] at h ⊢
  exact ⟨h.1.1, h.2⟩

instance (pid : Nat) : OwnSignals (World.Uninterrupted (pid :: ex)) pid where
  own _ _ := modifyRecord_uninterrupted (.inl List.mem_cons_self)

instance (pid : Nat) : OwnActions (World.Uninterrupted (pid :: ex)) pid where
  own _ _ _ _ := modifyRecord_uninterrupted (.inl List.mem_cons_self)

instance (pid : Nat) : PopKeeps (World.Uninterrupted ex) pid :=
  PopKeeps.of_clear fun idx => modifySignal_uninterrupted (clearPending_fewer idx)

/-- The mark closes the exception for a process. -/
theorem noteWaitIntr_uninterrupted (pid : Nat) :
    Triple (World.Uninterrupted (pid :: ex)) (noteWaitIntr pid) (fun _ => World.Uninterrupted ex)
      fun _ => World.Uninterrupted ex := by
  refine Triple.modify fun w h => ?_
  have hnote : ∀ b, (w.missedIntr || b) = true ↔ w.missedIntr = true ∨ b = true :=
    fun b => Bool.or_eq_true _ _ ▸ Iff.rfl
  refine IntrView.Quiet.settle (h.imp (fun hm => (hnote _).mpr (.inl hm)) id) ?_
  by_cases hw : w.pendingWaitReplies.contains pid = true
  · cases hs : w.interruptible pid with
    | true =>
      refine .inl ((hnote _).mpr (.inr ?_))
      have hs' : (w.task? pid).any (·.interruptible) = true := hs
      rw [hw, hs']
      rfl
    | false => exact .inr fun _ => hs
  · exact .inr fun hw' => absurd hw' hw

instance : QuietSignals (World.Uninterrupted ex) where
  quiet pid f hf := modifySignal_uninterrupted fun s i h => by rwa [hf.deliverable s] at h
  queue pid signum := by
    refine Triple.keeps (Triple.bind (R := fun _ => World.Uninterrupted ex)
      (Triple.gets fun _ h => h)
      fun task => Triple.whenSome (fun t _ => ?_) fun _ _ h => h)
    refine Triple.whenSome (fun bit _ => ?_) fun _ _ h => h
    -- the signal may break the invariant at its process, where the mark closes it again
    let I : World → Prop := World.Uninterrupted (pid :: ex)
    have hkeep : ∀ {α : Type} {c : M α}, Keeps I c → Total c →
        Triple I c (fun _ => I) fun _ => World.Uninterrupted ex := fun hc ht => ht.triple hc.triple
    refine Triple.bind (R := fun _ => I) (Triple.modify ?_) fun _ => ?_
    · intro w h
      exact modifyRecord_uninterrupted (.inl List.mem_cons_self) w
        (IntrView.Quiet.weaken h pid)
    · refine Triple.bind (hkeep (emit_frames _).keepsProp (Total.modify _)) fun _ => ?_
      refine Triple.bind (hkeep (Keeps.when (SleepsKeeps.interrupt pid))
        (Total.when (interruptPendingSleepReply_total pid))) fun _ => ?_
      refine Triple.bind (hkeep (Keeps.when (wakeFromSigsuspend_keeps pid))
        (Total.when (wakeFromSigsuspend_total pid))) fun _ => noteWaitIntr_uninterrupted pid
  dropped := fun _ h => h
  waitIntr pid := (noteWaitIntr_uninterrupted pid).imp (fun _ h => IntrView.Quiet.weaken h pid)
    (fun _ _ h => h) (fun _ _ h => h) |>.keeps

instance : ContKeeps (World.Uninterrupted ex) :=
  ContKeeps.of_clear fun _ idx => modifySignal_uninterrupted (clearPending_fewer idx)

end Signals

/-! ### Deferred replies and processes -/

section Waits

variable {ex : List Nat}

/-- A reply that is taken out of the table. -/
theorem eraseWait_uninterrupted (pid : Nat) : Keeps (World.Uninterrupted ex)
    (modify fun w => { w with pendingWaitReplies := w.pendingWaitReplies.erase pid } : M Unit) := by
  intro w h
  refine IntrView.Quiet.shrink h id (fun q _ hq => ?_) fun _ _ hs => hs
  have hq' : ((w.pendingWaitReplies.erase pid).get? q).isSome = true := hq
  rw [OrdMap.get?_erase] at hq'
  split at hq'
  · cases hq'
  · exact hq'

instance : WaitsKeeps (World.Uninterrupted ex) where
  drop pid := Keeps.bind (Keeps.gets _) fun _ => Keeps.whenSome fun p =>
    Keeps.bind (eraseWait_uninterrupted pid) fun _ => by simp
  lifecycle _ _ h := h

/-- The queues of events are not seen. -/
theorem popChildEventMatching_uninterrupted (parentPid : Nat) (target : Int)
    (options callerPgid : Nat) :
    Keeps (World.Uninterrupted ex) (popChildEventMatching parentPid target options callerPgid) := by
  intro w h
  rcases popChildEventMatching_cases parentPid target options callerPgid w with
    ⟨_, hrun⟩ | ⟨e, _, hrun⟩
  · rw [hrun]
    exact h
  · rw [hrun]
    exact h

instance : NotifyKeeps (World.Uninterrupted ex) where
  notify pid parentPid pgid exitCode := by
    have hwake : Keeps (World.Uninterrupted ex) (tryWakePendingWait4Reply parentPid) :=
      tryWakePendingWait4Reply_keeps_of (popChildEventMatching_uninterrupted parentPid)
        (eraseWait_uninterrupted parentPid)
    refine Keeps.ite (Keeps.pure _) (Keeps.bind (fun _ h => h) fun _ =>
      Keeps.bind (fun _ h => h) fun _ => Keeps.bind hwake fun replied => Keeps.when ?_)
    exact Keeps.bind (resumeWait4Parent_keeps _ _ _) fun _ => by simp

/-- A reply is queued, and the mark looks at the signals of its process. -/
instance : Wait4Keeps (World.Uninterrupted ex) where
  wait4 pid target wstatus options := by
    -- the caller waits from here on, and is the one exempt
    have hinsert : ∀ p, Triple (World.Uninterrupted ex)
        (modify fun w =>
          { w with pendingWaitReplies := w.pendingWaitReplies.insert pid p } : M Unit)
        (fun _ => World.Uninterrupted (pid :: ex)) fun _ => World.Uninterrupted ex := by
      intro p
      refine Triple.modify fun w h => ?_
      refine IntrView.Quiet.shrink (IntrView.Quiet.weaken h pid) id (fun q hq hw => ?_)
        fun _ _ hs => hs
      have hw' : ((w.pendingWaitReplies.insert pid p).get? q).isSome = true := hw
      rw [OrdMap.get?_insert_ne _ _ fun heq => hq (List.mem_cons.mpr (.inl heq))] at hw'
      exact hw'
    unfold doWait4
    refine Keeps.bind (by simp) fun task => Keeps.bind (by simp) fun _ =>
      Keeps.bind (popChildEventMatching_uninterrupted _ _ _ _) fun event => ?_
    split
    · exact Keeps.bind (by simp) fun _ => Keeps.bind (fun _ h => h) fun _ => Keeps.pure _
    · refine Keeps.bind (Keeps.gets _) fun waitable => Keeps.ite (by simp) (Keeps.ite (by simp) ?_)
      -- until the reply is queued the caller is not exempt
      have hqueue : Triple (World.Uninterrupted ex)
          (queueWait4Reply pid target wstatus options task.processGroupId)
          (fun _ => World.Uninterrupted (pid :: ex)) fun _ => World.Uninterrupted ex := by
        refine Triple.bind (R := fun _ => World.Uninterrupted ex)
          (Triple.gets fun _ h => h) fun busy =>
          Triple.ite (fun _ => Triple.throw fun _ h => h) fun _ => ?_
        exact Triple.bind (Keeps.triple (by simp)) fun slot => hinsert _
      have hblock : ∀ r : Wait4BlockRequest, Triple (World.Uninterrupted (pid :: ex))
          (modifySignal pid fun s => { s with wait4Blocked := some r })
          (fun _ => World.Uninterrupted (pid :: ex)) fun _ => World.Uninterrupted ex := fun r =>
        Triple.modify fun w h => modifyRecord_uninterrupted (.inl List.mem_cons_self) w h
      exact Triple.keeps (Triple.bind hqueue fun _ => Triple.bind (hblock _) fun _ =>
        Triple.bind (noteWaitIntr_uninterrupted pid) fun _ => Triple.throw fun _ h => h)

instance : ProcessKeeps (World.Uninterrupted ex) where
  erase w pid h _ := by
    refine IntrView.Quiet.shrink h id (fun _ _ hw => hw) fun q _ hs => ?_
    show ((w.tasks.erase pid).get? q).any (·.interruptible) = false
    rw [OrdMap.get?_erase]
    split
    · rfl
    · exact hs
  panicked _ _ h := h
  register w parentPid cnode h := by
    refine IntrView.Quiet.shrink h id (fun _ _ hw => hw) fun q _ hs => ?_
    show ((w.tasks.insert w.nextPid _).get? q).any (·.interruptible) = false
    rw [OrdMap.get?_insert]
    split
    · exact interruptible_of_none rfl
    · exact hs
  inherit w child parent pid h _ := by
    refine modifyRecord_uninterrupted (.inr fun t _ => ?_) w h
    have hzero : (t.inherit parent).signal.signalPending = 0 := by
      unfold TaskStruct.inherit
      dsimp only
      split <;> rfl
    exact interruptible_of_none hzero

end Waits

/-! ### Runs -/

/-- The deferred `wait4` of a process, if it has one. -/
def World.WaitIs (pid : Nat) (p : Option PendingWaitReply) (w : World) : Prop :=
  w.pendingWaitReplies.get? pid = p

/-- The process has no deferred `wait4`. -/
abbrev World.Unwaiting (pid : Nat) : World → Prop := World.WaitIs pid none

section Unwaiting

variable (pid : Nat) (p : Option PendingWaitReply)

instance : BlindSlots (World.WaitIs pid p) where
  tick _ _ := rfl
  slots _ _ := rfl
  ledger _ _ := rfl

instance : BlindTrace (World.WaitIs pid p) := ⟨fun _ _ => rfl⟩

instance : BlindSignals (World.WaitIs pid p) := ⟨fun _ _ _ => rfl, fun _ _ => rfl, fun _ _ => rfl⟩

instance : BlindRecords (World.WaitIs pid p) where
  hostPidMap _ _ := rfl
  stale _ _ := rfl
  record _ _ _ _ := rfl
  stopLog _ _ := rfl
  stopSkewed _ _ := rfl

instance : BlindSleeps (World.WaitIs pid p) :=
  ⟨fun _ _ => rfl, fun _ _ => rfl, fun _ _ => rfl, fun _ _ => rfl⟩

instance : BlindProcesses (World.WaitIs pid p) :=
  ⟨fun _ _ => rfl, fun _ _ => rfl, fun _ _ => rfl, fun _ _ => rfl, fun _ _ => rfl⟩

instance : BlindFiles (World.WaitIs pid p) where
  cloexecLog _ _ := rfl
  positionSplit _ _ := rfl
  endpoints _ _ := rfl
  doubleClose _ _ := rfl
  asyncFree _ _ := rfl
  asyncRegions _ _ := rfl
  asyncVaddr _ _ := rfl
  iouring _ _ := rfl
  fdOverflow _ _ := rfl
  earlyRecycle _ _ := rfl
  files _ _ _ := rfl

instance : BlindMemory (World.WaitIs pid p) where
  vspace _ _ _ := rfl
  tables _ _ _ := rfl
  scratch _ _ _ := rfl
  writeFrame _ _ _ := rfl
  frames _ _ _ := rfl
  refs _ _ := rfl
  doubleFree _ _ := rfl
  mm _ _ _ := rfl
  fileMapLog _ _ := rfl

instance : ChangeKeeps (World.WaitIs pid p) := ⟨fun _ _ _ _ h => h⟩

/-- A process whose deferred `wait4` is taken away does not wait. -/
theorem eraseWait_unwaiting (q : Nat) : Keeps (World.Unwaiting pid)
    (modify fun w => { w with pendingWaitReplies := w.pendingWaitReplies.erase q } : M Unit) := by
  intro w h
  show (w.pendingWaitReplies.erase q).get? pid = none
  rw [OrdMap.get?_erase]
  split
  · rfl
  · exact h

instance : WaitsKeeps (World.Unwaiting pid) where
  drop q := Keeps.bind (Keeps.gets _) fun _ => Keeps.whenSome fun p =>
    Keeps.bind (eraseWait_unwaiting pid q) fun _ => by simp
  lifecycle _ _ h := h

instance : NotifyKeeps (World.Unwaiting pid) where
  notify child parentPid pgid exitCode := by
    have hpop : ∀ target options callerPgid, Keeps (World.Unwaiting pid)
        (popChildEventMatching parentPid target options callerPgid) := by
      intro target options callerPgid w h
      rcases popChildEventMatching_cases parentPid target options callerPgid w with
        ⟨_, hrun⟩ | ⟨e, _, hrun⟩
      · rw [hrun]
        exact h
      · rw [hrun]
        exact h
    have hwake : Keeps (World.Unwaiting pid) (tryWakePendingWait4Reply parentPid) :=
      tryWakePendingWait4Reply_keeps_of hpop (eraseWait_unwaiting pid parentPid)
    refine Keeps.ite (Keeps.pure _) (Keeps.bind (fun _ h => h) fun _ =>
      Keeps.bind (fun _ h => h) fun _ => Keeps.bind hwake fun replied => Keeps.when ?_)
    exact Keeps.bind (resumeWait4Parent_keeps _ _ _) fun _ => by simp

end Unwaiting

/-- The caller of a request does not wait for the reply of a `wait4`. -/
def World.CallerFree (w : World) (r : Request) : Prop :=
    ∀ pid, r.caller = some pid → w.Unwaiting pid

/-- A call of a process that does not wait. -/
theorem handleSyscall_uninterrupted {w : World} (h : w.Uninterrupted []) {pid : Nat}
    (hfree : w.Unwaiting pid) (sys : Syscall) :
    ((handleSyscall pid sys).run w).2.Uninterrupted [] := by
  -- `wait4` leaves its caller without a signal to take
  by_cases hwait : ∃ target wstatus options, sys = .wait4 target wstatus options
  · obtain ⟨target, wstatus, options, rfl⟩ := hwait
    refine handleSyscall_keeps_at
      (finishSyscall_keeps (terminateProcess_keeps_blind (I := World.Uninterrupted []) pid) _) ?_
    exact doWait4_keeps pid target wstatus options w h
  · -- the masks and the actions of the caller may change, and it does not wait
    have hothers : ((handleSyscall pid sys).run w).2.Uninterrupted [pid] := by
      refine handleSyscall_keeps_at
        (finishSyscall_keeps (terminateProcess_keeps_blind
          (I := World.Uninterrupted [pid]) pid) _) ?_
      have hw : w.Uninterrupted [pid] := IntrView.Quiet.weaken h pid
      refine routeSyscall_keeps_at terminateProcess_keeps_blind pid sys hw
        (fun hmem => memoryCall_keeps_blind pid hmem _ hw) (fun hjob => jobCall_keeps pid hjob _ hw)
        (fun _ _ _ hsys => hsys ▸ doWait4_keeps _ _ _ _ _ hw) fun req rem hsys => ?_
      subst hsys
      exact doNanosleep_keeps pid req rem _ hw
    -- another call leaves the caller without a pending wait
    have hself : ((handleSyscall pid sys).run w).2.Unwaiting pid := by
      refine handleSyscall_keeps_at
        (finishSyscall_keeps (terminateProcess_keeps_blind (I := World.Unwaiting pid) pid) _) ?_
      refine routeSyscall_keeps_at terminateProcess_keeps_blind pid sys hfree
        (fun hmem => memoryCall_keeps_blind pid hmem _ hfree)
        (fun hjob => jobCall_keeps pid hjob _ hfree)
        (fun target wstatus options hsys => (hwait ⟨target, wstatus, options, hsys⟩).elim)
        fun req rem hsys => ?_
      subst hsys
      exact doNanosleep_keeps pid req rem _ hfree
    refine IntrView.Quiet.settle hothers (.inr fun hw => ?_)
    have hw' : (((handleSyscall pid sys).run w).2.pendingWaitReplies.get? pid).isSome = true := hw
    rw [hself] at hw'
    cases hw'

/-- A request of a caller that does not wait leaves no waiter with a signal to take. -/
theorem dispatch_uninterrupted {w : World} (h : w.Uninterrupted []) {r : Request}
    (hr : w.CallerFree r) : ((dispatch r).run w).2.Uninterrupted [] := by
  have hcaller : World.Uninterrupted [] { w with activeCallerPid := r.caller } := h
  refine dispatch_at_of_handle ?_
  cases r with
  | syscall pid sys =>
    have hfree : World.Unwaiting pid { w with activeCallerPid := some pid } := hr pid rfl
    exact handleSyscall_uninterrupted hcaller hfree sys
  | pageFault pid addr cause =>
    rw [handle_pageFault_state]
    exact pageFault_keeps_blind pid (terminateProcess_keeps_blind pid) _ _ _ hcaller
  | fault pid kind =>
    exact Keeps.bind (terminateProcess_keeps_blind _ _) (fun _ => Keeps.pure _) _ hcaller
  | sleepDone pid id =>
    exact Keeps.bind (SleepsKeeps.complete _ _) (fun _ => Keeps.pure _) _ hcaller

/-- In runs without calls of waiting processes no waiter has a signal to take. -/
theorem ReachableBy.uninterrupted {w : World} (h : ReachableBy World.CallerFree w) :
    w.Uninterrupted [] := by
  induction h with
  | @boot w w' path hi hr =>
    have hstart : w.Uninterrupted [] := by
      refine .inr fun q _ hw => ?_
      have hw' : (w.pendingWaitReplies.get? q).isSome = true := hw
      rw [hi.noWaits] at hw'
      cases hw'
    have hload := loadInit_keeps_blind (I := World.Uninterrupted []) path w hstart
    rwa [hr] at hload
  | step _ hr hs ih =>
    rw [← hs.2]
    exact dispatch_uninterrupted ih hr

/-! ### The signal that ought to interrupt -/

/-- After the arrival of the signal the process has a pending signal that is neither blocked nor
ignored. A deliverable signal gives back the mask of a `rt_sigsuspend`. -/
def TaskStruct.InterruptedBy (t : TaskStruct) (bit : SigSet) : Prop :=
  (t.signal.queueSignal bit).deliverable ≠ 0 ∧
    ({ t with signal := (t.signal.queueSignal bit).restoreMask } : TaskStruct).interruptible = true

/-- The deferred `wait4` of the process is answered with `-EINTR`, and its slot is free. -/
structure World.WaitAnswered (pid slot : Nat) (w w' : World) : Prop where
  taken : w'.pendingWaitReplies.get? pid = none
  replied : w'.trace.count (.replied slot (-EINTR)) = w.trace.count (.replied slot (-EINTR)) + 1
  freed : slot ∉ w'.slots

/-- In a run whose callers do not wait, and in which no signal met a deferred `wait4` that it ought
to interrupt, a process that waits has no signal that is neither blocked nor ignored. And a signal
answers the deferred `wait4` of its process whenever it ought to only if it ought not to. -/
theorem wait4_interruption {w : World} (h : ReachableBy World.CallerFree w) :
    (w.missedIntr = false → ∀ pid p t, w.pendingWaitReplies.get? pid = some p →
      w.task? pid = some t → ∀ signum, 1 ≤ signum → signum ≤ SIGNAL_MAX →
        (t.signal.signalPending &&& ~~~t.signal.signalBlocked).getLsbD (signum - 1) = true →
        (t.signalAction signum).ignores signum = true) ∧
    ∀ pid p t signum bit, w.pendingWaitReplies.get? pid = some p → w.task? pid = some t →
      signalBit signum = some bit →
      ((t.InterruptedBy bit → w.WaitAnswered pid p.replySlot
        ((queueProcessSignal pid signum).run w).2)
        ↔ ¬ t.InterruptedBy bit) := by
  constructor
  · intro hmissed pid p t hp ht signum hpos hle hdeliv
    have hall := h.uninterrupted.resolve_left (by
      show ¬ w.missedIntr = true
      rw [hmissed]
      decide)
    have hwaits : w.pendingWaitReplies.contains pid = true := by
      rw [OrdMap.contains, hp]
      rfl
    have hquiet : (w.task? pid).any (·.interruptible) = false := hall pid (by simp) hwaits
    rw [ht] at hquiet
    have hnone : t.interruptible = false := hquiet
    rw [TaskStruct.interruptible, List.any_eq_false] at hnone
    have hsig := hnone (signum - 1) (List.mem_range.mpr (by unfold SIGNAL_MAX at hle; omega))
    rw [Nat.sub_add_cancel hpos, Bool.and_eq_true, not_and, Bool.not_eq_true', Bool.not_eq_false]
      at hsig
    exact hsig hdeliv
  · intro pid p t signum bit hp ht hbit
    refine ⟨?_, fun hno hintr => absurd hintr hno⟩
    -- the signal leaves the deferred reply where it is
    intro hanswer hintr
    have hkept := queueProcessSignal_keeps pid signum (I := World.WaitIs pid (some p)) w hp
    cases hkept.symm.trans (hanswer hintr).taken

/-- The sample after a `fork` is reached in such a run. -/
theorem sampleFork_free : ReachableBy World.CallerFree sampleFork := by
  refine (ReachableBy.boot sampleStart_initial sampleBoot_run).after (fun pid hpid => ?_)
    (by decide +kernel)
  cases hpid
  show sampleBoot.pendingWaitReplies.get? 1 = none
  decide +kernel

/-- The sample in which `init` waits is reached in such a run. -/
theorem sampleWait_free : ReachableBy World.CallerFree sampleWait := by
  refine sampleFork_free.after (fun pid hpid => ?_) (by decide +kernel)
  cases hpid
  show sampleFork.pendingWaitReplies.get? 1 = none
  decide +kernel

/-- The state after the child of `init`, which waits for it, sent a signal to `init`. -/
def sampleSignalled (signum : Nat) : World := sampleWait.after (.syscall 2 (.kill 1 signum))

/-- The sample in which the waiter is signalled is reached in such a run. -/
theorem sampleSignalled_free (signum : Nat)
    (h : sampleWait.returns (.syscall 2 (.kill 1 signum)) = true) :
    ReachableBy World.CallerFree (sampleSignalled signum) := by
  refine sampleWait_free.after (fun pid hpid => ?_) h
  cases hpid
  show sampleWait.pendingWaitReplies.get? 2 = none
  decide +kernel

/-- `SIGCHLD` is pending for `init`, which waits and ignores it. -/
theorem wait4_interruption_sample :
    ∃ p t, (sampleSignalled SIGCHLD).pendingWaitReplies.get? 1 = some p ∧
      (sampleSignalled SIGCHLD).task? 1 = some t ∧
      (t.signal.signalPending &&& ~~~t.signal.signalBlocked).getLsbD (SIGCHLD - 1) = true ∧
      (t.signalAction SIGCHLD).ignores SIGCHLD = true := by
  have hwaits : ((sampleSignalled SIGCHLD).pendingWaitReplies.get? 1).isSome = true := by
    decide +kernel
  have htask : ((sampleSignalled SIGCHLD).task? 1).isSome = true := by decide +kernel
  have hpending : ((sampleSignalled SIGCHLD).task? 1).all fun t =>
    (t.signal.signalPending &&& ~~~t.signal.signalBlocked).getLsbD
      (SIGCHLD - 1) := by decide +kernel
  obtain ⟨p, hp⟩ := Option.isSome_iff_exists.mp hwaits
  obtain ⟨t, ht⟩ := Option.isSome_iff_exists.mp htask
  rw [ht] at hpending
  exact ⟨p, t, hp, ht, hpending, (wait4_interruption (sampleSignalled_free SIGCHLD
    (by decide +kernel))).1 (by decide +kernel) 1 p t hp ht SIGCHLD (by decide)
      (by decide) hpending⟩

/-- `SIGTERM` is pending for `init`, not blocked and not ignored, and the `wait4` of `init` is still
deferred. -/
theorem sigterm_leaves_wait4 :
    ReachableBy World.CallerFree (sampleSignalled 15) ∧
      (sampleSignalled 15).pendingWaitReplies.contains 1 = true ∧
      ((sampleSignalled 15).task? 1).any (fun t =>
        (t.signal.signalPending &&& ~~~t.signal.signalBlocked).getLsbD 14 &&
          !(t.signalAction 15).ignores 15) = true ∧
      (sampleSignalled 15).trace.any (fun e => match e with
        | .replied _ ret => ret == -EINTR
        | _ => false) = false :=
  ⟨sampleSignalled_free 15 (by decide +kernel), by decide +kernel, by decide +kernel,
    by decide +kernel⟩

end Ape
