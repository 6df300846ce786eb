import Ape.Model.Signal

/-!
# `Ape.Model.Lifecycle`: exit, fork, `wait4` and job control

`task/lifecycle.rs` and `task/job.rs`. The end of a process releases what it holds, records
the exit for the parent and answers a deferred `wait4` of the parent.
-/

set_option autoImplicit false

namespace Ape

open Ape.Lib Cmd

/-! ### Deferred `wait4` -/

/-- `clear_wait4_block`. -/
def SignalStruct.clearWait4Block (s : SignalStruct) : SignalStruct :=
    { s with wait4Blocked := none }

/-- The value that a deferred `wait4` would be answered with now, if any. -/
def pendingWaitResult (parentPid : Nat) (p : PendingWaitReply) : M (Option Int) := do
  let event ← popChildEventMatching parentPid p.targetPid p.options p.callerPgid
  match event with
  | some (reapedPid, status) => do
    noteStale (·.exitTaken)
    let ret ← storeForReply parentPid p.wstatus (leBytes 4 status) reapedPid
    pure (some ret)
  | none => do
    let waitable ← gets fun w =>
      w.hasWaitableChild parentPid p.targetPid p.options p.callerPgid
    if waitable then pure none else pure (some (-ECHILD))

/-- `try_wake_pending_wait4_reply`. -/
def tryWakePendingWait4Reply (parentPid : Nat) : M Bool := do
  let pending ← gets (·.pendingWaitReplies.get? parentPid)
  match pending with
  | none => pure false
  | some p => do
    let ret ← pendingWaitResult parentPid p
    match ret with
    | none => pure false
    | some ret => do
      modify fun w => { w with pendingWaitReplies := w.pendingWaitReplies.erase parentPid }
      modifySignal parentPid (·.clearWait4Block)
      replyAndFree p.replySlot ret
      pure true

/-- `do_wait4`. -/
def doWait4 (pid : Nat) (target : Int) (wstatus options : Nat) : M Int := do
  let task ← getProcess pid
  modifySignal pid (·.clearWait4Block)
  let callerPgid := task.processGroupId
  let event ← popChildEventMatching pid target options callerPgid
  match event with
  | some (reapedPid, status) => do
    onError (when (wstatus ≠ 0) (copyToUser pid wstatus (leBytes 4 status))) fun _ =>
      noteStale (·.exitTaken)
    clearProcessLifecycle reapedPid
    pure reapedPid
  | none => do
    let waitable ← gets (·.hasWaitableChild pid target options callerPgid)
    if !waitable then pure (-ECHILD)
    else if options &&& WNOHANG ≠ 0 then pure 0
    else do
      queueWait4Reply pid target wstatus options callerPgid
      modifySignal pid fun s => { s with wait4Blocked := some ⟨target, callerPgid⟩ }
      noteWaitIntr pid
      throw .success

/-! ### The end of a process -/

/-- `encode_wait_status`. -/
def encodeWaitStatus (exitCode : Nat) : Nat := exitCode % 256 * 256

/-- The frame slots of an address space, each once. -/
def MmState.frameSlots (mm : MmState) : List Nat :=
  (mm.memoryMaps.values.foldl
    (fun acc m => if m.frameCap = 0 then acc else acc.insert m.frameCap ()) OrdMap.empty).keys

/-- Unmap every entry of an address space. The outcomes are ignored. -/
def unmapAll (pid : Nat) (mm : MmState) : M Unit :=
  forEach mm.memoryMaps.values fun m =>
    when (m.pages ≠ 0) (ignore (unmapProcessPages pid m.vaddr m.pages))

/-- Release every frame of an address space. -/
def releaseAllFrames (pid : Nat) (mm : MmState) : M Unit :=
  forEach mm.frameSlots fun slot => releaseProcessFrameSlot pid slot

/-- The release of the CNode of a process. -/
def releaseCnode (pid : Nat) : M Unit := do
  let task ← gets (·.task? pid)
  whenSome task fun t => do
    let r ← attempt ext
    let released : Bool := match r with
      | .ok _ => true
      | .error e => e == .invalidCapability || e == .invalidSlot
    when released (cspaceFree t.cspace)

/-- `proc_client.kill` of the host process and the removal of its mapping. -/
def killHostProcess (pid : Nat) : M Unit := do
  let host ← gets (·.hostPidByLocal pid)
  whenSome host fun h => modify fun w => { w with hostPidMap := w.hostPidMap.erase h }

/-- The resumption of a parent that armed a `wait4` block without a deferred reply. -/
def resumeWait4Parent (parentPid childPid pgid : Nat) : M Unit := do
  let parent ← gets (·.task? parentPid)
  whenSome parent fun t =>
    when (t.signal.wait4BlockMatches childPid pgid) do
      modifySignal parentPid (·.clearWait4Block)
      ignore (tcbResume parentPid)

/-- The report of an exit to the parent. -/
def notifyParent (pid parentPid pgid exitCode : Nat) : M Unit :=
  if parentPid = 0 then pure ()
  else do
    markProcessExited pid parentPid pgid (encodeWaitStatus exitCode)
    recordChildExit parentPid pid (encodeWaitStatus exitCode) pgid
    let replied ← tryWakePendingWait4Reply parentPid
    when (¬ replied) do
      resumeWait4Parent parentPid pid pgid
      queueProcessSignal parentPid SIGCHLD

/-- The release of everything a process holds, up to the removal of its record. -/
def releaseProcess (pid : Nat) (task : TaskStruct) : M Unit := do
  modifyTask pid fun t => { t with lifecycle := .exiting }
  forEach task.files.fds.keys fun fd => ignore (doClose pid fd)
  unmapAll pid task.mm.state
  releaseAllFrames pid task.mm.state
  releaseCnode pid
  killHostProcess pid
  ignore (releaseProcessIntermediatePageTables pid)
  dropWait4Reply pid
  dropPendingSleepReply pid
  ledgerTakeProcess pid
  modify fun w => { w with tasks := w.tasks.erase pid }

/-- `terminate_process`. -/
def terminateProcess (pid exitCode : Nat) : M Unit := do
  let task ← getProcess pid
  releaseProcess pid task
  noteStale fun w => w.childEvents.contains pid || decide (task.parentPid = 0)
  emit (.terminated pid exitCode)
  notifyParent pid task.parentPid task.processGroupId exitCode
  if pid = 1 then do
    modify fun w => { w with panicked := true }
    throw .panicked
  else do
    let caller ← gets (·.activeCallerPid)
    when (caller = some pid) (throw .success)

/-! ### `fork` -/

/-- The table with the copy-on-write mark on the entry at `vaddr`. -/
def MmState.markCow (mm : MmState) (vaddr : Nat) : MmState :=
  { mm with memoryMaps := mm.memoryMaps.modify vaddr fun e => { e with cow := true } }

/-- The loop of `do_fork` over the entries of the parent. A writable entry is installed
read-only in the child, and in the parent too unless it is copy-on-write already. A frame is
retained once. -/
def forkMaps (pid childPid : Nat) : List MemoryMap → List Nat → M Unit
  | [], _ => pure ()
  | m :: rest, retained =>
    if m.frameCap = 0 ∨ m.pages = 0 then forkMaps pid childPid rest retained
    else do
      mapProcessFrame childPid m.frameCap m.vaddr
        (if m.flags.write then m.flags.removeWrite else m.flags) m.pages
      when (m.flags.write && !m.cow) do
        ignore (unmapProcessPages pid m.vaddr m.pages)
        onError (mapProcessFrame pid m.frameCap m.vaddr m.flags.removeWrite m.pages) fun _ =>
          ignore (unmapProcessPages childPid m.vaddr m.pages)
      when (m.frameCap ∉ retained) (retainFrameCap m.frameCap)
      when m.flags.write (modifyMm pid (·.markCow m.vaddr))
      forkMaps pid childPid rest (m.frameCap :: retained)

/-- An entry of the child. -/
def forkedEntry (m : MemoryMap) : MemoryMap :=
  if m.frameCap = 0 ∨ m.pages = 0 then m else { m with cow := m.cow || m.flags.write }

/-- The tables of the child. -/
def MmState.forked (mm : MmState) : MmState :=
  { mm with
    memoryMaps := mm.memoryMaps.values.foldl
      (fun maps m => maps.insert m.vaddr (forkedEntry m)) OrdMap.empty
    lazyMemoryMaps := mm.lazyMemoryMaps.values.foldl
      (fun maps m => maps.insert m.vaddr m) OrdMap.empty }

/-- What a child takes over from its parent. -/
def TaskStruct.inherit (child parent : TaskStruct) : TaskStruct :=
  let t := { child with
    fs := parent.fs
    files := parent.files
    sessionId := parent.sessionId
    processGroupId := parent.processGroupId
    controllingTty := parent.controllingTty
    mm := { child.mm with state := parent.mm.state.forked }
    signalActions := parent.signalActions
    signal := { child.signal.setBlocked parent.signal.signalBlocked with
      signalPending := 0, clearChildTid := parent.signal.clearChildTid } }
  if parent.stopped then t.markStopped else t.markRunning

/-- The state in which `child` has taken over what it inherits from `parent`, the process `pid`. -/
def World.inherited (w : World) (child : Nat) (parent : TaskStruct) (pid : Nat) : World :=
  { w.modifyTask child (·.inherit parent) with
    cloexecLog := .inherited child pid :: w.cloexecLog
    fileMapLog := .inherited child pid :: w.fileMapLog }

/-- What follows the registration of the child in `do_fork`. -/
def forkInto (pid childPid : Nat) : M Nat := do
  let parent ← getProcess pid
  forkMaps pid childPid parent.mm.state.memoryMaps.values []
  let _ ← getProcess childPid
  modify (·.inherited childPid parent pid)
  when parent.stopped do
    markStopSkewed
    logStop (.changed pid childPid true)
  let _ ← getProcess pid
  let _ ← getProcess childPid
  let _ ← ext
  let _ ← ext
  tcbResume childPid
  pure childPid

/-- `do_fork`. -/
def doFork (pid : Nat) : M Nat := do
  let host ← ext
  let cnodeSlot ← cspaceAlloc
  let _ ← ext
  let childPid ← registerProcess pid host.val cnodeSlot
  forkInto pid childPid

def CLONE_VM : Nat := 0x100
def CLONE_VFORK : Nat := 0x4000
def CLONE_PARENT_SETTID : Nat := 0x100000
def CLONE_CHILD_CLEARTID : Nat := 0x200000
def CLONE_CHILD_SETTID : Nat := 0x1000000

/-- `do_clone`. -/
def doClone (pid flags ptid ctid : Nat) : M Int :=
  let cloneFlags := flags / 256 * 256
  if cloneFlags ≠ 0 ∧ cloneFlags ≠ CLONE_VM ||| CLONE_VFORK then pure (-ENOSYS)
  else do
    let childPid ← doFork pid
    when (cloneFlags &&& CLONE_PARENT_SETTID ≠ 0 ∧ ptid ≠ 0)
      (copyToUser pid ptid (leBytes 8 childPid))
    when (cloneFlags &&& (CLONE_CHILD_CLEARTID ||| CLONE_CHILD_SETTID) ≠ 0)
      (modifySignal childPid fun s => { s with clearChildTid := ctid })
    pure childPid

/-- `do_set_tid_address`. -/
def doSetTidAddress (pid tidptr : Nat) : M Nat := do
  let _ ← getProcess pid
  modifySignal pid fun s => { s with clearChildTid := tidptr }
  pure pid

/-! ### Job control -/

/-- `do_setsid`. -/
def doSetsid (pid : Nat) : M Nat := do
  let task ← getProcess pid
  if task.processGroupId = pid then throw .permissionDenied
  else do
    modifyTask pid fun t => { t with sessionId := pid, processGroupId := pid, controllingTty := 0 }
    pure pid

/-- `do_setpgid`. -/
def doSetpgid (pid target pgid : Nat) : M Int := do
  let targetPid := if target = 0 then pid else target
  let caller ← getProcess pid
  let task ← getProcess targetPid
  if targetPid ≠ pid ∧ (task.parentPid ≠ pid ∨ task.sessionId ≠ caller.sessionId) then
    throw .permissionDenied
  else do
    let newPgid := if pgid = 0 then task.pid else pgid
    when (newPgid ≠ targetPid) do
      let leader ← getProcess newPgid
      when (leader.sessionId ≠ task.sessionId) (throw .permissionDenied)
    if targetPid = pid ∧ newPgid = caller.processGroupId then pure 0
    else do
      modifyTask targetPid fun t => { t with processGroupId := newPgid }
      pure 0

/-- The pids of the processes in a group. -/
def World.groupMembers (w : World) (pgid : Nat) : List Nat :=
  w.tasks.keys.filter fun pid => (w.task? pid).any fun t => t.processGroupId = pgid

/-- The targets of `do_kill`. -/
def World.killTargets (w : World) (caller : Nat) (target : Int) : List Nat :=
  if 0 < target then w.tasks.keys.filter fun pid => (pid : Int) = target
  else if target = 0 then
    w.groupMembers (((w.task? caller).map (·.processGroupId)).getD caller)
  else if target = -1 then w.tasks.keys
  else w.groupMembers target.natAbs

/-- `SIGKILL` to the targets, the caller last. -/
def killImmediate (caller : Nat) (targets : List Nat) : M Unit := do
  forEach (targets.filter (· ≠ caller)) fun t => terminateProcess t (getExitCodeForSignal SIGKILL)
  when (caller ∈ targets) (terminateProcess caller (getExitCodeForSignal SIGKILL))

/-- The stop signals that an arriving `SIGCONT` clears. -/
def stopSignals : List Nat := [SIGSTOP, SIGTSTP, SIGTTIN, SIGTTOU]

/-- `signal_pending.fetch_and(!bit)` for one stop signal. -/
def discardStop (pid signum : Nat) : M Unit := do
  let task ← gets (·.task? pid)
  whenSome task fun t => do
    modifySignal pid (·.clearPending (signum - 1))
    when (t.signal.signalPending.getLsbD (signum - 1)) (emit (.discarded pid signum))

/-- `SIGCONT` to one target. -/
def killCont (pid : Nat) : M Unit := do
  let task ← gets (·.task? pid)
  whenSome task fun _ => do
    forEach stopSignals fun signum => discardStop pid signum
    setStopped pid false
  whenSome task fun t =>
    when (t.parentPid ≠ 0 ∧ t.stopped = true)
      (recordChildContinued t.parentPid pid t.processGroupId)
  queueProcessSignal pid SIGCONT
  let task ← gets (·.task? pid)
  whenSome task fun _ => ignore (tcbResume pid)

/-- A stop signal to one target. -/
def killStop (caller pid signum : Nat) : M Unit := do
  let task ← gets (·.task? pid)
  queueProcessSignal pid signum
  let now ← gets (·.task? pid)
  whenSome now fun _ =>
    when (pid ≠ caller) do
      ignore (tcbSuspend pid)
      setStopped pid true
  whenSome task fun t =>
    when (t.parentPid ≠ 0 ∧ t.stopped = false) do
      when (pid = caller) markStopSkewed
      recordChildStopped t.parentPid pid (encodeWaitStoppedStatus signum) t.processGroupId

/-- What `do_kill` does with a signal for its targets. -/
def sendSignal (caller : Nat) (targets : List Nat) (signum : Nat) : M Unit :=
  if signum = SIGKILL then killImmediate caller targets
  else if signum = SIGCONT then forEach targets killCont
  else if defaultStopSignal signum then forEach targets fun t => killStop caller t signum
  else forEach targets fun t => queueProcessSignal t signum

/-- `do_kill`. -/
def doKill (caller : Nat) (target sig : Int) : M Int :=
  if sig < 0 ∨ (SIGNAL_MAX : Int) < sig then pure (-EINVAL)
  else do
    let targets ← gets (·.killTargets caller target)
    if targets = [] then pure (-ESRCH)
    else if sig = 0 then pure 0
    else do
      sendSignal caller targets sig.toNat
      pure 0

end Ape
