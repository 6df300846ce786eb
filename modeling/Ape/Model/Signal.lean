import Ape.Model.Files

/-!
# `Ape.Model.Signal`: pending signals, their delivery, and the calls that wait

`ape/signal.rs`, `system/signal.rs`, `system/poll.rs`, `do_nanosleep` and the sleep replies
of `ape/async_runtime.rs`. The server holds its lock through a whole request, so the atomic
operations on the pending set are plain updates.

The loops of `rt_sigtimedwait` and `ppoll` poll the clock of a service. They are followed for
`rounds` rounds and are `stalled` after that.
-/

set_option autoImplicit false

namespace Ape

open Ape.Lib Cmd

/-! ### Constants of `linux_raw_sys` -/

def SIGILL : Nat := 4
def SIGTRAP : Nat := 5
def SIGBUS : Nat := 7
def SIGKILL : Nat := 9
def SIGSEGV : Nat := 11
def SIGCHLD : Nat := 17
def SIGCONT : Nat := 18
def SIGSTOP : Nat := 19
def SIGTSTP : Nat := 20
def SIGTTIN : Nat := 21
def SIGTTOU : Nat := 22
def SIGURG : Nat := 23
def SIGWINCH : Nat := 28
def SA_RESTART : Nat := 0x10000000
def SIG_BLOCK : Nat := 0
def SIG_UNBLOCK : Nat := 1
def SIG_SETMASK : Nat := 2
def ESRCH : Int := 3
def EINTR : Int := 4
def ECHILD : Int := 10
def EAGAIN : Int := 11
def EINVAL : Int := 22
def ENOSYS : Int := 38
def POLLNVAL : Nat := 0x20

/-- `SIGNAL_MAX`. -/
def SIGNAL_MAX : Nat := 64

/-- `SIGNAL_UNBLOCKABLE_MASK`. -/
def SIGNAL_UNBLOCKABLE_MASK : SigSet := 1#64 <<< (SIGKILL - 1) ||| 1#64 <<< (SIGSTOP - 1)

/-- `SIG_DFL_HANDLER`. -/
def SIG_DFL_HANDLER : Nat := 0

/-- `SIG_IGN_HANDLER`. -/
def SIG_IGN_HANDLER : Nat := 1

/-- `NSEC_PER_SEC`. -/
def NSEC_PER_SEC : Nat := 1000000000

/-- `SIGNAL_WAIT_FALLBACK_NS`. -/
def SIGNAL_WAIT_FALLBACK_NS : Nat := 2 * NSEC_PER_SEC

/-- `get_exit_code_for_signal`. -/
def getExitCodeForSignal (signum : Nat) : Nat := 128 + signum

/-- `encode_wait_stopped_status`. -/
def encodeWaitStoppedStatus (signum : Nat) : Nat := signum * 256 ||| 0x7f

/-- `default_ignored_signal`. -/
def defaultIgnoredSignal (signum : Nat) : Bool :=
  signum == SIGCHLD || signum == SIGURG || signum == SIGWINCH

/-- `default_stop_signal`, which is also `is_stop_signal` of `task/job.rs`. -/
def defaultStopSignal (signum : Nat) : Bool :=
  signum == SIGSTOP || signum == SIGTSTP || signum == SIGTTIN || signum == SIGTTOU

/-! ### The signal state of a process -/

/-- `signal_bit`. -/
def signalBit (signum : Nat) : Option SigSet :=
  if 1 ≤ signum ∧ signum ≤ SIGNAL_MAX then some (1#64 <<< (signum - 1)) else none

/-- The number of the lowest signal of a set, by its bit: `trailing_zeros`. -/
def SigSet.lowest? (s : SigSet) : Option Nat := (List.range 64).find? fun i => s.getLsbD i

namespace SignalStruct

/-- `set_blocked`. -/
def setBlocked (s : SignalStruct) (mask : SigSet) : SignalStruct :=
  { s with signalBlocked := mask &&& ~~~SIGNAL_UNBLOCKABLE_MASK }

/-- The pending signals that are not blocked. -/
def deliverable (s : SignalStruct) : SigSet := s.signalPending &&& ~~~s.signalBlocked

/-- `queue_signal` of a valid signal. -/
def queueSignal (s : SignalStruct) (bit : SigSet) : SignalStruct :=
  { s with signalPending := s.signalPending ||| bit }

/-- The state without the pending signal of bit `idx`. -/
def clearPending (s : SignalStruct) (idx : Nat) : SignalStruct :=
  { s with signalPending := s.signalPending &&& ~~~(1#64 <<< idx) }

/-- `restore_mask_from_sigsuspend_wait`, when a mask was saved. -/
def restoreMask (s : SignalStruct) : SignalStruct :=
  match s.sigsuspendSavedMask with
  | some old => { s with
      sigsuspendSavedMask := none, signalBlocked := old &&& ~~~SIGNAL_UNBLOCKABLE_MASK }
  | none => s

/-- `wait4_block_matches`. -/
def wait4BlockMatches (s : SignalStruct) (childPid childPgid : Nat) : Bool :=
  match s.wait4Blocked with
  | some r => matchesWaitTarget childPid childPgid r.targetPid r.callerPgid
  | none => false

end SignalStruct

/-- `signal_action`. -/
def TaskStruct.signalAction (t : TaskStruct) (signum : Nat) : SignalAction :=
  (t.signalActions.get? signum).getD SignalAction.default

/-- The action discards the signal. -/
def SignalAction.ignores (a : SignalAction) (signum : Nat) : Bool :=
  a.handler = SIG_IGN_HANDLER || (a.handler = SIG_DFL_HANDLER && defaultIgnoredSignal signum)

/-- A pending signal that is not blocked and not ignored. -/
def TaskStruct.interruptible (t : TaskStruct) : Bool := (List.range 64).any fun i =>
  t.signal.deliverable.getLsbD i && !(t.signalAction (i + 1)).ignores (i + 1)

/-- Mark a process that has a deferred `wait4` and a signal that ought to interrupt it. -/
def noteWaitIntr (pid : Nat) : M Unit := modify fun w => { w with
  missedIntr := w.missedIntr
    || (w.pendingWaitReplies.contains pid && (w.task? pid).any (·.interruptible)) }

/-- Change the signal state of a process. -/
def modifySignal (pid : Nat) (f : SignalStruct → SignalStruct) : M Unit :=
  modify (·.modifySignal pid f)

/-- `pop_pending_signal_from_mask` on the signals of a process. -/
def popPendingSignalFromMask (pid : Nat) (mask : SigSet) : M (Option Nat) := do
  let task ← getProcess pid
  match SigSet.lowest? (task.signal.signalPending &&& mask) with
  | none => pure none
  | some idx => do
    modifySignal pid (·.clearPending idx)
    emit (.dequeued pid (idx + 1) (task.signalAction (idx + 1)))
    pure (some (idx + 1))

/-! ### Requests to a thread -/

/-- `tcb.suspend()`. -/
def tcbSuspend (pid : Nat) : M Unit := do
  let _ ← ext
  emit (.suspended pid)

/-- `tcb.resume()`. -/
def tcbResume (pid : Nat) : M Unit := do
  let _ ← ext
  emit (.resumed pid)

/-- `tcb.deliver_upcall(handler, signum, 0, 0, 0)`. -/
def tcbDeliverUpcall (pid handler signum : Nat) : M Unit := do
  let _ ← ext
  emit (.upcall pid handler signum)

/-! ### Time and user values -/

/-- `time_client.mono_now`. -/
def monoNow : M Nat := do
  let a ← ext
  pure (a.val % 2 ^ 64)

/-- `__kernel_timespec`, with the two words as they are read. -/
structure Timespec where
  tvSec : Nat
  tvNsec : Nat
  deriving DecidableEq

/-- `read_user_timespec`. -/
def readUserTimespec (pid ptr : Nat) : M Timespec := do
  let raw ← copyFromUser pid ptr 16
  pure ⟨leNat (raw.take 8), leNat (raw.drop 8)⟩

/-- The bytes of a timespec in user memory. -/
def Timespec.bytes (ts : Timespec) : List UInt8 := leBytes 8 ts.tvSec ++ leBytes 8 ts.tvNsec

/-- `ns_to_timespec`. -/
def nsToTimespec (ns : Nat) : Timespec := ⟨ns / NSEC_PER_SEC, ns % NSEC_PER_SEC⟩

/-- `timespec_to_ns`. A word from `2 ^ 63` on is a negative `i64`. -/
def timespecToNs (ts : Timespec) : Except Err Nat :=
  if 2 ^ 63 ≤ ts.tvSec ∨ NSEC_PER_SEC ≤ ts.tvNsec then .error .invalidArgs
  else if ts.tvSec * NSEC_PER_SEC + ts.tvNsec < 2 ^ 64 then
    .ok (ts.tvSec * NSEC_PER_SEC + ts.tvNsec)
  else .error .outOfMemory

/-- `import_sigset`. -/
def importSigset (pid ptr sigsetsize : Nat) : M SigSet :=
  if sigsetsize ≠ 8 then throw .invalidArgs
  else if ptr = 0 then throw .invalidAddress
  else do
    let raw ← copyFromUser pid ptr 8
    pure (BitVec.ofNat 64 (leNat raw))

/-- `mgr.copy_to_user(pid, ptr, &export_sigset(mask, 8))`. -/
def exportSigset (pid ptr : Nat) (mask : SigSet) : M Unit :=
  copyToUser pid ptr (leBytes 8 mask.toNat)

/-! ### Sleep replies -/

/-- The value of a reply that stores bytes first: `ret`, or the error number of a failed
store. -/
def storeForReply (pid ptr : Nat) (bytes : List UInt8) (ret : Int) : M Int :=
  if ptr = 0 then pure ret
  else do
    let r ← attempt (copyToUser pid ptr bytes)
    let errno ← gets (·.mapErrorToErrno)
    match r with
    | .ok _ => pure ret
    | .error e => pure (errno e)

/-- `reply_pending_sleep`, with the error of the final reply dropped as by its callers. -/
def replyPendingSleep (pid : Nat) (p : PendingSleepReply) (ret : Int) (remainNs : Nat) :
    M Unit := do
  let final ← storeForReply pid p.remPtr (nsToTimespec remainNs).bytes ret
  replyAndFree p.replySlot final
  logSleep (.finished pid p.requestId p.replySlot)

/-- `interrupt_pending_sleep_reply`. -/
def interruptPendingSleepReply (pid : Nat) : M Unit := do
  let pending ← gets (·.pendingSleepReplies.get? pid)
  whenSome pending fun p => do
    modify fun w => { w with pendingSleepReplies := w.pendingSleepReplies.erase pid }
    let now ← attempt monoNow
    let now := match now with
      | .ok n => n
      | .error _ => 0
    replyPendingSleep pid p (-EINTR) (p.deadlineNs - now)

/-- `complete_sleep_reply`. -/
def completeSleepReply (pid requestId : Nat) : M Unit := do
  let pending ← gets (·.pendingSleepReplies.get? pid)
  whenSome pending fun p =>
    if p.requestId ≠ requestId then pure ()
    else do
      modify fun w => { w with pendingSleepReplies := w.pendingSleepReplies.erase pid }
      replyPendingSleep pid p 0 0

/-- The milliseconds that the timer gets, `max(1, req_ns.div_ceil(1_000_000))`. -/
def sleepMs (reqNs : Nat) : Nat := max 1 ((reqNs + 999999) / 1000000)

/-- `schedule_nanosleep_async`. The executor's completion arrives as a request of its own. -/
def scheduleNanosleepAsync (pid reqNs remPtr : Nat) : M Unit := do
  let now ← monoNow
  let slot ← reservePendingReplySlot
  let requestId ← gets (·.nextRequestId)
  modify fun w => { w with
    nextRequestId := satAdd requestId 1
    idSaturated := w.idSaturated || decide (usizeMax ≤ requestId)
    pendingSleepReplies :=
      w.pendingSleepReplies.insert pid ⟨slot, remPtr, satAdd now reqNs, requestId⟩ }
  logSleep (.started pid requestId slot reqNs (sleepMs reqNs))

/-- `has_deliverable_signal`. -/
def World.hasDeliverableSignal (w : World) (pid : Nat) : Bool :=
  match w.task? pid with
  | some t => t.signal.deliverable != 0
  | none => false

/-- `do_nanosleep`. -/
def doNanosleep (pid req rem : Nat) : M Int :=
  if req = 0 then throw .invalidAddress
  else do
    let ts ← readUserTimespec pid req
    match timespecToNs ts with
    | .error _ => throw .invalidArgs
    | .ok 0 => do
      when (rem ≠ 0) (copyToUser pid rem (Timespec.mk 0 0).bytes)
      pure 0
    | .ok ns => do
      let signalled ← gets (·.hasDeliverableSignal pid)
      if signalled then do
        when (rem ≠ 0) (copyToUser pid rem ts.bytes)
        pure (-EINTR)
      else do
        scheduleNanosleepAsync pid ns rem
        throw .success

/-! ### Queueing and delivery -/

/-- The wake-up of `queue_process_signal` from a `rt_sigsuspend`. -/
def wakeFromSigsuspend (pid : Nat) : M Unit := do
  let task ← gets (·.task? pid)
  whenSome task fun t =>
    when (t.signal.sigsuspendSavedMask.isSome ∧ t.signal.deliverable ≠ 0) do
      modifySignal pid (·.restoreMask)
      ignore (tcbResume pid)

/-- `queue_process_signal`. No caller uses its result. -/
def queueProcessSignal (pid signum : Nat) : M Unit := do
  let task ← gets (·.task? pid)
  whenSome task fun t =>
    whenSome (signalBit signum) fun bit => do
      modifySignal pid (·.queueSignal bit)
      emit (.queued pid signum)
      let s := t.signal.queueSignal bit
      when (s.deliverable ≠ 0) (interruptPendingSleepReply pid)
      when (s.sigsuspendSavedMask.isSome ∧ s.deliverable ≠ 0) (wakeFromSigsuspend pid)
      noteWaitIntr pid

/-- `PendingSignalAction`. -/
inductive PendingSignalAction where
  | none
  | interrupt (restart : Bool)
  | terminate (exitCode : Nat)
  deriving DecidableEq

/-- The default action of a stop signal on a syscall return. -/
def deliverStop (pid signum : Nat) : M PendingSignalAction := do
  let task ← getProcess pid
  let r ← attempt (tcbSuspend pid)
  when (¬ r.isOk) markSignalDropped
  when r.isOk (setStopped pid true)
  when (task.parentPid ≠ 0 ∧ task.stopped = false) do
    when (¬ r.isOk) markStopSkewed
    recordChildStopped task.parentPid pid (encodeWaitStoppedStatus signum) task.processGroupId
  pure (.interrupt false)

/-- The default action of `SIGCONT` on a syscall return. -/
def deliverCont (pid : Nat) : M PendingSignalAction := do
  let task ← getProcess pid
  let r ← attempt (tcbResume pid)
  when (¬ r.isOk) markSignalDropped
  when r.isOk (setStopped pid false)
  when (task.parentPid ≠ 0 ∧ task.stopped = true) do
    when (¬ r.isOk) markStopSkewed
    recordChildContinued task.parentPid pid task.processGroupId
  pure .none

/-- What a syscall return does with a dequeued signal, by its action. -/
def deliverSignal (pid signum : Nat) (action : SignalAction) : M PendingSignalAction :=
  if action.handler = SIG_IGN_HANDLER then pure .none
  else if action.handler ≠ SIG_DFL_HANDLER then do
    let _ ← getProcess pid
    let r ← attempt (tcbDeliverUpcall pid action.handler signum)
    when (¬ r.isOk) markSignalDropped
    pure (.interrupt (action.flags &&& SA_RESTART != 0))
  else if defaultIgnoredSignal signum then pure .none
  else if defaultStopSignal signum then deliverStop pid signum
  else if signum = SIGCONT then deliverCont pid
  else pure (.terminate (getExitCodeForSignal signum))

/-- `consume_deliverable_signal_on_syscall_return`. -/
def consumeDeliverableSignalOnSyscallReturn (pid : Nat) : M PendingSignalAction := do
  let task ← gets (·.task? pid)
  match task with
  | none => pure .none
  | some t => do
    let signum ← popPendingSignalFromMask pid t.signal.deliverable
    match signum with
    | none => pure .none
    | some signum => deliverSignal pid signum (t.signalAction signum)

/-! ### The signal syscalls -/

/-- `is_valid_signal`. -/
def isValidSignal (signum : Nat) : Bool := 1 ≤ signum && signum ≤ SIGNAL_MAX

/-- `has_valid_sigset_size`. -/
def hasValidSigsetSize (sigsetsize : Nat) : Bool := sigsetsize == 8

/-- `read_sigaction`, with a signal set of eight bytes. -/
def readSigaction (pid act : Nat) : M SignalAction := do
  let raw ← copyFromUser pid act 32
  pure ⟨leNat (raw.take 8), leNat ((raw.drop 8).take 8), leNat ((raw.drop 16).take 8),
    BitVec.ofNat 64 (leNat (raw.drop 24))⟩

/-- The bytes of `write_sigaction`. -/
def SignalAction.bytes (a : SignalAction) : List UInt8 :=
  leBytes 8 a.handler ++ leBytes 8 a.flags ++ leBytes 8 a.restorer ++ leBytes 8 a.mask.toNat

/-- `do_rt_sigaction`. -/
def doRtSigaction (pid signum act oldact sigsetsize : Nat) : M Int :=
  if !isValidSignal signum || !hasValidSigsetSize sigsetsize then pure (-EINVAL)
  else do
    when (oldact ≠ 0) do
      let task ← getProcess pid
      copyToUser pid oldact (task.signalAction signum).bytes
    if act = 0 then pure 0
    else if signum = SIGKILL ∨ signum = SIGSTOP then pure (-EINVAL)
    else do
      let action ← readSigaction pid act
      let _ ← getProcess pid
      modifyTask pid fun t => { t with
        signalActions := t.signalActions.insert signum
          { action with mask := action.mask &&& ~~~SIGNAL_UNBLOCKABLE_MASK } }
      pure 0

/-- The new mask of `do_rt_sigprocmask`, if `how` is valid. -/
def procmask (how : Nat) (blocked set : SigSet) : Option SigSet :=
  if how % 2 ^ 32 = SIG_BLOCK then some (blocked ||| set)
  else if how % 2 ^ 32 = SIG_UNBLOCK then some (blocked &&& ~~~set)
  else if how % 2 ^ 32 = SIG_SETMASK then some set
  else none

/-- The end of `do_rt_sigprocmask`. -/
def storeOldMask (pid oldset : Nat) (old : SigSet) : M Int := do
  when (oldset ≠ 0) (exportSigset pid oldset old)
  pure 0

/-- `do_rt_sigprocmask`. -/
def doRtSigprocmask (pid how set oldset sigsetsize : Nat) : M Int :=
  if !hasValidSigsetSize sigsetsize then pure (-EINVAL)
  else do
    let old ← (if oldset ≠ 0 then do
        let task ← getProcess pid
        pure task.signal.signalBlocked
      else pure 0)
    if set = 0 then storeOldMask pid oldset old
    else do
      let setMask ← importSigset pid set sigsetsize
      let task ← getProcess pid
      match procmask how task.signal.signalBlocked setMask with
      | none => pure (-EINVAL)
      | some mask => do
        modifySignal pid (·.setBlocked mask)
        storeOldMask pid oldset old

/-- `do_rt_sigpending`. -/
def doRtSigpending (pid set sigsetsize : Nat) : M Int :=
  if !hasValidSigsetSize sigsetsize then pure (-EINVAL)
  else if set = 0 then throw .invalidAddress
  else do
    let task ← getProcess pid
    exportSigset pid set (task.signal.signalPending &&& task.signal.signalBlocked)
    pure 0

/-- `parse_timeout_deadline` of `system/signal.rs`. -/
def parseTimeoutDeadline (pid timeout : Nat) : M Nat := do
  let now ← monoNow
  if timeout = 0 then pure (satAdd now SIGNAL_WAIT_FALLBACK_NS)
  else do
    let ts ← readUserTimespec pid timeout
    let ns ← ofExcept (timespecToNs ts)
    pure (satAdd now ns)

/-- The loop of `do_rt_sigtimedwait`: the signal, or none at the deadline. -/
def sigtimedwaitLoop (pid : Nat) (waitMask : SigSet) (deadline : Nat) : Nat → M (Option Nat)
  | 0 => throw .stalled
  | rounds + 1 => do
    let candidate ← popPendingSignalFromMask pid waitMask
    match candidate with
    | some signum => pure (some signum)
    | none => do
      let now ← monoNow
      if deadline ≤ now then pure none
      else do
        ignore (do let _ ← ext)
        sigtimedwaitLoop pid waitMask deadline rounds

/-- The stores of `do_rt_sigtimedwait` into the caller's `siginfo`. -/
def storeSiginfo (pid info signum : Nat) : M Unit :=
  if info = 0 then pure ()
  else do
    copyToUser pid info (leBytes 4 signum)
    let tail ← getSome (checkedAdd info 4) .outOfMemory
    writeZerosToUser pid tail 124

/-- `do_rt_sigtimedwait`. -/
def doRtSigtimedwait (pid set info timeout sigsetsize : Nat) : M Int :=
  if !hasValidSigsetSize sigsetsize then pure (-EINVAL)
  else do
    let waitMask ← importSigset pid set sigsetsize
    if waitMask = 0 then pure (-EAGAIN)
    else do
      let r ← attempt (parseTimeoutDeadline pid timeout)
      match r with
      | .error _ => throw .invalidArgs
      | .ok deadline => do
        let rounds ← gets (·.rounds)
        let signum ← sigtimedwaitLoop pid waitMask deadline rounds
        match signum with
        | none => pure (-EAGAIN)
        | some signum => do
          onError (storeSiginfo pid info signum) fun _ => markSignalDropped
          emit (.returned pid signum)
          pure signum

/-- `do_rt_sigsuspend`. -/
def doRtSigsuspend (pid mask sigsetsize : Nat) : M Int :=
  if !hasValidSigsetSize sigsetsize then pure (-EINVAL)
  else do
    let suspendMask ← importSigset pid mask sigsetsize
    let task ← getProcess pid
    let old := task.signal.signalBlocked
    modifySignal pid (·.setBlocked (suspendMask &&& ~~~SIGNAL_UNBLOCKABLE_MASK))
    let task ← getProcess pid
    let observed ← popPendingSignalFromMask pid task.signal.deliverable
    match observed with
    | some signum => do
      when (¬ (task.signalAction signum).ignores signum) markSignalDropped
      modifySignal pid (·.setBlocked old)
      pure (-EINTR)
    | none => do
      modifySignal pid fun s => { s with sigsuspendSavedMask := some old }
      let _ ← getProcess pid
      let r ← attempt (tcbSuspend pid)
      when (¬ r.isOk) (modifySignal pid (·.restoreMask))
      pure (-EINTR)

/-- `do_rt_sigreturn`. -/
def doRtSigreturn (pid : Nat) : M Int := do
  modifySignal pid (·.restoreMask)
  pure 0

/-! ### `ppoll` -/

/-- `poll_fd_once`. The handle is not changed by a poll. -/
def pollFdOnce (pid fd : Nat) : M Nat := do
  let task ← getProcess pid
  let _ ← getSome (task.files.fds.get? fd) .invalidSlot
  let a ← ext
  pure (a.val % 2 ^ 32)

/-- The answer of `poll_scan_once` for one descriptor: `revents`, and whether it counts as
ready. A word from `2 ^ 31` on is a negative descriptor. -/
def pollRevents (pid fd : Nat) : M (Nat × Bool) :=
  if 2 ^ 31 ≤ fd then pure (0, false)
  else do
    let task ← getProcess pid
    if !task.files.fds.contains fd then pure (POLLNVAL, true)
    else do
      let revents ← pollFdOnce pid fd
      pure (revents % 2 ^ 16, revents != 0)

/-- The loop of `poll_scan_once` over the entries that are left. -/
def pollScanLoop (pid fdsPtr : Nat) : List Nat → Nat → M Nat
  | [], ready => pure ready
  | i :: rest, ready => do
    let p ← getSome (checkedAdd fdsPtr (i * 8)) .invalidAddress
    let raw ← copyFromUser pid p 8
    let r ← pollRevents pid (leNat (raw.take 4))
    copyToUser pid p (raw.take 6 ++ leBytes 2 r.1)
    pollScanLoop pid fdsPtr rest (if r.2 then ready + 1 else ready)

/-- `parse_timeout_deadline` of `system/poll.rs`. -/
def parsePollDeadline (pid timeout : Nat) : M (Option Nat) :=
  if timeout = 0 then pure none
  else do
    let ts ← readUserTimespec pid timeout
    let ns ← ofExcept (timespecToNs ts)
    let now ← monoNow
    pure (some (satAdd now ns))

/-- The loop of `do_ppoll`. -/
def ppollLoop (pid fdsPtr nfds : Nat) (deadline : Option Nat) : Nat → M Int
  | 0 => throw .stalled
  | rounds + 1 => do
    let ready ← pollScanLoop pid fdsPtr (List.range nfds) 0
    if 0 < ready then pure ready
    else do
      let signalled ← gets (·.hasDeliverableSignal pid)
      if signalled then pure (-EINTR)
      else do
        let now ← monoNow
        if deadline.any (· ≤ now) then pure 0
        else do
          let _ ← ext
          ppollLoop pid fdsPtr nfds deadline rounds

/-- The body of `do_ppoll` under the temporary mask. -/
def ppollBody (pid fdsPtr nfds timeout : Nat) : M Int := do
  let r ← attempt (parsePollDeadline pid timeout)
  match r with
  | .error _ => throw .invalidArgs
  | .ok deadline => do
    let rounds ← gets (·.rounds)
    ppollLoop pid fdsPtr nfds deadline rounds

/-- `do_ppoll`. The mask is put back whatever the outcome of the body is. -/
def doPpoll (pid fdsPtr nfds timeout sigmask sigsetsize : Nat) : M Int :=
  if nfds = 0 then pure 0
  else if fdsPtr = 0 then throw .invalidAddress
  else if 4096 < nfds then throw .invalidArgs
  else if sigmask = 0 then ppollBody pid fdsPtr nfds timeout
  else if !hasValidSigsetSize sigsetsize then pure (-EINVAL)
  else do
    let task ← getProcess pid
    let tempMask ← importSigset pid sigmask sigsetsize
    modifySignal pid (·.setBlocked tempMask)
    let r ← attempt (ppollBody pid fdsPtr nfds timeout)
    modifySignal pid (·.setBlocked task.signal.signalBlocked)
    ofExcept r

end Ape
