import Ape.Model.Fault
import Ape.Model.Fd
import Mathlib.Data.Set.Finite.Basic

/-!
# `Ape.Model.Syscall`: requests, and the runs of the server

`syscall/dispatch.rs`, `handle_syscall`, the dispatch loop of `ape/server.rs` and the start of
`init` in `ape/bootstrap.rs`. `Syscall` has the decoded calls. The calls that are not modelled
one by one reach the memory of a process only through `copy_from_user` and `copy_to_user`,
and are `userRead` and `userWrite`.

`Reachable w` holds of the states at a request boundary: after `load_init`, and after every
request whose handler returned to the dispatch loop. `ReachableBy ok w` holds of those that a run
reaches whose requests all meet the condition `ok`.
-/

set_option autoImplicit false

namespace Ape

open Ape.Lib Cmd

/-- `FutexOpClass` of `libape`. -/
inductive FutexOpClass where
  | wake | wait | other
  deriving DecidableEq, Repr

/-- A decoded syscall with its arguments. -/
inductive Syscall where
  | read (fd buf len : Nat)
  | write (fd buf len : Nat)
  | readv (fd iov count : Nat)
  | writev (fd iov count : Nat)
  | close (fd : Nat)
  | openat (pathname flags : Nat)
  | lseek (fd offset whence : Nat)
  | fcntl (fd cmd arg : Nat)
  | dup (fd : Nat)
  | dup3 (oldfd newfd flags : Nat)
  | pipe2 (pipefd flags : Nat)
  | wait4 (target : Int) (wstatus options : Nat)
  | clone (flags ptid ctid : Nat)
  | exit (code : Nat)
  | kill (target sig : Int)
  | setsid
  | setpgid (target pgid : Nat)
  | setTidAddress (tidptr : Nat)
  | brk (addr : Nat)
  | mmap (addr len prot flags fd offset : Nat)
  | munmap (addr len : Nat)
  | mprotect (addr len prot : Nat)
  | mremap (oldAddr oldSize newSize flags newAddr : Nat)
  | execve (filename argv envp : Nat)
  | rtSigaction (signum act oldact sigsetsize : Nat)
  | rtSigprocmask (how set oldset sigsetsize : Nat)
  | rtSigpending (set sigsetsize : Nat)
  | rtSigtimedwait (set info timeout sigsetsize : Nat)
  | rtSigsuspend (mask sigsetsize : Nat)
  | rtSigreturn
  | nanosleep (req rem : Nat)
  | ppoll (fds nfds timeout sigmask sigsetsize : Nat)
  | futex (op : FutexOpClass)
  | userRead (addr len : Nat)
  | userWrite (addr : Nat) (bytes : List UInt8)
  deriving DecidableEq

/-- `is_restartable_syscall`. -/
def Syscall.isRestartable : Syscall → Bool
  | .read .. | .write .. | .readv .. | .writev .. | .wait4 .. | .nanosleep .. | .ppoll ..
  | .futex .. => true
  | _ => false

/-- `do_futex`. -/
def doFutex : FutexOpClass → Int
  | .wake => 0
  | .wait => -EAGAIN
  | .other => 0

/-- `route_syscall`. The protection and flag words are cut to `u32`. -/
def routeSyscall (pid : Nat) : Syscall → M Int
  | .read fd buf len => do return asIsize (← doRead pid fd buf len)
  | .write fd buf len => do return asIsize (← doWrite pid fd buf len)
  | .readv fd iov count => do return asIsize (← doReadv pid fd iov count)
  | .writev fd iov count => do return asIsize (← doWritev pid fd iov count)
  | .close fd => do doClose pid fd; return 0
  | .openat pathname flags => do return asIsize (← doOpenat pid pathname flags)
  | .lseek fd offset whence => doLseek pid fd (asIsize offset) whence
  | .fcntl fd cmd arg => do return asIsize (← doFcntl pid fd cmd arg)
  | .dup fd => do return asIsize (← doDup pid fd)
  | .dup3 oldfd newfd flags => do return asIsize (← doDup3 pid oldfd newfd flags)
  | .pipe2 pipefd flags => do doPipe2 pid pipefd flags; return 0
  | .wait4 target wstatus options => doWait4 pid target wstatus options
  | .clone flags ptid ctid => doClone pid flags ptid ctid
  | .exit code => do terminateProcess pid code; return 0
  | .kill target sig => doKill pid target sig
  | .setsid => do return asIsize (← doSetsid pid)
  | .setpgid target pgid => doSetpgid pid target pgid
  | .setTidAddress tidptr => do return asIsize (← doSetTidAddress pid tidptr)
  | .brk addr => do return asIsize (← doBrk pid addr)
  | .mmap addr len prot flags fd offset => do
    return asIsize (← doMmap pid addr len (prot % 2 ^ 32) (flags % 2 ^ 32) fd offset)
  | .munmap addr len => do doMunmap pid addr len; return 0
  | .mprotect addr len prot => do doMprotect pid addr len (prot % 2 ^ 32); return 0
  | .mremap oldAddr oldSize newSize flags newAddr => do
    return asIsize (← doMremap pid oldAddr oldSize newSize (flags % 2 ^ 32) newAddr)
  | .execve filename argv envp => do doExecveUser pid filename argv envp; return 0
  | .rtSigaction signum act oldact size => doRtSigaction pid signum act oldact size
  | .rtSigprocmask how set oldset size => doRtSigprocmask pid how set oldset size
  | .rtSigpending set size => doRtSigpending pid set size
  | .rtSigtimedwait set info timeout size => doRtSigtimedwait pid set info timeout size
  | .rtSigsuspend mask size => doRtSigsuspend pid mask size
  | .rtSigreturn => doRtSigreturn pid
  | .nanosleep req rem => doNanosleep pid req rem
  | .ppoll fds nfds timeout sigmask size => doPpoll pid fds nfds timeout sigmask size
  | .futex op => pure (doFutex op)
  | .userRead addr len => do let _ ← copyFromUser pid addr len; return 0
  | .userWrite addr bytes => do copyToUser pid addr bytes; return 0

/-- The answer of a call after a signal was looked for: an interrupting signal turns the
result of a restartable call into `-EINTR`. -/
def finishSyscall (pid : Nat) (sys : Syscall) (ret : Int) : M Int := do
  let action ← attempt (consumeDeliverableSignalOnSyscallReturn pid)
  match action with
  | .ok .none => pure ret
  | .ok (.interrupt restart) =>
    if 0 ≤ ret ∧ sys.isRestartable ∧ !restart then pure (-EINTR) else pure ret
  | .ok (.terminate exitCode) => do
    terminateProcess pid exitCode
    pure ret
  | .error _ => pure ret

/-- `handle_syscall`: the value for the caller, or `Err(Success)` when the reply is sent
later or never. -/
def handleSyscall (pid : Nat) (sys : Syscall) : M Int := do
  let r ← attempt (routeSyscall pid sys)
  match r with
  | .ok ret => finishSyscall pid sys ret
  | .error .success => throw .success
  | .error .stalled => throw .stalled
  | .error .panicked => throw .panicked
  | .error e => do
    let errno ← gets (·.mapErrorToErrno)
    finishSyscall pid sys (errno e)

/-! ### Requests -/

/-- The faults that end a process. -/
inductive FaultKind where
  | unknownFault | illegalInstruction | breakpoint | accessFault | accessMisaligned | virtExit
  deriving DecidableEq, Repr

/-- The exit code of a fault. -/
def FaultKind.exitCode : FaultKind → Nat
  | .unknownFault | .virtExit => usizeMax
  | .illegalInstruction => getExitCodeForSignal SIGILL
  | .breakpoint => getExitCodeForSignal SIGTRAP
  | .accessFault | .accessMisaligned => getExitCodeForSignal SIGSEGV

/-- What the dispatch loop receives. -/
inductive Request where
  | syscall (pid : Nat) (sys : Syscall)
  | pageFault (pid addr : Nat) (cause : FaultCause)
  | fault (pid : Nat) (kind : FaultKind)
  | sleepDone (pid requestId : Nat)
  deriving DecidableEq

/-- The handler of a request: the value of the reply of a syscall. -/
def handle : Request → M Int
  | .syscall pid sys => handleSyscall pid sys
  | .pageFault pid addr cause => do pageFault pid addr cause; return 0
  | .fault pid kind => do terminateProcess pid kind.exitCode; return 0
  | .sleepDone pid requestId => do completeSleepReply pid requestId; return 0

/-- The caller that the dispatch loop records for a request. -/
def Request.caller : Request → Option Nat
  | .syscall pid _ | .pageFault pid _ _ | .fault pid _ => some pid
  | .sleepDone .. => none

/-- One round of the dispatch loop. -/
def dispatch (r : Request) : M Int := do
  modify fun w => { w with activeCallerPid := r.caller }
  let out ← attempt (handle r)
  modify fun w => { w with activeCallerPid := none }
  ofExcept out

/-! ### The start of `init` -/

/-- The standard descriptors of `init`, on the terminal `term`. -/
def openStdio (pid term : Nat) : M Unit := do
  let slot ← cspaceAlloc
  onError (fsOpen slot) fun _ => cspaceFree slot
  modifyTask pid fun t => { t with controllingTty := term }
  modifyFiles pid fun _ =>
    { fds := [0, 1, 2].foldl (fun m fd => m.insert fd ⟨slot, 0, none⟩) OrdMap.empty
      fdPaths := [0, 1, 2].foldl (fun m fd => m.insert fd "/dev/tty") OrdMap.empty
      fdCloexec := OrdMap.empty
      nextFd := 3 }
  forEach [0, 1, 2] fun fd => logCloexec (.set pid fd false)

/-- `load_init`. -/
def loadInit (path : String) : M Unit := do
  let host ← ext
  let cnodeSlot ← cspaceAlloc
  let _ ← ext
  let pid ← registerProcess 0 host.val cnodeSlot
  let term ← gets (·.stdioTerm)
  whenSome term fun term => openStdio pid term
  doExecve pid path [] []
  let _ ← getProcess pid
  tcbResume pid

/-- The state of the server before `load_init`: no process, no reference counter, no reply that
waits, and finitely many scratch mappings and frames. -/
structure World.Initial (w : World) : Prop where
  noTasks : w.tasks = OrdMap.empty
  noRefs : ∀ s, w.frameCapRefs s = none
  noNullFrame : w.frames 0 = none
  firstPid : w.nextPid = 1
  noEvents : w.childEvents = OrdMap.empty
  noHosts : w.hostPidMap = OrdMap.empty
  noLifecycle : w.lifecycle = OrdMap.empty
  noLedger : w.ledger = OrdMap.empty
  noRegions : w.asyncRegions = [] ∧ w.asyncFree = []
  noDoubleClose : w.doubleClose = false
  noWaits : w.pendingWaitReplies = OrdMap.empty
  noSleeps : w.pendingSleepReplies = OrdMap.empty
  noTrace : w.trace = []
  firstRequestId : w.nextRequestId = 1
  noSleepLog : w.sleepLog = []
  noStopLog : w.stopLog = []
  noCloexecLog : w.cloexecLog = []
  noFileMapLog : w.fileMapLog = []
  noneWaited : w.waited = []
  noDoubleFree : w.doubleFree = false
  fewScratch : {b | (w.scratch b).isSome}.Finite
  fewFrames : {s | (w.frames s).isSome}.Finite
  notPanicked : w.panicked = false
  noPositionSplit : w.positionSplit = false

/-- The outcome of a handler that returned to the dispatch loop. -/
def Returned (r : Except Err Int) : Prop := r ≠ .error .stalled ∧ r ≠ .error .panicked

/-- One request served, from boundary to boundary. -/
def Step (w : World) (r : Request) (w' : World) : Prop :=
  Returned ((dispatch r).run w).1 ∧ ((dispatch r).run w).2 = w'

/-- The states of the server at a request boundary. -/
inductive Reachable : World → Prop where
  | boot {w w' : World} {path : String} :
      w.Initial → (loadInit path).run w = (.ok (), w') → Reachable w'
  | step {w w' : World} {r : Request} : Reachable w → Step w r w' → Reachable w'

/-- The rule for invariants of runs. -/
theorem Reachable.invariant {I : World → Prop}
    (hboot : ∀ w w' path, w.Initial → (loadInit path).run w = (.ok (), w') → I w')
    (hstep : ∀ w r w', Reachable w → I w → Step w r w' → I w') :
    ∀ w, Reachable w → I w := by
  intro w h
  induction h with
  | boot hi hr => exact hboot _ _ _ hi hr
  | step hr hs ih => exact hstep _ _ _ hr ih hs

/-- The states of a run in which every request meets a condition in the state it arrives in. -/
inductive ReachableBy (ok : World → Request → Prop) : World → Prop where
  | boot {w w' : World} {path : String} :
      w.Initial → (loadInit path).run w = (.ok (), w') → ReachableBy ok w'
  | step {w w' : World} {r : Request} :
      ReachableBy ok w → ok w r → Step w r w' → ReachableBy ok w'

/-- A state that is reached by requests of a kind is reachable. -/
theorem ReachableBy.reachable {ok : World → Request → Prop} {w : World} (h : ReachableBy ok w) :
    Reachable w := by
  induction h with
  | boot hi hr => exact .boot hi hr
  | step _ _ hs ih => exact .step ih hs

end Ape
