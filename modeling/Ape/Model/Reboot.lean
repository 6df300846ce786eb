import Ape.Model.Syscall

/-!
# `Ape.Model.Reboot`: `reboot`

`system/reboot.rs`, `stop` of `ape/server.rs` and the round of the dispatch loop that serves the
call. The state is that of the server and the flag `running` of its loop. The path of `init` is that
of the configuration, as in `loadInit`.

`Operates path` holds of the states at a request boundary in a run with reboots.
-/

set_option autoImplicit false

namespace Ape

open Ape.Lib Cmd

/-- The state of the server, and `service_state.ipc.running`. -/
abbrev Service : Type := World × Bool

def LINUX_REBOOT_MAGIC1 : Nat := 0xfee1dead
def LINUX_REBOOT_MAGIC2 : Nat := 672274793
def LINUX_REBOOT_MAGIC2A : Nat := 85072278
def LINUX_REBOOT_MAGIC2B : Nat := 369367448
def LINUX_REBOOT_MAGIC2C : Nat := 537993216

def LINUX_REBOOT_CMD_RESTART : Nat := 0x01234567
def LINUX_REBOOT_CMD_HALT : Nat := 0xcdef0123
def LINUX_REBOOT_CMD_CAD_ON : Nat := 0x89abcdef
def LINUX_REBOOT_CMD_CAD_OFF : Nat := 0
def LINUX_REBOOT_CMD_POWER_OFF : Nat := 0x4321fedc
def LINUX_REBOOT_CMD_RESTART2 : Nat := 0xa1b2c3d4

/-- `valid_reboot_magic2`. -/
def validRebootMagic2 (v : Nat) : Bool :=
  decide (v % 2 ^ 32 ∈ [LINUX_REBOOT_MAGIC2, LINUX_REBOOT_MAGIC2A, LINUX_REBOOT_MAGIC2B,
    LINUX_REBOOT_MAGIC2C])

/-- `stop`. The report to the service manager is not awaited. -/
def stop : Cmd Service Err Unit := do
  modify fun s => (s.1, false)
  inFst (ignore ext)

/-- The process that goes on after a reboot: `init`, or the caller when there is no `init`. -/
def World.initPid (w : World) (caller : Nat) : Nat := if (w.task? 1).isSome then 1 else caller

/-- `do_reboot_runtime`. A process that cannot be ended is passed over. -/
def doRebootRuntime (initPath : String) (caller : Nat) : M Unit := do
  let initPid ← gets (·.initPid caller)
  let pids ← gets (·.tasks.keys)
  forEach pids fun victim => when (victim ≠ initPid) (ignore (terminateProcess victim 0))
  doExecve initPid initPath [] []
  when (initPid ≠ caller) do
    let proc ← gets (·.task? initPid)
    whenSome proc fun _ => ignore (tcbResume initPid)

/-- `do_reboot`. -/
def doReboot (initPath : String) (pid magic magic2 cmd : Nat) : Cmd Service Err Int :=
  if magic ≠ LINUX_REBOOT_MAGIC1 ∨ ¬ validRebootMagic2 magic2 then throw .invalidArgs
  else if cmd % 2 ^ 32 = LINUX_REBOOT_CMD_CAD_ON ∨ cmd % 2 ^ 32 = LINUX_REBOOT_CMD_CAD_OFF then
    return 0
  else if cmd % 2 ^ 32 = LINUX_REBOOT_CMD_RESTART ∨
      cmd % 2 ^ 32 = LINUX_REBOOT_CMD_RESTART2 then do
    inFst (doRebootRuntime initPath pid)
    return 0
  else if cmd % 2 ^ 32 = LINUX_REBOOT_CMD_POWER_OFF ∨ cmd % 2 ^ 32 = LINUX_REBOOT_CMD_HALT then do
    stop
    return 0
  else throw .invalidArgs

/-- The end of `handle_syscall` for a call that is not restartable. -/
def finishReboot (pid : Nat) (ret : Int) : M Int := do
  let action ← attempt (consumeDeliverableSignalOnSyscallReturn pid)
  match action with
  | .ok (.terminate exitCode) => do
    terminateProcess pid exitCode
    pure ret
  | _ => pure ret

/-- `handle_syscall` for `sys_reboot`. -/
def handleReboot (initPath : String) (pid magic magic2 cmd : Nat) : Cmd Service Err Int := do
  let r ← attempt (doReboot initPath pid magic magic2 cmd)
  match r with
  | .ok ret => inFst (finishReboot pid ret)
  | .error .success => throw .success
  | .error .stalled => throw .stalled
  | .error .panicked => throw .panicked
  | .error e => do
    let errno ← gets (·.1.mapErrorToErrno)
    inFst (finishReboot pid (errno e))

/-- The round of the dispatch loop that serves a reboot. -/
def dispatchReboot (initPath : String) (pid magic magic2 cmd : Nat) : Cmd Service Err Int := do
  inFst (modify fun w => { w with activeCallerPid := some pid })
  let out ← attempt (handleReboot initPath pid magic magic2 cmd)
  inFst (modify fun w => { w with activeCallerPid := none })
  ofExcept out

/-- The states at a request boundary, in a run whose requests may be reboots. -/
inductive Operates (path : String) : Service → Prop where
  | boot {w w' : World} : w.Initial → (loadInit path).run w = (.ok (), w') →
      Operates path (w', true)
  | step {w w' : World} {r : Request} : Operates path (w, true) → Step w r w' →
      Operates path (w', true)
  | reboot {s : Service} {pid magic magic2 cmd : Nat} : Operates path s → s.2 = true →
      Returned ((dispatchReboot path pid magic magic2 cmd).run s).1 →
      Operates path ((dispatchReboot path pid magic magic2 cmd).run s).2

end Ape
