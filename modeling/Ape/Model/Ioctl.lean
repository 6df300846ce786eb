import Ape.Model.Files
import Ape.Model.Tty

/-!
# `Ape.Model.Ioctl`: control of the terminal

The control side of `drivers/tty.rs`, and `do_ioctl` of `io/file.rs` with its way through user
memory. The request numbers of `linux_raw_sys` are those of the kernel's generic headers.

The file service behind a descriptor is not part of the server: `IoctlService` is the way it
answers `ioctl_ex`, over a state of its own. The terminal is one such service. A change of
the window size is passed on to the host, and the error that the host may answer is an argument.
-/

set_option autoImplicit false

namespace Ape

open Ape.Lib Cmd

/-! ### Request numbers -/

def IOC_NRBITS : Nat := 8
def IOC_TYPEBITS : Nat := 8
def IOC_SIZEBITS : Nat := 14
def IOC_NRSHIFT : Nat := 0
def IOC_TYPESHIFT : Nat := IOC_NRSHIFT + IOC_NRBITS
def IOC_SIZESHIFT : Nat := IOC_TYPESHIFT + IOC_TYPEBITS
def IOC_DIRSHIFT : Nat := IOC_SIZESHIFT + IOC_SIZEBITS
def IOC_WRITE : Nat := 1
def IOC_READ : Nat := 2
def TCGETS : Nat := 0x5401
def TCSETS : Nat := 0x5402
def TCSETSW : Nat := 0x5403
def TCSETSF : Nat := 0x5404
def TIOCSCTTY : Nat := 0x540e
def TIOCGPGRP : Nat := 0x540f
def TIOCSPGRP : Nat := 0x5410
def TIOCGWINSZ : Nat := 0x5413
def TIOCSWINSZ : Nat := 0x5414
def TIOCNOTTY : Nat := 0x5422
def TIOCGSID : Nat := 0x5429

/-- `size_of::<winsize>()`. -/
def WINSIZE_SIZE : Nat := 8

/-- `size_of::<i32>()`. -/
def I32_SIZE : Nat := 4

/-- `ioc`, on `u32` words. -/
def ioc (dir ty nr sz : Nat) : Nat :=
  (dir <<< IOC_DIRSHIFT ||| ty <<< IOC_TYPESHIFT ||| nr <<< IOC_NRSHIFT ||| sz <<< IOC_SIZESHIFT)
    % 2 ^ 32

/-- `tty_ioctl_read`. -/
def ttyIoctlRead (nr sz : Nat) : Nat := ioc IOC_READ 0x54 nr sz

/-- `tty_ioctl_write`. -/
def ttyIoctlWrite (nr sz : Nat) : Nat := ioc IOC_WRITE 0x54 nr sz

/-- `TtyCmd`. -/
inductive TtyCmd where
  | tcgets | tcsets | tcsetsw | tcsetsf | tiocgwinsz | tiocswinsz | tiocgpgrp | tiocspgrp
  | tiocgsid | tiocsctty | tiocnotty
  deriving DecidableEq, Repr

/-- `decode_tty_cmd`. -/
def decodeTtyCmd (cmd : Nat) : Option TtyCmd :=
  if cmd = TCGETS then some .tcgets
  else if cmd = TCSETS then some .tcsets
  else if cmd = TCSETSW then some .tcsetsw
  else if cmd = TCSETSF then some .tcsetsf
  else if cmd = TIOCGWINSZ then some .tiocgwinsz
  else if cmd = TIOCSWINSZ then some .tiocswinsz
  else if cmd = TIOCGPGRP then some .tiocgpgrp
  else if cmd = TIOCSPGRP then some .tiocspgrp
  else if cmd = TIOCGSID then some .tiocgsid
  else if cmd = TIOCSCTTY then some .tiocsctty
  else if cmd = TIOCNOTTY then some .tiocnotty
  else if cmd = ttyIoctlRead 0x01 TTY_TERMIOS_SIZE then some .tcgets
  else if cmd = ttyIoctlWrite 0x02 TTY_TERMIOS_SIZE then some .tcsets
  else if cmd = ttyIoctlWrite 0x03 TTY_TERMIOS_SIZE then some .tcsetsw
  else if cmd = ttyIoctlWrite 0x04 TTY_TERMIOS_SIZE then some .tcsetsf
  else if cmd = ttyIoctlRead 0x13 WINSIZE_SIZE then some .tiocgwinsz
  else if cmd = ttyIoctlWrite 0x14 WINSIZE_SIZE then some .tiocswinsz
  else if cmd = ttyIoctlRead 0x77 I32_SIZE then some .tiocgpgrp
  else if cmd = ttyIoctlWrite 0x76 I32_SIZE then some .tiocspgrp
  else if cmd = ttyIoctlRead 0x63 I32_SIZE then some .tiocgsid
  else none

/-! ### The device -/

/-- The bytes of a `winsize`, after `host_window_size_to_linux_winsize`. -/
def WindowSize.winsizeBytes (ws : WindowSize) : List UInt8 :=
  leBytes 2 ws.rows.toNat ++ leBytes 2 ws.cols.toNat ++ leBytes 2 ws.xpixel.toNat ++
    leBytes 2 ws.ypixel.toNat

/-- `linux_winsize_to_host_window_size` of the `winsize` at the start of the bytes. -/
def WindowSize.ofWinsizeBytes (payload : List UInt8) : WindowSize where
  rows := UInt16.ofNat (leNat (payload.take 2))
  cols := UInt16.ofNat (leNat ((payload.drop 2).take 2))
  xpixel := UInt16.ofNat (leNat ((payload.drop 4).take 2))
  ypixel := UInt16.ofNat (leNat ((payload.drop 6).take 2))

/-- `to_ne_bytes` of an `i32`. -/
def i32Bytes (n : Int) : List UInt8 := leBytes 4 (BitVec.ofInt 32 n).toNat

/-- `i32::from_ne_bytes`. -/
def i32OfBytes (raw : List UInt8) : Int := (BitVec.ofNat 32 (leNat raw)).toInt

namespace TtyDevice

variable {A : AnsiParser}

/-- `TtyDevice::set_foreground_pgrp`. -/
def setForegroundPgrp (d : TtyDevice A) (pgrp : Int) : TtyDevice A :=
  { d with compat := { d.compat with pgrp := pgrp } }

/-- The store of `TIOCSWINSZ` in the state. -/
def setWinsize (d : TtyDevice A) (ws : WindowSize) : TtyDevice A :=
  { d with compat := { d.compat with winsize := ws } }

/-- The `match` of `ioctl_ex`. The host answers `prism_set_winsize` with `host`, when it is
asked. -/
def command (d : TtyDevice A) (host : Except Err Unit) (input : Option (List UInt8))
    (outLen : Nat) : TtyCmd → Except Err (Nat × List UInt8) × TtyDevice A
  | .tiocgwinsz => (.ok (0, d.compat.winsize.winsizeBytes.take outLen), d)
  | .tiocswinsz =>
    match input with
    | none => (.error .invalidArgs, d)
    | some payload =>
      if payload.length < WINSIZE_SIZE then (.error .invalidArgs, d)
      else (host.map fun _ => (0, []), d.setWinsize (.ofWinsizeBytes payload))
  | .tcgets => (.ok (0, d.compat.termios.bytes.take outLen), d)
  | .tcsets | .tcsetsw | .tcsetsf =>
    match input with
    | none => (.error .invalidArgs, d)
    | some payload => (.ok (0, []), d.setTermios payload)
  | .tiocgpgrp | .tiocgsid => (.ok (0, (i32Bytes d.compat.pgrp).take outLen), d)
  | .tiocspgrp =>
    match input with
    | none => (.error .invalidArgs, d)
    | some payload =>
      if payload.length < I32_SIZE then (.error .invalidArgs, d)
      else (.ok (0, []), d.setForegroundPgrp (i32OfBytes (payload.take 4)))
  | .tiocsctty | .tiocnotty => (.ok (0, []), d)

/-- `TtyDevice::ioctl_ex`. -/
def ioctlEx (d : TtyDevice A) (host : Except Err Unit) (cmd : Nat) (input : Option (List UInt8))
    (outLen : Nat) : Except Err (Nat × List UInt8) × TtyDevice A :=
  match decodeTtyCmd cmd with
  | none => (.error .invalidType, d)
  | some c => d.command host input outLen c

end TtyDevice

/-! ### The system call -/

/-- `IOCTL_MAX_STRUCT_SIZE`. -/
def IOCTL_MAX_STRUCT_SIZE : Nat := 4096

/-- `ioctl_dir`. -/
def ioctlDir (request : Nat) : Nat := request >>> 30 &&& 0x3

/-- `ioctl_size`. -/
def ioctlSize (request : Nat) : Nat := request >>> 16 &&& 0x3fff

/-- `in_len` and `out_len` of `do_ioctl_fs_passthrough`, from the number alone or, where that
names no size, from the list of the old numbers. -/
def ioctlLens (request : Nat) : Nat × Nat :=
  let dir := ioctlDir request
  let size := ioctlSize request
  let inLen := if 0 < size ∧ (dir = IOC_WRITE ∨ dir = (IOC_WRITE ||| IOC_READ)) then size else 0
  let outLen := if 0 < size ∧ (dir = IOC_READ ∨ dir = (IOC_WRITE ||| IOC_READ)) then size else 0
  if inLen = 0 ∧ outLen = 0 then
    if request = TIOCGWINSZ then (inLen, WINSIZE_SIZE)
    else if request = TIOCSWINSZ then (WINSIZE_SIZE, outLen)
    else if request = TIOCGPGRP then (inLen, I32_SIZE)
    else if request = TIOCSPGRP then (I32_SIZE, outLen)
    else if request = TCGETS then (inLen, TTY_TERMIOS_SIZE)
    else if request = TCSETS ∨ request = TCSETSW ∨ request = TCSETSF then (TTY_TERMIOS_SIZE, outLen)
    else (inLen, outLen)
  else (inLen, outLen)

/-- The arguments of `fs_client.ioctl_ex`. -/
structure IoctlCall where
  cmd : Nat
  arg : Nat
  input : Option (List UInt8)
  outLen : Nat

/-- The answer of a file service to `ioctl_ex` on the endpoint in a slot, and its state after. -/
abbrev IoctlService (D : Type) := Nat → IoctlCall → D → Except Err (Nat × List UInt8) × D

section

variable {D : Type}

/-- `fs_client.ioctl_ex`. -/
def fsIoctlEx (svc : IoctlService D) (slot : Nat) (call : IoctlCall) :
    Cmd (World × D) Err (Nat × List UInt8) :=
  ⟨fun s => ((svc slot call s.2).1, (s.1, (svc slot call s.2).2))⟩

/-- The input of a request: none, or `in_len` bytes of the caller's memory. -/
def ioctlInput (pid argp inLen : Nat) : M (Option (List UInt8)) :=
  if inLen = 0 then pure none
  else if argp = 0 then throw .invalidAddress
  else do
    let input ← copyFromUser pid argp inLen
    pure (some input)

/-- What a service gives out goes to the caller's memory. -/
def ioctlOutput (pid argp : Nat) (out : List UInt8) : M Unit :=
  if out = [] then pure ()
  else if argp = 0 then throw .invalidAddress
  else copyToUser pid argp out

/-- `do_ioctl_fs_passthrough`. -/
def doIoctlFsPassthrough (svc : IoctlService D) (pid slot request argp : Nat) :
    Cmd (World × D) Err Int :=
  if IOCTL_MAX_STRUCT_SIZE < ioctlSize request then throw .invalidArgs
  else do
    let lens := ioctlLens request
    let input ← inFst (ioctlInput pid argp lens.1)
    let r ← fsIoctlEx svc slot ⟨request, argp, input, lens.2⟩
    inFst (ioctlOutput pid argp r.2)
    pure (asIsize r.1)

/-- `do_ioctl`. The handle is out of the table while the request is served. -/
def doIoctl (svc : IoctlService D) (pid fd request argp : Nat) : Cmd (World × D) Err Int :=
  if 2 ^ 32 ≤ request then throw .invalidArgs
  else if request = 0 then pure 0
  else if 2 ^ 32 ≤ fd then throw .invalidSlot
  else do
    let task ← inFst (getProcess pid)
    let handle ← getSome (task.files.fds.get? fd) .invalidSlot
    inFst (modifyFiles pid (·.removeFd fd))
    let r ← attempt (doIoctlFsPassthrough svc pid handle.fsEpSlot request argp)
    inFst (modifyFiles pid (·.insertFd fd handle))
    ofExcept r

end

/-- The terminal as a file service. -/
def ttyService (A : AnsiParser) (host : Except Err Unit) : IoctlService (TtyDevice A) :=
  fun _ call d => d.ioctlEx host call.cmd call.input call.outLen

end Ape
