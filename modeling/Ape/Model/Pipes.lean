import Ape.Model.Types

/-!
# `Ape.Model.Pipes`: the pipe filesystem

`vfs/pipe.rs` and the pipe part of `vfs/server.rs`. A registry holds the pipes by number. A
handle names a pipe and one of its ends, and a call on a handle goes to the registry. The
lock of the registry makes every call one step.

A handle is an object of the server, so it has an address of its own: `HandleAddr`. A
`PipeFs` is a registry with the open handles by address, and `PipeOp` are the calls that
its clients make. A handle is closed at most once, since `close` takes it out of the table.
A read and a write name any handle, also one that is closed.
-/

set_option autoImplicit false

namespace Ape

open Ape.Lib

/-- `PIPE_DEFAULT_CAPACITY`. -/
def PIPE_DEFAULT_CAPACITY : Nat := 64 * 1024

/-- `PipeEnd`. -/
inductive PipeEnd where
  | read
  | write
  deriving DecidableEq, Repr

/-- `PipeState`. -/
structure PipeState where
  buf : List UInt8
  readers : Nat
  writers : Nat
  deriving DecidableEq

/-- `PipeRegistry`. -/
structure PipeRegistry where
  pipes : OrdMap Nat PipeState
  nextPipeId : Nat

namespace PipeRegistry

/-- `PipeRegistry::new`. -/
def new : PipeRegistry := ⟨.empty, 1⟩

/-- Put `p` at `pipeId`. -/
def set (reg : PipeRegistry) (pipeId : Nat) (p : PipeState) : PipeRegistry :=
  { reg with pipes := reg.pipes.insert pipeId p }

/-- `create_pipe`. -/
def createPipe (reg : PipeRegistry) : Nat × PipeRegistry :=
  (reg.nextPipeId,
   { pipes := reg.pipes.insert reg.nextPipeId ⟨[], 0, 0⟩, nextPipeId := wAdd reg.nextPipeId 1 })

end PipeRegistry

/-- One more open end. -/
def PipeState.opened (p : PipeState) : PipeEnd → PipeState
  | .read => { p with readers := satAdd p.readers 1 }
  | .write => { p with writers := satAdd p.writers 1 }

/-- One open end less. -/
def PipeState.closed (p : PipeState) : PipeEnd → PipeState
  | .read => { p with readers := p.readers - 1 }
  | .write => { p with writers := p.writers - 1 }

/-- The loop of `pipe_read`, with room for `n` more bytes: what it takes, and what stays. -/
def pipeReadLoop : Nat → List UInt8 → List UInt8 × List UInt8
  | 0, buf => ([], buf)
  | _ + 1, [] => ([], [])
  | n + 1, b :: buf => (b :: (pipeReadLoop n buf).1, (pipeReadLoop n buf).2)

namespace PipeRegistry

/-- `open_pipe`. -/
def openPipe (reg : PipeRegistry) (pipeId : Nat) (e : PipeEnd) : Bool × PipeRegistry :=
  match reg.pipes.get? pipeId with
  | none => (false, reg)
  | some p => (true, reg.set pipeId (p.opened e))

/-- `pipe_read` into a buffer of `len` bytes: the bytes, and whether no writer is left. -/
def pipeRead (reg : PipeRegistry) (pipeId len : Nat) :
    Option (List UInt8 × Bool) × PipeRegistry :=
  match reg.pipes.get? pipeId with
  | none => (none, reg)
  | some p =>
    let r := pipeReadLoop len p.buf
    (some (r.1, p.writers = 0), reg.set pipeId { p with buf := r.2 })

/-- `pipe_write`: how many bytes were accepted, and whether no reader is left. -/
def pipeWrite (reg : PipeRegistry) (pipeId : Nat) (src : List UInt8) :
    Option (Nat × Bool) × PipeRegistry :=
  match reg.pipes.get? pipeId with
  | none => (none, reg)
  | some p =>
    if p.readers = 0 then (some (0, true), reg)
    else
      let free := PIPE_DEFAULT_CAPACITY - p.buf.length
      let writeLen := min free src.length
      (some (writeLen, false), reg.set pipeId { p with buf := p.buf ++ src.take writeLen })

/-- `close_pipe_read_end` and `close_pipe_write_end`. -/
def closePipeEnd (reg : PipeRegistry) (pipeId : Nat) (e : PipeEnd) : PipeRegistry :=
  match reg.pipes.get? pipeId with
  | none => reg
  | some p =>
    let p' := p.closed e
    if p'.readers = 0 ∧ p'.writers = 0 then { reg with pipes := reg.pipes.erase pipeId }
    else reg.set pipeId p'

end PipeRegistry

/-- `PipeHandle`, less its reference to the registry. -/
structure PipeHandle where
  pipeId : Nat
  pipeEnd : PipeEnd
  deriving DecidableEq, Repr

namespace PipeHandle

/-- `PipeHandle::close`. -/
def close (h : PipeHandle) (reg : PipeRegistry) : PipeRegistry :=
  reg.closePipeEnd h.pipeId h.pipeEnd

/-- `PipeHandle::read` into a buffer of `len` bytes. -/
def read (h : PipeHandle) (reg : PipeRegistry) (len : Nat) :
    Except Err (List UInt8) × PipeRegistry :=
  if h.pipeEnd ≠ .read then (.error .invalidType, reg)
  else match reg.pipeRead h.pipeId len with
    | (none, reg') => (.error .notFound, reg')
    | (some (bytes, _writersClosed), reg') => (.ok bytes, reg')

/-- `PipeHandle::write`. -/
def write (h : PipeHandle) (reg : PipeRegistry) (src : List UInt8) :
    Except Err Nat × PipeRegistry :=
  if h.pipeEnd ≠ .write then (.error .invalidType, reg)
  else match reg.pipeWrite h.pipeId src with
    | (none, reg') => (.error .notFound, reg')
    | (some (n, noReaders), reg') => (if noReaders then .error .ioError else .ok n, reg')

end PipeHandle

/-! ### The namespace -/

/-- `s.parse::<usize>()`: digits after an optional `+`, below the end of the word. -/
def parseUsize (s : List Char) : Option Nat :=
  let digits := match s with
    | '+' :: rest => rest
    | _ => s
  if digits = [] ∨ ¬ digits.all Char.isDigit then none
  else
    let n := digits.foldl (fun acc c => 10 * acc + (c.toNat - '0'.toNat)) 0
    if n < usizeMod then some n else none

/-- The end that the last part of a path names. -/
def parsePipeEnd (s : List Char) : Option PipeEnd :=
  if s = "r".toList ∨ s = "read".toList then some .read
  else if s = "w".toList ∨ s = "write".toList then some .write
  else none

/-- The pipe and the end that a path names. -/
def parsePipePath (path : List Char) : Option PipeHandle :=
  match (path.dropWhile (· = '/')).splitOn '/' with
  | [idPart, endPart] => do
    let pipeId ← parseUsize idPart
    let e ← parsePipeEnd endPart
    pure ⟨pipeId, e⟩
  | _ => none

/-- The path suffix of an end in `do_pipe2`. -/
def PipeEnd.pathSuffix : PipeEnd → Char
  | .read => 'r'
  | .write => 'w'

/-- `format!("/{}/{}", pipe_id, path_suffix)` of `open_pipe_end_via_pipefs`. -/
def pipePath (pipeId : Nat) (e : PipeEnd) : List Char :=
  '/' :: (Nat.toDigits 10 pipeId ++ ['/', e.pathSuffix])

/-- `PipeFsNamespace::open`. -/
def PipeRegistry.openPath (reg : PipeRegistry) (path : List Char) :
    Except Err PipeHandle × PipeRegistry :=
  match parsePipePath path with
  | none => (.error .invalidArgs, reg)
  | some h =>
    match reg.openPipe h.pipeId h.pipeEnd with
    | (true, reg') => (.ok h, reg')
    | (false, reg') => (.error .notFound, reg')

/-! ### The filesystem and its clients -/

/-- The address of a handle. -/
abbrev HandleAddr := { a : Nat // 0 < a ∧ a < usizeMod }

/-- A call on the pipe filesystem. -/
inductive PipeOp where
  | create
  | openPath (addr : HandleAddr) (path : List Char)
  | read (h : PipeHandle) (len : Nat)
  | write (h : PipeHandle) (src : List UInt8)
  | close (addr : HandleAddr)
  deriving DecidableEq

/-- The answer to a call. -/
inductive PipeReply where
  | created (pipeId : Nat)
  | opened (h : PipeHandle)
  | bytes (bs : List UInt8)
  | wrote (n : Nat)
  | closed
  | failed (e : Err)
  deriving DecidableEq

/-- The pipe filesystem, with the open handles and the calls that it has answered. -/
structure PipeFs where
  reg : PipeRegistry
  handles : OrdMap HandleAddr PipeHandle
  trace : List (PipeOp × PipeReply)

namespace PipeFs

/-- `PipeFsNamespace::new`. -/
def new : PipeFs := ⟨.new, .empty, []⟩

/-- The answer to a call, and the registry and the open handles after it. A handle is stored
only where no open handle is. -/
def answer (s : PipeFs) : PipeOp → PipeReply × PipeRegistry × OrdMap HandleAddr PipeHandle
  | .create => (.created s.reg.createPipe.1, s.reg.createPipe.2, s.handles)
  | .openPath addr path =>
    if s.handles.contains addr then (.failed .outOfMemory, s.reg, s.handles)
    else match s.reg.openPath path with
      | (.ok h, reg') => (.opened h, reg', s.handles.insert addr h)
      | (.error e, reg') => (.failed e, reg', s.handles)
  | .read h len => match h.read s.reg len with
    | (.ok bs, reg') => (.bytes bs, reg', s.handles)
    | (.error e, reg') => (.failed e, reg', s.handles)
  | .write h src => match h.write s.reg src with
    | (.ok n, reg') => (.wrote n, reg', s.handles)
    | (.error e, reg') => (.failed e, reg', s.handles)
  | .close addr => match s.handles.get? addr with
    | none => (.failed .notFound, s.reg, s.handles)
    | some h => (.closed, h.close s.reg, s.handles.erase addr)

/-- One call. -/
def step (s : PipeFs) (op : PipeOp) : PipeFs :=
  let r := s.answer op
  ⟨r.2.1, r.2.2, s.trace ++ [(op, r.1)]⟩

/-- A sequence of calls on a new filesystem. -/
def run (ops : List PipeOp) : PipeFs := ops.foldl step new

end PipeFs

end Ape
