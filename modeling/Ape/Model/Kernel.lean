import Ape.Lib.Cmd
import Ape.Model.Types

/-!
# `Ape.Model.Kernel`: the state of the server and the services it calls

`World` is everything a request can read or change: the tables of `ApeManager`, and the
part of the kernel and of the other services that those tables describe (allocated
capability slots, frames, scratch mappings, page tables).

The services are outside this repository. The call number `tick` of a run is answered by `env tick`:
an error, or a value and bytes. A run over every `env` is a run over every behaviour of the
services, with every call free to fail at every place. Two answers are bound by what the services
promise. A slot from `cspace_mgr.alloc` is not null, not currently allocated and holds no frame and
no open endpoint. A scratch address is not one in use. An answer that breaks the promise is turned
into `OutOfMemory`. `refused` is set by a call that fails and by an answer that breaks the promise.

`trace` records, in order, what leaves the server: replies sent from a reserved slot, bytes
moved to or from a file endpoint, requests to a thread, and the signals that were queued and
dequeued.
`sleepLog` records the sleeps handed to the timer and the ends of their replies, `stopLog` the
changes of the stopped marks and their reports, and `cloexecLog` and `fileMapLog` what the processes
asked for with their descriptors and file mappings. The trace, the logs, `waited` and the Boolean
marks are not read by the server.
-/

set_option autoImplicit false

namespace Ape

open Ape.Lib

/-- The answer of a service to one call. -/
structure Ext where
  err : Option Err
  val : Nat
  bytes : Nat → UInt8

/-- A scratch mapping of the server's own address space. -/
structure Scratch where
  slot : Nat
  pages : Nat
  perms : Perms
  deriving DecidableEq

/-- Pages of a process, from `page` on, that are filled with the file of the endpoint `slot`, from
`offset` on. -/
structure FileFill where
  pid : Nat
  page : Nat
  pages : Nat
  slot : Nat
  offset : Nat
  deriving DecidableEq

/-- What leaves the server, in order. -/
inductive Event where
  /-- `queue_signal` set the bit of `signum`. -/
  | queued (pid signum : Nat)
  /-- `pop_pending_signal_from_mask` cleared the bit of `signum`, whose action was `action`. -/
  | dequeued (pid signum : Nat) (action : SignalAction)
  /-- `rt_sigtimedwait` returned `signum` to its caller. -/
  | returned (pid signum : Nat)
  /-- An arriving `SIGCONT` cleared the bit of the stop signal `signum`. -/
  | discarded (pid signum : Nat)
  /-- `tcb.deliver_upcall(handler, signum, ..)` succeeded. -/
  | upcall (pid handler signum : Nat)
  /-- `tcb.suspend()` succeeded. -/
  | suspended (pid : Nat)
  /-- `tcb.resume()` succeeded. -/
  | resumed (pid : Nat)
  /-- `terminate_process` removed the process. -/
  | terminated (pid exitCode : Nat)
  /-- A deferred reply of `value` was sent from `slot`. -/
  | replied (slot : Nat) (value : Int)
  /-- A file endpoint returned `count` bytes to a read at `offset`. -/
  | fileRead (slot offset count : Nat)
  /-- A file endpoint accepted `count` bytes of a write at `offset`. -/
  | fileWritten (slot offset count : Nat)
  /-- A file endpoint was closed. -/
  | fileClosed (slot : Nat)
  /-- A page fault was answered with pages of a file. -/
  | filled (fill : FileFill)
  deriving DecidableEq

/-- What happens to the reply slot of a sleep. -/
inductive SleepEvent where
  /-- A sleep of `ms` milliseconds, for a request of `ns` nanoseconds, was handed to the timer,
  with the reply deferred in `slot`. -/
  | started (pid requestId slot ns ms : Nat)
  /-- The reply was sent or deleted, and its slot was freed. -/
  | finished (pid requestId slot : Nat)
  deriving DecidableEq

/-- What happens to the stopped mark of a process, and what its parent is told. -/
inductive StopEvent where
  /-- The mark was set or cleared. -/
  | changed (parentPid pid : Nat) (stopped : Bool)
  /-- `record_child_stopped` or `record_child_continued` recorded an event. -/
  | reported (parentPid pid : Nat) (kind : ChildStateEventKind)
  deriving DecidableEq

/-- What establishes the close-on-exec flag of a descriptor. -/
inductive CloexecEvent where
  /-- `openat` opened `fd` for a caller that asked for `cloexec`, over the entry `kept` of the table
  of flags. -/
  | opened (pid fd : Nat) (cloexec kept : Bool)
  /-- `pipe2`, `dup3`, `fcntl` or the start of `init` established `cloexec` for `fd`. -/
  | set (pid fd : Nat) (cloexec : Bool)
  /-- `child` inherited the descriptors of `parent`. -/
  | inherited (child parent : Nat)
  deriving DecidableEq

/-- What establishes the file behind the pages of a process. -/
inductive FileMapEvent where
  /-- `mmap` mapped the file of `fd` from `offset` on at `start`, up to `stop`. -/
  | mapped (pid start stop fd offset : Nat)
  /-- `child` inherited the mappings of `parent`. -/
  | inherited (child parent : Nat)
  deriving DecidableEq

/-- `ApeManager` and the state of the services it manages. -/
structure World where
  env : Nat → Ext
  tick : Nat
  /-- Set when a service refuses a call. -/
  refused : Bool
  layout : Layout
  /-- `libape::compat::map_error_to_errno`. -/
  mapErrorToErrno : Err → Int
  /-- `resolve_path` of `libape::path`, from the path, the root and the working directory. -/
  resolvePath : String → String → String → String
  /-- How many rounds a polling loop is followed for. -/
  rounds : Nat
  /-- The capability slots handed out by `cspace_mgr` and not freed. -/
  slots : Finset Nat
  /-- The frame in each slot. -/
  frames : Nat → Option Frame
  /-- Set when a frame is released that is not there. -/
  doubleFree : Bool
  scratch : Nat → Option Scratch
  tasks : OrdMap Nat TaskStruct
  hostPidMap : OrdMap Nat Nat
  lifecycle : OrdMap Nat ProcessLifecycleSnapshot
  childEvents : OrdMap Nat (List ChildStateEvent)
  pendingWaitReplies : OrdMap Nat PendingWaitReply
  frameCapRefs : Nat → Option Nat
  nextPid : Nat
  ledger : OrdMap Nat ProcessLedger
  pendingSleepReplies : OrdMap Nat PendingSleepReply
  nextRequestId : Nat
  activeCallerPid : Option Nat
  /-- The slot the current request's reply capability was received in. -/
  replySlot : Nat
  /-- The file endpoints that are open, by the slot of their capability. -/
  openEndpoints : Finset Nat
  /-- Set when an endpoint is closed that is not open. -/
  doubleClose : Bool
  /-- Set by a `next_fd += 1` that overflows. -/
  fdOverflow : Bool
  /-- Set when a region is given back while another descriptor refers to its endpoint. -/
  earlyRecycle : Bool
  /-- Set when a read, a write or a seek moves the position of a handle whose endpoint another
  descriptor refers to. -/
  positionSplit : Bool
  asyncRegions : List AsyncIoRegion
  asyncFree : List Nat
  nextAsyncVaddr : Nat
  iouringSupported : Option Bool
  /-- Whether the pipe file system has an endpoint. -/
  pipeVfsEndpoint : Bool
  /-- The endpoint of the terminal of `init`, if there is one. -/
  stdioTerm : Option Nat
  /-- Set by the `panic!` that follows the end of `init`. -/
  panicked : Bool
  /-- Set by a `rt_sigsuspend` that takes a pending signal which is not ignored, by a thread that
  refuses the stop, the continuation or the upcall of a dequeued signal, and by a
  `rt_sigtimedwait` that cannot store what it dequeued. -/
  signalDropped : Bool
  /-- Set when a stop or a continuation is recorded that a deferred `wait4` of the parent
  accepts. -/
  missedWake : Bool
  /-- Set when a process that runs sends itself a stop signal, when a thread refuses a stop or a
  continuation that is recorded, and when a process that is marked stopped forks. -/
  stopSkewed : Bool
  /-- The events that were taken out of the queues, the last one first. -/
  waited : List ChildStateEvent
  /-- Set when the exit of a child is taken out of a queue that has other events of the child. -/
  leftEvents : Bool
  /-- Set when a process ends that has events of children or no parent, when an event is recorded
  for a parent that is gone, and when the exit of a child is taken and its lifecycle record is
  kept. -/
  staleRecords : Bool
  /-- Set when a process that has a deferred `wait4` gets a deliverable signal that is not ignored,
  and when a `wait4` is deferred that has one. -/
  missedIntr : Bool
  /-- Set when a request id is handed out that the counter could not move past. -/
  idSaturated : Bool
  sleepLog : List SleepEvent
  stopLog : List StopEvent
  /-- The last one first. -/
  cloexecLog : List CloexecEvent
  /-- The last one first. -/
  fileMapLog : List FileMapEvent
  trace : List Event

/-- A command of the server. -/
abbrev M := Cmd World Err

namespace World

/-- The process `pid`. -/
def task? (w : World) (pid : Nat) : Option TaskStruct := w.tasks.get? pid

/-- The promise of `cspace_mgr.alloc`: the slot is not null and not currently allocated, so it
holds no frame and no open endpoint. -/
def SlotFree (w : World) (slot : Nat) : Prop :=
  slot ≠ 0 ∧ slot ∉ w.slots ∧ (w.frames slot).isNone ∧ slot ∉ w.openEndpoints

instance (w : World) (slot : Nat) : Decidable (w.SlotFree slot) :=
  inferInstanceAs (Decidable (_ ∧ _ ∧ _ ∧ _))

/-- Change the record of a process. -/
def modifyTask (w : World) (pid : Nat) (f : TaskStruct → TaskStruct) : World :=
  { w with tasks := w.tasks.modify pid f }

/-- Change the memory state of a process. -/
def modifyMm (w : World) (pid : Nat) (f : MmState → MmState) : World :=
  w.modifyTask pid fun t => { t with mm := { t.mm with state := f t.mm.state } }

/-- Change the page table of a process. -/
def modifyVspace (w : World) (pid : Nat) (f : VSpace → VSpace) : World :=
  w.modifyTask pid fun t => { t with mm := { t.mm with vspace := f t.mm.vspace } }

/-- Change the signal state of a process. -/
def modifySignal (w : World) (pid : Nat) (f : SignalStruct → SignalStruct) : World :=
  w.modifyTask pid fun t => { t with signal := f t.signal }

/-- Change the bytes of the frame in a slot. -/
def writeFrame (w : World) (slot : Nat) (f : Nat → UInt8 → UInt8) : World :=
  { w with
    frames := fun s =>
      if s = slot then (w.frames s).map fun fr => { fr with data := fun o => f o (fr.data o) }
      else w.frames s }

/-- The byte at `offset` of the frame that the scratch address `base` maps. The raw pointers of the
source are not checked against the length of the frame, and neither is `offset`. -/
def scratchByte (w : World) (base offset : Nat) : UInt8 :=
  match w.scratch base with
  | none => 0
  | some sc => ((w.frames sc.slot).map fun fr => fr.data offset).getD 0

/-- The reference counter of a slot, `1` when the table has no entry. -/
def refsOf (w : World) (slot : Nat) : Nat := (w.frameCapRefs slot).getD 1

end World

open Cmd

/-- One call to a service. -/
def ext : M Ext := ⟨fun w =>
  match (w.env w.tick).err with
  | some e => (.error e, { w with tick := w.tick + 1, refused := true })
  | none => (.ok (w.env w.tick), { w with tick := w.tick + 1 })⟩

/-- A service does not give what it was asked for. -/
def refuse {α : Type} (e : Err) : M α := do
  modify fun w => { w with refused := true }
  throw e

/-- Record what happens to a sleep. -/
def logSleep (e : SleepEvent) : M Unit := modify fun w => { w with sleepLog := w.sleepLog ++ [e] }

/-- Record what happens to a stopped mark. -/
def logStop (e : StopEvent) : M Unit := modify fun w => { w with stopLog := w.stopLog ++ [e] }

/-- Record what establishes a close-on-exec flag. -/
def logCloexec (e : CloexecEvent) : M Unit := modify fun w =>
  { w with cloexecLog := e :: w.cloexecLog }

/-- Mark that a report and a stopped mark do not go together. -/
def markStopSkewed : M Unit := modify fun w => { w with stopSkewed := true }

/-- Mark that a dequeued signal is dropped. -/
def markSignalDropped : M Unit := modify fun w => { w with signalDropped := true }

/-- Record an event. -/
def emit (e : Event) : M Unit := modify fun w => { w with trace := w.trace ++ [e] }

/-- `self.get_process(pid).ok_or(Error::NotFound)?`. -/
def getProcess (pid : Nat) : M TaskStruct := do
  let t ← gets (·.task? pid)
  getSome t .notFound

/-- Change the memory state of a process. -/
def modifyMm (pid : Nat) (f : MmState → MmState) : M Unit := modify (·.modifyMm pid f)

/-! ### Capability slots and frames -/

/-- `cspace_mgr.alloc`. -/
def cspaceAlloc : M Nat := do
  let a ← ext
  let free ← gets fun w => decide (w.SlotFree a.val)
  if free then do
    modify fun w => { w with slots := insert a.val w.slots }
    pure a.val
  else refuse .outOfMemory

/-- `cspace_mgr.free`. -/
def cspaceFree (slot : Nat) : M Unit := modify fun w => { w with slots := w.slots.erase slot }

/-- `res_client.alloc(.., CapType::Page, .., slot)`: a new frame of `pages` pages. Its bytes
are those the service leaves in it. -/
def resAllocPage (pages slot : Nat) : M Unit := do
  let a ← ext
  modify fun w => { w with
    frames := fun s => if s = slot then some ⟨pages, a.bytes⟩ else w.frames s }

/-- The end of a frame: `res_client.free`, `CSPACE_CAP.delete` and `cspace_mgr.free`. The
outcomes of the first two are ignored. -/
def freeFrame (slot : Nat) : M Unit := modify fun w => { w with
  doubleFree := w.doubleFree || (w.frames slot).isNone
  frames := fun s => if s = slot then none else w.frames s
  slots := w.slots.erase slot }

/-! ### Page tables -/

/-- `vspace.map(frame, vaddr, perms, pages)`. -/
def vspaceMap (pid slot vaddr : Nat) (perms : Perms) (pages : Nat) : M Unit := do
  let _ ← ext
  modify (·.modifyVspace pid fun vs => vs.map slot vaddr perms pages)

/-- `vspace.unmap(vaddr, bytes)`. -/
def vspaceUnmap (pid vaddr bytes : Nat) : M Unit := do
  let _ ← ext
  modify (·.modifyVspace pid fun vs => vs.unmap vaddr bytes)

/-! ### Scratch mappings -/

/-- `vspace_mgr.map_scratch`. -/
def mapScratch (slot : Nat) (perms : Perms) (pages : Nat) : M Nat := do
  let a ← ext
  let used ← gets fun w => (w.scratch a.val).isSome
  if used then refuse .outOfMemory
  else do
    modify fun w => { w with
      scratch := fun b => if b = a.val then some ⟨slot, pages, perms⟩ else w.scratch b }
    pure a.val

/-- `vspace_mgr.unmap` of a scratch mapping. -/
def unmapScratch (base : Nat) : M Unit := do
  let _ ← ext
  modify fun w => { w with scratch := fun b => if b = base then none else w.scratch b }

/-- Change the bytes behind a scratch address, which is a raw pointer as well. -/
def writeScratch (base : Nat) (f : Nat → UInt8 → UInt8) : M Unit := modify fun w =>
  match w.scratch base with
  | none => w
  | some sc => w.writeFrame sc.slot f

/-- `copy_nonoverlapping(src + offset, dst, n)` between two scratch addresses. -/
def copyScratch (src offset dst n : Nat) : M Unit := do
  let byte ← gets fun w => w.scratchByte src
  writeScratch dst fun o b => if o < n then byte (offset + o) else b

end Ape
