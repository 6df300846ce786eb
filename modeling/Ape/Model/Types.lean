import Ape.Lib.OrdMap
import Mathlib.Data.Finset.Basic
import Mathlib.Data.Prod.Lex

/-!
# `Ape.Model.Types`: words, permissions and the records of a process

A machine word is a `Nat`. Where the source relies on the width of `usize`, the operation
is written out: `checkedAdd` fails past the word, `satAdd` stops at its end, and `wAdd` is
the plain `+` of a release build.

The records follow `ape/mm.rs`, `ape/files.rs`, `ape/signal.rs`, `ape/task.rs` and
`ape/state.rs` field by field. The page table of a process is the function `VSpace` from
page numbers to entries: it is what the kernel holds behind the `VSpace` capability. A
physical frame is named by its capability slot.
-/

set_option autoImplicit false

namespace Ape

open Ape.Lib

/-! ### Words -/

/-- The number of values of `usize`. -/
def usizeMod : Nat := 2 ^ 64

/-- `usize::MAX`. -/
def usizeMax : Nat := usizeMod - 1

/-- `a.checked_add(b)`. -/
def checkedAdd (a b : Nat) : Option Nat := if a + b < usizeMod then some (a + b) else none

/-- `a.saturating_add(b)`. -/
def satAdd (a b : Nat) : Nat := min (a + b) usizeMax

/-- `n as isize`. -/
def asIsize (n : Nat) : Int := (BitVec.ofNat 64 n).toInt

/-- `a.checked_add(b)` of two `isize`. -/
def checkedAddIsize (a b : Int) : Option Int :=
  if -2 ^ 63 ≤ a + b ∧ a + b < 2 ^ 63 then some (a + b) else none

/-- `a + b` of a release build. -/
def wAdd (a b : Nat) : Nat := (a + b) % usizeMod

/-- The page size of the target, `glenda::arch::mem::PGSIZE`. -/
def PGSIZE : Nat := 4096

/-- `align_down(a, PGSIZE)`. -/
def alignDown (a : Nat) : Nat := a / PGSIZE * PGSIZE

/-- `align_up(a, PGSIZE)`: the addition of `PGSIZE - 1` wraps at the end of the word. -/
def alignUp (a : Nat) : Nat := wAdd a (PGSIZE - 1) / PGSIZE * PGSIZE

/-- `(start..end).step_by(PGSIZE)`. -/
def pageRange (start stop : Nat) : List Nat :=
  (List.range ((stop - start + (PGSIZE - 1)) / PGSIZE)).map fun i => start + i * PGSIZE

/-- The value of little-endian bytes. -/
def leNat : List UInt8 → Nat
  | [] => 0
  | b :: bs => b.toNat + 256 * leNat bs

/-- The `k` little-endian bytes of a value. -/
def leBytes : Nat → Nat → List UInt8
  | 0, _ => []
  | k + 1, n => UInt8.ofNat (n % 256) :: leBytes k (n / 256)

/-! ### Errors -/

/-- `glenda::error::Error`, the variants the server produces or matches on. `stalled` is the
outcome of a polling loop that has not ended within the rounds it is followed for, and
`panicked` that of a `panic!`: neither returns to the dispatch loop. -/
inductive Err where
  | success | notFound | invalidArgs | invalidAddress | invalidSlot | outOfMemory
  | permissionDenied | wouldBlock | messageTooLong | ioError | notSupported | alreadyExists
  | mappingFailed | invalidCapability | invalidType | invalidProtocol | notInitialized
  | stalled | panicked
  deriving DecidableEq, Repr

/-! ### Memory -/

/-- `glenda::mem::Perms`. -/
structure Perms where
  read : Bool
  write : Bool
  execute : Bool
  deriving DecidableEq, Repr

namespace Perms

/-- `Perms::READ`. -/
def R : Perms := ⟨true, false, false⟩

/-- `Perms::WRITE`. -/
def W : Perms := ⟨false, true, false⟩

/-- `Perms::EXECUTE`. -/
def X : Perms := ⟨false, false, true⟩

/-- `Perms::READ | Perms::WRITE`. -/
def RW : Perms := ⟨true, true, false⟩

/-- `self.contains(other)`. -/
def contains (p q : Perms) : Bool :=
  (p.read || !q.read) && (p.write || !q.write) && (p.execute || !q.execute)

/-- `self | other`. -/
def union (p q : Perms) : Perms := ⟨p.read || q.read, p.write || q.write, p.execute || q.execute⟩

/-- `self.remove(Perms::WRITE)`. -/
def removeWrite (p : Perms) : Perms := { p with write := false }

/-- `self.remove(Perms::EXECUTE)`. -/
def removeExecute (p : Perms) : Perms := { p with execute := false }

end Perms

/-- `MemoryType`. -/
inductive MemoryType where
  | image | stack | heap | anonymous | fileBacked
  deriving DecidableEq, Repr

/-- `MemoryMap`. -/
structure MemoryMap where
  vaddr : Nat
  paddr : Nat
  size : Nat
  flags : Perms
  memType : MemoryType
  cow : Bool
  frameCap : Nat
  fileBackingFd : Option Nat
  fileBackingOffset : Nat
  deriving DecidableEq

/-- The number of pages of an entry, `align_up(map.size, PGSIZE) / PGSIZE`. -/
def MemoryMap.pages (m : MemoryMap) : Nat := alignUp m.size / PGSIZE

/-- The bytes of an entry's extent. -/
def MemoryMap.Contains (m : MemoryMap) (a : Nat) : Prop := m.vaddr ≤ a ∧ a < m.vaddr + m.size

instance (m : MemoryMap) (a : Nat) : Decidable (m.Contains a) :=
  inferInstanceAs (Decidable (_ ∧ _))

/-- `MmState`, without the page-table bookkeeping. -/
structure MmState where
  memoryMaps : OrdMap Nat MemoryMap
  lazyMemoryMaps : OrdMap Nat MemoryMap
  stackBottom : Nat
  stackSize : Nat
  maxStackSize : Nat
  heapStart : Nat
  heapBrk : Nat
  heapLimit : Nat
  mmapBase : Nat
  mmapNext : Nat
  mmapLimit : Nat

/-- An entry of a process's page table: page `index` of the frame in `slot`, installed with
`perms`. -/
structure Pte where
  slot : Nat
  index : Nat
  perms : Perms
  deriving DecidableEq

/-- The page table behind a `VSpace` capability, by page number. -/
abbrev VSpace := Nat → Option Pte

/-- `VSpace::map`: the pages of a frame, from the page of `vaddr` on. -/
def VSpace.map (vs : VSpace) (slot vaddr : Nat) (perms : Perms) (pages : Nat) : VSpace := fun v =>
  if vaddr / PGSIZE ≤ v ∧ v < vaddr / PGSIZE + pages then
    some ⟨slot, v - vaddr / PGSIZE, perms⟩
  else vs v

/-- `VSpace::unmap` of `bytes` bytes from `vaddr` on. -/
def VSpace.unmap (vs : VSpace) (vaddr bytes : Nat) : VSpace := fun v =>
  if vaddr / PGSIZE ≤ v ∧ v < vaddr / PGSIZE + bytes / PGSIZE then none else vs v

/-- `MmStruct`. `intermediatePageTables` is kept beside the page table it describes. -/
structure MmStruct where
  vspace : VSpace
  intermediatePageTables : OrdMap (Nat ×ₗ Nat) Nat
  state : MmState

/-- A physical frame: its length in pages and its bytes. What `data` has past the last page is not
in the frame, and stands for memory that nothing is known of. -/
structure Frame where
  pages : Nat
  data : Nat → UInt8

/-! ### Files -/

/-- `AsyncIoRegion`. -/
structure AsyncIoRegion where
  id : Nat
  frameSlot : Nat
  vaddr : Nat
  size : Nat
  deriving DecidableEq

/-- `AsyncIoState`, without the ring client. -/
structure AsyncIoState where
  regionId : Nat
  dataVaddr : Nat
  dataLen : Nat
  nextUserData : Nat
  deriving DecidableEq

/-- `NormalFileHandle`. The client is the endpoint in `fsEpSlot`, and the only backend is
`Fs`. -/
structure FileHandle where
  fsEpSlot : Nat
  offset : Nat
  asyncIo : Option AsyncIoState
  deriving DecidableEq

/-- `FilesState`. -/
structure FilesState where
  fds : OrdMap Nat FileHandle
  fdPaths : OrdMap Nat String
  fdCloexec : OrdMap Nat Bool
  nextFd : Nat

/-- `FsState`. -/
structure FsState where
  rootDir : String
  cwd : String

/-! ### Signals -/

/-- A set of signals as the source's `u64`: bit `s - 1` stands for signal `s`. -/
abbrev SigSet := BitVec 64

/-- `SignalAction`. -/
structure SignalAction where
  handler : Nat
  flags : Nat
  restorer : Nat
  mask : SigSet
  deriving DecidableEq

/-- `SignalAction::default()`. -/
def SignalAction.default : SignalAction := ⟨0, 0, 0, 0⟩

/-- `Wait4BlockRequest`. -/
structure Wait4BlockRequest where
  targetPid : Int
  callerPgid : Nat
  deriving DecidableEq

/-- `SignalStruct` with its `SignalState`. -/
structure SignalStruct where
  signalBlocked : SigSet
  signalPending : SigSet
  sigsuspendSavedMask : Option SigSet
  wait4Blocked : Option Wait4BlockRequest
  clearChildTid : Nat
  deriving DecidableEq

/-! ### Tasks -/

/-- `TaskLifecycleState`. -/
inductive TaskLifecycleState where
  | running | stopped | exiting | exited
  deriving DecidableEq, Repr

/-- `TaskStruct`. `cspace` is the slot of the process's CNode. The thread capability and the
identity are not modelled: what the server asks of the thread is recorded in the trace. -/
structure TaskStruct where
  pid : Nat
  parentPid : Nat
  sessionId : Nat
  processGroupId : Nat
  controllingTty : Nat
  cspace : Nat
  lifecycle : TaskLifecycleState
  stopped : Bool
  mm : MmStruct
  files : FilesState
  fs : FsState
  signalActions : OrdMap Nat SignalAction
  signal : SignalStruct

/-- `ChildStateEventKind`. -/
inductive ChildStateEventKind where
  | exited | stopped | continued
  deriving DecidableEq, Repr

/-- `ChildStateEvent`. -/
structure ChildStateEvent where
  childPid : Nat
  waitStatus : Nat
  processGroupId : Nat
  kind : ChildStateEventKind
  deriving DecidableEq

/-- `ProcessLifecycleSnapshot`. -/
structure ProcessLifecycleSnapshot where
  parentPid : Nat
  processGroupId : Nat
  state : TaskLifecycleState
  waitStatus : Option Nat
  deriving DecidableEq

/-- `PendingWaitReply`. -/
structure PendingWaitReply where
  replySlot : Nat
  targetPid : Int
  wstatus : Nat
  options : Nat
  callerPgid : Nat
  deriving DecidableEq

/-- `PendingSleepReply`. -/
structure PendingSleepReply where
  replySlot : Nat
  remPtr : Nat
  deadlineNs : Nat
  requestId : Nat
  deriving DecidableEq

/-- The live resources of a process in `ApeProcessLedger`. The counters that no function
reads are left out. -/
structure ProcessLedger where
  liveFrames : Finset Nat
  livePagetables : Finset Nat
  deriving DecidableEq

/-! ### The address-space constants of the target -/

/-- `DEFAULT_MAX_STACK_SIZE`. -/
def DEFAULT_MAX_STACK_SIZE : Nat := 8 * 1024 * 1024

/-- The address-space constants that `glenda` fixes for the target, and what the server
relies on: they are page-aligned, and the regions the server derives from them exist. -/
structure Layout where
  heapVa : Nat
  stackBase : Nat
  threadAreaBase : Nat
  trampolineVa : Nat
  utcbVa : Nat
  trapframeVa : Nat
  /-- The shifts of the page-table levels above the huge-page level, `SHIFTS[2..]`. -/
  upperShifts : List Nat
  heapVa_aligned : heapVa % PGSIZE = 0
  stackBase_aligned : stackBase % PGSIZE = 0
  utcbVa_aligned : utcbVa % PGSIZE = 0
  stack_fits : DEFAULT_MAX_STACK_SIZE ≤ stackBase
  stack_below : stackBase < usizeMod
  mmapBase_below : heapVa + 16 * PGSIZE < usizeMod
  utcb_below : utcbVa < usizeMod
  tls_fits : 12 * PGSIZE ≤ utcbVa

namespace Layout

/-- `DEFAULT_MMAP_BASE`. -/
def mmapBase (l : Layout) : Nat := l.heapVa + 16 * PGSIZE

/-- `DEFAULT_MMAP_LIMIT`. -/
def mmapLimit (l : Layout) : Nat := l.threadAreaBase - 16 * PGSIZE

/-- `DEFAULT_HEAP_LIMIT`. -/
def heapLimit (l : Layout) : Nat := l.mmapBase

/-- `SHIFTS`: page, huge page, and the levels above. -/
def shifts (l : Layout) : List Nat := 12 :: 21 :: l.upperShifts

end Layout

end Ape
