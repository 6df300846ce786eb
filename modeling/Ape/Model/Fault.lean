import Ape.Model.Exec
import Ape.Model.Mm

/-!
# `Ape.Model.Fault`: page faults

The upper half of `ape/fault.rs` and the classification of `ape/fault_policy.rs`. A fault in
an entry of `memory_maps` resolves copy-on-write, flips an image page between writable and
executable, or installs the entry again. A fault outside the entries grows the stack, the
heap or a lazy mapping, or ends the process.
-/

set_option autoImplicit false

namespace Ape

open Ape.Lib Cmd

/-- The cause of a page fault: `INST_PAGE_FAULT`, `LOAD_PAGE_FAULT`, `STORE_PAGE_FAULT` of the
target, or any other number. -/
inductive FaultCause where
  | inst | load | store | other
  deriving DecidableEq, Repr

/-- `fault_access_allowed`. -/
def faultAccessAllowed (cause : FaultCause) (perms : Perms) : Bool :=
  match cause with
  | .inst => perms.contains Perms.X
  | .load => perms.contains Perms.R
  | .store => perms.contains Perms.W
  | .other => true

/-- `FaultAction`. -/
inductive FaultAction where
  | stackGrowth (currentStackLow pagesToMap : Nat)
  | heapLazy
  | lazyMmap (map : MemoryMap)
  | unmanaged

/-- `classify_fault`. -/
def classifyFault (mm : MmState) (addr pageAddr : Nat) : FaultAction :=
  match mm.lookupLazyMemoryMap addr with
  | some m => .lazyMmap m
  | none =>
    if mm.stackBottom - mm.maxStackSize ≤ addr ∧ addr < mm.stackBottom - mm.stackSize then
      .stackGrowth (mm.stackBottom - mm.stackSize)
        ((mm.stackBottom - mm.stackSize - pageAddr) / PGSIZE)
    else if mm.heapStart ≤ addr ∧ addr < mm.heapBrk then .heapLazy
    else .unmanaged

/-- `map_fault_page`. -/
def mapFaultPage (pid pageAddr : Nat) (perms : Perms) (memType : MemoryType) : M Unit := do
  let slot ← allocPageFrameNoCleanup 1
  ledgerRecordFrameAlloc pid slot
  mapProcessFrame pid slot pageAddr perms 1
  let _ ← getProcess pid
  modifyMm pid (·.addMemoryMap (pageEntry pageAddr perms memType slot))

/-! ### File-backed pages -/

/-- Whether the lazy entry at page `idx` continues a span that starts with `m`. -/
def continuesSpan (mm : MmState) (m : MemoryMap) (pageAddr idx : Nat) : Bool :=
  match mm.lazyMemoryMaps.get? (satAdd pageAddr (idx * PGSIZE)) with
  | some c =>
    c.memType == .fileBacked && c.fileBackingFd == m.fileBackingFd && c.flags == m.flags
      && c.fileBackingOffset == satAdd m.fileBackingOffset (idx * PGSIZE)
  | none => false

/-- The span of a file-backed fault: the requested pages up to the first that does not
continue it, and at least one. -/
def spanPages (mm : MmState) (m : MemoryMap) (pageAddr requestPages : Nat) : Nat :=
  1 + ((List.range' 1 (max requestPages 1 - 1)).takeWhile (continuesSpan mm m pageAddr)).length

/-- The entry of a file-backed span. -/
def fileEntry (m : MemoryMap) (pageAddr pages slot : Nat) : MemoryMap :=
  { pageEntry pageAddr m.flags .fileBacked slot with
    size := pages * PGSIZE, fileBackingFd := m.fileBackingFd,
    fileBackingOffset := m.fileBackingOffset }

/-- `fs_client.map_pages`: a frame of the file's pages arrives in `slot`. The file and the offset
that the call names are in the event of the filled pages. -/
def fsMapPages (pages slot : Nat) : M Nat := do
  let a ← ext
  modify fun w => { w with
    frames := fun s => if s = slot then some ⟨pages, a.bytes⟩ else w.frames s }
  pure a.val

/-- The table after a file-backed span is installed. -/
def MmState.installSpan (mm : MmState) (m : MemoryMap) (pageAddr pages slot : Nat) : MmState :=
  ((List.range pages).foldl (fun mm idx => mm.removeLazyMemoryMap (pageAddr + idx * PGSIZE))
    mm).addMemoryMap (fileEntry m pageAddr pages slot)

/-- The descriptor of a file mapping is still open. -/
def backingHandle (pid fd : Nat) : M FileHandle := do
  let task ← getProcess pid
  getSome (task.files.fds.get? fd) .invalidSlot

/-- `try_zero_copy` of `map_file_backed_fault_page`: the number of installed pages, or zero
when the file cannot be mapped. -/
def tryZeroCopy (pid fd pageAddr : Nat) (m : MemoryMap) (pages : Nat) : M Nat := do
  let handle ← backingHandle pid fd
  let slot ← cspaceAlloc
  let r ← attempt (fsMapPages pages slot)
  match r with
  | .ok 0 => do
    releaseProcessFrameSlot pid slot
    throw .ioError
  | .ok (_ + 1) => do
    onError (mapProcessFrame pid slot pageAddr m.flags pages) fun _ =>
      releaseProcessFrameSlot pid slot
    let _ ← getProcess pid
    modifyMm pid (·.installSpan m pageAddr pages slot)
    emit (.filled ⟨pid, pageAddr, pages, handle.fsEpSlot, m.fileBackingOffset⟩)
    pure pages
  | .error .notSupported => do
    cspaceFree slot
    pure 0
  | .error e => do
    cspaceFree slot
    throw e

/-- `fs_client.read` of a page into a zeroed scratch page. -/
def fillFromFile (scratch : Nat) : M Unit := do
  fillScratch scratch PGSIZE fun _ => 0
  let a ← ext
  fillScratch scratch (min a.val PGSIZE) a.bytes

/-- The copying path of `map_file_backed_fault_page`. -/
def copyFilePage (pid fd pageAddr : Nat) (m : MemoryMap) : M Nat := do
  let handle ← backingHandle pid fd
  let slot ← allocPageFrame
  ledgerRecordFrameAlloc pid slot
  onError (mapProcessFrame pid slot pageAddr m.flags 1) fun _ => releaseProcessFrameSlot pid slot
  let scratch ← onError (mapScratch slot Perms.RW 1) fun _ => do
    ignore (unmapProcessPages pid pageAddr 1)
    releaseProcessFrameSlot pid slot
  let r ← attempt (fillFromFile scratch)
  ignore (unmapScratch scratch)
  onError (ofExcept r) fun _ => do
    ignore (unmapProcessPages pid pageAddr 1)
    releaseProcessFrameSlot pid slot
  let _ ← getProcess pid
  modifyMm pid (·.installSpan m pageAddr 1 slot)
  emit (.filled ⟨pid, pageAddr, 1, handle.fsEpSlot, m.fileBackingOffset⟩)
  pure 1

/-- `map_file_backed_fault_page`. -/
def mapFileBackedFaultPage (pid pageAddr : Nat) (m : MemoryMap) (requestPages : Nat) :
    M Nat := do
  let fd ← getSome m.fileBackingFd .invalidArgs
  let task ← getProcess pid
  let n ← tryZeroCopy pid fd pageAddr m (spanPages task.mm.state m pageAddr requestPages)
  if 0 < n then pure n else copyFilePage pid fd pageAddr m

/-! ### Faults in an entry -/

/-- `remap_existing_page`. -/
def remapExistingPage (pid pageAddr frameCap : Nat) (perms : Perms) (pages : Nat) : M Unit := do
  ignore (unmapProcessPages pid pageAddr pages)
  mapProcessFrame pid frameCap pageAddr perms pages
  modifyMm pid fun mm => { mm with
    memoryMaps := mm.memoryMaps.modify pageAddr fun m => { m with flags := perms } }

/-- The copy of a frame's first page into another frame. -/
def copyFramePage (oldFrame newFrame : Nat) : M Unit := do
  let src ← mapScratch oldFrame Perms.R 1
  let dst ← onError (mapScratch newFrame Perms.RW 1) fun _ => ignore (unmapScratch src)
  copyScratch src 0 dst PGSIZE
  ignore (unmapScratch src)
  ignore (unmapScratch dst)

/-- `resolve_cow_fault`. -/
def resolveCowFault (pid pageAddr oldFrameCap : Nat) (perms : Perms) : M Unit :=
  if !perms.contains Perms.W then throw .permissionDenied
  else do
    let slot ← allocPageFrameNoCleanup 1
    ledgerRecordFrameAlloc pid slot
    copyFramePage oldFrameCap slot
    ignore (unmapProcessPages pid pageAddr 1)
    mapProcessFrame pid slot pageAddr perms 1
    modifyMm pid fun mm => { mm with
      memoryMaps := mm.memoryMaps.modify pageAddr fun m =>
        { m with frameCap := slot, cow := false, flags := perms } }
    releaseProcessFrameSlot pid oldFrameCap

/-- The permissions of an image page that a fault flips, if it does. -/
def adjustedImagePerms (cause : FaultCause) (flags : Perms) : Option Perms :=
  if cause = .store ∧ flags.contains Perms.X ∧ ¬ flags.contains Perms.W then
    some (flags.union Perms.W).removeExecute
  else if cause = .inst ∧ flags.contains Perms.W ∧ ¬ flags.contains Perms.X then
    some (flags.union Perms.X).removeWrite
  else none

/-- `terminate_process(pid, get_exit_code_for_signal(signum))`. -/
def terminateBySignal (pid signum : Nat) : M Unit :=
  terminateProcess pid (getExitCodeForSignal signum)

/-- The branch of `page_fault` for an address in an entry. -/
def faultInEntry (pid : Nat) (cause : FaultCause) (m : MemoryMap) : M Unit :=
  if cause = .store ∧ m.cow then
    if !m.flags.contains Perms.W then terminateBySignal pid SIGSEGV
    else resolveCowFault pid m.vaddr m.frameCap m.flags
  else if !faultAccessAllowed cause m.flags then
    match (if m.memType = .image then adjustedImagePerms cause m.flags else none) with
    | some perms => remapExistingPage pid m.vaddr m.frameCap perms m.pages
    | none => terminateBySignal pid SIGSEGV
  else
    remapExistingPage pid m.vaddr m.frameCap
      (if m.cow then m.flags.removeWrite else m.flags) m.pages

/-! ### Faults outside the entries -/

/-- The stack growth of `page_fault`. -/
def faultStackGrowth (pid low pages : Nat) : M Unit :=
  forEach (List.range pages) fun idx => do
    mapFaultPage pid (low - (idx + 1) * PGSIZE) Perms.RW .stack
    modifyMm pid fun mm => { mm with stackSize := mm.stackSize + PGSIZE }

/-- The pages that a file-backed fault asks for. -/
def requestPages (pageAddr : Nat) (m : MemoryMap) : Nat :=
  if pageAddr % L1_HUGE_SIZE = 0 ∧ m.fileBackingOffset % L1_HUGE_SIZE = 0 then L1_HUGE_PAGES else 4

/-- The branch of `page_fault` for a lazy entry. -/
def faultLazyMmap (pid pageAddr : Nat) (m : MemoryMap) : M Unit :=
  if m.memType = .fileBacked then do
    let r ← attempt (mapFileBackedFaultPage pid pageAddr m (requestPages pageAddr m))
    match r with
    | .ok _ => pure ()
    | .error _ => terminateBySignal pid SIGBUS
  else do
    modifyMm pid (·.removeLazyMemoryMap pageAddr)
    mapFaultPage pid pageAddr m.flags m.memType

/-- The branch of `page_fault` for an address outside the entries. -/
def faultOutside (pid : Nat) (cause : FaultCause) (mm : MmState) (addr : Nat) : M Unit :=
  match classifyFault mm addr (alignDown addr) with
  | .stackGrowth low pages =>
    if !faultAccessAllowed cause Perms.RW then terminateBySignal pid SIGSEGV
    else faultStackGrowth pid low pages
  | .heapLazy =>
    if !faultAccessAllowed cause Perms.RW then terminateBySignal pid SIGSEGV
    else mapFaultPage pid (alignDown addr) Perms.RW .heap
  | .lazyMmap m =>
    if !faultAccessAllowed cause m.flags then terminateBySignal pid SIGSEGV
    else faultLazyMmap pid (alignDown addr) m
  | .unmanaged => terminateBySignal pid SIGSEGV

/-- `page_fault`. -/
def pageFault (pid addr : Nat) (cause : FaultCause) : M Unit := do
  let task ← getProcess pid
  match task.mm.state.lookupMemoryMap addr with
  | some m => faultInEntry pid cause m
  | none => faultOutside pid cause task.mm.state addr

end Ape
