import Ape.Model.Exec

/-!
# `Ape.Model.Fd`: opening and duplicating descriptors

`fs/fd.rs` without `do_close`, which is in `Ape.Model.Files`, and the pool of regions for
asynchronous reads of `ape/state.rs`. A descriptor is a `u32`. The three ways to choose one
share `next_fd`: `openat` takes it as it is, `pipe2` searches from it upwards, and the
duplications search from a minimum and raise it.
-/

set_option autoImplicit false

namespace Ape

open Ape.Lib Cmd

/-! ### Constants -/

def F_DUPFD : Nat := 0
def F_GETFD : Nat := 1
def F_SETFD : Nat := 2
def F_GETFL : Nat := 3
def F_SETFL : Nat := 4
def F_DUPFD_CLOEXEC : Nat := 1030
def FD_CLOEXEC : Nat := 1
def O_NONBLOCK : Nat := 0x800
def O_CLOEXEC : Nat := 0x80000

/-- `PIPE2_ALLOWED_FLAGS`. -/
def PIPE2_ALLOWED_FLAGS : Nat := O_CLOEXEC ||| O_NONBLOCK

/-- `FS_ASYNC_REGION_SIZE`. -/
def FS_ASYNC_REGION_SIZE : Nat := 16 * 1024

/-- `FS_ASYNC_DATA_OFFSET`, which is `FS_ASYNC_RING_SIZE`. -/
def FS_ASYNC_DATA_OFFSET : Nat := 4096

/-- `FS_ASYNC_POOL_MAX_REGIONS`. -/
def FS_ASYNC_POOL_MAX_REGIONS : Nat := 64

/-! ### Regions for asynchronous reads -/

/-- `should_try_iouring`. -/
def World.shouldTryIouring (w : World) : Bool := w.iouringSupported != some false

/-- `try_reuse_region`: the id that was freed last. -/
def tryReuseRegion : M (Option AsyncIoRegion) := do
  let free ← gets (·.asyncFree)
  match free.getLast? with
  | none => pure none
  | some id => do
    modify fun w => { w with asyncFree := free.dropLast }
    gets fun w => w.asyncRegions[id]?

/-- `reserve_async_vaddr`. -/
def reserveAsyncVaddr (size : Nat) : M Nat := do
  let vaddr ← gets (·.nextAsyncVaddr)
  let next ← getSome (checkedAdd vaddr size) .outOfMemory
  modify fun w => { w with nextAsyncVaddr := next }
  pure vaddr

/-- The part of `allocate_fs_async_region` that makes a new region. -/
def newAsyncRegion (size : Nat) : M AsyncIoRegion := do
  let frameSlot ← allocPageFrameNoCleanup (size / PGSIZE)
  let vaddr ← reserveAsyncVaddr size
  let _ ← ext
  let id ← gets (·.asyncRegions.length)
  modify fun w => { w with asyncRegions := w.asyncRegions ++ [⟨id, frameSlot, vaddr, size⟩] }
  pure ⟨id, frameSlot, vaddr, size⟩

/-- `allocate_fs_async_region`. -/
def allocateFsAsyncRegion (size : Nat) : M AsyncIoRegion := do
  let reused ← tryReuseRegion
  match reused with
  | some region => pure region
  | none => do
    let count ← gets (·.asyncRegions.length)
    if FS_ASYNC_POOL_MAX_REGIONS ≤ count then throw .outOfMemory
    else newAsyncRegion (alignUp size)

/-- `fs_client.setup_iouring` on a region: the state of the handle, when the file system takes
the region. A refused region goes back to the pool. -/
def setupIouring (region : AsyncIoRegion) : M (Option AsyncIoState) := do
  let r ← attempt ext
  match r with
  | .ok _ => do
    modify fun w => { w with iouringSupported := some true }
    if wAdd region.vaddr FS_ASYNC_DATA_OFFSET < wAdd region.vaddr region.size then
      pure (some ⟨region.id, wAdd region.vaddr FS_ASYNC_DATA_OFFSET,
        region.size - FS_ASYNC_DATA_OFFSET, 1⟩)
    else do
      recycleRegion region.id
      pure none
  | .error .notSupported => do
    modify fun w => { w with iouringSupported := some false }
    recycleRegion region.id
    pure none
  | .error _ => do
    recycleRegion region.id
    pure none

/-- The asynchronous state of a new handle in `open_via_nexus_fs`. -/
def openAsyncIo : M (Option AsyncIoState) := do
  let wanted ← gets (·.shouldTryIouring)
  if !wanted then pure none
  else do
    let r ← attempt (allocateFsAsyncRegion FS_ASYNC_REGION_SIZE)
    match r with
    | .ok region => setupIouring region
    | .error _ => pure none

/-! ### `openat` -/

/-- `files.fd_cloexec.get(&fd).copied().unwrap_or(false)`. -/
def FilesState.cloexec (fs : FilesState) (fd : Nat) : Bool := (fs.fdCloexec.get? fd).getD false

/-- The table with a new file at `next_fd`. The `+= 1` is that of a release build. -/
def FilesState.openNext (fs : FilesState) (h : FileHandle) (path : String) : FilesState :=
  { fs with
    fds := fs.fds.insert fs.nextFd h
    fdPaths := fs.fdPaths.insert fs.nextFd path
    nextFd := (fs.nextFd + 1) % 2 ^ 32 }

/-- `open_via_nexus_fs`. The flags go to the file system and nowhere else. -/
def openViaNexusFs (pid : Nat) (path : String) (flags : Nat) : M Nat := do
  let slot ← cspaceAlloc
  onError (fsOpen slot) fun _ => cspaceFree slot
  let asyncIo ← openAsyncIo
  let task ← getProcess pid
  modify fun w => { w with
    fdOverflow := w.fdOverflow || decide (2 ^ 32 ≤ task.files.nextFd + 1) }
  modifyFiles pid (·.openNext ⟨slot, 0, asyncIo⟩ path)
  logCloexec (.opened pid task.files.nextFd (flags &&& O_CLOEXEC != 0)
    (task.files.cloexec task.files.nextFd))
  pure task.files.nextFd

/-- `do_openat`. -/
def doOpenat (pid pathname flags : Nat) : M Nat := do
  let rawPath ← withUserSession (strncpyFromUser pid pathname USER_PATH_MAX)
  let task ← getProcess pid
  let resolve ← gets (·.resolvePath)
  openViaNexusFs pid (resolve rawPath task.fs.rootDir task.fs.cwd) flags

/-! ### `fcntl`, `dup` and `dup3` -/

/-- The search for a descriptor that is not open, from `fd` on: `n` values of `u32` are left. -/
def FilesState.searchFd (fs : FilesState) : Nat → Nat → Option Nat
  | 0, _ => none
  | n + 1, fd => if fs.fds.contains fd then fs.searchFd n (fd + 1) else some fd

/-- The lowest descriptor from `minFd` on that is not open. -/
def FilesState.freeFd (fs : FilesState) (minFd : Nat) : Option Nat :=
  fs.searchFd (2 ^ 32 - minFd) minFd

/-- `duplicate_normal_handle`. -/
def duplicateNormalHandle (h : FileHandle) : FileHandle := { h with asyncIo := none }

/-- `next_fd` after `fd` was opened. -/
def FilesState.raisedNextFd (fs : FilesState) (fd : Nat) : Nat :=
  if fs.nextFd ≤ fd then min (fd + 1) (2 ^ 32 - 1) else fs.nextFd

/-- The table with `newFd` open on a handle of `oldFd`. -/
def FilesState.duplicate (fs : FilesState) (oldFd newFd : Nat) (h : FileHandle)
    (cloexec : Bool) : FilesState :=
  { fds := fs.fds.insert newFd h
    fdPaths :=
      match fs.fdPaths.get? oldFd with
      | some path => fs.fdPaths.insert newFd path
      | none => fs.fdPaths
    fdCloexec := fs.fdCloexec.insert newFd cloexec
    nextFd := fs.raisedNextFd newFd }

/-- The `F_DUPFD` and `F_DUPFD_CLOEXEC` branch of `do_fcntl`. -/
def dupFd (pid fd arg : Nat) (cloexec : Bool) : M Nat := do
  let task ← getProcess pid
  let handle ← getSome (task.files.fds.get? fd) .invalidSlot
  if 2 ^ 32 ≤ arg then throw .invalidArgs
  else do
    let newFd ← getSome (task.files.freeFd arg) .outOfMemory
    modifyFiles pid (·.duplicate fd newFd (duplicateNormalHandle handle) cloexec)
    logCloexec (.set pid newFd cloexec)
    pure newFd

/-- `do_fcntl`. -/
def doFcntl (pid fd cmd arg : Nat) : M Nat :=
  if 2 ^ 32 ≤ fd then throw .invalidSlot
  else if 2 ^ 32 ≤ cmd then throw .invalidArgs
  else if cmd = F_DUPFD ∨ cmd = F_DUPFD_CLOEXEC then dupFd pid fd arg (cmd = F_DUPFD_CLOEXEC)
  else if cmd ≠ F_GETFD ∧ cmd ≠ F_SETFD ∧ cmd ≠ F_GETFL ∧ cmd ≠ F_SETFL then throw .invalidArgs
  else do
    let task ← getProcess pid
    let _ ← getSome (task.files.fds.get? fd) .invalidSlot
    if cmd = F_GETFD then
      pure (if task.files.cloexec fd then FD_CLOEXEC else 0)
    else if cmd = F_SETFD then do
      modifyFiles pid fun fs => { fs with
        fdCloexec := fs.fdCloexec.insert fd (arg &&& FD_CLOEXEC != 0) }
      logCloexec (.set pid fd (arg &&& FD_CLOEXEC != 0))
      pure 0
    else pure 0

/-- `do_dup`. -/
def doDup (pid fd : Nat) : M Nat := doFcntl pid fd F_DUPFD 0

/-- `do_dup3`. -/
def doDup3 (pid oldfd newfd flags : Nat) : M Nat :=
  if 2 ^ 32 ≤ oldfd ∨ 2 ^ 32 ≤ newfd then throw .invalidSlot
  else if oldfd = newfd then throw .invalidArgs
  else if flags ||| O_CLOEXEC ≠ O_CLOEXEC then throw .invalidArgs
  else do
    let task ← getProcess pid
    let handle ← getSome (task.files.fds.get? oldfd) .invalidSlot
    when (task.files.fds.contains newfd) (doClose pid newfd)
    let _ ← getProcess pid
    modifyFiles pid
      (·.duplicate oldfd newfd (duplicateNormalHandle handle) (flags &&& O_CLOEXEC != 0))
    logCloexec (.set pid newfd (flags &&& O_CLOEXEC != 0))
    pure newfd

/-! ### `pipe2` -/

/-- `create_pipe`: zero when there is no pipe file system or it does not answer. -/
def createPipe : M Nat := do
  let endpoint ← gets (·.pipeVfsEndpoint)
  if !endpoint then pure 0
  else do
    let r ← attempt ext
    match r with
    | .ok a => pure a.val
    | .error _ => pure 0

/-- `open_pipe_end_via_pipefs`. -/
def openPipeEndViaPipefs : M Nat := do
  let endpoint ← gets (·.pipeVfsEndpoint)
  if !endpoint then throw .notFound
  else do
    let slot ← cspaceAlloc
    onError (fsOpen slot) fun _ => cspaceFree slot
    pure slot

/-- The table with the two ends of a pipe. -/
def FilesState.addPipe (fs : FilesState) (readFd writeFd readSlot writeSlot : Nat)
    (cloexec : Bool) : FilesState :=
  { fs with
    fds := (fs.fds.insert readFd ⟨readSlot, 0, none⟩).insert writeFd ⟨writeSlot, 0, none⟩
    fdCloexec := (fs.fdCloexec.insert readFd cloexec).insert writeFd cloexec
    nextFd := min (writeFd + 1) (2 ^ 32 - 1) }

/-- The cleanup of `do_pipe2` when the two numbers cannot be stored. -/
def removePipe (pid readFd writeFd : Nat) : M Unit := do
  let task ← getProcess pid
  modifyFiles pid fun fs => { fs with
    fds := (fs.fds.erase readFd).erase writeFd
    fdCloexec := (fs.fdCloexec.erase readFd).erase writeFd }
  whenSome (task.files.fds.get? readFd) fun h => closeEndpoint h.fsEpSlot
  whenSome (task.files.fds.get? writeFd) fun h => closeEndpoint h.fsEpSlot

/-- The end of `do_pipe2`, with both ends open. The two numbers must fit in an `i32`, which is
looked at when the table has them. -/
def installPipe (pid pipefd readSlot writeSlot : Nat) (cloexec : Bool) : M Unit := do
  let task ← getProcess pid
  let readFd ← getSome (task.files.freeFd task.files.nextFd) .outOfMemory
  let writeFd ← getSome (task.files.freeFd (readFd + 1)) .outOfMemory
  modifyFiles pid (·.addPipe readFd writeFd readSlot writeSlot cloexec)
  logCloexec (.set pid readFd cloexec)
  logCloexec (.set pid writeFd cloexec)
  if 2 ^ 31 ≤ readFd ∨ 2 ^ 31 ≤ writeFd then throw .outOfMemory
  else
    onError (copyToUser pid pipefd (leBytes 4 readFd ++ leBytes 4 writeFd)) fun _ =>
      removePipe pid readFd writeFd

/-- `do_pipe2`. -/
def doPipe2 (pid pipefd flags : Nat) : M Unit :=
  if pipefd = 0 then throw .invalidAddress
  else if 2 ^ 32 ≤ flags ∨ flags ||| PIPE2_ALLOWED_FLAGS ≠ PIPE2_ALLOWED_FLAGS then
    throw .invalidArgs
  else do
    let pipeId ← createPipe
    if pipeId = 0 then throw .notFound
    else do
      let readSlot ← openPipeEndViaPipefs
      let writeSlot ← onError openPipeEndViaPipefs fun _ => closeEndpoint readSlot
      installPipe pid pipefd readSlot writeSlot (flags &&& O_CLOEXEC != 0)

/-! ### `getdents64` -/

/-- `DIRENT64_FIXED_SIZE`. -/
def DIRENT64_FIXED_SIZE : Nat := 8 + 8 + 2 + 1

/-- `DIRENT64_MIN_RECLEN`. -/
def DIRENT64_MIN_RECLEN : Nat := 24

/-- `align_up_8`, for a length. -/
def alignUp8 (v : Nat) : Nat := (v + 7) / 8 * 8

/-- `DEntry`, as the file system returns it. -/
structure DEntry where
  dIno : UInt64
  dOff : UInt64
  dType : UInt8
  dName : List UInt8
  deriving DecidableEq

namespace DEntry

/-- `&entry.d_name[..name_len]`: the name up to its first NUL. -/
def name (e : DEntry) : List UInt8 := e.dName.takeWhile (· ≠ 0)

/-- `reclen`. -/
def reclen (e : DEntry) : Nat := alignUp8 (DIRENT64_FIXED_SIZE + e.name.length + 1)

/-- What one round of the loop appends. -/
def record (e : DEntry) : List UInt8 :=
  let fields := leBytes 8 e.dIno.toNat ++ leBytes 8 e.dOff.toNat ++ leBytes 2 e.reclen ++
    [e.dType] ++ e.name ++ [0]
  fields ++ List.replicate (e.reclen - fields.length) 0

end DEntry

/-- The loop of `do_getdents64` over the entries that are left. The length of a `Vec` and a record
do not saturate. -/
def packDirents (count : Nat) : List DEntry → List UInt8 → Except Err (List UInt8)
  | [], packed => .ok packed
  | e :: rest, packed =>
    if 2 ^ 16 ≤ e.reclen then .error .outOfMemory
    else if count < packed.length + e.reclen then .ok packed
    else packDirents count rest (packed ++ e.record)

/-- `do_getdents64`. The entries are in the answer of the file system, from which `dents` reads
them. -/
def doGetdents64 (dents : Ext → List DEntry) (pid fd dirp count : Nat) : M Nat :=
  if count = 0 then pure 0
  else if dirp = 0 then throw .invalidAddress
  else if count < DIRENT64_MIN_RECLEN then throw .invalidArgs
  else withFdHandleMut pid fd do
    let a ← inFst ext
    let packed ← ofExcept (packDirents count (dents a) [])
    when (packed ≠ []) (inFst (copyToUser pid dirp packed))
    pure packed.length

end Ape
