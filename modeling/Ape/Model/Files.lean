import Ape.Model.User

/-!
# `Ape.Model.Files`: reads, writes and seeks through a descriptor, and `close`

`io/file.rs` and the part of `fs/fd.rs` that ends a descriptor. A file endpoint is outside
the server: a read returns bytes of its choice, at most as many as were asked for, and a
write accepts a number of bytes of its choice.

A call takes the handle out of the table, works on its copy and puts it back, also after an
error. The copy is the local state of the command.
-/

set_option autoImplicit false

namespace Ape

open Ape.Lib Cmd

/-- `FS_SYNC_RW_CHUNK`. -/
def FS_SYNC_RW_CHUNK : Nat := 4096

/-- Change the descriptor table of a process. -/
def modifyFiles (pid : Nat) (f : FilesState → FilesState) : M Unit :=
  modifyTask pid fun t => { t with files := f t.files }

/-- The descriptor table without `fd`. -/
def FilesState.removeFd (fs : FilesState) (fd : Nat) : FilesState :=
  { fs with fds := fs.fds.erase fd }

/-- The descriptor table with `fd` open on `h`. -/
def FilesState.insertFd (fs : FilesState) (fd : Nat) (h : FileHandle) : FilesState :=
  { fs with fds := fs.fds.insert fd h }

/-- A command on a file handle. -/
abbrev H := Cmd (World × FileHandle) Err

/-- `fs_client.read`: at most `len` bytes. -/
def fsRead (slot offset len : Nat) : M (List UInt8) := do
  let a ← ext
  emit (.fileRead slot offset (min a.val len))
  pure ((List.range (min a.val len)).map a.bytes)

/-- `fs_client.write`: how many of the bytes were accepted. -/
def fsWrite (slot offset : Nat) (bytes : List UInt8) : M Nat := do
  let a ← ext
  emit (.fileWritten slot offset (min a.val bytes.length))
  pure (min a.val bytes.length)

/-- `fs_client.open`: the endpoint of a file arrives in `slot`. -/
def fsOpen (slot : Nat) : M Unit := do
  let _ ← ext
  modify fun w => { w with openEndpoints := insert slot w.openEndpoints }

/-- `with_fd_handle_mut`. -/
def withFdHandleMut {α : Type} (pid fd : Nat) (f : H α) : M α :=
  if 2 ^ 32 ≤ fd then throw .invalidSlot
  else do
    let task ← getProcess pid
    let handle ← getSome (task.files.fds.get? fd) .invalidSlot
    modifyFiles pid (·.removeFd fd)
    let r ← runWith f handle
    modifyFiles pid (·.insertFd fd r.2)
    ofExcept r.1

/-- Whether some process has the endpoint in `slot` open. -/
def World.endpointShared (w : World) (slot : Nat) : Bool :=
  w.tasks.values.any fun t => t.files.fds.values.any fun h => h.fsEpSlot = slot

/-- The handle with its position at `n`. The table does not have the handle, so an endpoint that it
has belongs to another descriptor too. -/
def moveTo (n : Nat) (s : World × FileHandle) : World × FileHandle :=
  ({ s.1 with
    positionSplit := s.1.positionSplit || (decide (n ≠ s.2.offset)
      && s.1.endpointShared s.2.fsEpSlot) },
   { s.2 with offset := n })

/-- `normal.offset = normal.offset.saturating_add(n)`. -/
def advanceOffset (n : Nat) : H Unit := modify fun s => moveTo (satAdd s.2.offset n) s

/-- The loop of `do_read`, with `total` bytes read. A round that goes on reads a whole
chunk, so a fuel of `len` is enough. -/
def readLoop (pid bufPtr len : Nat) : Nat → Nat → H Nat
  | 0, total => pure total
  | fuel + 1, total =>
    if total < len then do
      let chunk := min (len - total) FS_SYNC_RW_CHUNK
      let handle ← gets (·.2)
      let bytes ← inFst (fsRead handle.fsEpSlot handle.offset chunk)
      if bytes = [] then pure total
      else do
        let userDst ← getSome (checkedAdd bufPtr total) .invalidAddress
        inFst (copyToUser pid userDst bytes)
        advanceOffset bytes.length
        if bytes.length < chunk then pure (total + bytes.length)
        else readLoop pid bufPtr len fuel (total + bytes.length)
    else pure total

/-- `do_read`. -/
def doRead (pid fd bufPtr len : Nat) : M Nat :=
  if len = 0 then pure 0
  else withFdHandleMut pid fd (readLoop pid bufPtr len len 0)

/-- The loop of `do_write`, with `total` bytes written. -/
def writeLoop (pid bufPtr len : Nat) : Nat → Nat → H Nat
  | 0, total => pure total
  | fuel + 1, total =>
    if total < len then do
      let chunk := min (len - total) FS_SYNC_RW_CHUNK
      let userSrc ← getSome (checkedAdd bufPtr total) .invalidAddress
      let bytes ← inFst (copyFromUser pid userSrc chunk)
      let handle ← gets (·.2)
      let written ← inFst (fsWrite handle.fsEpSlot handle.offset bytes)
      advanceOffset written
      if written < chunk then pure (total + written)
      else writeLoop pid bufPtr len fuel (total + written)
    else pure total

/-- `do_write`. -/
def doWrite (pid fd bufPtr len : Nat) : M Nat :=
  if len = 0 then pure 0
  else withFdHandleMut pid fd (writeLoop pid bufPtr len len 0)

/-- The loop of `sys_rw_vector` over the entries that are left, with `total` bytes moved. -/
def rwVectorLoop (pid iovPtr : Nat) (rw : Nat → Nat → M Nat) : List Nat → Nat → M Nat
  | [], total => pure total
  | i :: rest, total => do
    let iovAddr ← getSome (checkedAdd iovPtr (i * 16)) .invalidAddress
    let raw ← copyFromUser pid iovAddr 16
    let iovBase := leNat (raw.take 8)
    let iovLen := leNat (raw.drop 8)
    if iovLen = 0 then rwVectorLoop pid iovPtr rw rest total
    else do
      let n ← rw iovBase iovLen
      if asIsize n < 0 then pure n
      else if n < iovLen then pure (satAdd total n)
      else rwVectorLoop pid iovPtr rw rest (satAdd total n)

/-- `sys_rw_vector`. -/
def sysRwVector (pid iovPtr iovCnt : Nat) (rw : Nat → Nat → M Nat) : M Nat :=
  if iovCnt = 0 then pure 0
  else if 1024 < iovCnt then throw .invalidArgs
  else rwVectorLoop pid iovPtr rw (List.range iovCnt) 0

/-- `do_readv`. -/
def doReadv (pid fd iovPtr iovCnt : Nat) : M Nat := sysRwVector pid iovPtr iovCnt (doRead pid fd)

/-- `do_writev`. -/
def doWritev (pid fd iovPtr iovCnt : Nat) : M Nat := sysRwVector pid iovPtr iovCnt (doWrite pid fd)

/-! ### `lseek` -/

def SEEK_SET : Nat := 0
def SEEK_CUR : Nat := 1
def SEEK_END : Nat := 2

/-- The base of `do_lseek`. The size of a file is what `fs_client.stat` answers. -/
def seekBase (whence : Nat) : H Int :=
  if whence % 2 ^ 32 = SEEK_SET then pure 0
  else if whence % 2 ^ 32 = SEEK_CUR then do
    let handle ← gets (·.2)
    pure (asIsize handle.offset)
  else if whence % 2 ^ 32 = SEEK_END then do
    let stat ← inFst ext
    pure (asIsize stat.val)
  else throw .invalidArgs

/-- What `do_lseek` does with the handle. -/
def seekHandle (offset : Int) (whence : Nat) : H Int := do
  let base ← seekBase whence
  let newOff ← getSome (checkedAddIsize base offset) .invalidArgs
  if newOff < 0 then throw .invalidArgs
  else do
    modify (moveTo newOff.toNat)
    pure newOff

/-- `do_lseek`. -/
def doLseek (pid fd : Nat) (offset : Int) (whence : Nat) : M Int :=
  withFdHandleMut pid fd (seekHandle offset whence)

/-! ### `close` -/

/-- `recycle_region`. -/
def recycleRegion (regionId : Nat) : M Unit := modify fun w =>
  if regionId < w.asyncRegions.length ∧ regionId ∉ w.asyncFree then
    { w with asyncFree := w.asyncFree ++ [regionId] }
  else w

/-- The end of a file endpoint: `close`, `CSPACE_CAP.delete` and `cspace_mgr.free`. -/
def closeEndpoint (slot : Nat) : M Unit := do
  ignore (do let _ ← ext)
  modify fun w => { w with
    doubleClose := w.doubleClose || !decide (slot ∈ w.openEndpoints)
    openEndpoints := w.openEndpoints.erase slot }
  emit (.fileClosed slot)
  when (slot ≠ 0) (cspaceFree slot)

/-- The region of a closed descriptor goes back to the pool. -/
def recycleClosed (io : AsyncIoState) (shared : Bool) : M Unit := do
  modify fun w => { w with earlyRecycle := w.earlyRecycle || shared }
  recycleRegion io.regionId

/-- `do_close`. -/
def doClose (pid fd : Nat) : M Unit :=
  if 2 ^ 32 ≤ fd then throw .invalidSlot
  else do
    let task ← getProcess pid
    modifyFiles pid fun fs => { fs with
      fds := fs.fds.erase fd, fdPaths := fs.fdPaths.erase fd, fdCloexec := fs.fdCloexec.erase fd }
    let handle ← getSome (task.files.fds.get? fd) .invalidSlot
    let shared ← gets (·.endpointShared handle.fsEpSlot)
    when (¬ shared) (closeEndpoint handle.fsEpSlot)
    whenSome handle.asyncIo fun io => recycleClosed io shared

end Ape
