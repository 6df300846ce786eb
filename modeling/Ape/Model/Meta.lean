import Ape.Model.Fd

/-!
# `Ape.Model.Meta`: paths beside a directory descriptor

The two routes of `fs/meta.rs` and `ape/mod.rs` from a path of a process to an absolute one.
`mkdirat`, `unlinkat`, `linkat`, `readlinkat`, `newfstatat` and `utimensat` take
`resolve_path_at`, and `openat` takes `resolve_path_for_process`. What these calls then ask of
the file system is not modelled.
-/

set_option autoImplicit false

namespace Ape

open Ape.Lib Cmd

def AT_FDCWD : Int := -100
def S_IFMT : Nat := 0o170000
def S_IFDIR : Nat := 0o040000

/-- The mode in an answer to `fs_client.stat`. The size is the value of the answer. -/
def Ext.stMode (a : Ext) : Nat := leNat ((List.range 4).map a.bytes)

/-- `at_fdcwd`. -/
def atFdcwd (dirfd : Nat) : Bool := asIsize dirfd = AT_FDCWD

/-- `is_dir_mode`. -/
def isDirMode (mode : Nat) : Bool := mode &&& S_IFMT = S_IFDIR

/-- `raw_path.starts_with('/')`. -/
def isAbsolutePath (rawPath : String) : Bool := rawPath.toList.head? = some '/'

/-- `resolve_path_for_process`. -/
def resolvePathForProcess (pid : Nat) (rawPath : String) : M String := do
  let task ← getProcess pid
  let resolve ← gets (·.resolvePath)
  pure (resolve rawPath task.fs.rootDir task.fs.cwd)

/-- `resolve_path_at`. -/
def resolvePathAt (pid dirfd : Nat) (rawPath : String) : M String :=
  if isAbsolutePath rawPath ∨ atFdcwd dirfd then resolvePathForProcess pid rawPath
  else if 2 ^ 32 ≤ dirfd then throw .invalidSlot
  else do
    let task ← getProcess pid
    let _ ← getSome (task.files.fds.get? dirfd) .invalidSlot
    let stat ← ext
    if !isDirMode stat.stMode then throw .invalidArgs
    else do
      let dirPath ← getSome (task.files.fdPaths.get? dirfd) .invalidArgs
      let resolve ← gets (·.resolvePath)
      pure (resolve rawPath task.fs.rootDir dirPath)

end Ape
