import Ape.Model.Meta
import Ape.Proofs.FrameRuns

/-!
# `Ape.Proofs.DirFds`: paths beside a directory descriptor

`resolve_path_at` resolves a relative path at the directory of its descriptor. `do_openat` has
the descriptor among its arguments and does not look at it: it resolves every path at the working
directory. `openat_resolves_alike_iff` says for which arguments the two have the same outcome.
The resolution of `libape` is a parameter of the state, so nothing is said of how it joins paths.
-/

set_option autoImplicit false

namespace Ape

open Ape.Lib Cmd

/-- The descriptor is open on what the file system says is a directory, and its path is `dir`. -/
structure World.DirectoryAt (w : World) (t : TaskStruct) (dirfd : Nat) (dir : String) : Prop where
  number : dirfd < 2 ^ 32
  isOpen : t.files.fds.get? dirfd ≠ none
  answered : (w.env w.tick).err = none
  directory : isDirMode (w.env w.tick).stMode = true
  path : t.files.fdPaths.get? dirfd = some dir

section Resolution

variable {w : World} {pid dirfd : Nat} {t : TaskStruct} {raw : String}

/-- A path is resolved from the directories of the process. -/
theorem resolvePathForProcess_run (ht : w.task? pid = some t) :
    (resolvePathForProcess pid raw).run w = (.ok (w.resolvePath raw t.fs.rootDir t.fs.cwd), w) := by
  unfold resolvePathForProcess
  rw [run_bind_ok (run_getProcess ht)]
  rfl

/-- A path that the descriptor has no part in is resolved at the working directory. -/
theorem resolvePathAt_cwd (ht : w.task? pid = some t)
    (h : isAbsolutePath raw = true ∨ atFdcwd dirfd = true) :
    ((resolvePathAt pid dirfd raw).run w).1 = .ok (w.resolvePath raw t.fs.rootDir t.fs.cwd) := by
  unfold resolvePathAt
  rw [if_pos h, resolvePathForProcess_run ht]

/-- A relative path is resolved at a directory that the descriptor is open on, and fails without
one. -/
theorem resolvePathAt_dir_iff (ht : w.task? pid = some t)
    (h : ¬ (isAbsolutePath raw = true ∨ atFdcwd dirfd = true)) (path : String) :
    ((resolvePathAt pid dirfd raw).run w).1 = .ok path ↔
      ∃ dir, w.DirectoryAt t dirfd dir ∧ path = w.resolvePath raw t.fs.rootDir dir := by
  unfold resolvePathAt
  rw [if_neg h]
  -- the checks of `resolve_path_at` come in the order of the code, and each failure is a clause of
  -- `DirectoryAt` that does not hold
  by_cases hlt : 2 ^ 32 ≤ dirfd
  · rw [if_pos hlt]
    exact ⟨fun hrun => (by cases hrun), fun ⟨dir, hdir, _⟩ => absurd hdir.number (by omega)⟩
  rw [if_neg hlt, run_bind_ok (run_getProcess ht)]
  cases hfd : t.files.fds.get? dirfd with
  | none => exact ⟨fun hrun => (by cases hrun), fun ⟨dir, hdir, _⟩ => absurd hfd hdir.isOpen⟩
  | some handle =>
    rw [getSome_bind]
    cases herr : (w.env w.tick).err with
    | some e =>
      constructor
      · intro hrun
        simp [ext, run_bind, herr] at hrun
      · rintro ⟨dir, hdir, _⟩
        rw [hdir.answered] at herr
        cases herr
    | none =>
      rw [run_bind_ok (run_ext_ok herr)]
      cases hmode : isDirMode (w.env w.tick).stMode with
      | false =>
        rw [if_pos (show (!false) = true from rfl)]
        refine ⟨fun hrun => (by cases hrun), ?_⟩
        rintro ⟨dir, hdir, _⟩
        rw [hdir.directory] at hmode
        cases hmode
      | true =>
        rw [if_neg (show ¬ (!true) = true from Bool.false_ne_true)]
        cases hpath : t.files.fdPaths.get? dirfd with
        | none =>
          refine ⟨fun hrun => (by cases hrun), ?_⟩
          rintro ⟨dir, hdir, _⟩
          rw [hdir.path] at hpath
          cases hpath
        | some dir =>
          rw [getSome_bind]
          constructor
          · intro hrun
            have hopen : t.files.fds.get? dirfd ≠ none := by rw [hfd]; exact Option.some_ne_none _
            exact ⟨dir, ⟨by omega, hopen, herr, hmode, hpath⟩, by cases hrun; rfl⟩
          · rintro ⟨dir', hdir, rfl⟩
            have hsame : dir = dir' := by
              rw [hdir.path] at hpath
              exact (Option.some.inj hpath).symm
            rw [hsame]
            rfl

end Resolution

/-- An `openat` that has read the path `raw` opens it as it is resolved at the working directory.
`resolve_path_at` has that outcome exactly when the path is absolute, when the descriptor is
`AT_FDCWD`, or when the descriptor is open on a directory at which the path resolves as it does
at the working directory. -/
theorem openat_resolves_alike_iff (w : World) (pid : Nat) (t : TaskStruct)
    (ht : w.task? pid = some t) (dirfd : Nat) (raw : String) :
    (∀ w₀ pathname flags,
      (withUserSession (strncpyFromUser pid pathname USER_PATH_MAX)).run w₀ = (.ok raw, w) →
      (doOpenat pid pathname flags).run w₀ =
        (openViaNexusFs pid (w.resolvePath raw t.fs.rootDir t.fs.cwd) flags).run w) ∧
    (((resolvePathAt pid dirfd raw).run w).1 = .ok (w.resolvePath raw t.fs.rootDir t.fs.cwd) ↔
      isAbsolutePath raw = true ∨ atFdcwd dirfd = true ∨ ∃ dir, w.DirectoryAt t dirfd dir ∧
        w.resolvePath raw t.fs.rootDir t.fs.cwd = w.resolvePath raw t.fs.rootDir dir) := by
  constructor
  · intro w₀ pathname flags hread
    unfold doOpenat
    rw [run_bind_ok hread, run_bind_ok (run_getProcess ht), run_gets_bind]
  · rw [← or_assoc]
    by_cases h : isAbsolutePath raw = true ∨ atFdcwd dirfd = true
    · exact ⟨fun _ => .inl h, fun _ => resolvePathAt_cwd ht h⟩
    · rw [resolvePathAt_dir_iff ht h, or_iff_right h]

/-- The server with a resolution that puts a relative path under its base. -/
def sampleJoinStart : World := { sampleStart with
  resolvePath := fun path _ base => if isAbsolutePath path then path else base ++ "/" ++ path }

/-- `init` has opened the directory `data` of its working directory `/`. -/
def sampleDirectory : World :=
  (((loadInit "").run sampleJoinStart).2.after
    (.syscall 1 (.userWrite 0x3ffff000 [0x64, 0x61, 0x74, 0x61, 0]))).after
    (.syscall 1 (.openat 0x3ffff000 0))

/-- The sample with an open directory is reachable. -/
theorem sampleDirectory_reachable : Reachable sampleDirectory := by
  have hinit : sampleJoinStart.Initial := by
    constructor <;>
      first
      | rfl
      | exact ⟨rfl, rfl⟩
      | exact fun _ => rfl
      | exact Set.finite_empty.subset fun b hb => by cases hb
  have hboot : Reachable ((loadInit "").run sampleJoinStart).2 :=
    .boot hinit (Prod.ext (by decide +kernel) rfl)
  exact (hboot.after (by decide +kernel)).after (by decide +kernel)

/-- The absolute path `/notes` does not depend on the descriptor. -/
theorem openat_resolves_alike_iff_absolute : ∃ t, sampleDirectory.task? 1 = some t ∧
    ((resolvePathAt 1 9 "/notes").run sampleDirectory).1 =
      .ok (sampleDirectory.resolvePath "/notes" t.fs.rootDir t.fs.cwd) := by
  obtain ⟨t, ht⟩ := Option.isSome_iff_exists.mp
    (by decide +kernel : (sampleDirectory.task? 1).isSome = true)
  exact ⟨t, ht, (openat_resolves_alike_iff sampleDirectory 1 t ht 9 "/notes").2.mpr
    (.inl (by decide +kernel))⟩

/-- `notes` beside the descriptor of `data` is one path for `mkdirat` and another for `openat`,
and a descriptor that is not open is an error for `mkdirat` only. -/
theorem openat_ignores_directory :
    Reachable sampleDirectory ∧
    ((resolvePathAt 1 3 "notes").run sampleDirectory).1 = .ok "//data/notes" ∧
    ((resolvePathForProcess 1 "notes").run sampleDirectory).1 = .ok "//notes" ∧
    ((resolvePathAt 1 9 "notes").run sampleDirectory).1 = .error .invalidSlot ∧
    ¬ ∀ dirfd raw, ((resolvePathForProcess 1 raw).run sampleDirectory).1 =
      ((resolvePathAt 1 dirfd raw).run sampleDirectory).1 := by
  have hdir : ((resolvePathAt 1 3 "notes").run sampleDirectory).1 = .ok "//data/notes" := by
    decide +kernel
  have hcwd : ((resolvePathForProcess 1 "notes").run sampleDirectory).1 = .ok "//notes" := by
    decide +kernel
  refine ⟨sampleDirectory_reachable, hdir, hcwd, by decide +kernel, ?_⟩
  intro h
  have hsame := h 3 "notes"
  rw [hdir, hcwd] at hsame
  revert hsame
  decide +kernel

end Ape
