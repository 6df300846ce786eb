import Ape.Proofs.OpenFiles
import Ape.Proofs.Endpoints

/-!
# `Ape.Proofs.Cloexec`: the descriptors that an `execve` closes

The last part of `do_execve` goes over `fd_cloexec` and closes each number that it has with `true`.
The invariant `FilesState.FlagsOk` says that this map has no number that is not open, so none of
these calls of `do_close` fails. It also says that an open descriptor has the flag that was kept
when it was established last.

`close_on_exec_exact` compares this flag with the one that was asked for. `pipe2`, `dup3`, `fcntl`
and `fork` keep what they are asked for. `openat` takes `O_CLOEXEC` and leaves the map of the flags
alone.
-/

set_option autoImplicit false

namespace Ape

open Ape.Lib Cmd

/-- The flag of the descriptor was established last by an `openat` that left another one in the
table than it was asked for. -/
def forgottenCloexec : List CloexecEvent → Nat → Nat → Bool
  | [], _, _ => false
  | .opened p f asked kept :: log, pid, fd =>
    if p = pid ∧ f = fd then asked != kept else forgottenCloexec log pid fd
  | .set p f _ :: log, pid, fd =>
    if p = pid ∧ f = fd then false else forgottenCloexec log pid fd
  | .inherited child parent :: log, pid, fd =>
    forgottenCloexec log (if child = pid then parent else pid) fd

/-- A flag is forgotten when what was asked for is not what was kept. -/
theorem forgottenCloexec_eq (log : List CloexecEvent) (pid fd : Nat) :
    forgottenCloexec log pid fd = (askedCloexec log pid fd != keptCloexec log pid fd) := by
  unfold askedCloexec keptCloexec
  induction log generalizing pid with
  | nil => rfl
  | cons e log ih =>
    cases e with
    | opened p f asked kept =>
      unfold forgottenCloexec flagOf
      split
      · rfl
      · exact ih pid
    | set p f cloexec =>
      unfold forgottenCloexec flagOf
      split
      · exact (bne_self_eq_false cloexec).symm
      · exact ih pid
    | inherited child parent => exact ih _

/-! ### The sweep -/

section Sweep

variable {pid : Nat} {fs : FilesState}

/-- The numbers that `close_cloexec_fds` closes. -/
def FilesState.cloexecFds (fs : FilesState) : List Nat :=
  (fs.fdCloexec.entries.filter (·.2)).map (·.1)

/-- The descriptors that `execve` closes are those with the flag. -/
theorem FilesState.mem_cloexecFds {fd : Nat} : fd ∈ fs.cloexecFds ↔ fs.cloexec fd = true := by
  unfold cloexecFds cloexec
  simp only [List.mem_map, List.mem_filter, Prod.exists, OrdMap.mem_entries]
  constructor
  · rintro ⟨f, b, ⟨hget, hb⟩, rfl⟩
    rw [hget]
    exact hb
  · intro h
    cases hget : fs.fdCloexec.get? fd with
    | none =>
      rw [hget] at h
      cases h
    | some b =>
      rw [hget] at h
      exact ⟨fd, b, ⟨hget, h⟩, rfl⟩

/-- No descriptor is closed twice. -/
theorem FilesState.cloexecFds_nodup : fs.cloexecFds.Nodup :=
  List.Nodup.sublist (List.filter_sublist.map _) fs.fdCloexec.keys_nodup

/-- The numbers in `rest` are still to be closed, and the other flagged ones have been. -/
structure Sweeping (pid : Nat) (fs : FilesState) (rest : List Nat) (w : World) : Prop where
  filesOk : w.FilesOk
  nodup : rest.Nodup
  flagged : ∀ fd ∈ rest, fs.cloexec fd = true
  table : ∃ fs', w.filesOf pid = some fs' ∧ ∀ fd, fs'.fds.get? fd =
    if fs.cloexec fd = true ∧ fd ∉ rest then none else fs.fds.get? fd

/-- A descriptor that is open can be closed. -/
theorem doClose_returns {w : World} {fd : Nat} {h : FileHandle} (hok : w.FilesOk)
    (hfs : w.filesOf pid = some fs) (hget : fs.fds.get? fd = some h) :
    ((doClose pid fd).run w).1 = .ok () := by
  have hlt : fd < 2 ^ 32 := (hok.fds pid fs hfs).bound fd h hget
  obtain ⟨t, ht, rfl⟩ := Option.map_eq_some_iff.mp hfs
  rw [doClose_run ht hget hlt]
  exact (afterClose_trace h _).1

/-- One round of the sweep. -/
theorem doClose_sweeps {fd : Nat} {rest : List Nat}
    (hopen : ∀ fd, fs.cloexec fd = true → fs.fds.get? fd ≠ none) :
    Triple (Sweeping pid fs (fd :: rest)) (doClose pid fd) (fun _ => Sweeping pid fs rest)
      fun _ _ => False := by
  intro w hw
  obtain ⟨hok, hnodup, hflagged, fs', hfs', htable⟩ := hw
  obtain ⟨hnot, hnodup'⟩ := List.nodup_cons.mp hnodup
  have hflag := hflagged fd List.mem_cons_self
  -- the sweep is at `fd`, and the descriptors behind it are not closed yet
  have hsame : fs'.fds.get? fd = fs.fds.get? fd := by
    rw [htable fd, if_neg fun h => h.2 List.mem_cons_self]
  obtain ⟨h, hget⟩ := Option.ne_none_iff_exists'.mp (hopen fd hflag)
  have hret := doClose_returns hok hfs' (hsame.trans hget)
  have hlt : fd < 2 ^ 32 := (hok.fds pid fs' hfs').bound fd h (hsame.trans hget)
  have hafter := (doClose_files pid fd w ⟨hok, hfs'⟩).1 () hret
  refine ⟨fun _ _ => ⟨hafter.1, hnodup', fun f hf => hflagged f (List.mem_cons_of_mem _ hf),
    fs'.closeFd fd, hafter.2, ?_⟩, ?_⟩
  · intro f
    show (fs'.fds.erase fd).get? f = _
    rw [OrdMap.get?_erase]
    -- the call closes the one descriptor, and the others stand as in the table before
    by_cases heq : f = fd
    · rw [if_pos heq, if_pos ⟨heq ▸ hflag, heq ▸ hnot⟩]
    · rw [if_neg heq, htable f]
      simp only [List.mem_cons, heq, false_or]
  · intro e he
    rw [hret] at he
    cases he

/-- `close_cloexec_fds` closes the descriptors with a flag and no other, and does not fail. -/
theorem closeCloexecFds_sweeps (hopen : ∀ fd, fs.cloexec fd = true → fs.fds.get? fd ≠ none) :
    Triple (fun w => w.FilesOk ∧ w.filesOf pid = some fs) (closeCloexecFds pid)
      (fun _ => Sweeping pid fs []) fun _ _ => False := by
  unfold closeCloexecFds
  refine Triple.bind (getProcess_live (P := World.FilesOk) pid fs) fun task => ?_
  refine Triple.of_pre fun w₀ h₀ => ?_
  obtain ⟨rfl, hok, hfs⟩ := h₀
  refine (Triple.forEach (Sweeping pid task.files) (fun _ _ => doClose_sweeps hopen)
    task.files.cloexecFds).pre fun w hw => ?_
  subst hw
  refine ⟨hok, FilesState.cloexecFds_nodup, fun fd hfd => FilesState.mem_cloexecFds.mp hfd,
    task.files, hfs, ?_⟩
  intro fd
  rw [if_neg fun h => h.2 (FilesState.mem_cloexecFds.mpr h.1)]

end Sweep

/-! ### `execve` -/

/-- The invariants of descriptors, with the table of one process named. -/
def World.FdsAt (pid : Nat) (fs : FilesState) (w : World) : Prop :=
  w.FdsOk ∧ w.filesOf pid = some fs

section Exec

variable {pid : Nat} {fs : FilesState}

instance : BlindControl (World.FdsAt pid fs) :=
  BlindControl.comp (V := World.fdState)
    (fun s => (s.files.Ok [] ∧ s.fdView.Ok) ∧ s.files.files pid = some fs) inferInstance

instance : BlindMemory (World.FdsAt pid fs) :=
  BlindMemory.comp (V := World.fdState)
    (fun s => (s.files.Ok [] ∧ s.fdView.Ok) ∧ s.files.files pid = some fs) inferInstance

/-- A part of `do_execve` that leaves the descriptors alone. -/
theorem FdsAt.step {α : Type} {c : M α} (h : Keeps (World.FdsAt pid fs) c) :
    Triple (World.FdsAt pid fs) c (fun _ => World.FdsAt pid fs) fun _ _ => True :=
  h.triple.errors fun _ _ _ => trivial

/-- An `execve` that succeeds has closed the descriptors with a flag and no other. -/
theorem doExecve_sweeps (hopen : ∀ fd, fs.cloexec fd = true → fs.fds.get? fd ≠ none) (path : String)
    (argv envp : List String) :
    Triple (World.FdsAt pid fs) (doExecve pid path argv envp) (fun _ => Sweeping pid fs [])
      fun _ _ => True := by
  unfold doExecve
  refine Triple.bind (FdsAt.step readExecImageFromFs_frames.keepsProp) fun d => ?_
  refine Triple.ite (fun _ => Triple.throw fun _ _ => trivial) fun _ => ?_
  refine Triple.ite (fun _ => Triple.throw fun _ _ => trivial) fun _ => ?_
  refine Triple.bind (FdsAt.step (replaceImage_frames _).keepsProp) fun _ => ?_
  refine Triple.bind (FdsAt.step (loadElfIntoProcess_frames _ _ _).keepsProp) fun main => ?_
  refine Triple.bind (FdsAt.step (loadInterpreter_frames _ _ _).keepsProp) fun interp => ?_
  refine Triple.bind (FdsAt.step (getProcess_keeps _)) fun _ => ?_
  refine Triple.bind (FdsAt.step (Keeps.gets _)) fun l => ?_
  refine Triple.bind (FdsAt.step (modifyMm_frames _ _).keepsProp) fun _ => ?_
  refine Triple.bind (FdsAt.step (setupInitialStack_frames _ _ _ _ _).keepsProp) fun _ => ?_
  refine Triple.bind (FdsAt.step (setupInitialTls_frames _).keepsProp) fun _ => ?_
  refine Triple.bind (FdsAt.step (getProcess_keeps _)) fun _ => ?_
  refine Triple.bind (FdsAt.step ext_keeps) fun _ => Triple.bind (FdsAt.step ext_keeps) fun _ => ?_
  exact (closeCloexecFds_sweeps hopen).imp (fun w h => ⟨h.1.1, h.2⟩) (fun _ _ h => h)
    fun _ _ h => h.elim

/-- An `execve` that succeeds has closed all flagged descriptors. -/
theorem doExecveUser_sweeps (hopen : ∀ fd, fs.cloexec fd = true → fs.fds.get? fd ≠ none)
    (filename argv envp : Nat) :
    Triple (World.FdsAt pid fs) (doExecveUser pid filename argv envp)
      (fun _ => Sweeping pid fs []) fun _ _ => True :=
  Triple.bind (FdsAt.step (parseExecveUserInput_keeps (GrowKeeps.grow _) _ _ _)) fun _ =>
    doExecve_sweeps hopen _ _ _

end Exec

/-- A number with a flag is open. -/
theorem FilesState.FlagsOk.open_of_cloexec {fs : FilesState} {kept : Nat → Bool}
    (h : fs.FlagsOk kept)
    {fd : Nat} (hfd : fs.cloexec fd = true) : fs.fds.get? fd ≠ none := by
  refine h.flagged fd fun hnone => ?_
  rw [cloexec, hnone] at hfd
  cases hfd

/-- The keys of the three maps of a process: only open descriptors have a flag or a path. -/
def FilesState.KeysOpen (fs : FilesState) : Prop :=
  (∀ fd, fs.fdCloexec.get? fd ≠ none → fs.fds.get? fd ≠ none) ∧
  ∀ fd, fs.fdPaths.get? fd ≠ none → fs.fds.get? fd ≠ none

/-- In every run only open descriptors have a flag or a path, and `close_cloexec_fds` does not fail.
After an `execve` that succeeds, an open descriptor is closed exactly when its flag was set, if and
only if the flag was not established last by an `openat` that left another one in the table than it
was asked for. -/
theorem close_on_exec_exact (w : World) (hw : Reachable w) :
    (∀ pid t, w.task? pid = some t → t.files.KeysOpen ∧
      ∀ env, ((closeCloexecFds pid).run (w.withEnv env)).1 = .ok ()) ∧
    ∀ env caller pid filename argv envp w',
      (doExecveUser pid filename argv envp).run { w.withEnv env with activeCallerPid := caller } =
        (.ok (), w') →
      ∀ t fd, w.task? pid = some t → t.files.fds.get? fd ≠ none →
        ∃ t', w'.task? pid = some t' ∧
          ((t'.files.fds.get? fd = none ↔ askedCloexec w.cloexecLog pid fd = true) ↔
            forgottenCloexec w.cloexecLog pid fd = false) := by
  have hok := hw.fdsOk
  -- the flag of a descriptor is the last one that was kept for it
  have hfiles : ∀ {pid t}, w.task? pid = some t → w.filesOf pid = some t.files := by
    intro pid t ht
    rw [World.filesOf, ht]
    rfl
  constructor
  · intro pid t ht
    have hflags := hok.2.flags pid t.files (hfiles ht)
    refine ⟨⟨hflags.flagged, hflags.named⟩, ?_⟩
    intro env
    have hstart : (w.withEnv env).FilesOk ∧ (w.withEnv env).filesOf pid = some t.files :=
      ⟨hok.1, hfiles ht⟩
    have hsweep := closeCloexecFds_sweeps (fun _ => hflags.open_of_cloexec) _ hstart
    cases hr : ((closeCloexecFds pid).run (w.withEnv env)).1 with
    | ok a => rfl
    | error e => exact (hsweep.2 e hr).elim
  · intro env caller pid filename argv envp w' hrun t fd ht hopen
    have hflags := hok.2.flags pid t.files (hfiles ht)
    have hsweep := doExecveUser_sweeps (fun _ => hflags.open_of_cloexec) filename argv envp
      { w.withEnv env with activeCallerPid := caller } ⟨hok, hfiles ht⟩
    rw [hrun] at hsweep
    obtain ⟨-, -, -, fs', hfs', htable⟩ := hsweep.1 () rfl
    obtain ⟨t', ht', rfl⟩ := Option.map_eq_some_iff.mp hfs'
    have hkept : t.files.cloexec fd = keptCloexec w.cloexecLog pid fd := hflags.flag fd hopen
    -- the sweep closes what has the flag, and no other descriptor
    have hclosed : t'.files.fds.get? fd = none ↔ keptCloexec w.cloexecLog pid fd = true := by
      rw [htable fd, ← hkept]
      by_cases hc : t.files.cloexec fd = true
      · simp [hc]
      · simp [hc, hopen]
    refine ⟨t', ht', ?_⟩
    rw [hclosed, forgottenCloexec_eq, bne_eq_false_iff_eq]
    cases askedCloexec w.cloexecLog pid fd <;> cases keptCloexec w.cloexecLog pid fd <;> simp

/-- `init` opens a file and duplicates its descriptor with `O_CLOEXEC`. -/
def sampleFlagged : World := sampleOpened.after (.syscall 1 (.dup3 3 5 O_CLOEXEC))

/-- The sample with a flagged descriptor is reachable. -/
theorem sampleFlagged_reachable : Reachable sampleFlagged :=
  sampleOpened_reachable.after (by decide +kernel)

/-- The state after an `execve` of `init`. -/
def World.afterExecve (w : World) : World := ((doExecveUser 1 0x3ffff000 0 0).run w).2

/-- The state after an `execve` that succeeds. -/
theorem run_execve {w : World} (h : ((doExecveUser 1 0x3ffff000 0 0).run w).1 = .ok ()) :
    (doExecveUser 1 0x3ffff000 0 0).run w = (.ok (), w.afterExecve) := Prod.ext h rfl

/-- The `execve` closes the duplicate and leaves the first descriptor. -/
theorem close_on_exec_exact_dup3 :
    askedCloexec sampleFlagged.cloexecLog 1 5 = true ∧
    askedCloexec sampleFlagged.cloexecLog 1 3 = false ∧
    ∃ t', sampleFlagged.afterExecve.task? 1 = some t' ∧
      t'.files.fds.get? 5 = none ∧ t'.files.fds.get? 3 ≠ none := by
  have h5 : askedCloexec sampleFlagged.cloexecLog 1 5 = true := by decide +kernel
  have h3 : askedCloexec sampleFlagged.cloexecLog 1 3 = false := by decide +kernel
  have hrun := run_execve (w := sampleFlagged) (by decide +kernel)
  have hopen : ((sampleFlagged.task? 1).map fun t =>
      ((t.files.fds.get? 5).isSome, (t.files.fds.get? 3).isSome)) = some (true, true) := by
    decide +kernel
  obtain ⟨t, ht, hfds⟩ := Option.map_eq_some_iff.mp hopen
  obtain ⟨ho5, ho3⟩ := Prod.mk.inj hfds
  have hexec := (close_on_exec_exact _ sampleFlagged_reachable).2 sampleFlagged.env
    sampleFlagged.activeCallerPid 1 0x3ffff000 0 0 _ hrun t
  obtain ⟨t', ht', hiff5⟩ := hexec 5 ht (Option.isSome_iff_ne_none.mp ho5)
  obtain ⟨t'', ht'', hiff3⟩ := hexec 3 ht (Option.isSome_iff_ne_none.mp ho3)
  rw [ht'] at ht''
  cases ht''
  refine ⟨h5, h3, t', ht', (hiff5.mpr (by decide +kernel)).mpr h5, ?_⟩
  intro hnone
  have := (hiff3.mpr (by decide +kernel)).mp hnone
  rw [h3] at this
  cases this

/-- `init` opens a file with `O_CLOEXEC`. -/
def sampleCloexec : World := sampleBoot.after (.syscall 1 (.openat 0x3ffff000 O_CLOEXEC))

/-- The descriptor of a file that was opened with `O_CLOEXEC` outlives an `execve`. -/
theorem openat_cloexec_outlives_execve :
    Reachable sampleCloexec ∧ askedCloexec sampleCloexec.cloexecLog 1 3 = true ∧
    ((doExecveUser 1 0x3ffff000 0 0).run sampleCloexec).1 = .ok () ∧
    (((sampleCloexec.task? 1).bind fun t => t.files.fds.get? 3).isSome ∧
      ((sampleCloexec.afterExecve.task? 1).bind fun t => t.files.fds.get? 3).isSome) :=
  ⟨sampleBoot_reachable.after (by decide +kernel), by decide +kernel, by decide +kernel,
    by decide +kernel⟩

end Ape
