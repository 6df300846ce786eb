import Ape.Proofs.Cloexec

/-!
# `Ape.Proofs.ExecReset`: what an `execve` leaves of the old image

`do_execve` takes the tables of the process away (`replaceImage`), and `loadImage` is all that
comes after that, up to the descriptors. It adds pages of the images, one stack page and the TLS
pages, and nothing else: `loadImage_loads`. The rest of the record is not touched
(`World.identity`), and that goes for the signal actions too. `execve_resets_iff` says that
the call leaves nothing of the old image behind exactly when no signal had a handler.
-/

set_option autoImplicit false

namespace Ape

open Ape.Lib Cmd

/-! ### The record of the process -/

/-- The record of a process without its memory and its descriptors. -/
structure Identity where
  pid : Nat
  parentPid : Nat
  sessionId : Nat
  processGroupId : Nat
  fs : FsState
  signal : SignalStruct
  signalActions : OrdMap Nat SignalAction

/-- The record of a process without its memory and its descriptors. -/
def TaskStruct.identity (t : TaskStruct) : Identity :=
  ⟨t.pid, t.parentPid, t.sessionId, t.processGroupId, t.fs, t.signal, t.signalActions⟩

/-- What makes a process the one it is, if it is there. -/
def World.identity (pid : Nat) (w : World) : Option Identity := (w.task? pid).map (·.identity)

/-- A change of a record that keeps the identity. -/
theorem World.identity_modifyTask (w : World) (pid q : Nat) {f : TaskStruct → TaskStruct}
    (hf : ∀ t, (f t).identity = t.identity) : (w.modifyTask q f).identity pid = w.identity pid := by
  rw [World.identity, World.identity, World.task?, World.modifyTask, OrdMap.get?_modify]
  by_cases h : pid = q
  · subst h
    rw [if_pos rfl, Option.map_map]
    exact congrArg (Option.map · _) (funext hf)
  · rw [if_neg h]
    rfl

instance (pid : Nat) : BlindMemory (World.identity pid) where
  tick _ _ := rfl
  slots _ _ := rfl
  ledger _ _ := rfl
  vspace w q _ := w.identity_modifyTask pid q fun _ => rfl
  tables w q _ := w.identity_modifyTask pid q fun _ => rfl
  scratch _ _ _ := rfl
  writeFrame _ _ _ := rfl
  frames _ _ _ := rfl
  refs _ _ := rfl
  doubleFree _ _ := rfl
  mm w q _ := w.identity_modifyTask pid q fun _ => rfl
  fileMapLog _ _ := rfl

instance (pid : Nat) : BlindFiles (World.identity pid) where
  files w q _ := w.identity_modifyTask pid q fun _ => rfl
  cloexecLog _ _ := rfl
  positionSplit _ _ := rfl
  endpoints _ _ := rfl
  doubleClose _ _ := rfl
  asyncFree _ _ := rfl
  asyncRegions _ _ := rfl
  asyncVaddr _ _ := rfl
  iouring _ _ := rfl
  fdOverflow _ _ := rfl
  earlyRecycle _ _ := rfl

instance (pid : Nat) : BlindTrace (World.identity pid) := ⟨fun _ _ => rfl⟩

/-- The last part of `do_execve` leaves a view alone that sees no descriptors. -/
theorem closeCloexecFds_frames {γ : Type} {V : World → γ} [BlindSlots V] [BlindFiles V]
    [BlindTrace V] (pid : Nat) : Frames V (closeCloexecFds pid) := by
  refine Frames.of_keeps fun v => ?_
  have hslots : BlindSlots fun w => V w = v := BlindSlots.comp (· = v) inferInstance
  have hfiles : BlindFiles fun w => V w = v := BlindFiles.comp (· = v) inferInstance
  have htrace : BlindTrace fun w => V w = v := BlindTrace.comp (· = v) inferInstance
  exact Keeps.bind (getProcess_keeps _) fun _ => Keeps.forEach fun fd => doClose_keeps _ _

/-! ### The image -/

/-- An entry that `execve` makes: a page of an image, the stack page or the TLS pages. -/
def Layout.ImageEntry (l : Layout) (m : MemoryMap) : Prop :=
  (∃ vaddr perms slot, m = pageEntry vaddr perms .image slot) ∨
  (∃ slot, m = pageEntry (l.stackBase - PGSIZE) Perms.RW .stack slot) ∨
  ∃ slot, m = { pageEntry (l.utcbVa - INITIAL_TLS_GAP_PAGES * PGSIZE - INITIAL_TLS_PAGES * PGSIZE)
    Perms.RW .anonymous slot with size := INITIAL_TLS_PAGES * PGSIZE }

/-- The tables have entries of `execve` alone. -/
structure MmState.Loaded (l : Layout) (mm : MmState) : Prop where
  entries : ∀ k m, mm.memoryMaps.get? k = some m → l.ImageEntry m
  lazily : mm.lazyMemoryMaps = OrdMap.empty

/-- The regions are those of a new image, with a stack of `stackSize` bytes. -/
structure MmState.Fresh (l : Layout) (stackSize : Nat) (mm : MmState) : Prop
    extends mm.Loaded l where
  heapBrk : mm.heapBrk = mm.heapStart
  mmapNext : mm.mmapNext = mm.mmapBase
  stack : mm.stackSize = stackSize

/-- The layout and the tables. -/
def World.imageView (w : World) : Layout × OrdMap Nat MmState := (w.layout, w.mms)

instance : BlindTables World.imageView where
  tick _ _ := rfl
  slots _ _ := rfl
  vspace w q _ := congrArg (w.layout, ·) (w.mms_modifyTask q fun _ => rfl)
  tables w q _ := congrArg (w.layout, ·) (w.mms_modifyTask q fun _ => rfl)

instance : BlindSlots World.imageView where
  ledger _ _ := rfl

instance : BlindBytes World.imageView where
  scratch _ _ _ := rfl
  writeFrame _ _ _ := rfl

instance : BlindFrames World.imageView where
  frames _ _ _ := rfl
  refs _ _ := rfl
  doubleFree _ _ := rfl

instance : BlindFiles World.imageView where
  files w q _ := congrArg (w.layout, ·) (w.mms_modifyTask q fun _ => rfl)
  cloexecLog _ _ := rfl
  positionSplit _ _ := rfl
  endpoints _ _ := rfl
  doubleClose _ _ := rfl
  asyncFree _ _ := rfl
  asyncRegions _ _ := rfl
  asyncVaddr _ _ := rfl
  iouring _ _ := rfl
  fdOverflow _ _ := rfl
  earlyRecycle _ _ := rfl

instance : BlindTrace World.imageView := ⟨fun _ _ => rfl⟩

/-- The tables of the process have `P`. -/
def ImageAt (l : Layout) (pid : Nat) (P : MmState → Prop) (w : World) : Prop :=
  w.layout = l ∧ ∀ mm, w.mms.get? pid = some mm → P mm

section Image

variable {l : Layout} {pid : Nat} {P Q : MmState → Prop}

/-- A command that leaves what is known of the image. -/
theorem image_step {α : Type} {c : M α} (h : Frames World.imageView c) :
    Triple (ImageAt l pid P) c (fun _ => ImageAt l pid P) fun _ _ => True :=
  (h.keeps fun v => v.1 = l ∧ ∀ mm, v.2.get? pid = some mm → P mm).triple.errors
    fun _ _ _ => trivial

/-- The layout of the image is at hand. -/
theorem image_layout {β : Type} {k : Layout → M β} {R : β → World → Prop}
    (hk : Triple (ImageAt l pid P) (k l) R fun _ _ => True) :
    Triple (ImageAt l pid P) (gets (·.layout) >>= k) R fun _ _ => True := by
  refine Triple.bind (R := fun l' w => ImageAt l pid P w ∧ l' = l)
    (Triple.gets fun w h => ⟨h, h.1⟩) fun l' => Triple.of_pre fun w₀ h₀ => ?_
  obtain ⟨h, rfl⟩ := h₀
  exact hk.pre fun w hw => hw ▸ h

/-- The rule of a change of the image. -/
theorem image_edit {f : MmState → MmState} (hf : ∀ mm, P mm → Q (f mm)) :
    Triple (ImageAt l pid P) (modifyMm pid f) (fun _ => ImageAt l pid Q) fun _ _ => True := by
  refine Triple.modify fun w h => ⟨h.1, ?_⟩
  intro mm hmm
  rw [World.mms_modifyMm, OrdMap.get?_modify, if_pos rfl] at hmm
  obtain ⟨mm₀, hmm₀, rfl⟩ := Option.map_eq_some_iff.mp hmm
  exact hf mm₀ (h.2 mm₀ hmm₀)

/-- An entry of the image is added to it. -/
theorem MmState.Loaded.add {mm : MmState} (h : mm.Loaded l) {m : MemoryMap}
    (hm : l.ImageEntry m) : (mm.addMemoryMap m).Loaded l := by
  refine ⟨?_, h.lazily⟩
  intro k m' hk
  rw [addMemoryMap, OrdMap.get?_insert] at hk
  split at hk
  · cases hk
    exact hm
  · exact h.entries k m' hk

/-- The segments are entries of the image. -/
theorem loadElfIntoProcess_loads (d : ElfImage) (loadBias : Nat) :
    Triple (ImageAt l pid (·.Loaded l)) (loadElfIntoProcess pid d loadBias)
      (fun _ => ImageAt l pid (·.Loaded l)) fun _ _ => True := by
  refine Triple.ite (fun _ => Triple.throw fun _ _ => trivial) fun _ => ?_
  refine Triple.bind (Triple.forEach (fun _ => ImageAt l pid (·.Loaded l)) (fun ph _ => ?_) _)
    fun _ => Triple.pure fun _ h => h
  refine Triple.ite (fun _ => Triple.pure fun _ h => h) fun _ => ?_
  refine Triple.forEach (fun _ => ImageAt l pid (·.Loaded l)) (fun page _ => ?_) _
  refine Triple.bind (image_step (by simp)) fun slot =>
    Triple.bind (image_step (by simp)) fun _ => ?_
  refine Triple.bind (image_step (by simp)) fun _ => Triple.bind (image_step (by simp)) fun _ => ?_
  refine Triple.bind (image_edit fun mm h => h.add (.inl ⟨_, _, slot, rfl⟩)) fun _ => ?_
  exact Triple.bind (image_step (by simp)) fun _ => Triple.bind (image_step (by simp)) fun _ =>
    image_step (by simp)

/-- The interpreter is part of the image. -/
theorem loadInterpreter_loads (main : LoadedElfInfo) (interp : Option String) :
    Triple (ImageAt l pid (·.Loaded l)) (loadInterpreter pid main interp)
      (fun _ => ImageAt l pid (·.Loaded l)) fun _ _ => True := by
  unfold loadInterpreter
  split
  · exact Triple.pure fun _ h => h
  · exact Triple.bind (image_step readExecImageFromFs_frames) fun d =>
      Triple.bind (loadElfIntoProcess_loads d _) fun _ => Triple.pure fun _ h => h

/-- The first stack is the only page of the stack. -/
theorem setupInitialStack_loads (arg0 : String) (argv envp : List String)
    (auxv : List (Nat × Nat)) :
    Triple (ImageAt l pid (·.Fresh l 0)) (setupInitialStack pid arg0 argv envp auxv)
      (fun _ => ImageAt l pid (·.Fresh l PGSIZE)) fun _ _ => True := by
  refine image_layout ?_
  refine Triple.bind (image_step (by simp)) fun slot =>
    Triple.bind (image_step (by simp)) fun _ => ?_
  refine Triple.bind (image_step (by simp)) fun _ => Triple.bind (image_step (by simp)) fun _ => ?_
  refine Triple.bind (image_step (by simp)) fun _ => Triple.bind (image_step (by simp)) fun e => ?_
  refine Triple.bind (image_step (by simp)) fun _ => Triple.bind (image_step (by simp)) fun _ => ?_
  refine Triple.bind (image_step (by simp)) fun _ =>
    Triple.bind (image_edit fun mm h => ?_) fun _ =>
    Triple.pure fun _ h => h
  have hload := h.toLoaded.add (m := pageEntry (l.stackBase - PGSIZE) Perms.RW .stack slot)
    (.inr (.inl ⟨slot, rfl⟩))
  exact ⟨⟨hload.entries, hload.lazily⟩, h.heapBrk, h.mmapNext, rfl⟩

/-- The thread-local storage is part of the image. -/
theorem setupInitialTls_loads {n : Nat} :
    Triple (ImageAt l pid (·.Fresh l n)) (setupInitialTls pid)
      (fun _ => ImageAt l pid (·.Fresh l n)) fun _ _ => True := by
  refine image_layout ?_
  refine Triple.bind (image_step (by simp)) fun slot =>
    Triple.bind (image_step (by simp)) fun _ => ?_
  refine Triple.bind (image_step (by simp)) fun _ => Triple.bind (image_step (by simp)) fun _ => ?_
  refine Triple.bind (image_step (by simp)) fun _ => Triple.bind (image_step (by simp)) fun _ => ?_
  refine Triple.bind (image_step (by simp)) fun _ =>
    Triple.bind (image_edit fun mm h => ?_) fun _ =>
    Triple.pure fun _ h => h
  exact ⟨h.toLoaded.add (.inr (.inr ⟨slot, rfl⟩)), h.heapBrk, h.mmapNext, h.stack⟩

/-- What `do_execve` does when the old image is gone. -/
def loadImage (pid : Nat) (path : String) (argv envp : List String) (d : ElfImage) : M Unit := do
  let main ← loadElfIntoProcess pid d 0
  let interp ← loadInterpreter pid main d.interpreterPath
  let _ ← getProcess pid
  let l ← gets (·.layout)
  modifyMm pid (·.resetRegions l main.loadEnd)
  let _ ← setupInitialStack pid path argv envp
    [(AT_PHDR, main.phdrVaddr), (AT_PHENT, d.phEntrySize), (AT_PHNUM, d.phNum),
      (AT_PAGESZ, PGSIZE), (AT_BASE, (interp.map (·.1)).getD 0), (AT_ENTRY, main.entry)]
  let _ ← setupInitialTls pid
  let _ ← getProcess pid
  let _ ← ext
  let _ ← ext
  closeCloexecFds pid

/-- `execve` checks the image, empties the process and loads it. -/
theorem doExecve_eq (pid : Nat) (path : String) (argv envp : List String) :
    doExecve pid path argv envp = (do
      let d ← readExecImageFromFs
      if !d.valid then throw .invalidArgs
      else if d.fileType ≠ ET_EXEC ∧ d.fileType ≠ ET_DYN then throw .invalidArgs
      else do
        replaceImage pid
        loadImage pid path argv envp d) := rfl

/-- The tables have what was loaded, and the regions are new. -/
theorem loadImage_loads (path : String) (argv envp : List String) (d : ElfImage) :
    Triple (ImageAt l pid (·.Loaded l)) (loadImage pid path argv envp d)
      (fun _ => ImageAt l pid (·.Fresh l PGSIZE)) fun _ _ => True := by
  refine Triple.bind (loadElfIntoProcess_loads d 0) fun main => ?_
  refine Triple.bind (loadInterpreter_loads main _) fun interp => ?_
  refine Triple.bind (image_step (by simp)) fun _ => image_layout ?_
  refine Triple.bind (image_edit (Q := (·.Fresh l 0)) ?_) fun _ => ?_
  · intro mm h
    exact ⟨⟨h.entries, h.lazily⟩, rfl, rfl, rfl⟩
  refine Triple.bind (setupInitialStack_loads _ _ _ _) fun _ => ?_
  refine Triple.bind setupInitialTls_loads fun _ => Triple.bind (image_step (by simp)) fun _ => ?_
  exact Triple.bind (image_step (by simp)) fun _ => Triple.bind (image_step (by simp)) fun _ =>
    image_step (closeCloexecFds_frames pid)

end Image

/-! ### The whole call -/

section Call

variable {pid : Nat}

/-- The tables of the process are empty. -/
def World.Emptied (pid : Nat) (w : World) : Prop :=
  ∀ mm, w.mms.get? pid = some mm →
    mm.memoryMaps = OrdMap.empty ∧ mm.lazyMemoryMaps = OrdMap.empty

instance : BlindMemory World.layout where
  tick _ _ := rfl
  slots _ _ := rfl
  ledger _ _ := rfl
  vspace _ _ _ := rfl
  tables _ _ _ := rfl
  scratch _ _ _ := rfl
  writeFrame _ _ _ := rfl
  frames _ _ _ := rfl
  refs _ _ := rfl
  doubleFree _ _ := rfl
  mm _ _ _ := rfl
  fileMapLog _ _ := rfl

/-- The end of the old image leaves empty tables. -/
theorem replaceImage_empties (pid : Nat) :
    Triple (fun _ => True) (replaceImage pid)
      (fun _ => World.Emptied pid) fun _ _ => True := by
  refine Triple.bind (triple_true _) fun task => Triple.bind (triple_true _) fun _ => ?_
  refine Triple.bind (triple_true _) fun _ => Triple.bind (triple_true _) fun _ => ?_
  refine Triple.modify fun w _ mm hmm => ?_
  rw [World.mms_modifyMm, OrdMap.get?_modify, if_pos rfl] at hmm
  obtain ⟨mm₀, -, rfl⟩ := Option.map_eq_some_iff.mp hmm
  exact ⟨rfl, rfl⟩

/-- A call that succeeds has emptied the tables, and filled them again. -/
theorem doExecve_split {w w' : World} {path : String} {argv envp : List String}
    (h : (doExecve pid path argv envp).run w = (.ok (), w')) :
    ∃ d w₁, w₁.Emptied pid ∧ w₁.layout = w.layout ∧
      (loadImage pid path argv envp d).run w₁ = (.ok (), w') := by
  rw [doExecve_eq] at h
  -- an error before the teardown would be the result of the call
  rcases hread : readExecImageFromFs.run w with ⟨e | d, w₀⟩
  · rw [run_bind_error hread] at h
    cases h
  rw [run_bind_ok hread] at h
  split at h
  · cases h
  split at h
  · cases h
  rcases hrep : (replaceImage pid).run w₀ with ⟨e | u, w₁⟩
  · rw [run_bind_error hrep] at h
    cases h
  rw [run_bind_ok hrep] at h
  -- the teardown leaves an empty table, and what follows is the loading of the image
  have hempty := (replaceImage_empties pid w₀ trivial).1 () (by rw [hrep])
  have hlayout : w₁.layout = w₀.layout := by
    have := replaceImage_frames (V := World.layout) pid w₀
    rwa [hrep] at this
  have hlayout₀ : w₀.layout = w.layout := by
    have := readExecImageFromFs_frames (V := World.layout) w
    rwa [hread] at this
  rw [hrep] at hempty
  exact ⟨d, w₁, hempty, hlayout.trans hlayout₀, h⟩

/-- `execve` leaves the identity of its process. -/
theorem doExecve_identity (pid : Nat) (path : String) (argv envp : List String) :
    Frames (World.identity pid) (doExecve pid path argv envp) := by
  refine Frames.bind readExecImageFromFs_frames fun d => Frames.ite (Frames.throw _) ?_
  refine Frames.ite (Frames.throw _) (Frames.bind (replaceImage_frames _) fun _ => ?_)
  refine Frames.bind (loadElfIntoProcess_frames _ _ _) fun main => ?_
  refine Frames.bind (loadInterpreter_frames _ _ _) fun interp => ?_
  refine Frames.bind (by simp) fun _ => Frames.bind (by simp) fun l => ?_
  refine Frames.bind (by simp) fun _ => Frames.bind (setupInitialStack_frames _ _ _ _ _) fun _ => ?_
  refine Frames.bind (setupInitialTls_frames _) fun _ => Frames.bind (by simp) fun _ => ?_
  exact Frames.bind (by simp) fun _ => Frames.bind (by simp) fun _ => closeCloexecFds_frames pid

/-- The sweep leaves a descriptor without a flag as it is. -/
theorem closeCloexecFds_other {fs : FilesState} {fd : Nat} (hflag : fs.cloexec fd = false) :
    Triple (fun w => w.filesOf pid = some fs) (closeCloexecFds pid)
      (fun _ w => ∃ fs', w.filesOf pid = some fs' ∧ fs'.fds.get? fd = fs.fds.get? fd)
      fun _ _ => True := by
  refine Triple.bind ((getProcess_live (P := fun _ => True) pid fs).pre
    fun w h => ⟨trivial, h⟩) fun task => Triple.of_pre fun w₀ h₀ => ?_
  obtain ⟨rfl, -, hfs⟩ := h₀
  -- the numbers that are still to be closed do not have `fd` among them
  have hloop : ∀ fds : List Nat, fd ∉ fds →
      Triple (fun w => ∃ fs', w.filesOf pid = some fs' ∧ fs'.fds.get? fd = task.files.fds.get? fd)
        (forEach fds fun fd => doClose pid fd)
        (fun _ w => ∃ fs', w.filesOf pid = some fs' ∧ fs'.fds.get? fd = task.files.fds.get? fd)
        fun _ _ => True := by
    intro fds
    induction fds with
    | nil => exact fun _ => Triple.pure fun _ h => h
    | cons f fds ih =>
      intro hnot
      rw [List.mem_cons, not_or] at hnot
      obtain ⟨hne, hrest⟩ := hnot
      refine Triple.bind (Triple.of_pre fun w h => ?_) fun _ => ih hrest
      obtain ⟨fs', hfs', hget⟩ := h
      refine (doClose_closes pid f fs').imp (fun w' hw' => hw' ▸ hfs') (fun _ w' hw' => ?_)
        fun _ _ h => h
      refine ⟨_, hw', ?_⟩
      show (fs'.fds.erase f).get? fd = _
      rw [OrdMap.get?_erase, if_neg hne, hget]
  refine (hloop _ fun hmem => ?_).pre fun w hw => ⟨task.files, hw ▸ hfs, rfl⟩
  rw [FilesState.mem_cloexecFds.mp hmem] at hflag
  cases hflag

/-- A descriptor without the close-on-exec flag outlives an `execve`. -/
theorem doExecve_other {fs : FilesState} {fd : Nat} (hflag : fs.cloexec fd = false)
    (path : String) (argv envp : List String) :
    Triple (fun w => w.filesOf pid = some fs) (doExecve pid path argv envp)
      (fun _ w => ∃ fs', w.filesOf pid = some fs' ∧ fs'.fds.get? fd = fs.fds.get? fd)
      fun _ _ => True := by
  have hstep : ∀ {α : Type} {c : M α}, Frames (World.filesOf pid) c →
      Triple (fun w => w.filesOf pid = some fs) c (fun _ w => w.filesOf pid = some fs)
        fun _ _ => True :=
    fun h => (h.keeps (· = some fs)).triple.errors fun _ _ _ => trivial
  refine Triple.bind (hstep readExecImageFromFs_frames) fun d => ?_
  refine Triple.ite (fun _ => Triple.throw fun _ _ => trivial) fun _ => ?_
  refine Triple.ite (fun _ => Triple.throw fun _ _ => trivial) fun _ => ?_
  refine Triple.bind (hstep (replaceImage_frames _)) fun _ => ?_
  refine Triple.bind (hstep (loadElfIntoProcess_frames _ _ _)) fun main => ?_
  refine Triple.bind (hstep (loadInterpreter_frames _ _ _)) fun interp => ?_
  refine Triple.bind (hstep (by simp)) fun _ => Triple.bind (hstep (by simp)) fun l => ?_
  refine Triple.bind (hstep (by simp)) fun _ => ?_
  refine Triple.bind (hstep (setupInitialStack_frames _ _ _ _ _)) fun _ => ?_
  refine Triple.bind (hstep (setupInitialTls_frames _)) fun _ =>
    Triple.bind (hstep (by simp)) fun _ => ?_
  refine Triple.bind (hstep (by simp)) fun _ => Triple.bind (hstep (by simp)) fun _ => ?_
  exact closeCloexecFds_other hflag

/-- A process that is not there has no `execve`. -/
theorem doExecve_live {w w' : World} {path : String} {argv envp : List String}
    (h : (doExecve pid path argv envp).run w = (.ok (), w')) : ∃ t, w.task? pid = some t := by
  rw [doExecve_eq] at h
  rcases hread : readExecImageFromFs.run w with ⟨e | d, w₀⟩
  · rw [run_bind_error hread] at h
    cases h
  rw [run_bind_ok hread] at h
  have hid : w₀.identity pid = w.identity pid := by
    have := readExecImageFromFs_frames (V := World.identity pid) w
    rwa [hread] at this
  split at h
  · cases h
  split at h
  · cases h
  -- a process that is not there cannot be torn down, so the call would fail
  cases ht : w.task? pid with
  | some t => exact ⟨t, rfl⟩
  | none =>
    have hnone : w₀.task? pid = none := by
      rw [World.identity, World.identity, ht] at hid
      exact Option.map_eq_none_iff.mp hid
    have hproc : (getProcess pid).run w₀ = (.error .notFound, w₀) := by
      rw [getProcess, run_gets_bind, hnone]
      rfl
    have hrep : (replaceImage pid).run w₀ = (.error .notFound, w₀) := run_bind_error hproc
    rw [run_bind_error hrep] at h
    cases h

end Call

/-- What `execve` is to leave: the tables were emptied in this call and have only what it loaded,
the regions are new, no signal has a handler, and the rest is as it was. -/
structure ExecResets (pid : Nat) (path : String) (argv envp : List String) (w w' : World)
    (t t' : TaskStruct) : Prop where
  emptied : ∃ d w₁, w₁.Emptied pid ∧ (loadImage pid path argv envp d).run w₁ = (.ok (), w')
  fresh : t'.mm.state.Fresh w.layout PGSIZE
  actions : ∀ signum a, t'.signalActions.get? signum = some a →
    a.handler = SIG_DFL_HANDLER ∨ a.handler = SIG_IGN_HANDLER
  ids : t'.pid = t.pid ∧ t'.parentPid = t.parentPid ∧ t'.sessionId = t.sessionId ∧
    t'.processGroupId = t.processGroupId
  cwd : t'.fs = t.fs
  blocked : t'.signal.signalBlocked = t.signal.signalBlocked
  fds : ∀ fd, t.files.cloexec fd = false → t'.files.fds.get? fd = t.files.fds.get? fd

/-- An `execve` that succeeds leaves nothing of the old image exactly when every signal action
was the default or to ignore: the actions stay as they are. -/
theorem execve_resets_iff {w w' : World} {pid : Nat} {path : String} {argv envp : List String}
    (h : (doExecve pid path argv envp).run w = (.ok (), w')) :
    ∃ t t', w.task? pid = some t ∧ w'.task? pid = some t' ∧
      (ExecResets pid path argv envp w w' t t' ↔
        ∀ signum a, t.signalActions.get? signum = some a →
          a.handler = SIG_DFL_HANDLER ∨ a.handler = SIG_IGN_HANDLER) := by
  obtain ⟨t, ht⟩ := doExecve_live h
  -- what identifies the process is never written
  have hid := doExecve_identity pid path argv envp w
  rw [h, World.identity, World.identity, ht] at hid
  obtain ⟨t', ht', hsame⟩ := Option.map_eq_some_iff.mp hid
  have hactions : t'.signalActions = t.signalActions := congrArg Identity.signalActions hsame
  refine ⟨t, t', ht, ht', fun hreset => hactions ▸ hreset.actions, ?_⟩
  intro hplain
  obtain ⟨d, w₁, hempty, hlayout, hload⟩ := doExecve_split h
  have hfresh : t'.mm.state.Fresh w.layout PGSIZE := by
    -- the teardown left no entry, and what is loaded is in order over that
    have hstart : ImageAt w.layout pid (·.Loaded w.layout) w₁ := by
      refine ⟨hlayout, fun mm hmm => ⟨?_, (hempty mm hmm).2⟩⟩
      intro k m hk
      rw [(hempty mm hmm).1] at hk
      cases hk
    have hend := (loadImage_loads path argv envp d w₁ hstart).1 () (by rw [hload])
    rw [hload] at hend
    refine hend.2 _ ?_
    rw [World.get?_mms]
    show (w'.task? pid).map _ = _
    rw [ht']
    rfl
  refine ⟨⟨d, w₁, hempty, hload⟩, hfresh, hactions ▸ hplain, ?_, congrArg Identity.fs hsame,
    congrArg (·.signal.signalBlocked) hsame, ?_⟩
  · exact ⟨congrArg Identity.pid hsame, congrArg Identity.parentPid hsame,
      congrArg Identity.sessionId hsame, congrArg Identity.processGroupId hsame⟩
  -- a descriptor without the flag is not among those that are closed
  · intro fd hflag
    have hfiles : w.filesOf pid = some t.files := by
      rw [World.filesOf, ht]
      rfl
    have hend := (doExecve_other hflag path argv envp w hfiles).1 () (by rw [h])
    rw [h] at hend
    obtain ⟨fs', hfs', hget⟩ := hend
    rw [World.filesOf, ht'] at hfs'
    cases hfs'
    exact hget

/-- `init` has a handler for `SIGTSTP`. -/
def sampleHandler : World :=
  [Request.syscall 1 (.userWrite 0x3ffff800 (leBytes 8 0x1000)),
    .syscall 1 (.rtSigaction SIGTSTP 0x3ffff800 0 8)].foldl World.after sampleBoot

/-- The sample with a handler is reachable. -/
theorem sampleHandler_reachable : Reachable sampleHandler :=
  (sampleBoot_reachable.after (by decide +kernel)).after (by decide +kernel)

/-- The state after an `execve` of the image `a`. -/
def World.afterExec (w : World) (pid : Nat) : World := ((doExecve pid "a" [] []).run w).2

/-- The state after an `execve` that succeeds. -/
theorem run_exec {w : World} {pid : Nat} (h : ((doExecve pid "a" [] []).run w).1 = .ok ()) :
    (doExecve pid "a" [] []).run w = (.ok (), w.afterExec pid) := Prod.ext h rfl

/-- `init` has set no action when it starts, so an `execve` resets all of it. -/
theorem execve_resets_iff_sample :
    ∃ t t', sampleBoot.task? 1 = some t ∧ (sampleBoot.afterExec 1).task? 1 = some t' ∧
      ExecResets 1 "a" [] [] sampleBoot (sampleBoot.afterExec 1) t t' := by
  have hok : ((doExecve 1 "a" [] []).run sampleBoot).1 = .ok () := by decide +kernel
  obtain ⟨t, t', ht, ht', hiff⟩ := execve_resets_iff (run_exec hok)
  refine ⟨t, t', ht, ht', hiff.mpr ?_⟩
  intro signum a ha
  have hnone : (sampleBoot.task? 1).all fun t => t.signalActions.entries = [] := by decide +kernel
  rw [ht] at hnone
  have hempty : t.signalActions.entries = [] := by simpa using hnone
  simp [OrdMap.get?, hempty] at ha

/-- A handler of the old image outlives an `execve`. -/
theorem handler_outlives_execve :
    Reachable sampleHandler ∧ ((doExecve 1 "a" [] []).run sampleHandler).1 = .ok () ∧
      ∀ t t', (sampleHandler.afterExec 1).task? 1 = some t' →
        ¬ ExecResets 1 "a" [] [] sampleHandler (sampleHandler.afterExec 1) t t' := by
  refine ⟨sampleHandler_reachable, by decide +kernel, ?_⟩
  intro t t' ht' hreset
  have hhandler : (((sampleHandler.afterExec 1).task? 1).bind fun t =>
      (t.signalActions.get? SIGTSTP).map (·.handler)) = some 0x1000 := by decide +kernel
  rw [ht'] at hhandler
  obtain ⟨a, ha, hat⟩ := Option.map_eq_some_iff.mp hhandler
  rcases hreset.actions SIGTSTP a ha with hdfl | hign
  · rw [hat] at hdfl
    cases hdfl
  · rw [hat] at hign
    cases hign

end Ape
