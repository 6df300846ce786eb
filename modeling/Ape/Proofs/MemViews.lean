import Ape.Proofs.Calls

/-!
# `Ape.Proofs.MemViews`: the memory commands seen from outside

The memory syscalls, the page faults and the loader of `execve` change only memory: a view
that does not see the memory of the processes does not see them. The last section is about
invariants that see none of the tables of the server, and are kept by every request.
-/

set_option autoImplicit false

namespace Ape

open Ape.Lib Cmd

section Memory

variable {γ : Type} {V : World → γ} [h : BlindSpace V] (pid : Nat) [hl : BlindLedger V pid]

/-! ### Splitting, `mmap` and `munmap` -/

/-- A split shows in the memory of its process only. -/
@[simp] theorem splitLargeMappingIntoBasePages_frames (mapStart : Nat) :
    Frames V (splitLargeMappingIntoBasePages pid mapStart) := by
  unfold splitLargeMappingIntoBasePages
  refine Frames.bind (by simp) fun task => Frames.bind (by simp) fun m => ?_
  refine Frames.ite (by simp) (Frames.ite (by simp) (Frames.bind (by simp) fun src => ?_))
  refine Frames.bind (by simp) fun slots => Frames.bind (by simp) fun _ => ?_
  refine Frames.bind (by simp) fun _ => Frames.bind (by simp) fun _ => ?_
  exact Frames.bind (by simp) fun _ => Frames.bind (by simp) fun _ => by simp

/-- The splits at the ends of a range show in the memory of their process only. -/
@[simp] theorem ensurePartialMultiPageRangesSplit_frames (start stop : Nat) :
    Frames V (ensurePartialMultiPageRangesSplit pid start stop) := by
  simp [ensurePartialMultiPageRangesSplit]

omit hl in
/-- `brk` shows in the memory state of its process only. -/
@[simp] theorem doBrk_frames (addr : Nat) : Frames V (doBrk pid addr) := by
  refine Frames.bind (by simp) fun task => Frames.ite (by simp) (Frames.ite (by simp) ?_)
  exact Frames.bind (by simp) fun _ => by simp

/-- An `mmap` that is undone shows in the memory of its process only. -/
@[simp] theorem rollbackEager_frames (mapped : List (Nat × Nat)) :
    Frames V (rollbackEager pid mapped) :=
  Frames.forEach fun e => Frames.bind (by simp) fun _ => Frames.bind (by simp) fun _ => by simp

/-- The pages of an `mmap` show in the memory of its process only. -/
@[simp] theorem mapAnonymousPages_frames (perms : Perms) (pages : List Nat)
    (mapped : List (Nat × Nat)) : Frames V (mapAnonymousPages pid perms pages mapped) := by
  induction pages generalizing mapped with
  | nil => exact Frames.pure _
  | cons page rest ih =>
    unfold mapAnonymousPages
    refine Frames.bind (by simp) fun slot =>
      Frames.bind (Frames.onError (by simp) fun _ => by simp) fun _ => ?_
    refine Frames.bind (by simp) fun _ =>
      Frames.bind (Frames.onError (by simp) fun _ => by simp) fun _ => ?_
    exact Frames.bind (by simp) fun _ => ih _

/-- A new range shows in the memory of its process only. -/
@[simp] theorem mapNewRange_frames (start stop : Nat) (perms : Perms)
    (fileBacking : Option (Nat × Nat)) :
    Frames V (mapNewRange pid start stop perms fileBacking) := by
  unfold mapNewRange
  split
  · exact Frames.bind (logFileMap_frames _) fun _ =>
      Frames.bind (by simp) fun _ => Frames.forEach fun page => by simp
  · exact mapAnonymousPages_frames _ _ _ _

omit h in
/-- Ranges that are unmapped show in the page tables and frames only. -/
@[simp] theorem unmapRanges_frames [BlindTables V] [BlindFrames V]
    (ranges : OrdMap Nat (Nat × Nat)) : Frames V (unmapRanges pid ranges) :=
  Frames.forEach fun e => Frames.bind (by simp) fun _ => by simp

/-- `mmap` shows in the memory of its process only. -/
@[simp] theorem doMmap_frames (addr len prot flags fd offset : Nat) :
    Frames V (doMmap pid addr len prot flags fd offset) := by
  refine Frames.ite (by simp) (Frames.ite (by simp) (Frames.bind ?_ fun fileBacking => ?_))
  · exact Frames.ite (by simp) (Frames.ite (by simp) (Frames.bind (by simp) fun _ => by simp))
  refine Frames.ite (Frames.ite (by simp) (Frames.bind (by simp) fun stop => ?_)) ?_
  · refine Frames.bind (by simp) fun _ => Frames.bind (by simp) fun task => ?_
    refine Frames.bind (by simp) fun _ => Frames.bind (by simp) fun _ => ?_
    exact Frames.bind (by simp) fun _ => Frames.bind (by simp) fun _ => by simp
  · refine Frames.bind (by simp) fun task => Frames.bind (by simp) fun start => ?_
    exact Frames.bind (by simp) fun _ => Frames.bind (by simp) fun _ => by simp

/-- `munmap` shows in the memory of its process only. -/
@[simp] theorem doMunmap_frames (addr len : Nat) : Frames V (doMunmap pid addr len) := by
  refine Frames.ite (by simp) (Frames.bind (by simp) fun stop => Frames.bind (by simp) fun _ => ?_)
  exact Frames.bind (by simp) fun task => Frames.bind (by simp) fun _ => by simp

/-! ### `mprotect` and `mremap` -/

/-- `mprotect` shows in the memory of its process only. -/
@[simp] theorem doMprotect_frames (addr len prot : Nat) :
    Frames V (doMprotect pid addr len prot) := by
  refine Frames.ite (by simp) (Frames.bind (by simp) fun last => Frames.bind (by simp) fun _ => ?_)
  refine Frames.bind (by simp) fun task => Frames.bind (by simp) fun ranges => ?_
  exact Frames.bind (Frames.forEach fun e => by simp) fun _ => by simp

omit h in
/-- Pages that are mapped at a new place show in the page tables only. -/
theorem remapInstall_frames [BlindTables V] (target : Nat) (l : List (RemapPageState × Nat))
    (done : List Nat) : Frames V (remapInstall pid target l done) := by
  induction l generalizing done with
  | nil => exact Frames.pure _
  | cons e rest ih =>
    obtain ⟨st, i⟩ := e
    cases st with
    | mapped c f => exact Frames.bind (Frames.onError (by simp) fun _ => by simp) fun _ => ih _
    | lazyPage f => exact ih _

omit hl in
/-- A mapping that grows in place shows in the memory state only. -/
@[simp] theorem expandInPlace_frames (oldEnd newEnd : Nat) (flags : Perms) :
    Frames V (expandInPlace pid oldEnd newEnd flags) := by simp [expandInPlace]

/-- A range that is moved shows in the memory of its process only. -/
@[simp] theorem remapTo_frames (oldAddr oldLen newLen target : Nat)
    (states : List RemapPageState) (flags : Perms) :
    Frames V (remapTo pid oldAddr oldLen newLen target states flags) := by
  refine Frames.bind (by simp) fun _ => Frames.ite ?_ ?_
  · refine Frames.ite (Frames.bind (by simp) fun _ => by simp) (Frames.ite ?_ (by simp))
    refine Frames.bind (by simp) fun task => Frames.ite (by simp) ?_
    exact Frames.bind (by simp) fun _ => by simp
  · refine Frames.bind (by simp) fun stop => Frames.ite (by simp) ?_
    refine Frames.bind (by simp) fun task => Frames.ite (by simp) ?_
    refine Frames.bind (remapInstall_frames _ _ _ _) fun _ => Frames.bind (by simp) fun _ => ?_
    refine Frames.bind (by simp) fun _ => Frames.bind (Frames.forEach fun e => ?_) fun _ => by simp
    split <;> simp

/-- `mremap` shows in the memory of its process only. -/
@[simp] theorem doMremap_frames (oldAddr oldSize newSize flags newAddr : Nat) :
    Frames V (doMremap pid oldAddr oldSize newSize flags newAddr) := by
  refine Frames.ite (by simp) (Frames.ite (by simp) (Frames.bind (by simp) fun _ => ?_))
  refine Frames.bind (by simp) fun _ => Frames.bind (by simp) fun task => ?_
  refine Frames.bind (by simp) fun states => Frames.ite ?_ (Frames.ite (by simp) (by simp))
  refine Frames.ite (Frames.ite (Frames.bind (by simp) fun _ => by simp) (by simp)) ?_
  refine Frames.bind (by simp) fun task => Frames.ite (Frames.bind (by simp) fun _ => by simp) ?_
  exact Frames.ite (by simp) (Frames.bind (by simp) fun target => by simp)

/-! ### Page faults -/

/-- A page after a fault shows in the memory of its process only. -/
@[simp] theorem mapFaultPage_frames (pageAddr : Nat) (perms : Perms) (memType : MemoryType) :
    Frames V (mapFaultPage pid pageAddr perms memType) := by
  refine Frames.bind (by simp) fun slot => Frames.bind (by simp) fun _ => ?_
  exact Frames.bind (by simp) fun _ => by simp

omit h in
/-- Frames that a file service lends show in the frames only. -/
@[simp] theorem fsMapPages_frames [hf : BlindFrames V] (pages slot : Nat) :
    Frames V (fsMapPages pages slot) :=
  Frames.bind ext_frames fun _ => Frames.bind (fun w => hf.frames w _ _) fun _ => Frames.pure _

omit h hl in
/-- The lookup of the handle behind a mapping changes nothing. -/
@[simp] theorem backingHandle_frames (fd : Nat) : Frames V (backingHandle pid fd) := by
  simp [backingHandle]

omit h in
/-- A page that is filled from a file shows in the bytes only. -/
@[simp] theorem fillFromFile_frames [BlindBytes V] (scratch : Nat) :
    Frames V (fillFromFile scratch) :=
  Frames.bind (by simp) fun _ => by simp

omit h in
/-- A page that is copied shows in the bytes only. -/
@[simp] theorem copyFramePage_frames [BlindBytes V] (oldFrame newFrame : Nat) :
    Frames V (copyFramePage oldFrame newFrame) :=
  Frames.bind (by simp) fun _ => Frames.bind (by simp) fun _ =>
    Frames.bind (by simp) fun _ => Frames.bind (by simp) fun _ => by simp

/-- A page that is mapped again shows in the page tables only. -/
@[simp] theorem remapExistingPage_frames (pageAddr frameCap : Nat) (perms : Perms)
    (pages : Nat) : Frames V (remapExistingPage pid pageAddr frameCap perms pages) :=
  Frames.bind (by simp) fun _ => Frames.bind (by simp) fun _ => by simp

/-- A page that gets a frame of its own shows in the memory of its process only. -/
@[simp] theorem resolveCowFault_frames (pageAddr oldFrameCap : Nat) (perms : Perms) :
    Frames V (resolveCowFault pid pageAddr oldFrameCap perms) := by
  refine Frames.ite (by simp) (Frames.bind (by simp) fun slot => Frames.bind (by simp) fun _ => ?_)
  refine Frames.bind (by simp) fun _ => Frames.bind (by simp) fun _ => ?_
  exact Frames.bind (by simp) fun _ => Frames.bind (by simp) fun _ => by simp

/-! ### The loader -/

omit h hl in
/-- The tables that `execve` and the end of a process clear show in the page tables only. -/
@[simp] theorem unmapAll_frames [BlindTables V] (mm : MmState) :
    Frames V (unmapAll pid mm) :=
  Frames.forEach fun m => Frames.when (by simp)

omit h in
/-- The frames that a process gives back show in the frames and its ledger only. -/
@[simp] theorem releaseAllFrames_frames [BlindFrames V] (mm : MmState) :
    Frames V (releaseAllFrames pid mm) :=
  Frames.forEach fun slot => by simp

omit h in
/-- An image that is read from a file changes nothing. -/
@[simp] theorem readExecImageFromFs_frames [BlindCaps V] : Frames V readExecImageFromFs := by
  have hloop : ∀ size fuel offset bytes, Frames V (readImageLoop size fuel offset bytes) := by
    intro size fuel
    induction fuel with
    | zero => intro offset bytes; exact Frames.pure _
    | succ fuel ih =>
      intro offset bytes
      exact Frames.ite (Frames.bind (by simp) fun a => Frames.ite (by simp) (ih _ _)) (by simp)
  refine Frames.bind (by simp) fun stat => Frames.ite (by simp) ?_
  refine Frames.bind (by simp) fun slot => Frames.bind (by simp) fun _ => ?_
  refine Frames.bind (Frames.onError (hloop _ _ _ _) fun _ => by simp) fun bytes => ?_
  exact Frames.bind (by simp) fun _ => by simp

/-- The segments of an image show in the memory of the process only. -/
@[simp] theorem loadElfIntoProcess_frames (d : ElfImage) (loadBias : Nat) :
    Frames V (loadElfIntoProcess pid d loadBias) := by
  refine Frames.ite (by simp) (Frames.bind (Frames.forEach fun ph => ?_) fun _ => by simp)
  refine Frames.ite (by simp) (Frames.forEach fun page => ?_)
  refine Frames.bind (by simp) fun slot => Frames.bind (by simp) fun _ => ?_
  refine Frames.bind (by simp) fun _ => Frames.bind (by simp) fun _ => ?_
  exact Frames.bind (by simp) fun _ => Frames.bind (by simp) fun _ => by simp

/-- The interpreter of an image shows in the memory of the process only. -/
@[simp] theorem loadInterpreter_frames (main : LoadedElfInfo) (interp : Option String) :
    Frames V (loadInterpreter pid main interp) := by
  unfold loadInterpreter
  split
  · exact Frames.pure _
  · exact Frames.bind readExecImageFromFs_frames fun d =>
      Frames.bind (loadElfIntoProcess_frames _ _ _) fun _ => Frames.pure _

/-- The first stack of a program shows in the memory of the process only. -/
@[simp] theorem setupInitialStack_frames (arg0 : String) (argv envp : List String)
    (auxv : List (Nat × Nat)) : Frames V (setupInitialStack pid arg0 argv envp auxv) := by
  refine Frames.bind (by simp) fun l => Frames.bind (by simp) fun slot => ?_
  refine Frames.bind (by simp) fun _ => Frames.bind (by simp) fun _ => ?_
  refine Frames.bind (by simp) fun scratch => Frames.bind (by simp) fun _ => ?_
  refine Frames.bind (by simp) fun e => Frames.bind (by simp) fun _ => ?_
  exact Frames.bind (by simp) fun _ => Frames.bind (by simp) fun _ => by simp

/-- The thread-local storage of a program shows in the memory of the process only. -/
@[simp] theorem setupInitialTls_frames : Frames V (setupInitialTls pid) := by
  refine Frames.bind (by simp) fun l => Frames.bind (by simp) fun slot => ?_
  refine Frames.bind (by simp) fun _ => Frames.bind (by simp) fun _ => ?_
  refine Frames.bind (by simp) fun scratch => Frames.bind (by simp) fun _ => ?_
  exact Frames.bind (by simp) fun _ => Frames.bind (by simp) fun _ => by simp

/-- The entries that a child shares show in the memory of both processes only. -/
@[simp] theorem forkMaps_frames (childPid : Nat) [BlindLedger V childPid] (maps : List MemoryMap)
    (retained : List Nat) :
    Frames V (forkMaps pid childPid maps retained) := by
  induction maps generalizing retained with
  | nil => exact Frames.pure _
  | cons m rest ih =>
    refine Frames.ite (ih _) (Frames.bind (by simp) fun _ => ?_)
    refine Frames.bind (Frames.when (Frames.bind (by simp) fun _ => by simp)) fun _ => ?_
    exact Frames.bind (by simp) fun _ => Frames.bind (by simp) fun _ => ih _

/-- A memory that is emptied for a new image shows in the memory of the process only. -/
@[simp] theorem replaceImage_frames : Frames V (replaceImage pid) :=
  Frames.bind (by simp) fun _ => Frames.bind (by simp) fun _ =>
    Frames.bind (by simp) fun _ => by simp

end Memory

section Invariants

variable {I : World → Prop} [BlindSpace I] (pid : Nat) [BlindLedger I pid]

/-- The loader keeps an invariant that sees no memory and no descriptors. -/
theorem doExecve_keeps_blind [hf : FileCalls I pid] (path : String) (argv envp : List String) :
    Keeps I (doExecve pid path argv envp) := by
  unfold doExecve
  refine Keeps.bind readExecImageFromFs_frames.keepsProp fun d => Keeps.ite (by simp) ?_
  refine Keeps.ite (by simp) (Keeps.bind (replaceImage_frames _).keepsProp fun _ => ?_)
  refine Keeps.bind (loadElfIntoProcess_frames _ _ _).keepsProp fun main => ?_
  refine Keeps.bind (loadInterpreter_frames _ _ _).keepsProp fun interp => ?_
  refine Keeps.bind (by simp) fun _ => Keeps.bind (by simp) fun l => ?_
  refine Keeps.bind (modifyMm_frames _ _).keepsProp fun _ => ?_
  refine Keeps.bind (setupInitialStack_frames _ _ _ _ _).keepsProp fun _ => ?_
  refine Keeps.bind (setupInitialTls_frames _).keepsProp fun _ => Keeps.bind (by simp) fun _ => ?_
  refine Keeps.bind (by simp) fun _ => Keeps.bind (by simp) fun _ => ?_
  exact Keeps.bind (by simp) fun _ => Keeps.forEach fun fd => hf.close _

/-- An invariant that is blind to memory is kept by `execve`. -/
theorem doExecveUser_keeps_blind [FileCalls I pid] [GrowKeeps I] (filename argv envp : Nat) :
    Keeps I (doExecveUser pid filename argv envp) :=
  Keeps.bind (parseExecveUserInput_keeps (GrowKeeps.grow _) _ _ _) fun _ =>
    doExecve_keeps_blind _ _ _ _

/-- A fault in a file page keeps an invariant that sees no memory. -/
theorem mapFileBackedFaultPage_keeps_blind [FillKeeps I] (pageAddr : Nat)
    (m : MemoryMap) (n : Nat) :
    Keeps I (mapFileBackedFaultPage pid pageAddr m n) := by
  have hmem : ∀ {α : Type} {c : M α}, Frames I c → Keeps I c := fun h => h.keepsProp
  -- the two ways to fill a page: a copy of the file, and its own pages
  have hcopy : ∀ fd, Keeps I (copyFilePage pid fd pageAddr m) := by
    intro fd
    unfold copyFilePage
    refine Keeps.bind (hmem (by simp)) fun handle => Keeps.bind (hmem (by simp)) fun slot => ?_
    refine Keeps.bind (hmem (by simp)) fun _ => Keeps.bind (hmem (by simp)) fun _ => ?_
    refine Keeps.bind (hmem (Frames.onError (by simp) fun _ => by simp)) fun scratch => ?_
    refine Keeps.bind (hmem (Frames.attempt (fillFromFile_frames _))) fun r =>
      Keeps.bind (hmem (by simp)) fun _ => ?_
    refine Keeps.bind (hmem (Frames.onError (by simp) fun _ => by simp)) fun _ => ?_
    exact Keeps.bind (by simp) fun _ => Keeps.bind (hmem (by simp)) fun _ =>
      Keeps.bind (emit_filled_keeps _) fun _ => Keeps.pure _
  have hzero : ∀ fd pages, Keeps I (tryZeroCopy pid fd pageAddr m pages) := by
    intro fd pages
    unfold tryZeroCopy
    refine Keeps.bind (hmem (by simp)) fun handle => Keeps.bind (hmem (by simp)) fun slot =>
      Keeps.bind (hmem (by simp)) fun r => ?_
    split
    · exact hmem (by simp)
    · exact Keeps.bind (hmem (by simp)) fun _ => Keeps.bind (by simp) fun _ =>
        Keeps.bind (hmem (by simp)) fun _ => Keeps.bind (emit_filled_keeps _) fun _ => Keeps.pure _
    · exact hmem (by simp)
    · exact hmem (by simp)
  refine Keeps.bind (by simp) fun fd => Keeps.bind (by simp) fun task => ?_
  exact Keeps.bind (hzero _ _) fun k => Keeps.ite (Keeps.pure _) (hcopy _)

/-- A page fault keeps an invariant that sees no memory, up to the end of the process. -/
theorem pageFault_of_blind [FillKeeps I] {J : World → Prop} (hweak : ∀ w, I w → J w)
    (hterm : ∀ code, Triple I (terminateProcess pid code) (fun _ => J) fun _ => J) (addr : Nat)
    (cause : FaultCause) : Triple I (pageFault pid addr cause) (fun _ => J) fun _ => J := by
  have hkeep : ∀ {c : M Unit}, Keeps I c → Triple I c (fun _ => J) fun _ => J := fun h =>
    h.triple.imp (fun _ hw => hw) (fun _ => hweak) fun _ => hweak
  have hmem : ∀ {c : M Unit}, Frames I c → Triple I c (fun _ => J) fun _ => J := fun h =>
    hkeep h.keepsProp
  have hsig : ∀ signum, Triple I (terminateBySignal pid signum) (fun _ => J) fun _ => J :=
    fun _ => hterm _
  refine Triple.bind ((getProcess_keeps pid).triple.imp (fun _ hw => hw) (fun _ _ hw => hw)
    fun _ => hweak) fun task => ?_
  -- inside an entry: a denied access ends the process, and the rest resolves the page
  split
  · rename_i m _
    refine Triple.ite (fun _ => Triple.ite (fun _ => hsig _) fun _ => hmem (by simp)) fun _ =>
      Triple.ite (fun _ => ?_) fun _ => hmem (by simp)
    split
    · exact hmem (by simp)
    · exact hsig _
  · unfold faultOutside
    -- outside: the growth of the stack, the heap, a lazy entry, and an address of nobody
    split
    · refine Triple.ite (fun _ => hsig _) fun _ => hmem (Frames.forEach fun idx => ?_)
      exact Frames.bind (by simp) fun _ => by simp
    · exact Triple.ite (fun _ => hsig _) fun _ => hmem (by simp)
    · refine Triple.ite (fun _ => hsig _) fun _ => Triple.ite (fun _ => ?_) fun _ => ?_
      · refine Triple.bind (R := fun _ => I) ((Keeps.attempt
          (mapFileBackedFaultPage_keeps_blind pid _ _ _)).triple.imp (fun _ hw => hw)
            (fun _ _ hw => hw) fun _ => hweak) fun r => ?_
        split
        · exact Triple.pure hweak
        · exact hsig _
      · exact hmem (Frames.bind (by simp) fun _ => by simp)
    · exact hsig _

/-- A page fault keeps an invariant that sees no memory, when the end of a process does. -/
theorem pageFault_keeps_blind [FillKeeps I] (hterm : ∀ code, Keeps I (terminateProcess pid code))
    (addr : Nat) (cause : FaultCause) : Keeps I (pageFault pid addr cause) :=
  Triple.keeps (pageFault_of_blind pid (fun _ hw => hw) (fun code =>
    (hterm code).triple) addr cause)

end Invariants

/-! ### Invariants that see no table -/

/-- The view does not see the process table, and what is logged of inherited descriptors and
mappings. -/
class BlindProcesses {γ : Type} (V : World → γ) : Prop where
  tasks : ∀ w t, V { w with tasks := t } = V w
  cloexecLog : ∀ w l, V { w with cloexecLog := l } = V w
  fileMapLog : ∀ w l, V { w with fileMapLog := l } = V w
  nextPid : ∀ w n, V { w with nextPid := n } = V w
  panicked : ∀ w b, V { w with panicked := b } = V w

/-- The state with a new process, as `register_process` makes it. -/
def World.registered (w : World) (parentPid cnode : Nat) : World :=
  { w with
    nextPid := w.nextPid + 1
    tasks := w.tasks.insert w.nextPid
      (seedInitialPagetablePaths w.layout (TaskStruct.new w.layout w.nextPid parentPid cnode)) }

/-- The pending set of a process. -/
def World.pendingOf (pid : Nat) (w : World) : Option SigSet :=
  (w.task? pid).map (·.signal.signalPending)

/-- A change of a process record that keeps the pending set. -/
theorem World.pendingOf_modifyTask (w : World) (pid q : Nat) {f : TaskStruct → TaskStruct}
    (hf : ∀ t, (f t).signal.signalPending = t.signal.signalPending) :
    (w.modifyTask pid f).pendingOf q = w.pendingOf q := by
  rw [World.pendingOf, World.pendingOf, World.task?, World.modifyTask, OrdMap.get?_modify]
  by_cases h : q = pid
  · subst h
    rw [if_pos rfl, Option.map_map]
    exact congrArg (Option.map · _) (funext hf)
  · rw [if_neg h]
    rfl

instance (pid : Nat) : BlindMemory (World.pendingOf pid) where
  tick _ _ := rfl
  slots _ _ := rfl
  ledger _ _ := rfl
  vspace w p _ := w.pendingOf_modifyTask p pid fun _ => rfl
  tables w p _ := w.pendingOf_modifyTask p pid fun _ => rfl
  scratch _ _ _ := rfl
  writeFrame _ _ _ := rfl
  frames _ _ _ := rfl
  refs _ _ := rfl
  doubleFree _ _ := rfl
  mm w p _ := w.pendingOf_modifyTask p pid fun _ => rfl
  fileMapLog _ _ := rfl

/-- The process has no open descriptor and no pending signal. -/
def World.Fresh (pid : Nat) (w : World) : Prop := w.Closed pid ∧ w.pendingOf pid = some 0

/-- The record of a process with an empty memory in the place of its own. -/
def TaskStruct.withoutMm (t : TaskStruct) : TaskStruct :=
  { t with mm := ⟨fun _ => none, OrdMap.empty,
      ⟨OrdMap.empty, OrdMap.empty, 0, 0, 0, 0, 0, 0, 0, 0, 0⟩⟩ }

/-- The record of a process without its memory. -/
def World.recordOf (pid : Nat) (w : World) : Option TaskStruct :=
  (w.task? pid).map (·.withoutMm)

/-- A change of the memory of a process does not change the rest of its record. -/
theorem World.recordOf_modifyTask (w : World) (pid q : Nat) (f : TaskStruct → MmStruct) :
    (w.modifyTask pid fun t => { t with mm := f t }).recordOf q = w.recordOf q := by
  rw [World.recordOf, World.recordOf, World.task?, World.modifyTask, OrdMap.get?_modify]
  by_cases h : q = pid
  · subst h
    rw [if_pos rfl, Option.map_map]
    rfl
  · rw [if_neg h]
    rfl

instance (pid : Nat) : BlindMemory (World.recordOf pid) where
  tick _ _ := rfl
  slots _ _ := rfl
  ledger _ _ := rfl
  vspace w p _ := w.recordOf_modifyTask p pid _
  tables w p _ := w.recordOf_modifyTask p pid _
  scratch _ _ _ := rfl
  writeFrame _ _ _ := rfl
  frames _ _ _ := rfl
  refs _ _ := rfl
  doubleFree _ _ := rfl
  mm w p _ := w.recordOf_modifyTask p pid _
  fileMapLog _ _ := rfl

instance : BlindMemory World.nextPid where
  tick _ _ := rfl
  slots _ _ := rfl
  ledger _ _ := rfl
  vspace _ _ _ := rfl
  tables _ _ _ := rfl
  scratch _ _ _ := rfl
  writeFrame _ _ _ := rfl
  frames _ _ _ := rfl
  refs _ _ := rfl
  doubleFree _ _ := rfl
  mm _ _ _ := rfl
  fileMapLog _ _ := rfl

/-- The process was just registered as a child of `parentPid`. -/
def World.Registered (parentPid pid : Nat) (w : World) : Prop :=
  w.nextPid = pid + 1 ∧
    ∃ l cnode, w.recordOf pid = some (TaskStruct.new l pid parentPid cnode).withoutMm

/-- The process `child` was just registered as a child of `pid`, whose record is that of
`parent` apart from its memory. -/
def World.Forking (pid child : Nat) (parent : TaskStruct) (w : World) : Prop :=
  w.recordOf pid = some parent.withoutMm ∧ w.Registered pid child

/-- A part of a record that is not its memory. -/
theorem World.task?_of_record {w : World} {pid : Nat} {t : TaskStruct}
    (h : w.recordOf pid = some t.withoutMm) :
    ∃ t', w.task? pid = some t' ∧ t'.withoutMm = t.withoutMm := by
  obtain ⟨t', ht', heq⟩ := Option.map_eq_some_iff.mp h
  exact ⟨t', ht', heq⟩

/-- A new process has no open descriptor and no pending signal. -/
theorem World.Registered.fresh {w : World} {parentPid pid : Nat} (h : w.Registered parentPid pid) :
    w.Fresh pid := by
  obtain ⟨-, l, cnode, hrec⟩ := h
  obtain ⟨t, ht, heq⟩ := World.task?_of_record hrec
  have hfiles : t.files = (TaskStruct.new l pid parentPid cnode).files := by
    show t.withoutMm.files = _
    rw [heq]
    rfl
  have hsignal : t.signal = (TaskStruct.new l pid parentPid cnode).signal := by
    show t.withoutMm.signal = _
    rw [heq]
    rfl
  constructor
  · intro fs hfs fd _ hget
    rw [World.filesOf, ht, Option.map_some, hfiles] at hfs
    cases hfs
    exact absurd rfl hget
  · rw [World.pendingOf, ht, Option.map_some, hsignal]
    rfl

/-- The process that forks has the descriptors that were read. -/
theorem World.Forking.files {w : World} {pid child : Nat} {parent : TaskStruct}
    (h : w.Forking pid child parent) : w.filesOf pid = some parent.files := by
  obtain ⟨t, ht, heq⟩ := World.task?_of_record h.1
  have hfiles : t.files = parent.files := by
    show t.withoutMm.files = _
    rw [heq]
    rfl
  rw [World.filesOf, ht, Option.map_some, hfiles]

/-- What sees no memory leaves a fork as it is. -/
theorem Frames.forking {α : Type} {c : M α} {pid child : Nat}
    (h : ∀ q, Frames (World.recordOf q) c) (hnext : Frames World.nextPid c)
    (parent : TaskStruct) : Frames (World.Forking pid child parent) c := by
  intro w
  unfold World.Forking World.Registered
  rw [h pid w, h child w, hnext w]

/-- The end of a process that has closed its descriptors keeps the invariant. -/
class EraseKeeps (I : World → Prop) : Prop where
  erase : ∀ w pid, I w → w.Closed pid → I { w with tasks := w.tasks.erase pid }
  panicked : ∀ w b, I w → I { w with panicked := b }

/-- The changes of the process table keep the invariant: the end of a process, a new process, and
a new child that takes over the record of its parent. -/
class ProcessKeeps (I : World → Prop) : Prop extends EraseKeeps I where
  register : ∀ w parentPid cnode, I w → I (w.registered parentPid cnode)
  inherit : ∀ w child parent pid, I w → w.Forking pid child parent →
    I (w.inherited child parent pid)

instance ProcessKeeps.of_blind {I : World → Prop} [hp : BlindProcesses I] : ProcessKeeps I where
  erase w _ h _ := (hp.tasks w _).mpr h
  register w _ _ h := (hp.tasks { w with nextPid := w.nextPid + 1 } _).mpr ((hp.nextPid w _).mpr h)
  inherit w child parent pid h _ := by
    let w₁ := w.modifyTask child (·.inherit parent)
    let w₂ : World := { w₁ with cloexecLog := .inherited child pid :: w.cloexecLog }
    exact (hp.fileMapLog w₂ _).mpr ((hp.cloexecLog w₁ _).mpr ((hp.tasks w _).mpr h))
  panicked w b h := (hp.panicked w b).mpr h

instance (pid : Nat) : BlindMemory (World.filesOf pid) where
  ledger _ _ := rfl
  vspace w p _ := w.filesOf_modifyTask p pid fun _ => rfl
  tables w p _ := w.filesOf_modifyTask p pid fun _ => rfl
  scratch _ _ _ := rfl
  writeFrame _ _ _ := rfl
  frames _ _ _ := rfl
  refs _ _ := rfl
  doubleFree _ _ := rfl
  mm w p _ := w.filesOf_modifyTask p pid fun _ => rfl
  fileMapLog _ _ := rfl

/-- What leaves the descriptors alone leaves the open ones alone. -/
theorem Frames.openIn {α : Type} {c : M α} {pid : Nat} (h : Frames (World.filesOf pid) c)
    (fds : List Nat) : Frames (World.OpenIn pid fds) c := by
  intro w
  unfold World.OpenIn
  rw [h w]

/-- `close` leaves at most the other descriptors open. -/
theorem doClose_openIn (pid fd : Nat) (fds : List Nat) :
    Triple (World.OpenIn pid (fd :: fds)) (doClose pid fd) (fun _ => World.OpenIn pid fds)
      (fun _ => World.OpenIn pid fds) := by
  unfold doClose
  refine Triple.ite (fun hbig => Triple.throw ?_) fun _ => ?_
  · -- a number that is not a `u32` is no descriptor
    intro w h fs hfs f hf hget
    rcases List.mem_cons.mp (h fs hfs f hf hget) with rfl | hmem
    · omega
    · exact hmem
  refine Triple.bind (R := fun t w => w.OpenIn pid (fd :: fds) ∧ w.task? pid = some t) ?_ ?_
  · -- a process that is gone has no descriptors
    intro w h
    have hget := getProcess_task (P := fun w' => w' = w) pid w rfl
    refine ⟨fun t ht => ?_, fun e he fs hfs => ?_⟩
    · obtain ⟨heq, htask⟩ := hget.1 t ht
      rw [heq] at htask ⊢
      exact ⟨h, htask⟩
    · cases htask : w.task? pid with
      | none =>
        have heq := hget.2 e he
        rw [heq, World.filesOf, htask] at hfs
        cases hfs
      | some t => simp [getProcess, run_gets_bind, htask, Cmd.getSome] at he
  -- the descriptor is out of the table before its endpoint is closed
  intro task
  refine Triple.bind (R := fun _ => World.OpenIn pid fds) (Triple.modify ?_) fun _ => ?_
  · intro w h fs hfs f hf hget
    have hfiles : w.filesOf pid = some task.files := by rw [World.filesOf, h.2]; rfl
    have hnew : fs.fds = task.files.fds.erase fd := by
      rw [World.filesOf, World.task?, World.modifyTask, OrdMap.get?_modify, if_pos rfl] at hfs
      have htask : w.tasks.get? pid = some task := h.2
      rw [htask] at hfs
      cases hfs
      rfl
    rw [hnew, OrdMap.get?_erase] at hget
    split at hget
    · exact absurd rfl hget
    · rename_i hne
      exact (List.mem_cons.mp (h.1 _ hfiles f hf hget)).resolve_left hne
  refine Triple.bind (R := fun _ => World.OpenIn pid fds) (Keeps.getSome _ _).triple
    fun handle => ?_
  refine Keeps.triple (Frames.keepsProp (Frames.openIn (Frames.of_keeps fun v => ?_) fds))
  exact afterClose_keeps handle

/-- The release of what a process holds does not fail. -/
theorem releaseProcess_total (pid : Nat) (task : TaskStruct) : Total (releaseProcess pid task) := by
  -- every step of the release either cannot fail or has its failure ignored
  have hrelease : ∀ slot, Total (releaseProcessFrameSlot pid slot) := by
    intro slot
    have hcap : Total (releaseFrameCap slot) := by
      refine Total.bind (Total.gets _) fun count => ?_
      split
      · simp
      · exact Total.ite (by simp) (by simp)
    exact Total.bind hcap fun last =>
      Total.when (Total.bind (Total.modify _) fun _ => Total.modify _)
  have hcnode : Total (releaseCnode pid) := Total.bind (Total.gets _) fun _ =>
    Total.whenSome fun _ => Total.bind (Total.attempt _) fun _ => Total.when (Total.modify _)
  have hwait : Total (dropWait4Reply pid) := Total.bind (Total.gets _) fun _ =>
    Total.whenSome fun _ => Total.bind (Total.modify _) fun _ => Total.modify _
  have hsleep : Total (dropPendingSleepReply pid) := Total.bind (Total.gets _) fun _ =>
    Total.whenSome fun _ => Total.bind (Total.modify _) fun _ =>
      Total.bind (Total.modify _) fun _ => Total.modify _
  refine Total.bind (Total.modify _) fun _ =>
    Total.bind (Total.forEach fun _ => by simp) fun _ => ?_
  refine Total.bind (Total.forEach fun _ => Total.when (Total.ignore _)) fun _ => ?_
  refine Total.bind (Total.forEach fun _ => hrelease _) fun _ => Total.bind hcnode fun _ => ?_
  refine Total.bind (Total.bind (Total.gets _) fun _ => Total.whenSome fun _ => Total.modify _)
    fun _ => Total.bind (Total.ignore _) fun _ => Total.bind hwait fun _ => ?_
  exact Total.bind hsleep fun _ => Total.bind (Total.modify _) fun _ => Total.modify _

section End

variable {I : World → Prop} [Bookkeeping I] [BlindTables I] [BlindFrames I] [BlindSlots I]
  [BlindHosts I] [he : EraseKeeps I] [EndKeeps I] [NotifyKeeps I] [WaitsKeeps I] [SleepsKeeps I]

omit [EndKeeps I] [NotifyKeeps I] in
/-- The end of a process closes its descriptors before the record is removed. -/
theorem releaseProcess_keeps_blind (pid : Nat) [hf : FileCalls I pid] (task : TaskStruct) :
    Triple (fun w => I w ∧ w.OpenIn pid task.files.fds.keys) (releaseProcess pid task)
      (fun _ => I) fun _ => I := by
  let J (fds : List Nat) (w : World) : Prop := I w ∧ w.OpenIn pid fds
  have hstep : ∀ {α : Type} {c : M α} {fds : List Nat}, Keeps I c → Frames (World.filesOf pid) c →
      Triple (J fds) c (fun _ => J fds) fun _ => I := fun {_ _ fds} hI hfiles =>
    (hI.triple.and (Frames.openIn hfiles fds).keepsProp.triple).errors fun _ _ h => h.1
  have hframe : ∀ {α : Type} {c : M α}, (∀ v, Keeps (fun w => w.filesOf pid = v) c) →
      Frames (World.filesOf pid) c := fun h => Frames.of_keeps h
  refine Triple.bind (hstep (modifyState_keeps pid fun _ => .exiting)
    (hframe fun v => modifyState_keeps pid fun _ => .exiting)) fun _ => ?_
  -- the descriptors are closed one by one, so at the end none is left
  refine Triple.bind (R := fun _ => J []) ?_ fun _ => ?_
  · refine Triple.forEach J (fun fd fds => Triple.ignore ?_) _
    exact ((hf.close fd).triple.and (doClose_openIn pid fd fds)).errors fun _ _ h => h
  refine Triple.bind (hstep (unmapAll_frames _ _).keepsProp (unmapAll_frames _ _)) fun _ => ?_
  refine Triple.bind (hstep (releaseAllFrames_frames _ _).keepsProp (releaseAllFrames_frames _ _))
    fun _ => ?_
  refine Triple.bind (hstep (by simp) (hframe fun v => by simp)) fun _ => ?_
  refine Triple.bind (hstep (by simp) (hframe fun v => by simp)) fun _ => ?_
  refine Triple.bind (hstep (Frames.keepsProp (by simp)) (by simp)) fun _ => ?_
  refine Triple.bind (hstep (by simp) (hframe fun v => by simp)) fun _ => ?_
  -- from here on the steps see no descriptor
  refine Triple.bind (hstep (by simp) (hframe fun v => by simp)) fun _ => ?_
  refine Triple.bind (hstep (Frames.keepsProp (by simp)) (by simp)) fun _ => ?_
  exact Triple.modify fun w h => he.erase w pid h.1 h.2

/-- The end of a process, for an invariant that leaves its descriptors to it. -/
theorem terminateProcess_keeps_own (pid : Nat) [FileCalls I pid] (exitCode : Nat) :
    Keeps I (terminateProcess pid exitCode) := by
  refine Triple.keeps (Triple.bind (getProcess_task pid) fun task => ?_)
  refine Triple.bind (R := fun _ => I) ((releaseProcess_keeps_blind pid task).pre ?_) fun _ => ?_
  · intro w h
    refine ⟨h.1, ?_⟩
    intro fs hfs fd _ hget
    have hfiles : w.filesOf pid = some task.files := by rw [World.filesOf, h.2]; rfl
    rw [hfiles] at hfs
    cases hfs
    exact OrdMap.mem_keys.mpr (Option.isSome_iff_ne_none.mpr hget)
  refine Keeps.triple (Keeps.bind (by simp) fun _ => Keeps.bind (by simp) fun _ =>
    Keeps.bind (by simp) fun _ => Keeps.ite ?_ ?_)
  · exact Keeps.bind (fun w hw => he.panicked w true hw) fun _ => Keeps.throw _
  · exact Keeps.bind (Keeps.gets _) fun caller => Keeps.when (Keeps.throw _)

/-- The end of a process, for an invariant that is blind to descriptors. -/
theorem terminateProcess_keeps_blind [FilesKeeps I] (pid exitCode : Nat) :
    Keeps I (terminateProcess pid exitCode) := terminateProcess_keeps_own pid exitCode

end End

/-- A new process, and a new child that takes over the record of its parent, keep the invariant. -/
class ForkKeeps (I : World → Prop) : Prop where
  register : ∀ parentPid hostPid cnode, Keeps I (registerProcess parentPid hostPid cnode)
  inherit : ∀ w child parent pid, I w → w.Forking pid child parent →
    I (w.inherited child parent pid)

instance ForkKeeps.of_process {I : World → Prop} [BlindSlots I] [BlindHosts I] [hp : ProcessKeeps I]
    [hw : WaitsKeeps I] : ForkKeeps I where
  inherit := hp.inherit
  register parentPid hostPid cnode w hI := by
    let w₁ := w.registered parentPid cnode
    let w₂ : World := { w₁ with hostPidMap := w.hostPidMap.insert hostPid w.nextPid }
    let w₃ : World := { w₂ with
      lifecycle := w.lifecycle.insert w.nextPid ⟨parentPid, w.nextPid, .running, none⟩ }
    have h₂ : I w₂ := (BlindHosts.hostPidMap w₁ _).mpr (hp.register w parentPid cnode hI)
    exact (BlindSlots.ledger w₃ _).mpr (hw.lifecycle w₂ _ h₂)

section Fork

variable {I J : World → Prop} (hregister : ∀ parentPid hostPid cnode w, I w →
  J ((registerProcess parentPid hostPid cnode).run w).2)

include hregister

/-- A new process has the record that `register_process` makes. -/
theorem registerProcess_registered (parentPid hostPid cnode : Nat) :
    Triple I (registerProcess parentPid hostPid cnode)
      (fun pid w => J w ∧ w.Registered parentPid pid) (fun _ => J) := by
  intro w hI
  refine ⟨fun pid hpid => ⟨hregister _ _ _ w hI, ?_⟩, fun e he => by cases he⟩
  have hpid' : w.nextPid = pid := by injection hpid
  subst hpid'
  have htask : ((registerProcess parentPid hostPid cnode).run w).2.task? w.nextPid
      = some (seedInitialPagetablePaths w.layout
          (TaskStruct.new w.layout w.nextPid parentPid cnode)) :=
    OrdMap.get?_insert_self _ _ _
  refine ⟨rfl, w.layout, cnode, ?_⟩
  rw [World.recordOf, htask]
  rfl

/-- A fork keeps the invariant when the new process comes with one that implies it and that the rest
of the fork keeps. -/
theorem doFork_keeps_of [BlindCaps I] [Bookkeeping J] [BlindMemory J] [hs : ForkStopKeeps J]
    (hweak : ∀ w, J w → I w) (hinherit : ∀ w child parent pid, J w → w.Forking pid child parent →
      J (w.inherited child parent pid)) (pid : Nat) : Keeps I (doFork pid) := by
  refine Keeps.bind (by simp) fun host => Keeps.bind (by simp) fun cnode => ?_
  refine Keeps.bind (by simp) fun _ => Triple.keeps ?_
  suffices h : Triple I (do
      let childPid ← registerProcess pid host.val cnode
      forkInto pid childPid : M Nat) (fun _ => J) fun _ => J from
    h.imp (fun _ h => h) (fun _ => hweak) fun _ => hweak
  refine Triple.bind (registerProcess_registered hregister _ _ _) fun child => ?_
  refine Triple.bind (((getProcess_task pid).frame (getProcess_frames pid)
    fun new : Prop => new).errors fun _ _ h => h.1) fun parent => ?_
  -- the record of the parent stays as it was read, and the child is new
  let K (w : World) : Prop := J w ∧ w.Forking pid child parent
  have hframe : ∀ {α : Type} {c : M α}, Frames J c → Frames (World.Forking pid child parent) c →
      Triple K c (fun _ => K) fun _ => J := fun hJ hfork =>
    (hJ.keepsProp.triple.and hfork.keepsProp.triple).errors fun _ _ h => h.1
  refine Triple.pre (K := K) ?_ fun w h => ⟨h.1.1, ?_, h.2⟩
  · refine Triple.bind (hframe (forkMaps_frames _ _ _ _) (Frames.forking
      (fun _ => forkMaps_frames _ _ _ _) (forkMaps_frames _ _ _ _) parent)) fun _ => ?_
    refine Triple.bind (hframe (by simp) (by simp)) fun _ => ?_
    refine Triple.bind (R := fun _ => J) (Triple.modify ?_) fun _ => Keeps.triple ?_
    · intro w h
      exact hinherit w child parent pid h.1 h.2
    refine Keeps.bind (Keeps.when (hs.fork _ _)) fun _ => Keeps.bind (by simp) fun _ => ?_
    refine Keeps.bind (by simp) fun _ => Keeps.bind (by simp) fun _ => ?_
    exact Keeps.bind (by simp) fun _ => by simp
  · rw [World.recordOf, h.1.2]
    rfl

end Fork

section Requests

variable {I : World → Prop} [BlindMemory I]

/-- The memory calls keep an invariant that sees no memory, when a fork and an `execve` do. -/
theorem memoryCall_keeps_of [QuietSignals I] (pid : Nat) {sys : Syscall} (hsys : sys.isMemory)
    (hfork : Keeps I (doFork pid)) (hexec : ∀ filename argv envp,
      sys = .execve filename argv envp → Keeps I (doExecveUser pid filename argv envp)) :
    Keeps I (routeSyscall pid sys) := by
  cases sys with
  | clone =>
    refine Keeps.ite (by simp) (Keeps.bind hfork fun childPid => ?_)
    exact Keeps.bind (by simp) fun _ => Keeps.bind (by simp) fun _ => by simp
  | brk => exact keeps_value (doBrk_frames _ _).keepsProp
  | mmap => exact keeps_value (doMmap_frames _ _ _ _ _ _ _).keepsProp
  | munmap => exact keeps_unit (doMunmap_frames _ _ _).keepsProp
  | mprotect => exact keeps_unit (doMprotect_frames _ _ _ _).keepsProp
  | mremap => exact keeps_value (doMremap_frames _ _ _ _ _ _).keepsProp
  | execve => exact keeps_unit (hexec _ _ _ rfl)
  | _ => cases hsys

variable [Bookkeeping I] [hf : FilesKeeps I] [hp : ForkKeeps I] [QuietSignals I]
  [hs : ForkStopKeeps I]

/-- The memory calls keep an invariant that sees no memory. -/
theorem memoryCall_keeps_blind (pid : Nat) {sys : Syscall} (hsys : sys.isMemory) :
    Keeps I (routeSyscall pid sys) :=
  memoryCall_keeps_of pid hsys (doFork_keeps_of hp.register (fun _ h => h) hp.inherit pid)
    fun _ _ _ _ => doExecveUser_keeps_blind _ _ _ _

omit [QuietSignals I] hs in
/-- The start of `init` keeps what is blind to all that it sets up. -/
theorem loadInit_keeps_blind (path : String) : Keeps I (loadInit path) := by
  refine Keeps.bind (by simp) fun host => Keeps.bind (by simp) fun cnode => ?_
  refine Keeps.bind (by simp) fun _ => Triple.keeps ?_
  refine Triple.bind (registerProcess_registered hp.register _ _ _) fun pid => ?_
  refine Triple.bind (R := fun _ w => I w ∧ w.Fresh pid)
    (Triple.gets fun _ h => ⟨h.1, h.2.fresh⟩) fun term => ?_
  refine Triple.bind (R := fun _ => I) ?_ fun _ => Keeps.triple ?_
  · refine Triple.whenSome (fun t _ w h => ?_) fun w _ h => h.1
    exact ⟨fun _ _ => hf.openStdio pid t w h.1 h.2.1, fun _ _ => hf.openStdio pid t w h.1 h.2.1⟩
  · exact Keeps.bind (doExecve_keeps_blind _ _ _ _) fun _ => Keeps.bind (by simp) fun _ => by simp

end Requests

section Dispatch

variable {I : World → Prop} [Bookkeeping I] [BlindMemory I] [BlindCaller I] [FilesKeeps I]
  [ForkKeeps I] [Wait4Keeps I] [SleepsKeeps I] [QuietSignals I] [ContKeeps I]
  [StopsKeeps I] [ForkStopKeeps I] [FillKeeps I] [∀ pid, OwnSignals I pid]
  [∀ pid, OwnActions I pid] [∀ pid, DequeueKeeps I pid]

/-- A request keeps an invariant that sees no memory, when the end of a process, its job call,
its `nanosleep` and the end of its call do. -/
theorem dispatch_keeps_of (hterm : ∀ pid code, Keeps I (terminateProcess pid code))
    (hfinish : ∀ pid sys ret, Keeps I (finishSyscall pid sys ret))
    (hsleep : ∀ pid req rem, Keeps I (doNanosleep pid req rem)) (r : Request) {w : World}
    (hw : I w) (hjob : ∀ pid sys, r = .syscall pid sys → sys.isJob →
      I ((routeSyscall pid sys).run { w with activeCallerPid := some pid }).2) :
    I ((dispatch r).run w).2 := by
  have hw' : I { w with activeCallerPid := r.caller } := (BlindCaller.caller w _).mpr hw
  refine dispatch_at_of_handle ?_
  cases r with
  | syscall pid sys =>
    refine handleSyscall_keeps_at (hfinish pid sys) ?_
    refine routeSyscall_keeps_at hterm pid sys hw'
      (fun hmem => memoryCall_keeps_blind pid hmem _ hw') (hjob pid sys rfl)
      (fun _ _ _ hsys => hsys ▸ doWait4_keeps _ _ _ _ _ hw') fun req rem hsys => ?_
    subst hsys
    exact hsleep pid req rem _ hw'
  | pageFault pid addr cause =>
    rw [handle_pageFault_state]
    exact pageFault_keeps_blind pid (hterm pid) _ _ _ hw'
  | fault pid kind =>
    exact Keeps.bind (hterm _ _) (fun _ => Keeps.pure _) _ hw'
  | sleepDone pid requestId =>
    exact Keeps.bind (SleepsKeeps.complete _ _) (fun _ => Keeps.pure _) _ hw'

end Dispatch

/-- Every request keeps an invariant that sees no table. -/
theorem dispatch_keeps_blind {I : World → Prop} [BlindControl I] [BlindMemory I] [FilesKeeps I]
    [ProcessKeeps I] (r : Request) : Keeps I (dispatch r) := fun _ hI =>
  dispatch_keeps_of terminateProcess_keeps_blind
    (fun pid sys ret => finishSyscall_keeps (terminateProcess_keeps_blind pid) sys ret)
    doNanosleep_keeps r hI fun pid _ _ hsys =>
      jobCall_keeps pid hsys _ ((BlindCaller.caller _ _).mpr hI)

/-- A set of keys and the same set after one key was written. -/
theorem finite_update {α : Type} {f : Nat → Option α} (k : Nat) (o : Option α) :
    {n | (if n = k then o else f n).isSome}.Finite ↔ {n | (f n).isSome}.Finite := by
  constructor <;> intro h <;> refine (h.insert k).subset fun n hn => ?_ <;> by_cases heq : n = k
  · exact .inl heq
  · exact .inr (by simpa [heq] using hn)
  · exact .inl heq
  · exact .inr (by simpa [heq] using hn)

/-- The server has finitely many scratch mappings, and there are finitely many frames. -/
def World.Sparse (w : World) : Prop :=
  {b | (w.scratch b).isSome}.Finite ∧ {s | (w.frames s).isSome}.Finite

instance : BlindControl World.Sparse where
  tick _ _ := rfl
  slots _ _ := rfl
  trace _ _ := rfl
  signal _ _ _ := rfl
  dropped _ _ := rfl
  missedIntr _ _ := rfl
  record _ _ _ _ := rfl
  hostPidMap _ _ := rfl
  stale _ _ := rfl
  stopLog _ _ := rfl
  stopSkewed _ _ := rfl
  childEvents _ _ := rfl
  pendingWaits _ _ := rfl
  lifecycle _ _ := rfl
  missedWake _ _ := rfl
  waited _ _ := rfl
  leftEvents _ _ := rfl
  pendingSleeps _ _ := rfl
  requestId _ _ := rfl
  idSaturated _ _ := rfl
  sleepLog _ _ := rfl
  caller _ _ := rfl

instance : BlindFiles World.Sparse where
  files _ _ _ := rfl
  cloexecLog _ _ := rfl
  positionSplit _ _ := rfl
  endpoints _ _ := rfl
  doubleClose _ _ := rfl
  asyncFree _ _ := rfl
  asyncRegions _ _ := rfl
  asyncVaddr _ _ := rfl
  iouring _ _ := rfl
  fdOverflow _ _ := rfl
  earlyRecycle _ _ := rfl

instance : BlindMemory World.Sparse where
  ledger _ _ := rfl
  vspace _ _ _ := rfl
  tables _ _ _ := rfl
  scratch w base o := propext (and_congr_left' (finite_update (f := w.scratch) base o))
  writeFrame w slot f := by
    have hlive : ∀ s, ((w.writeFrame slot f).frames s).isSome = (w.frames s).isSome := by
      intro s
      simp only [World.writeFrame]
      split <;> simp
    simp only [World.Sparse, hlive]
    rfl
  frames w slot o := propext (and_congr_right' (finite_update (f := w.frames) slot o))
  refs _ _ := rfl
  doubleFree _ _ := rfl
  mm _ _ _ := rfl
  fileMapLog _ _ := rfl

instance : BlindProcesses World.Sparse where
  tasks _ _ := rfl
  cloexecLog _ _ := rfl
  fileMapLog _ _ := rfl
  nextPid _ _ := rfl
  panicked _ _ := rfl

/-- In every reachable state there are finitely many frames. -/
theorem Reachable.sparse {w : World} (h : Reachable w) : w.Sparse := by
  refine Reachable.invariant ?_ ?_ w h
  · intro w w' path hi hr
    have := loadInit_keeps_blind (I := World.Sparse) path w ⟨hi.fewScratch, hi.fewFrames⟩
    rwa [hr] at this
  · intro w r w' _ hw hs
    rw [← hs.2]
    exact dispatch_keeps_blind r w hw

/-- The server has a free scratch address. -/
theorem Reachable.exists_free_scratch {w : World} (h : Reachable w) : ∃ b, w.scratch b = none := by
  by_contra hno
  refine Set.infinite_univ (α := Nat) (h.sparse.1.subset fun b _ => ?_)
  exact Option.isSome_iff_ne_none.mpr fun hb => hno ⟨b, hb⟩

end Ape
