import Ape.Proofs.ProcessTable

/-!
# `Ape.Proofs.Atomic`: what a failed `fork` and a failed `execve` leave behind

Both calls have a point after which an error no longer leaves the state as it was, and
neither undoes what it did before the error.

For `fork` the point is `register_process`. Three calls to a service come before it: the
creation of the host process, the slot of its CNode, and the CNode itself. A failure of one
of these changes nothing (`ForkRefused`). Every later failure leaves the child in the process
table. `failed_fork_undone_iff` states that this is exact.

For `execve` the point is the release of the old image. What comes before it reads the image
file and looks at its header, and an image that is refused there changes nothing
(`ImageRejected`). After it there is always a call left that can fail. So a live process has
a failing run that changes it as soon as one capability slot is free, and with no free slot
the image file cannot be opened (`failed_execve_undone_iff`).
-/

set_option autoImplicit false

namespace Ape

open Ape.Lib Cmd

/-! ### `fork` -/

/-- The state that a failed `fork` of `pid` should leave: the processes, the map of host pids,
the frame counters, the entries and the descriptors of every process, and what is installed
for the parent are those of `w`. -/
structure World.ForkUndone (pid : Nat) (w w' : World) : Prop where
  processes : ∀ q, w'.live q = w.live q
  hosts : w'.hostPidMap = w.hostPidMap
  refs : w'.frameCapRefs = w.frameCapRefs
  maps : ∀ q t t', w.task? q = some t → w'.task? q = some t' →
    t'.mm.state.memoryMaps = t.mm.state.memoryMaps
  files : ∀ q t t', w.task? q = some t → w'.task? q = some t' → t'.files = t.files
  installed : ∀ t t', w.task? pid = some t → w'.task? pid = some t' → t'.mm.vspace = t.mm.vspace

/-- A state that differs only in calls and slots is undone. -/
theorem World.ForkUndone.of_tasks {pid : Nat} {w w' : World} (ht : w'.tasks = w.tasks)
    (hh : w'.hostPidMap = w.hostPidMap) (hr : w'.frameCapRefs = w.frameCapRefs) :
    w.ForkUndone pid w' := by
  have htask : ∀ q, w'.task? q = w.task? q := fun q => by rw [World.task?, World.task?, ht]
  have hsame : ∀ q t t', w.task? q = some t → w'.task? q = some t' → t' = t := by
    intro q t t' h h'
    rw [htask, h] at h'
    exact (Option.some.inj h').symm
  refine ⟨fun q => by rw [World.live, World.live, htask], hh, hr, ?_, ?_, ?_⟩
  · exact fun q t t' h h' => by rw [hsame q t t' h h']
  · exact fun q t t' h h' => by rw [hsame q t t' h h']
  · exact fun t t' h h' => by rw [hsame pid t t' h h']

/-- One of the three calls that come before the registration of the child is refused. -/
def World.ForkRefused (w : World) : Prop :=
  (w.env w.tick).err ≠ none ∨ (w.env (w.tick + 1)).err ≠ none ∨
    ¬ w.SlotFree (w.env (w.tick + 1)).val ∨ (w.env (w.tick + 2)).err ≠ none

/-- The child stays in the table once it is registered. -/
theorem forkInto_live (pid childPid q : Nat) : Frames (World.live q) (forkInto pid childPid) := by
  refine Frames.bind (by simp) fun parent => Frames.bind (by simp) fun _ => ?_
  refine Frames.bind (by simp) fun _ => Frames.bind (fun w => w.live_modifyTask _ _ _) fun _ => ?_
  refine Frames.bind (Frames.when (Frames.bind (fun _ => rfl) fun _ => fun _ => rfl)) fun _ => ?_
  refine Frames.bind (by simp) fun _ => Frames.bind (by simp) fun _ => ?_
  refine Frames.bind (by simp) fun _ => Frames.bind (by simp) fun _ => ?_
  exact Frames.bind (Frames.bind (by simp) fun _ => by simp) fun _ => by simp

/-- A refused call ends `do_fork` before it changes anything. -/
theorem doFork_refused {w : World} (h : w.ForkRefused) (pid : Nat) :
    w.ForkUndone pid ((doFork pid).run w).2 := by
  -- the three calls, one after the other
  cases h1 : (w.env w.tick).err with
  | some e =>
    rw [doFork, run_bind_error (run_ext_error h1)]
    exact .of_tasks rfl rfl rfl
  | none =>
    rw [doFork, run_bind_ok (run_ext_ok h1)]
    by_cases h2 : (w.env (w.tick + 1)).err ≠ none ∨ ¬ w.SlotFree (w.env (w.tick + 1)).val
    · obtain ⟨e, he⟩ := run_cspaceAlloc_error (w := { w with tick := w.tick + 1 }) h2
      rw [run_bind_error he]
      exact .of_tasks rfl rfl rfl
    · obtain ⟨hok, hfree⟩ := not_or.mp h2
      rw [run_bind_ok (run_cspaceAlloc_ok (w := { w with tick := w.tick + 1 }) (not_not.mp hok)
        (not_not.mp hfree))]
      have h3 : (w.env (w.tick + 2)).err ≠ none := by
        rcases h with h | h | h | h
        · exact absurd h1 h
        · exact absurd h hok
        · exact absurd h hfree
        · exact h
      obtain ⟨e, he⟩ := Option.ne_none_iff_exists'.mp h3
      rw [run_bind_error (run_ext_error he)]
      exact .of_tasks rfl rfl rfl

/-- When none of the three calls is refused, the child is in the table at the end. -/
theorem doFork_registers {w : World} (h : ¬ w.ForkRefused) (pid : Nat) :
    ((doFork pid).run w).2.live w.nextPid = true := by
  obtain ⟨h1, h2, hfree, h3⟩ : (w.env w.tick).err = none ∧ (w.env (w.tick + 1)).err = none ∧
      w.SlotFree (w.env (w.tick + 1)).val ∧ (w.env (w.tick + 2)).err = none := by
    simpa [World.ForkRefused, not_or] using h
  rw [doFork, run_bind_ok (run_ext_ok h1),
    run_bind_ok (run_cspaceAlloc_ok (w := { w with tick := w.tick + 1 }) h2 hfree),
    run_bind_ok (run_ext_ok h3)]
  -- the registration succeeds, and the rest leaves the process table alone
  let w₁ : World := { w with
    tick := w.tick + 2 + 1, slots := insert (w.env (w.tick + 1)).val w.slots }
  let reg := registerProcess pid (w.env w.tick).val (w.env (w.tick + 1)).val
  have hreg : reg.run w₁ = (.ok w.nextPid, (reg.run w₁).2) := rfl
  have hlive : (reg.run w₁).2.live w.nextPid = true := by
    show ((w.tasks.insert w.nextPid _).get? w.nextPid).isSome = true
    rw [OrdMap.get?_insert_self]
    rfl
  have hrest := forkInto_live pid w.nextPid w.nextPid (reg.run w₁).2
  rw [hlive] at hrest
  have hbind : ((reg >>= forkInto pid).run w₁).2.live w.nextPid = true := by
    rw [run_bind_ok hreg]
    exact hrest
  exact hbind

/-- A `fork` leaves the state as it was exactly when one of these calls is refused. -/
theorem forkUndone_iff {w : World} (hw : Reachable w) (env : Nat → Ext) (pid : Nat) :
    w.ForkUndone pid ((doFork pid).run (w.withEnv env)).2 ↔ (w.withEnv env).ForkRefused := by
  constructor
  · intro h
    by_contra href
    have hlive := doFork_registers href pid
    have hnot : w.live w.nextPid = true := (h.processes _).symm.trans hlive
    rw [hw.next_not_live] at hnot
    cases hnot
  · intro h
    have hundone := doFork_refused h pid
    exact ⟨hundone.processes, hundone.hosts, hundone.refs, hundone.maps, hundone.files,
      hundone.installed⟩

/-- A `fork` that fails leaves the state as it was exactly when it fails at one of the three
calls that come before the registration of the child. -/
theorem failed_fork_undone_iff {w : World} (hw : Reachable w) (env : Nat → Ext) (pid : Nat) :
    ∀ e, ((doFork pid).run (w.withEnv env)).1 = .error e →
      (w.ForkUndone pid ((doFork pid).run (w.withEnv env)).2 ↔ (w.withEnv env).ForkRefused) :=
  fun _ _ => forkUndone_iff hw env pid

/-- Services that answer the first `n` calls as in the small run and refuse the rest. -/
def failAfter (n : Nat) (tick : Nat) : Ext :=
  if tick < n then sampleEnv tick else ⟨some .outOfMemory, 0, fun _ => 0⟩

/-- A `fork` of `init` whose first call is refused changes nothing. -/
theorem failed_fork_undone_at_once :
    sampleBoot.ForkUndone 1 ((doFork 1).run (sampleBoot.withEnv (failAfter 0))).2 :=
  (failed_fork_undone_iff sampleBoot_reachable (failAfter 0) 1 .outOfMemory
    (by decide +kernel)).mpr (.inl (by simp [failAfter, World.withEnv]))

/-- A `fork` of `init` whose fourth call is refused returns the error, and leaves the child
in the process table. -/
theorem failed_fork_leaves_child :
    ((doFork 1).run (sampleBoot.withEnv (failAfter (sampleBoot.tick + 3)))).1
      = .error .outOfMemory ∧
    ¬ sampleBoot.ForkUndone 1
      ((doFork 1).run (sampleBoot.withEnv (failAfter (sampleBoot.tick + 3)))).2 := by
  refine ⟨by decide +kernel, ?_⟩
  intro h
  have hlive := h.processes 2
  exact absurd hlive (by decide +kernel)

/-! ### `execve` -/

/-- The state that a failed `execve` of `pid` should leave: the two tables of entries, what is
installed, the bounds of heap and stack, and the descriptors are those of `w`. -/
def World.ExecUndone (pid : Nat) (w w' : World) : Prop :=
  ∀ t, w.task? pid = some t → ∃ t', w'.task? pid = some t' ∧
    t'.mm.state.memoryMaps = t.mm.state.memoryMaps ∧
    t'.mm.state.lazyMemoryMaps = t.mm.state.lazyMemoryMaps ∧
    t'.mm.vspace = t.mm.vspace ∧
    (t'.mm.state.heapStart = t.mm.state.heapStart ∧ t'.mm.state.heapBrk = t.mm.state.heapBrk ∧
      t'.mm.state.heapLimit = t.mm.state.heapLimit) ∧
    (t'.mm.state.stackBottom = t.mm.state.stackBottom ∧
      t'.mm.state.stackSize = t.mm.state.stackSize ∧
      t'.mm.state.maxStackSize = t.mm.state.maxStackSize) ∧
    t'.files = t.files

/-- A process whose record is as before is undone. -/
theorem World.ExecUndone.of_task {pid : Nat} {w w' : World} (h : w'.task? pid = w.task? pid) :
    w.ExecUndone pid w' :=
  fun t ht => ⟨t, h.trans ht, rfl, rfl, rfl, ⟨rfl, rfl, rfl⟩, ⟨rfl, rfl, rfl⟩, rfl⟩

/-- The image file cannot be read, or `execve` does not take it. -/
def World.ImageRejected (w : World) : Prop :=
  ∀ d w', readExecImageFromFs.run w = (.ok d, w') →
    d.valid = false ∨ (d.fileType ≠ ET_EXEC ∧ d.fileType ≠ ET_DYN)

instance (pid : Nat) : BlindSlots (World.task? · pid) where
  tick _ _ := rfl
  slots _ _ := rfl
  ledger _ _ := rfl

/-- A rejected image ends `execve` before it changes anything. -/
theorem doExecve_rejected {w : World} (h : w.ImageRejected) (pid : Nat) (path : String)
    (argv envp : List String) : w.ExecUndone pid ((doExecve pid path argv envp).run w).2 := by
  have hread : Frames (World.task? · pid) readExecImageFromFs := readExecImageFromFs_frames
  rcases hrun : readExecImageFromFs.run w with ⟨e | d, w'⟩
  · rw [doExecve, run_bind_error hrun]
    exact .of_task (by simpa [hrun] using hread w)
  · rw [doExecve, run_bind_ok hrun]
    refine .of_task (Eq.trans ?_ (by simpa [hrun] using hread w) : _ = w.task? pid)
    -- the header checks come next, and one of them fails
    rcases h d w' hrun with hvalid | htype
    · rw [hvalid]
      rfl
    · by_cases hvalid : d.valid
      · rw [hvalid, if_neg (by decide), if_pos htype]
        rfl
      · rw [Bool.eq_false_iff.mpr hvalid]
        rfl

/-- Without a free capability slot no image can be read. -/
theorem imageRejected_of_full {w : World} (h : ∀ slot, ¬ w.SlotFree slot) : w.ImageRejected := by
  intro d w' hrun
  exfalso
  cases herr : (w.env w.tick).err with
  | some e =>
    rw [readExecImageFromFs, run_bind_error (run_ext_error herr)] at hrun
    cases hrun
  | none =>
    rw [readExecImageFromFs, run_bind_ok (run_ext_ok herr)] at hrun
    by_cases hsize : (w.env w.tick).val % usizeMod = 0
    · rw [if_pos hsize] at hrun
      cases hrun
    · rw [if_neg hsize] at hrun
      obtain ⟨e, he⟩ := run_cspaceAlloc_error (w := { w with tick := w.tick + 1 })
        (.inr (h ((w.env (w.tick + 1)).val)))
      rw [run_bind_error he] at hrun
      cases hrun

/-! #### A failing run -/

/-- The process is there, and the calls from number `n` on go to `env`. -/
def Waiting (pid n : Nat) (env : Nat → Ext) (l : Layout) (w : World) : Prop :=
  w.live pid = true ∧ n ≤ w.tick ∧ w.env = env ∧ w.layout = l

section Waiting

variable {pid n : Nat} {env : Nat → Ext} {l : Layout}

/-- A change of the state that keeps the processes, the calls and the layout. -/
theorem waiting_modify {f : World → World} (hlive : ∀ w, (f w).live pid = w.live pid)
    (htick : ∀ w, (f w).tick = w.tick) (henv : ∀ w, (f w).env = w.env)
    (hlayout : ∀ w, (f w).layout = w.layout) :
    Keeps (Waiting pid n env l) (Cmd.modify f : M Unit) := by
  rintro w ⟨h1, h2, h3, h4⟩
  exact ⟨(hlive w).trans h1, (htick w).symm ▸ h2, (henv w).trans h3, (hlayout w).trans h4⟩

/-- A call takes the next answer. -/
theorem ext_waiting : Keeps (Waiting pid n env l) ext := by
  rintro w ⟨h1, h2, h3, h4⟩
  have hnext : Waiting pid n env l { w with tick := w.tick + 1 } :=
    ⟨h1, Nat.le_succ_of_le h2, h3, h4⟩
  unfold ext
  dsimp only
  split <;> exact hnext

/-- Each entry that is unmapped takes an answer. -/
theorem unmapAll_waiting (mm : MmState) : Keeps (Waiting pid n env l) (unmapAll pid mm) := by
  refine Keeps.forEach fun m => Keeps.when (Keeps.ignore (Keeps.bind (by simp) fun _ => ?_))
  refine Keeps.bind ext_waiting fun _ => waiting_modify (fun w => ?_) (fun _ => rfl) (fun _ => rfl)
    fun _ => rfl
  exact w.live_modifyTask _ _ _

/-- Each frame that is given back takes an answer. -/
theorem releaseAllFrames_waiting (mm : MmState) :
    Keeps (Waiting pid n env l) (releaseAllFrames pid mm) := by
  have hmod : ∀ {f : World → World}, (∀ w, (f w).live pid = w.live pid) →
      (∀ w, ((f w).tick, (f w).env, (f w).layout) = (w.tick, w.env, w.layout)) →
      Keeps (Waiting pid n env l) (Cmd.modify f : M Unit) := fun h1 h2 =>
    waiting_modify h1 (fun w => congrArg Prod.fst (h2 w))
      (fun w => congrArg (fun x => x.2.1) (h2 w)) fun w => congrArg (fun x => x.2.2) (h2 w)
  have hsame : ∀ slot, Keeps (Waiting pid n env l) (releaseFrameCap slot) := by
    intro slot
    unfold releaseFrameCap
    refine Keeps.bind (Keeps.gets _) fun count => ?_
    split
    · exact Keeps.pure _
    · exact Keeps.ite (Keeps.bind (hmod (fun _ => rfl) fun _ => rfl) fun _ => Keeps.pure _)
        (Keeps.bind (hmod (fun _ => rfl) fun _ => rfl) fun _ => Keeps.pure _)
  refine Keeps.forEach fun slot => Keeps.bind (hsame slot) fun last => Keeps.when ?_
  exact Keeps.bind (hmod (fun _ => rfl) fun _ => rfl) fun _ => hmod (fun _ => rfl) fun _ => rfl

/-- The process that waits is found. -/
theorem getProcess_waiting {E : Err → World → Prop} :
    Triple (Waiting pid n env l) (getProcess pid) (fun _ => Waiting pid n env l) E := by
  refine Triple.bind (R := fun o w => Waiting pid n env l w ∧ o.isSome)
    (Triple.gets fun w h => ⟨h, h.1⟩) fun o => ?_
  exact Triple.getSome (fun t w _ h => h.1) fun w ho h => by simp [ho] at h

/-- The release of the old image does not fail. -/
theorem replaceImage_waiting {E : Err → World → Prop} :
    Triple (Waiting pid n env l) (replaceImage pid) (fun _ => Waiting pid n env l) E := by
  -- no step of the teardown can fail, and none of them moves the clock
  have htotal : ∀ {c : M Unit}, Total c → Keeps (Waiting pid n env l) c →
      Triple (Waiting pid n env l) c (fun _ => Waiting pid n env l) E :=
    fun ht hk => ht.triple hk.triple
  have hunmap : ∀ mm, Triple (Waiting pid n env l) (unmapAll pid mm)
      (fun _ => Waiting pid n env l) E := fun mm =>
    htotal (Total.forEach fun m => by simp) (unmapAll_waiting mm)
  have hcap : ∀ slot, Total (releaseFrameCap slot) := by
    intro slot
    unfold releaseFrameCap
    refine Total.bind (by simp) fun count => ?_
    split
    · simp
    · exact Total.ite (Total.bind (by simp) fun _ => by simp)
        (Total.bind (by simp) fun _ => by simp)
  have hrelease : ∀ mm, Triple (Waiting pid n env l) (releaseAllFrames pid mm)
      (fun _ => Waiting pid n env l) E := fun mm =>
    htotal (Total.forEach fun slot => Total.bind (hcap slot) fun last =>
      Total.when (Total.bind (Total.modify _) fun _ => Total.modify _))
        (releaseAllFrames_waiting mm)
  refine Triple.bind getProcess_waiting fun task => Triple.bind (hunmap _) fun _ =>
    Triple.bind (hrelease _) fun _ => Triple.bind getProcess_waiting fun _ => ?_
  refine htotal (Total.modify _) (waiting_modify (fun w => ?_) (fun _ => rfl) (fun _ => rfl)
    fun _ => rfl)
  exact w.live_modifyTask _ _ _

/-- The start of the initial stack fails when every call is refused. -/
theorem setupInitialStack_refused {P : World → Prop}
    (hP : ∀ w n b, P w → P { w with tick := n, refused := b })
    (hrefused : ∀ k, n ≤ k → (env k).err = some .outOfMemory) (arg0 : String)
    (argv envp : List String) (auxv : List (Nat × Nat)) :
    Triple (fun w => Waiting pid n env l w ∧ P w) (setupInitialStack pid arg0 argv envp auxv)
      (fun _ _ => False) (fun e w => e = .outOfMemory ∧ P w) := by
  refine Triple.bind (R := fun _ w => Waiting pid n env l w ∧ P w) (Triple.gets fun _ h => h)
    fun l' => Triple.bind (R := fun _ _ => False) ?_ fun _ => fun _ h => h.elim
  rintro w ⟨⟨h1, h2, h3, h4⟩, hw⟩
  have herr : (w.env w.tick).err = some .outOfMemory := by rw [h3]; exact hrefused _ h2
  have halloc : (allocPageFrameNoCleanup 1).run w
      = (.error .outOfMemory, { w with tick := w.tick + 1, refused := true }) :=
    run_bind_error (run_bind_error (run_ext_error herr))
  rw [halloc]
  refine ⟨fun a ha => (by cases ha), fun e he => ?_⟩
  cases he
  exact ⟨rfl, hP w _ _ hw⟩

end Waiting

/-- The process has the heap that `execve` gives to an image that ends at `loadEnd`. -/
def World.HeapAt (pid : Nat) (start : Nat) (w : World) : Prop :=
  ∃ t, w.task? pid = some t ∧ t.mm.state.heapStart = start

/-- `execve` of an image without pages and without an interpreter, when the image is read and
every later call is refused: the old image is gone, the regions are set, and the call fails. -/
theorem doExecve_refused {pid n : Nat} {env : Nat → Ext} {l : Layout} {d : ElfImage}
    {w w' : World} (hread : readExecImageFromFs.run w = (.ok d, w')) (hw' : Waiting pid n env l w')
    (hrefused : ∀ k, n ≤ k → (env k).err = some .outOfMemory) (hvalid : d.valid = true)
    (htype : d.fileType = ET_EXEC) (hload : loadElfIntoProcess pid d 0 = pure (d.info 0))
    (hinterp : d.interpreterPath = none) (path : String) (argv envp : List String) :
    ((doExecve pid path argv envp).run w).1 = .error .outOfMemory ∧
    ((doExecve pid path argv envp).run w).2.HeapAt pid
      (alignUp (max (d.info 0).loadEnd l.heapVa)) := by
  let X := alignUp (max (d.info 0).loadEnd l.heapVa)
  -- the checks on the header pass, so the run reaches the point of no return
  have hskip : ¬ (!d.valid) = true := by rw [hvalid]; decide
  have hexec : ¬ (d.fileType ≠ ET_EXEC ∧ d.fileType ≠ ET_DYN) := fun h => h.1 htype
  rw [doExecve, run_bind_ok hread, if_neg hskip, if_neg hexec, hload, hinterp]
  have htriple : Triple (Waiting pid n env l) (do
      replaceImage pid
      let main ← (pure (d.info 0) : M LoadedElfInfo)
      let interp ← loadInterpreter pid main none
      let _ ← getProcess pid
      let l ← gets (·.layout)
      modifyMm pid (·.resetRegions l main.loadEnd)
      let _ ← setupInitialStack pid path argv envp
        [(AT_PHDR, main.phdrVaddr), (AT_PHENT, d.phEntrySize), (AT_PHNUM, d.phNum),
          (AT_PAGESZ, PGSIZE), (AT_BASE, (interp.map (·.1)).getD 0), (AT_ENTRY, main.entry)]
      let _ ← setupInitialTls pid
      let _ ← getProcess pid
      let _ ← ext
      let _ ← ext
      closeCloexecFds pid) (fun _ _ => False) (fun e w => e = .outOfMemory ∧ w.HeapAt pid X) := by
    refine Triple.bind replaceImage_waiting fun _ => ?_
    refine Triple.bind (R := fun main w => main = d.info 0 ∧ Waiting pid n env l w)
      (Triple.pure fun w h => ⟨rfl, h⟩) fun main => ?_
    refine Triple.bind (R := fun _ w => main = d.info 0 ∧ Waiting pid n env l w)
      (Triple.pure fun w h => h) fun interp => ?_
    refine Triple.of_pre fun w₀ h₀ => Triple.pre ?_ fun w hw => hw ▸ h₀.2
    obtain ⟨rfl, -⟩ := h₀
    refine Triple.bind getProcess_waiting fun _ => ?_
    refine Triple.bind (R := fun l' w => l' = l ∧ Waiting pid n env l w)
      (Triple.gets fun w h => ⟨h.2.2.2, h⟩) fun l' => ?_
    -- the heap of the new image is set, and the next request is refused
    refine Triple.bind (R := fun _ w => Waiting pid n env l w ∧ w.HeapAt pid X) ?_ fun _ => ?_
    · refine Triple.modify fun w h => ?_
      obtain ⟨rfl, hlive, htick, henv, hlayout⟩ := h
      refine ⟨⟨(w.live_modifyTask _ _ _).trans hlive, htick, henv, hlayout⟩, ?_⟩
      -- the record after the update is the old one with the new tables
      obtain ⟨t, ht⟩ := Option.isSome_iff_exists.mp hlive
      have htask : w.tasks.get? pid = some t := ht
      let mm' := t.mm.state.resetRegions l' (d.info 0).loadEnd
      refine ⟨{ t with mm := { t.mm with state := mm' } }, ?_, rfl⟩
      rw [World.task?, World.modifyMm, World.modifyTask, OrdMap.get?_modify, if_pos rfl, htask]
      rfl
    -- the stack asks for a frame first, so nothing of it succeeds
    · refine Triple.bind (R := fun _ _ => False)
        (setupInitialStack_refused (fun _ _ _ h => h) hrefused path argv envp _) fun _ => ?_
      exact fun _ h => h.elim
  exact htriple.fails hw'

/-- Services that answer the five calls from `start` on with the image `img` of `size` bytes,
opened in `slot`, and refuse every other call. -/
def imageEnv (img : Nat → UInt8) (size slot start n : Nat) : Ext :=
  if n < start ∨ start + 5 ≤ n then ⟨some .outOfMemory, 0, fun _ => 0⟩
  else ⟨none, if n = start + 1 then slot else size, img⟩

/-- The first five answers are those that the image needs. -/
theorem imageEnv_ok {img : Nat → UInt8} {size slot start i : Nat} (hi : i < 5) :
    imageEnv img size slot start (start + i) = ⟨none, if i = 1 then slot else size, img⟩ := by
  have hin : ¬ (start + i < start ∨ start + 5 ≤ start + i) := by omega
  rw [imageEnv, if_neg hin]
  by_cases h : i = 1
  · subst h
    rw [if_pos rfl, if_pos rfl]
  · rw [if_neg h, if_neg (by omega)]

/-- From then on every call is refused. -/
theorem imageEnv_refused {img : Nat → UInt8} {size slot start : Nat} (k : Nat)
    (hk : start + 5 ≤ k) : (imageEnv img size slot start k).err = some .outOfMemory := by
  rw [imageEnv, if_pos (.inr hk)]

/-- The image is read in one piece, and its slot is given back. -/
theorem readExecImageFromFs_run {w : World} {img : Nat → UInt8} {size slot : Nat}
    (hpos : 0 < size) (hlt : size < usizeMod) (hfree : w.SlotFree slot) :
    readExecImageFromFs.run (w.withEnv (imageEnv img size slot w.tick))
      = (.ok ⟨size, img⟩, { w.withEnv (imageEnv img size slot w.tick) with
          tick := w.tick + 5, slots := (insert slot w.slots).erase slot }) := by
  let env := imageEnv img size slot w.tick
  -- the state after `i` calls, with the slots `s`
  let at_ (i : Nat) (s : Finset Nat) : World :=
    { w.withEnv env with tick := w.tick + i, slots := s }
  have hext : ∀ i s, i < 5 →
      ext.run (at_ i s) = (.ok ⟨none, if i = 1 then slot else size, img⟩, at_ (i + 1) s) := by
    intro i s hi
    have henv : env (w.tick + i) = ⟨none, if i = 1 then slot else size, img⟩ := imageEnv_ok hi
    have hrun := run_ext_ok (w := at_ i s) (congrArg Ext.err henv)
    rw [hrun]
    exact congrArg (fun a => (Except.ok a, at_ (i + 1) s)) henv
  have halloc : cspaceAlloc.run (at_ 1 w.slots) = (.ok slot, at_ 2 (insert slot w.slots)) := by
    have hfree' : World.SlotFree (at_ 2 w.slots) slot := hfree
    rw [cspaceAlloc, run_bind_ok (hext 1 w.slots (by decide)), run_gets_bind, if_pos rfl,
      decide_eq_true hfree']
    rfl
  have hcheck : ∀ i s, i < 5 → (onError (do let _ ← ext) fun _ =>
    cspaceFree slot : M Unit).run (at_ i s)
      = (.ok (), at_ (i + 1) s) := fun i s hi =>
    run_onError_ok (run_bind_ok (hext i s hi))
  have hloop : ∀ s, (readImageLoop size size 0 fun _ => 0).run (at_ 3 s) = (.ok img, at_ 4 s) := by
    intro s
    obtain ⟨k, rfl⟩ := Nat.exists_eq_succ_of_ne_zero hpos.ne'
    have hread : ∀ fuel bytes, readImageLoop (k + 1) fuel (k + 1) bytes = pure bytes := by
      intro fuel bytes
      cases fuel with
      | zero => rfl
      | succ fuel => exact if_neg (lt_irrefl _)
    rw [readImageLoop, if_pos (Nat.succ_pos k), run_bind_ok (hext 3 s (by decide))]
    have hmin : min (k + 1) (k + 1 - 0) = k + 1 := by omega
    rw [if_neg (by decide : ¬ (3 = 1)), hmin, if_neg (Nat.succ_ne_zero k), Nat.zero_add, hread]
    simp
  have hsize : size % usizeMod = size := Nat.mod_eq_of_lt hlt
  show readExecImageFromFs.run (at_ 0 w.slots) = _
  rw [readExecImageFromFs, run_bind_ok (hext 0 w.slots (by decide)), if_neg (by decide : ¬ (0 = 1)),
    hsize, if_neg hpos.ne', run_bind_ok halloc, run_bind_ok (hcheck 2 _ (by decide)),
    run_bind_ok (run_onError_ok (hloop _)), run_bind_ok (hcheck 4 _ (by decide))]
  rfl

/-- The header of an image whose one segment starts at address zero and ends with the word. The
pages of the segment wrap to none. -/
def hugeImage (o : Nat) : UInt8 :=
  if o = 32 then 64 else if o = 54 then 56 else if o = 56 then 1 else if o = 64 then 1
  else if 104 ≤ o ∧ o < 112 then 0xff else sampleImage o

/-- The image without segments loads nothing, and ends at zero. -/
theorem sampleImage_loads (pid : Nat) :
    loadElfIntoProcess pid ⟨120, sampleImage⟩ 0 = pure (ElfImage.info ⟨120, sampleImage⟩ 0) := by
  have hnone : ElfImage.programHeaders ⟨120, sampleImage⟩ = [] := by decide +kernel
  rw [loadElfIntoProcess, if_neg (by decide +kernel), hnone]
  rfl

/-- The image that ends with the word loads nothing either. -/
theorem hugeImage_loads (pid : Nat) :
    loadElfIntoProcess pid ⟨120, hugeImage⟩ 0 = pure (ElfImage.info ⟨120, hugeImage⟩ 0) := by
  have hone : ElfImage.programHeaders ⟨120, hugeImage⟩ = [⟨1, 0, 0, 0, 0, usizeMax⟩] := by
    decide +kernel
  have hpages : segmentPages (wAdd 0 0) usizeMax = [] := by decide +kernel
  have hseg : ∀ ph : Phdr, ph = ⟨1, 0, 0, 0, 0, usizeMax⟩ →
      loadSegment pid ⟨120, hugeImage⟩ 0 ph = pure () := by
    rintro ph rfl
    rw [loadSegment, if_neg (by decide +kernel), hpages]
    rfl
  rw [loadElfIntoProcess, if_neg (by decide +kernel), hone, Cmd.forEach, hseg _ rfl]
  rfl

/-- A live process and a free slot have a run of `execve` that fails and leaves the heap where
the image put it. -/
theorem exists_failing_execve {w : World} {pid slot : Nat} (hlive : w.live pid = true)
    (hfree : w.SlotFree slot) {img : Nat → UInt8} (hvalid : ElfImage.valid ⟨120, img⟩ = true)
    (htype : ElfImage.fileType ⟨120, img⟩ = ET_EXEC)
    (hload : loadElfIntoProcess pid ⟨120, img⟩ 0 = pure (ElfImage.info ⟨120, img⟩ 0))
    (hinterp : ElfImage.interpreterPath ⟨120, img⟩ = none) (path : String)
    (argv envp : List String) :
    ∃ env, ((doExecve pid path argv envp).run (w.withEnv env)).1 = .error .outOfMemory ∧
      ((doExecve pid path argv envp).run (w.withEnv env)).2.HeapAt pid
        (alignUp (max (ElfImage.info ⟨120, img⟩ 0).loadEnd w.layout.heapVa)) :=
  ⟨imageEnv img 120 slot w.tick,
    doExecve_refused (readExecImageFromFs_run (by decide) (by decide) hfree)
      ⟨hlive, le_refl _, rfl, rfl⟩ imageEnv_refused hvalid htype hload hinterp path argv envp⟩

/-- The two images put the heap at different places. -/
theorem heap_of_images (l : Layout) (hheap : 0 < l.heapVa) :
    alignUp (max (ElfImage.info ⟨120, sampleImage⟩ 0).loadEnd l.heapVa)
      ≠ alignUp (max (ElfImage.info ⟨120, hugeImage⟩ 0).loadEnd l.heapVa) := by
  have hsmall : (ElfImage.info ⟨120, sampleImage⟩ 0).loadEnd = 0 := by decide +kernel
  have hhuge : (ElfImage.info ⟨120, hugeImage⟩ 0).loadEnd = usizeMax := by decide +kernel
  have haligned := l.heapVa_aligned
  have hbelow := l.mmapBase_below
  rw [hsmall, hhuge]
  unfold alignUp wAdd usizeMax usizeMod PGSIZE at *
  omega

/-- An image that is rejected leaves the process as it was. Beyond that, `execve` leaves a
live process as it was in every failing run exactly when no capability slot is free. -/
theorem failed_execve_undone_iff (w : World) (pid : Nat) (hlive : w.live pid = true)
    (hheap : 0 < w.layout.heapVa) (path : String) (argv envp : List String) :
    (∀ env, (w.withEnv env).ImageRejected →
      w.ExecUndone pid ((doExecve pid path argv envp).run (w.withEnv env)).2) ∧
    ((∀ env e, ((doExecve pid path argv envp).run (w.withEnv env)).1 = .error e →
      w.ExecUndone pid ((doExecve pid path argv envp).run (w.withEnv env)).2) ↔
        ∀ slot, ¬ w.SlotFree slot) := by
  have hrejected : ∀ env, (w.withEnv env).ImageRejected →
      w.ExecUndone pid ((doExecve pid path argv envp).run (w.withEnv env)).2 :=
    fun env h => doExecve_rejected h pid path argv envp
  refine ⟨hrejected, ?_, fun h env e _ => hrejected env ?_⟩
  · intro h slot hfree
    obtain ⟨t, ht⟩ := Option.isSome_iff_exists.mp hlive
    -- every failing run keeps the start of the heap, and the two images set it differently
    have hkept : ∀ start, (∃ env,
        ((doExecve pid path argv envp).run (w.withEnv env)).1 = .error .outOfMemory ∧
        ((doExecve pid path argv envp).run (w.withEnv env)).2.HeapAt pid start) →
        start = t.mm.state.heapStart := by
      rintro start ⟨env, herr, t', ht', hstart⟩
      obtain ⟨t'', ht'', -, -, -, ⟨hsame, -⟩, -⟩ := h env _ herr t ht
      rw [ht'] at ht''
      cases ht''
      exact hstart.symm.trans hsame
    have hsmall := hkept _ (exists_failing_execve hlive hfree (by decide +kernel)
      (by decide +kernel) (sampleImage_loads pid) (by decide +kernel) path argv envp)
    have hhuge := hkept _ (exists_failing_execve hlive hfree (by decide +kernel)
      (by decide +kernel) (hugeImage_loads pid) (by decide +kernel) path argv envp)
    exact heap_of_images w.layout hheap (hsmall.trans hhuge.symm)
  · exact imageRejected_of_full (w := w.withEnv env) fun slot => h slot

/-- `init` of the small run: its `execve` has a failing run that changes it, since slot 1 is
free. -/
theorem failed_execve_undone_init :
    sampleBoot.live 1 = true ∧ 0 < sampleBoot.layout.heapVa ∧ sampleBoot.SlotFree 1 ∧
    ¬ (∀ env e, ((doExecve 1 "" [] []).run (sampleBoot.withEnv env)).1 = .error e →
      sampleBoot.ExecUndone 1 ((doExecve 1 "" [] []).run (sampleBoot.withEnv env)).2) := by
  have hlive : sampleBoot.live 1 = true := by decide +kernel
  have hheap : 0 < sampleBoot.layout.heapVa := by decide +kernel
  have hfree : sampleBoot.SlotFree 1 := by decide +kernel
  refine ⟨hlive, hheap, hfree, ?_⟩
  intro h
  exact ((failed_execve_undone_iff sampleBoot 1 hlive hheap "" [] []).2.mp h) 1 hfree

/-- `init` calls `execve` on a header without segments, and the first page of the new stack
is refused: the error is returned, and the process has lost its entries. -/
theorem failed_execve_loses_entries :
    ((doExecve 1 "" [] []).run (sampleBoot.withEnv (failAfter (sampleBoot.tick + 7)))).1
      = .error .outOfMemory ∧
    ¬ sampleBoot.ExecUndone 1
      ((doExecve 1 "" [] []).run (sampleBoot.withEnv (failAfter (sampleBoot.tick + 7)))).2 := by
  refine ⟨by decide +kernel, ?_⟩
  intro h
  obtain ⟨t, ht⟩ := Option.isSome_iff_exists.mp
    (by decide +kernel : (sampleBoot.task? 1).isSome = true)
  obtain ⟨t', ht', hmaps, -⟩ := h t ht
  have hbefore : ((sampleBoot.task? 1).map fun t => t.mm.state.memoryMaps.keys.length)
    = some 2 := by
    decide +kernel
  have hafter : ((((doExecve 1 "" [] []).run (sampleBoot.withEnv
      (failAfter (sampleBoot.tick + 7)))).2.task? 1).map
        fun t => t.mm.state.memoryMaps.keys.length) = some 0 := by decide +kernel
  rw [ht] at hbefore
  rw [ht'] at hafter
  have hlen : t'.mm.state.memoryMaps.keys.length
    = t.mm.state.memoryMaps.keys.length := by rw [hmaps]
  simp only [Option.map_some, Option.some.injEq] at hbefore hafter
  omega

end Ape
