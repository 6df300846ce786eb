import Ape.Proofs.FrameOps

/-!
# `Ape.Proofs.FrameRuns`: no frame is freed while it is in use

The end of a process, `execve` and `fork` keep the accounting, and so does every request. The
table of a process that ends is given up before its frames are released one by one. In
between the accounting is that of the other processes, with the frames of the table in hand.
-/

set_option autoImplicit false

namespace Ape

open Ape.Lib Cmd

/-! ### Giving up a table -/

/-- The frames of a table are those of its entries, the null one aside. -/
theorem MmState.mem_frameSlots (mm : MmState) (s : Nat) :
    s ∈ mm.frameSlots ↔ s ≠ 0 ∧ ∃ m ∈ mm.memoryMaps.values, m.frameCap = s := by
  -- the fold over the entries collects the caps other than the null one
  have hfold : ∀ (l : List MemoryMap) (acc : OrdMap Nat Unit),
      s ∈ (l.foldl (fun acc m => if m.frameCap = 0 then acc else acc.insert m.frameCap ()) acc).keys
        ↔ s ∈ acc.keys ∨ s ≠ 0 ∧ ∃ m ∈ l, m.frameCap = s := by
    intro l
    induction l with
    | nil => simp
    | cons m rest ih =>
      intro acc
      rw [List.foldl_cons, ih]
      by_cases h0 : m.frameCap = 0
      · simp only [h0, if_true, List.mem_cons, exists_eq_or_imp]
        constructor
        · rintro (h | ⟨hne, h⟩)
          · exact .inl h
          · exact .inr ⟨hne, .inr h⟩
        · rintro (h | ⟨hne, h | h⟩)
          · exact .inl h
          · exact absurd h.symm hne
          · exact .inr ⟨hne, h⟩
      · have hins : s ∈ (acc.insert m.frameCap ()).keys ↔ m.frameCap = s ∨ s ∈ acc.keys := by
          rw [OrdMap.mem_keys, OrdMap.get?_insert, OrdMap.mem_keys]
          by_cases heq : s = m.frameCap
          · simp [heq]
          · simp [heq, Ne.symm heq]
        simp only [h0, if_false, hins, List.mem_cons, exists_eq_or_imp]
        constructor
        · rintro ((h | h) | ⟨hne, h⟩)
          · exact .inr ⟨h ▸ h0, .inl h⟩
          · exact .inl h
          · exact .inr ⟨hne, .inr h⟩
        · rintro (h | ⟨hne, h | h⟩)
          · exact .inl (.inr h)
          · exact .inl (.inl h)
          · exact .inr ⟨hne, h⟩
  unfold frameSlots
  rw [hfold]
  simp [OrdMap.mem_keys]

/-- The slots that a process releases at its end are those its table uses, each once. -/
theorem MmState.count_frameSlots_le (mm : MmState) (s : Nat) :
    mm.frameSlots.count s ≤ mm.uses s := by
  have hnd : mm.frameSlots.Nodup := OrdMap.keys_nodup _
  by_cases hs : s ∈ mm.frameSlots
  · obtain ⟨-, m, hm, rfl⟩ := (mm.mem_frameSlots s).mp hs
    obtain ⟨k, hk⟩ := OrdMap.mem_values.mp hm
    rw [List.count_eq_one_of_mem hnd hs]
    exact uses_pos hk
  · rw [List.count_eq_zero_of_not_mem hs]
    exact Nat.zero_le _

/-- The table of `pid` is given up: its frames are in hand. -/
theorem FrameInv.detach {w : World} {pid : Nat} {mm : MmState} (h : FrameInv w)
    (hp : w.mms.get? pid = some mm) : Acct (·.erase pid) none mm.frameSlots w := by
  refine Counted.conserve h ?_ ?_ ?_
  · intro s
    have htotal := OrdMap.total_erase (MmState.uses s) w.mms hp
    have hslots := mm.count_frameSlots_le s
    rw [id, htotal, List.count_nil]
    dsimp only
    omega
  · intro q mm' s hq
    rw [OrdMap.get?_erase] at hq
    split at hq
    · cases hq
    · simpa using h.once q mm' s hq
  · intro q mm' hq
    rw [OrdMap.get?_erase] at hq
    split at hq
    · cases hq
    · exact h.shaped q mm' hq

/-- The frames of a table that is given up are released. -/
theorem releaseAllFrames_acct {E : Err → World → Prop} (pid : Nat) (mm : MmState) :
    Triple (fun w => FrameInv w ∧ w.mms.get? pid = some mm) (releaseAllFrames pid mm)
      (fun _ => Acct (·.erase pid) none []) E := by
  have h : Triple (Acct (·.erase pid) none (mm.frameSlots ++ [])) (releaseAllFrames pid mm) _ E :=
    releaseSlots_acct pid mm.frameSlots
  rw [List.append_nil] at h
  exact h.pre fun w hw => FrameInv.detach hw.1 hw.2

/-! ### The end of a process -/

/-- A process whose frames were given back can be removed. -/
theorem eraseTask_acct {pid : Nat} {w : World} (h : Acct (·.erase pid) none [] w) :
    FrameInv { w with tasks := w.tasks.erase pid } := by
  have hmms : ({ w with tasks := w.tasks.erase pid } : World).mms = w.mms.erase pid :=
    OrdMap.mapValues_erase _ _ _
  unfold FrameInv Acct
  rw [hmms]
  exact h

/-- The end of a process gives back the frames of its table. -/
theorem releaseProcess_acct (pid : Nat) (task : TaskStruct) :
    Triple (fun w => FrameInv w ∧ w.mms.get? pid = some task.mm.state) (releaseProcess pid task)
      (fun _ => FrameInv) (fun _ => FrameInv) := by
  let R (mms : OrdMap Nat MmState) : Prop := mms.get? pid = some task.mm.state
  have hrecord : Frames World.memView (modifyTask pid fun t => { t with lifecycle := .exiting }) :=
    fun w => w.memView_modifyTask pid fun _ => rfl
  have hclose : ∀ fd, Frames World.memView (doClose pid fd) := fun fd =>
    Frames.of_keeps fun v => doClose_keeps pid fd
  unfold releaseProcess
  refine Triple.bind (inv_step_at R hrecord) fun _ => ?_
  refine Triple.bind (inv_step_at R (Frames.forEach fun fd =>
    Frames.ignore (hclose fd))) fun _ => ?_
  refine Triple.bind (inv_step_at R (unmapAll_frames _ _)) fun _ => ?_
  refine Triple.bind (releaseAllFrames_acct pid _) fun _ => ?_
  -- the rest does not touch the memory of the other processes, and cannot fail
  have hstep : ∀ {c : M Unit}, Keeps (Acct (·.erase pid) none []) c → Total c →
      Triple (Acct (·.erase pid) none []) c (fun _ => Acct (·.erase pid) none [])
        (fun _ => FrameInv) := fun hk ht => ht.triple hk.triple
  refine Triple.bind (hstep (releaseCnode_keeps pid) ?_) fun _ => ?_
  · exact Total.bind (by simp) fun _ => Total.whenSome fun _ => Total.bind (by simp) fun _ =>
      Total.when (Total.modify _)
  refine Triple.bind (hstep (killHostProcess_keeps pid) ?_) fun _ => ?_
  · exact Total.bind (by simp) fun _ => Total.whenSome fun _ => Total.modify _
  refine Triple.bind (hstep (Frames.keepsProp (by simp)) (by simp)) fun _ => ?_
  refine Triple.bind (hstep (dropWait4Reply_keeps_blind pid) ?_) fun _ => ?_
  · exact Total.bind (by simp) fun _ => Total.whenSome fun _ => Total.bind (by simp) fun _ =>
      Total.modify _
  refine Triple.bind (hstep (dropPendingSleepReply_keeps_blind pid) ?_) fun _ => ?_
  · exact Total.bind (by simp) fun _ => Total.whenSome fun _ => Total.bind (by simp) fun _ =>
      Total.bind (Total.modify _) fun _ => Total.modify _
  refine Triple.bind (hstep (Frames.keepsProp (by simp)) (Total.modify _)) fun _ => ?_
  exact Triple.modify fun w h => eraseTask_acct h

/-- The end of a process keeps the accounting of frames. -/
theorem terminateProcess_keeps (pid exitCode : Nat) :
    Keeps FrameInv (terminateProcess pid exitCode) := by
  refine Triple.keeps (Triple.bind (getProcess_at pid) fun task => ?_)
  refine Triple.bind (releaseProcess_acct pid task) fun _ => Keeps.triple ?_
  refine Keeps.bind (noteStale_keeps _) fun _ => Keeps.bind (emit_terminated_keeps _ _) fun _ =>
    Keeps.bind (notifyParent_keeps _ _ _ _) fun _ => ?_
  refine Keeps.ite (Keeps.bind (fun _ h => h) fun _ => Keeps.throw _) ?_
  exact Keeps.bind (Keeps.gets _) fun caller => Keeps.when (Keeps.throw _)

/-! ### `execve` -/

/-- A table whose frames were given back can be emptied. -/
theorem clearTable_acct {pid : Nat} {w : World} {f : MmState → MmState}
    (hf : ∀ mm, (f mm).memoryMaps = OrdMap.empty) (h : Acct (·.erase pid) none [] w) :
    FrameInv (w.modifyMm pid f) := by
  unfold FrameInv
  rw [Acct.modifyMm_eq]
  cases hp : w.mms.get? pid with
  -- a process that is gone has no table to clear
  | none =>
    rw [OrdMap.modify_of_get?_none _ f hp]
    have herase : w.mms.erase pid = w.mms := OrdMap.erase_of_get?_none _ hp
    have h' : Counted (w.mms.erase pid) none [] w.frameView := h
    rw [herase] at h'
    exact h'
  | some mm =>
    -- the cleared table uses no frame
    have hzero : ∀ s, (f mm).uses s = 0 := by
      intro s
      rw [MmState.uses, hf]
      rfl
    rw [OrdMap.modify_eq_insert _ f hp]
    refine Counted.conserve h ?_ ?_ ?_
    · intro s
      rw [id, OrdMap.total_insert, hzero]
      simp
    · intro q mm' s hq
      rw [id, OrdMap.get?_insert] at hq
      split at hq
      · cases hq
        simp [hzero]
      · rename_i hne
        exact h.once q mm' s (by rw [OrdMap.get?_erase_ne _ hne]; exact hq)
    · intro q mm' hq
      rw [id, OrdMap.get?_insert] at hq
      split at hq
      · cases hq
        intro k m hk
        rw [hf] at hk
        cases hk
      · rename_i hne
        exact h.shaped q mm' (by rw [OrdMap.get?_erase_ne _ hne]; exact hq)

/-- A memory that is emptied for a new image gives its frames back. -/
theorem replaceImage_keeps (pid : Nat) : Keeps FrameInv (replaceImage pid) := by
  refine Triple.keeps (Triple.bind (getProcess_at pid) fun task => ?_)
  let R (mms : OrdMap Nat MmState) : Prop := mms.get? pid = some task.mm.state
  refine Triple.bind (inv_step_at R (unmapAll_frames _ _)) fun _ => ?_
  have hrelease : Triple (fun w => FrameInv w ∧ R w.mms) (releaseAllFrames pid task.mm.state)
      (fun _ w => Acct (·.erase pid) none [] w ∧ R w.mms) (fun _ => FrameInv) := by
    have hframes : Frames World.mms (releaseAllFrames pid task.mm.state) :=
      Frames.forEach fun slot => releaseProcessFrameSlot_frames _ _
    exact (((releaseAllFrames_acct pid _).frame hframes R).pre fun w h => ⟨h, h.2⟩).errors
      fun _ _ h => h.1
  refine Triple.bind hrelease fun _ => ?_
  refine Triple.bind ((getProcess_found pid).pre fun w h => ⟨h.1, ?_⟩) fun _ => ?_
  · have hget : w.mms.get? pid = some task.mm.state := h.2
    rw [hget]
    rfl
  · exact Triple.modify fun w h => clearTable_acct (fun _ => rfl) h

/-- The frame of a page of a segment goes into the table, or back. -/
theorem loadSegmentPage_keeps (pid : Nat) (d : ElfImage) (ph : Phdr) (segStart page : Nat) :
    Keeps FrameInv (loadSegmentPage pid d ph segStart page) := by
  refine keeps_of_acct (some pid) ?_
  refine Triple.bind (acct_error (allocPageFrameNoCleanup_acct 1)) fun slot => ?_
  refine Triple.bind (acct_step (by simp)) fun _ => Triple.bind (acct_step (by simp)) fun _ => ?_
  refine Triple.bind (acct_step (by simp)) fun _ => ?_
  refine Triple.bind (R := fun _ => Acct id (some pid) []) (addPage_acct ?_) fun _ => ?_
  · exact fun mm => ⟨pageEntry page ph.perms .image slot, rfl, rfl, rfl⟩
  · refine Triple.pre (Keeps.triple ?_) fun w h => FrameInv.of_acct h
    exact Frames.keepsProp (Frames.bind (by simp) fun _ => Frames.bind (by simp) fun _ => by simp)

/-- The segments of an image are loaded page by page. -/
theorem loadElfIntoProcess_keeps (pid : Nat) (d : ElfImage) (loadBias : Nat) :
    Keeps FrameInv (loadElfIntoProcess pid d loadBias) := by
  refine Keeps.ite (by simp) (Keeps.bind (Keeps.forEach fun ph => ?_) fun _ => by simp)
  exact Keeps.ite (by simp) (Keeps.forEach fun page => loadSegmentPage_keeps _ _ _ _ _)

/-- The frame of the first stack page goes into the table, or back. -/
theorem setupInitialStack_keeps (pid : Nat) (arg0 : String) (argv envp : List String)
    (auxv : List (Nat × Nat)) : Keeps FrameInv (setupInitialStack pid arg0 argv envp auxv) := by
  refine keeps_of_acct (some pid) ?_
  refine Triple.bind (acct_step (by simp)) fun l => ?_
  refine Triple.bind (acct_error (allocPageFrameNoCleanup_acct 1)) fun slot => ?_
  refine Triple.bind (acct_step (by simp)) fun _ => Triple.bind (acct_step (by simp)) fun _ => ?_
  refine Triple.bind (acct_step (by simp)) fun scratch =>
    Triple.bind (acct_step (by simp)) fun _ => ?_
  refine Triple.bind (acct_step (by simp)) fun e => Triple.bind (acct_step (by simp)) fun _ => ?_
  refine Triple.bind (acct_step (by simp)) fun _ => Triple.bind (acct_step (by simp)) fun _ => ?_
  refine Triple.bind (R := fun _ => FrameInv) ?_ fun _ => Triple.pure fun _ h => h
  refine (addPage_acct ?_).post fun _ _ h => FrameInv.of_acct h
  exact fun mm => ⟨pageEntry (l.stackBase - PGSIZE) Perms.RW .stack slot, rfl, rfl, rfl⟩

/-- The frames of the thread-local storage go into the table, or back. -/
theorem setupInitialTls_keeps (pid : Nat) : Keeps FrameInv (setupInitialTls pid) := by
  refine keeps_of_acct (some pid) ?_
  refine Triple.bind (acct_step (by simp)) fun l => ?_
  refine Triple.bind (acct_error (allocPageFrameNoCleanup_acct _)) fun slot => ?_
  refine Triple.bind (acct_step (by simp)) fun _ => Triple.bind (acct_step (by simp)) fun _ => ?_
  refine Triple.bind (acct_step (by simp)) fun scratch =>
    Triple.bind (acct_step (by simp)) fun _ => ?_
  refine Triple.bind (acct_step (by simp)) fun _ => Triple.bind (acct_step (by simp)) fun _ => ?_
  refine Triple.bind (R := fun _ => Acct id (some pid) []) ?_ fun _ =>
    Triple.pure fun _ h => FrameInv.of_acct h
  refine modifyMm_acct_all (fun s => Nat.zero_le _) fun mm hmm => ⟨?_, ?_⟩
  · intro s
    rw [List.count_nil, Nat.add_zero]
    exact mm.uses_add_le _ s
  · have hpos : 0 < INITIAL_TLS_PAGES * PGSIZE := by decide
    have hle : INITIAL_TLS_PAGES * PGSIZE ≤ L1_HUGE_SIZE := by decide
    exact hmm.add hpos hle (Nat.mul_mod_left _ _)

/-- `execve` keeps the accounting of frames. -/
theorem doExecve_keeps (pid : Nat) (path : String) (argv envp : List String) :
    Keeps FrameInv (doExecve pid path argv envp) := by
  unfold doExecve
  refine Keeps.bind readExecImageFromFs_frames.keepsProp fun d => Keeps.ite (by simp) ?_
  refine Keeps.ite (by simp) (Keeps.bind (replaceImage_keeps _) fun _ => ?_)
  refine Keeps.bind (loadElfIntoProcess_keeps _ _ _) fun main => ?_
  refine Keeps.bind ?_ fun interp => Keeps.bind (by simp) fun _ => Keeps.bind (by simp) fun l => ?_
  · unfold loadInterpreter
    split
    · exact Keeps.pure _
    · exact Keeps.bind readExecImageFromFs_frames.keepsProp fun d' =>
        Keeps.bind (loadElfIntoProcess_keeps _ _ _) fun _ => Keeps.pure _
  refine Keeps.bind (modifyMm_keeps_of_maps fun _ => rfl) fun _ => ?_
  refine Keeps.bind (setupInitialStack_keeps _ _ _ _ _) fun _ => ?_
  refine Keeps.bind (setupInitialTls_keeps _) fun _ => Keeps.bind (by simp) fun _ => ?_
  refine Keeps.bind (by simp) fun _ => Keeps.bind (by simp) fun _ => ?_
  exact Keeps.bind (by simp) fun _ => Keeps.forEach fun fd => doClose_keeps _ _

/-- `execve` of a process keeps the accounting of frames. -/
theorem doExecveUser_keeps (pid filename argv envp : Nat) :
    Keeps FrameInv (doExecveUser pid filename argv envp) :=
  Keeps.bind (parseExecveUserInput_keeps (GrowKeeps.grow _) _ _ _) fun _ => doExecve_keeps _ _ _ _

/-! ### `fork` -/

/-- The new record of a process has no entries. -/
theorem registerProcess_keeps (parentPid hostPid cnode : Nat) :
    Keeps FrameInv (registerProcess parentPid hostPid cnode) := by
  have hseed : ∀ (l : Layout) (t : TaskStruct),
      (seedInitialPagetablePaths l t).mm.state = t.mm.state := fun _ _ => rfl
  refine Keeps.bind (Keeps.gets _) fun pid => Keeps.bind (fun w h => ?_) fun _ =>
    Keeps.bind (Frames.keepsProp (by simp)) fun _ => Keeps.pure _
  let t := seedInitialPagetablePaths w.layout (TaskStruct.new w.layout pid parentPid cnode)
  -- a process that is registered has an empty table
  have hmms : (w.tasks.insert pid t).mapValues (·.mm.state) = w.mms.insert pid t.mm.state :=
    OrdMap.mapValues_insert _ _ _ _
  have hmaps : t.mm.state.memoryMaps = OrdMap.empty := rfl
  have hzero : ∀ s, t.mm.state.uses s = 0 := by
    intro s
    rw [MmState.uses, hmaps]
    rfl
  unfold FrameInv Acct World.mms
  simp only [run_modify]
  change Counted (id ((w.tasks.insert pid t).mapValues (·.mm.state))) none [] w.frameView
  rw [hmms]
  -- an empty table adds no use, and the other tables are as before
  refine Counted.conserve h ?_ ?_ ?_
  · intro s
    rw [id, OrdMap.total_insert, hzero]
    have := OrdMap.total_erase_le (MmState.uses s) w.mms pid
    simpa using this
  · intro q mm s hq
    rw [id, OrdMap.get?_insert] at hq
    split at hq
    · cases hq
      simp [hzero]
    · exact h.once q mm s hq
  · intro q mm hq
    rw [id, OrdMap.get?_insert] at hq
    split at hq
    · cases hq
      intro k m hk
      rw [hmaps] at hk
      cases hk
    · exact h.shaped q mm hq

/-- The frames of the entries to copy are used by the parent. -/
def UsedBy (pid : Nat) (maps : List MemoryMap) (mms : OrdMap Nat MmState) : Prop :=
  ∃ mm, mms.get? pid = some mm ∧ ∀ m ∈ maps, 0 < mm.uses m.frameCap

/-- The mark of copy-on-write uses no frame. -/
theorem MmState.uses_markCow (mm : MmState) (vaddr s : Nat) :
    (mm.markCow vaddr).uses s = mm.uses s :=
  mm.uses_modify vaddr (f := fun e => { e with cow := true }) (fun _ => rfl) s

/-- The mark of copy-on-write leaves the entries that use a frame. -/
theorem UsedBy.markCow {pid vaddr : Nat} {maps : List MemoryMap} {mms : OrdMap Nat MmState}
    (h : UsedBy pid maps mms) : UsedBy pid maps (mms.modify pid (·.markCow vaddr)) := by
  obtain ⟨mm, hp, hall⟩ := h
  refine ⟨mm.markCow vaddr, ?_, fun m hm => by rw [MmState.uses_markCow]; exact hall m hm⟩
  rw [OrdMap.get?_modify, if_pos rfl, hp]
  rfl

/-- The copy-on-write mark of an entry. -/
theorem markCow_acct {pid vaddr : Nat} {held : List Nat} {w : World} (h : Acct id none held w) :
    Acct id none held (w.modifyMm pid (·.markCow vaddr)) := by
  rw [Acct.modifyMm_eq]
  cases hp : w.mms.get? pid with
  | none => rw [OrdMap.modify_of_get?_none _ _ hp]; exact h
  | some mm =>
    rw [OrdMap.modify_eq_insert _ _ hp]
    refine Counted.conserve h ?_ ?_ ?_
    · intro s
      rw [id, OrdMap.total_insert, MmState.uses_markCow, id, OrdMap.total_erase _ w.mms hp]
    · intro q mm' s hq
      rw [id, OrdMap.get?_insert] at hq
      split at hq
      · rename_i heq
        cases hq
        simpa [MmState.uses_markCow] using h.once pid mm s hp
      · exact h.once q mm' s hq
    · intro q mm' hq
      rw [id, OrdMap.get?_insert] at hq
      split at hq
      · cases hq
        exact (h.shaped pid mm hp).modify vaddr fun _ => ⟨rfl, rfl⟩
      · exact h.shaped q mm' hq

/-- The loop of `fork` holds one use of every frame it copied. -/
theorem forkMaps_acct (pid childPid : Nat) (maps : List MemoryMap) (retained held : List Nat)
    (hret : ∀ s ∈ retained, s ∈ held) :
    Triple (fun w => Acct id none held w ∧ UsedBy pid maps w.mms)
      (forkMaps pid childPid maps retained)
      (fun _ w => ∃ held', Acct id none held' w ∧ (∀ s ∈ held, s ∈ held') ∧
        ∀ m ∈ maps, m.frameCap ≠ 0 → m.pages ≠ 0 → m.frameCap ∈ held')
      (fun _ => FrameInv) := by
  induction maps generalizing retained held with
  | nil => exact Triple.pure fun w h => ⟨held, h.1, fun _ hs => hs, fun m hm => by cases hm⟩
  | cons m rest ih =>
    let R := UsedBy pid (m :: rest)
    have htail : ∀ mms, R mms → UsedBy pid rest mms := fun mms ⟨mm, hp, hall⟩ =>
      ⟨mm, hp, fun e he => hall e (List.mem_cons_of_mem _ he)⟩
    unfold forkMaps
    refine Triple.ite ?_ fun _ => ?_
    · intro hskip
      refine (ih retained held hret).imp (fun w h => ⟨h.1, htail _ h.2⟩) (fun _ w h => ?_)
        fun _ _ h => h
      obtain ⟨held', hacct, hsub, hall⟩ := h
      refine ⟨held', hacct, hsub, ?_⟩
      intro e he h0 hpages
      rcases List.mem_cons.mp he with rfl | he
      · exact absurd hskip (not_or.mpr ⟨h0, hpages⟩)
      · exact hall e he h0 hpages
    · refine Triple.bind (acct_step_at R (by simp)) fun _ => ?_
      refine Triple.bind (acct_step_at R (Frames.when (Frames.bind (by simp) fun _ => by simp)))
        fun _ => ?_
      -- the frame is retained unless it was before
      let held₁ := if m.frameCap ∈ retained then held else m.frameCap :: held
      refine Triple.bind (R := fun _ w => Acct id none held₁ w ∧ R w.mms) ?_ fun _ => ?_
      · refine Triple.when ?_ ?_
        · intro hnot
          refine ((retainFrameCap_acct m.frameCap).frame (retainFrameCap_frames _) R).imp
            (fun w h => ⟨⟨h.1, ?_⟩, h.2⟩) ?_ fun _ w h => FrameInv.of_acct h.1
          · obtain ⟨mm, hp, hall⟩ := h.2
            refine h.1.live _ (Nat.add_pos_left ?_ _)
            exact lt_of_lt_of_le (hall m (List.mem_cons_self ..)) (OrdMap.le_total _ _ hp)
          · intro _ w h
            simpa only [held₁, if_neg hnot] using h
        · intro w hin h
          simpa only [held₁, if_pos (not_not.mp hin)] using h
      have hmem : m.frameCap ∈ held₁ := by
        by_cases hin : m.frameCap ∈ retained
        · simpa only [held₁, if_pos hin] using hret _ hin
        · simp [held₁, if_neg hin]
      have hsub : ∀ s ∈ held, s ∈ held₁ := by
        intro s hs
        by_cases hin : m.frameCap ∈ retained
        · simpa only [held₁, if_pos hin] using hs
        · simp [held₁, if_neg hin, hs]
      refine Triple.bind (R := fun _ w => Acct id none held₁ w ∧ R w.mms) ?_ fun _ => ?_
      · refine Triple.when (fun _ => Triple.modify fun w h => ?_) fun w _ h => h
        refine ⟨markCow_acct h.1, ?_⟩
        rw [World.mms_modifyMm]
        exact UsedBy.markCow h.2
      · refine (ih (m.frameCap :: retained) held₁ ?_).imp
          (fun w h => ⟨h.1, htail _ h.2⟩) ?_ fun _ _ h => h
        · intro s hs
          rcases List.mem_cons.mp hs with rfl | hs
          · exact hmem
          · exact hsub s (hret s hs)
        · intro _ w h
          obtain ⟨held', hacct, hsub', hall⟩ := h
          refine ⟨held', hacct, fun s hs => hsub' s (hsub s hs), ?_⟩
          intro e he h0 hpages
          rcases List.mem_cons.mp he with rfl | he
          · exact hsub' _ hmem
          · exact hall e he h0 hpages

/-- The entry of a child is at the address of the entry of its parent. -/
@[simp] theorem forkedEntry_vaddr (m : MemoryMap) : (forkedEntry m).vaddr = m.vaddr := by
  unfold forkedEntry
  split <;> rfl

/-- The entry of a child is as long as the entry of its parent. -/
@[simp] theorem forkedEntry_size (m : MemoryMap) : (forkedEntry m).size = m.size := by
  unfold forkedEntry
  split <;> rfl

/-- The entry of a child has the frame of the entry of its parent. -/
@[simp] theorem forkedEntry_frameCap (m : MemoryMap) : (forkedEntry m).frameCap = m.frameCap := by
  unfold forkedEntry
  split <;> rfl

/-- A child's table is the parent's with the copy-on-write marks. -/
theorem MmState.Shaped.forked_eq {mm : MmState} (h : mm.Shaped) :
    mm.forked.memoryMaps = mm.memoryMaps.mapValues forkedEntry :=
  OrdMap.foldl_insert_values forkedEntry fun k m hk => (h k m hk).1

/-- The entries of a child are those of its parent. -/
theorem MmState.Shaped.get?_forked {mm : MmState} (h : mm.Shaped) (k : Nat) :
    mm.forked.memoryMaps.get? k = (mm.memoryMaps.get? k).map forkedEntry := by
  rw [h.forked_eq, OrdMap.get?_mapValues]

/-- The table of a child uses the frames that the table of its parent uses. -/
theorem MmState.Shaped.uses_forked {mm : MmState} (h : mm.Shaped) (s : Nat) :
    mm.forked.uses s = mm.uses s := by
  rw [uses, h.forked_eq, OrdMap.total_mapValues]
  simp only [forkedEntry_frameCap]
  rfl

/-- The table of a child has the shape of the table of its parent. -/
theorem MmState.Shaped.forked {mm : MmState} (h : mm.Shaped) : mm.forked.Shaped := by
  intro k m hk
  rw [h.get?_forked] at hk
  obtain ⟨e, he, rfl⟩ := Option.map_eq_some_iff.mp hk
  simpa using h k e he

/-- An entry has at least one page. -/
theorem MmState.Shaped.pages_ne_zero {mm : MmState} (h : mm.Shaped) {k : Nat} {m : MemoryMap}
    (hk : mm.memoryMaps.get? k = some m) : m.pages ≠ 0 := by
  obtain ⟨-, hpos, hle, -⟩ := h k m hk
  unfold MemoryMap.pages alignUp wAdd usizeMod
  unfold L1_HUGE_SIZE L1_HUGE_PAGES PGSIZE at hle
  unfold PGSIZE
  omega

/-- A child inherits the table that was made for it. -/
theorem TaskStruct.inherit_state (child parent : TaskStruct) :
    (child.inherit parent).mm.state = parent.mm.state.forked := by
  unfold TaskStruct.inherit
  dsimp only
  split <;> rfl

/-- The child takes over the table of its parent, and the uses in hand. -/
theorem inherit_acct {childPid : Nat} {parent : TaskStruct} {held : List Nat} {w : World}
    (h : Acct id none held w) (hmm : parent.mm.state.Shaped)
    (honce : ∀ s, parent.mm.state.uses s ≤ 1)
    (hheld : ∀ s, 0 < parent.mm.state.uses s → s ∈ held) :
    FrameInv (w.modifyTask childPid (·.inherit parent)) := by
  have hmms : (w.modifyTask childPid (·.inherit parent)).mms
      = w.mms.modify childPid fun _ => parent.mm.state.forked :=
    OrdMap.mapValues_modify (fun t : TaskStruct => t.mm.state) w.tasks childPid fun t =>
      t.inherit_state parent
  -- the loop retained each frame of the parent once, for the child
  have hcount : ∀ s, parent.mm.state.uses s ≤ held.count s := by
    intro s
    by_cases hs : 0 < parent.mm.state.uses s
    · exact (honce s).trans (List.one_le_count_iff.mpr (hheld s hs))
    · omega
  unfold FrameInv Acct
  rw [hmms]
  change Counted _ none [] w.frameView
  cases hp : w.mms.get? childPid with
  | none => rw [OrdMap.modify_of_get?_none _ _ hp]; exact Counted.nil_own h none
  | some mm =>
    rw [OrdMap.modify_eq_insert _ _ hp]
    refine Counted.conserve h ?_ ?_ ?_
    -- the child's table takes over the uses that were in hand
    · intro s
      have hs := hcount s
      rw [id, OrdMap.total_insert, hmm.uses_forked, id, OrdMap.total_erase _ w.mms hp,
        List.count_nil]
      omega
    · intro q mm' s hq
      rw [id, OrdMap.get?_insert] at hq
      split at hq
      · cases hq
        simpa [hmm.uses_forked] using honce s
      · simpa using h.once q mm' s hq
    · intro q mm' hq
      rw [id, OrdMap.get?_insert] at hq
      split at hq
      · cases hq
        exact hmm.forked
      · exact h.shaped q mm' hq

/-- `fork` keeps the accounting of frames, also when it is undone. -/
theorem doFork_keeps (pid : Nat) : Keeps FrameInv (doFork pid) := by
  unfold doFork
  refine Keeps.bind (by simp) fun host => Keeps.bind (by simp) fun cnode => ?_
  refine Keeps.bind (by simp) fun _ => Keeps.bind (registerProcess_keeps _ _ _) fun childPid => ?_
  refine Triple.keeps (Triple.bind (getProcess_at pid) fun parent => ?_)
  refine Triple.of_pre fun w₀ h₀ => ?_
  obtain ⟨hinv, hp⟩ := h₀
  have hmm : parent.mm.state.Shaped := hinv.shaped pid _ hp
  have honce : ∀ s, parent.mm.state.uses s ≤ 1 := by
    intro s
    simpa using hinv.once pid _ s hp
  have hnull : parent.mm.state.uses 0 = 0 := by
    have hdead : w₀.frameView.live 0 = false := hinv.null
    have htotal := (Counted.unused hinv hdead).1
    have := OrdMap.le_total (MmState.uses 0) (id w₀.mms) hp
    omega
  refine Triple.bind (((forkMaps_acct pid childPid _ [] [] fun _ h => h).pre ?_)) fun _ => ?_
  · intro w h
    subst h
    refine ⟨hinv, _, hp, ?_⟩
    intro m hm
    obtain ⟨k, hk⟩ := OrdMap.mem_values.mp hm
    exact MmState.uses_pos hk
  -- the child has a use of every frame that its table will name
  let Q (w : World) : Prop := ∃ held, Acct id none held w ∧
    ∀ s, 0 < parent.mm.state.uses s → s ∈ held
  refine Triple.bind (R := fun _ => Q) ?_ fun _ =>
    Triple.bind (R := fun _ => FrameInv) ?_ fun _ => ?_
  · have hk : Keeps Q (getProcess childPid) := getProcess_keeps childPid
    refine hk.triple.imp (fun w h => ?_) (fun _ _ h => h) fun _ _ h =>
      FrameInv.of_acct h.choose_spec.1
    obtain ⟨held, hacct, -, hall⟩ := h
    refine ⟨held, hacct, ?_⟩
    intro s hs
    obtain ⟨k, m, hk, rfl⟩ := MmState.entry_of_uses hs
    have h0 : m.frameCap ≠ 0 := fun h => by rw [h] at hs; omega
    exact hall m (OrdMap.mem_values.mpr ⟨k, hk⟩) h0 (hmm.pages_ne_zero hk)
  · refine Triple.modify fun w h => ?_
    obtain ⟨held, hacct, hheld⟩ := h
    exact inherit_acct hacct hmm honce hheld
  · refine Keeps.triple (Keeps.bind (by simp) fun _ => Keeps.bind (by simp) fun _ => ?_)
    exact Keeps.bind (by simp) fun _ => Keeps.bind (by simp) fun _ => by simp

/-- `clone` keeps the accounting of frames. -/
theorem doClone_keeps (pid flags ptid ctid : Nat) :
    Keeps FrameInv (doClone pid flags ptid ctid) := by
  refine Keeps.ite (by simp) (Keeps.bind (doFork_keeps _) fun childPid => ?_)
  exact Keeps.bind (by simp) fun _ => Keeps.bind (by simp) fun _ => by simp

/-! ### Page faults -/

/-- An entry that a lookup finds is in the table. -/
theorem get?_of_lookup {mm : MmState} {a : Nat} {m : MemoryMap}
    (h : mm.lookupMemoryMap a = some m) : ∃ k, mm.memoryMaps.get? k = some m ∧ k ≤ a := by
  unfold MmState.lookupMemoryMap entryAt at h
  split at h
  · rename_i k m' hfloor
    split at h
    · cases h
      obtain ⟨hk, hle, -⟩ := OrdMap.floor?_eq_some.mp hfloor
      exact ⟨k, hk, hle⟩
    · cases h
  · cases h

/-- A fault outside of all entries keeps the accounting of frames. -/
theorem faultOutside_keeps (pid : Nat) (cause : FaultCause) (mm : MmState) (addr : Nat) :
    Keeps FrameInv (faultOutside pid cause mm addr) := by
  have hterm : ∀ signum, Keeps FrameInv (terminateBySignal pid signum) :=
    fun _ => terminateProcess_keeps _ _
  unfold faultOutside
  split
  · refine Keeps.ite (hterm _) (Keeps.forEach fun idx => ?_)
    exact Keeps.bind (mapFaultPage_keeps _ _ _ _) fun _ => modifyMm_keeps_of_maps fun _ => rfl
  · exact Keeps.ite (hterm _) (mapFaultPage_keeps _ _ _ _)
  · rename_i m _
    refine Keeps.ite (hterm _) (Keeps.ite ?_ ?_)
    · have hle : requestPages (alignDown addr) m ≤ L1_HUGE_PAGES := by
        unfold requestPages L1_HUGE_PAGES
        split <;> omega
      refine Keeps.bind (Keeps.attempt (mapFileBackedFaultPage_keeps _ _ _ hle)) fun r => ?_
      split
      · exact Keeps.pure _
      · exact hterm _
    · exact Keeps.bind (modifyMm_keeps_of_maps fun _ => rfl) fun _ => mapFaultPage_keeps _ _ _ _
  · exact hterm _

/-- A fault in the entry `m` of the table. -/
theorem faultInEntry_acct (pid : Nat) (cause : FaultCause) (m : MemoryMap) :
    Triple
      (fun w => FrameInv w ∧ ∃ mm : MmState, w.mms.get? pid = some mm ∧
        mm.memoryMaps.get? m.vaddr = some m)
      (faultInEntry pid cause m) (fun _ => FrameInv) (fun _ => FrameInv) := by
  have hterm : Keeps FrameInv (terminateBySignal pid SIGSEGV) := terminateProcess_keeps _ _
  refine Triple.ite (fun _ => Triple.ite (fun _ => ?_) fun _ => resolveCowFault_acct _) fun _ => ?_
  · exact hterm.triple.pre fun _ h => h.1
  · refine Triple.pre (Keeps.triple (Keeps.ite ?_ (remapExistingPage_keeps _ _ _ _ _)))
      fun _ h => h.1
    split
    · exact remapExistingPage_keeps _ _ _ _ _
    · exact hterm

/-- A fault keeps the accounting of frames. -/
theorem pageFault_keeps (pid addr : Nat) (cause : FaultCause) :
    Keeps FrameInv (pageFault pid addr cause) := by
  refine Triple.keeps (Triple.bind (getProcess_at pid) fun task => ?_)
  split
  · rename_i m hm
    obtain ⟨k, hk, -⟩ := get?_of_lookup hm
    refine (faultInEntry_acct pid cause m).pre fun w h => ⟨h.1, _, h.2, ?_⟩
    rw [(h.1.shaped pid _ h.2 k m hk).1]
    exact hk
  · exact (faultOutside_keeps _ _ _ _).triple.pre fun _ h => h.1

/-! ### Runs -/

/-- Every request keeps the accounting of frames. -/
theorem dispatch_keeps (r : Request) : Keeps FrameInv (dispatch r) := by
  have hmap : ∀ {α : Type} {c : M α} {f : α → Int}, Keeps FrameInv c →
      Keeps FrameInv (do return f (← c)) := fun h => Keeps.bind h fun _ => Keeps.pure _
  intro w hw
  have hcaller : ∀ c, FrameInv { w with activeCallerPid := c } :=
    fun c => (BlindCaller.caller w c).mpr hw
  refine dispatch_keeps_at terminateProcess_keeps r hw (fun pid sys _ hsys => ?_)
    fun pid addr cause _ => pageFault_keeps pid addr cause _ (hcaller _)
  cases sys with
  | clone => exact doClone_keeps _ _ _ _ _ (hcaller _)
  | brk => exact hmap (doBrk_keeps _ _) _ (hcaller _)
  | mmap => exact hmap (doMmap_keeps _ _ _ _ _ _ _) _ (hcaller _)
  | munmap => exact hmap (f := fun _ => 0) (doMunmap_keeps _ _ _) _ (hcaller _)
  | mprotect => exact hmap (f := fun _ => 0) (doMprotect_keeps _ _ _ _) _ (hcaller _)
  | mremap => exact hmap (doMremap_keeps _ _ _ _ _ _) _ (hcaller _)
  | execve => exact hmap (f := fun _ => 0) (doExecveUser_keeps _ _ _ _) _ (hcaller _)
  | _ => cases hsys

/-- At the start there is no frame. -/
theorem World.Initial.frameInv {w : World} (h : w.Initial) : FrameInv w := by
  have hmms : w.mms = OrdMap.empty := by rw [World.mms, h.noTasks]; rfl
  unfold FrameInv Acct
  rw [id, hmms]
  have hnone : ∀ s, w.frameView.refs s = none := h.noRefs
  refine ⟨?_, fun s => Nat.zero_le _, fun q mm s hq => by simp at hq, ?_,
    ?_, ?_, h.noDoubleFree, fun q mm hq => by simp at hq⟩
  · intro s hs
    exact absurd hs (by simp [OrdMap.total, OrdMap.values, OrdMap.empty])
  · intro s n hn
    rw [hnone] at hn
    cases hn
  · intro s n hn
    rw [hnone] at hn
    cases hn
  · simp [World.frameView, h.noNullFrame]

/-- The start of `init` keeps the accounting of frames. -/
theorem loadInit_keeps (path : String) : Keeps FrameInv (loadInit path) := by
  refine Keeps.bind (by simp) fun host => Keeps.bind (by simp) fun cnode => ?_
  refine Keeps.bind (by simp) fun _ => Keeps.bind (registerProcess_keeps _ _ _) fun pid => ?_
  refine Keeps.bind (Keeps.gets _) fun term => Keeps.bind ?_ fun _ => ?_
  · exact Keeps.whenSome fun term => openStdio_keeps pid term
  · exact Keeps.bind (doExecve_keeps _ _ _ _) fun _ => Keeps.bind (by simp) fun _ => by simp

/-- The accounting holds at every request boundary. -/
theorem Reachable.frameInv {w : World} (h : Reachable w) : FrameInv w := by
  refine Reachable.invariant ?_ ?_ w h
  · intro w w' path hi hr
    have := loadInit_keeps path w hi.frameInv
    rwa [hr] at this
  · intro w r w' _ hw hs
    rw [← hs.2]
    exact dispatch_keeps r w hw

/-- The processes whose tables use the frame in `slot`. -/
def World.users (w : World) (slot : Nat) : List Nat :=
  w.tasks.keys.filter fun pid => (w.task? pid).any fun t =>
    t.mm.state.memoryMaps.values.any fun m => m.frameCap = slot

/-- The processes that have a frame are no more than its uses. -/
theorem World.length_users_le (w : World) (slot : Nat) :
    (w.users slot).length ≤ w.mms.total (MmState.uses slot) := by
  -- one process after the other: a user has at least one use
  have hone : ∀ l : List (Nat × TaskStruct), (∀ e ∈ l, w.task? e.1 = some e.2) →
      ((l.map (·.1)).filter fun pid => (w.task? pid).any fun t =>
        t.mm.state.memoryMaps.values.any fun m => m.frameCap = slot).length
      ≤ (l.map fun e => e.2.mm.state.uses slot).sum := by
    intro l
    induction l with
    | nil => exact fun _ => le_rfl
    | cons e rest ih =>
      intro hl
      have hrest := ih fun e' he' => hl e' (List.mem_cons_of_mem _ he')
      rw [List.map_cons, List.map_cons, List.sum_cons, List.filter_cons]
      split
      · rename_i hany
        rw [hl e (List.mem_cons_self ..), Option.any_some] at hany
        obtain ⟨m, hm, hcap⟩ := List.any_eq_true.mp hany
        obtain ⟨k, hk⟩ := OrdMap.mem_values.mp hm
        have hpos := MmState.uses_pos hk
        rw [of_decide_eq_true hcap] at hpos
        rw [List.length_cons]
        omega
      · omega
  have hall := hone w.tasks.entries fun e he => OrdMap.mem_entries.mp he
  have htotal : w.mms.total (MmState.uses slot)
      = (w.tasks.entries.map fun e => e.2.mm.state.uses slot).sum := by
    rw [World.mms, OrdMap.total_mapValues, OrdMap.total, OrdMap.values, List.map_map]
    rfl
  rw [htotal]
  exact hall

/-- Two entries of a table with one frame are one entry. -/
theorem MmState.key_unique {mm : MmState} {k k' : Nat} {m m' : MemoryMap}
    (hone : mm.uses m.frameCap ≤ 1) (hk : mm.memoryMaps.get? k = some m)
    (hk' : mm.memoryMaps.get? k' = some m') (hcap : m.frameCap = m'.frameCap) : k = k' := by
  by_contra hne
  have hremove := uses_remove hk m.frameCap
  have hother : (mm.removeMemoryMap k).memoryMaps.get? k' = some m' := by
    rw [removeMemoryMap, OrdMap.get?_erase_ne _ (Ne.symm hne)]
    exact hk'
  have hpos := uses_pos hother
  rw [← hcap] at hpos
  rw [List.count_singleton_self] at hremove
  omega

/-- At a request boundary every frame that a table names is there, its counter covers the
processes that use it, no table names it twice, and no frame was released twice. -/
theorem frame_in_use_not_released (w : World) (h : Reachable w) :
    w.doubleFree = false ∧
    (∀ pid t k m, w.task? pid = some t → t.mm.state.memoryMaps.get? k = some m →
      (w.frames m.frameCap).isSome) ∧
    (∀ slot, (w.users slot).length ≤ w.refsOf slot) ∧
    ∀ pid t k k' m m', w.task? pid = some t → t.mm.state.memoryMaps.get? k = some m →
      t.mm.state.memoryMaps.get? k' = some m' → m.frameCap = m'.frameCap → k = k' := by
  have hinv := h.frameInv
  have hmms : ∀ pid t, w.task? pid = some t → w.mms.get? pid = some t.mm.state :=
    fun pid t ht => by rw [World.get?_mms, ht]; rfl
  refine ⟨hinv.noDoubleFree, ?_, ?_, ?_⟩
  · intro pid t k m ht hk
    exact Counted.live_entry hinv (hmms pid t ht) hk
  · intro slot
    have hcounted := hinv.counted slot
    rw [List.count_nil, Nat.add_zero] at hcounted
    exact (w.length_users_le slot).trans hcounted
  · intro pid t k k' m m' ht hk hk' hcap
    have honce := hinv.once pid t.mm.state m.frameCap (hmms pid t ht)
    exact MmState.key_unique (by simpa using honce) hk hk' hcap

/-! ### A small run

The start of `init` and its first `fork`, with services that answer every call. The image is
an ELF header without segments, so `init` has its stack page and its four TLS pages. -/

/-- The header of an executable image without segments. -/
def sampleImage (o : Nat) : UInt8 :=
  if o = 0 then 0x7f else if o = 1 then 0x45 else if o = 2 then 0x4c else if o = 3 then 0x46
  else if o = 16 then 2 else 0

/-- Services that answer every call with a number that was not used before. -/
def sampleEnv (n : Nat) : Ext := ⟨none, n + 1000, sampleImage⟩

/-- An address-space layout. -/
def sampleLayout : Layout where
  heapVa := 0x10000000
  stackBase := 0x40000000
  threadAreaBase := 0x30000000
  trampolineVa := 0x70000000
  utcbVa := 0x50000000
  trapframeVa := 0x60000000
  upperShifts := []
  heapVa_aligned := by decide
  stackBase_aligned := by decide
  utcbVa_aligned := by decide
  stack_fits := by decide
  stack_below := by decide
  mmapBase_below := by decide
  utcb_below := by decide
  tls_fits := by decide

/-- The server before `init` is loaded. -/
def sampleStart : World where
  env := sampleEnv
  tick := 0
  refused := false
  layout := sampleLayout
  mapErrorToErrno _ := -14
  resolvePath path _ _ := path
  rounds := 4
  slots := ∅
  frames _ := none
  doubleFree := false
  scratch _ := none
  tasks := OrdMap.empty
  hostPidMap := OrdMap.empty
  lifecycle := OrdMap.empty
  childEvents := OrdMap.empty
  pendingWaitReplies := OrdMap.empty
  frameCapRefs _ := none
  nextPid := 1
  ledger := OrdMap.empty
  pendingSleepReplies := OrdMap.empty
  nextRequestId := 1
  activeCallerPid := none
  replySlot := 7
  openEndpoints := ∅
  doubleClose := false
  fdOverflow := false
  earlyRecycle := false
  positionSplit := false
  asyncRegions := []
  asyncFree := []
  nextAsyncVaddr := 0x80000000
  iouringSupported := none
  pipeVfsEndpoint := true
  stdioTerm := some 5
  panicked := false
  signalDropped := false
  missedWake := false
  stopSkewed := false
  waited := []
  leftEvents := false
  staleRecords := false
  missedIntr := false
  idSaturated := false
  sleepLog := []
  stopLog := []
  cloexecLog := []
  fileMapLog := []
  trace := []

/-- The server after a request. -/
def World.after (w : World) (r : Request) : World := ((dispatch r).run w).2

/-- Whether the handler of a request returns to the dispatch loop. -/
def World.returns (w : World) (r : Request) : Bool :=
  match ((dispatch r).run w).1 with
  | .error .stalled | .error .panicked => false
  | _ => true

/-- A request that returns leads to a reachable state. -/
theorem Reachable.after {w : World} (h : Reachable w) {r : Request} (hr : w.returns r) :
    Reachable (w.after r) := by
  refine h.step ⟨⟨fun heq => ?_, fun heq => ?_⟩, rfl⟩ <;> simp [World.returns, heq] at hr

/-- A request of the kind that returns leads to a state that is reachable by requests of the
kind. -/
theorem ReachableBy.after {ok : World → Request → Prop} {w : World} (h : ReachableBy ok w)
    {r : Request} (hok : ok w r) (hr : w.returns r) : ReachableBy ok (w.after r) := by
  refine h.step hok ⟨⟨fun heq => ?_, fun heq => ?_⟩, rfl⟩ <;> simp [World.returns, heq] at hr

/-- The server when `init` runs. -/
def sampleBoot : World := ((loadInit "").run sampleStart).2

/-- The server after the first `fork`. -/
def sampleFork : World := sampleBoot.after (.syscall 1 (.clone 17 0 0))

/-- The sample starts with nothing. -/
theorem sampleStart_initial : sampleStart.Initial := by
  constructor <;>
    first
    | rfl
    | exact ⟨rfl, rfl⟩
    | exact fun _ => rfl
    | exact Set.finite_empty.subset fun b hb => by cases hb

/-- The sample boots. -/
theorem sampleBoot_run : (loadInit "").run sampleStart = (.ok (), sampleBoot) :=
  Prod.ext (by decide +kernel) rfl

/-- The sample after its boot is reachable. -/
theorem sampleBoot_reachable : Reachable sampleBoot := .boot sampleStart_initial sampleBoot_run

/-- The sample after a `fork` is reachable. -/
theorem sampleFork_reachable : Reachable sampleFork :=
  sampleBoot_reachable.after (by decide +kernel)

/-- After the `fork` two processes use the frame of the stack page, and its counter is two. -/
theorem frame_in_use_not_released_sampleFork :
    sampleFork.users 1010 = [1, 2] ∧ sampleFork.refsOf 1010 = 2 ∧
    sampleFork.doubleFree = false ∧
    (∀ pid t k m, sampleFork.task? pid = some t → t.mm.state.memoryMaps.get? k = some m →
      (sampleFork.frames m.frameCap).isSome) :=
  ⟨by decide +kernel, by decide +kernel, (frame_in_use_not_released _ sampleFork_reachable).1,
    (frame_in_use_not_released _ sampleFork_reachable).2.1⟩

end Ape
