import Ape.Proofs.PageTables
import Ape.Proofs.FrameRuns

/-!
# `Ape.Proofs.PageTableRuns`: page tables over a run, up to the end of the process

A run of a process starts when the process is registered, and goes on with calls of
`map_process_frame`, for this process and for others, and with steps that leave its page tables
alone (`TableRun`). The accounts are in order in every state of a run (`TableRun.accounted`).

The end of the process releases the capabilities that its table records. What it does before that
leaves the table alone (`beforeTables_pathView`), so the slots that it releases are those that the
process holds, each once (`World.TablesFreed`).
-/

set_option autoImplicit false

namespace Ape

open Ape.Lib Cmd

/-! ### Runs -/

/-- What the process of the run holds after a call: its calls add the slots that they take and do
not give back. -/
def MapCall.held (c : MapCall) (pid : Nat) (w : World) (held : Finset Nat) : Finset Nat :=
  if c.pid = pid then
    (held ∪ ((c.command.run w).2.slots \ w.slots)) \ (w.slots \ (c.command.run w).2.slots)
  else held

/-- A run of the process, with the page-table slots that were allocated for it and not freed. Every
free of a page-table slot in it is answered as a release. -/
inductive TableRun (pid : Nat) : World → Finset Nat → Prop
  | registered {w w' : World} {parentPid hostPid cnode : Nat} :
      (registerProcess parentPid hostPid cnode).run w = (.ok pid, w') → TableRun pid w' ∅
  | call {w : World} {held : Finset Nat} (c : MapCall) :
      TableRun pid w held → c.Answered w → TableRun pid (c.command.run w).2 (c.held pid w held)
  /-- Anything else that keeps the page tables of the process, what is recorded of them and their
  slots. -/
  | other {w w' : World} {held : Finset Nat} :
      TableRun pid w held → w'.tablesOf pid = w.tablesOf pid →
      w'.livePagetables pid = w.livePagetables pid → held ⊆ w'.slots → TableRun pid w' held

/-- The tables that a new address space has are recorded without a capability. -/
theorem seedInitialPagetablePaths_null (l : Layout) (pid parentPid cnode : Nat) {k : Nat ×ₗ Nat}
    {slot : Nat} (h : (seedInitialPagetablePaths l
      (TaskStruct.new l pid parentPid cnode)).mm.intermediatePageTables.get? k = some slot) :
    slot = 0 := by
  have hfold : ∀ (keys : List (Nat ×ₗ Nat)) (t : PathTable), (∀ k s, t.get? k = some s → s = 0) →
      ∀ k s, (keys.foldl (fun m k => m.insert k 0) t).get? k = some s → s = 0 := by
    intro keys
    induction keys with
    | nil => exact fun t ht => ht
    | cons key keys ih =>
      intro t ht
      refine ih _ fun k s hk => ?_
      rcases OrdMap.get?_insert_eq_some.mp hk with ⟨-, h0⟩ | ⟨-, hk⟩
      · exact h0.symm
      · exact ht k s hk
  exact hfold _ _ (fun k s hk => by cases hk) k slot h

/-- A process that was just registered holds no page table. -/
theorem registerProcess_accounted {w w' : World} {pid parentPid hostPid cnode : Nat}
    (h : (registerProcess parentPid hostPid cnode).run w = (.ok pid, w')) : w'.Accounted pid ∅ := by
  obtain ⟨hpid, rfl⟩ := Prod.ext_iff.mp h
  have hpid' : w.nextPid = pid := by injection hpid
  subst hpid'
  -- the process starts with the seeded paths, which hold no capability
  let t := seedInitialPagetablePaths w.layout (TaskStruct.new w.layout w.nextPid parentPid cnode)
  have htask : ((registerProcess parentPid hostPid cnode).run w).2.task? w.nextPid = some t :=
    OrdMap.get?_insert_self _ _ _
  have hnull : ∀ k slot, t.mm.intermediatePageTables.get? k = some slot → slot = 0 :=
    fun k slot hk => seedInitialPagetablePaths_null _ _ _ _ hk
  refine ⟨Finset.empty_subset _, ?_, t.mm.intermediatePageTables,
    World.tables_of_task htask, ?_, ?_⟩
  · -- the ledger of the process was taken
    have hledger : ((registerProcess parentPid hostPid cnode).run w).2.ledger.get?
      w.nextPid = none :=
      OrdMap.get?_erase_self _ _
    show (World.ledgerOf _ w.nextPid).livePagetables = ∅
    rw [World.ledgerOf, hledger]
    rfl
  -- a seeded path has a null slot, so it is in nobody's hand
  · refine Finset.eq_empty_of_forall_notMem fun slot hmem => ?_
    obtain ⟨hne, k, hk⟩ := PathTable.mem_caps.mp hmem
    exact hne (hnull k slot hk)
  · intro k k' slot hne hk _
    exact absurd (hnull k slot hk) hne

/-- What a call does to the view of a state. -/
theorem MapCall.grew (c : MapCall) {w : World} (h : c.Answered w) :
    w.tableView.Grew c.pid (c.command.run w).2.tableView := by
  obtain ⟨hok, herr⟩ := c.command_tableView (v := w.tableView) w ⟨rfl, h⟩
  cases hr : (c.command.run w).1 with
  | ok a => exact (hok a hr).1
  | error e => exact herr e hr

/-- The accounts are in order in every state of a run. -/
theorem TableRun.accounted {pid : Nat} {w : World} {held : Finset Nat} (h : TableRun pid w held) :
    w.Accounted pid held := by
  induction h with
  | registered hreg => exact registerProcess_accounted hreg
  | @call w held c _ hans ih =>
    have hgrew := c.grew hans
    by_cases hpid : c.pid = pid
    · subst hpid
      -- no slot is given back that was allocated before
      have hnone : w.slots \ (c.command.run w).2.slots = ∅ :=
        Finset.sdiff_eq_empty_iff_subset.mpr hgrew.slots
      rw [MapCall.held, if_pos rfl, hnone, Finset.sdiff_empty]
      exact hgrew.accounted held ih
    · rw [MapCall.held, if_neg hpid]
      exact hgrew.others pid (fun heq => hpid heq.symm) held ih
  | @other w w' held _ htables hlive hslots ih =>
    refine ⟨hslots, hlive.trans ih.live, ?_⟩
    obtain ⟨t, ht, hrest⟩ := ih.caps
    exact ⟨t, htables.trans ht, hrest⟩

/-! ### The end of the process -/

/-- What the end of a process does before it releases the page tables. -/
def beforeTables (pid : Nat) (task : TaskStruct) : M Unit := do
  modifyTask pid fun t => { t with lifecycle := .exiting }
  forEach task.files.fds.keys fun fd => ignore (doClose pid fd)
  unmapAll pid task.mm.state
  releaseAllFrames pid task.mm.state
  releaseCnode pid
  killHostProcess pid

/-- What it does after that, up to the removal of the record. -/
def afterTables (pid : Nat) : M Unit := do
  dropWait4Reply pid
  dropPendingSleepReply pid
  ledgerTakeProcess pid
  modify fun w => { w with tasks := w.tasks.erase pid }

/-- The end of a process, cut where the page tables are given back. -/
theorem releaseProcess_eq (pid : Nat) (task : TaskStruct) :
    releaseProcess pid task = beforeTables pid task >>= fun _ =>
      ignore (releaseProcessIntermediatePageTables pid) >>= fun _ => afterTables pid := by
  simp only [beforeTables, bind_bind]
  rfl

/-- The page tables of a process, and those in its ledger. -/
def World.pathView (pid : Nat) (w : World) : Option PathTable × Finset Nat :=
  (w.tablesOf pid, w.livePagetables pid)

section Before

variable {pid : Nat}

/-- A change of a record that keeps the memory state keeps the path tables. -/
theorem World.pathView_modifyTask (w : World) (q : Nat) {f : TaskStruct → TaskStruct}
    (hf : ∀ t, (f t).mm = t.mm) : (w.modifyTask q f).pathView pid = w.pathView pid :=
  congrArg (fun v : TableView => (v.tables pid, v.live pid))
    (w.tableView_modifyTask q fun t => by rw [hf])

instance : BlindControl (World.pathView pid) where
  tick _ _ := rfl
  slots _ _ := rfl
  trace _ _ := rfl
  signal w q _ := w.pathView_modifyTask q fun _ => rfl
  dropped _ _ := rfl
  missedIntr _ _ := rfl
  record w q _ hf := w.pathView_modifyTask q fun t => (hf t).1
  hostPidMap _ _ := rfl
  stale _ _ := rfl
  stopLog _ _ := rfl
  stopSkewed _ _ := rfl
  childEvents _ _ := rfl
  pendingWaits _ _ := rfl
  lifecycle _ _ := rfl
  missedWake _ _ := rfl
  waited _ _ := rfl
  leftEvents _ _ := rfl
  pendingSleeps _ _ := rfl
  requestId _ _ := rfl
  idSaturated _ _ := rfl
  sleepLog _ _ := rfl
  caller _ _ := rfl

instance : BlindFiles (World.pathView pid) where
  files w q _ := w.pathView_modifyTask q fun _ => rfl
  cloexecLog _ _ := rfl
  positionSplit _ _ := rfl
  endpoints _ _ := rfl
  doubleClose _ _ := rfl
  asyncFree _ _ := rfl
  asyncRegions _ _ := rfl
  asyncVaddr _ _ := rfl
  iouring _ _ := rfl
  fdOverflow _ _ := rfl
  earlyRecycle _ _ := rfl

instance : BlindFrames (World.pathView pid) where
  frames _ _ _ := rfl
  refs _ _ := rfl
  doubleFree _ _ := rfl

instance (x : Option PathTable × Finset Nat) : BlindFiles fun w => World.pathView pid w = x :=
  BlindFiles.comp (V := World.pathView pid) (· = x) inferInstance

instance (x : Option PathTable × Finset Nat) : BlindFrames fun w => World.pathView pid w = x where
  frames w slot o := congrArg (· = x) (BlindFrames.frames (V := World.pathView pid) w slot o)
  refs w r := congrArg (· = x) (BlindFrames.refs (V := World.pathView pid) w r)
  doubleFree w b := congrArg (· = x) (BlindFrames.doubleFree (V := World.pathView pid) w b)

/-- A frame that is freed is taken out of the ledger. The page tables in it stay. -/
theorem releaseProcessFrameSlot_pathView (slot : Nat) :
    Frames (World.pathView pid) (releaseProcessFrameSlot pid slot) := by
  refine Frames.bind (releaseFrameCap_frames slot) fun last => Frames.when ?_
  refine Frames.bind (freeFrame_frames slot) fun _ => fun w => ?_
  have hlive := w.livePagetables_insert pid
    { w.ledgerOf pid with liveFrames := (w.ledgerOf pid).liveFrames.erase slot }
  refine Prod.ext rfl (show World.livePagetables _ pid = w.livePagetables pid from ?_)
  refine (congrFun hlive pid).trans ?_
  rw [Function.update_self]
  rfl

/-- Up to the release of the page tables, what is recorded of them stays. -/
theorem beforeTables_pathView (task : TaskStruct) (x : Option PathTable × Finset Nat) :
    Keeps (fun w => World.pathView pid w = x) (beforeTables pid task) := by
  refine Keeps.bind (modifyState_keeps pid fun _ => .exiting) fun _ => ?_
  refine Keeps.bind (Keeps.forEach fun fd => Keeps.ignore (doClose_keeps pid fd)) fun _ => ?_
  refine Keeps.bind (Keeps.forEach fun m => Keeps.when (Keeps.ignore ?_)) fun _ => ?_
  · have hunmap : Frames (World.pathView pid) (unmapProcessPages pid m.vaddr m.pages) := by
      refine Frames.bind (getProcess_frames pid) fun _ => fun w => ?_
      exact congrArg (fun v : TableView => (v.tables pid, v.live pid)) (vspaceUnmap_tableView _ _ w)
    exact hunmap.keeps (· = x)
  refine Keeps.bind (Keeps.forEach fun slot =>
    (releaseProcessFrameSlot_pathView slot).keeps (· = x))
    fun _ => ?_
  exact Keeps.bind (releaseCnode_keeps pid) fun _ => killHostProcess_keeps pid

end Before

/-! ### What else the end of a process gives back

The end of a process closes its descriptors, frees its frames and deletes its CNode. A slot that is
none of these stays allocated up to the release of the page tables.
-/

/-- The slot is not that of a descriptor, of a frame or of the CNode of the process. -/
structure TaskStruct.Spares (t : TaskStruct) (slot : Nat) : Prop where
  cnode : t.cspace ≠ slot
  frames : slot ∉ t.mm.state.frameSlots
  endpoints : ∀ fd h, t.files.fds.get? fd = some h → h.fsEpSlot ≠ slot

/-- The slot is allocated, and the process has it neither as its CNode nor behind a descriptor. -/
def World.Spared (pid slot : Nat) (w : World) : Prop :=
  slot ∈ w.slots ∧ ∀ t, w.task? pid = some t → t.cspace ≠ slot ∧
    ∀ fd h, t.files.fds.get? fd = some h → h.fsEpSlot ≠ slot

section Spared

variable {pid slot : Nat}

/-- A change of the process that keeps its CNode and opens no descriptor. -/
theorem World.Spared.modifyTask {w : World} (h : w.Spared pid slot) {f : TaskStruct → TaskStruct}
    (hcnode : ∀ t, (f t).cspace = t.cspace)
    (hfds : ∀ t fd h, (f t).files.fds.get? fd = some h → t.files.fds.get? fd = some h) :
    (w.modifyTask pid f).Spared pid slot := by
  refine ⟨h.1, ?_⟩
  intro t' ht'
  have hmap : (w.task? pid).map f = some t' := by
    rw [← ht', World.task?, World.task?, World.modifyTask, OrdMap.get?_modify, if_pos rfl]
  obtain ⟨t, ht, rfl⟩ := Option.map_eq_some_iff.mp hmap
  obtain ⟨hc, hends⟩ := h.2 t ht
  exact ⟨hcnode t ▸ hc, fun fd hd hget => hends fd hd (hfds t fd hd hget)⟩

/-- A slot is spared when another one is freed. -/
theorem World.Spared.free {w : World} (h : w.Spared pid slot) {s : Nat} (hs : s ≠ slot) :
    World.Spared pid slot { w with slots := w.slots.erase s } :=
  ⟨Finset.mem_erase.mpr ⟨fun heq => hs heq.symm, h.1⟩, h.2⟩

/-- A call spares the slot. -/
theorem ext_spared : Keeps (World.Spared pid slot) ext := by
  intro w h
  unfold ext
  dsimp only
  split <;> exact h

/-- An endpoint in another slot is closed. -/
theorem closeEndpoint_spared {s : Nat} (hs : s ≠ slot) :
    Keeps (World.Spared pid slot) (closeEndpoint s) := by
  refine Keeps.bind (Keeps.ignore (Keeps.bind ext_spared fun _ => Keeps.pure _)) fun _ => ?_
  refine Keeps.bind (fun w h => h) fun _ => Keeps.bind (fun w h => h) fun _ => ?_
  exact Keeps.when fun w h => h.free hs

/-- The endpoint of a descriptor is closed, and its slot is another one. -/
theorem doClose_spared (fd : Nat) : Keeps (World.Spared pid slot) (doClose pid fd) := by
  refine Keeps.ite (Keeps.throw _) (Triple.keeps ?_)
  refine Triple.bind (getProcess_task pid) fun task => ?_
  refine Triple.bind (R := fun _ w => (∀ h, task.files.fds.get? fd = some h → h.fsEpSlot ≠ slot) ∧
    w.Spared pid slot) (Triple.modify fun w h => ⟨(h.1.2 task h.2).2 fd, ?_⟩) fun _ => ?_
  · refine h.1.modifyTask (fun _ => rfl) fun t fd' h' hget => ?_
    exact (OrdMap.get?_erase_eq_some.mp hget).2
  refine Triple.of_fact fun hends => ?_
  cases hget : task.files.fds.get? fd with
  | none => exact Triple.throw fun w h => h
  | some handle =>
    rw [getSome_bind]
    refine Keeps.triple (Keeps.bind (Keeps.gets _) fun shared => ?_)
    refine Keeps.bind (Keeps.when (closeEndpoint_spared (hends handle hget))) fun _ => ?_
    refine Keeps.whenSome fun io => Keeps.bind (fun w h => h) fun _ => fun w h => ?_
    show World.Spared pid slot (if _ then _ else _)
    split <;> exact h

/-- A frame in another slot is given back. -/
theorem releaseProcessFrameSlot_spared {s : Nat} (hs : s ≠ slot) :
    Keeps (World.Spared pid slot) (releaseProcessFrameSlot pid s) := by
  have hcap : Keeps (World.Spared pid slot) (releaseFrameCap s) := by
    refine Keeps.bind (Keeps.gets _) fun count => ?_
    split
    · exact Keeps.pure _
    · exact Keeps.ite (Keeps.bind (fun w h => h) fun _ => Keeps.pure _)
        (Keeps.bind (fun w h => h) fun _ => Keeps.pure _)
  refine Keeps.bind hcap fun last => Keeps.when (Keeps.bind (fun w h => ?_) fun _ => fun w h => h)
  exact World.Spared.free (w := w) h hs

/-- A slot that the process has as nothing else is allocated where the release starts. -/
theorem beforeTables_spared {task : TaskStruct} {w : World} (hw : w.task? pid = some task)
    (hmem : slot ∈ w.slots) (h : task.Spares slot) :
    slot ∈ ((beforeTables pid task).run w).2.slots := by
  have hstart : w.Spared pid slot := by
    refine ⟨hmem, ?_⟩
    intro t ht
    obtain rfl : task = t := by rw [hw] at ht; injection ht
    exact ⟨h.cnode, h.endpoints⟩
  -- no step of the release frees a slot that the process spares
  have hkeep : Keeps (World.Spared pid slot) (beforeTables pid task) := by
    refine Keeps.bind (fun w h => h.modifyTask (fun _ => rfl) fun _ _ _ hget => hget) fun _ => ?_
    refine Keeps.bind (Keeps.forEach fun fd => Keeps.ignore (doClose_spared fd)) fun _ => ?_
    refine Keeps.bind (Keeps.forEach fun m => Keeps.when (Keeps.ignore ?_)) fun _ => ?_
    · refine Keeps.bind (getProcess_frames pid).keepsProp fun _ => Keeps.bind ext_spared fun _ => ?_
      exact fun w h => h.modifyTask (fun _ => rfl) fun _ _ _ hget => hget
    refine Keeps.bind (Keeps.forEach_mem fun s hs => releaseProcessFrameSlot_spared fun heq =>
      h.frames (heq ▸ hs)) fun _ => ?_
    -- the slot of the CNode is the one that is freed, and it is another one
    refine Keeps.bind ?_ fun _ => Keeps.bind (Keeps.gets _) fun host => Keeps.whenSome ?_
    · refine Triple.keeps (Triple.bind (R := fun o w => World.Spared pid slot w ∧ w.task? pid = o)
        (Triple.gets fun w h => ⟨h, rfl⟩) fun o => ?_)
      refine Triple.whenSome (fun t ho => Triple.of_pre fun w₀ hw₀ => ?_) fun w _ hw => hw.1
      have hne : t.cspace ≠ slot := (hw₀.1.2 t (hw₀.2.trans ho)).1
      refine Triple.pre ?_ fun w (hw : w = w₀) => hw ▸ hw₀.1
      exact Keeps.triple
        (Keeps.bind (Keeps.attempt ext_spared) fun r => Keeps.when fun w h => h.free hne)
    · intro h
      exact fun w h => h
  exact (hkeep w hstart).1

end Spared

/-- The slots that the end of the process releases, in order. -/
def World.pagetableSlots (w : World) (pid : Nat) : List Nat :=
  ((w.tablesOf pid).map fun t => t.values.filter (· ≠ 0)).getD []

/-- The state in which the release starts: the table of the process is empty. -/
def World.tablesCleared (w : World) (pid : Nat) : World :=
  w.modifyTask pid fun t => { t with mm := { t.mm with intermediatePageTables := OrdMap.empty } }

/-- Every free that the end of the process makes of a page-table slot is answered as a release. -/
def World.EndAnswered (pid : Nat) (task : TaskStruct) (w : World) : Prop :=
  let v := ((beforeTables pid task).run w).2
  AtEach (releasePagetableSlot pid) (fun _ => World.FreeAnswered) (v.pagetableSlots pid)
    (v.tablesCleared pid)

/-- A loop that releases slots of the process. -/
theorem releaseSlots_freed (pid : Nat) (slots : List Nat) {E : Err → World → Prop} :
    Triple (AtEach (releasePagetableSlot pid) (fun _ => World.FreeAnswered) slots)
      (forEach slots (releasePagetableSlot pid)) (fun _ w => ∀ s ∈ slots, s ∉ w.slots) E := by
  let Left (rest : List Nat) (w : World) : Prop := ∀ s ∈ slots, s ∉ rest → s ∉ w.slots
  have hloop := Triple.forEach_atEach (f := releasePagetableSlot pid)
    (A := fun _ => World.FreeAnswered) Left (E := E)
      (fun slot rest => Triple.of_pre fun w₀ hw₀ => ?_)
    slots
  · refine hloop.imp (fun w hw => ⟨fun s hs hout => absurd hs hout, hw⟩)
      (fun _ w hw s hs => hw s hs List.not_mem_nil) fun _ _ h => h
  · obtain ⟨hleft, hans⟩ := hw₀
    refine (releasePagetableSlot_tableView (v := w₀.tableView) slot).imp
      (fun w hw => by subst hw; exact ⟨rfl, hans⟩) (fun _ w hw s hs hout => ?_) fun _ _ h => h
    have hslots : w.slots = w₀.slots.erase slot := congrArg TableView.slots hw
    rw [hslots, Finset.mem_erase]
    rintro ⟨hne, hmem⟩
    have hnot : s ∉ slot :: rest := by simp [hne, hout]
    exact hleft s hs hnot hmem

/-- What comes after the release gives slots back, and takes none. -/
theorem afterTables_slots (pid : Nat) (P : Nat → Prop) :
    Keeps (fun w : World => ∀ s, P s → s ∉ w.slots) (afterTables pid) := by
  have hfree : ∀ slot, Keeps (fun w : World => ∀ s, P s → s ∉ w.slots) (cspaceFree slot) :=
    fun slot w h s hs hmem => h s hs (Finset.mem_of_mem_erase hmem)
  refine Keeps.bind (Keeps.bind (Keeps.gets _) fun pending => Keeps.whenSome fun p =>
    Keeps.bind (fun w h => h) fun _ => hfree _) fun _ => ?_
  refine Keeps.bind (Keeps.bind (Keeps.gets _) fun pending => Keeps.whenSome fun p =>
    Keeps.bind (fun w h => h) fun _ => Keeps.bind (hfree _) fun _ => fun w h => h) fun _ => ?_
  exact Keeps.bind (fun w h => h) fun _ => fun w h => h

/-- The end of a process frees each page-table slot that it holds once. -/
structure World.TablesFreed (pid : Nat) (task : TaskStruct) (held : Finset Nat) (w : World) :
    Prop where
  /-- Where the release starts, the records are those of the run. -/
  unchanged : ((beforeTables pid task).run w).2.pathView pid = w.pathView pid
  /-- The slots that are released are those that are held, and none is released twice. -/
  nodup : (((beforeTables pid task).run w).2.pagetableSlots pid).Nodup
  slots : (((beforeTables pid task).run w).2.pagetableSlots pid).toFinset = held
  frees : (releaseProcessIntermediatePageTables pid).run ((beforeTables pid task).run w).2 =
    (forEach (((beforeTables pid task).run w).2.pagetableSlots pid) (releasePagetableSlot pid)).run
      (((beforeTables pid task).run w).2.tablesCleared pid)
  /-- Nothing else that the process has gives one of them back before. -/
  allocated : w.task? pid = some task → ∀ slot ∈ held, task.Spares slot →
    slot ∈ ((beforeTables pid task).run w).2.slots
  /-- After the end of the process none of them is allocated, and nothing is recorded. -/
  freed : w.EndAnswered pid task → ∀ slot ∈ held, slot ∉ ((releaseProcess pid task).run w).2.slots
  gone : ((releaseProcess pid task).run w).2.pathView pid = (none, ∅)

/-- The capabilities of a table are listed once each. -/
theorem PathTable.Once.nodup {t : PathTable} (h : t.Once) : (t.values.filter (· ≠ 0)).Nodup := by
  have hkeys : t.values.Pairwise fun a b => a ≠ 0 → a ≠ b := by
    refine List.pairwise_map.mpr (t.sorted.imp_of_mem fun {e e'} he he' hlt hne heq => ?_)
    -- two records with one capability have one key
    have hkey : e.1 = e'.1 := h e.1 e'.1 e.2 hne (OrdMap.mem_entries.mp he)
      (heq ▸ OrdMap.mem_entries.mp he')
    exact absurd hkey hlt.ne
  refine (hkeys.filter _).imp_of_mem fun ha _ hab => hab ?_
  simpa using (List.mem_filter.mp ha).2

/-- The slots that are given back are those of the path table. -/
theorem World.pagetableSlots_toFinset {w : World} {pid : Nat} {t : PathTable}
    (h : w.tablesOf pid = some t) : (w.pagetableSlots pid).toFinset = t.caps := by
  ext slot
  rw [World.pagetableSlots, h, PathTable.mem_caps, ← OrdMap.mem_values]
  show slot ∈ (t.values.filter (· ≠ 0)).toFinset ↔ _
  rw [List.mem_toFinset, List.mem_filter, and_comm]
  simp

/-- The page tables of a process that is there are given back one by one. -/
theorem run_releaseProcessIntermediatePageTables {w : World} {pid : Nat}
    (h : (w.tablesOf pid).isSome) : (releaseProcessIntermediatePageTables pid).run w =
      (forEach (w.pagetableSlots pid) (releasePagetableSlot pid)).run (w.tablesCleared pid) := by
  obtain ⟨t, ht⟩ := Option.isSome_iff_exists.mp h
  obtain ⟨task, htask, rfl⟩ := Option.map_eq_some_iff.mp ht
  rw [releaseProcessIntermediatePageTables, run_bind_ok (run_getProcess htask),
    World.pagetableSlots,
    World.tables_of_task htask]
  rfl

/-- What comes after the release drops the record and the ledger. -/
theorem afterTables_gone (pid : Nat) :
    Triple (fun _ => True) (afterTables pid) (fun _ w => w.pathView pid = (none, ∅))
      fun _ _ => True := by
  refine Triple.bind (triple_true _) fun _ => Triple.bind (triple_true _) fun _ => ?_
  refine Triple.bind (R := fun _ w => w.ledger.get? pid = none)
    (Triple.modify fun w _ => OrdMap.get?_erase_self _ _) fun _ => Triple.modify fun w h => ?_
  refine Prod.ext (show Option.map _ ((w.tasks.erase pid).get? pid) = none from ?_)
    (show ((w.ledger.get? pid).getD ⟨∅, ∅⟩).livePagetables = ∅ from ?_)
  · rw [OrdMap.get?_erase_self]
    rfl
  · rw [h]
    rfl

/-- What comes before the release does not fail. -/
theorem run_beforeTables (pid : Nat) (task : TaskStruct) (w : World) :
    (beforeTables pid task).run w = (.ok (), ((beforeTables pid task).run w).2) := by
  rcases hr : (beforeTables pid task).run w with ⟨e | a, w'⟩
  · have hfail : ((releaseProcess pid task).run w).1 = .error e := by
      rw [releaseProcess_eq, run_bind_error hr]
    exact absurd hfail (releaseProcess_total pid task w e)
  · rfl

/-- The end of a process whose accounts are in order. -/
theorem World.Accounted.tablesFreed {pid : Nat} {held : Finset Nat} {w : World}
    (h : w.Accounted pid held) (task : TaskStruct) : w.TablesFreed pid task held := by
  let v := ((beforeTables pid task).run w).2
  have hsame : v.pathView pid = w.pathView pid := beforeTables_pathView task _ w rfl
  obtain ⟨t, ht, hcaps, honce⟩ := h.caps
  have htable : v.tablesOf pid = some t := (congrArg Prod.fst hsame).trans ht
  have hslots : (v.pagetableSlots pid).toFinset = held :=
    (World.pagetableSlots_toFinset htable).trans hcaps
  have hrun := @run_releaseProcessIntermediatePageTables v pid (htable ▸ rfl)
  -- the end of the process reaches the release, and what comes after it
  have hend : ((releaseProcess pid task).run w).2 =
      ((afterTables pid).run ((releaseProcessIntermediatePageTables pid).run v).2).2 := by
    rw [releaseProcess_eq, run_bind_ok (run_beforeTables pid task w), run_bind_ok (run_ignore _ _)]
  have htotal : ∀ e, ((afterTables pid).run
      ((releaseProcessIntermediatePageTables pid).run v).2).1 ≠ .error e := by
    intro e he
    refine releaseProcess_total pid task w e ?_
    rw [releaseProcess_eq, run_bind_ok (run_beforeTables pid task w), run_bind_ok (run_ignore _ _)]
    exact he
  refine ⟨hsame, ?_, hslots, hrun, ?_, ?_, ?_⟩
  · rw [World.pagetableSlots, htable]
    exact honce.nodup
  · intro hw slot hmem hspare
    exact beforeTables_spared hw (h.allocated hmem) hspare
  · intro hans slot hmem
    rw [hend, hrun]
    have hmem' : slot ∈ v.pagetableSlots pid := List.mem_toFinset.mp (hslots ▸ hmem)
    have hloop := (releaseSlots_freed pid (v.pagetableSlots pid) (E := fun _ w => ∀ s ∈
      v.pagetableSlots pid, s ∉ w.slots)).ends hans
    exact afterTables_slots pid (· ∈ v.pagetableSlots pid) _ hloop slot hmem'
  · rw [hend]
    obtain ⟨hok, -⟩ := afterTables_gone pid
      ((releaseProcessIntermediatePageTables pid).run v).2 trivial
    cases hr : ((afterTables pid).run ((releaseProcessIntermediatePageTables pid).run v).2).1 with
    | ok a => exact hok a hr
    | error e => exact absurd hr (htotal e)

/-! ### The accounts of a run -/

/-- **Page-table slots are accounted for.** In every state of a run, the slots that were allocated
for the process and not freed are the capabilities in its table, each under one level and path, and
the page tables in its ledger. A further call keeps every record, and when it succeeds the tables of
its pages are recorded. The end of the process frees each slot once. -/
theorem page_tables_accounted {pid : Nat} {w : World} {held : Finset Nat}
    (h : TableRun pid w held) :
    w.Accounted pid held ∧
    (∀ c : MapCall, c.Answered w →
      w.tableView.Kept (c.command.run w).2.tableView ∧
      ((c.command.run w).1 = .ok () → c.Covered (c.command.run w).2.tableView)) ∧
    ∀ task, w.TablesFreed pid task held := by
  refine ⟨h.accounted, fun c hans => ⟨(c.grew hans).kept, ?_⟩, h.accounted.tablesFreed⟩
  intro hok
  exact ((c.command_tableView (v := w.tableView) w ⟨rfl, hans⟩).1 () hok).2

/-- Services that never fail answer every free as a release. -/
theorem MapCall.answered_of_env (c : MapCall) {w : World} (h : ∀ t, (w.env t).err = none) :
    c.Answered w := by
  -- an environment in which no call is refused, which every step leaves as it is
  let I (v : World) : Prop := v.env = w.env
  have hfree : ∀ v, I v → v.FreeAnswered := by
    intro v hv e he
    rw [hv, h] at he
    cases he
  have hkeep : ∀ {α : Type} {d : M α} {A : α → World → Prop}, Frames World.env d →
      (∀ a v, I v → A a v) → ∀ v, I v → After d A v := by
    intro α d A hd hA v hv a _
    exact hA a _ ((hd v).trans hv)
  have hadd : ∀ v, I v → v.AddAnswered c.pid := by
    refine hkeep ?_ fun p v hv e _ => hfree v hv
    refine Frames.bind (by simp) fun slot => Frames.bind (by simp) fun _ => ?_
    exact Frames.bind (by simp) fun _ => Frames.bind (by simp) fun r => Frames.pure _
  -- a loop over which the answers hold at each of its items
  have heach : ∀ {f : Nat → M Unit} {A : Nat → World → Prop}, (∀ n, Frames World.env (f n)) →
      (∀ n v, I v → A n v) → ∀ l v, I v → AtEach f A l v := by
    intro f A hf hA l
    induction l with
    | nil => exact fun v _ => trivial
    | cons n l ih => exact fun v hv => ⟨hA n v hv, hkeep (hf n) (fun _ v hv => ih v hv) v hv⟩
  have hpage : ∀ a leaf v, I v → v.PageAnswered c.pid a leaf := fun a leaf v hv =>
    heach (fun _ => by simp) (fun _ => hadd) _ v hv
  have hrange : ∀ n i v, I v → RangeAnswered c.pid c.vaddr c.pages n i v := by
    intro n
    induction n with
    | zero => exact fun i v _ => trivial
    | succ n ih =>
      intro i v hv _
      split
      · exact ⟨hpage _ _ v hv, hkeep (by simp) (fun _ => ih _) v hv⟩
      · exact ⟨hpage _ _ v hv, hkeep (by simp) (fun _ => ih _) v hv⟩
  refine ⟨hrange _ _ w rfl, hkeep ?_ (fun r v hv _ =>
    heach (fun _ => by simp) (fun _ => hpage _ _) _ v hv)
    w rfl⟩
  refine Frames.bind (by simp) fun _ => Frames.bind (by simp) fun _ => ?_
  exact Frames.bind (by simp) fun r => Frames.bind (by simp) fun _ => Frames.pure _

/-- A process whose first page takes a table. -/
theorem page_tables_accounted_sampleStart :
    ∃ w held, TableRun 1 w held ∧ held.card = 1 ∧ w.livePagetables 1 = held := by
  let w₁ : World := ((registerProcess 0 9 5).run sampleStart).2
  let c : MapCall := ⟨1, 7, 0x1000000, ⟨true, true, false⟩, 1⟩
  have hstart : TableRun 1 w₁ ∅ := @TableRun.registered 1 sampleStart w₁ 0 9 5 rfl
  have hrun := TableRun.call c hstart (c.answered_of_env fun _ => rfl)
  exact ⟨_, _, hrun, by decide +kernel, (page_tables_accounted hrun).1.live⟩

end Ape
