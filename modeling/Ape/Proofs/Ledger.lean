import Ape.Proofs.ProcessTable

/-!
# `Ape.Proofs.Ledger`: the ledger is that of the processes there are

The frames and page tables that a process holds are recorded under its pid. `register_process` and
the end of a process clear the record, and every other change is for a process that was looked up
before. So a pid with a ledger is in the process table, in every state of a run.

A command for a process that is there sees `OkWith`: it may write to the ledger of that process. A
command for a process that is gone fails at the first lookup.
-/

set_option autoImplicit false

namespace Ape

open Ape.Lib Cmd

/-! ### The view -/

/-- The ledgers, and which processes there are. -/
structure LedgerView where
  ledger : OrdMap Nat ProcessLedger
  live : Nat → Bool

/-- The ledgers of the server. -/
def World.ledgerView (w : World) : LedgerView := ⟨w.ledger, fun pid => w.live pid⟩

namespace LedgerView

/-- A pid with a ledger is in the process table. -/
def Ok (v : LedgerView) : Prop := ∀ pid, (v.ledger.get? pid).isSome → v.live pid = true

/-- The ledgers are in order, and these processes are there. -/
def OkWith (pids : List Nat) (v : LedgerView) : Prop := v.Ok ∧ ∀ pid ∈ pids, v.live pid = true

/-- The ledgers are in order, and the process is gone. -/
def OkWithout (pid : Nat) (v : LedgerView) : Prop := v.Ok ∧ v.live pid = false

/-- A new ledger for a process that is there. -/
theorem ok_insert {v : LedgerView} {pid : Nat} (hlive : v.live pid = true) (l : ProcessLedger) :
    Ok { v with ledger := v.ledger.insert pid l } ↔ v.Ok := by
  constructor <;> intro h q hq <;> by_cases heq : q = pid
  · exact heq ▸ hlive
  · refine h q ?_
    show ((v.ledger.insert pid l).get? q).isSome
    rw [OrdMap.get?_insert_ne _ _ heq]
    exact hq
  · exact heq ▸ hlive
  · refine h q ?_
    rw [← OrdMap.get?_insert_ne v.ledger l heq]
    exact hq

/-- The ledger of a process that is there may have anything in it. -/
theorem okWith_insert {v : LedgerView} {pids : List Nat} {pid : Nat} (hmem : pid ∈ pids)
    (l : ProcessLedger) :
    OkWith pids { v with ledger := v.ledger.insert pid l } ↔ v.OkWith pids := by
  constructor
  · rintro ⟨hok, hlive⟩
    exact ⟨(ok_insert (v := v) (hlive pid hmem) l).mp hok, hlive⟩
  · rintro ⟨hok, hlive⟩
    exact ⟨(ok_insert (v := v) (hlive pid hmem) l).mpr hok, hlive⟩

end LedgerView

/-- A change of a record leaves the ledgers. -/
theorem World.ledgerView_modifyTask (w : World) (pid : Nat) (f : TaskStruct → TaskStruct) :
    (w.modifyTask pid f).ledgerView = w.ledgerView :=
  congrArg (LedgerView.mk _) (funext fun q => w.live_modifyTask pid q f)

instance : BlindControl World.ledgerView where
  tick _ _ := rfl
  slots _ _ := rfl
  trace _ _ := rfl
  signal w pid _ := w.ledgerView_modifyTask pid _
  dropped _ _ := rfl
  missedIntr _ _ := rfl
  record w pid _ _ := w.ledgerView_modifyTask pid _
  hostPidMap _ _ := rfl
  stale _ _ := rfl
  stopLog _ _ := rfl
  stopSkewed _ _ := rfl
  childEvents _ _ := rfl
  pendingWaits _ _ := rfl
  lifecycle _ _ := rfl
  missedWake _ _ := rfl
  waited _ _ := rfl
  leftEvents _ _ := rfl
  pendingSleeps _ _ := rfl
  requestId _ _ := rfl
  idSaturated _ _ := rfl
  sleepLog _ _ := rfl
  caller _ _ := rfl

instance : BlindFiles World.ledgerView where
  files w pid _ := w.ledgerView_modifyTask pid _
  cloexecLog _ _ := rfl
  positionSplit _ _ := rfl
  endpoints _ _ := rfl
  doubleClose _ _ := rfl
  asyncFree _ _ := rfl
  asyncRegions _ _ := rfl
  asyncVaddr _ _ := rfl
  iouring _ _ := rfl
  fdOverflow _ _ := rfl
  earlyRecycle _ _ := rfl

instance : BlindSpace World.ledgerView where
  vspace w pid _ := w.ledgerView_modifyTask pid _
  tables w pid _ := w.ledgerView_modifyTask pid _
  scratch _ _ _ := rfl
  writeFrame _ _ _ := rfl
  frames _ _ _ := rfl
  refs _ _ := rfl
  doubleFree _ _ := rfl
  mm w pid _ := w.ledgerView_modifyTask pid _
  fileMapLog _ _ := rfl

/-- The ledgers of the server meet a condition. -/
def World.Ledgers (g : LedgerView → Prop) (w : World) : Prop := g w.ledgerView

/-- The ledgers of the server are in order. -/
abbrev World.LedgersOk : World → Prop := World.Ledgers LedgerView.Ok

section Blind

variable (g : LedgerView → Prop)

instance : BlindControl (World.Ledgers g) := BlindControl.comp
    (V := World.ledgerView) g inferInstance

instance : BlindFiles (World.Ledgers g) := BlindFiles.comp (V := World.ledgerView) g inferInstance

instance : BlindSpace (World.Ledgers g) := BlindSpace.comp (V := World.ledgerView) g inferInstance

end Blind

/-- The process that is there may get a ledger. -/
instance (pid : Nat) (pids : List Nat) :
    BlindLedger (World.Ledgers (LedgerView.OkWith (pid :: pids))) pid where
  own w l := propext (LedgerView.okWith_insert (v := w.ledgerView) (List.mem_cons_self ..) l)

instance (pid child : Nat) : BlindLedger
    (World.Ledgers (LedgerView.OkWith [pid, child])) child where
  own w l := propext (LedgerView.okWith_insert (v := w.ledgerView) (by simp) l)

/-! ### Processes that are there, and processes that are gone -/

/-- A command keeps the ledgers in order when it does so for a process that is there and for one
that is gone. -/
theorem ledgersOk_of_live {α : Type} {c : M α} (pid : Nat)
    (hlive : Keeps (World.Ledgers (LedgerView.OkWith [pid])) c)
    (hdead : Keeps (World.Ledgers (LedgerView.OkWithout pid)) c) : Keeps World.LedgersOk c := by
  intro w hw
  cases hpid : w.live pid with
  | true =>
    have hstart : World.Ledgers (LedgerView.OkWith [pid]) w :=
      ⟨hw, fun q hq => (List.mem_singleton.mp hq) ▸ hpid⟩
    exact (hlive w hstart).1
  | false =>
    have hstart : World.Ledgers (LedgerView.OkWithout pid) w := ⟨hw, hpid⟩
    exact (hdead w hstart).1

/-- A process that is gone is not found. -/
theorem getProcess_dead (pid : Nat) {α : Type} (f : TaskStruct → M α) :
    Triple (World.Ledgers (LedgerView.OkWithout pid)) (getProcess pid >>= f) (fun _ _ => False)
      (fun _ => World.Ledgers (LedgerView.OkWithout pid)) := by
  refine Triple.bind (R := fun _ _ => False) ((getProcess_task pid).post
    fun t w h => ?_) fun t => fun _ h => h.elim
  have hdead : w.live pid = false := h.1.2
  rw [World.live, h.2] at hdead
  cases hdead

/-- A command that looks up a process that is gone. -/
theorem getProcess_dead_keeps (pid : Nat) {α : Type} (f : TaskStruct → M α) :
    Keeps (World.Ledgers (LedgerView.OkWithout pid)) (getProcess pid >>= f) :=
  Triple.keeps ((getProcess_dead pid f).post fun _ _ h => h.elim)

/-- A command that looks up its process keeps the ledgers in order when it does so for a process
that is there. -/
theorem ledgersOk_of_getProcess {α : Type} (pid : Nat) {f : TaskStruct → M α}
    (h : Keeps (World.Ledgers (LedgerView.OkWith [pid])) (getProcess pid >>= f)) :
    Keeps World.LedgersOk (getProcess pid >>= f) :=
  ledgersOk_of_live pid h (getProcess_dead_keeps pid f)

instance : GrowKeeps World.LedgersOk where
  grow pid a := ledgersOk_of_getProcess pid (tryGrowStackForUserAddr_frames pid a).keepsProp

/-- A command that keeps the ledgers in order and ends no process. -/
theorem okWith_keeps {α : Type} {c : M α} {pids : List Nat} (h : Keeps World.LedgersOk c)
    (hlive : ∀ pid, Frames (World.live pid) c) :
    Keeps (World.Ledgers (LedgerView.OkWith pids)) c := by
  intro w hw
  refine ⟨h w hw.1, ?_⟩
  intro pid hpid
  have hsame : World.live pid (c.run w).2 = w.live pid := hlive pid w
  exact hsame.trans (hw.2 pid hpid)

instance (pids : List Nat) : GrowKeeps (World.Ledgers (LedgerView.OkWith pids)) where
  grow pid a := okWith_keeps (GrowKeeps.grow pid a) fun _ => tryGrowStackForUserAddr_frames pid a

/-! ### The memory calls -/

section Calls

variable (pid : Nat)

/-- The split of entries looks up the process first. -/
theorem ensureSplit_dead (start stop : Nat) :
    Keeps (World.Ledgers (LedgerView.OkWithout pid))
      (ensurePartialMultiPageRangesSplit pid start stop) := getProcess_dead_keeps pid _

/-- `mmap` keeps the ledgers to the processes that are there. -/
theorem doMmap_ledgersOk (addr len prot flags fd offset : Nat) :
    Keeps World.LedgersOk (doMmap pid addr len prot flags fd offset) := by
  refine ledgersOk_of_live pid (doMmap_frames pid _ _ _ _ _ _).keepsProp ?_
  refine Keeps.ite (Keeps.throw _) (Keeps.ite (Keeps.throw _) (Keeps.bind ?_ ?_))
  · exact Keeps.ite (Keeps.pure _) (Keeps.ite (Keeps.throw _) (getProcess_dead_keeps pid _))
  · intro backing
    refine Keeps.ite (Keeps.ite (Keeps.throw _) (Keeps.bind (Keeps.getSome _ _) fun stop => ?_))
      (getProcess_dead_keeps pid _)
    exact Keeps.bind (ensureSplit_dead pid _ _) fun _ => getProcess_dead_keeps pid _

/-- `munmap` keeps the ledgers to the processes that are there. -/
theorem doMunmap_ledgersOk (addr len : Nat) : Keeps World.LedgersOk (doMunmap pid addr len) := by
  refine ledgersOk_of_live pid (doMunmap_frames pid _ _).keepsProp ?_
  refine Keeps.ite (Keeps.throw _) (Keeps.bind (Keeps.getSome _ _) fun stop => ?_)
  exact Keeps.bind (ensureSplit_dead pid _ _) fun _ => getProcess_dead_keeps pid _

/-- `mprotect` keeps the ledgers to the processes that are there. -/
theorem doMprotect_ledgersOk (addr len prot : Nat) :
    Keeps World.LedgersOk (doMprotect pid addr len prot) := by
  refine ledgersOk_of_live pid (doMprotect_frames pid _ _ _).keepsProp ?_
  refine Keeps.ite (Keeps.pure _) (Keeps.bind (Keeps.getSome _ _) fun last => ?_)
  exact Keeps.bind (ensureSplit_dead pid _ _) fun _ => getProcess_dead_keeps pid _

/-- `mremap` keeps the ledgers to the processes that are there. -/
theorem doMremap_ledgersOk (oldAddr oldSize newSize flags newAddr : Nat) :
    Keeps World.LedgersOk (doMremap pid oldAddr oldSize newSize flags newAddr) := by
  refine ledgersOk_of_live pid (doMremap_frames pid _ _ _ _ _).keepsProp ?_
  refine Keeps.ite (Keeps.throw _) (Keeps.ite (Keeps.throw _) ?_)
  exact Keeps.bind (Keeps.getSome _ _) fun _ => Keeps.bind (Keeps.getSome _ _) fun _ =>
    getProcess_dead_keeps pid _

/-- `execve` keeps the ledgers to the processes that are there. -/
theorem doExecve_ledgersOk (path : String) (argv envp : List String) :
    Keeps World.LedgersOk (doExecve pid path argv envp) := by
  refine ledgersOk_of_live pid (doExecve_keeps_blind pid path argv envp) ?_
  refine Keeps.bind readExecImageFromFs_frames.keepsProp fun d =>
    Keeps.ite (Keeps.throw _) (Keeps.ite (Keeps.throw _) (Triple.keeps ?_))
  -- the image of a process that is gone is not replaced
  have hreplace : Triple (World.Ledgers (LedgerView.OkWithout pid)) (replaceImage pid)
      (fun _ _ => False) (fun _ => World.Ledgers (LedgerView.OkWithout pid)) :=
    getProcess_dead pid _
  exact Triple.bind hreplace fun _ => fun _ h => h.elim

/-- `execve` of a process keeps the ledgers to the processes that are there. -/
theorem doExecveUser_ledgersOk (filename argv envp : Nat) :
    Keeps World.LedgersOk (doExecveUser pid filename argv envp) :=
  Keeps.bind (parseExecveUserInput_keeps (GrowKeeps.grow _) _ _ _) fun _ =>
    doExecve_ledgersOk pid _ _ _

/-! ### The end of a process -/

/-- The ledger of the process is taken before its record is removed. -/
theorem releaseProcess_ledgersOk (task : TaskStruct) :
    Triple (World.Ledgers (LedgerView.OkWith [pid])) (releaseProcess pid task)
      (fun _ => World.LedgersOk) fun _ => World.LedgersOk := by
  -- up to here the process may have a ledger without being there
  let J : World → Prop := World.Ledgers (LedgerView.OkWith [pid])
  have hstep : ∀ {c : M Unit}, Keeps J c → Triple J c (fun _ => J) fun _ => World.LedgersOk :=
    fun h => h.triple.imp (fun _ hw => hw) (fun _ _ hw => hw) fun _ _ hw => hw.1
  refine Triple.bind (hstep (modifyState_keeps pid fun _ => .exiting)) fun _ => ?_
  refine Triple.bind (hstep (Keeps.forEach fun fd =>
    Keeps.ignore (doClose_keeps pid fd))) fun _ => ?_
  refine Triple.bind (hstep (unmapAll_frames pid _).keepsProp) fun _ => ?_
  refine Triple.bind (hstep (releaseAllFrames_frames pid _).keepsProp) fun _ => ?_
  refine Triple.bind (hstep (releaseCnode_keeps pid)) fun _ => ?_
  refine Triple.bind (hstep (killHostProcess_keeps pid)) fun _ => ?_
  refine Triple.bind (hstep (Keeps.ignore
    (releaseProcessIntermediatePageTables_frames pid).keepsProp))
    fun _ => ?_
  refine Triple.bind (hstep (dropWait4Reply_keeps pid)) fun _ => ?_
  refine Triple.bind (hstep (dropPendingSleepReply_keeps pid)) fun _ => ?_
  let Taken (w : World) : Prop := w.LedgersOk ∧ w.ledger.get? pid = none
  refine Triple.bind (R := fun _ => Taken) (Triple.modify fun w h => ⟨?_, ?_⟩)
    fun _ => Triple.modify ?_
  -- the ledger of the process is taken out before its record
  · intro q hq
    have hold : ((w.ledger.erase pid).get? q).isSome := hq
    rw [OrdMap.get?_erase] at hold
    split at hold
    · cases hold
    · exact h.1 q hold
  · exact OrdMap.get?_erase_self _ _
  · intro w h q hq
    have hold : (w.ledger.get? q).isSome := hq
    have hne : q ≠ pid := by
      intro heq
      rw [heq, h.2] at hold
      cases hold
    have hlive : (w.tasks.get? q).isSome := h.1 q hold
    show ((w.tasks.erase pid).get? q).isSome
    rw [OrdMap.get?_erase_ne _ hne]
    exact hlive

/-- The end of a process takes its ledger away. -/
theorem terminateProcess_ledgersOk (code : Nat) :
    Keeps World.LedgersOk (terminateProcess pid code) := by
  refine Triple.keeps (Triple.bind (getProcess_task pid) fun task => ?_)
  refine Triple.bind (R := fun _ => World.LedgersOk) ((releaseProcess_ledgersOk pid task).pre
    fun w h => ⟨h.1, ?_⟩) fun _ => Keeps.triple ?_
  · intro q hq
    rw [List.mem_singleton.mp hq]
    show (w.task? pid).isSome
    rw [h.2]
    rfl
  refine Keeps.bind (noteStale_keeps _) fun _ => Keeps.bind (emit_terminated_keeps _ _) fun _ =>
    Keeps.bind (notifyParent_keeps _ _ _ _) fun _ => ?_
  refine Keeps.ite (Keeps.bind (fun _ h => h) fun _ => Keeps.throw _) ?_
  exact Keeps.bind (Keeps.gets _) fun caller => Keeps.when (Keeps.throw _)

/-- A fault keeps the ledgers to the processes that are there. -/
theorem pageFault_ledgersOk (addr : Nat) (cause : FaultCause) :
    Keeps World.LedgersOk (pageFault pid addr cause) := by
  intro w hw
  cases hpid : w.live pid with
  | true =>
    have hstart : World.Ledgers (LedgerView.OkWith [pid]) w :=
      ⟨hw, fun q hq => (List.mem_singleton.mp hq) ▸ hpid⟩
    refine (pageFault_of_blind pid (fun _ h => h.1) (fun code => ?_) addr cause).ends hstart
    exact (terminateProcess_ledgersOk pid code).triple.pre fun _ h => h.1
  | false =>
    have hstart : World.Ledgers (LedgerView.OkWithout pid) w := ⟨hw, hpid⟩
    exact (getProcess_dead_keeps pid _ w hstart).1

/-! ### A new process -/

/-- A new process has no ledger. -/
theorem registerProcess_ledgersOk (parentPid hostPid cnode : Nat) :
    Triple World.LedgersOk (registerProcess parentPid hostPid cnode)
      (fun child => World.Ledgers (LedgerView.OkWith [child])) fun _ => World.LedgersOk := by
  intro w hw
  refine ⟨?_, fun e he => by cases he⟩
  intro child hchild
  have hchild' : w.nextPid = child := by injection hchild
  subst hchild'
  have hlive : ∀ q, (World.live q ((registerProcess parentPid hostPid cnode).run w).2)
      -- the new process is there, and the others as before
      = (decide (q = w.nextPid) || w.live q) := by
    intro q
    show ((w.tasks.insert w.nextPid _).get? q).isSome = _
    rw [OrdMap.get?_insert]
    by_cases hq : q = w.nextPid
    · rw [if_pos hq, decide_eq_true hq]
      rfl
    · rw [if_neg hq, decide_eq_false hq]
      rfl
  constructor
  · intro q hq
    have hold : ((w.ledger.erase w.nextPid).get? q).isSome := hq
    rw [OrdMap.get?_erase] at hold
    split at hold
    · cases hold
    · refine (hlive q).trans ?_
      rw [show w.live q = true from hw q hold, Bool.or_true]
  · intro q hq
    refine (hlive q).trans ?_
    rw [List.mem_singleton.mp hq, decide_eq_true rfl, Bool.true_or]

/-- `fork` keeps the ledgers to the processes that are there, also when it is undone. -/
theorem doFork_ledgersOk : Keeps World.LedgersOk (doFork pid) := by
  refine Keeps.bind (by simp) fun host => Keeps.bind (by simp) fun cnode => ?_
  refine Keeps.bind (by simp) fun _ => Triple.keeps ?_
  refine Triple.bind (registerProcess_ledgersOk _ _ _) fun child => ?_
  let J : World → Prop := World.Ledgers (LedgerView.OkWith [pid, child])
  refine Triple.bind (R := fun _ => J) ?_ ?_
  -- the parent is there when its record is read, and both stay there
  · refine (getProcess_task pid).imp (fun _ h => h) (fun t w h => ⟨h.1.1, ?_⟩) fun _ _ h => h.1
    intro q hq
    rcases List.mem_cons.mp hq with rfl | hq
    · show (w.task? q).isSome
      rw [h.2]
      rfl
    · exact h.1.2 q hq
  intro parent
  have hstep : ∀ {α : Type} {c : M α}, Keeps J c →
      Triple J c (fun _ => J) fun _ => World.LedgersOk :=
    fun h => h.triple.imp (fun _ hw => hw) (fun _ _ hw => hw) fun _ _ hw => hw.1
  have hinherit : ∀ w, J w → J (w.inherited child parent pid) := by
    intro w h
    show LedgerView.OkWith [pid, child] (w.modifyTask child (·.inherit parent)).ledgerView
    rw [World.ledgerView_modifyTask]
    exact h
  -- what follows touches neither ledgers nor the table of processes
  refine Triple.bind (hstep (forkMaps_frames pid child _ _).keepsProp) fun _ => ?_
  refine Triple.bind (hstep (getProcess_keeps _)) fun _ => ?_
  refine Triple.bind (hstep hinherit) fun _ => ?_
  refine Triple.pre (Keeps.triple ?_) fun w h => h.1
  refine Keeps.bind (Keeps.when (ForkStopKeeps.fork _ _)) fun _ => Keeps.bind (by simp) fun _ => ?_
  refine Keeps.bind (by simp) fun _ => Keeps.bind (by simp) fun _ => ?_
  exact Keeps.bind (by simp) fun _ => by simp

end Calls

/-! ### Runs -/

/-- Every request keeps the ledgers in order. -/
theorem dispatch_ledgersOk (r : Request) : Keeps World.LedgersOk (dispatch r) := by
  have hmap : ∀ {α : Type} {c : M α} {f : α → Int}, Keeps World.LedgersOk c →
      Keeps World.LedgersOk (do return f (← c)) := fun h => Keeps.bind h fun _ => Keeps.pure _
  intro w hw
  refine dispatch_keeps_at terminateProcess_ledgersOk r hw (fun pid sys _ hsys => ?_)
    fun pid addr cause _ => pageFault_ledgersOk pid addr cause _ hw
  cases sys with
  | clone =>
    refine Keeps.ite (Keeps.pure _) (Keeps.bind (doFork_ledgersOk _) fun child => ?_) _ hw
    exact Keeps.bind (by simp) fun _ => Keeps.bind (by simp) fun _ => Keeps.pure _
  | brk => exact hmap (doBrk_frames _ _).keepsProp _ hw
  | mmap => exact hmap (doMmap_ledgersOk _ _ _ _ _ _ _) _ hw
  | munmap => exact hmap (f := fun _ => 0) (doMunmap_ledgersOk _ _ _) _ hw
  | mprotect => exact hmap (f := fun _ => 0) (doMprotect_ledgersOk _ _ _ _) _ hw
  | mremap => exact hmap (doMremap_ledgersOk _ _ _ _ _ _) _ hw
  | execve => exact hmap (f := fun _ => 0) (doExecveUser_ledgersOk _ _ _ _) _ hw
  | _ => cases hsys

/-- A pid with a ledger is in the process table, in every state of a run. -/
theorem Reachable.ledgersOk {w : World} (h : Reachable w) : w.LedgersOk := by
  refine Reachable.invariant (I := World.LedgersOk) ?_ ?_ w h
  -- at the start there is no ledger at all
  · intro w w' path hi hr
    have hstart : w.LedgersOk := by
      intro pid hpid
      have hsome : (w.ledger.get? pid).isSome := hpid
      rw [hi.noLedger] at hsome
      cases hsome
    have hload : Triple World.LedgersOk (loadInit path) (fun _ => World.LedgersOk)
        fun _ => World.LedgersOk := by
      refine Triple.bind (Keeps.triple (by simp)) fun host =>
        Triple.bind (Keeps.triple (by simp)) fun cnode =>
          Triple.bind (Keeps.triple (by simp)) fun _ =>
          Triple.bind (registerProcess_ledgersOk _ _ _) fun pid => ?_
      refine Triple.pre (Keeps.triple (Keeps.bind (Keeps.gets _) fun term => ?_)) fun w h => h.1
      refine Keeps.bind (Keeps.whenSome fun t => openStdio_keeps pid t) fun _ => ?_
      exact Keeps.bind (doExecve_ledgersOk pid _ _ _) fun _ => Keeps.bind (by simp) fun _ => by simp
    have hend := hload.ends hstart
    rwa [hr] at hend
  · intro w r w' _ hw hs
    rw [← hs.2]
    exact dispatch_ledgersOk r w hw

end Ape
