import Ape.Proofs.UserCopy

/-!
# `Ape.Proofs.ProcessTable`: which processes there are

The keys of the process table. A change of a record leaves them alone, so most commands do
not touch them. `PidsBelow` says that the next pid is not in use. It holds in every run.
-/

set_option autoImplicit false

namespace Ape

open Ape.Lib Cmd

/-! ### Calls to a service -/

/-- A call that is refused, or whose slot is not free, gives no slot. -/
theorem run_cspaceAlloc_error {w : World}
    (h : (w.env w.tick).err ≠ none ∨ ¬ w.SlotFree (w.env w.tick).val) :
    ∃ e, cspaceAlloc.run w = (.error e, { w with tick := w.tick + 1, refused := true }) := by
  cases herr : (w.env w.tick).err with
  | some e => exact ⟨e, run_bind_error (run_ext_error herr)⟩
  | none =>
    have hfree : ¬ w.SlotFree (w.env w.tick).val := h.resolve_left fun hne => hne herr
    have hfree' : ¬ World.SlotFree { w with tick := w.tick + 1 } (w.env w.tick).val := hfree
    refine ⟨.outOfMemory, ?_⟩
    rw [cspaceAlloc, run_bind_ok (run_ext_ok herr), run_gets_bind, decide_eq_false hfree']
    rfl

/-- A call with a free slot gives it. -/
theorem run_cspaceAlloc_ok {w : World} (herr : (w.env w.tick).err = none)
    (hfree : w.SlotFree (w.env w.tick).val) :
    cspaceAlloc.run w = (.ok (w.env w.tick).val,
      { w with tick := w.tick + 1, slots := insert (w.env w.tick).val w.slots }) := by
  have hfree' : World.SlotFree { w with tick := w.tick + 1 } (w.env w.tick).val := hfree
  rw [cspaceAlloc, run_bind_ok (run_ext_ok herr), run_gets_bind, decide_eq_true hfree']
  rfl

/-! ### The keys of the table -/

/-- Whether there is a process `pid`. -/
def World.live (pid : Nat) (w : World) : Bool := (w.task? pid).isSome

/-- A change of a record leaves the processes there. -/
theorem World.live_modifyTask (w : World) (pid q : Nat) (f : TaskStruct → TaskStruct) :
    (w.modifyTask pid f).live q = w.live q := by
  rw [World.live, World.live, World.task?, World.modifyTask, OrdMap.get?_modify]
  split
  · rw [Option.isSome_map]
    rfl
  · rfl

instance (pid : Nat) : BlindMemory (World.live pid) where
  tick _ _ := rfl
  slots _ _ := rfl
  ledger _ _ := rfl
  vspace w p _ := w.live_modifyTask p pid _
  tables w p _ := w.live_modifyTask p pid _
  scratch _ _ _ := rfl
  writeFrame _ _ _ := rfl
  frames _ _ _ := rfl
  refs _ _ := rfl
  doubleFree _ _ := rfl
  mm w p _ := w.live_modifyTask p pid _
  fileMapLog _ _ := rfl

instance (pid : Nat) : BlindControl (World.live pid) where
  tick _ _ := rfl
  slots _ _ := rfl
  trace _ _ := rfl
  signal w p _ := w.live_modifyTask p pid _
  dropped _ _ := rfl
  missedIntr _ _ := rfl
  record w p _ _ := w.live_modifyTask p pid _
  hostPidMap _ _ := rfl
  stale _ _ := rfl
  stopLog _ _ := rfl
  stopSkewed _ _ := rfl
  childEvents _ _ := rfl
  pendingWaits _ _ := rfl
  lifecycle _ _ := rfl
  missedWake _ _ := rfl
  waited _ _ := rfl
  leftEvents _ _ := rfl
  pendingSleeps _ _ := rfl
  requestId _ _ := rfl
  idSaturated _ _ := rfl
  sleepLog _ _ := rfl
  caller _ _ := rfl

instance (pid : Nat) : BlindFiles (World.live pid) where
  files w p _ := w.live_modifyTask p pid _
  cloexecLog _ _ := rfl
  positionSplit _ _ := rfl
  endpoints _ _ := rfl
  doubleClose _ _ := rfl
  asyncFree _ _ := rfl
  asyncRegions _ _ := rfl
  asyncVaddr _ _ := rfl
  iouring _ _ := rfl
  fdOverflow _ _ := rfl
  earlyRecycle _ _ := rfl

/-- The release of a process ends with the removal of its record. -/
theorem releaseProcess_gone (pid : Nat) (t : TaskStruct) {E : Err → World → Prop} :
    Triple (fun _ => True) (releaseProcess pid t) (fun _ w => w.live pid = false) E := by
  refine (releaseProcess_total pid t).triple (E := fun _ _ => True) ?_
  unfold releaseProcess
  iterate 10 refine Triple.bind (triple_true _) fun _ => ?_
  refine Triple.modify fun w _ => ?_
  show (World.task? { w with tasks := w.tasks.erase pid } pid).isSome = false
  rw [World.task?, OrdMap.get?_erase_self]
  rfl

/-- A process that `terminate_process` was called for is gone, whatever the call returns. -/
theorem terminateProcess_gone (pid code : Nat) (w : World) :
    ((terminateProcess pid code).run w).2.live pid = false := by
  let Gone (w : World) : Prop := w.live pid = false
  refine Triple.ends (P := fun _ => True) (R := Gone) ?_ trivial
  unfold terminateProcess
  refine Triple.bind (R := fun _ _ => True) (fun w _ => ⟨fun _ _ => trivial, ?_⟩) ?_
  · -- no process is found when there is none
    intro e he
    cases htask : w.task? pid with
    | none =>
      show World.live pid ((getProcess pid).run w).2 = false
      rw [getProcess_frames (V := World.live pid) pid w, World.live, htask]
      rfl
    | some t => simp [getProcess, run_gets_bind, htask, Cmd.getSome] at he
  intro t
  refine Triple.bind (R := fun _ => Gone) (releaseProcess_gone pid t) fun _ => Keeps.triple ?_
  refine Keeps.bind (noteStale_keeps _) fun _ => Keeps.bind (emit_terminated_keeps _ _) fun _ =>
    Keeps.bind (NotifyKeeps.notify _ _ _ _) fun _ => ?_
  refine Keeps.ite (Keeps.bind (fun _ h => h) fun _ => Keeps.throw _) ?_
  exact Keeps.bind (Keeps.gets _) fun caller => Keeps.when (Keeps.throw _)

/-- Every pid in use is below the next one. -/
def World.PidsBelow (w : World) : Prop := ∀ pid, w.live pid → pid < w.nextPid

/-- A change of a record leaves the pids alone. -/
theorem World.pidsBelow_modifyTask (w : World) (pid : Nat) (f : TaskStruct → TaskStruct) :
    (w.modifyTask pid f).PidsBelow = w.PidsBelow := by
  unfold World.PidsBelow
  simp only [World.live_modifyTask]
  rfl

instance : BlindControl World.PidsBelow where
  tick _ _ := rfl
  slots _ _ := rfl
  trace _ _ := rfl
  signal w pid _ := w.pidsBelow_modifyTask pid _
  dropped _ _ := rfl
  missedIntr _ _ := rfl
  record w pid _ _ := w.pidsBelow_modifyTask pid _
  hostPidMap _ _ := rfl
  stale _ _ := rfl
  stopLog _ _ := rfl
  stopSkewed _ _ := rfl
  childEvents _ _ := rfl
  pendingWaits _ _ := rfl
  lifecycle _ _ := rfl
  missedWake _ _ := rfl
  waited _ _ := rfl
  leftEvents _ _ := rfl
  pendingSleeps _ _ := rfl
  requestId _ _ := rfl
  idSaturated _ _ := rfl
  sleepLog _ _ := rfl
  caller _ _ := rfl

instance : BlindFiles World.PidsBelow where
  files w pid _ := w.pidsBelow_modifyTask pid _
  cloexecLog _ _ := rfl
  positionSplit _ _ := rfl
  endpoints _ _ := rfl
  doubleClose _ _ := rfl
  asyncFree _ _ := rfl
  asyncRegions _ _ := rfl
  asyncVaddr _ _ := rfl
  iouring _ _ := rfl
  fdOverflow _ _ := rfl
  earlyRecycle _ _ := rfl

instance : BlindMemory World.PidsBelow where
  ledger _ _ := rfl
  vspace w pid _ := w.pidsBelow_modifyTask pid _
  tables w pid _ := w.pidsBelow_modifyTask pid _
  scratch _ _ _ := rfl
  writeFrame _ _ _ := rfl
  frames _ _ _ := rfl
  refs _ _ := rfl
  doubleFree _ _ := rfl
  mm w pid _ := w.pidsBelow_modifyTask pid _
  fileMapLog _ _ := rfl

instance : ProcessKeeps World.PidsBelow where
  erase w pid h _ q hq := by
    have hget : (w.tasks.erase pid).get? q ≠ none := Option.isSome_iff_ne_none.mp hq
    refine h q (Option.isSome_iff_ne_none.mpr fun hnone => hget ?_)
    rw [OrdMap.get?_erase]
    split
    · rfl
    · exact hnone
  register w parentPid cnode h q hq := by
    show q < w.nextPid + 1
    by_cases heq : q = w.nextPid
    · omega
    · have hget : (w.registered parentPid cnode).task? q = w.task? q :=
        OrdMap.get?_insert_ne _ _ heq
      have := h q (by rw [World.live, hget] at hq; exact hq)
      omega
  inherit w child parent _ h _ := (w.pidsBelow_modifyTask child _).mpr h
  panicked _ _ h := h

/-- In every reachable state the numbers of processes are below the next one. -/
theorem Reachable.pidsBelow {w : World} (h : Reachable w) : w.PidsBelow := by
  refine Reachable.invariant ?_ ?_ w h
  · intro w w' path hi hr
    have hinit : w.PidsBelow := fun pid hpid => by simp [World.live, World.task?,
      hi.noTasks] at hpid
    have := loadInit_keeps_blind (I := World.PidsBelow) path w hinit
    rwa [hr] at this
  · intro w r w' _ hw hs
    rw [← hs.2]
    exact dispatch_keeps_blind r w hw

/-- The next pid is not in use. -/
theorem Reachable.next_not_live {w : World} (h : Reachable w) : w.live w.nextPid = false := by
  by_contra hlive
  exact absurd (h.pidsBelow w.nextPid (by simpa using hlive)) (lt_irrefl _)

/-! ### The bound on the pids -/

/-- At least `n` is the next pid. -/
def World.PidsFrom (n : Nat) (w : World) : Prop := n ≤ w.nextPid

section From

variable (n : Nat)

instance : BlindControl (World.PidsFrom n) where
  tick _ _ := rfl
  slots _ _ := rfl
  trace _ _ := rfl
  signal _ _ _ := rfl
  dropped _ _ := rfl
  missedIntr _ _ := rfl
  record _ _ _ _ := rfl
  hostPidMap _ _ := rfl
  stale _ _ := rfl
  stopLog _ _ := rfl
  stopSkewed _ _ := rfl
  childEvents _ _ := rfl
  pendingWaits _ _ := rfl
  lifecycle _ _ := rfl
  missedWake _ _ := rfl
  waited _ _ := rfl
  leftEvents _ _ := rfl
  pendingSleeps _ _ := rfl
  requestId _ _ := rfl
  idSaturated _ _ := rfl
  sleepLog _ _ := rfl
  caller _ _ := rfl

instance : BlindFiles (World.PidsFrom n) where
  files _ _ _ := rfl
  cloexecLog _ _ := rfl
  positionSplit _ _ := rfl
  endpoints _ _ := rfl
  doubleClose _ _ := rfl
  asyncFree _ _ := rfl
  asyncRegions _ _ := rfl
  asyncVaddr _ _ := rfl
  iouring _ _ := rfl
  fdOverflow _ _ := rfl
  earlyRecycle _ _ := rfl

instance : BlindMemory (World.PidsFrom n) where
  ledger _ _ := rfl
  vspace _ _ _ := rfl
  tables _ _ _ := rfl
  scratch _ _ _ := rfl
  writeFrame _ _ _ := rfl
  frames _ _ _ := rfl
  refs _ _ := rfl
  doubleFree _ _ := rfl
  mm _ _ _ := rfl
  fileMapLog _ _ := rfl

/-- A new process takes the next pid, and no pid is given back. -/
instance : ProcessKeeps (World.PidsFrom n) where
  erase _ _ h _ := h
  register _ _ _ h := Nat.le_succ_of_le h
  inherit _ _ _ _ h _ := h
  panicked _ _ h := h

end From

/-- As long as the pids are in the word, the next one is that of `alloc_pid`. -/
theorem World.PidsFit.registered {w : World} {parentPid cnode : Nat}
    (h : (w.registered parentPid cnode).PidsFit) :
    (w.registered parentPid cnode).nextPid = satAdd w.nextPid 1 := by
  have hfit : w.nextPid + 1 ≤ usizeMax := h
  exact (min_eq_left hfit).symm

/-- When the pids are in the word after a request, they were before it: in a run that ends so, every
pid is the one that `alloc_pid` gave out. -/
theorem World.PidsFit.before {w : World} {r : Request} (h : ((dispatch r).run w).2.PidsFit) :
    w.PidsFit := by
  have hgrows : w.nextPid ≤ ((dispatch r).run w).2.nextPid :=
    dispatch_keeps_blind (I := World.PidsFrom w.nextPid) r w le_rfl
  exact hgrows.trans h

end Ape
