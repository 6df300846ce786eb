import Ape.Model.Kernel

/-!
# `Ape.Model.State`: the tables of the task subsystem

The operations of `ape/state.rs` on `ApeTaskState`, the wrappers of `ape/mod.rs` around
them, and the reservation of reply slots: frame reference counters, process records, child
events and deferred `wait4` replies.
-/

set_option autoImplicit false

namespace Ape

open Ape.Lib Cmd

/-! ### Frame reference counters -/

/-- `retain_frame_cap`. A counter is bounded by the number of processes, so the saturating
addition of the source is `+ 1`. -/
def retainFrameCap (slot : Nat) : M Unit := modify fun w => { w with
  frameCapRefs := fun s => if s = slot then some (w.refsOf slot + 1) else w.frameCapRefs s }

/-- `release_frame_cap`: whether the caller has to free the frame. -/
def releaseFrameCap (slot : Nat) : M Bool := do
  let count ← gets (·.frameCapRefs slot)
  match count with
  | none => pure true
  | some n =>
    if 1 < n then do
      modify fun w => { w with
        frameCapRefs := fun s => if s = slot then some (n - 1) else w.frameCapRefs s }
      pure false
    else do
      modify fun w => { w with
        frameCapRefs := fun s => if s = slot then none else w.frameCapRefs s }
      pure true

/-- The ledger of a process, empty when there is none. -/
def World.ledgerOf (w : World) (pid : Nat) : ProcessLedger := (w.ledger.get? pid).getD ⟨∅, ∅⟩

/-- Change the ledger of a process, `entry(pid).or_default()`. -/
def modifyLedger (pid : Nat) (f : ProcessLedger → ProcessLedger) : M Unit := modify fun w =>
  { w with ledger := w.ledger.insert pid (f (w.ledgerOf pid)) }

/-- `ledger_record_frame_alloc`. -/
def ledgerRecordFrameAlloc (pid slot : Nat) : M Unit :=
  modifyLedger pid fun l => { l with liveFrames := insert slot l.liveFrames }

/-- `ledger_record_frame_free`. -/
def ledgerRecordFrameFree (pid slot : Nat) : M Unit :=
  modifyLedger pid fun l => { l with liveFrames := l.liveFrames.erase slot }

/-- `ledger_record_pagetable_alloc`. -/
def ledgerRecordPagetableAlloc (pid slot : Nat) : M Unit :=
  modifyLedger pid fun l => { l with livePagetables := insert slot l.livePagetables }

/-- `ledger_record_pagetable_free`. -/
def ledgerRecordPagetableFree (pid slot : Nat) : M Unit :=
  modifyLedger pid fun l => { l with livePagetables := l.livePagetables.erase slot }

/-- `ledger_take_process`. -/
def ledgerTakeProcess (pid : Nat) : M Unit := modify fun w =>
  { w with ledger := w.ledger.erase pid }

/-- `release_process_frame_slot`. -/
def releaseProcessFrameSlot (pid slot : Nat) : M Unit := do
  let last ← releaseFrameCap slot
  when last do
    freeFrame slot
    ledgerRecordFrameFree pid slot

/-! ### Process records -/

/-- `MmStruct::new`. -/
def MmStruct.new (l : Layout) : MmStruct where
  vspace := fun _ => none
  intermediatePageTables := OrdMap.empty
  state :=
    { memoryMaps := OrdMap.empty
      lazyMemoryMaps := OrdMap.empty
      stackBottom := l.stackBase
      stackSize := 0
      maxStackSize := DEFAULT_MAX_STACK_SIZE
      heapStart := l.heapVa
      heapBrk := l.heapVa
      heapLimit := l.heapLimit
      mmapBase := l.mmapBase
      mmapNext := l.mmapBase
      mmapLimit := l.mmapLimit }

/-- `SignalStruct::new`. -/
def SignalStruct.new : SignalStruct := ⟨0, 0, none, none, 0⟩

/-- `TaskStruct::new`. -/
def TaskStruct.new (l : Layout) (pid parentPid cspace : Nat) : TaskStruct where
  pid := pid
  parentPid := parentPid
  sessionId := pid
  processGroupId := pid
  controllingTty := 0
  cspace := cspace
  lifecycle := .running
  stopped := false
  mm := MmStruct.new l
  files := ⟨OrdMap.empty, OrdMap.empty, OrdMap.empty, 0⟩
  fs := ⟨"/", "/"⟩
  signalActions := OrdMap.empty
  signal := SignalStruct.new

/-- `pt_path_prefix`. -/
def ptPath (l : Layout) (vaddr level : Nat) : Nat := vaddr / 2 ^ (l.shifts.getD level 0)

/-- `seed_initial_pagetable_paths`: the paths that exist in a new address space are recorded
with a null capability. -/
def seedInitialPagetablePaths (l : Layout) (t : TaskStruct) : TaskStruct :=
  let keys := [l.trampolineVa, l.utcbVa, l.trapframeVa].flatMap fun vaddr =>
    (List.range l.shifts.length).tail.reverse.map fun level => toLex (level, ptPath l vaddr level)
  { t with mm := { t.mm with
      intermediatePageTables :=
        keys.foldl (fun m k => m.insert k 0) t.mm.intermediatePageTables } }

/-- The pids that were given out are in the word. -/
def World.PidsFit (w : World) : Prop := w.nextPid ≤ usizeMax

/-- `register_process`. The counter of `alloc_pid` stays at the end of the word, and this one goes
on: they are the same for as long as `World.PidsFit` holds. -/
def registerProcess (parentPid hostPid cnode : Nat) : M Nat := do
  let pid ← gets (·.nextPid)
  modify fun w => { w with
    nextPid := pid + 1
    tasks := w.tasks.insert pid
      (seedInitialPagetablePaths w.layout (TaskStruct.new w.layout pid parentPid cnode))
    hostPidMap := w.hostPidMap.insert hostPid pid
    lifecycle := w.lifecycle.insert pid ⟨parentPid, pid, .running, none⟩ }
  ledgerTakeProcess pid
  pure pid

/-- `host_pid_by_local`. -/
def World.hostPidByLocal (w : World) (pid : Nat) : Option Nat :=
  (w.hostPidMap.entries.find? fun e => e.2 = pid).map (·.1)

/-- `mark_stopped`. -/
def TaskStruct.markStopped (t : TaskStruct) : TaskStruct :=
  { t with stopped := true, lifecycle := .stopped }

/-- `mark_running`. -/
def TaskStruct.markRunning (t : TaskStruct) : TaskStruct :=
  { t with stopped := false, lifecycle := .running }

/-- Change the record of a process. -/
def modifyTask (pid : Nat) (f : TaskStruct → TaskStruct) : M Unit := modify (·.modifyTask pid f)

/-- `mark_stopped` or `mark_running` of a process. A change of the mark is logged. -/
def setStopped (pid : Nat) (stopped : Bool) : M Unit := do
  let task ← gets (·.task? pid)
  whenSome task fun t => when (t.stopped ≠ stopped) (logStop (.changed t.parentPid pid stopped))
  modifyTask pid fun t => if stopped then t.markStopped else t.markRunning

/-- `mark_process_exited`. -/
def markProcessExited (pid parentPid pgid waitStatus : Nat) : M Unit := modify fun w =>
  { w with lifecycle := w.lifecycle.insert pid ⟨parentPid, pgid, .exited, some waitStatus⟩ }

/-- `clear_process_lifecycle`. -/
def clearProcessLifecycle (pid : Nat) : M Unit := modify fun w =>
  { w with lifecycle := w.lifecycle.erase pid }

/-! ### Child events -/

/-- `WNOHANG`. -/
def WNOHANG : Nat := 1

/-- `WUNTRACED`. -/
def WUNTRACED : Nat := 2

/-- `WCONTINUED`. -/
def WCONTINUED : Nat := 8

/-- The queue of a parent, empty when there is none. -/
def World.eventsOf (w : World) (parentPid : Nat) : List ChildStateEvent :=
  (w.childEvents.get? parentPid).getD []

/-- Mark that a record of a dead process stays. -/
def noteStale (stale : World → Bool) : M Unit := modify fun w =>
  { w with staleRecords := w.staleRecords || stale w }

/-- The common part of `record_child_exit`, `record_child_stopped` and
`record_child_continued`:
`entry(parent_pid).or_default().push_back(event)`. -/
def recordChildEvent (parentPid : Nat) (e : ChildStateEvent) : M Unit := do
  noteStale fun w => (w.task? parentPid).isNone
  modify fun w =>
    { w with childEvents := w.childEvents.insert parentPid (w.eventsOf parentPid ++ [e]) }

/-- `record_child_exit`. -/
def recordChildExit (parentPid childPid waitStatus pgid : Nat) : M Unit :=
  recordChildEvent parentPid ⟨childPid, waitStatus, pgid, .exited⟩

/-- `matches_wait_target`. -/
def matchesWaitTarget (childPid childPgid : Nat) (target : Int) (callerPgid : Nat) : Bool :=
  if target = -1 then true
  else if 0 < target then (childPid : Int) = target
  else if target = 0 then childPgid = callerPgid
  else childPgid = target.natAbs

/-- `event_kind_enabled`. -/
def eventKindEnabled (kind : ChildStateEventKind) (options : Nat) : Bool :=
  match kind with
  | .exited => true
  | .stopped => options &&& WUNTRACED != 0
  | .continued => options &&& WCONTINUED != 0

/-- The test of `has_child_event_matching` and `pop_child_event_matching` on one event. -/
def eventMatches (target : Int) (options callerPgid : Nat) (e : ChildStateEvent) : Bool :=
  eventKindEnabled e.kind options
    && matchesWaitTarget e.childPid e.processGroupId target callerPgid

/-- Whether a deferred `wait4` of the parent accepts the event. -/
def World.waitAccepts (w : World) (parentPid : Nat) (e : ChildStateEvent) : Bool :=
  (w.pendingWaitReplies.get? parentPid).any fun p =>
    eventMatches p.targetPid p.options p.callerPgid e

/-- The common part of `record_child_stopped` and `record_child_continued`, whose callers do not
wake the parent. -/
def recordChildChange (parentPid : Nat) (e : ChildStateEvent) : M Unit := do
  modify fun w => { w with missedWake := w.missedWake || w.waitAccepts parentPid e }
  logStop (.reported parentPid e.childPid e.kind)
  recordChildEvent parentPid e

/-- `record_child_stopped`. -/
def recordChildStopped (parentPid childPid waitStatus pgid : Nat) : M Unit :=
  recordChildChange parentPid ⟨childPid, waitStatus, pgid, .stopped⟩

/-- `record_child_continued`. -/
def recordChildContinued (parentPid childPid pgid : Nat) : M Unit :=
  recordChildChange parentPid ⟨childPid, 0xffff, pgid, .continued⟩

/-- `has_child_event_matching`. -/
def World.hasChildEventMatching (w : World) (parentPid : Nat) (target : Int)
    (options callerPgid : Nat) : Bool :=
  (w.eventsOf parentPid).any (eventMatches target options callerPgid)

/-- `has_live_child_matching`. -/
def World.hasLiveChildMatching (w : World) (parentPid : Nat) (target : Int)
    (callerPgid : Nat) : Bool :=
  w.tasks.values.any fun t =>
    t.parentPid = parentPid && matchesWaitTarget t.pid t.processGroupId target callerPgid

/-- `has_waitable_child`. -/
def World.hasWaitableChild (w : World) (parentPid : Nat) (target : Int)
    (options callerPgid : Nat) : Bool :=
  w.hasLiveChildMatching parentPid target callerPgid
    || w.hasChildEventMatching parentPid target options callerPgid

/-- Record that an event was taken out of a queue, with the events that are left. -/
def noteWaited (e : ChildStateEvent) (rest : List ChildStateEvent) : M Unit :=
    modify fun w => { w with
  waited := e :: w.waited
  leftEvents := w.leftEvents
    || (decide (e.kind = .exited) && rest.any fun e' => e'.childPid = e.childPid) }

/-- Whether the event that was taken last is an exit. -/
def World.exitTaken (w : World) : Bool := w.waited.head?.any fun e => e.kind = .exited

/-- `pop_child_event_matching`: the first matching event, taken out of the queue. An empty
queue is dropped. -/
def popChildEventMatching (parentPid : Nat) (target : Int) (options callerPgid : Nat) :
    M (Option (Nat × Nat)) := do
  let queue ← gets (·.eventsOf parentPid)
  match queue.find? (eventMatches target options callerPgid) with
  | none => pure none
  | some e => do
    let rest := queue.eraseP (eventMatches target options callerPgid)
    modify fun w => { w with
      childEvents :=
        if rest.isEmpty then w.childEvents.erase parentPid
        else w.childEvents.insert parentPid rest }
    noteWaited e rest
    pure (some (e.childPid, e.waitStatus))

/-! ### Reply slots -/

/-- The loop of `reserve_pending_reply_slot`: a slot other than the one the reply arrived
in, with `n` tries. -/
def reserveSlot : Nat → M Nat
  | 0 => throw .outOfMemory
  | n + 1 => do
    let slot ← cspaceAlloc
    let src ← gets (·.replySlot)
    if slot = src then do
      cspaceFree slot
      reserveSlot n
    else pure slot

/-- `reserve_pending_reply_slot`. The source gives up at the 65th collision. -/
def reservePendingReplySlot : M Nat := do
  let src ← gets (·.replySlot)
  if src = 0 then throw .invalidCapability
  else do
    let slot ← reserveSlot 65
    onError (do let _ ← ext) fun _ => cspaceFree slot
    pure slot

/-- Send a deferred reply and free its slot. The outcome of the send is only logged. -/
def replyAndFree (slot : Nat) (value : Int) : M Unit := do
  emit (.replied slot value)
  cspaceFree slot

/-- `queue_wait4_reply`. -/
def queueWait4Reply (pid : Nat) (target : Int) (wstatus options callerPgid : Nat) : M Unit := do
  let busy ← gets fun w => w.pendingWaitReplies.contains pid
  if busy then throw .wouldBlock
  else do
    let slot ← reservePendingReplySlot
    modify fun w => { w with
      pendingWaitReplies :=
        w.pendingWaitReplies.insert pid ⟨slot, target, wstatus, options, callerPgid⟩ }

/-- `drop_wait4_reply`. -/
def dropWait4Reply (pid : Nat) : M Unit := do
  let pending ← gets (·.pendingWaitReplies.get? pid)
  whenSome pending fun p => do
    modify fun w => { w with pendingWaitReplies := w.pendingWaitReplies.erase pid }
    cspaceFree p.replySlot

/-- `drop_pending_sleep_reply`. -/
def dropPendingSleepReply (pid : Nat) : M Unit := do
  let pending ← gets (·.pendingSleepReplies.get? pid)
  whenSome pending fun p => do
    modify fun w => { w with pendingSleepReplies := w.pendingSleepReplies.erase pid }
    cspaceFree p.replySlot
    logSleep (.finished pid p.requestId p.replySlot)

end Ape
