import Ape.Proofs.FrameRuns

/-!
# `Ape.Proofs.Waits`: deferred `wait4` replies and child events

A parent whose `wait4` finds no event waits in `pending_wait4_replies`. The exit of a child records
an event and then tries to wake the parent. A stop and a continuation only record it.

`World.WaitsOk` says that a parent that waits has no event in its queue that its request accepts.
It holds at every request boundary of a run in which no stop and no continuation was recorded for a
parent whose deferred request accepts it. The mark `missedWake` is set by such a step.
-/

set_option autoImplicit false

namespace Ape

open Ape.Lib Cmd

/-! ### The queues and the replies -/

/-- What the server knows about parents that wait. -/
structure WaitView where
  pending : OrdMap Nat PendingWaitReply
  events : Nat → List ChildStateEvent
  missed : Bool

/-- The waiting parents of the server. -/
def World.waits (w : World) : WaitView := ⟨w.pendingWaitReplies, w.eventsOf, w.missedWake⟩

/-- A request accepts an event of a queue. -/
def PendingWaitReply.accepts (p : PendingWaitReply) (e : ChildStateEvent) : Bool :=
  eventMatches p.targetPid p.options p.callerPgid e

namespace WaitView

/-- A parent other than `except` that waits has no event that its request accepts, unless a wake
was missed. -/
def Ok (except : Option Nat) (v : WaitView) : Prop :=
  v.missed = false → ∀ pid p, some pid ≠ except → v.pending.get? pid = some p →
    (v.events pid).any p.accepts = false

/-- The queues with one of them replaced. -/
def setEvents (v : WaitView) (pid : Nat) (queue : List ChildStateEvent) : WaitView :=
  { v with events := fun q => if q = pid then queue else v.events q }

/-- One process may be excepted. -/
theorem Ok.weaken {v : WaitView} (h : v.Ok none) (except : Option Nat) : v.Ok except :=
  fun hm pid p _ => h hm pid p (by simp)

/-- A queue that gets smaller. -/
theorem Ok.shrink {v : WaitView} {except : Option Nat} (h : v.Ok except) {pid : Nat}
    {queue : List ChildStateEvent} (hsub : ∀ e ∈ queue, e ∈ v.events pid) :
    (v.setEvents pid queue).Ok except := by
  intro hm q p hq hp
  have hold := h hm q p hq hp
  simp only [setEvents]
  split
  · rename_i heq
    subst heq
    rw [List.any_eq_false] at hold ⊢
    exact fun e he => hold e (hsub e he)
  · exact hold

/-- A parent that stops waiting needs no exception. -/
theorem Ok.erase {v : WaitView} {pid : Nat} (h : v.Ok (some pid)) :
    ({ v with pending := v.pending.erase pid } : WaitView).Ok none := by
  intro hm q p _ hp
  by_cases hq : q = pid
  · rw [hq, OrdMap.get?_erase_self] at hp
    cases hp
  · rw [OrdMap.get?_erase_ne _ hq] at hp
    exact h hm q p (fun heq => hq (by injection heq)) hp

/-- A parent starts to wait when its queue has no event that its request accepts. -/
theorem Ok.insert {v : WaitView} (h : v.Ok none) {pid : Nat} {p : PendingWaitReply}
    (hp : (v.events pid).any p.accepts = false) :
    ({ v with pending := v.pending.insert pid p } : WaitView).Ok none := by
  intro hm q p' _ hp'
  by_cases hq : q = pid
  · subst hq
    rw [OrdMap.get?_insert_self] at hp'
    cases hp'
    exact hp
  · rw [OrdMap.get?_insert_ne _ _ hq] at hp'
    exact h hm q p' (by simp) hp'

/-- The exception ends when the queue of the parent has no event that its request accepts. -/
theorem Ok.settle {v : WaitView} {pid : Nat} (h : v.Ok (some pid))
    (hp : ∀ p, v.pending.get? pid = some p → (v.events pid).any p.accepts = false) : v.Ok none := by
  intro hm q p _ hq
  by_cases heq : q = pid
  · subst heq
    exact hp p hq
  · exact h hm q p (fun hsome => heq (by injection hsome)) hq

end WaitView

/-! ### What the view does not see -/

/-- No parent waits for an event it has, unless a wake was missed. -/
def World.WaitsOk (w : World) : Prop := w.waits.Ok none

instance : BlindSlots World.waits where
  tick _ _ := rfl
  slots _ _ := rfl
  ledger _ _ := rfl

instance : BlindTrace World.waits := ⟨fun _ _ => rfl⟩

instance : BlindSignals World.waits := ⟨fun _ _ _ => rfl, fun _ _ => rfl, fun _ _ => rfl⟩

instance : BlindRecords World.waits where
  hostPidMap _ _ := rfl
  stale _ _ := rfl
  record _ _ _ _ := rfl
  stopLog _ _ := rfl
  stopSkewed _ _ := rfl

instance : BlindSleeps World.waits :=
  ⟨fun _ _ => rfl, fun _ _ => rfl, fun _ _ => rfl, fun _ _ => rfl⟩

instance : BlindCaller World.waits := ⟨fun _ _ => rfl⟩

instance : BlindFiles World.waits where
  cloexecLog _ _ := rfl
  positionSplit _ _ := rfl
  endpoints _ _ := rfl
  doubleClose _ _ := rfl
  asyncFree _ _ := rfl
  asyncRegions _ _ := rfl
  asyncVaddr _ _ := rfl
  iouring _ _ := rfl
  fdOverflow _ _ := rfl
  earlyRecycle _ _ := rfl
  files _ _ _ := rfl

instance : BlindMemory World.waits where
  vspace _ _ _ := rfl
  tables _ _ _ := rfl
  scratch _ _ _ := rfl
  writeFrame _ _ _ := rfl
  frames _ _ _ := rfl
  refs _ _ := rfl
  doubleFree _ _ := rfl
  mm _ _ _ := rfl
  fileMapLog _ _ := rfl

instance : BlindSlots World.WaitsOk := BlindSlots.comp (V := World.waits) _ inferInstance

instance : BlindTrace World.WaitsOk := BlindTrace.comp (V := World.waits) _ inferInstance

instance : BlindSignals World.WaitsOk := BlindSignals.comp (V := World.waits) _ inferInstance

instance : BlindRecords World.WaitsOk := BlindRecords.comp (V := World.waits) _ inferInstance

instance : BlindSleeps World.WaitsOk := BlindSleeps.comp (V := World.waits) _ inferInstance

instance : BlindCaller World.WaitsOk := BlindCaller.comp (V := World.waits) _ inferInstance

instance : BlindFiles World.WaitsOk := BlindFiles.comp (V := World.waits) _ inferInstance

instance : BlindMemory World.WaitsOk := BlindMemory.comp (V := World.waits) _ inferInstance

instance : BlindProcesses World.WaitsOk :=
  ⟨fun _ _ => rfl, fun _ _ => rfl, fun _ _ => rfl, fun _ _ => rfl, fun _ _ => rfl⟩

/-! ### Events -/

/-- The state with another queue for a parent. An empty queue is dropped. -/
def World.withEvents (w : World) (pid : Nat) (queue : List ChildStateEvent) : World :=
  { w with
    childEvents := if queue.isEmpty then w.childEvents.erase pid
      else w.childEvents.insert pid queue }

/-- The queue that was set is that of its process. -/
theorem World.eventsOf_withEvents (w : World) (pid q : Nat) (queue : List ChildStateEvent) :
    (w.withEvents pid queue).eventsOf q = if q = pid then queue else w.eventsOf q := by
  unfold World.eventsOf World.withEvents
  dsimp only
  by_cases hempty : queue.isEmpty
  · rw [if_pos hempty, OrdMap.get?_erase]
    split
    · rw [List.isEmpty_iff.mp hempty]
      rfl
    · rfl
  · rw [if_neg hempty, OrdMap.get?_insert]
    split <;> rfl

/-- A queue that is set shows in the view of waits. -/
theorem World.waits_withEvents (w : World) (pid : Nat) (queue : List ChildStateEvent) :
    (w.withEvents pid queue).waits = w.waits.setEvents pid queue :=
  congrArg (WaitView.mk _ · _) (funext fun q => w.eventsOf_withEvents pid q queue)

/-- The state after an event was taken out of a queue, with the events that are left. -/
def World.popped (w : World) (pid : Nat) (e : ChildStateEvent) (rest : List ChildStateEvent) :
    World := ((noteWaited e rest).run (w.withEvents pid rest)).2

/-- An event that is popped leaves the rest of its queue. -/
theorem World.waits_popped (w : World) (pid : Nat) (e : ChildStateEvent)
    (rest : List ChildStateEvent) : (w.popped pid e rest).waits = w.waits.setEvents pid rest :=
  w.waits_withEvents pid rest

/-- `pop_child_event_matching` takes the first event that is accepted, and finds none when there
is none. -/
theorem popChildEventMatching_cases (parentPid : Nat) (target : Int) (options callerPgid : Nat)
    (w : World) :
    (w.hasChildEventMatching parentPid target options callerPgid = false ∧
      (popChildEventMatching parentPid target options callerPgid).run w = (.ok none, w)) ∨
    ∃ e, (w.eventsOf parentPid).find? (eventMatches target options callerPgid) = some e ∧
      (popChildEventMatching parentPid target options callerPgid).run w =
        (.ok (some (e.childPid, e.waitStatus)), w.popped parentPid e
          ((w.eventsOf parentPid).eraseP (eventMatches target options callerPgid))) := by
  unfold popChildEventMatching
  rw [run_gets_bind]
  cases hfind : (w.eventsOf parentPid).find? (eventMatches target options callerPgid) with
  | none =>
    refine .inl ⟨?_, rfl⟩
    rw [World.hasChildEventMatching, List.any_eq_false]
    exact List.find?_eq_none.mp hfind
  | some e => exact .inr ⟨e, rfl, rfl⟩

/-- An event that is recorded without a wake. -/
theorem recordChildChange_waitsOk (parentPid : Nat) (e : ChildStateEvent) :
    Keeps World.WaitsOk (recordChildChange parentPid e) := by
  intro w hw hm pid p _ hp
  have hm' : (w.missedWake || w.waitAccepts parentPid e) = false := hm
  obtain ⟨hold, haccept⟩ := Bool.or_eq_false_iff.mp hm'
  have hp' : w.pendingWaitReplies.get? pid = some p := hp
  have hqueue : (w.eventsOf pid).any p.accepts = false := hw hold pid p (by simp) hp
  have hevents : ((recordChildChange parentPid e).run w).2.waits.events pid
      = if pid = parentPid then w.eventsOf pid ++ [e] else w.eventsOf pid := by
    show ((w.childEvents.insert parentPid (w.eventsOf parentPid ++ [e])).get? pid).getD [] = _
    rw [OrdMap.get?_insert]
    split
    · rename_i heq
      rw [heq]
      rfl
    · rfl
  rw [hevents]
  split
  · rename_i heq
    -- the request of this parent does not accept the new event
    have hreject : p.accepts e = false := by
      rw [World.waitAccepts, ← heq, hp'] at haccept
      exact haccept
    rw [List.any_append, hqueue]
    simpa using hreject
  · exact hqueue

/-! ### Waking a parent -/

/-- The value of a deferred reply. When there is none yet, the parent has no event that its
request accepts. -/
theorem pendingWaitResult_waitsOk (parentPid : Nat) (p : PendingWaitReply) :
    Triple (fun w => w.waits.Ok (some parentPid) ∧ w.pendingWaitReplies.get? parentPid = some p)
      (pendingWaitResult parentPid p)
      (fun ret w => w.waits.Ok (some parentPid) ∧ (ret = none → w.WaitsOk))
      (fun _ => World.WaitsOk) := by
  rintro w ⟨hok, hpending⟩
  rw [pendingWaitResult]
  rcases popChildEventMatching_cases parentPid p.targetPid p.options p.callerPgid w with
    ⟨hno, hrun⟩ | ⟨e, _, hrun⟩
  · rw [run_bind_ok hrun, run_gets_bind]
    -- without an event that matches nothing is left to report
    have hsettled : w.WaitsOk := hok.settle fun p' hp' => by
      have heq : some p' = some p := hp'.symm.trans hpending
      cases heq
      exact hno
    split
    · exact ⟨fun _ _ => ⟨hok, fun _ => hsettled⟩, fun _ _ => hsettled⟩
    · exact ⟨fun _ _ => ⟨hok, fun _ => hsettled⟩, fun _ _ => hsettled⟩
  -- an event is taken, and only the store of its status is left
  · rw [run_bind_ok hrun]
    have hrest : Triple (fun w => w.waits.Ok (some parentPid)) (do
        let ret ← storeForReply parentPid p.wstatus (leBytes 4 e.waitStatus) e.childPid
        pure (some ret) : M (Option Int))
        (fun ret w => w.waits.Ok (some parentPid) ∧ (ret = none → w.WaitsOk))
        (fun _ => World.WaitsOk) := by
      have hstore : Frames World.waits
          (storeForReply parentPid p.wstatus (leBytes 4 e.waitStatus) e.childPid) :=
        Frames.of_keeps fun v => by simp
      refine Triple.bind (R := fun _ w => w.waits.Ok (some parentPid))
        ((storeForReply_total _ _ _ _).triple (hstore.keeps (WaitView.Ok (some parentPid))).triple)
        fun ret => Triple.pure fun w h => ⟨h, fun hnone => by cases hnone⟩
    refine hrest _ ?_
    show WaitView.Ok (some parentPid) (w.popped parentPid e _).waits
    rw [World.waits_popped]
    exact hok.shrink fun e he => List.mem_of_mem_eraseP he

/-- After `try_wake_pending_wait4_reply` the parent does not wait for an event it has. -/
theorem tryWakePendingWait4Reply_waitsOk (parentPid : Nat) :
    Triple (fun w => w.waits.Ok (some parentPid)) (tryWakePendingWait4Reply parentPid)
      (fun _ => World.WaitsOk) (fun _ => World.WaitsOk) := by
  refine Triple.bind (R := fun o w => w.waits.Ok (some parentPid) ∧
    w.pendingWaitReplies.get? parentPid = o) (Triple.gets fun w h => ⟨h, rfl⟩) fun pending => ?_
  cases pending with
  | none =>
    refine Triple.pure fun w h => h.1.settle fun p hp => ?_
    have heq : none = some p := h.2.symm.trans hp
    cases heq
  | some p =>
    refine Triple.bind (pendingWaitResult_waitsOk parentPid p) fun ret => ?_
    cases ret with
    | none => exact Triple.pure fun w h => h.2 rfl
    | some ret =>
      refine Triple.bind (R := fun _ => World.WaitsOk)
        (Triple.modify fun w h => h.1.erase) fun _ => ?_
      exact Keeps.triple (Keeps.bind (by simp) fun _ => by simp)

/-- A reply is queued when no event is accepted. -/
theorem queueWait4Reply_waitsOk (pid : Nat) (target : Int) (wstatus options callerPgid : Nat) :
    Triple (fun w => w.WaitsOk ∧ w.hasChildEventMatching pid target options callerPgid = false)
      (queueWait4Reply pid target wstatus options callerPgid)
      (fun _ => World.WaitsOk) (fun _ => World.WaitsOk) := by
  let Ready (v : WaitView) : Prop :=
    v.Ok none ∧ (v.events pid).any (eventMatches target options callerPgid) = false
  refine Triple.pre (K := fun w => Ready w.waits) ?_ fun w h => show Ready w.waits from h
  refine Triple.bind (R := fun _ w => Ready w.waits) (Triple.gets fun w h => h) fun busy => ?_
  refine Triple.ite (fun _ => Triple.throw fun w h => h.1) fun _ => ?_
  have hreserve : Frames World.waits reservePendingReplySlot := Frames.of_keeps fun v => by simp
  refine Triple.bind ((hreserve.keeps Ready).triple.errors
    fun _ _ h => h.1) fun slot => Triple.modify fun w h => ?_
  exact WaitView.Ok.insert h.1 h.2

/-- `wait4` queues its reply only when no event is accepted. -/
theorem doWait4_waitsOk (pid : Nat) (target : Int) (wstatus options : Nat) :
    Keeps World.WaitsOk (doWait4 pid target wstatus options) := by
  refine Keeps.bind (by simp) fun task => Keeps.bind (by simp) fun _ => ?_
  intro w hw
  rcases popChildEventMatching_cases pid target options task.processGroupId w with
    ⟨hno, hrun⟩ | ⟨e, _, hrun⟩
  -- the caller waits only after its queue had no event
  · rw [run_bind_ok hrun]
    have hrest : Triple
        (fun w => w.WaitsOk ∧ w.hasChildEventMatching pid target options
          task.processGroupId = false)
        (do
          let waitable ← gets (·.hasWaitableChild pid target options task.processGroupId)
          if !waitable then pure (-ECHILD)
          else if options &&& WNOHANG ≠ 0 then pure 0
          else do
            queueWait4Reply pid target wstatus options task.processGroupId
            modifySignal pid fun s =>
              { s with wait4Blocked := some ⟨target, task.processGroupId⟩ }
            noteWaitIntr pid
            throw .success : M Int)
        (fun _ => World.WaitsOk) (fun _ => World.WaitsOk) := by
      refine Triple.bind (R := fun _ w => w.WaitsOk ∧
        w.hasChildEventMatching pid target options task.processGroupId = false)
        (Triple.gets fun w h => h) fun waitable => ?_
      refine Triple.ite (fun _ => Triple.pure fun w h => h.1) fun _ => ?_
      refine Triple.ite (fun _ => Triple.pure fun w h => h.1) fun _ => ?_
      refine Triple.bind (queueWait4Reply_waitsOk pid target wstatus options _) fun _ => ?_
      exact Keeps.triple (Keeps.bind (QuietSignals.quiet pid _ (.mk (fun _ => rfl) fun _ => rfl))
        fun _ => Keeps.bind (noteWaitIntr_keeps _) fun _ => Keeps.throw _)
    exact hrest.ends ⟨hw, hno⟩
  · rw [run_bind_ok hrun]
    have hrest : Keeps World.WaitsOk (do
        onError (when (wstatus ≠ 0) (copyToUser pid wstatus (leBytes 4 e.waitStatus))) fun _ =>
          noteStale (·.exitTaken)
        clearProcessLifecycle e.childPid
        pure (e.childPid : Int) : M Int) :=
      Keeps.bind (Keeps.onError (by simp) fun _ _ h => h) fun _ =>
        Keeps.bind (fun _ h => h) fun _ => Keeps.pure _
    refine hrest _ ?_
    show (World.waits _).Ok none
    rw [World.waits_popped]
    exact hw.shrink fun e he => List.mem_of_mem_eraseP he

instance : ChangeKeeps World.WaitsOk := ⟨fun parentPid e _ => recordChildChange_waitsOk parentPid e⟩

instance : NotifyKeeps World.WaitsOk where
  notify pid parentPid pgid exitCode := by
    refine Keeps.ite (by simp) (Keeps.bind (fun _ h => h) fun _ => Triple.keeps ?_)
    -- the new event is an exception until the parent is woken
    refine Triple.bind (R := fun _ w => w.waits.Ok (some parentPid)) (Triple.modify ?_) fun _ => ?_
    · intro w h hm q p hq hp
      have hne : q ≠ parentPid := fun heq => hq (congrArg some heq)
      have hold : (w.eventsOf q).any p.accepts = false := h hm q p (by simp) hp
      have hevents : ((w.childEvents.insert parentPid (w.eventsOf parentPid ++
          [⟨pid, encodeWaitStatus exitCode, pgid, .exited⟩])).get? q).getD [] = w.eventsOf q := by
        rw [OrdMap.get?_insert_ne _ _ hne]
        rfl
      exact (congrArg (List.any · p.accepts) hevents).trans hold
    refine Triple.bind (tryWakePendingWait4Reply_waitsOk parentPid) fun replied => ?_
    exact Keeps.triple (Keeps.when (Keeps.bind (resumeWait4Parent_keeps _ _ _) fun _ => by simp))

instance : Wait4Keeps World.WaitsOk := ⟨doWait4_waitsOk⟩

instance : WaitsKeeps World.WaitsOk where
  drop pid := by
    refine Keeps.bind (Keeps.gets _) fun pending => Keeps.whenSome fun p => ?_
    exact Keeps.bind (fun _ h => WaitView.Ok.erase (WaitView.Ok.weaken h _)) fun _ =>
      cspaceFree_keeps _
  lifecycle w l h := h

/-- Every request keeps the waiting parents in order. -/
theorem dispatch_waitsOk (r : Request) : Keeps World.WaitsOk (dispatch r) := fun _ hw =>
  dispatch_keeps_of terminateProcess_keeps_blind
    (fun pid sys ret => finishSyscall_keeps (terminateProcess_keeps_blind pid) sys ret)
    doNanosleep_keeps r hw fun pid _ _ hsys => jobCall_keeps pid hsys _ hw

/-- In every reachable state the waits are in order. -/
theorem Reachable.waitsOk {w : World} (h : Reachable w) : w.WaitsOk := by
  refine Reachable.invariant ?_ ?_ w h
  · intro w w' path hi hr
    have hstart : w.WaitsOk := by
      intro _ pid p _ hp
      have hp' : w.pendingWaitReplies.get? pid = some p := hp
      rw [hi.noWaits] at hp'
      cases hp'
    have hload := loadInit_keeps_blind (I := World.WaitsOk) path w hstart
    rwa [hr] at hload
  · intro w r w' _ hw hs
    rw [← hs.2]
    exact dispatch_waitsOk r w hw

/-! ### Lost wake-ups -/

/-- No parent is blocked in `wait4` while its queue has an event that the request accepts. -/
def World.NoLostWake (w : World) : Prop :=
  ∀ pid p, w.pendingWaitReplies.get? pid = some p →
    w.hasChildEventMatching pid p.targetPid p.options p.callerPgid = false

/-- At every request boundary of a run in which no stop and no continuation was recorded for a
parent whose deferred `wait4` accepts it, no parent waits for an event it has. -/
theorem no_lost_wake (w : World) (h : Reachable w) (hmissed : w.missedWake = false) :
    w.NoLostWake :=
  fun pid p hp => h.waitsOk hmissed pid p (by simp) hp

/-- The server when `init` waits for its child, with `WUNTRACED`. -/
def sampleWait : World := sampleFork.after (.syscall 1 (.wait4 (-1) 0 WUNTRACED))

/-- The sample in which `init` waits is reachable. -/
theorem sampleWait_reachable : Reachable sampleWait := sampleFork_reachable.after
    (by decide +kernel)

/-- `init` is blocked in `wait4`, and its child has not changed its state. -/
theorem no_lost_wake_sampleWait :
    sampleWait.missedWake = false ∧ (sampleWait.pendingWaitReplies.get? 1).isSome ∧
    sampleWait.NoLostWake :=
  ⟨by decide +kernel, by decide +kernel,
    no_lost_wake _ sampleWait_reachable (by decide +kernel)⟩

/-- The server after the child has sent itself `SIGSTOP`. -/
def sampleStopped : World := sampleWait.after (.syscall 2 (.kill 2 SIGSTOP))

/-- The stop of the child is in the queue of `init`, which stays blocked. -/
theorem stop_does_not_wake_parent : Reachable sampleStopped ∧ ¬ sampleStopped.NoLostWake := by
  refine ⟨sampleWait_reachable.after (by decide +kernel), ?_⟩
  intro h
  have hp : (sampleStopped.pendingWaitReplies.get? 1).any fun p =>
      sampleStopped.hasChildEventMatching 1 p.targetPid p.options p.callerPgid := by
    decide +kernel
  obtain ⟨p, hget, hmatch⟩ := (Option.any_eq_true _ _).mp hp
  rw [h 1 p hget] at hmatch
  cases hmatch

end Ape
