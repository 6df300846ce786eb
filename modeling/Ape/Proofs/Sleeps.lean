import Ape.Proofs.FrameRuns

/-!
# `Ape.Proofs.Sleeps`: the replies of `nanosleep`

A sleep reserves a reply slot, gets a request id, and waits in `pending_sleep_replies` for the
first of three things: its completion, a signal that can be delivered, or the end of its process.
A completion carries the request id it was made for and may arrive at any time.

`SleepView.Ok` is about the table and the log: ids are given out once, a reply is finished at most
once, and a reply that waits is not finished. Every request keeps it, whatever the processes do.

`World.SleepQuiet` says that a process whose sleep waits has no signal that can be delivered. It
needs that such a process makes no call, as its thread is blocked on the reply. `SleepRun` is a
run of the server with that discipline, in which a completion is delivered at most once.
-/

set_option autoImplicit false

namespace Ape

open Ape.Lib Cmd

/-! ### The log of the sleeps -/

/-- What the server and the timer know about sleeps. -/
structure SleepView where
  pending : OrdMap Nat PendingSleepReply
  nextId : Nat
  saturated : Bool
  log : List SleepEvent

/-- The sleeps of the server. -/
def World.sleeps (w : World) : SleepView :=
  ⟨w.pendingSleepReplies, w.nextRequestId, w.idSaturated, w.sleepLog⟩

/-- The request id of a sleep that was started. -/
def SleepEvent.startedId : SleepEvent → Option Nat
  | .started _ id _ _ _ => some id
  | .finished .. => none

/-- The request id of a sleep whose reply is finished. -/
def SleepEvent.finishedId : SleepEvent → Option Nat
  | .started .. => none
  | .finished _ id _ => some id

namespace SleepView

/-- The ids that were given out. -/
def startedIds (v : SleepView) : List Nat := v.log.filterMap SleepEvent.startedId

/-- The ids whose reply is finished. -/
def finishedIds (v : SleepView) : List Nat := v.log.filterMap SleepEvent.finishedId

/-- Request `id` of `pid` was started with the reply slot `slot`. -/
def Started (v : SleepView) (pid id slot : Nat) : Prop :=
  ∃ ns ms, .started pid id slot ns ms ∈ v.log

/-- What holds of the sleeps as long as the ids do not saturate. -/
structure Sound (v : SleepView) : Prop where
  idsBelow : ∀ id ∈ v.startedIds, id < v.nextId
  idsOnce : v.startedIds.Nodup
  finishedOnce : v.finishedIds.Nodup
  finishedStarted : ∀ pid id slot, .finished pid id slot ∈ v.log → v.Started pid id slot
  pendingStarted : ∀ pid p, v.pending.get? pid = some p → v.Started pid p.requestId p.replySlot
  pendingOpen : ∀ pid p, v.pending.get? pid = some p → p.requestId ∉ v.finishedIds
  longEnough : ∀ pid id slot ns ms, .started pid id slot ns ms ∈ v.log → ns ≤ ms * 1000000

/-- The sleeps are sound, or the ids have saturated. -/
def Ok (v : SleepView) : Prop := v.nextId ≤ usizeMax ∧ (v.saturated = false → v.Sound)

/-- The number of a sleep that was started is among those started. -/
theorem Started.mem_startedIds {v : SleepView} {pid id slot : Nat} (h : v.Started pid id slot) :
    id ∈ v.startedIds := by
  obtain ⟨ns, ms, hmem⟩ := h
  exact List.mem_filterMap.mpr ⟨_, hmem, rfl⟩

end SleepView

/-- In a list whose keys are distinct, a key belongs to one item. -/
theorem eq_of_filterMap_nodup {α β : Type} {f : α → Option β} {l : List α}
    (h : (l.filterMap f).Nodup) {a a' : α} {b : β} (ha : a ∈ l) (ha' : a' ∈ l) (hf : f a = some b)
    (hf' : f a' = some b) : a = a' := by
  induction l with
  | nil => cases ha
  | cons x xs ih =>
    have hrest : (xs.filterMap f).Nodup := by
      cases hx : f x with
      | none => rwa [List.filterMap_cons_none hx] at h
      | some c =>
        rw [List.filterMap_cons_some hx] at h
        exact h.of_cons
    -- the head's key does not come back in the rest
    have hhead : ∀ y ∈ xs, f x = some b → f y = some b → False := by
      intro y hy hx hfy
      rw [List.filterMap_cons_some hx] at h
      exact (List.nodup_cons.mp h).1 (List.mem_filterMap.mpr ⟨y, hy, hfy⟩)
    rcases List.mem_cons.mp ha with rfl | hmem <;> rcases List.mem_cons.mp ha' with rfl | hmem'
    · rfl
    · exact (hhead a' hmem' hf hf').elim
    · exact (hhead a hmem hf' hf).elim
    · exact ih hrest hmem hmem'

namespace SleepView

/-- An id belongs to one process and one slot. -/
theorem Sound.started_unique {v : SleepView} (h : v.Sound) {pid pid' id slot slot' : Nat}
    (hs : v.Started pid id slot) (hs' : v.Started pid' id slot') : pid = pid' ∧ slot = slot' := by
  obtain ⟨ns, ms, hmem⟩ := hs
  obtain ⟨ns', ms', hmem'⟩ := hs'
  have heq := eq_of_filterMap_nodup h.idsOnce hmem hmem' rfl rfl
  injection heq with hpid _ hslot
  exact ⟨hpid, hslot⟩

/-- The sleeps after one is started. -/
def start (v : SleepView) (pid slot remPtr deadline ns : Nat) : SleepView where
  pending := v.pending.insert pid ⟨slot, remPtr, deadline, v.nextId⟩
  nextId := satAdd v.nextId 1
  saturated := v.saturated || decide (usizeMax ≤ v.nextId)
  log := v.log ++ [.started pid v.nextId slot ns (sleepMs ns)]

/-- The sleeps after the reply of `p` is out of the table. -/
def take (v : SleepView) (pid : Nat) : SleepView := { v with pending := v.pending.erase pid }

/-- The sleeps after the reply of `p` is sent or deleted. -/
def finish (v : SleepView) (pid : Nat) (p : PendingSleepReply) : SleepView :=
  { v with log := v.log ++ [.finished pid p.requestId p.replySlot] }

/-- The timer gets at least the time that was asked for. -/
theorem le_sleepMs (ns : Nat) : ns ≤ sleepMs ns * 1000000 := by
  unfold sleepMs
  omega

/-- A sleep that was started stays started. -/
theorem Started.append {v v' : SleepView} {e : SleepEvent} (hlog : v'.log = v.log ++ [e])
    {pid id slot : Nat} (h : v.Started pid id slot) : v'.Started pid id slot := by
  obtain ⟨ns, ms, hmem⟩ := h
  refine ⟨ns, ms, ?_⟩
  rw [hlog]
  exact List.mem_append_left _ hmem

/-- A sleep that is started keeps the sleeps sound, unless its id is the last one. -/
theorem Ok.start {v : SleepView} (h : v.Ok) (pid slot remPtr deadline ns : Nat) :
    (v.start pid slot remPtr deadline ns).Ok := by
  refine ⟨Nat.min_le_right _ _, ?_⟩
  intro hsat
  obtain ⟨hold, hlast⟩ : v.saturated = false ∧ v.nextId < usizeMax := by
    simpa [SleepView.start] using hsat
  have hs := h.2 hold
  have hnext : satAdd v.nextId 1 = v.nextId + 1 := Nat.min_eq_left (by omega)
  have hstarted : (v.start pid slot remPtr deadline ns).startedIds = v.startedIds
    ++ [v.nextId] := by
    simp [startedIds, SleepView.start, SleepEvent.startedId]
  have hfinished : (v.start pid slot remPtr deadline ns).finishedIds = v.finishedIds := by
    simp [finishedIds, SleepView.start, SleepEvent.finishedId]
  have hfresh : v.nextId ∉ v.startedIds := fun hmem => Nat.lt_irrefl _ (hs.idsBelow _ hmem)
  refine ⟨?_, ?_, hfinished ▸ hs.finishedOnce, ?_, ?_, ?_, ?_⟩
  · intro id hid
    show id < satAdd v.nextId 1
    rw [hstarted] at hid
    rw [hnext]
    rcases List.mem_append.mp hid with hmem | hmem
    · exact Nat.lt_succ_of_lt (hs.idsBelow id hmem)
    · rw [List.mem_singleton.mp hmem]
      exact Nat.lt_succ_self _
  · rw [hstarted]
    refine List.nodup_append.mpr ⟨hs.idsOnce, List.nodup_singleton _, ?_⟩
    rintro a ha b hb rfl
    exact hfresh (List.mem_singleton.mp hb ▸ ha)
  · intro q id s hmem
    rcases List.mem_append.mp hmem with hin | hin
    · exact (hs.finishedStarted q id s hin).append rfl
    · cases List.mem_singleton.mp hin
  · intro q p hp
    by_cases hq : q = pid
    · subst hq
      rw [SleepView.start, OrdMap.get?_insert_self] at hp
      cases hp
      exact ⟨ns, sleepMs ns, List.mem_append_right _ (List.mem_singleton.mpr rfl)⟩
    · rw [SleepView.start, OrdMap.get?_insert_ne _ _ hq] at hp
      exact (hs.pendingStarted q p hp).append rfl
  · intro q p hp
    rw [hfinished]
    by_cases hq : q = pid
    · subst hq
      rw [SleepView.start, OrdMap.get?_insert_self] at hp
      cases hp
      -- an id that was not given out has not been finished
      intro hmem
      obtain ⟨e, he, hid⟩ := List.mem_filterMap.mp hmem
      cases e with
      | started => cases hid
      | finished q' id s =>
        cases hid
        exact hfresh (hs.finishedStarted _ _ _ he).mem_startedIds
    · rw [SleepView.start, OrdMap.get?_insert_ne _ _ hq] at hp
      exact hs.pendingOpen q p hp
  · intro q id s ns' ms' hmem
    rcases List.mem_append.mp hmem with hin | hin
    · exact hs.longEnough q id s ns' ms' hin
    · cases List.mem_singleton.mp hin
      exact le_sleepMs ns

/-- A reply that was taken out of the table and is still to be sent or deleted. -/
def Taken (v : SleepView) (pid : Nat) (p : PendingSleepReply) : Prop :=
  v.Ok ∧ (v.saturated = false → v.Started pid p.requestId p.replySlot ∧
    p.requestId ∉ v.finishedIds ∧ ∀ q p', v.pending.get? q = some p' → p'.requestId ≠ p.requestId)

/-- A pending sleep can be taken. -/
theorem Ok.take {v : SleepView} (h : v.Ok) {pid : Nat} {p : PendingSleepReply}
    (hp : v.pending.get? pid = some p) : (v.take pid).Taken pid p := by
  have hsub : ∀ q p', (v.take pid).pending.get? q = some p' → v.pending.get? q = some p' := by
    intro q p' hq
    rw [SleepView.take, OrdMap.get?_erase] at hq
    split at hq
    · cases hq
    · exact hq
  refine ⟨⟨h.1, ?_⟩, ?_⟩
  · intro hsat
    have hs := h.2 hsat
    refine ⟨hs.idsBelow, hs.idsOnce, hs.finishedOnce, hs.finishedStarted, ?_, ?_, hs.longEnough⟩
    · intro q p' hq
      exact hs.pendingStarted q p' (hsub q p' hq)
    · intro q p' hq
      exact hs.pendingOpen q p' (hsub q p' hq)
  · intro hsat
    have hs := h.2 hsat
    refine ⟨hs.pendingStarted pid p hp, hs.pendingOpen pid p hp, ?_⟩
    -- the id would belong to two processes
    intro q p' hq heq
    have hstarted := hs.pendingStarted q p' (hsub q p' hq)
    rw [heq] at hstarted
    have hqpid := (hs.started_unique hstarted (hs.pendingStarted pid p hp)).1
    rw [SleepView.take, hqpid, OrdMap.get?_erase, if_pos rfl] at hq
    cases hq

/-- A sleep that was taken can be finished. -/
theorem Taken.finish {v : SleepView} {pid : Nat} {p : PendingSleepReply} (h : v.Taken pid p) :
    (v.finish pid p).Ok := by
  refine ⟨h.1.1, ?_⟩
  intro hsat
  have hs := h.1.2 hsat
  obtain ⟨hstarted, hopen, hothers⟩ := h.2 hsat
  have hids : (v.finish pid p).startedIds = v.startedIds := by
    simp [startedIds, SleepView.finish, SleepEvent.startedId]
  have hfin : (v.finish pid p).finishedIds = v.finishedIds ++ [p.requestId] := by
    simp [finishedIds, SleepView.finish, SleepEvent.finishedId]
  -- the reply finishes the request it was taken for, and no other one
  refine ⟨hids ▸ hs.idsBelow, hids ▸ hs.idsOnce, ?_, ?_, ?_, ?_, ?_⟩
  · rw [hfin]
    refine List.nodup_append.mpr ⟨hs.finishedOnce, List.nodup_singleton _, ?_⟩
    rintro a ha b hb rfl
    exact hopen (List.mem_singleton.mp hb ▸ ha)
  · intro q id s hmem
    rcases List.mem_append.mp hmem with hin | hin
    · exact (hs.finishedStarted q id s hin).append rfl
    · cases List.mem_singleton.mp hin
      exact hstarted.append rfl
  · exact fun q p' hq => (hs.pendingStarted q p' hq).append rfl
  · intro q p' hq
    rw [hfin]
    intro hmem
    rcases List.mem_append.mp hmem with hin | hin
    · exact hs.pendingOpen q p' hq hin
    · exact hothers q p' hq (List.mem_singleton.mp hin)
  · intro q id s ns ms hmem
    rcases List.mem_append.mp hmem with hin | hin
    · exact hs.longEnough q id s ns ms hin
    · cases List.mem_singleton.mp hin

end SleepView

/-! ### Every request keeps the log sound -/

/-- The sleeps of the server are sound, or the ids have saturated. -/
def World.SleepsOk (w : World) : Prop := w.sleeps.Ok

/-- What the sleeps do not see of the control side. -/
instance : BlindSlots World.sleeps where
  tick _ _ := rfl
  slots _ _ := rfl
  ledger _ _ := rfl

instance : BlindTrace World.sleeps := ⟨fun _ _ => rfl⟩

instance : BlindSignals World.sleeps := ⟨fun _ _ _ => rfl, fun _ _ => rfl, fun _ _ => rfl⟩

instance : BlindRecords World.sleeps where
  hostPidMap _ _ := rfl
  stale _ _ := rfl
  record _ _ _ _ := rfl
  stopLog _ _ := rfl
  stopSkewed _ _ := rfl

instance : BlindWaits World.sleeps :=
  ⟨fun _ _ => rfl, fun _ _ => rfl, fun _ _ => rfl, fun _ _ => rfl, fun _ _ => rfl, fun _ _ => rfl⟩

instance : BlindCaller World.sleeps := ⟨fun _ _ => rfl⟩

instance : BlindFiles World.sleeps where
  cloexecLog _ _ := rfl
  positionSplit _ _ := rfl
  endpoints _ _ := rfl
  doubleClose _ _ := rfl
  asyncFree _ _ := rfl
  asyncRegions _ _ := rfl
  asyncVaddr _ _ := rfl
  iouring _ _ := rfl
  fdOverflow _ _ := rfl
  earlyRecycle _ _ := rfl
  files _ _ _ := rfl

instance : BlindMemory World.sleeps where
  vspace _ _ _ := rfl
  tables _ _ _ := rfl
  scratch _ _ _ := rfl
  writeFrame _ _ _ := rfl
  frames _ _ _ := rfl
  refs _ _ := rfl
  doubleFree _ _ := rfl
  mm _ _ _ := rfl
  fileMapLog _ _ := rfl

instance : BlindSlots World.SleepsOk := BlindSlots.comp (V := World.sleeps) _ inferInstance

instance : BlindTrace World.SleepsOk := BlindTrace.comp (V := World.sleeps) _ inferInstance

instance : BlindSignals World.SleepsOk := BlindSignals.comp (V := World.sleeps) _ inferInstance

instance : BlindRecords World.SleepsOk := BlindRecords.comp (V := World.sleeps) _ inferInstance

instance : BlindWaits World.SleepsOk := BlindWaits.comp (V := World.sleeps) _ inferInstance

instance : BlindCaller World.SleepsOk := BlindCaller.comp (V := World.sleeps) _ inferInstance

instance : BlindFiles World.SleepsOk := BlindFiles.comp (V := World.sleeps) _ inferInstance

instance : BlindMemory World.SleepsOk := BlindMemory.comp (V := World.sleeps) _ inferInstance

instance : BlindProcesses World.SleepsOk :=
  ⟨fun _ _ => rfl, fun _ _ => rfl, fun _ _ => rfl, fun _ _ => rfl, fun _ _ => rfl⟩

/-- The end of a reply that was taken out of the table. -/
theorem replyPendingSleep_sleepsOk (pid : Nat) (p : PendingSleepReply) (ret : Int)
    (remainNs : Nat) :
    Triple (fun w => w.sleeps.Taken pid p) (replyPendingSleep pid p ret remainNs)
      (fun _ => World.SleepsOk) (fun _ => World.SleepsOk) := by
  have hstep : ∀ {α : Type} {c : M α}, Total c → (∀ v, Keeps (fun w => w.sleeps = v) c) →
      Triple (fun w => w.sleeps.Taken pid p) c (fun _ w => w.sleeps.Taken pid p)
        (fun _ => World.SleepsOk) := fun htotal hk =>
    htotal.triple ((Frames.of_keeps hk).keeps (SleepView.Taken · pid p)).triple
  refine Triple.bind (hstep (storeForReply_total _ _ _ _) fun v => by simp) fun final => ?_
  refine Triple.bind (hstep ?_ fun v => by simp) fun _ => Triple.modify fun w h => h.finish
  exact Total.bind (Total.modify _) fun _ => Total.modify _

/-- A reply is taken out of the table. -/
theorem takePending_sleepsOk (pid : Nat) (p : PendingSleepReply) :
    Triple (fun w => w.SleepsOk ∧ w.pendingSleepReplies.get? pid = some p)
      (modify fun w => { w with pendingSleepReplies := w.pendingSleepReplies.erase pid } : M Unit)
      (fun _ w => w.sleeps.Taken pid p) (fun _ => World.SleepsOk) :=
  Triple.modify fun _ h => h.1.take h.2

/-- The lookup of the reply of a process. -/
theorem getPending_sleepsOk {E : Err → World → Prop} (pid : Nat) :
    Triple World.SleepsOk (gets (·.pendingSleepReplies.get? pid) : M _)
      (fun o w => w.SleepsOk ∧ w.pendingSleepReplies.get? pid = o) E :=
  Triple.gets fun _ h => ⟨h, rfl⟩

instance : SleepsKeeps World.SleepsOk where
  interrupt pid := by
    refine Triple.keeps (Triple.bind (getPending_sleepsOk pid) fun pending => ?_)
    refine Triple.whenSome (fun p hp => ?_) fun w _ h => h.1
    subst hp
    -- the entry leaves the table before the clock is asked
    refine Triple.bind (takePending_sleepsOk pid p) fun _ => ?_
    refine Triple.bind (R := fun _ w => w.sleeps.Taken pid p) ?_ fun now =>
      replyPendingSleep_sleepsOk pid p _ _
    have hclock : Frames World.sleeps monoNow := Frames.of_keeps fun v => by simp
    exact (Total.attempt _).triple (Frames.keeps (Frames.attempt hclock)
      (SleepView.Taken · pid p)).triple
  complete pid requestId := by
    refine Triple.keeps (Triple.bind (getPending_sleepsOk pid) fun pending => ?_)
    refine Triple.whenSome (fun p hp => ?_) fun w _ h => h.1
    subst hp
    refine Triple.ite (fun _ => Triple.pure fun w h => h.1) fun _ => ?_
    exact Triple.bind (takePending_sleepsOk pid p) fun _ => replyPendingSleep_sleepsOk pid p _ _
  drop pid := by
    refine Triple.keeps (Triple.bind (getPending_sleepsOk pid) fun pending => ?_)
    refine Triple.whenSome (fun p hp => ?_) fun w _ h => h.1
    subst hp
    refine Triple.bind (takePending_sleepsOk pid p) fun _ => ?_
    exact Triple.bind (R := fun _ w => w.sleeps.Taken pid p) (Triple.modify fun w h => h) fun _ =>
      Triple.modify fun w h => h.finish

/-- A sleep that is handed to the timer. -/
theorem scheduleNanosleepAsync_sleepsOk (pid reqNs remPtr : Nat) :
    Keeps World.SleepsOk (scheduleNanosleepAsync pid reqNs remPtr) := by
  refine Keeps.bind monoNow_keeps fun now => Keeps.bind reservePendingReplySlot_keeps fun slot => ?_
  refine Triple.keeps (Triple.bind (R := fun id w => w.SleepsOk ∧ w.nextRequestId = id)
    (Triple.gets fun w h => ⟨h, rfl⟩) fun id => ?_)
  intro w h
  obtain ⟨hok, hid⟩ := h
  subst hid
  have hstart := SleepView.Ok.start hok pid slot remPtr (satAdd now reqNs) reqNs
  exact ⟨fun _ _ => hstart, fun _ _ => hstart⟩

/-- Every request keeps the sleeps sound. -/
theorem dispatch_sleepsOk (r : Request) : Keeps World.SleepsOk (dispatch r) := fun _ hw =>
  dispatch_keeps_of terminateProcess_keeps_blind
    (fun pid sys ret => finishSyscall_keeps (terminateProcess_keeps_blind pid) sys ret)
    (fun pid req rem => doNanosleep_keeps_of pid req rem fun _ =>
      scheduleNanosleepAsync_sleepsOk _ _ _)
    r hw fun pid _ _ hsys => jobCall_keeps pid hsys _ hw

/-- At the start there are no sleeps. -/
theorem World.Initial.sleepsOk {w : World} (h : w.Initial) : w.SleepsOk := by
  refine ⟨?_, fun _ => ?_⟩
  · show w.nextRequestId ≤ usizeMax
    rw [h.firstRequestId]
    decide
  · have hlog : w.sleeps.log = [] := h.noSleepLog
    have hpending : ∀ pid, w.sleeps.pending.get? pid = none := by
      intro pid
      show w.pendingSleepReplies.get? pid = none
      rw [h.noSleeps]
      rfl
    constructor <;> simp [SleepView.startedIds, SleepView.finishedIds, hlog, hpending]

/-- In every reachable state the sleeps are in order. -/
theorem Reachable.sleepsOk {w : World} (h : Reachable w) : w.SleepsOk := by
  refine Reachable.invariant ?_ ?_ w h
  · intro w w' path hi hr
    have := loadInit_keeps_blind (I := World.SleepsOk) path w hi.sleepsOk
    rwa [hr] at this
  · intro w r w' _ hw hs
    rw [← hs.2]
    exact dispatch_sleepsOk r w hw

/-! ### No signal for a process that sleeps -/

/-- The signal state of each process and the replies that wait. -/
structure QuietView where
  signals : Nat → Option SignalStruct
  pending : OrdMap Nat PendingSleepReply

/-- The signals of a process. -/
def World.signalsOf (w : World) (pid : Nat) : Option SignalStruct := (w.task? pid).map (·.signal)

/-- The signals and the sleeps of the server. -/
def World.quietView (w : World) : QuietView := ⟨w.signalsOf, w.pendingSleepReplies⟩

/-- A process other than `except` whose reply waits has no signal that can be delivered, and the
processes in `idle` have no reply that waits. -/
def QuietView.Quiet (except : Option Nat) (idle : List Nat) (v : QuietView) : Prop :=
  (∀ pid p s, some pid ≠ except → v.pending.get? pid = some p → v.signals pid = some s →
    s.deliverable = 0) ∧ ∀ pid ∈ idle, v.pending.get? pid = none

/-- No process whose reply waits has a signal that can be delivered, and the processes in `idle`
have no reply that waits. -/
def World.SleepQuiet (idle : List Nat) (w : World) : Prop := w.quietView.Quiet none idle

/-- A change of a process record that keeps the signals. -/
theorem World.quietView_modifyTask (w : World) (pid : Nat) {f : TaskStruct → TaskStruct}
    (hf : ∀ t, (f t).signal = t.signal) : (w.modifyTask pid f).quietView = w.quietView := by
  refine congrArg (QuietView.mk · _) (funext fun q => ?_)
  simp only [World.signalsOf, World.task?, World.modifyTask]
  rw [OrdMap.get?_modify]
  by_cases hq : q = pid
  · rw [if_pos hq, Option.map_map]
    exact congrArg (Option.map · _) (funext hf)
  · rw [if_neg hq]

instance : BlindSlots World.quietView where
  tick _ _ := rfl
  slots _ _ := rfl
  ledger _ _ := rfl

instance : BlindTrace World.quietView := ⟨fun _ _ => rfl⟩

instance : BlindRecords World.quietView where
  hostPidMap _ _ := rfl
  stale _ _ := rfl
  record w pid _ hf := w.quietView_modifyTask pid fun t => (hf t).2.1
  stopLog _ _ := rfl
  stopSkewed _ _ := rfl

instance : BlindWaits World.quietView :=
  ⟨fun _ _ => rfl, fun _ _ => rfl, fun _ _ => rfl, fun _ _ => rfl, fun _ _ => rfl, fun _ _ => rfl⟩

instance : BlindCaller World.quietView := ⟨fun _ _ => rfl⟩

instance : BlindFiles World.quietView where
  cloexecLog _ _ := rfl
  positionSplit _ _ := rfl
  endpoints _ _ := rfl
  doubleClose _ _ := rfl
  asyncFree _ _ := rfl
  asyncRegions _ _ := rfl
  asyncVaddr _ _ := rfl
  iouring _ _ := rfl
  fdOverflow _ _ := rfl
  earlyRecycle _ _ := rfl
  files w pid _ := w.quietView_modifyTask pid fun _ => rfl

instance : BlindMemory World.quietView where
  vspace w pid _ := w.quietView_modifyTask pid fun _ => rfl
  tables w pid _ := w.quietView_modifyTask pid fun _ => rfl
  scratch _ _ _ := rfl
  writeFrame _ _ _ := rfl
  frames _ _ _ := rfl
  refs _ _ := rfl
  doubleFree _ _ := rfl
  mm w pid _ := w.quietView_modifyTask pid fun _ => rfl
  fileMapLog _ _ := rfl

section Quiet

variable {idle : List Nat}

instance : BlindSlots (World.SleepQuiet idle) := BlindSlots.comp
    (V := World.quietView) _ inferInstance

instance : BlindTrace (World.SleepQuiet idle) := BlindTrace.comp
    (V := World.quietView) _ inferInstance

instance : BlindRecords (World.SleepQuiet idle) :=
  BlindRecords.comp (V := World.quietView) _ inferInstance

instance : BlindWaits (World.SleepQuiet idle) := BlindWaits.comp
    (V := World.quietView) _ inferInstance

instance : BlindCaller (World.SleepQuiet idle) :=
  BlindCaller.comp (V := World.quietView) _ inferInstance

instance : BlindFiles (World.SleepQuiet idle) := BlindFiles.comp
    (V := World.quietView) _ inferInstance

instance : BlindMemory (World.SleepQuiet idle) :=
  BlindMemory.comp (V := World.quietView) _ inferInstance

/-- The signals after a change of those of one process. -/
theorem World.signalsOf_modifySignal (w : World) (pid q : Nat) (f : SignalStruct → SignalStruct) :
    (w.modifySignal pid f).signalsOf q
      = if q = pid then (w.signalsOf q).map f else w.signalsOf q := by
  simp only [World.signalsOf, World.task?, World.modifySignal, World.modifyTask]
  rw [OrdMap.get?_modify]
  by_cases hq : q = pid
  · rw [if_pos hq, if_pos hq, Option.map_map, Option.map_map]
    rfl
  · rw [if_neg hq, if_neg hq]

/-- A change that makes no signal deliverable, or one of a process without a reply that waits. -/
theorem modifySignal_quiet (pid : Nat) {f : SignalStruct → SignalStruct}
    (h : (∀ s, s.deliverable = 0 → (f s).deliverable = 0) ∨ pid ∈ idle) :
    Keeps (World.SleepQuiet idle) (modifySignal pid f) := by
  intro w hw
  refine ⟨?_, hw.2⟩
  intro q p s hq hp hs
  have hs' : (w.modifySignal pid f).signalsOf q = some s := hs
  rw [World.signalsOf_modifySignal] at hs'
  split at hs'
  · rename_i heq
    obtain ⟨s₀, hs₀, rfl⟩ := Option.map_eq_some_iff.mp hs'
    rcases h with hquiet | hidle
    · exact hquiet s₀ (hw.1 q p s₀ hq hp hs₀)
    · have hnone : w.pendingSleepReplies.get? q = none := heq ▸ hw.2 pid hidle
      have hsome : w.pendingSleepReplies.get? q = some p := hp
      rw [hnone] at hsome
      cases hsome
  · exact hw.1 q p s hq hp hs'

/-- A process in `idle` may change its own signals. -/
theorem SleepQuiet.ownSignals {pid : Nat} (h : pid ∈ idle) :
    OwnSignals (World.SleepQuiet idle) pid :=
  ⟨fun _ _ => modifySignal_quiet pid (.inr h)⟩

instance (pid : Nat) : PopKeeps (World.SleepQuiet idle) pid :=
  PopKeeps.of_clear fun idx => modifySignal_quiet pid (.inl fun _ => clearPending_deliverable idx)

/-- Fewer processes that are known to be idle. -/
theorem QuietView.Quiet.tail {pid : Nat} {except : Option Nat} {v : QuietView}
    (h : v.Quiet except (pid :: idle)) : v.Quiet except idle :=
  ⟨h.1, fun q hq => h.2 q (List.mem_cons_of_mem _ hq)⟩

/-- A process without a reply that waits needs no exception. -/
theorem QuietView.Quiet.of_none {pid : Nat} {v : QuietView} (h : v.Quiet (some pid) idle)
    (hnone : v.pending.get? pid = none) : v.Quiet none (pid :: idle) := by
  constructor
  · intro q p s _ hp hs
    refine h.1 q p s (fun heq => ?_) hp hs
    injection heq with heq
    rw [heq, hnone] at hp
    cases hp
  · intro q hq
    rcases List.mem_cons.mp hq with rfl | hmem
    · exact hnone
    · exact h.2 q hmem

/-- A reply that is out of the table. -/
theorem QuietView.Quiet.erase {pid : Nat} {v : QuietView} (h : v.Quiet (some pid) idle) :
    ({ v with pending := v.pending.erase pid } : QuietView).Quiet none (pid :: idle) := by
  refine QuietView.Quiet.of_none ⟨fun q p s hq hp hs => ?_, fun q hq => ?_⟩
    (OrdMap.get?_erase_self _ _)
  · refine h.1 q p s hq ?_ hs
    rwa [OrdMap.get?_erase_ne _ fun heq => hq (congrArg some heq)] at hp
  · show (v.pending.erase pid).get? q = none
    rw [OrdMap.get?_erase]
    split
    · rfl
    · exact h.2 q hq

/-- One process more may be excepted. -/
theorem QuietView.Quiet.weaken {pid : Nat} {v : QuietView} (h : v.Quiet none idle) :
    v.Quiet (some pid) idle :=
  ⟨fun q p s _ => h.1 q p s (by simp), h.2⟩

/-- The reply to a sleep is not seen by the view of signals and sleeps. -/
theorem replyPendingSleep_quietView (pid : Nat) (p : PendingSleepReply) (ret : Int)
    (remainNs : Nat) : Frames World.quietView (replyPendingSleep pid p ret remainNs) :=
  Frames.bind (Frames.of_keeps fun v => by simp) fun _ =>
    Frames.bind (Frames.of_keeps fun v => by simp) fun _ => fun _ => rfl

/-- After an interruption the process has no reply that waits. -/
theorem interruptPendingSleepReply_quiet (pid : Nat) :
    Triple (fun w => w.quietView.Quiet (some pid) idle) (interruptPendingSleepReply pid)
      (fun _ => World.SleepQuiet (pid :: idle)) (fun _ => World.SleepQuiet (pid :: idle)) := by
  refine Triple.bind (R := fun o w => w.quietView.Quiet (some pid) idle ∧
    w.pendingSleepReplies.get? pid = o) (Triple.gets fun w h => ⟨h, rfl⟩) fun pending => ?_
  refine Triple.whenSome (fun p _ => ?_) fun w hnone h => h.1.of_none (h.2.trans hnone)
  refine Triple.bind (R := fun _ => World.SleepQuiet (pid :: idle))
    (Triple.modify fun w h => h.1.erase) fun _ => ?_
  refine Keeps.triple (Keeps.bind (by simp) fun now => ?_)
  exact (replyPendingSleep_quietView pid p _ _).keeps (QuietView.Quiet none (pid :: idle))

/-- A reply that is taken out of the table and finished. -/
theorem takeReply_quiet (pid : Nat) {c : M Unit} (hc : Frames World.quietView c) :
    Keeps (World.SleepQuiet idle) (do
      modify fun w => { w with pendingSleepReplies := w.pendingSleepReplies.erase pid }
      c) :=
  Keeps.bind (fun _ h => h.weaken.erase.tail) fun _ => hc.keeps (QuietView.Quiet none idle)

instance : SleepsKeeps (World.SleepQuiet idle) where
  interrupt pid := ((interruptPendingSleepReply_quiet pid).imp (fun _ h => h.weaken)
    (fun _ _ h => h.tail) fun _ _ h => h.tail).keeps
  complete pid requestId := by
    refine Keeps.bind (Keeps.gets _) fun pending => Keeps.whenSome fun p => ?_
    exact Keeps.ite (Keeps.pure _) (takeReply_quiet pid (replyPendingSleep_quietView _ _ _ _))
  drop pid := by
    refine Keeps.bind (Keeps.gets _) fun pending => Keeps.whenSome fun p => ?_
    exact takeReply_quiet pid (Frames.bind (by simp) fun _ => fun _ => rfl)

instance : QuietSignals (World.SleepQuiet idle) where
  quiet pid f hf := modifySignal_quiet pid (.inl fun s hs => (hf.deliverable s).trans hs)
  queue pid signum := by
    refine Triple.keeps (Triple.bind (R := fun o w => w.SleepQuiet idle ∧ w.task? pid = o)
      (Triple.gets fun w h => ⟨h, rfl⟩) fun task => ?_)
    refine Triple.whenSome (fun t ht => ?_) fun w _ h => h.1
    refine Triple.whenSome (fun bit _ => ?_) fun w _ h => h.1
    subst ht
    -- the queued signal may break the invariant at `pid`, and only there
    refine Triple.bind (R := fun _ w => w.quietView.Quiet (some pid) idle ∧
      w.signalsOf pid = some (t.signal.queueSignal bit)) (Triple.modify ?_) fun _ => ?_
    · intro w h
      refine ⟨⟨?_, h.1.2⟩, ?_⟩
      · intro q p s hq hp hs
        have hs' : (w.modifySignal pid (·.queueSignal bit)).signalsOf q = some s := hs
        rw [World.signalsOf_modifySignal, if_neg fun heq => hq (congrArg some heq)] at hs'
        exact h.1.1 q p s (by simp) hp hs'
      · rw [World.signalsOf_modifySignal, if_pos rfl, World.signalsOf, h.2]
        rfl
    refine Triple.bind (R := fun _ w => w.quietView.Quiet (some pid) idle ∧
      w.signalsOf pid = some (t.signal.queueSignal bit)) (Triple.modify fun w h => h) fun _ => ?_
    refine Triple.bind (R := fun _ w => w.SleepQuiet idle ∧
      ((t.signal.queueSignal bit).deliverable ≠ 0 → w.SleepQuiet (pid :: idle))) ?_ fun _ => ?_
    · refine Triple.when (fun _ => ?_) ?_
      · exact (interruptPendingSleepReply_quiet pid).imp (fun _ h => h.1)
          (fun _ _ h => ⟨h.tail, fun _ => h⟩) fun _ _ h => h.tail
      · intro w hzero h
        have hzero := not_not.mp hzero
        refine ⟨⟨?_, h.1.2⟩, fun hne => absurd hzero hne⟩
        intro q p s _ hp hs
        by_cases hq : q = pid
        · have hs' : w.signalsOf q = some s := hs
          rw [hq, h.2] at hs'
          cases hs'
          exact hzero
        · exact h.1.1 q p s (fun heq => hq (by injection heq)) hp hs
    · refine Triple.bind (R := fun _ => World.SleepQuiet idle) ?_ fun _ =>
        Triple.modify fun w h => h
      refine Triple.when (fun hp => ?_) fun w _ h => h.1
      have hown : OwnSignals (World.SleepQuiet (pid :: idle)) pid :=
        SleepQuiet.ownSignals List.mem_cons_self
      exact (wakeFromSigsuspend_keeps pid).triple.imp (fun _ h => h.2 hp.2) (fun _ _ h => h.tail)
        fun _ _ h => h.tail
  dropped := fun _ h => h
  waitIntr := fun _ _ h => h

instance : WaitsKeeps (World.SleepQuiet idle) := inferInstance

instance : ContKeeps (World.SleepQuiet idle) :=
  ContKeeps.of_clear fun pid idx =>
    modifySignal_quiet pid (.inl fun _ => clearPending_deliverable idx)

instance : ProcessKeeps (World.SleepQuiet idle) where
  erase w pid h _ := by
    refine ⟨?_, h.2⟩
    intro q p s hq hp hs
    have hs' : ((w.tasks.erase pid).get? q).map (·.signal) = some s := hs
    rw [OrdMap.get?_erase] at hs'
    split at hs'
    · cases hs'
    · exact h.1 q p s hq hp hs'
  register w parentPid cnode h := by
    refine ⟨?_, h.2⟩
    intro q p s hq hp hs
    have hs' : ((w.registered parentPid cnode).tasks.get? q).map (·.signal) = some s := hs
    rw [World.registered, OrdMap.get?_insert] at hs'
    -- a new process has no signals
    split at hs'
    · cases hs'
      show SignalStruct.new.deliverable = 0
      decide
    · exact h.1 q p s hq hp hs'
  inherit w child parent pid h _ := by
    refine ⟨?_, h.2⟩
    intro q p s hq hp hs
    have hs' : ((w.modifyTask child (·.inherit parent)).task? q).map (·.signal) = some s := hs
    rw [World.task?, World.modifyTask, OrdMap.get?_modify] at hs'
    split at hs'
    · -- a child starts without pending signals
      rw [Option.map_map] at hs'
      obtain ⟨t', _, rfl⟩ := Option.map_eq_some_iff.mp hs'
      have hpending : (t'.inherit parent).signal.signalPending = 0 := by
        unfold TaskStruct.inherit
        dsimp only
        split <;> rfl
      show (t'.inherit parent).signal.signalPending &&& _ = 0
      rw [hpending]
      exact BitVec.zero_and
    · exact h.1 q p s hq hp hs'
  panicked w b h := h

end Quiet

/-- A sleep is scheduled when no signal can be delivered, and then its process waits. -/
theorem scheduleNanosleepAsync_quiet (pid reqNs remPtr : Nat) :
    Triple (fun w => w.SleepQuiet [pid] ∧ w.hasDeliverableSignal pid = false)
      (scheduleNanosleepAsync pid reqNs remPtr) (fun _ => World.SleepQuiet [])
      (fun _ => World.SleepQuiet [pid]) := by
  -- no signal can be taken for the sleeper until its request is in the table
  let Idle (v : QuietView) : Prop :=
    v.Quiet none [pid] ∧ ∀ s, v.signals pid = some s → s.deliverable = 0
  have hstep : ∀ {α : Type} {c : M α}, (∀ v, Keeps (fun w => w.quietView = v) c) →
      Triple (fun w => Idle w.quietView) c (fun _ w => Idle w.quietView)
        (fun _ => World.SleepQuiet [pid]) := fun hk =>
    ((Frames.of_keeps hk).keeps Idle).triple.errors fun _ _ h => h.1
  refine Triple.pre (K := fun w => Idle w.quietView) ?_ fun w h =>
    show Idle w.quietView from ⟨h.1, ?_⟩
  · refine Triple.bind (hstep fun v => by simp) fun now => Triple.bind (hstep fun v => by simp)
      fun slot => Triple.bind (hstep fun v => by simp) fun requestId => ?_
    refine Triple.bind (R := fun _ => World.SleepQuiet []) (Triple.modify fun w h => ?_) fun _ =>
      Triple.modify fun w h => h
    refine ⟨?_, fun _ hmem => by cases hmem⟩
    intro q p s hq hp hs
    by_cases heq : q = pid
    -- the new request is the only one that was not there before
    · exact h.2 s (heq ▸ hs)
    · have hp' : (w.pendingSleepReplies.insert pid _).get? q = some p := hp
      rw [OrdMap.get?_insert_ne _ _ heq] at hp'
      exact h.1.1 q p s hq hp' hs
  · intro s hs
    obtain ⟨t, ht, rfl⟩ := Option.map_eq_some_iff.mp hs
    have hno := h.2
    simpa [World.hasDeliverableSignal, ht] using hno

/-- `nanosleep` by a process without a reply that waits. It ends with `Err(Success)` when its
reply is deferred. -/
theorem doNanosleep_quiet (pid req rem : Nat) :
    Triple (World.SleepQuiet [pid]) (doNanosleep pid req rem) (fun _ => World.SleepQuiet [pid])
      (fun e w => w.SleepQuiet [] ∧ (e ≠ .success → w.SleepQuiet [pid])) := by
  have hkeep : ∀ {α : Type} {c : M α}, Keeps (World.SleepQuiet [pid]) c →
      Triple (World.SleepQuiet [pid]) c (fun _ => World.SleepQuiet [pid])
        (fun e w => w.SleepQuiet [] ∧ (e ≠ .success → w.SleepQuiet [pid])) := fun hk =>
    hk.triple.errors fun _ _ h => ⟨h.tail, fun _ => h⟩
  unfold doNanosleep
  refine Triple.ite (fun _ => hkeep (by simp)) fun _ => ?_
  refine Triple.bind (hkeep (by simp)) fun ts => ?_
  split
  · exact hkeep (by simp)
  · exact hkeep (by simp)
  · refine Triple.bind (R := fun signalled w => w.SleepQuiet [pid] ∧
      w.hasDeliverableSignal pid = signalled) (Triple.gets fun w h => ⟨h, rfl⟩) fun signalled => ?_
    -- with a signal the call is interrupted before it queues anything
    refine Triple.ite (fun _ => (hkeep (by simp)).pre fun w h => h.1) fun hno => ?_
    refine Triple.bind (R := fun _ => World.SleepQuiet []) ?_ fun _ =>
      Triple.throw fun w h => ⟨h, fun hne => absurd rfl hne⟩
    refine (scheduleNanosleepAsync_quiet pid _ rem).imp (fun w h => ⟨h.1, ?_⟩) (fun _ _ h => h)
      fun _ _ h => ⟨h.tail, fun _ => h⟩
    rw [h.2]
    simpa using hno

/-- A call by a process without a reply that waits. -/
theorem handleSyscall_quiet (pid : Nat) (sys : Syscall) {w : World} (hw : w.SleepQuiet [pid]) :
    ((handleSyscall pid sys).run w).2.SleepQuiet [] := by
  have hown : OwnSignals (World.SleepQuiet [pid]) pid := SleepQuiet.ownSignals List.mem_cons_self
  have hfinish : ∀ ret, Keeps (World.SleepQuiet [pid]) (finishSyscall pid sys ret) :=
    finishSyscall_keeps (terminateProcess_keeps_blind pid) sys
  by_cases hsleep : ∃ req rem, sys = .nanosleep req rem
  · obtain ⟨req, rem, rfl⟩ := hsleep
    obtain ⟨hok, herr⟩ := doNanosleep_quiet pid req rem w hw
    -- only a sleep that was scheduled leaves a reply, and it skips the look for a signal
    have hroute : ((doNanosleep pid req rem).run w).2.SleepQuiet [] ∧
        (((doNanosleep pid req rem).run w).1 ≠ .error .success →
          ((doNanosleep pid req rem).run w).2.SleepQuiet [pid]) := by
      cases hr : ((doNanosleep pid req rem).run w).1 with
      | ok ret => exact ⟨(hok ret hr).tail, fun _ => hok ret hr⟩
      | error e => exact ⟨(herr e hr).1, fun hne => (herr e hr).2 fun heq => hne (by rw [heq])⟩
    rcases handleSyscall_cases pid (.nanosleep req rem) w with ⟨_, heq⟩ | ⟨hne, heq⟩
    · rw [heq]
      exact hroute.1
    · rw [heq]
      exact (hfinish _ _ (hroute.2 hne)).tail
  · refine QuietView.Quiet.tail (handleSyscall_keeps_at hfinish ?_)
    exact routeSyscall_keeps_at terminateProcess_keeps_blind pid sys hw
      (fun hmem => memoryCall_keeps_blind pid hmem _ hw)
      (fun hjob => jobCall_keeps pid hjob _ hw)
      (fun _ _ _ hsys => hsys ▸ doWait4_keeps _ _ _ _ _ hw) fun req rem hsys =>
        (hsleep ⟨req, rem, hsys⟩).elim

/-! ### Completions -/

/-- The completion of request `id` of `pid` leaves every other request waiting, and sends a reply
only from the slot of that request. -/
def World.AnswersOnly (w w' : World) (pid id : Nat) : Prop :=
  (∀ q p, w.pendingSleepReplies.get? q = some p → (q, p.requestId) ≠ (pid, id) →
    w'.pendingSleepReplies.get? q = some p) ∧
  (w'.sleepLog = w.sleepLog ∧ w'.trace = w.trace ∨
    ∃ p value, w.pendingSleepReplies.get? pid = some p ∧ p.requestId = id ∧
      w'.sleepLog = w.sleepLog ++ [.finished pid id p.replySlot] ∧
      w'.trace = w.trace ++ [.replied p.replySlot value])

/-- A reply is one entry of the trace and one of the log. -/
theorem replyPendingSleep_effects (pid : Nat) (p : PendingSleepReply) (ret : Int) (remainNs : Nat)
    (w : World) :
    ((replyPendingSleep pid p ret remainNs).run w).2.sleeps = w.sleeps.finish pid p ∧
    ∃ value, ((replyPendingSleep pid p ret remainNs).run w).2.trace
      = w.trace ++ [.replied p.replySlot value] := by
  have htrace : Frames World.trace (storeForReply pid p.remPtr (nsToTimespec remainNs).bytes ret) :=
    Frames.of_keeps fun v => by simp
  have hsleeps : Frames World.sleeps (storeForReply pid p.remPtr
    (nsToTimespec remainNs).bytes ret) :=
    Frames.of_keeps fun v => by simp
  have htrace := htrace w
  have hsleeps := hsleeps w
  rcases hrun : (storeForReply pid p.remPtr (nsToTimespec remainNs).bytes
    ret).run w with ⟨e | v, w'⟩
  · exact absurd (congrArg Prod.fst hrun) (storeForReply_total _ _ _ _ w e)
  · rw [hrun] at htrace hsleeps
    rw [replyPendingSleep, run_bind_ok hrun]
    exact ⟨congrArg (SleepView.finish · pid p) hsleeps, v, congrArg (· ++ _) htrace⟩

/-- A completion changes nothing, unless the request it was made for waits. Then it takes that
request out of the table and answers it. -/
theorem completeSleepReply_cases (pid id : Nat) (w : World) :
    (∃ p, w.pendingSleepReplies.get? pid = some p ∧ p.requestId = id ∧
      (completeSleepReply pid id).run w = (replyPendingSleep pid p 0 0).run
        { w with pendingSleepReplies := w.pendingSleepReplies.erase pid }) ∨
    ((∀ p, w.pendingSleepReplies.get? pid = some p → p.requestId ≠ id) ∧
      (completeSleepReply pid id).run w = (.ok (), w)) := by
  unfold completeSleepReply
  rw [run_gets_bind]
  cases hp : w.pendingSleepReplies.get? pid with
  | none => exact .inr ⟨fun p h => (by cases h), rfl⟩
  | some p =>
    by_cases hid : p.requestId = id
    · refine .inl ⟨p, rfl, hid, ?_⟩
      simp only [Cmd.whenSome]
      rw [if_neg (not_not.mpr hid), run_modify_bind]
    · refine .inr ⟨fun p' h => ?_, ?_⟩
      · cases h
        exact hid
      · simp only [Cmd.whenSome]
        rw [if_pos hid]
        rfl

/-- The state after a completion is served. -/
theorem dispatch_sleepDone_state (pid id : Nat) (w : World) :
    ((dispatch (.sleepDone pid id)).run w).2 = { ((completeSleepReply pid id).run
      { w with activeCallerPid := none }).2 with activeCallerPid := none } := by
  have hhandle : ∀ v, ((handle (.sleepDone pid id)).run v).2
    = ((completeSleepReply pid id).run v).2 := by
    intro v
    unfold handle
    rw [run_bind]
    split <;> simp_all
  have hout : ∀ (out : Except Err Int) (v : World), ((ofExcept out : M Int).run v).2 = v :=
    fun out v => by cases out <;> rfl
  show ((ofExcept _ : M Int).run { ((handle
    (.sleepDone pid id)).run _).2 with activeCallerPid := none }).2 = _
  rw [hout, hhandle]
  rfl

/-- A completion answers the request it was made for, or nothing. -/
theorem sleepDone_answersOnly (pid id : Nat) (w : World) :
    w.AnswersOnly ((dispatch (.sleepDone pid id)).run w).2 pid id := by
  rw [dispatch_sleepDone_state]
  rcases completeSleepReply_cases pid id { w with activeCallerPid := none } with
    ⟨p, hp, hid, hrun⟩ | ⟨_, hrun⟩
  · rw [hrun]
    let w₁ : World := { w with
      activeCallerPid := none, pendingSleepReplies := w.pendingSleepReplies.erase pid }
    obtain ⟨hsleeps, value, htrace⟩ := replyPendingSleep_effects pid p 0 0 w₁
    refine ⟨?_, .inr ⟨p, value, hp, hid, ?_, htrace⟩⟩
    · -- the request of another process, as the table has one for each
      intro q p' hq hne
      have hqpid : q ≠ pid := by
        rintro rfl
        have heq : some p' = some p := hq.symm.trans hp
        cases heq
        exact hne (by rw [hid])
      have hpending := congrArg SleepView.pending hsleeps
      show (SleepView.pending (World.sleeps _)).get? q = some p'
      rw [hpending]
      exact (OrdMap.get?_erase_ne _ hqpid).trans hq
    · rw [← hid]
      exact congrArg SleepView.log hsleeps
  · rw [hrun]
    exact ⟨fun q p hq _ => hq, .inl ⟨rfl, rfl⟩⟩

/-- A completion that comes after its request was finished changes nothing. -/
theorem sleepDone_stale {pid id : Nat} {w : World} (hs : w.sleeps.Sound)
    (hid : id ∈ w.sleeps.finishedIds) :
    ((dispatch (.sleepDone pid id)).run w).2.pendingSleepReplies = w.pendingSleepReplies ∧
    ((dispatch (.sleepDone pid id)).run w).2.trace = w.trace := by
  rw [dispatch_sleepDone_state]
  rcases completeSleepReply_cases pid id { w with activeCallerPid := none } with
    ⟨p, hp, rfl, _⟩ | ⟨_, hrun⟩
  · exact absurd hid (hs.pendingOpen pid p hp)
  · rw [hrun]
    exact ⟨rfl, rfl⟩

/-! ### Runs -/

/-- A request other than a completion, and no call of a process whose reply is deferred. -/
structure World.Admits (w : World) (r : Request) : Prop where
  noCompletion : ∀ pid id, r ≠ .sleepDone pid id
  notDeferred : ∀ pid sys, r = .syscall pid sys → w.pendingSleepReplies.get? pid = none

/-- The runs in which a process makes no call while its reply is deferred, and a completion of a
sleep that was started is delivered at most once, at any time and in any order. `delivered` has
the completions that were delivered. -/
inductive SleepRun : World → List (Nat × Nat) → Prop where
  | boot {w w' : World} {path : String} :
      w.Initial → (loadInit path).run w = (.ok (), w') → SleepRun w' []
  | request {w w' : World} {delivered : List (Nat × Nat)} {r : Request} :
      SleepRun w delivered → w.Admits r → Step w r w' → SleepRun w' delivered
  | completion {w w' : World} {delivered : List (Nat × Nat)} {pid id slot : Nat} :
      SleepRun w delivered → w.sleeps.Started pid id slot → (pid, id) ∉ delivered →
      Step w (.sleepDone pid id) w' → SleepRun w' ((pid, id) :: delivered)

/-- A run of sleeps is a run. -/
theorem SleepRun.reachable {w : World} {delivered : List (Nat × Nat)} (h : SleepRun w delivered) :
    Reachable w := by
  induction h with
  | boot hi hr => exact .boot hi hr
  | request _ _ hs ih => exact ih.step hs
  | completion _ _ _ hs ih => exact ih.step hs

/-- A request that a run admits. -/
theorem dispatch_quiet {r : Request} {w : World} (hw : w.SleepQuiet []) (hr : w.Admits r) :
    ((dispatch r).run w).2.SleepQuiet [] := by
  have hcaller : ∀ idle, w.SleepQuiet idle →
      World.SleepQuiet idle { w with activeCallerPid := r.caller } := fun _ h => h
  refine dispatch_at_of_handle ?_
  cases r with
  | syscall pid sys =>
    refine handleSyscall_quiet pid sys (hcaller _ ⟨hw.1, ?_⟩)
    intro q hq
    rw [List.mem_singleton.mp hq]
    exact hr.notDeferred pid sys rfl
  | pageFault pid addr cause =>
    rw [handle_pageFault_state]
    exact pageFault_keeps_blind pid (terminateProcess_keeps_blind pid) _ _ _ (hcaller _ hw)
  | fault pid kind =>
    exact Keeps.bind (terminateProcess_keeps_blind _ _) (fun _ => Keeps.pure _) _ (hcaller _ hw)
  | sleepDone pid id => exact (hr.noCompletion pid id rfl).elim

/-- Between the requests of a run no sleeper has a signal to take. -/
theorem SleepRun.quiet {w : World} {delivered : List (Nat × Nat)} (h : SleepRun w delivered) :
    w.SleepQuiet [] := by
  induction h with
  | @boot w w' path hi hr =>
    have hstart : w.SleepQuiet [] := by
      refine ⟨?_, fun _ hq => by cases hq⟩
      intro q p s _ hp _
      have hp' : w.pendingSleepReplies.get? q = some p := hp
      rw [hi.noSleeps] at hp'
      cases hp'
    have hload := loadInit_keeps_blind (I := World.SleepQuiet []) path w hstart
    rwa [hr] at hload
  | request _ hr hs ih =>
    rw [← hs.2]
    exact dispatch_quiet ih hr
  | completion _ _ _ hs ih =>
    rw [← hs.2]
    exact dispatch_at_of_handle (Keeps.bind (SleepsKeeps.complete _ _) (fun _ => Keeps.pure _) _ ih)

/-- The reply protocol of `nanosleep`, in every state of a run whose ids have not saturated. A
reserved reply slot is finished at most once, and only after it was reserved. A completion answers
the request it was made for or nothing, and nothing when that request is finished. A process whose
reply is deferred has no signal that can be delivered. The timer gets at least the time that was
asked for. -/
theorem nanosleep_reply_protocol {w : World} {delivered : List (Nat × Nat)}
    (h : SleepRun w delivered) (hsat : w.idSaturated = false) :
    (w.sleeps.finishedIds.Nodup ∧
      ∀ pid id slot, .finished pid id slot ∈ w.sleepLog → w.sleeps.Started pid id slot) ∧
    (w.sleeps.startedIds.Nodup ∧
      ∀ pid id w', Step w (.sleepDone pid id) w' → w.AnswersOnly w' pid id ∧
        (id ∈ w.sleeps.finishedIds →
          w'.pendingSleepReplies = w.pendingSleepReplies ∧ w'.trace = w.trace)) ∧
    (∀ pid p t, w.pendingSleepReplies.get? pid = some p → w.task? pid = some t →
      t.signal.signalPending &&& ~~~t.signal.signalBlocked = 0) ∧
    (∀ pid id slot ns ms, .started pid id slot ns ms ∈ w.sleepLog → ns ≤ ms * 1000000) := by
  have hs : w.sleeps.Sound := h.reachable.sleepsOk.2 hsat
  refine ⟨⟨hs.finishedOnce, hs.finishedStarted⟩, ⟨hs.idsOnce, ?_⟩, ?_, hs.longEnough⟩
  · intro pid id w' hstep
    rw [← hstep.2]
    exact ⟨sleepDone_answersOnly pid id w, sleepDone_stale hs⟩
  · intro pid p t hp ht
    refine h.quiet.1 pid p t.signal (by simp) hp ?_
    show (w.task? pid).map (·.signal) = some t.signal
    rw [ht]
    rfl

/-! ### A stale completion

`init` sleeps, a signal of its child interrupts the sleep, and `init` sleeps again. The completion
of the first sleep arrives after that. -/

/-- The server when `init` sleeps for the first time. -/
def sampleSleep : World :=
  (sampleFork.after (.syscall 1 (.userWrite 0x3ffff800 (leBytes 8 0 ++ leBytes 8 1500000)))).after
    (.syscall 1 (.nanosleep 0x3ffff800 0))

/-- The server when `init` sleeps again, after `SIGCHLD` interrupted its first sleep and a call. -/
def sampleSleepAgain : World :=
  ((sampleSleep.after (.syscall 2 (.kill 1 17))).after
    (.syscall 1 (.nanosleep 0x3ffff800 0))).after (.syscall 1 (.nanosleep 0x3ffff800 0))

/-- A run goes on with a call of a process that does not sleep. -/
theorem SleepRun.after {w : World} {delivered : List (Nat × Nat)} (h : SleepRun w delivered)
    {pid : Nat} {sys : Syscall} (hidle : w.pendingSleepReplies.get? pid = none)
    (hr : w.returns (.syscall pid sys)) : SleepRun (w.after (.syscall pid sys)) delivered := by
  refine h.request ⟨fun _ _ heq => (by cases heq),
    fun q sys' heq => ?_⟩ ⟨⟨fun heq => ?_, fun heq => ?_⟩, rfl⟩
  · cases heq
    exact hidle
  · simp [World.returns, heq] at hr
  · simp [World.returns, heq] at hr

/-- The sample in which a process sleeps again is such a run. -/
theorem sampleSleepAgain_run : SleepRun sampleSleepAgain [] := by
  have hboot : SleepRun sampleBoot [] := .boot sampleStart_initial sampleBoot_run
  have hfork : SleepRun sampleFork [] := hboot.after (by decide +kernel) (by decide +kernel)
  have hsleep : SleepRun sampleSleep [] :=
    (hfork.after (by decide +kernel) (by decide +kernel)).after (by decide +kernel)
      (by decide +kernel)
  exact ((hsleep.after (by decide +kernel) (by decide +kernel)).after (by decide +kernel)
    (by decide +kernel)).after (by decide +kernel) (by decide +kernel)

/-- The completion of the first sleep leaves the second one waiting. -/
theorem nanosleep_reply_protocol_stale :
    SleepRun sampleSleepAgain [] ∧ sampleSleepAgain.idSaturated = false ∧
    sampleSleepAgain.sleeps.finishedIds = [1] ∧
    (sampleSleepAgain.pendingSleepReplies.get? 1).map (·.requestId) = some 2 ∧
    (sampleSleepAgain.after (.sleepDone 1 1)).pendingSleepReplies
      = sampleSleepAgain.pendingSleepReplies := by
  have hsat : sampleSleepAgain.idSaturated = false := by decide +kernel
  have hids : sampleSleepAgain.sleeps.finishedIds = [1] := by decide +kernel
  have hreturned : Returned ((dispatch (.sleepDone 1 1)).run sampleSleepAgain).1 := by
    constructor <;> decide +kernel
  refine ⟨sampleSleepAgain_run, hsat, hids, by decide +kernel, ?_⟩
  have hcompletion :=
    (nanosleep_reply_protocol sampleSleepAgain_run hsat).2.1.2 1 1 _ ⟨hreturned, rfl⟩
  exact (hcompletion.2 (by rw [hids]; exact List.mem_singleton.mpr rfl)).1

end Ape
