import Ape.Proofs.Masks

/-!
# `Ape.Proofs.Stops`: the stop of a process, by `kill` and on a syscall return

A syscall return stops its process for `SIGTSTP`, `SIGTTIN` or `SIGTTOU` only when the signal is not
blocked and has the default action (`returnStops_iff`). `kill` suspends the other targets and
reports the stop of every target without a look at either. `kill_obeys_iff` says for which calls the
two agree all the same.
-/

set_option autoImplicit false

namespace Ape

open Ape.Lib Cmd

/-! ### What is seen of a stop -/

/-- The event reports that the process stopped. -/
def ChildStateEvent.isStopOf (pid : Nat) (e : ChildStateEvent) : Bool :=
  decide (e.childPid = pid) && decide (e.kind = .stopped)

/-- The parent and the stopped mark of a process. -/
def World.stopRecord (pid : Nat) (w : World) : Option (Nat × Bool) :=
  (w.task? pid).map fun t => (t.parentPid, t.stopped)

/-- What is seen of the stops of a process: its record, how often its thread was suspended, and the
reports to each parent. -/
structure StopView where
  record : Option (Nat × Bool)
  suspensions : Nat
  reports : Nat → List ChildStateEvent

/-- What is seen of the stops of the process `pid`. -/
def World.stopView (pid : Nat) (w : World) : StopView :=
  ⟨w.stopRecord pid, w.eventCount (Event.stops pid),
    fun parent => (w.eventsOf parent).filter (ChildStateEvent.isStopOf pid)⟩

/-- A change of a process record that keeps the parent and the stopped mark. -/
theorem World.stopRecord_modifyTask (w : World) (pid q : Nat) {f : TaskStruct → TaskStruct}
    (hf : q = pid → ∀ t, (f t).parentPid = t.parentPid ∧ (f t).stopped = t.stopped) :
    (w.modifyTask pid f).stopRecord q = w.stopRecord q := by
  rw [World.stopRecord, World.stopRecord, World.task?, World.modifyTask, OrdMap.get?_modify]
  by_cases h : q = pid
  · rw [if_pos h, Option.map_map]
    refine congrArg (Option.map · _) (funext fun t => ?_)
    exact Prod.ext (hf h t).1 (hf h t).2
  · rw [if_neg h]
    rfl

/-- A change of a record that keeps the parent and the stop keeps the view of stops. -/
theorem World.stopView_modifyTask (w : World) (pid q : Nat) {f : TaskStruct → TaskStruct}
    (hf : q = pid → ∀ t, (f t).parentPid = t.parentPid ∧ (f t).stopped = t.stopped) :
    (w.modifyTask pid f).stopView q = w.stopView q :=
  congrArg (StopView.mk · _ _) (w.stopRecord_modifyTask pid q hf)

section Views

variable (q : Nat)

instance : BlindSlots (World.stopView q) where
  tick _ _ := rfl
  slots _ _ := rfl
  ledger _ _ := rfl

instance : BlindSignals (World.stopView q) :=
  ⟨fun w pid _ => w.stopView_modifyTask pid q fun _ _ => ⟨rfl, rfl⟩, fun _ _ => rfl, fun _ _ => rfl⟩

instance : BlindHosts (World.stopView q) := ⟨fun _ _ => rfl, fun _ _ => rfl⟩

instance : BlindSleeps (World.stopView q) :=
  ⟨fun _ _ => rfl, fun _ _ => rfl, fun _ _ => rfl, fun _ _ => rfl⟩

instance : BlindMemory (World.stopView q) where
  vspace w pid _ := w.stopView_modifyTask pid q fun _ _ => ⟨rfl, rfl⟩
  tables w pid _ := w.stopView_modifyTask pid q fun _ _ => ⟨rfl, rfl⟩
  scratch _ _ _ := rfl
  writeFrame _ _ _ := rfl
  frames _ _ _ := rfl
  refs _ _ := rfl
  doubleFree _ _ := rfl
  mm w pid _ := w.stopView_modifyTask pid q fun _ _ => ⟨rfl, rfl⟩
  fileMapLog _ _ := rfl

variable {q} (v : StopView)

/-- An event that is no stop is not seen by the view. -/
theorem emit_stopView {e : Event} (h : Event.stops q e = false) :
    Frames (World.stopView q) (emit e) :=
  fun w => congrArg (StopView.mk _ · _) (emit_eventCount h w)

instance : TraceKeeps fun w => w.stopView q = v where
  emit e _ := (emit_stopView (Event.Loud.quiet e)).keeps (· = v)

instance : QueuedKeeps fun w => w.stopView q = v where
  queued _ _ := (emit_stopView rfl).keeps (· = v)

end Views

/-! ### The stop on a syscall return -/

/-- The signal is not blocked, and has the default action. -/
def TaskStruct.stopsBy (t : TaskStruct) (signum : Nat) : Bool :=
  !t.signal.signalBlocked.getLsbD (signum - 1) &&
    decide ((t.signalAction signum).handler = SIG_DFL_HANDLER)

/-- The state in which the signal is the only pending one of the process. -/
def World.onlyPending (w : World) (pid : Nat) (bit : SigSet) : World :=
  w.modifySignal pid fun s => { s with signalPending := bit }

/-- A syscall return suspends the process for the signal, when the services let it. -/
def World.ReturnStops (w : World) (pid : Nat) (bit : SigSet) : Prop :=
  ∃ env, w.eventCount (Event.stops pid) <
    ((consumeDeliverableSignalOnSyscallReturn pid).run
      ((w.onlyPending pid bit).withEnv env)).2.eventCount
      (Event.stops pid)

section Return

variable {w : World} {pid signum : Nat} {t : TaskStruct} {bit : SigSet}

/-- The signal that a syscall return takes when one signal is pending. -/
theorem nextSignal_onlyPending (hbit : signalBit signum = some bit) :
    ({ t with signal := { t.signal with signalPending := bit } } : TaskStruct).nextSignal
      = if t.signal.signalBlocked.getLsbD (signum - 1) = true then none else some signum := by
  have hlt := signalBit_lt hbit
  have hpos := (signalBit_some hbit).1
  -- one signal is pending, so it is the deliverable one or none is
  let s : SignalStruct := { t.signal with signalPending := bit }
  have hset : ∀ i, i < 64 → s.deliverable.getLsbD i
      = (decide (i = signum - 1) && !t.signal.signalBlocked.getLsbD i) := by
    intro i hi
    rw [SignalStruct.deliverable_bit _ hi]
    show (bit.getLsbD i && _) = _
    rw [(signalBit_some hbit).2, getLsbD_bit _ _ hi]
  show (SigSet.lowest? s.deliverable).map (· + 1) = _
  split
  -- blocked, the signal stays pending and nothing is deliverable
  · rename_i hblocked
    have hzero : s.deliverable = 0 := by
      by_contra hne
      obtain ⟨i, hi, hi'⟩ := SigSet.ne_zero_iff.mp hne
      rw [hset i hi] at hi'
      simp only [Bool.and_eq_true, decide_eq_true_eq] at hi'
      rw [hi'.1, hblocked] at hi'
      cases hi'.2
    rw [SigSet.lowest?_eq_none.mpr hzero]
    rfl
  · rename_i hfree
    have hlow : SigSet.lowest? s.deliverable = some (signum - 1) := by
      refine SigSet.lowest?_eq_some.mpr ⟨hlt, ?_, fun j hj => ?_⟩
      · rw [hset _ hlt]
        simpa using hfree
      · rw [hset j (by omega)]
        have hne : j ≠ signum - 1 := by omega
        simp [hne]
    rw [hlow]
    show some (signum - 1 + 1) = some signum
    rw [Nat.sub_add_cancel hpos]

/-- The suspension of a thread, when the services agree. -/
theorem tcbSuspend_agreeing (henv : w.env = agreeing) (pid : Nat) :
    ((tcbSuspend pid).run w).2.eventCount (Event.stops pid) = w.eventCount (Event.stops pid) + 1 ∧
      ((tcbSuspend pid).run w).2.eventsOf = w.eventsOf := by
  obtain ⟨a, hext⟩ := run_ext_agreeing henv
  have hstops : Event.stops pid (.suspended pid) = true := beq_self_eq_true _
  rw [tcbSuspend, run_bind_ok hext]
  exact ⟨eventCount_emit hstops _, rfl⟩

/-- The stop on a syscall return suspends the thread, when the services agree. -/
theorem deliverStop_suspends (h : w.task? pid = some t) (henv : w.env = agreeing) (signum : Nat) :
    w.eventCount (Event.stops pid)
      < ((deliverStop pid signum).run w).2.eventCount (Event.stops pid) := by
  let n : Nat := w.eventCount (Event.stops pid) + 1
  let I (w : World) : Prop := n ≤ w.eventCount (Event.stops pid)
  have hsuspend : I ((attempt (tcbSuspend pid)).run w).2 := (tcbSuspend_agreeing henv pid).1.ge
  rw [deliverStop, run_bind_ok (run_getProcess h)]
  refine Triple.ends (P := fun w' => w' = w) (R := I) ?_ rfl
  refine Triple.bind (R := fun _ => I) ?_ fun r => Keeps.triple ?_
  · intro w' hw
    subst hw
    exact ⟨fun _ _ => hsuspend, fun _ _ => hsuspend⟩
  · refine Keeps.bind (by simp) fun _ => Keeps.bind (by simp) fun _ =>
      Keeps.bind ?_ fun _ => Keeps.pure _
    exact Keeps.when (Keeps.bind (by simp) fun _ => by simp)

/-- The delivery of a signal with another action stops nothing. -/
theorem deliverSignal_no_stop {action : SignalAction} (haction : action.handler ≠ SIG_DFL_HANDLER)
    (signum n : Nat) :
    Keeps (fun w => w.eventCount (Event.stops pid) = n) (deliverSignal pid signum action) := by
  unfold deliverSignal
  refine Keeps.ite (by simp) ?_
  rw [if_pos haction]
  exact Keeps.bind (by simp) fun _ => Keeps.bind (by simp) fun _ => by simp

/-- A syscall return stops its process for a stop signal exactly when the signal is not blocked and
has the default action. -/
theorem returnStops_iff (h : w.task? pid = some t) (hbit : signalBit signum = some bit)
    (hstop : defaultStopSignal signum = true) :
    w.ReturnStops pid bit ↔ t.stopsBy signum = true := by
  let t' : TaskStruct := { t with signal := { t.signal with signalPending := bit } }
  have hnext : t'.nextSignal = if t.signal.signalBlocked.getLsbD (signum - 1) = true then none
    else some signum := nextSignal_onlyPending hbit
  -- the task with this signal alone, whatever the environment answers
  have htask : ∀ env, ((w.onlyPending pid bit).withEnv env).task? pid = some t' := by
    intro env
    have hget : w.tasks.get? pid = some t := h
    show (w.tasks.modify pid _).get? pid = _
    rw [OrdMap.get?_modify, if_pos rfl, hget]
    rfl
  have hcount : ∀ env action, (((w.onlyPending pid bit).withEnv env).taken pid signum
    action).eventCount
      (Event.stops pid) = w.eventCount (Event.stops pid) := by
    intro env action
    exact emit_eventCount (p := Event.stops pid) (e := .dequeued pid signum action) rfl w
  rw [TaskStruct.stopsBy, Bool.and_eq_true, Bool.not_eq_true', decide_eq_true_eq]
  constructor
  · rintro ⟨env, henv⟩
    rw [run_consume (htask env), hnext] at henv
    by_cases hblocked : t.signal.signalBlocked.getLsbD (signum - 1) = true
    · rw [if_pos hblocked] at henv
      exact absurd henv (lt_irrefl _)
    · rw [if_neg hblocked] at henv
      refine ⟨Bool.eq_false_iff.mpr hblocked, ?_⟩
      -- a handler or `SIG_IGN` suspends nobody
      by_contra haction
      have haction' : (t'.signalAction signum).handler ≠ SIG_DFL_HANDLER := haction
      have hkeep := deliverSignal_no_stop haction' signum _ _ (hcount env (t'.signalAction signum))
      rw [hkeep] at henv
      exact lt_irrefl _ henv
  -- unblocked and with the default action the delivery suspends the process
  · rintro ⟨hfree, haction⟩
    refine ⟨agreeing, ?_⟩
    rw [run_consume (htask agreeing), hnext, hfree]
    have hdeliver : deliverSignal pid signum (t'.signalAction signum) = deliverStop pid signum := by
      have haction' : (t'.signalAction signum).handler = SIG_DFL_HANDLER := haction
      have hign : ¬ (t'.signalAction signum).handler = SIG_IGN_HANDLER := by rw [haction']; decide
      have hignored : ¬ defaultIgnoredSignal signum = true := by
        simp only [defaultStopSignal, SIGSTOP, SIGTSTP, SIGTTIN, SIGTTOU, Bool.or_eq_true,
          beq_iff_eq] at hstop
        simp only [defaultIgnoredSignal, SIGCHLD, SIGURG, SIGWINCH, Bool.or_eq_true, beq_iff_eq]
        omega
      rw [deliverSignal, if_neg hign, if_neg (not_not.mpr haction'), if_neg hignored, if_pos hstop]
    have hsuspends := deliverStop_suspends (World.task?_taken (htask agreeing) signum
      (t'.signalAction signum)) rfl signum
    rw [hcount] at hsuspends
    rw [← hdeliver] at hsuspends
    exact hsuspends

end Return

/-! ### The stop by `kill` -/

/-- The report of another process. -/
theorem recordChildStopped_stopView {q pid : Nat} (h : q ≠ pid) (parentPid status pgid : Nat) :
    Frames (World.stopView q) (recordChildStopped parentPid pid status pgid) := by
  intro w
  refine congrArg (StopView.mk _ _) (funext fun p => ?_)
  show (((w.childEvents.insert parentPid (w.eventsOf parentPid ++ [_])).get? p).getD
    []).filter _ = _
  rw [OrdMap.get?_insert]
  split
  · rename_i heq
    subst heq
    have hno : ChildStateEvent.isStopOf q ⟨pid, status, pgid, .stopped⟩ = false := by
      simp [ChildStateEvent.isStopOf, Ne.symm h]
    show (w.eventsOf p ++ [_]).filter _ = _
    rw [List.filter_append, List.filter_singleton, hno]
    simp
  · rfl

/-- The mark of another process. -/
theorem setStopped_stopView {q pid : Nat} (h : q ≠ pid) (stopped : Bool) :
    Frames (World.stopView q) (setStopped pid stopped) := by
  refine Frames.bind (Frames.gets _) fun task => Frames.bind ?_ fun _ => ?_
  · exact Frames.whenSome fun t => Frames.when fun _ => rfl
  · intro w
    exact w.stopView_modifyTask pid q fun heq => absurd heq h

/-- The thread of another process is suspended. -/
theorem tcbSuspend_stopView {q pid : Nat} (h : q ≠ pid) :
    Frames (World.stopView q) (tcbSuspend pid) := by
  refine Frames.bind (by simp) fun _ => emit_stopView ?_
  simp [Event.stops, Event.suspension, Ne.symm h]

/-- A stop signal leaves a process alone that is not its target, and the sender when it has no
parent or is stopped already. -/
theorem killStop_stopView {q caller pid : Nat} {v : StopView} (signum : Nat)
    (h : q = pid → q = caller ∧ ∀ parent stopped, v.record = some (parent, stopped) →
      parent = 0 ∨ stopped = true) :
    Keeps (fun w => w.stopView q = v) (killStop caller pid signum) := by
  let I (w : World) : Prop := w.stopView q = v
  refine Triple.keeps (Triple.bind (R := fun o w => I w ∧ (q = pid →
    o.map (fun t => (t.parentPid, t.stopped)) = v.record)) (Triple.gets fun w hw => ⟨hw, ?_⟩) ?_)
  · rintro rfl
    exact congrArg StopView.record hw
  intro task
  refine Triple.bind (R := fun _ w => I w ∧ (q = pid →
    task.map (fun t => (t.parentPid, t.stopped)) = v.record)) ?_ fun _ => ?_
  · intro w hw
    have hqueue : I ((queueProcessSignal pid signum).run w).2 :=
      queueProcessSignal_keeps pid signum w hw.1
    exact ⟨fun _ _ => ⟨hqueue, hw.2⟩, fun _ _ => hqueue⟩
  refine Triple.of_pre fun w₀ hw₀ => Triple.pre (K := I) ?_ fun w heq => by rw [heq]; exact hw₀.1
  refine Keeps.triple (Keeps.bind (Keeps.gets _) fun now => Keeps.bind ?_ fun _ => ?_)
  · refine Keeps.whenSome fun _ => ?_
    by_cases hself : pid ≠ caller
    · have hother : q ≠ pid := fun heq => hself (heq ▸ (h heq).1)
      rw [when_pos hself]
      exact Keeps.bind (Keeps.ignore ((tcbSuspend_stopView hother).keeps (· = v))) fun _ =>
        (setStopped_stopView hother true).keeps (· = v)
    · rw [when_neg hself]
      exact Keeps.pure _
  · cases task with
    | none => exact Keeps.pure _
    | some t =>
      by_cases hq : q = pid
      · -- the sender has nobody to tell, or nothing new
        have hrecord : v.record = some (t.parentPid, t.stopped) := (hw₀.2 hq).symm
        have hquiet : ¬ (t.parentPid ≠ 0 ∧ t.stopped = false) := by
          rintro ⟨hparent, hruns⟩
          rcases (h hq).2 _ _ hrecord with hzero | hstopped
          · exact hparent hzero
          · rw [hruns] at hstopped
            cases hstopped
        dsimp only [whenSome]
        rw [when_neg hquiet]
        exact Keeps.pure _
      · refine Keeps.when (Keeps.bind (Keeps.when fun _ hw => hw) fun _ => ?_)
        exact (recordChildStopped_stopView hq _ _ _).keeps (· = v)

/-- How often a stop of the process is seen, by its thread and by the parent. -/
def World.stopsSeen (q parent : Nat) (w : World) : Nat :=
  w.eventCount (Event.stops q) + (w.eventsOf parent).countP (ChildStateEvent.isStopOf q)

section Seen

variable (q parent n : Nat)

instance : BlindSlots fun w => n ≤ w.stopsSeen q parent where
  tick _ _ := rfl
  slots _ _ := rfl
  ledger _ _ := rfl

instance : BlindSignals fun w => n ≤ w.stopsSeen q parent :=
  ⟨fun _ _ _ => rfl, fun _ _ => rfl, fun _ _ => rfl⟩

instance : BlindRecords fun w => n ≤ w.stopsSeen q parent where
  hostPidMap _ _ := rfl
  stale _ _ := rfl
  record _ _ _ _ := rfl
  stopLog _ _ := rfl
  stopSkewed _ _ := rfl

instance : BlindSleeps fun w => n ≤ w.stopsSeen q parent :=
  ⟨fun _ _ => rfl, fun _ _ => rfl, fun _ _ => rfl, fun _ _ => rfl⟩

instance : BlindMemory fun w => n ≤ w.stopsSeen q parent where
  vspace _ _ _ := rfl
  tables _ _ _ := rfl
  scratch _ _ _ := rfl
  writeFrame _ _ _ := rfl
  frames _ _ _ := rfl
  refs _ _ := rfl
  doubleFree _ _ := rfl
  mm _ _ _ := rfl
  fileMapLog _ _ := rfl

/-- An event takes no stop away. -/
theorem emit_stopsSeen (e : Event) : Keeps (fun w => n ≤ w.stopsSeen q parent) (emit e) := by
  intro w h
  have hle : w.eventCount (Event.stops q) ≤ ((emit e).run w).2.eventCount (Event.stops q) :=
    emit_eventCount_le (Event.stops q) _ e w le_rfl
  exact h.trans (Nat.add_le_add_right hle _)

instance : TraceKeeps fun w => n ≤ w.stopsSeen q parent := ⟨fun e _ => emit_stopsSeen q parent n e⟩

instance : SuspendKeeps fun w => n ≤ w.stopsSeen q parent := ⟨fun _ => emit_stopsSeen q parent n _⟩

instance : QueuedKeeps fun w => n ≤ w.stopsSeen q parent := ⟨fun _ _ => emit_stopsSeen q parent n _⟩

/-- A report adds to what is seen. -/
theorem recordChildChange_stopsSeen (p : Nat) (e : ChildStateEvent) (w : World) :
    ((recordChildChange p e).run w).2.stopsSeen q parent = w.stopsSeen q parent +
      if parent = p ∧ e.isStopOf q = true then 1 else 0 := by
  show w.eventCount (Event.stops q) + (((w.childEvents.insert p (w.eventsOf p ++ [e])).get?
    parent).getD []).countP (ChildStateEvent.isStopOf q) = _
  rw [OrdMap.get?_insert]
  by_cases hp : parent = p
  · subst hp
    rw [if_pos rfl]
    show _ + (w.eventsOf parent ++ [e]).countP _ = _
    rw [List.countP_append, List.countP_singleton, World.stopsSeen]
    simp [Nat.add_assoc]
  · rw [if_neg hp, if_neg fun h => hp h.1]
    rfl

instance : ChangeKeeps fun w => n ≤ w.stopsSeen q parent where
  change p e _ w h := by
    show n ≤ ((recordChildChange p e).run w).2.stopsSeen q parent
    rw [recordChildChange_stopsSeen]
    exact Nat.le_add_right_of_le h

end Seen

/-- What a process has before a stop signal reaches it. -/
def World.Standing (q parent : Nat) (stopped : Bool) (w : World) : Prop :=
  w.env = agreeing ∧ w.stopRecord q = some (parent, stopped)

/-- A stop by `kill` cannot fail. -/
theorem killStop_total (caller pid signum : Nat) : Total (killStop caller pid signum) := by
  refine Total.bind (Total.gets _) fun task => Total.bind (queueProcessSignal_total pid signum)
    fun _ => Total.bind (Total.gets _) fun now => Total.bind ?_ fun _ => ?_
  · refine Total.whenSome fun _ => Total.when (Total.bind (Total.ignore _) fun _ => ?_)
    exact setStopped_total pid true
  · refine Total.whenSome fun t => Total.when (Total.bind (Total.when (Total.modify _)) fun _ => ?_)
    exact recordChildChange_total t.parentPid _

section Counted

variable {caller q parent : Nat} {stopped : Bool} {f : World → Nat}
  [∀ n, BlindMemory fun w => n ≤ f w] [∀ n, BlindSignals fun w => n ≤ f w]
  [∀ n, BlindSleeps fun w => n ≤ f w] [∀ n, TraceKeeps fun w => n ≤ f w]
  [∀ n, QueuedKeeps fun w => n ≤ f w]

/-- A queued signal leaves what is counted, the services and the record. -/
theorem queueProcessSignal_standing (pid signum n : Nat) :
    Keeps (fun w => n ≤ f w ∧ w.Standing q parent stopped) (queueProcessSignal pid signum) := by
  intro w h
  have hview := queueProcessSignal_keeps pid signum
    (I := fun w' => w'.stopView q = w.stopView q) w rfl
  exact ⟨queueProcessSignal_keeps pid signum (I := fun w => n ≤ f w) w h.1,
    queueProcessSignal_keeps pid signum (I := fun w => w.env = agreeing) w h.2.1,
    (congrArg StopView.record hview).trans h.2.2⟩

variable [∀ n, BlindRecords fun w => n ≤ f w] [∀ n, ChangeKeeps fun w => n ≤ f w]

/-- A stop signal counts for another process, when the suspension of its thread does. -/
theorem killStop_counted (hother : q ≠ caller) (signum n : Nat)
    (hsuspend : ∀ w, w.env = agreeing → f w < f ((tcbSuspend q).run w).2) :
    Triple (fun w => n ≤ f w ∧ w.Standing q parent stopped) (killStop caller q signum)
      (fun _ w => n < f w) fun _ w => n < f w := by
  let More (w : World) : Prop := n + 1 ≤ f w
  refine (killStop_total caller q signum).triple (F := fun _ w => n < f w) (E := fun _ _ => True) ?_
  refine Triple.bind (R := fun _ w => n ≤ f w ∧ w.Standing q parent stopped)
    (Triple.gets fun _ h => h) fun task => ?_
  refine Triple.bind (R := fun _ w => n ≤ f w ∧ w.Standing q parent stopped)
    ((queueProcessSignal_standing q signum n).triple.errors fun _ _ _ => trivial) fun _ => ?_
  refine Triple.bind (R := fun o w => (n ≤ f w ∧ w.Standing q parent stopped) ∧ o.isSome = true)
    (Triple.gets fun w h => ⟨h, ?_⟩) ?_
  · obtain ⟨t', ht', _⟩ := Option.map_eq_some_iff.mp h.2.2
    rw [ht']
    rfl
  intro now
  refine Triple.bind (R := fun _ => More) ?_ fun _ => ?_
  · refine Triple.whenSome (fun _ _ => ?_) ?_
    · rw [when_pos hother]
      refine Triple.bind (R := fun _ => More) ?_ fun _ => ?_
      · intro w h
        refine ⟨fun _ _ => h.1.1.trans_lt (hsuspend w h.1.2.1), ?_⟩
        intro _ he
        cases he
      · exact (setStopped_keeps q true).triple.errors fun _ _ _ => trivial
    · intro w hnone h
      rw [hnone] at h
      cases h.2
  · -- what follows only adds to the count
    refine (Keeps.whenSome (I := More) fun t =>
      Keeps.when (Keeps.bind (by simp) fun _ => ?_)).triple.errors
      fun _ _ _ => trivial
    exact recordChildStopped_keeps _ _ _ _

variable [∀ n, SuspendKeeps fun w => n ≤ f w]

/-- A stop signal for a list of processes counts for each of them, when it does for one. -/
theorem forEach_killStop_counted {targets : List Nat} (hq : q ∈ targets) (signum n : Nat)
    (hone : Triple (fun w => n ≤ f w ∧ w.Standing q parent stopped) (killStop caller q signum)
      (fun _ w => n < f w) fun _ w => n < f w) :
    Triple (fun w => n ≤ f w ∧ w.Standing q parent stopped)
      (forEach targets fun pid => killStop caller pid signum) (fun _ w => n < f w)
      fun _ w => n < f w := by
  -- the target is still to come, or it was counted already
  let I (l : List Nat) (w : World) : Prop :=
    (q ∈ l ∧ n ≤ f w ∧ w.Standing q parent stopped) ∨ n + 1 ≤ f w
  refine (Triple.forEach I ?_ targets).imp (fun w h => .inl ⟨hq, h⟩) ?_ fun _ _ h => h
  · intro pid rest
    refine Triple.of_pre fun w₀ h₀ => ?_
    rcases h₀ with ⟨hmem, hn, hstand⟩ | hmore
    · by_cases hpid : q = pid
      · subst hpid
        exact hone.imp (fun w h => h ▸ ⟨hn, hstand⟩) (fun _ _ h => .inr h) fun _ _ h => h
      -- another target in between leaves the record of this one as it is
      · refine (killStop_total caller pid signum).triple (E := fun _ _ => True) fun w h => ?_
        subst h
        have hcount := StopsKeeps.killStop (I := fun w => n ≤ f w) caller pid signum w hn
        have henv := StopsKeeps.killStop (I := fun w => w.env = agreeing) caller pid
          signum w hstand.1
        have hsame : Keeps (fun w' => w'.stopView q = w.stopView q) (killStop caller pid signum) :=
          killStop_stopView signum fun heq => absurd heq hpid
        have hview := hsame w rfl
        have hrecord := (congrArg StopView.record hview).trans hstand.2
        refine ⟨fun _ _ => .inl ⟨(List.mem_cons.mp hmem).resolve_left hpid, hcount, henv, hrecord⟩,
          fun _ _ => trivial⟩
    · refine (killStop_total caller pid signum).triple (E := fun _ _ => True) fun w h => ?_
      subst h
      exact ⟨fun _ _ => .inr (StopsKeeps.killStop (I := fun w => n + 1 ≤ f w) caller pid
        signum w hmore),
        fun _ _ => trivial⟩
  · intro _ w h
    rcases h with ⟨hmem, _⟩ | hmore
    · cases hmem
    · exact hmore

end Counted

/-- A stop signal is seen by another process, and by the sender when it runs and has a parent. -/
theorem killStop_seen {caller q parent : Nat} {stopped : Bool} (signum n : Nat)
    (h : q = caller → parent ≠ 0 ∧ stopped = false) :
    Triple (fun w => n ≤ w.stopsSeen q parent ∧ w.Standing q parent stopped)
      (killStop caller q signum) (fun _ w => n < w.stopsSeen q parent)
      (fun _ w => n < w.stopsSeen q parent) := by
  by_cases hself : q = caller
  · -- the sender is reported
    obtain ⟨hne, hruns⟩ := h hself
    refine Triple.of_pre fun w h₀ => ?_
    obtain ⟨hn, hstand⟩ := h₀
    obtain ⟨t, ht, hpair⟩ := Option.map_eq_some_iff.mp hstand.2
    have hparent : t.parentPid = parent := congrArg Prod.fst hpair
    have hstopped : t.stopped = stopped := congrArg Prod.snd hpair
    have hreport : t.parentPid ≠ 0 ∧ t.stopped = false := ⟨hparent ▸ hne, hstopped.trans hruns⟩
    refine Triple.bind (R := fun o w' => w' = w ∧ o = some t)
      (Triple.gets fun w' hw' => ⟨hw', hw' ▸ ht⟩) fun task => Triple.of_pre fun w₁ h₁ => ?_
    obtain ⟨rfl, rfl⟩ := h₁
    refine Triple.bind (R := fun _ w => n ≤ w.stopsSeen q parent) ?_ fun _ => ?_
    · refine (queueProcessSignal_total q signum).triple (E := fun _ _ => True) fun w' hw' => ?_
      subst hw'
      exact ⟨fun _ _ => queueProcessSignal_keeps q signum
        (I := fun w => n ≤ w.stopsSeen q parent) _ hn,
        fun _ _ => trivial⟩
    refine Triple.bind (R := fun _ w => n ≤ w.stopsSeen q parent)
      (Triple.gets fun w h => h) fun now => ?_
    rw [when_neg (not_not.mpr hself)]
    refine Triple.bind (R := fun _ w => n ≤ w.stopsSeen q parent)
      (Triple.whenSome (fun _ _ => Triple.pure fun _ h => h) fun _ _ h => h) fun _ => ?_
    -- the parent is told although the sender was not suspended
    dsimp only [whenSome]
    rw [when_pos hreport]
    refine Triple.bind (R := fun _ w => n ≤ w.stopsSeen q parent)
      (Triple.when (fun _ => Triple.modify fun _ h => h) fun _ _ h => h) fun _ w h => ?_
    have hmore : n + 1 ≤ ((recordChildStopped t.parentPid q (encodeWaitStoppedStatus signum)
        t.processGroupId).run w).2.stopsSeen q parent := by
      rw [recordChildStopped, recordChildChange_stopsSeen, if_pos ⟨hparent.symm, by
        simp [ChildStateEvent.isStopOf]⟩]
      exact Nat.succ_le_succ h
    exact ⟨fun _ _ => hmore, fun _ _ => hmore⟩
  · refine killStop_counted hself signum n fun w henv => ?_
    obtain ⟨hcount, hevents⟩ := tcbSuspend_agreeing henv q
    show w.stopsSeen q parent < ((tcbSuspend q).run w).2.eventCount (Event.stops q) +
      (((tcbSuspend q).run w).2.eventsOf parent).countP (ChildStateEvent.isStopOf q)
    rw [hcount, congrFun hevents parent, Nat.add_right_comm]
    exact Nat.lt_succ_self _

/-! ### Whether `kill` decides as the syscall return does -/

/-- `kill` touches no process that a syscall return would not stop for the signal. -/
def World.KillObeys (w : World) (caller : Nat) (target : Int) (signum : Nat) : Prop :=
  ∀ bit env q, signalBit signum = some bit → ¬ w.ReturnStops q bit →
    ((doKill caller target signum).run (w.withEnv env)).2.stopView q = w.stopView q

/-- `SIGSTOP` suspends every other target, whatever its mask and its action are. -/
def World.SigstopStops (w : World) (caller : Nat) (target : Int) : Prop :=
  ∀ q ∈ w.killTargets caller target, q ≠ caller →
    w.eventCount (Event.stops q) <
      ((doKill caller target SIGSTOP).run (w.withEnv agreeing)).2.eventCount (Event.stops q)

section Kill

variable {w : World} {caller signum : Nat} {target : Int}

/-- The targets of `kill` are processes. -/
theorem killTargets_live {q : Nat} (hq : q ∈ w.killTargets caller target) :
    ∃ t, w.task? q = some t := by
  have hkeys : q ∈ w.tasks.keys := by
    unfold World.killTargets World.groupMembers at hq
    split_ifs at hq
    · exact List.mem_of_mem_filter hq
    · exact List.mem_of_mem_filter hq
    · exact hq
    · exact List.mem_of_mem_filter hq
  exact Option.isSome_iff_exists.mp (OrdMap.mem_keys.mp hkeys)

/-- A stop signal goes to each target in turn. -/
theorem run_doKill_stop (hstop : defaultStopSignal signum = true) {q : Nat}
    (hq : q ∈ w.killTargets caller target) :
    ((doKill caller target signum).run w).2 =
      ((forEach (w.killTargets caller target) fun pid => killStop caller pid signum).run w).2 := by
  have hsome : w.killTargets caller target ≠ [] := List.ne_nil_of_mem hq
  simp only [defaultStopSignal, SIGSTOP, SIGTSTP, SIGTTIN, SIGTTOU, Bool.or_eq_true, beq_iff_eq]
    at hstop
  have hrange : ¬ ((signum : Int) < 0 ∨ (SIGNAL_MAX : Int) < signum) := by
    simp only [SIGNAL_MAX]
    omega
  have hzero : ¬ (signum : Int) = 0 := by omega
  have hkill : ¬ signum = SIGKILL := by simp only [SIGKILL]; omega
  have hcont : ¬ signum = SIGCONT := by simp only [SIGCONT]; omega
  have hsend : sendSignal caller (w.killTargets caller target) signum
      = forEach (w.killTargets caller target) fun pid => killStop caller pid signum := by
    rw [sendSignal, if_neg hkill, if_neg hcont, if_pos]
    simp only [defaultStopSignal, SIGSTOP, SIGTSTP, SIGTTIN, SIGTTOU, Bool.or_eq_true, beq_iff_eq]
    exact hstop
  rw [doKill, if_neg hrange, run_gets_bind, if_neg hsome, if_neg hzero, Int.toNat_natCast, hsend,
    run_map_state]

/-- Nothing is seen of a process that is no target, or that the signal leaves alone. -/
theorem doKill_stopView (hstop : defaultStopSignal signum = true) (q : Nat)
    (h : q ∈ w.killTargets caller target → q = caller ∧ ∀ t, w.task? q = some t →
      t.parentPid = 0 ∨ t.stopped = true) :
    ((doKill caller target signum).run w).2.stopView q = w.stopView q := by
  let I (w' : World) : Prop := w'.stopView q = w.stopView q
  -- without targets the call fails before it touches a process
  by_cases hsome : w.killTargets caller target = []
  · rw [doKill]
    split
    · rfl
    · rw [run_gets_bind, if_pos hsome]
      rfl
  · obtain ⟨q', hq'⟩ := List.exists_mem_of_ne_nil _ hsome
    rw [run_doKill_stop hstop hq']
    -- each round leaves the record as it is, since the caller alone may be among the targets
    have hloop : ∀ targets, (∀ pid ∈ targets, pid ∈ w.killTargets caller target) →
        Keeps I (forEach targets fun pid => killStop caller pid signum) := by
      intro targets
      induction targets with
      | nil => exact fun _ _ h => h
      | cons pid rest ih =>
        intro hsub
        refine Keeps.bind (killStop_stopView signum fun heq => ?_) fun _ =>
          ih fun pid' hpid' => hsub pid' (List.mem_cons_of_mem _ hpid')
        obtain ⟨hcaller, hquiet⟩ := h (heq ▸ hsub pid List.mem_cons_self)
        refine ⟨hcaller, ?_⟩
        intro parent stopped hrecord
        obtain ⟨t, ht, hpair⟩ := Option.map_eq_some_iff.mp hrecord
        cases hpair
        exact hquiet t ht
    exact hloop _ (fun _ h => h) w rfl

/-- A stop signal is seen by its target, unless the target is the sender and has nothing to tell. -/
theorem doKill_stop_seen (hstop : defaultStopSignal signum = true) (henv : w.env = agreeing)
    {q : Nat} {t : TaskStruct} (hq : q ∈ w.killTargets caller target) (ht : w.task? q = some t)
    (h : q = caller → t.parentPid ≠ 0 ∧ t.stopped = false) :
    ((doKill caller target signum).run w).2.stopView q ≠ w.stopView q := by
  have hstand : w.Standing q t.parentPid t.stopped := by
    refine ⟨henv, ?_⟩
    rw [World.stopRecord, ht]
    rfl
  have hseen := (forEach_killStop_counted (f := World.stopsSeen q t.parentPid) hq signum
    (w.stopsSeen q t.parentPid) (killStop_seen signum _ h)).ends ⟨le_rfl, hstand⟩
  rw [run_doKill_stop hstop hq]
  intro heq
  have hsame : ∀ w' : World, w'.stopsSeen q t.parentPid
      = (w'.stopView q).suspensions + ((w'.stopView q).reports t.parentPid).length :=
    fun w' => congrArg (_ + ·) List.countP_eq_length_filter
  rw [hsame, hsame, heq] at hseen
  exact lt_irrefl _ hseen

end Kill

/-- `kill` decides the stop of its targets as a syscall return does exactly when every target has
the signal unblocked with the default action, or is the sender with nobody to tell or stopped
already. -/
theorem kill_obeys_iff (w : World) (caller : Nat) (target : Int) {signum : Nat}
    (h : signum ∈ [SIGTSTP, SIGTTIN, SIGTTOU]) :
    (w.KillObeys caller target signum ∧ w.SigstopStops caller target) ↔
      ∀ q ∈ w.killTargets caller target, ∀ t, w.task? q = some t →
        t.stopsBy signum = true ∨ (q = caller ∧ (t.parentPid = 0 ∨ t.stopped = true)) := by
  have hstop : defaultStopSignal signum = true := by
    simp only [List.mem_cons, List.not_mem_nil, or_false] at h
    rcases h with rfl | rfl | rfl <;> rfl
  obtain ⟨bit, hbit⟩ : ∃ bit, signalBit signum = some bit := by
    simp only [List.mem_cons, List.not_mem_nil, or_false] at h
    rcases h with rfl | rfl | rfl <;> exact ⟨_, rfl⟩
  -- a target outside the condition stops or is reported although its return would not stop
  constructor
  · rintro ⟨hobeys, _⟩ q hq t ht
    by_contra hno
    rw [not_or, not_and, not_or] at hno
    refine doKill_stop_seen (w := w.withEnv agreeing) hstop rfl hq ht (fun hself => ?_)
      (hobeys bit agreeing q hbit fun hreturn => hno.1 ((returnStops_iff ht hbit hstop).mp hreturn))
    obtain ⟨hparent, hruns⟩ := hno.2 hself
    exact ⟨hparent, Bool.eq_false_iff.mpr hruns⟩
  · intro hall
    constructor
    · intro bit' env q hbit' hreturn
      refine doKill_stopView (w := w.withEnv env) hstop q fun hq => ?_
      obtain ⟨t, ht⟩ := killTargets_live hq
      have hquiet := (hall q hq t ht).resolve_left
        fun hstops => hreturn ((returnStops_iff ht hbit' hstop).mpr hstops)
      refine ⟨hquiet.1, fun t' ht' => ?_⟩
      cases ht.symm.trans ht'
      exact hquiet.2
    -- `SIGSTOP` suspends every target but the sender
    · intro q hq hother
      obtain ⟨t, ht⟩ := killTargets_live hq
      have hstand : (w.withEnv agreeing).Standing q t.parentPid t.stopped := by
        refine ⟨rfl, ?_⟩
        show (w.task? q).map _ = _
        rw [ht]
        rfl
      have hcount := (forEach_killStop_counted (f := World.eventCount (Event.stops q)) hq SIGSTOP
        (w.eventCount (Event.stops q)) (killStop_counted hother SIGSTOP _ fun w' henv =>
          (tcbSuspend_agreeing henv q).1.symm ▸ Nat.lt_succ_self _)).ends
            (s := w.withEnv agreeing) ⟨le_rfl, hstand⟩
      rw [run_doKill_stop (w := w.withEnv agreeing) rfl hq]
      exact hcount

/-- The child of `init` catches `SIGTSTP`. -/
def sampleCatch : World :=
  [Request.syscall 2 (.userWrite 0x3ffff800 (leBytes 8 0x1000)),
    .syscall 2 (.rtSigaction SIGTSTP 0x3ffff800 0 8)].foldl World.after sampleFork

/-- The sample with a handler is reachable. -/
theorem sampleCatch_reachable : Reachable sampleCatch :=
  (sampleFork_reachable.after (by decide +kernel)).after (by decide +kernel)

/-- The new child of `init` has the default action for `SIGTSTP`, and `kill` obeys it. -/
theorem kill_obeys_iff_sample :
    sampleFork.KillObeys 1 2 SIGTSTP ∧ sampleFork.SigstopStops 1 2 := by
  have htargets : sampleFork.killTargets 1 2 = [2] := by decide +kernel
  have hstops : (sampleFork.task? 2).all (·.stopsBy SIGTSTP) = true := by decide +kernel
  refine (kill_obeys_iff sampleFork 1 2 (by decide)).mpr fun q hq t ht => ?_
  rw [htargets, List.mem_singleton] at hq
  rw [hq] at ht
  rw [ht] at hstops
  exact .inl hstops

/-- `kill` suspends a process that catches `SIGTSTP`, and reports its stop to the parent. -/
theorem kill_suspends_catcher :
    Reachable sampleCatch ∧ sampleCatch.killTargets 1 2 = [2] ∧
      ((sampleCatch.task? 2).any fun t =>
        decide ((t.signalAction SIGTSTP).handler = 0x1000) && !t.stopsBy SIGTSTP) = true ∧
      ¬ sampleCatch.ReturnStops 2 (1#64 <<< 19) ∧
      sampleCatch.eventCount (Event.stops 2) <
        (sampleCatch.after (.syscall 1 (.kill 2 SIGTSTP))).eventCount (Event.stops 2) ∧
      (sampleCatch.after (.syscall 1 (.kill 2 SIGTSTP))).eventsOf 1
        = [⟨2, encodeWaitStoppedStatus SIGTSTP, 1, .stopped⟩] := by
  have hcatch : ((sampleCatch.task? 2).any fun t =>
      decide ((t.signalAction SIGTSTP).handler = 0x1000) && !t.stopsBy SIGTSTP) = true := by
    decide +kernel
  refine ⟨sampleCatch_reachable, by decide +kernel, hcatch, fun hreturn => ?_, by decide +kernel,
    by decide +kernel⟩
  obtain ⟨t, ht, hno⟩ := (Option.any_eq_true _ _).mp hcatch
  rw [(returnStops_iff ht rfl rfl).mp hreturn] at hno
  simp at hno

end Ape
