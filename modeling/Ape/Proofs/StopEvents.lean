import Ape.Proofs.Stops

/-!
# `Ape.Proofs.StopEvents`: one report for each stop and each continuation

The stop log has the changes of the stopped marks and the reports to the parents, in order.
`StopLog.Paired` says that, for a parent and its child, the log is a sequence of pairs: a change
of the mark, and the report of this change. Then each change is reported once, and no report
comes without a change or before it.

Three branches of the code break a pair, and `stopSkewed` marks them: the report of a stop that a
process sends to itself, the report of a stop or a continuation that the kernel refused, and the
fork of a process that is marked stopped. `stop_events_match` says that the log is paired in every
run that takes none of them.
-/

set_option autoImplicit false

namespace Ape

open Ape.Lib Cmd

/-! ### Paired logs -/

/-- The kind of the report of a change. -/
def reportKind (stopped : Bool) : ChildStateEventKind := if stopped then .stopped else .continued

/-- The entry is about the child of the parent. -/
def StopEvent.isAbout (parent child : Nat) : StopEvent → Bool
  | .changed p c _ => p = parent && c = child
  | .reported p c _ => p = parent && c = child

/-- A change of the mark and its report. -/
def StopEvent.pair (parent child : Nat) (stopped : Bool) : List StopEvent :=
  [.changed parent child stopped, .reported parent child (reportKind stopped)]

/-- The entries about a child of a parent are pairs of a change and its report. -/
def StopLog.Paired (log : List StopEvent) : Prop :=
  ∀ parent child, parent ≠ 0 →
    ∃ bs : List Bool, log.filter (·.isAbout parent child) = bs.flatMap (StopEvent.pair parent child)

/-- What a change of the mark adds to the log, with its report to a parent. -/
def StopEvent.change (parent child : Nat) (stopped : Bool) : List StopEvent :=
  if parent ≠ 0 then StopEvent.pair parent child stopped else [.changed parent child stopped]

namespace StopLog.Paired

/-- In an empty log everything is paired. -/
theorem nil : StopLog.Paired [] := fun _ _ _ => ⟨[], rfl⟩

/-- A change with its report keeps the pairs. -/
theorem append {log : List StopEvent} (h : StopLog.Paired log) (p c : Nat) (stopped : Bool) :
    StopLog.Paired (log ++ StopEvent.change p c stopped) := by
  intro parent child hparent
  obtain ⟨bs, hbs⟩ := h parent child hparent
  by_cases hself : p = parent ∧ c = child
  · obtain ⟨rfl, rfl⟩ := hself
    refine ⟨bs ++ [stopped], ?_⟩
    rw [List.filter_append, hbs, List.flatMap_append, StopEvent.change, if_pos hparent]
    congr 1
    simp [StopEvent.pair, StopEvent.isAbout]
  -- a change of another pair adds nothing to the log of this one
  · refine ⟨bs, ?_⟩
    have hother : (StopEvent.change p c stopped).filter (·.isAbout parent child) = [] := by
      rw [List.filter_eq_nil_iff]
      intro e he
      have habout : e.isAbout parent child = (decide (p = parent) && decide (c = child)) := by
        rw [StopEvent.change] at he
        split at he
        · rw [StopEvent.pair, List.mem_cons, List.mem_singleton] at he
          rcases he with rfl | rfl <;> rfl
        · rw [List.mem_singleton] at he
          rw [he]
          rfl
      rw [habout, Bool.and_eq_true, decide_eq_true_eq, decide_eq_true_eq]
      exact hself
    rw [List.filter_append, hbs, hother, List.append_nil]

/-- In a paired log there are as many reports as changes. -/
theorem count_eq {log : List StopEvent} (h : StopLog.Paired log) {parent : Nat}
    (hparent : parent ≠ 0)
    (child : Nat) (stopped : Bool) :
    log.count (.reported parent child (reportKind stopped))
      = log.count (.changed parent child stopped) := by
  have hfilter : ∀ e : StopEvent, e.isAbout parent child = true →
      log.count e = (log.filter (·.isAbout parent child)).count e :=
    fun e he => (List.count_filter he).symm
  have hpairs : ∀ bs : List Bool, (bs.flatMap (StopEvent.pair parent child)).count
      (.reported parent child (reportKind stopped))
        = (bs.flatMap (StopEvent.pair parent child)).count (.changed parent child stopped) := by
    intro bs
    induction bs with
    | nil => rfl
    | cons b bs ih =>
      rw [List.flatMap_cons, List.count_append, List.count_append, ih]
      congr 1
      cases b <;> cases stopped <;> simp [StopEvent.pair, reportKind]
  obtain ⟨bs, hbs⟩ := h parent child hparent
  rw [hfilter (.reported _ _ _) (by simp [StopEvent.isAbout]),
    hfilter (.changed _ _ _) (by simp [StopEvent.isAbout]), hbs, hpairs]

end StopLog.Paired

/-! ### What is logged -/

/-- What is logged of the stops, and the parent and the mark of a process. -/
structure StopTally where
  skewed : Bool
  log : List StopEvent
  record : Option (Nat × Bool)

/-- What is logged of the stops, and the record of the process `pid`. -/
def World.stopTally (pid : Nat) (w : World) : StopTally :=
  ⟨w.stopSkewed, w.stopLog, w.stopRecord pid⟩

/-- The log is paired, unless a branch was taken that breaks a pair. -/
def World.Tallied (w : World) : Prop := w.stopSkewed = true ∨ StopLog.Paired w.stopLog

section Views

variable (q : Nat)

instance : BlindSlots (World.stopTally q) where
  tick _ _ := rfl
  slots _ _ := rfl
  ledger _ _ := rfl

instance : BlindTrace (World.stopTally q) := ⟨fun _ _ => rfl⟩

instance : BlindSignals (World.stopTally q) :=
  ⟨fun w pid _ => congrArg (StopTally.mk _ _) (w.stopRecord_modifyTask pid q fun _ _ => ⟨rfl, rfl⟩),
    fun _ _ => rfl, fun _ _ => rfl⟩

instance : BlindHosts (World.stopTally q) := ⟨fun _ _ => rfl, fun _ _ => rfl⟩

instance : BlindSleeps (World.stopTally q) :=
  ⟨fun _ _ => rfl, fun _ _ => rfl, fun _ _ => rfl, fun _ _ => rfl⟩

instance : BlindMemory (World.stopTally q) where
  vspace w pid _ :=
    congrArg (StopTally.mk _ _) (w.stopRecord_modifyTask pid q fun _ _ => ⟨rfl, rfl⟩)
  tables w pid _ :=
    congrArg (StopTally.mk _ _) (w.stopRecord_modifyTask pid q fun _ _ => ⟨rfl, rfl⟩)
  scratch _ _ _ := rfl
  writeFrame _ _ _ := rfl
  frames _ _ _ := rfl
  refs _ _ := rfl
  doubleFree _ _ := rfl
  mm w pid _ := congrArg (StopTally.mk _ _) (w.stopRecord_modifyTask pid q fun _ _ => ⟨rfl, rfl⟩)
  fileMapLog _ _ := rfl

end Views

instance : BlindHosts World.Tallied := ⟨fun _ _ => rfl, fun _ _ => rfl⟩

instance : BlindSlots World.Tallied where
  tick _ _ := rfl
  slots _ _ := rfl
  ledger _ _ := rfl

instance : BlindTrace World.Tallied := ⟨fun _ _ => rfl⟩

instance : BlindSignals World.Tallied := ⟨fun _ _ _ => rfl, fun _ _ => rfl, fun _ _ => rfl⟩

instance : BlindWaits World.Tallied :=
  ⟨fun _ _ => rfl, fun _ _ => rfl, fun _ _ => rfl, fun _ _ => rfl, fun _ _ => rfl, fun _ _ => rfl⟩

instance : BlindSleeps World.Tallied :=
  ⟨fun _ _ => rfl, fun _ _ => rfl, fun _ _ => rfl, fun _ _ => rfl⟩

instance : BlindCaller World.Tallied := ⟨fun _ _ => rfl⟩

instance : BlindRest World.Tallied := ⟨fun _ _ _ => rfl, fun _ _ _ => rfl⟩

instance : BlindJobs World.Tallied := ⟨fun _ _ _ _ _ => rfl⟩

instance : BlindActions World.Tallied := ⟨fun _ _ _ => rfl⟩

instance : BlindFiles World.Tallied where
  cloexecLog _ _ := rfl
  positionSplit _ _ := rfl
  endpoints _ _ := rfl
  doubleClose _ _ := rfl
  asyncFree _ _ := rfl
  asyncRegions _ _ := rfl
  asyncVaddr _ _ := rfl
  iouring _ _ := rfl
  fdOverflow _ _ := rfl
  earlyRecycle _ _ := rfl
  files _ _ _ := rfl

instance : BlindMemory World.Tallied where
  vspace _ _ _ := rfl
  tables _ _ _ := rfl
  scratch _ _ _ := rfl
  writeFrame _ _ _ := rfl
  frames _ _ _ := rfl
  refs _ _ := rfl
  doubleFree _ _ := rfl
  mm _ _ _ := rfl
  fileMapLog _ _ := rfl

instance : BlindProcesses World.Tallied :=
  ⟨fun _ _ => rfl, fun _ _ => rfl, fun _ _ => rfl, fun _ _ => rfl, fun _ _ => rfl⟩

instance : ForkStopKeeps World.Tallied := ⟨fun _ _ _ _ => .inl rfl⟩

/-- The change of a mark logs a change when the mark was another one. -/
theorem setStopped_log {pid parent : Nat} {skewed marked : Bool} {log : List StopEvent}
    (stopped : Bool)
    {E : Err → World → Prop} :
    Triple (fun w => w.stopTally pid = ⟨skewed, log, some (parent, marked)⟩)
      (setStopped pid stopped)
      (fun _ w => w.stopSkewed = skewed ∧ w.stopLog = log ++
        if marked ≠ stopped then [.changed parent pid stopped] else []) E := by
  refine Triple.of_pre fun w h => ?_
  obtain ⟨t, ht, hpair⟩ := Option.map_eq_some_iff.mp (congrArg StopTally.record h)
  cases hpair
  refine Triple.bind (R := fun o w' => w' = w ∧ o = some t)
    (Triple.gets fun w' hw' => ⟨hw', hw' ▸ ht⟩)
    fun task => Triple.of_pre fun w₁ h₁ => ?_
  obtain ⟨rfl, rfl⟩ := h₁
  refine Triple.bind (R := fun _ w => w.stopSkewed = skewed ∧ w.stopLog = log ++
    if t.stopped ≠ stopped then [.changed t.parentPid pid stopped] else [])
    ?_ fun _ => Triple.modify fun _ hw => hw
  dsimp only [whenSome]
  refine Triple.when (fun hne => Triple.modify ?_) ?_
  · intro w hw
    subst hw
    rw [if_pos hne]
    exact ⟨congrArg StopTally.skewed h, congrArg (· ++ _) (congrArg StopTally.log h)⟩
  · intro w hsame hw
    subst hw
    rw [if_neg hsame, List.append_nil]
    exact ⟨congrArg StopTally.skewed h, congrArg StopTally.log h⟩

/-- A report that follows its change makes a pair. -/
theorem recordChildChange_tallied {p c : Nat} {skewed : Bool} {log : List StopEvent}
    {e : ChildStateEvent}
    (h : skewed = true ∨ StopLog.Paired log) (hp : p ≠ 0) (stopped : Bool) (hchild : e.childPid = c)
    (hkind : e.kind = reportKind stopped) :
    Triple (fun w => w.stopSkewed = true ∨
        (w.stopSkewed = skewed ∧ w.stopLog = log ++ [.changed p c stopped]))
      (recordChildChange p e) (fun _ => World.Tallied) fun _ => World.Tallied := by
  intro w hw
  have hend : World.Tallied ((recordChildChange p e).run w).2 := by
    rcases hw with hskewed | ⟨hskewed, hlog⟩
    · exact .inl hskewed
    · rcases h with hs | hpaired
      · exact .inl (hskewed.trans hs)
      · refine .inr ?_
        have hpair := hpaired.append p c stopped
        rw [StopEvent.change, if_pos hp, StopEvent.pair, ← hkind, ← hchild] at hpair
        show StopLog.Paired (w.stopLog ++ [.reported p e.childPid e.kind])
        rw [hlog, List.append_assoc, ← hchild]
        exact hpair
  exact ⟨fun _ _ => hend, fun _ _ => hend⟩

/-- A change whose report goes to nobody. -/
theorem tallied_of_unreported {w : World} {p c : Nat} {skewed marked : Bool} {log : List StopEvent}
    {stopped : Bool} (h : skewed = true ∨ StopLog.Paired log)
    (hw : w.stopSkewed = skewed ∧ w.stopLog = log ++
      if marked ≠ stopped then [.changed p c stopped] else [])
    (hquiet : ¬ (p ≠ 0 ∧ marked ≠ stopped)) : w.Tallied := by
  rcases h with hs | hpaired
  · exact .inl (hw.1.trans hs)
  · refine .inr ?_
    rw [hw.2]
    by_cases hne : marked ≠ stopped
    · have hzero : ¬ p ≠ 0 := fun hp => hquiet ⟨hp, hne⟩
      have hpair := hpaired.append p c stopped
      rw [StopEvent.change, if_neg hzero] at hpair
      rw [if_pos hne]
      exact hpair
    · rw [if_neg hne, List.append_nil]
      exact hpaired

/-- The report of a change. It is skewed when the change was skipped. -/
theorem report_tallied {p c : Nat} {skewed marked : Bool} {log : List StopEvent}
    {e : ChildStateEvent}
    {skip report : Prop} [Decidable skip] [Decidable report]
    (h : skewed = true ∨ StopLog.Paired log) (stopped : Bool) (hchild : e.childPid = c)
    (hkind : e.kind = reportKind stopped) (hreport : report ↔ p ≠ 0 ∧ marked ≠ stopped) :
    Triple (fun w => w.stopSkewed = skewed ∧ w.stopLog = log ++
        if ¬ skip ∧ marked ≠ stopped then [.changed p c stopped] else [])
      (when report do
        when skip markStopSkewed
        recordChildChange p e) (fun _ => World.Tallied) fun _ => World.Tallied := by
  refine Triple.when ?_ ?_
  · intro hr
    obtain ⟨hp, hne⟩ := hreport.mp hr
    refine Triple.bind (Triple.when (fun hskip => Triple.modify ?_) ?_)
      fun _ => recordChildChange_tallied h hp stopped hchild hkind
    · intro w hw
      exact .inl rfl
    · intro w hskip hw
      rw [if_pos ⟨hskip, hne⟩] at hw
      exact .inr hw
  · intro w hr hw
    by_cases hskip : skip
    · rw [if_neg fun hchange => hchange.1 hskip, List.append_nil] at hw
      exact h.imp hw.1.trans fun hpaired => hw.2 ▸ hpaired
    · have hsame : (¬ skip ∧ marked ≠ stopped) = (marked ≠ stopped) :=
        propext ⟨fun hchange => hchange.2, fun hne => ⟨hskip, hne⟩⟩
      simp only [hsame] at hw
      exact tallied_of_unreported h hw fun hchange => hr (hreport.mpr hchange)

/-- The part of a delivery that changes the mark, when the kernel changed the thread. -/
theorem deliverChange_log {pid p : Nat} {skewed marked : Bool} {log : List StopEvent} {ε α : Type}
    (r : Except ε α) (stopped : Bool) {E : Err → World → Prop} :
    Triple (fun w => w.stopTally pid = ⟨skewed, log, some (p, marked)⟩)
      (when r.isOk (setStopped pid stopped))
      (fun _ w => w.stopSkewed = skewed ∧ w.stopLog = log ++
        if ¬ (¬ r.isOk = true) ∧ marked ≠ stopped then [.changed p pid stopped] else []) E := by
  simp only [not_not]
  refine Triple.when ?_ ?_
  · intro hok
    simp only [hok, true_and]
    exact setStopped_log stopped
  · intro w hok hw
    rw [if_neg fun hchange => hok hchange.1, List.append_nil]
    exact ⟨congrArg StopTally.skewed hw, congrArg StopTally.log hw⟩

/-- A step before the change of the mark. -/
theorem tally_step {pid : Nat} {v : StopTally} {α : Type} {c : M α}
    (h : v.skewed = true ∨ StopLog.Paired v.log) (hc : Keeps (fun w => w.stopTally pid = v) c) :
    Triple (fun w => w.stopTally pid = v) c
      (fun _ w => w.stopTally pid = v) fun _ => World.Tallied :=
  hc.triple.imp (fun _ hw => hw) (fun _ _ hw => hw) fun _ _ hw => by
    subst hw
    exact h

/-- The tally of a process is in its record. -/
theorem World.stopTally_of_task {w : World} {pid : Nat} {t : TaskStruct}
    (h : w.task? pid = some t) :
    w.stopTally pid = ⟨w.stopSkewed, w.stopLog, some (t.parentPid, t.stopped)⟩ := by
  rw [World.stopTally, World.stopRecord, h]
  rfl

/-- The default action of a stop signal is reported once. -/
theorem deliverStop_tallied (pid signum : Nat) : Keeps World.Tallied (deliverStop pid signum) := by
  refine Triple.keeps (Triple.bind (getProcess_task pid) fun task => Triple.of_pre fun w h => ?_)
  refine Triple.pre (K := fun w' => w'.stopTally pid
    = ⟨w.stopSkewed, w.stopLog, some (task.parentPid, task.stopped)⟩) ?_ fun w' hw' => by
      rw [hw']
      exact World.stopTally_of_task h.2
  refine Triple.bind (tally_step h.1 (by simp)) fun r =>
    Triple.bind (tally_step h.1 (by simp)) fun _ => ?_
  refine Triple.bind (deliverChange_log r true) fun _ => Triple.bind ?_ fun _ =>
    Triple.pure fun _ hw => hw
  exact report_tallied h.1 true rfl rfl (by simp)

/-- The default action of `SIGCONT` is reported once. -/
theorem deliverCont_tallied (pid : Nat) : Keeps World.Tallied (deliverCont pid) := by
  refine Triple.keeps (Triple.bind (getProcess_task pid) fun task => Triple.of_pre fun w h => ?_)
  refine Triple.pre (K := fun w' => w'.stopTally pid
    = ⟨w.stopSkewed, w.stopLog, some (task.parentPid, task.stopped)⟩) ?_ fun w' hw' => by
      rw [hw']
      exact World.stopTally_of_task h.2
  refine Triple.bind (tally_step h.1 (by simp)) fun r =>
    Triple.bind (tally_step h.1 (by simp)) fun _ => ?_
  refine Triple.bind (deliverChange_log r false) fun _ => Triple.bind ?_ fun _ =>
    Triple.pure fun _ hw => hw
  exact report_tallied h.1 false rfl rfl (by simp)

/-- A stop by `kill` is reported once. -/
theorem killStop_tallied (caller pid signum : Nat) :
    Keeps World.Tallied (killStop caller pid signum) := by
  refine Triple.keeps (Triple.of_pre fun w h => ?_)
  refine Triple.bind (R := fun o w' => w' = w ∧ o = w.task? pid)
    (Triple.gets fun w' hw' => ⟨hw', hw' ▸ rfl⟩)
    fun task => Triple.of_pre fun w₁ h₁ => ?_
  obtain ⟨rfl, rfl⟩ := h₁
  refine Triple.pre (K := fun w' => w'.stopTally pid = w₁.stopTally pid) ?_ fun _ hw => by rw [hw]
  refine Triple.bind (tally_step h (queueProcessSignal_keeps pid signum)) fun _ => ?_
  refine Triple.bind (R := fun now w' => w'.stopTally pid = w₁.stopTally pid ∧ now = w'.task? pid)
    (Triple.gets fun _ hw => ⟨hw, rfl⟩) fun now => ?_
  cases htask : w₁.task? pid with
  | none =>
    -- there is no process, before and after the signal is queued
    refine Triple.of_pre fun w' hw' => ?_
    have hnone : now = none := by
      have hrecord : w'.stopRecord pid = w₁.stopRecord pid := congrArg StopTally.record hw'.1
      rw [World.stopRecord, World.stopRecord, htask, ← hw'.2] at hrecord
      exact Option.map_eq_none_iff.mp hrecord
    have htallied : w'.Tallied := by
      have hlog : w'.stopLog = w₁.stopLog := congrArg StopTally.log hw'.1
      have hskew : w'.stopSkewed = w₁.stopSkewed := congrArg StopTally.skewed hw'.1
      rw [World.Tallied, hlog, hskew]
      exact h
    rw [hnone]
    exact Triple.bind (R := fun _ => World.Tallied) (Triple.pure fun _ hw => hw ▸ htallied) fun _ =>
      Triple.pure fun _ hw => hw
  | some t =>
    rw [World.stopTally_of_task htask]
    refine Triple.bind (R := fun _ w => w.stopSkewed = w₁.stopSkewed ∧ w.stopLog = w₁.stopLog ++
      if ¬ pid = caller ∧ t.stopped ≠ true then [.changed t.parentPid pid true]
        else []) ?_ fun _ => ?_
    · refine Triple.whenSome ?_ ?_
      · intro t' _
        by_cases hself : pid = caller
        · rw [when_neg (not_not.mpr hself)]
          refine Triple.pure fun w' hw' => ?_
          rw [if_neg fun hchange => hchange.1 hself, List.append_nil]
          exact ⟨congrArg StopTally.skewed hw'.1, congrArg StopTally.log hw'.1⟩
        · rw [when_pos hself]
          simp only [hself, not_false_eq_true, true_and]
          refine Triple.pre (K := fun w' => w'.stopTally pid
            = ⟨w₁.stopSkewed, w₁.stopLog, some (t.parentPid, t.stopped)⟩) ?_ fun _ hw => hw.1
          exact Triple.bind (tally_step h (by simp)) fun _ => setStopped_log true
      · intro w' hnone hw'
        have hrecord := congrArg StopTally.record hw'.1
        have hsome : (w'.task? pid).map (fun t => (t.parentPid, t.stopped)) = _ := hrecord
        rw [← hw'.2, hnone] at hsome
        cases hsome
    · exact report_tallied h true rfl rfl (by simp)

/-- A continuation by `kill` is reported once. -/
theorem killCont_tallied (pid : Nat) : Keeps World.Tallied (killCont pid) := by
  refine Triple.keeps (Triple.of_pre fun w h => ?_)
  refine Triple.bind (R := fun o w' => w' = w ∧ o = w.task? pid)
    (Triple.gets fun w' hw' => ⟨hw', hw' ▸ rfl⟩)
    fun task => Triple.of_pre fun w₁ h₁ => ?_
  obtain ⟨rfl, rfl⟩ := h₁
  have hrest : Keeps World.Tallied (do
      queueProcessSignal pid SIGCONT
      let task ← gets (·.task? pid)
      whenSome task fun _ => ignore (tcbResume pid) : M Unit) :=
    Keeps.bind (queueProcessSignal_keeps pid SIGCONT) fun _ =>
      Keeps.bind (Keeps.gets _) fun now => by simp
  cases htask : w₁.task? pid with
  | none =>
    refine Triple.pre (K := World.Tallied) (Keeps.triple hrest) fun _ hw => hw ▸ h
  | some t =>
    have hdiscard : ∀ signum, Keeps (fun w => w.stopTally pid
        = ⟨w₁.stopSkewed, w₁.stopLog, some (t.parentPid, t.stopped)⟩) (discardStop pid signum) :=
      fun signum => Keeps.bind (Keeps.gets _) fun _ => Keeps.whenSome fun _ =>
        Keeps.bind (modifySignal_frames pid _).keepsProp fun _ =>
          Keeps.when (emit_frames _).keepsProp
    refine Triple.bind (R := fun _ w => w.stopSkewed = w₁.stopSkewed ∧ w.stopLog = w₁.stopLog ++
      if t.stopped ≠ false then [.changed t.parentPid pid false] else []) ?_ fun _ =>
        Triple.bind ?_ fun _ => Keeps.triple hrest
    · refine Triple.pre (K := fun w' => w'.stopTally pid
        = ⟨w₁.stopSkewed, w₁.stopLog, some (t.parentPid, t.stopped)⟩) ?_ fun w' hw' => by
          rw [hw']
          exact World.stopTally_of_task htask
      exact Triple.bind (tally_step h (Keeps.forEach hdiscard)) fun _ => setStopped_log false
    · refine Triple.when ?_ ?_
      · intro hreport
        refine Triple.pre (recordChildChange_tallied h hreport.1 false rfl rfl) fun w' hw' => ?_
        rw [if_pos (by simp [hreport.2])] at hw'
        exact .inr hw'
      · intro w' hquiet hw'
        exact tallied_of_unreported h hw' fun hchange =>
          hquiet ⟨hchange.1, (Bool.not_eq_false _).mp hchange.2⟩

instance : StopsKeeps World.Tallied := ⟨deliverStop_tallied, deliverCont_tallied, killStop_tallied⟩

instance : ContKeeps World.Tallied := ⟨killCont_tallied⟩

/-! ### Runs -/

/-- Every state of a run has a paired log, unless a branch was taken that breaks a pair. -/
theorem Reachable.tallied {w : World} (h : Reachable w) : w.Tallied := by
  refine Reachable.invariant (I := World.Tallied) ?_ ?_ w h
  · intro w w' path hinit hrun
    have hstart : w.Tallied := .inr (by rw [hinit.noStopLog]; exact StopLog.Paired.nil)
    have hload := loadInit_keeps_blind (I := World.Tallied) path w hstart
    rw [hrun] at hload
    exact hload
  · intro w r w' _ hw hstep
    rw [← hstep.2]
    exact dispatch_keeps_of terminateProcess_keeps_blind
      (fun pid sys ret => finishSyscall_keeps (terminateProcess_keeps_blind pid) sys ret)
      doNanosleep_keeps r hw fun pid _ _ hsys => jobCall_keeps pid hsys _ hw

/-- In a run in which no branch was taken that breaks a pair, the reports of the stops and of the
continuations of a child are as many as its changes, and each follows its change at once. -/
theorem stop_events_match {w : World} (h : Reachable w) (hskew : w.stopSkewed = false)
    {parent : Nat} (hparent : parent ≠ 0) (child : Nat) :
    w.stopLog.count (.reported parent child .stopped) = w.stopLog.count
      (.changed parent child true) ∧
      w.stopLog.count (.reported parent child .continued)
        = w.stopLog.count (.changed parent child false) ∧
      ∃ bs : List Bool, w.stopLog.filter (·.isAbout parent child)
        = bs.flatMap fun stopped => [.changed parent child stopped,
          .reported parent child (reportKind stopped)] := by
  have hpaired : StopLog.Paired w.stopLog := h.tallied.resolve_left (by rw [hskew]; decide)
  exact ⟨hpaired.count_eq hparent child true, hpaired.count_eq hparent child false,
    hpaired parent child hparent⟩

/-- `init` stops its child, and lets it go on. -/
def sampleStopCont : World :=
  [Request.syscall 1 (.kill 2 SIGTSTP), .syscall 1 (.kill 2 SIGCONT)].foldl World.after sampleFork

/-- The child of the sample stopped once, and its parent was told once. -/
theorem stop_events_match_sample :
    sampleStopCont.stopLog.count (.changed 1 2 true) = 1 ∧
      sampleStopCont.stopLog.count (.reported 1 2 .stopped)
        = sampleStopCont.stopLog.count (.changed 1 2 true) :=
  ⟨by decide +kernel, (stop_events_match ((sampleFork_reachable.after (by decide +kernel)).after
    (by decide +kernel)) (by decide +kernel) Nat.one_ne_zero 2).1⟩

/-- The state after the child of `init` sent itself `SIGTSTP`. -/
def sampleSelfStop : World := sampleFork.after (.syscall 2 (.kill 2 SIGTSTP))

/-- A stop that a process sends to itself is reported twice. -/
theorem self_stop_reported_twice :
    Reachable sampleSelfStop ∧ sampleSelfStop.stopLog.count (.changed 1 2 true) = 1 ∧
      sampleSelfStop.stopLog.count (.reported 1 2 .stopped) = 2 ∧
      (sampleSelfStop.eventsOf 1).map (·.kind) = [.stopped, .stopped] ∧
      sampleSelfStop.stopSkewed = true :=
  ⟨sampleFork_reachable.after (by decide +kernel), by decide +kernel, by decide +kernel,
    by decide +kernel, by decide +kernel⟩

end Ape
