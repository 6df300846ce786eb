import Ape.Proofs.ProcessTable
import Ape.Proofs.Waits

/-!
# `Ape.Proofs.Reaps`: a child whose exit was reported

`wait4` takes one event out of the queue of the parent. When it takes the exit of a child, older
events of the child can be left in the queue: `leftEvents` marks this. `ReapView.Ok` says what
holds in every run. The events of a child are in the queue of its parent only, a child with a
record has no exit in a queue, and a child whose exit was taken has no record. When nothing was
left behind, it has no event in a queue either. Then `wait4` reports nothing of it any more.

The events that were taken are the list `waited`, the last one first. The operations that change
the view are four: an event is recorded, an event is taken, a process is removed, and a process
is added.
-/

set_option autoImplicit false

namespace Ape

open Ape.Lib Cmd

/-! ### The queues, and what was taken out of them -/

/-- What the server knows about the children. -/
structure ReapView where
  events : Nat → List ChildStateEvent
  waited : List ChildStateEvent
  left : Bool
  nextPid : Nat
  parentOf : Nat → Option Nat

/-- The parent that the record of a process names. -/
def World.parentOf (w : World) (pid : Nat) : Option Nat := (w.task? pid).map (·.parentPid)

/-- The children of the server. -/
def World.reapView (w : World) : ReapView :=
  ⟨w.eventsOf, w.waited, w.leftEvents, w.nextPid, w.parentOf⟩

/-- The exit of the child is among the events. -/
def exitIn (child : Nat) (events : List ChildStateEvent) : Prop :=
  ∃ e ∈ events, e.kind = .exited ∧ e.childPid = child

instance (child : Nat) (events : List ChildStateEvent) : Decidable (exitIn child events) :=
  inferInstanceAs (Decidable (∃ e ∈ events, e.kind = .exited ∧ e.childPid = child))

namespace ReapView

/-- The invariant of runs. -/
structure Ok (v : ReapView) : Prop where
  /-- A process is older than the next one. -/
  live : ∀ c p, v.parentOf c = some p → c < v.nextPid
  /-- So is a child with an event. -/
  below : ∀ q e, e ∈ v.events q → e.childPid < v.nextPid
  /-- The events of a process are in the queue of its parent, and its exit is not among them. -/
  owner : ∀ q e p, e ∈ v.events q → v.parentOf e.childPid = some p → q = p ∧ e.kind ≠ .exited
  /-- All events of a child are in one queue. -/
  unique : ∀ q r e f, e ∈ v.events q → f ∈ v.events r → e.childPid = f.childPid → q = r
  /-- A child whose exit was taken has no record. -/
  gone : ∀ c, exitIn c v.waited → c < v.nextPid ∧ v.parentOf c = none
  /-- It has no event in a queue, unless events were left. -/
  clear : v.left = false → ∀ c, exitIn c v.waited → ∀ q e, e ∈ v.events q → e.childPid ≠ c
  /-- Nothing was taken of a child after its exit, unless events were left. -/
  last : v.left = false → v.waited.Pairwise fun newer older =>
    older.kind = .exited → newer.childPid ≠ older.childPid

/-- The view after an event was recorded. -/
def record (v : ReapView) (q : Nat) (e : ChildStateEvent) : ReapView :=
  { v with events := fun r => if r = q then v.events q ++ [e] else v.events r }

/-- The view after an event was taken, with the rest of its queue. -/
def take (v : ReapView) (q : Nat) (e : ChildStateEvent) (rest : List ChildStateEvent) : ReapView :=
  { v with
    events := fun r => if r = q then rest else v.events r
    waited := e :: v.waited
    left := v.left || (decide (e.kind = .exited) && rest.any fun f => f.childPid = e.childPid) }

/-- The view after a process was removed. -/
def remove (v : ReapView) (pid : Nat) : ReapView :=
  { v with parentOf := fun c => if c = pid then none else v.parentOf c }

/-- The view after a process was added. -/
def add (v : ReapView) (parent : Nat) : ReapView :=
  { v with
    nextPid := v.nextPid + 1
    parentOf := fun c => if c = v.nextPid then some parent else v.parentOf c }

/-- An event after one was recorded is that one or was there before. -/
theorem mem_record {v : ReapView} {q r : Nat} {e f : ChildStateEvent}
    (h : f ∈ (v.record q e).events r) :
    f ∈ v.events r ∨ (r = q ∧ f = e) := by
  simp only [record] at h
  split at h
  · rename_i heq
    rw [List.mem_append, List.mem_singleton] at h
    exact h.imp (fun hold => heq ▸ hold) fun hnew => ⟨heq, hnew⟩
  · exact .inl h

/-- An exit in a queue is its first event or in the rest. -/
theorem exitIn_cons {c : Nat} {e : ChildStateEvent} {l : List ChildStateEvent}
    (h : exitIn c (e :: l)) : (e.kind = .exited ∧ e.childPid = c) ∨ exitIn c l := by
  obtain ⟨f, hf, hkind, hchild⟩ := h
  rcases List.mem_cons.mp hf with rfl | hmem
  · exact .inl ⟨hkind, hchild⟩
  · exact .inr ⟨f, hmem, hkind, hchild⟩

namespace Ok

variable {v : ReapView}

/-- An event is recorded in the queue that has the other events of its child. -/
theorem record (h : v.Ok) {q : Nat} {e : ChildStateEvent} (hbelow : e.childPid < v.nextPid)
    (howner : ∀ p, v.parentOf e.childPid = some p → q = p ∧ e.kind ≠ .exited)
    (hunique : ∀ r f, f ∈ v.events r → f.childPid = e.childPid → r = q)
    (hnew : ¬ exitIn e.childPid v.waited) : (v.record q e).Ok where
  live := h.live
  below r f hf := by
    rcases mem_record hf with hold | ⟨_, rfl⟩
    · exact h.below r f hold
    · exact hbelow
  -- an event of a child is in the queue of its parent, and two of one child in one queue
  owner r f p hf hp := by
    rcases mem_record hf with hold | ⟨rfl, rfl⟩
    · exact h.owner r f p hold hp
    · exact howner p hp
  unique r s f g hf hg hchild := by
    rcases mem_record hf with hf' | ⟨rfl, rfl⟩ <;> rcases mem_record hg with hg' | ⟨rfl, rfl⟩
    · exact h.unique r s f g hf' hg' hchild
    · exact hunique r f hf' hchild
    · exact (hunique s g hg' hchild.symm).symm
    · rfl
  gone := h.gone
  clear hleft c hc r f hf := by
    rcases mem_record hf with hold | ⟨_, rfl⟩
    · exact h.clear hleft c hc r f hold
    · exact fun heq => hnew (heq ▸ hc)
  last := h.last

/-- An event is taken out of a queue. -/
theorem take (h : v.Ok) {q : Nat} {e : ChildStateEvent} {rest : List ChildStateEvent}
    (he : e ∈ v.events q) (hrest : ∀ f ∈ rest, f ∈ v.events q) : (v.take q e rest).Ok := by
  have hold : ∀ r f, f ∈ (v.take q e rest).events r → f ∈ v.events r := by
    intro r f hf
    simp only [ReapView.take] at hf
    split at hf
    · rename_i heq
      exact heq ▸ hrest f hf
    · exact hf
  -- the mark is left unset only when no event of the child stays behind its exit
  have hleft : (v.take q e rest).left = false → v.left = false ∧
      (e.kind = .exited → ∀ f ∈ rest, f.childPid ≠ e.childPid) := by
    intro hl
    obtain ⟨hv, hnew⟩ := Bool.or_eq_false_iff.mp hl
    refine ⟨hv, ?_⟩
    intro hkind f hf heq
    rw [hkind, decide_eq_true rfl, Bool.true_and, List.any_eq_false] at hnew
    exact hnew f hf (decide_eq_true heq)
  -- the events that are left were there before; the exit that is taken joins the log
  refine ⟨h.live, fun r f hf => h.below r f (hold r f hf),
    fun r f p hf hp => h.owner r f p (hold r f hf) hp,
    fun r s f g hf hg => h.unique r s f g (hold r f hf) (hold s g hg), ?_, ?_, ?_⟩
  · intro c hc
    rcases exitIn_cons hc with ⟨hkind, rfl⟩ | hc
    · -- a process with a record has no exit in a queue
      refine ⟨h.below q e he, Option.eq_none_iff_forall_not_mem.mpr ?_⟩
      intro p hp
      exact (h.owner q e p he hp).2 hkind
    · exact h.gone c hc
  · intro hl c hc r f hf
    obtain ⟨hv, hnew⟩ := hleft hl
    rcases exitIn_cons hc with ⟨hkind, rfl⟩ | hc
    · -- the events of the child are in this queue, and none is left there
      intro heq
      have hr : r = q := h.unique r q f e (hold r f hf) he heq
      subst hr
      simp only [ReapView.take, if_true] at hf
      exact hnew hkind f hf heq
    · exact h.clear hv c hc r f (hold r f hf)
  · intro hl
    obtain ⟨hv, hnew⟩ := hleft hl
    refine List.pairwise_cons.mpr ⟨?_, h.last hv⟩
    intro f hf hkind
    exact h.clear hv f.childPid ⟨f, hf, hkind, rfl⟩ q e he

/-- A process is removed. -/
theorem remove (h : v.Ok) (pid : Nat) : (v.remove pid).Ok := by
  have hold : ∀ c p, (v.remove pid).parentOf c = some p → v.parentOf c = some p := by
    intro c p hp
    simp only [ReapView.remove] at hp
    split at hp
    · cases hp
    · exact hp
  refine ⟨fun c p hp => h.live c p (hold c p hp), h.below,
    fun q e p he hp => h.owner q e p he (hold _ p hp), h.unique, ?_, h.clear, h.last⟩
  intro c hc
  refine ⟨(h.gone c hc).1, ?_⟩
  simp only [ReapView.remove]
  rw [(h.gone c hc).2, ite_self]

/-- A process is added. -/
theorem add (h : v.Ok) (parent : Nat) : (v.add parent).Ok := by
  have hold : ∀ c, c < v.nextPid → (v.add parent).parentOf c = v.parentOf c :=
    fun c hc => if_neg hc.ne
  refine ⟨?_, fun q e he => (h.below q e he).trans (Nat.lt_succ_self _),
    fun q e p he hp => h.owner q e p he (hold _ (h.below q e he) ▸ hp), h.unique, ?_,
    h.clear, h.last⟩
  · intro c p hp
    by_cases hc : c = v.nextPid
    · rw [hc]
      exact Nat.lt_succ_self _
    · simp only [ReapView.add, if_neg hc] at hp
      exact (h.live c p hp).trans (Nat.lt_succ_self _)
  · intro c hc
    obtain ⟨hlt, hnone⟩ := h.gone c hc
    exact ⟨hlt.trans (Nat.lt_succ_self _), (hold c hlt).trans hnone⟩

end Ok

end ReapView

/-! ### What the view does not see -/

/-- A change of a process record that keeps the parent. -/
theorem World.reapView_modifyTask (w : World) (pid : Nat) {f : TaskStruct → TaskStruct}
    (hf : ∀ t, (f t).parentPid = t.parentPid) : (w.modifyTask pid f).reapView = w.reapView := by
  refine congrArg (ReapView.mk _ _ _ _) (funext fun q => ?_)
  rw [World.parentOf, World.parentOf, World.task?, World.modifyTask, OrdMap.get?_modify]
  by_cases h : q = pid
  · rw [if_pos h, Option.map_map]
    exact congrArg (Option.map · _) (funext hf)
  · rw [if_neg h]
    rfl

instance : BlindSlots World.reapView where
  tick _ _ := rfl
  slots _ _ := rfl
  ledger _ _ := rfl

instance : BlindTrace World.reapView := ⟨fun _ _ => rfl⟩

instance : BlindSignals World.reapView :=
  ⟨fun w pid _ => w.reapView_modifyTask pid fun _ => rfl, fun _ _ => rfl, fun _ _ => rfl⟩

instance : BlindHosts World.reapView := ⟨fun _ _ => rfl, fun _ _ => rfl⟩

instance : BlindRest World.reapView :=
  ⟨fun w pid _ => w.reapView_modifyTask pid fun _ => rfl,
    fun w pid _ => w.reapView_modifyTask pid fun _ => rfl⟩

instance : BlindStops World.reapView :=
  ⟨fun w pid _ _ => w.reapView_modifyTask pid fun _ => rfl, fun _ _ => rfl, fun _ _ => rfl⟩

instance : BlindJobs World.reapView :=
  ⟨fun w pid _ _ _ => w.reapView_modifyTask pid fun _ => rfl⟩

instance : BlindActions World.reapView := ⟨fun w pid _ => w.reapView_modifyTask pid fun _ => rfl⟩

instance : BlindSleeps World.reapView :=
  ⟨fun _ _ => rfl, fun _ _ => rfl, fun _ _ => rfl, fun _ _ => rfl⟩

instance : BlindCaller World.reapView := ⟨fun _ _ => rfl⟩

instance : BlindFiles World.reapView where
  cloexecLog _ _ := rfl
  positionSplit _ _ := rfl
  endpoints _ _ := rfl
  doubleClose _ _ := rfl
  asyncFree _ _ := rfl
  asyncRegions _ _ := rfl
  asyncVaddr _ _ := rfl
  iouring _ _ := rfl
  fdOverflow _ _ := rfl
  earlyRecycle _ _ := rfl
  files w pid _ := w.reapView_modifyTask pid fun _ => rfl

instance : BlindMemory World.reapView where
  vspace w pid _ := w.reapView_modifyTask pid fun _ => rfl
  tables w pid _ := w.reapView_modifyTask pid fun _ => rfl
  scratch _ _ _ := rfl
  writeFrame _ _ _ := rfl
  frames _ _ _ := rfl
  refs _ _ := rfl
  doubleFree _ _ := rfl
  mm w pid _ := w.reapView_modifyTask pid fun _ => rfl
  fileMapLog _ _ := rfl

/-- The children of the server meet a condition. -/
def World.Reaps (g : ReapView → Prop) (w : World) : Prop := g w.reapView

section Blind

variable (g : ReapView → Prop)

instance : BlindSlots (World.Reaps g) := BlindSlots.comp (V := World.reapView) _ inferInstance

instance : BlindTrace (World.Reaps g) := BlindTrace.comp (V := World.reapView) _ inferInstance

instance : BlindSignals (World.Reaps g) := BlindSignals.comp (V := World.reapView) _ inferInstance

instance : BlindHosts (World.Reaps g) := BlindHosts.comp (V := World.reapView) _ inferInstance

instance : BlindRest (World.Reaps g) := BlindRest.comp (V := World.reapView) _ inferInstance

instance : BlindStops (World.Reaps g) := BlindStops.comp (V := World.reapView) _ inferInstance

instance : BlindJobs (World.Reaps g) := BlindJobs.comp (V := World.reapView) _ inferInstance

instance : BlindActions (World.Reaps g) := BlindActions.comp (V := World.reapView) _ inferInstance

instance : BlindSleeps (World.Reaps g) := BlindSleeps.comp (V := World.reapView) _ inferInstance

instance : BlindCaller (World.Reaps g) := BlindCaller.comp (V := World.reapView) _ inferInstance

instance : BlindFiles (World.Reaps g) := BlindFiles.comp (V := World.reapView) _ inferInstance

instance : BlindMemory (World.Reaps g) := BlindMemory.comp (V := World.reapView) _ inferInstance

end Blind

/-! ### `wait4` -/

/-- The condition survives that an event is taken. -/
class TakeKeeps (g : ReapView → Prop) : Prop where
  take : ∀ v q e rest, g v → (v.events q).Perm (e :: rest) → g (v.take q e rest)

/-- The first event that is accepted and the events that are left are the queue. -/
theorem perm_eraseP_of_find? {p : ChildStateEvent → Bool} {e : ChildStateEvent}
    {queue : List ChildStateEvent} (h : queue.find? p = some e) :
    queue.Perm (e :: queue.eraseP p) := by
  obtain ⟨he, before, after, rfl, hbefore⟩ := List.find?_eq_some_iff_append.mp h
  rw [List.eraseP_append_right _ fun f hf => by simpa using hbefore f hf,
    List.eraseP_cons_of_pos he]
  exact List.perm_middle

/-- An event that was popped is taken from its queue. -/
theorem World.reapView_popped (w : World) (pid : Nat) (e : ChildStateEvent)
    (rest : List ChildStateEvent) : (w.popped pid e rest).reapView = w.reapView.take pid e rest :=
  congrArg (ReapView.mk · _ _ _ _) (funext fun q => w.eventsOf_withEvents pid q rest)

section Take

variable {g : ReapView → Prop} [ht : TakeKeeps g]

/-- The first event that matches is taken once. -/
theorem popChildEventMatching_reaps (parentPid : Nat) (target : Int) (options callerPgid : Nat) :
    Keeps (World.Reaps g) (popChildEventMatching parentPid target options callerPgid) := by
  intro w hw
  rcases popChildEventMatching_cases parentPid target options callerPgid w with
    ⟨_, hrun⟩ | ⟨e, hfind, hrun⟩
  · rw [hrun]
    exact hw
  · rw [hrun, World.Reaps, World.reapView_popped]
    exact ht.take _ _ _ _ hw (perm_eraseP_of_find? hfind)

/-- The deferred `wait4` of a parent takes at most one event. -/
theorem tryWakePendingWait4Reply_reaps (parentPid : Nat) :
    Keeps (World.Reaps g) (tryWakePendingWait4Reply parentPid) :=
  tryWakePendingWait4Reply_keeps_of (popChildEventMatching_reaps parentPid) fun _ hw => hw

instance : Wait4Keeps (World.Reaps g) where
  wait4 pid target wstatus options := by
    unfold doWait4
    refine Keeps.bind (by simp) fun task => Keeps.bind (by simp) fun _ =>
      Keeps.bind (popChildEventMatching_reaps _ _ _ _) fun event => ?_
    split
    · exact Keeps.bind (by simp) fun _ => Keeps.bind (fun _ hw => hw) fun _ => Keeps.pure _
    · refine Keeps.bind (Keeps.gets _) fun waitable => Keeps.ite (by simp) (Keeps.ite (by simp) ?_)
      have hqueue : Keeps (World.Reaps g)
          (queueWait4Reply pid target wstatus options task.processGroupId) :=
        Keeps.bind (Keeps.gets _) fun busy => Keeps.ite (Keeps.throw _)
          (Keeps.bind (by simp) fun slot => fun _ hw => hw)
      exact Keeps.bind hqueue fun _ => Keeps.bind (modifySignal_frames pid _).keepsProp fun _ =>
        Keeps.bind (by simp) fun _ => Keeps.throw _

omit ht in
instance : WaitsKeeps (World.Reaps g) where
  drop pid := Keeps.bind (Keeps.gets _) fun pending => Keeps.whenSome fun p =>
    Keeps.bind (fun _ hw => hw) fun _ => by simp
  lifecycle _ _ hw := hw

end Take

/-! ### Stops and continuations -/

/-- The children of the server are in order. -/
abbrev World.ReapsOk : World → Prop := World.Reaps ReapView.Ok

instance : TakeKeeps ReapView.Ok := ⟨fun _ _ e _ h hperm => h.take
  (hperm.mem_iff.mpr List.mem_cons_self) fun _ hf => hperm.mem_iff.mpr (List.mem_cons_of_mem e hf)⟩

/-- An event that is queued shows in the queue of its parent. -/
theorem World.reapView_record (w : World) (parentPid : Nat) (e : ChildStateEvent) :
    ((recordChildEvent parentPid e).run w).2.reapView = w.reapView.record parentPid e := by
  refine congrArg (ReapView.mk · _ _ _ _) (funext fun q => ?_)
  show ((w.childEvents.insert parentPid (w.eventsOf parentPid ++ [e])).get? q).getD [] = _
  rw [OrdMap.get?_insert]
  by_cases h : q = parentPid
  · rw [if_pos h]
    exact (if_pos h).symm
  · rw [if_neg h]
    exact (if_neg h).symm

/-- A stop or a continuation is recorded for the parent of a process. -/
theorem recordChildChange_reaps {v : ReapView} (h : v.Ok) {parentPid : Nat} {e : ChildStateEvent}
    (hlive : v.parentOf e.childPid = some parentPid) (hkind : e.kind ≠ .exited) :
    Triple (fun w => w.reapView = v) (recordChildChange parentPid e) (fun _ => World.ReapsOk)
      fun _ => World.ReapsOk := by
  intro w hw
  have hend : World.ReapsOk ((recordChildChange parentPid e).run w).2 := by
    show ReapView.Ok (World.reapView ((recordChildEvent parentPid e).run _).2)
    rw [World.reapView_record]
    show ReapView.Ok (w.reapView.record parentPid e)
    rw [hw]
    refine h.record (h.live _ _ hlive) ?_ ?_ ?_
    · intro p hp
      rw [hlive] at hp
      exact ⟨Option.some.inj hp, hkind⟩
    · intro r f hf hchild
      exact (h.owner r f parentPid hf (hchild ▸ hlive)).1
    · intro hexit
      have hnone := (h.gone _ hexit).2
      rw [hlive] at hnone
      cases hnone
  exact ⟨fun _ _ => hend, fun _ _ => hend⟩

/-- The parent of a process is in its record. -/
theorem World.parentOf_of_task {w : World} {pid : Nat} {t : TaskStruct} (h : w.task? pid = some t) :
    w.reapView.parentOf pid = some t.parentPid := by
  show (w.task? pid).map (·.parentPid) = _
  rw [h]
  rfl

/-- A step that leaves the view alone. -/
theorem reap_step {v : ReapView} {α : Type} {c : M α} (h : v.Ok)
    (hc : Keeps (fun w => w.reapView = v) c) :
    Triple (fun w => w.reapView = v) c (fun _ w => w.reapView = v) fun _ => World.ReapsOk :=
  hc.triple.imp (fun _ hw => hw) (fun _ _ hw => hw) fun _ w hw => by
    rw [World.ReapsOk, World.Reaps, hw]
    exact h

/-- What is in order in a view is so in each state with that view. -/
theorem reapsOk_of_eq {v : ReapView} (h : v.Ok) {w : World} (hw : w.reapView = v) : w.ReapsOk := by
  rw [World.ReapsOk, World.Reaps, hw]
  exact h

/-- The default action of a stop signal records no exit. -/
theorem deliverStop_reaps (pid signum : Nat) : Keeps World.ReapsOk (deliverStop pid signum) := by
  refine Triple.keeps (Triple.bind (getProcess_task pid) fun task => Triple.of_pre fun w h => ?_)
  have hlive := World.parentOf_of_task h.2
  refine Triple.pre (K := fun w' => w'.reapView = w.reapView) ?_ fun w' hw' => by rw [hw']
  refine Triple.bind (reap_step h.1 (by simp)) fun r =>
    Triple.bind (reap_step h.1 (by simp)) fun _ =>
    Triple.bind (reap_step h.1 (by simp)) fun _ => Triple.bind (R := fun _ => World.ReapsOk) ?_
      fun _ => Triple.pure fun _ hw => hw
  refine Triple.when (fun _ => ?_) fun w' _ hw' => reapsOk_of_eq h.1 hw'
  exact Triple.bind (reap_step h.1 (by simp)) fun _ => recordChildChange_reaps h.1 hlive (by simp)

/-- The default action of `SIGCONT` records no exit. -/
theorem deliverCont_reaps (pid : Nat) : Keeps World.ReapsOk (deliverCont pid) := by
  refine Triple.keeps (Triple.bind (getProcess_task pid) fun task => Triple.of_pre fun w h => ?_)
  have hlive := World.parentOf_of_task h.2
  refine Triple.pre (K := fun w' => w'.reapView = w.reapView) ?_ fun w' hw' => by rw [hw']
  refine Triple.bind (reap_step h.1 (by simp)) fun r =>
    Triple.bind (reap_step h.1 (by simp)) fun _ =>
    Triple.bind (reap_step h.1 (by simp)) fun _ => Triple.bind (R := fun _ => World.ReapsOk) ?_
      fun _ => Triple.pure fun _ hw => hw
  refine Triple.when (fun _ => ?_) fun w' _ hw' => reapsOk_of_eq h.1 hw'
  exact Triple.bind (reap_step h.1 (by simp)) fun _ => recordChildChange_reaps h.1 hlive (by simp)

/-- A stop by `kill` records no exit. -/
theorem killStop_reaps (caller pid signum : Nat) :
    Keeps World.ReapsOk (killStop caller pid signum) := by
  refine Triple.keeps (Triple.of_pre fun w h => ?_)
  refine Triple.bind (R := fun o w' => w'.reapView = w.reapView ∧ o = w.task? pid)
    (Triple.gets fun w' hw' => by rw [hw']; exact ⟨rfl, rfl⟩) fun task =>
      Triple.of_pre fun w₁ h₁ => ?_
  refine Triple.pre (K := fun w' => w'.reapView = w.reapView) ?_
    fun w' hw' => by rw [hw']; exact h₁.1
  refine Triple.bind (reap_step h (by simp)) fun _ =>
    Triple.bind (reap_step h (Keeps.gets _)) fun now =>
    Triple.bind (reap_step h ?_) fun _ => ?_
  · exact Keeps.whenSome fun _ => Keeps.when (Keeps.bind (by simp) fun _ => by simp)
  · refine Triple.whenSome (fun t ht => ?_) fun w' _ hw' => reapsOk_of_eq h hw'
    have hlive := World.parentOf_of_task (h₁.2.symm.trans ht)
    refine Triple.when (fun _ => ?_) fun w' _ hw' => reapsOk_of_eq h hw'
    exact Triple.bind (reap_step h (by simp)) fun _ => recordChildChange_reaps h hlive (by simp)

/-- A continuation by `kill` records no exit. -/
theorem killCont_reaps (pid : Nat) : Keeps World.ReapsOk (killCont pid) := by
  have hdiscard : ∀ v signum, Keeps (fun w => w.reapView = v) (discardStop pid signum) :=
    fun v signum => Keeps.bind (Keeps.gets _) fun _ => Keeps.whenSome fun _ =>
      Keeps.bind (modifySignal_frames pid _).keepsProp fun _ => Keeps.when (emit_frames _).keepsProp
  refine Triple.keeps (Triple.of_pre fun w h => ?_)
  refine Triple.bind (R := fun o w' => w'.reapView = w.reapView ∧ o = w.task? pid)
    (Triple.gets fun w' hw' => by rw [hw']; exact ⟨rfl, rfl⟩) fun task =>
      Triple.of_pre fun w₁ h₁ => ?_
  refine Triple.pre (K := fun w' => w'.reapView = w.reapView) ?_
    fun w' hw' => by rw [hw']; exact h₁.1
  refine Triple.bind (reap_step h ?_) fun _ =>
    Triple.bind (R := fun _ => World.ReapsOk) ?_ fun _ => ?_
  · exact Keeps.whenSome fun _ => Keeps.bind (Keeps.forEach (hdiscard _)) fun _ => by simp
  · refine Triple.whenSome (fun t ht => ?_) fun w' _ hw' => reapsOk_of_eq h hw'
    have hlive := World.parentOf_of_task (h₁.2.symm.trans ht)
    refine Triple.when (fun _ => ?_) fun w' _ hw' => reapsOk_of_eq h hw'
    exact recordChildChange_reaps h hlive (by simp)
  · exact Keeps.triple (Keeps.bind (queueProcessSignal_keeps pid SIGCONT) fun _ =>
      Keeps.bind (Keeps.gets _) fun now => by simp)

instance : StopsKeeps World.ReapsOk := ⟨deliverStop_reaps, deliverCont_reaps, killStop_reaps⟩

instance : ContKeeps World.ReapsOk := ⟨killCont_reaps⟩

/-! ### The end of a process -/

/-- The process was removed, and nothing was taken or recorded of its exit. -/
structure ReapView.Orphan (pid parent : Nat) (v : ReapView) : Prop where
  dead : v.parentOf pid = none
  old : pid < v.nextPid
  owner : ∀ q e, e ∈ v.events q → e.childPid = pid → q = parent ∧ e.kind ≠ .exited
  new : ¬ exitIn pid v.waited

/-- The process is to be removed, or was removed just now. -/
def ReapView.Leaving (pid parent : Nat) (v : ReapView) : Prop :=
  v.Ok ∧ (v.parentOf pid = some parent ∨ v.Orphan pid parent)

instance (pid parent : Nat) : TakeKeeps (ReapView.Leaving pid parent) where
  take v q e rest h hperm := by
    have he : e ∈ v.events q := hperm.mem_iff.mpr List.mem_cons_self
    have hrest : ∀ f ∈ rest, f ∈ v.events q := fun f hf =>
      hperm.mem_iff.mpr (List.mem_cons_of_mem e hf)
    refine ⟨h.1.take he hrest, h.2.imp (fun hlive => hlive) ?_⟩
    intro ho
    refine ⟨ho.dead, ho.old, fun r f hf hchild => ho.owner r f ?_ hchild, ?_⟩
    · simp only [ReapView.take] at hf
      split at hf
      · rename_i heq
        exact heq ▸ hrest f hf
      · exact hf
    · intro hexit
      rcases ReapView.exitIn_cons hexit with ⟨hkind, hchild⟩ | hold
      · exact (ho.owner q e he hchild).2 hkind
      · exact ho.new hold

/-- A process that is removed is gone from the view. -/
theorem World.reapView_erase (w : World) (pid : Nat) :
    ({ w with tasks := w.tasks.erase pid } : World).reapView = w.reapView.remove pid := by
  refine congrArg (ReapView.mk _ _ _ _) (funext fun q => ?_)
  show ((w.tasks.erase pid).get? q).map _ = _
  rw [OrdMap.get?_erase]
  by_cases h : q = pid
  · rw [if_pos h]
    exact (if_pos h).symm
  · rw [if_neg h]
    exact (if_neg h).symm

/-- A process that is to be removed may be removed. -/
theorem ReapView.Leaving.remove {v : ReapView} {pid parent : Nat}
    (h : v.Leaving pid parent) (q : Nat) :
    (v.remove q).Leaving pid parent := by
  refine ⟨h.1.remove q, ?_⟩
  by_cases hq : pid = q
  · subst hq
    refine .inr (h.2.elim (fun hlive => ?_) fun ho => ⟨if_pos rfl, ho.old, ho.owner, ho.new⟩)
    refine ⟨if_pos rfl, h.1.live pid parent hlive, ?_, ?_⟩
    · intro r e he hchild
      exact h.1.owner r e parent he (hchild ▸ hlive)
    · intro hexit
      have hnone := (h.1.gone pid hexit).2
      rw [hlive] at hnone
      cases hnone
  · have hsame : (v.remove q).parentOf pid = v.parentOf pid := if_neg hq
    exact h.2.imp hsame.trans fun ho => ⟨hsame.trans ho.dead, ho.old, ho.owner, ho.new⟩

instance (pid parent : Nat) : EraseKeeps (World.Reaps (ReapView.Leaving pid parent)) where
  erase w q h _ := by
    rw [World.Reaps, World.reapView_erase]
    exact ReapView.Leaving.remove h q
  panicked _ _ h := h

/-- The exit of a process that was removed is recorded for its parent. -/
theorem recordChildExit_reaps (pid parent status pgid : Nat) :
    Triple (World.Reaps fun v => v.Ok ∧ v.Orphan pid parent)
      (recordChildExit parent pid status pgid)
      (fun _ => World.ReapsOk) fun _ => World.ReapsOk := by
  intro w h
  obtain ⟨hok, ho⟩ := h
  have hend : World.ReapsOk ((recordChildExit parent pid status pgid).run w).2 := by
    show ReapView.Ok (World.reapView ((recordChildEvent parent _).run w).2)
    rw [World.reapView_record]
    refine hok.record ho.old (fun p hp => ?_) (fun r f hf hchild =>
      (ho.owner r f hf hchild).1) ho.new
    rw [ho.dead] at hp
    cases hp
  exact ⟨fun _ _ => hend, fun _ _ => hend⟩

/-- The report of an exit to the parent. -/
theorem notifyParent_reaps (pid parent pgid code : Nat) :
    Triple (World.Reaps fun v => v.Ok ∧ v.Orphan pid parent) (notifyParent pid parent pgid code)
      (fun _ => World.ReapsOk) fun _ => World.ReapsOk := by
  refine Triple.ite (fun _ => Triple.pure fun w h => h.1) fun _ => ?_
  refine Triple.bind (R := fun _ => World.Reaps fun v => v.Ok ∧ v.Orphan pid parent)
    (Triple.modify fun _ h => h) fun _ => Triple.bind (recordChildExit_reaps _ _ _ _) fun _ => ?_
  refine Keeps.triple (Keeps.bind (tryWakePendingWait4Reply_reaps parent) fun replied => ?_)
  exact Keeps.when (Keeps.bind (resumeWait4Parent_keeps _ _ _) fun _ => by simp)

/-- The end of a process records its exit for the parent. -/
theorem terminateProcess_reaps (pid code : Nat) :
    Keeps World.ReapsOk (terminateProcess pid code) := by
  refine Triple.keeps (Triple.bind (getProcess_task pid) fun task => ?_)
  let L : World → Prop := World.Reaps (ReapView.Leaving pid task.parentPid)
  refine Triple.bind (R := fun _ => World.Reaps fun v => v.Ok ∧ v.Orphan pid task.parentPid) ?_
    fun _ => ?_
  -- the process is gone after the release, and nobody else has its events
  · refine ((releaseProcess_keeps_blind (I := L) pid task).and
      (releaseProcess_gone pid task (E := fun _ _ => True))).imp ?_ ?_ fun _ w h => h.1.1
    · intro w h
      refine ⟨⟨⟨h.1, .inl (World.parentOf_of_task h.2)⟩, ?_⟩, trivial⟩
      intro fs hfs fd _ hget
      have hfiles : w.filesOf pid = some task.files := by rw [World.filesOf, h.2]; rfl
      rw [hfiles] at hfs
      cases hfs
      exact OrdMap.mem_keys.mpr (Option.isSome_iff_ne_none.mpr hget)
    -- a process without a record has no parent
    · intro _ w h
      have hdead : w.reapView.parentOf pid = none := by
        show (w.task? pid).map _ = none
        rw [Option.map_eq_none_iff, ← Option.not_isSome_iff_eq_none]
        rw [World.live] at h
        rw [h.2]
        decide
      refine ⟨h.1.1, h.1.2.resolve_left ?_⟩
      intro hlive
      rw [hdead] at hlive
      cases hlive
  -- the event of its end goes to the parent, which has no other exit of it
  · refine Triple.bind (Q := fun _ => World.ReapsOk) (E := fun _ => World.ReapsOk)
      (R := fun _ => World.Reaps fun v => v.Ok ∧ v.Orphan pid task.parentPid)
      (Triple.modify fun _ h => h) fun _ => ?_
    refine Triple.bind (Q := fun _ => World.ReapsOk) (E := fun _ => World.ReapsOk)
      (R := fun _ => World.Reaps fun v => v.Ok ∧ v.Orphan pid task.parentPid)
      ((emit_frames (V := World.Reaps fun v => v.Ok ∧ v.Orphan pid task.parentPid)
        _).keepsProp.triple.errors
        fun _ _ h => h.1) fun _ => ?_
    refine Triple.bind (notifyParent_reaps _ _ _ _) fun _ => Keeps.triple (Keeps.ite ?_ ?_)
    · exact Keeps.bind (fun _ h => h) fun _ => Keeps.throw _
    · exact Keeps.bind (Keeps.gets _) fun caller => Keeps.when (Keeps.throw _)

instance : ProcessKeeps World.ReapsOk where
  erase w pid h _ := by
    -- an erased process leaves no parent of a child behind
    rw [World.ReapsOk, World.Reaps, World.reapView_erase]
    exact ReapView.Ok.remove h pid
  panicked _ _ h := h
  register w parentPid cnode h := by
    have hview : (w.registered parentPid cnode).reapView = w.reapView.add parentPid := by
      refine congrArg (ReapView.mk _ _ _ _) (funext fun q => ?_)
      show ((w.tasks.insert w.nextPid _).get? q).map _ = _
      rw [OrdMap.get?_insert]
      by_cases hq : q = w.nextPid
      · rw [if_pos hq]
        exact (if_pos hq).symm
      · rw [if_neg hq]
        exact (if_neg hq).symm
    rw [World.ReapsOk, World.Reaps, hview]
    exact ReapView.Ok.add h parentPid
  inherit w child parent pid h _ := by
    -- `fork` leaves the parent of the child what it is
    have hparent : ∀ t : TaskStruct, (t.inherit parent).parentPid = t.parentPid := by
      intro t
      unfold TaskStruct.inherit
      dsimp only
      split <;> rfl
    change (w.modifyTask child (·.inherit parent)).ReapsOk
    rw [World.ReapsOk, World.Reaps, World.reapView_modifyTask w child hparent]
    exact h

/-- The children are in order in every state of a run. -/
theorem Reachable.reapsOk {w : World} (h : Reachable w) : w.ReapsOk := by
  refine Reachable.invariant (I := World.ReapsOk) ?_ ?_ w h
  -- at the start no event is queued and none was taken
  · intro w w' path hinit hrun
    have hevents : ∀ q, w.eventsOf q = [] := by
      intro q
      rw [World.eventsOf, hinit.noEvents]
      rfl
    have hnone : ∀ q, w.parentOf q = none := by
      intro q
      rw [World.parentOf, World.task?, hinit.noTasks]
      rfl
    have hnew : ∀ c, ¬ exitIn c w.waited := by
      intro c hc
      obtain ⟨e, he, _⟩ := hc
      rw [hinit.noneWaited] at he
      cases he
    have hempty : ∀ q e, e ∉ w.reapView.events q := by
      intro q e he
      have he' : e ∈ w.eventsOf q := he
      rw [hevents q] at he'
      cases he'
    have hstart : w.ReapsOk :=
      ⟨fun c p hp => absurd ((hnone c).symm.trans hp) (by simp), fun q e he => (hempty q e he).elim,
        fun q e p he _ => (hempty q e he).elim, fun q r e f he _ _ => (hempty q e he).elim,
        fun c hc => (hnew c hc).elim, fun _ c hc => (hnew c hc).elim, fun _ => by
          show List.Pairwise _ w.waited
          rw [hinit.noneWaited]
          exact List.Pairwise.nil⟩
    have hload := loadInit_keeps_blind (I := World.ReapsOk) path w hstart
    rw [hrun] at hload
    exact hload
  · intro w r w' _ hw hstep
    rw [← hstep.2]
    exact dispatch_keeps_of terminateProcess_reaps
      (fun pid sys ret => finishSyscall_keeps (terminateProcess_reaps pid) sys ret)
      doNanosleep_keeps r hw fun pid _ _ hsys => jobCall_keeps pid hsys _ hw

/-! ### After the exit was reported -/

/-- The target matches no process, and no event of a child whose exit was not taken. -/
def World.OnlyReaped (w : World) (pid : Nat) (target : Int) (callerPgid : Nat) : Prop :=
  w.hasLiveChildMatching pid target callerPgid = false ∧
    ∀ e ∈ w.eventsOf pid, matchesWaitTarget e.childPid e.processGroupId target callerPgid = true →
      exitIn e.childPid w.waited

/-- The children that are looked at do not change with the signal state of a process. -/
theorem hasLiveChildMatching_modifySignal (w : World) (pid q : Nat)
    (f : SignalStruct → SignalStruct)
    (target : Int) (callerPgid : Nat) :
    (w.modifySignal pid f).hasLiveChildMatching q target callerPgid
      = w.hasLiveChildMatching q target callerPgid := by
  rw [Bool.eq_iff_iff, World.hasLiveChildMatching, World.hasLiveChildMatching, List.any_eq_true,
    List.any_eq_true]
  -- a signal changes its own record only, and there none of the fields a match reads
  have hmodify : ∀ k, (w.modifySignal pid f).tasks.get? k
      = if k = pid then (w.tasks.get? k).map fun t => { t with signal := f t.signal }
        else w.tasks.get? k := fun k => OrdMap.get?_modify _ _ _ _
  constructor
  · rintro ⟨t, ht, hmatch⟩
    obtain ⟨k, hk⟩ := OrdMap.mem_values.mp ht
    rw [hmodify] at hk
    split at hk
    · obtain ⟨t', ht', rfl⟩ := Option.map_eq_some_iff.mp hk
      exact ⟨t', OrdMap.mem_values.mpr ⟨k, ht'⟩, hmatch⟩
    · exact ⟨t, OrdMap.mem_values.mpr ⟨k, hk⟩, hmatch⟩
  · rintro ⟨t, ht, hmatch⟩
    obtain ⟨k, hk⟩ := OrdMap.mem_values.mp ht
    by_cases hpid : k = pid
    · refine ⟨{ t with signal := f t.signal }, OrdMap.mem_values.mpr ⟨k, ?_⟩, hmatch⟩
      rw [hmodify, if_pos hpid, hk]
      rfl
    · refine ⟨t, OrdMap.mem_values.mpr ⟨k, ?_⟩, hmatch⟩
      rw [hmodify, if_neg hpid, hk]

/-- `wait4` finds no child. -/
theorem doWait4_none {w : World} {pid : Nat} {t : TaskStruct} (ht : w.task? pid = some t)
    {target : Int}
    {options : Nat} (wstatus : Nat)
    (hno : w.hasWaitableChild pid target options t.processGroupId = false) :
    ((doWait4 pid target wstatus options).run w).1 = .ok (-ECHILD) := by
  let w' : World := w.modifySignal pid (·.clearWait4Block)
  have hlive := hasLiveChildMatching_modifySignal w pid pid (·.clearWait4Block) target
    t.processGroupId
  have hno' : w'.hasWaitableChild pid target options t.processGroupId = false := by
    rw [World.hasWaitableChild] at hno ⊢
    rw [hlive]
    exact hno
  rw [doWait4, run_bind_ok (run_getProcess ht)]
  show ((popChildEventMatching pid target options t.processGroupId >>= _).run w').1 = _
  rcases popChildEventMatching_cases pid target options t.processGroupId w' with
    ⟨_, hrun⟩ | ⟨e, hfind, _⟩
  · rw [run_bind_ok hrun, run_gets_bind, hno']
    rfl
  · have hevent : w'.hasChildEventMatching pid target options t.processGroupId = true :=
      List.any_eq_true.mpr ⟨e, List.mem_of_find?_eq_some hfind, List.find?_some hfind⟩
    rw [World.hasWaitableChild, hevent, Bool.or_true] at hno'
    cases hno'

/-- In a run in which no `wait4` took an exit and left other events of the child, nothing is taken
of a child after its exit, nothing of it is in a queue, and a `wait4` for such children only finds
no child. -/
theorem reaped_child_gone {w : World} (h : Reachable w) (hleft : w.leftEvents = false) :
    (w.waited.Pairwise fun newer older => older.kind = .exited → newer.childPid ≠ older.childPid) ∧
      (∀ c, exitIn c w.waited → ∀ parent, ∀ e ∈ w.eventsOf parent, e.childPid ≠ c) ∧
      ∀ pid t target wstatus options, w.task? pid = some t →
        w.OnlyReaped pid target t.processGroupId →
        ((doWait4 pid target wstatus options).run w).1 = .ok (-ECHILD) := by
  have hok : w.reapView.Ok := h.reapsOk
  refine ⟨hok.last hleft, fun c hc parent e he => hok.clear hleft c hc parent e he, ?_⟩
  intro pid t target wstatus options ht honly
  refine doWait4_none ht wstatus ?_
  rw [World.hasWaitableChild, honly.1, Bool.false_or, World.hasChildEventMatching,
    List.any_eq_false]
  intro e he hmatch
  rw [eventMatches, Bool.and_eq_true] at hmatch
  exact hok.clear hleft e.childPid (honly.2 e he hmatch.2) pid e he rfl

/-- `init` waits for its child, which exits. -/
def sampleReap : World :=
  [Request.syscall 2 (.exit 0), .syscall 1 (.wait4 (-1) 0 0)].foldl World.after sampleFork

/-- The sample in which a child was reaped is reachable. -/
theorem sampleReap_reachable : Reachable sampleReap :=
  (sampleFork_reachable.after (by decide +kernel)).after (by decide +kernel)

/-- The child of the sample was reaped once, and a second `wait4` finds no child. -/
theorem reaped_child_gone_sample :
    sampleReap.waited.map (fun e => (e.childPid, e.kind)) = [(2, .exited)] ∧
      ∃ t, sampleReap.task? 1 = some t ∧
        ((doWait4 1 (-1) 0 WUNTRACED).run sampleReap).1 = .ok (-ECHILD) := by
  have hgone := reaped_child_gone sampleReap_reachable (by decide +kernel)
  have hsome : (sampleReap.task? 1).isSome = true := by decide +kernel
  have hlive : (sampleReap.task? 1).all fun t =>
    !sampleReap.hasLiveChildMatching 1 (-1) t.processGroupId := by decide +kernel
  have hevents : sampleReap.eventsOf 1 = [] := by decide +kernel
  obtain ⟨t, ht⟩ := Option.isSome_iff_exists.mp hsome
  rw [ht] at hlive
  refine ⟨by decide +kernel, t, ht, hgone.2.2 1 t (-1) 0 WUNTRACED ht ⟨?_, ?_⟩⟩
  · exact (Bool.not_eq_true' _).mp hlive
  · intro e he
    rw [hevents] at he
    cases he

/-- `init` stops its child, ends it, and waits for it without `WUNTRACED`. -/
def sampleLeft : World :=
  [Request.syscall 1 (.kill 2 SIGTSTP), .syscall 1 (.kill 2 SIGKILL),
    .syscall 1 (.wait4 (-1) 0 0)].foldl World.after sampleFork

/-- The stop of the child is reported after its exit. -/
theorem stop_reported_after_exit :
    Reachable sampleLeft ∧ sampleLeft.leftEvents = true ∧ exitIn 2 sampleLeft.waited ∧
      sampleLeft.tasks.keys = [1] ∧
      ((handleSyscall 1 (.wait4 2 0 WUNTRACED)).run sampleLeft).1 = .ok 2 := by
  exact ⟨((sampleFork_reachable.after (by decide +kernel)).after (by decide +kernel)).after
    (by decide +kernel), by decide +kernel, by decide +kernel, by decide +kernel, by decide +kernel⟩

end Ape
