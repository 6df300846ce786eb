import Ape.Proofs.Ledger
import Ape.Proofs.Reaps

/-!
# `Ape.Proofs.Remains`: what the server keeps of dead processes

The tables of child events, of deferred `wait4` and sleep replies and of host processes are keyed by
pid, and so are the lifecycle snapshots. The end of a process removes its deferred replies and its
host process. It does not remove its queue of child events, and it turns its snapshot into an exit
record, which `wait4` clears when it takes the exit.

Four branches leave something behind. A process ends with events in its queue, or it has no parent
that could clear its exit record. An event is recorded for a parent that is gone. A deferred `wait4`
takes an exit, and nobody clears the record. A `wait4` takes an exit, and then cannot store the
status. `staleRecords` marks them. `RemainsView.Ok` says what holds in every run: the first three
tables belong to processes that are there, and as long as no such branch was taken, the queues do
too, and a snapshot of a dead process is an exit that was not taken yet.
-/

set_option autoImplicit false

namespace Ape

open Ape.Lib Cmd

/-! ### The tables -/

/-- The tables that are keyed by pid, and the processes there are. -/
structure RemainsView where
  live : Nat → Bool
  nextPid : Nat
  events : OrdMap Nat (List ChildStateEvent)
  waits : OrdMap Nat PendingWaitReply
  sleeps : OrdMap Nat PendingSleepReply
  hosts : OrdMap Nat Nat
  lifecycle : OrdMap Nat ProcessLifecycleSnapshot
  waited : List ChildStateEvent
  stale : Bool

/-- The tables of the server. -/
def World.remainsView (w : World) : RemainsView :=
  ⟨fun pid => w.live pid, w.nextPid, w.childEvents, w.pendingWaitReplies, w.pendingSleepReplies,
    w.hostPidMap, w.lifecycle, w.waited, w.staleRecords⟩

namespace RemainsView

/-- The part of the invariant that every branch keeps. -/
structure Base (v : RemainsView) : Prop where
  /-- A process is older than the next one. -/
  young : ∀ p, v.live p = true → p < v.nextPid
  /-- A deferred `wait4` is that of a process. -/
  waits : ∀ p r, v.waits.get? p = some r → v.live p = true
  /-- So is a deferred sleep. -/
  sleeps : ∀ p r, v.sleeps.get? p = some r → v.live p = true
  /-- A host process stands for a process. -/
  hosts : ∀ h p, v.hosts.get? h = some p → v.live p = true
  /-- A process has one host process. -/
  single : ∀ h h' p, v.hosts.get? h = some p → v.hosts.get? h' = some p → h = h'
  /-- A process whose exit is in a queue is gone. -/
  exits : ∀ q l e, v.events.get? q = some l → e ∈ l → e.kind = .exited →
    e.childPid < v.nextPid ∧ v.live e.childPid = false
  /-- So is a process whose exit was taken. -/
  reaped : ∀ c, exitIn c v.waited → c < v.nextPid ∧ v.live c = false

/-- The queues belong to processes, apart from that of `ex`. -/
def Queues (ex : Option Nat) (v : RemainsView) : Prop :=
  ∀ q l, v.events.get? q = some l → v.live q = true ∨ ex = some q

/-- A snapshot is that of a process or an exit that was not taken, apart from that of `ex`. -/
def Snapshots (ex : Option Nat) (v : RemainsView) : Prop :=
  ∀ p l, v.lifecycle.get? p = some l →
    v.live p = true ∨ (l.state = .exited ∧ ¬ exitIn p v.waited) ∨ ex = some p

/-- The invariant of runs. -/
structure Ok (v : RemainsView) : Prop extends Base v where
  queues : v.stale = false → v.Queues none
  snapshots : v.stale = false → v.Snapshots none

/-- The tables are in order, and the process is there. -/
def OkWith (pid : Nat) (v : RemainsView) : Prop := v.Ok ∧ v.live pid = true

/-- The tables are in order, and the process is gone. -/
def OkWithout (pid : Nat) (v : RemainsView) : Prop := v.Ok ∧ v.live pid = false

/-- Whether the event that was taken last is an exit. -/
def taken (v : RemainsView) : Bool := v.waited.head?.any fun e => e.kind = .exited

/-- An event of `child` was taken just now. -/
structure Took (child : Nat) (v : RemainsView) : Prop extends Base v where
  queues : v.stale = false → v.Queues none
  others : v.stale = false → v.Snapshots (some child)
  kept : v.stale = false → v.taken = false → v.Snapshots none

/-- The process was removed just now. -/
structure Erased (pid : Nat) (v : RemainsView) : Prop extends Base v where
  queues : v.stale = false → v.Queues (some pid)
  snapshots : v.stale = false → v.Snapshots (some pid)
  new : ¬ exitIn pid v.waited
  old : pid < v.nextPid
  dead : v.live pid = false

/-- The process was removed, and it has left no queue. -/
structure Ended (pid parent : Nat) (v : RemainsView) : Prop extends Erased pid v where
  noQueue : v.stale = false → v.Queues none
  hasParent : v.stale = false → parent ≠ 0

/-! ### What the branches do to the tables -/

/-- The view after an event was recorded. -/
def record (v : RemainsView) (q : Nat) (e : ChildStateEvent) : RemainsView :=
  { v with
    events := v.events.insert q ((v.events.get? q).getD [] ++ [e])
    stale := v.stale || !v.live q }

/-- The view after an event was taken, with the rest of its queue. -/
def take (v : RemainsView) (q : Nat) (e : ChildStateEvent) (rest : List ChildStateEvent) :
    RemainsView :=
  { v with
    events := if rest.isEmpty then v.events.erase q else v.events.insert q rest
    waited := e :: v.waited }

/-- The view after a branch was marked. -/
def mark (v : RemainsView) (b : Bool) : RemainsView := { v with stale := v.stale || b }

/-- The view after a process was removed. -/
def remove (v : RemainsView) (pid : Nat) : RemainsView :=
  { v with live := fun q => if q = pid then false else v.live q }

/-- The view after a process was added. -/
def add (v : RemainsView) (parent host : Nat) : RemainsView :=
  { v with
    live := fun q => if q = v.nextPid then true else v.live q
    nextPid := v.nextPid + 1
    hosts := v.hosts.insert host v.nextPid
    lifecycle := v.lifecycle.insert v.nextPid ⟨parent, v.nextPid, .running, none⟩ }

/-- Without a mark nothing is stale. -/
theorem stale_mark {v : RemainsView} {b : Bool} (h : (v.mark b).stale = false) :
    v.stale = false ∧ b = false := Bool.or_eq_false_iff.mp h

variable {v : RemainsView}

/-- A deferred `wait4` fewer. -/
theorem Ok.eraseWait (h : v.Ok) (pid : Nat) : Ok { v with waits := v.waits.erase pid } :=
  { h with waits := fun p r hp => h.waits p r (OrdMap.get?_erase_eq_some.mp hp).2 }

/-- A sleep fewer. -/
theorem Ok.eraseSleep (h : v.Ok) (pid : Nat) : Ok { v with sleeps := v.sleeps.erase pid } :=
  { h with sleeps := fun p r hp => h.sleeps p r (OrdMap.get?_erase_eq_some.mp hp).2 }

/-- A process of the host fewer. -/
theorem Ok.eraseHost (h : v.Ok) (host : Nat) : Ok { v with hosts := v.hosts.erase host } :=
  { h with
    hosts := fun k p hp => h.hosts k p (OrdMap.get?_erase_eq_some.mp hp).2
    single := fun k k' p hp hp' => h.single k k' p (OrdMap.get?_erase_eq_some.mp hp).2
      (OrdMap.get?_erase_eq_some.mp hp').2 }

/-- A process that is there may have a deferred `wait4`. -/
theorem OkWith.insertWait {pid : Nat} (h : v.OkWith pid) (r : PendingWaitReply) :
    OkWith pid { v with waits := v.waits.insert pid r } := by
  refine ⟨{ h.1 with waits := ?_ }, h.2⟩
  intro p r' hp
  rcases OrdMap.get?_insert_eq_some.mp hp with ⟨rfl, _⟩ | ⟨_, hold⟩
  · exact h.2
  · exact h.1.waits p r' hold

/-- A process that is there may sleep. -/
theorem OkWith.insertSleep {pid : Nat} (h : v.OkWith pid) (r : PendingSleepReply) :
    OkWith pid { v with sleeps := v.sleeps.insert pid r } := by
  refine ⟨{ h.1 with sleeps := ?_ }, h.2⟩
  intro p r' hp
  rcases OrdMap.get?_insert_eq_some.mp hp with ⟨rfl, _⟩ | ⟨_, hold⟩
  · exact h.2
  · exact h.1.sleeps p r' hold

/-- An event is recorded. -/
theorem Ok.record (h : v.Ok) (q : Nat) {e : ChildStateEvent}
    (he : e.kind = .exited → e.childPid < v.nextPid ∧ v.live e.childPid = false) :
    (v.record q e).Ok := by
  -- an event of a parent without a record makes the queues stale
  have hstale : (v.record q e).stale = false → v.stale = false ∧ v.live q = true := by
    intro hs
    obtain ⟨hold, hlive⟩ := Bool.or_eq_false_iff.mp hs
    exact ⟨hold, by simpa using hlive⟩
  refine { h with exits := ?_, queues := ?_,
                  snapshots := fun hs => h.snapshots (hstale hs).1 }
  · intro r l f hr hf hkind
    rcases OrdMap.get?_insert_eq_some.mp hr with ⟨rfl, rfl⟩ | ⟨_, hold⟩
    · rcases List.mem_append.mp hf with hold | hnew
      · cases hq : v.events.get? r with
        | none =>
          rw [hq] at hold
          cases hold
        | some l =>
          rw [hq] at hold
          exact h.exits r l f hq hold hkind
      · rw [List.mem_singleton.mp hnew] at hkind ⊢
        exact he hkind
    · exact h.exits r l f hold hf hkind
  · intro hs r l hr
    rcases OrdMap.get?_insert_eq_some.mp hr with ⟨rfl, _⟩ | ⟨_, hold⟩
    · exact .inl (hstale hs).2
    · exact h.queues (hstale hs).1 r l hold

/-- An event is taken out of a queue. -/
theorem Ok.take (h : v.Ok) {q : Nat} {e : ChildStateEvent} {rest l : List ChildStateEvent}
    (hq : v.events.get? q = some l) (he : e ∈ l) (hrest : ∀ f ∈ rest, f ∈ l) :
    (v.take q e rest).Took e.childPid := by
  -- a queue after the dequeue is part of one before it
  have hold : ∀ r l', (v.take q e rest).events.get? r = some l' →
      ∃ l₀, v.events.get? r = some l₀ ∧ ∀ f ∈ l', f ∈ l₀ := by
    intro r l' hr
    have hr' : (if rest.isEmpty then v.events.erase q else v.events.insert q rest).get? r
        = some l' := hr
    split at hr'
    · exact ⟨l', (OrdMap.get?_erase_eq_some.mp hr').2, fun f hf => hf⟩
    · rcases OrdMap.get?_insert_eq_some.mp hr' with ⟨rfl, rfl⟩ | ⟨_, hr'⟩
      · exact ⟨l, hq, hrest⟩
      · exact ⟨l', hr', fun f hf => hf⟩
  have hnew : ∀ c, exitIn c (e :: v.waited) →
      (e.kind = .exited ∧ e.childPid = c) ∨ exitIn c v.waited := fun c hc => ReapView.exitIn_cons hc
  refine ⟨⟨h.young, h.waits, h.sleeps, h.hosts, h.single, ?_, ?_⟩, ?_, ?_, ?_⟩
  · intro r l' f hr hf hkind
    obtain ⟨l₀, hl₀, hsub⟩ := hold r l' hr
    exact h.exits r l₀ f hl₀ (hsub f hf) hkind
  · intro c hc
    rcases hnew c hc with ⟨hkind, rfl⟩ | hc
    · exact h.exits q l e hq he hkind
    · exact h.reaped c hc
  · intro hs r l' hr
    obtain ⟨l₀, hl₀, _⟩ := hold r l' hr
    exact h.queues hs r l₀ hl₀
  -- the snapshot of the child that was taken is the one that waits to be cleared
  · intro hs p s hp
    rcases h.snapshots hs p s hp with hlive | ⟨hexit, hnot⟩ | hno
    · exact .inl hlive
    · by_cases hc : e.childPid = p
      · exact .inr (.inr (congrArg some hc))
      · exact .inr (.inl ⟨hexit, fun hin => (hnew p hin).elim (fun hec => hc hec.2) hnot⟩)
    · cases hno
  · -- the event is no exit
    intro hs htaken p s hp
    have hkind : e.kind ≠ .exited := by simpa [RemainsView.take, taken] using htaken
    rcases h.snapshots hs p s hp with hlive | ⟨hexit, hnot⟩ | hno
    · exact .inl hlive
    · exact .inr (.inl ⟨hexit, fun hin => (hnew p hin).elim (fun hec => hkind hec.1) hnot⟩)
    · cases hno

/-- The snapshot of the child is cleared. -/
theorem Took.clear {child : Nat} (h : v.Took child) :
    Ok { v with lifecycle := v.lifecycle.erase child } := by
  refine { h with queues := h.queues, snapshots := ?_ }
  intro hs p s hp
  obtain ⟨hne, hold⟩ := OrdMap.get?_erase_eq_some.mp hp
  rcases h.others hs p s hold with hlive | hexit | heq
  · exact .inl hlive
  · exact .inr (.inl hexit)
  · exact absurd (Option.some.inj heq).symm hne

/-- The snapshot of the child is not cleared. -/
theorem Took.stay {child : Nat} (h : v.Took child) : (v.mark v.taken).Ok :=
  { h with
    queues := fun hs => h.queues (stale_mark hs).1
    snapshots := fun hs => h.kept (stale_mark hs).1 (stale_mark hs).2 }

/-- A process without deferred replies and a host process is removed. -/
theorem OkWith.remove {pid : Nat} (h : v.OkWith pid) (hhost : ∀ k, v.hosts.get? k ≠ some pid)
    (hwait : v.waits.get? pid = none) (hsleep : v.sleeps.get? pid = none) :
    (v.remove pid).Erased pid := by
  -- the others keep their records, and the gone stay gone
  have hother : ∀ q, q ≠ pid → v.live q = true → (v.remove pid).live q = true :=
    fun q hq hlive => (if_neg hq).trans hlive
  have hdead : ∀ q, v.live q = false → (v.remove pid).live q = false := by
    intro q hlive
    show (if q = pid then false else v.live q) = false
    rw [hlive, ite_self]
  refine ⟨⟨?_, ?_, ?_, ?_, h.1.single, ?_, ?_⟩, ?_, ?_, ?_, h.1.young pid h.2, if_pos rfl⟩
  -- nothing that stays names the removed process
  · intro p hp
    have hp' : (if p = pid then false else v.live p) = true := hp
    split at hp'
    · cases hp'
    · exact h.1.young p hp'
  · intro p r hp
    refine hother p (fun heq => ?_) (h.1.waits p r hp)
    have hnone : none = some r := hwait.symm.trans (heq ▸ hp)
    cases hnone
  · intro p r hp
    refine hother p (fun heq => ?_) (h.1.sleeps p r hp)
    have hnone : none = some r := hsleep.symm.trans (heq ▸ hp)
    cases hnone
  · intro k p hp
    exact hother p (fun heq => hhost k (heq ▸ hp)) (h.1.hosts k p hp)
  · intro q l e hq he hkind
    obtain ⟨hlt, hlive⟩ := h.1.exits q l e hq he hkind
    exact ⟨hlt, hdead _ hlive⟩
  · intro c hc
    obtain ⟨hlt, hlive⟩ := h.1.reaped c hc
    exact ⟨hlt, hdead _ hlive⟩
  · intro hs q l hq
    by_cases heq : q = pid
    · exact .inr (congrArg some heq.symm)
    · exact (h.1.queues hs q l hq).elim (fun hlive => .inl (hother q heq hlive))
        fun hno => by cases hno
  · intro hs p s hp
    by_cases heq : p = pid
    · exact .inr (.inr (congrArg some heq.symm))
    · exact (h.1.snapshots hs p s hp).imp (hother p heq) fun hrest =>
        hrest.imp id fun hno => by cases hno
  · intro hexit
    have hlive := (h.1.reaped pid hexit).2
    rw [h.2] at hlive
    cases hlive

/-- The queue that the process leaves behind is marked, and so is a process without a parent. -/
theorem Erased.mark {pid parent : Nat} (h : v.Erased pid) :
    (v.mark ((v.events.get? pid).isSome || decide (parent = 0))).Ended pid parent := by
  have hstale : ∀ {b : Bool}, (v.mark b).stale = false → v.stale = false :=
    fun hs => (stale_mark hs).1
  refine ⟨{ h with
    queues := fun hs => h.queues (hstale hs)
    snapshots := fun hs => h.snapshots (hstale hs) }, ?_, ?_⟩
  · intro hs q l hq
    obtain ⟨hold, hno⟩ := stale_mark hs
    rcases h.queues hold q l hq with hlive | heq
    · exact .inl hlive
    · cases heq
      have hnone := (Bool.or_eq_false_iff.mp hno).1
      rw [show v.events.get? pid = some l from hq] at hnone
      cases hnone
  · intro hs
    exact of_decide_eq_false (Bool.or_eq_false_iff.mp (stale_mark hs).2).2

/-- A process without a parent is marked. -/
theorem Ended.orphan {pid : Nat} (h : v.Ended pid 0) : v.Ok :=
  { h with
    queues := h.noQueue
    snapshots := fun hs => absurd rfl (h.hasParent hs) }

/-- The snapshot becomes an exit record. -/
theorem Ended.exit {pid parent : Nat} (h : v.Ended pid parent) {s : ProcessLifecycleSnapshot}
    (hs : s.state = .exited) : Ok { v with lifecycle := v.lifecycle.insert pid s } := by
  refine { h with queues := h.noQueue, snapshots := ?_ }
  intro hstale p s' hp
  rcases OrdMap.get?_insert_eq_some.mp hp with ⟨rfl, rfl⟩ | ⟨hne, hold⟩
  · exact .inr (.inl ⟨hs, h.new⟩)
  · rcases h.snapshots hstale p s' hold with hlive | hexit | heq
    · exact .inl hlive
    · exact .inr (.inl hexit)
    · exact absurd (Option.some.inj heq).symm hne

/-- A process is added. -/
theorem Ok.add (h : v.Ok) (parent host : Nat) : (v.add parent host).Ok := by
  -- the records that are there stay, and the number of the new one was no record's
  have hmono : ∀ q, v.live q = true → (v.add parent host).live q = true := by
    intro q hq
    show (if q = v.nextPid then true else v.live q) = true
    rw [hq, ite_self]
  have hsame : ∀ q, q < v.nextPid → (v.add parent host).live q = v.live q :=
    fun q hq => if_neg hq.ne
  have hfresh : v.live v.nextPid = false := by
    by_contra hlive
    exact absurd (h.young v.nextPid (by simpa using hlive)) (lt_irrefl _)
  have hnohost : ∀ k, v.hosts.get? k ≠ some v.nextPid := by
    intro k hk
    rw [h.hosts k _ hk] at hfresh
    cases hfresh
  refine ⟨⟨?_, fun p r hp => hmono p (h.waits p r hp),
    fun p r hp => hmono p (h.sleeps p r hp), ?_, ?_, ?_, ?_⟩, ?_, ?_⟩
  · intro p hp
    have hp' : (if p = v.nextPid then true else v.live p) = true := hp
    split at hp'
    · rename_i heq
      exact heq ▸ Nat.lt_succ_self _
    · exact (h.young p hp').trans (Nat.lt_succ_self _)
  · intro k p hp
    rcases OrdMap.get?_insert_eq_some.mp hp with ⟨_, rfl⟩ | ⟨_, hold⟩
    · exact if_pos rfl
    · exact hmono p (h.hosts k p hold)
  -- the new host process is the new record's, and no other record has it
  · intro k k' p hk hk'
    rcases OrdMap.get?_insert_eq_some.mp hk with ⟨rfl, rfl⟩ | ⟨_, hold⟩ <;>
      rcases OrdMap.get?_insert_eq_some.mp hk' with ⟨rfl, hnew⟩ | ⟨_, hold'⟩
    · rfl
    · exact absurd hold' (hnohost k')
    · exact absurd (hnew ▸ hold) (hnohost k)
    · exact h.single k k' p hold hold'
  · intro q l e hq he hkind
    obtain ⟨hlt, hlive⟩ := h.exits q l e hq he hkind
    exact ⟨hlt.trans (Nat.lt_succ_self _), (hsame _ hlt).trans hlive⟩
  · intro c hc
    obtain ⟨hlt, hlive⟩ := h.reaped c hc
    exact ⟨hlt.trans (Nat.lt_succ_self _), (hsame _ hlt).trans hlive⟩
  · intro hs q l hq
    exact (h.queues hs q l hq).imp (hmono q) id
  · intro hs p s hp
    rcases OrdMap.get?_insert_eq_some.mp hp with ⟨rfl, _⟩ | ⟨_, hold⟩
    · exact .inl (if_pos rfl)
    · exact (h.snapshots hs p s hold).imp (hmono p) id

end RemainsView

/-! ### What the view does not see -/

/-- A change of a process record. -/
theorem World.remainsView_modifyTask (w : World) (pid : Nat) (f : TaskStruct → TaskStruct) :
    (w.modifyTask pid f).remainsView = w.remainsView :=
  congrArg (RemainsView.mk · _ _ _ _ _ _ _ _) (funext fun q => w.live_modifyTask pid q f)

instance : BlindMemory World.remainsView where
  tick _ _ := rfl
  slots _ _ := rfl
  ledger _ _ := rfl
  vspace w pid _ := w.remainsView_modifyTask pid _
  tables w pid _ := w.remainsView_modifyTask pid _
  scratch _ _ _ := rfl
  writeFrame _ _ _ := rfl
  frames _ _ _ := rfl
  refs _ _ := rfl
  doubleFree _ _ := rfl
  mm w pid _ := w.remainsView_modifyTask pid _
  fileMapLog _ _ := rfl

instance : BlindTrace World.remainsView := ⟨fun _ _ => rfl⟩

instance : BlindSignals World.remainsView :=
  ⟨fun w pid _ => w.remainsView_modifyTask pid _, fun _ _ => rfl, fun _ _ => rfl⟩

instance : BlindRest World.remainsView :=
  ⟨fun w pid _ => w.remainsView_modifyTask pid _, fun w pid _ => w.remainsView_modifyTask pid _⟩

instance : BlindStops World.remainsView :=
  ⟨fun w pid _ _ => w.remainsView_modifyTask pid _, fun _ _ => rfl, fun _ _ => rfl⟩

instance : BlindJobs World.remainsView := ⟨fun w pid _ _ _ => w.remainsView_modifyTask pid _⟩

instance : BlindActions World.remainsView := ⟨fun w pid _ => w.remainsView_modifyTask pid _⟩

instance : BlindCaller World.remainsView := ⟨fun _ _ => rfl⟩

instance : BlindFiles World.remainsView where
  files w pid _ := w.remainsView_modifyTask pid _
  cloexecLog _ _ := rfl
  positionSplit _ _ := rfl
  endpoints _ _ := rfl
  doubleClose _ _ := rfl
  asyncFree _ _ := rfl
  asyncRegions _ _ := rfl
  asyncVaddr _ _ := rfl
  iouring _ _ := rfl
  fdOverflow _ _ := rfl
  earlyRecycle _ _ := rfl

/-- The tables of the server meet a condition. -/
def World.Remains (g : RemainsView → Prop) (w : World) : Prop := g w.remainsView

/-- The tables of the server are in order. -/
abbrev World.RemainsOk : World → Prop := World.Remains RemainsView.Ok

section Blind

variable (g : RemainsView → Prop)

instance : BlindMemory (World.Remains g) := BlindMemory.comp
    (V := World.remainsView) _ inferInstance

instance : BlindTrace (World.Remains g) := BlindTrace.comp (V := World.remainsView) _ inferInstance

instance : BlindSignals (World.Remains g) := BlindSignals.comp
    (V := World.remainsView) _ inferInstance

instance : BlindRest (World.Remains g) := BlindRest.comp (V := World.remainsView) _ inferInstance

instance : BlindStops (World.Remains g) := BlindStops.comp (V := World.remainsView) _ inferInstance

instance : BlindJobs (World.Remains g) := BlindJobs.comp (V := World.remainsView) _ inferInstance

instance : BlindActions (World.Remains g) := BlindActions.comp
    (V := World.remainsView) _ inferInstance

instance : BlindCaller (World.Remains g) := BlindCaller.comp
    (V := World.remainsView) _ inferInstance

instance : BlindFiles (World.Remains g) := BlindFiles.comp (V := World.remainsView) _ inferInstance

end Blind

/-! ### Deferred sleeps -/

instance : SleepsKeeps World.RemainsOk where
  interrupt pid := by
    refine Keeps.bind (Keeps.gets _) fun pending => Keeps.whenSome fun p => ?_
    refine Keeps.bind (fun w h => h.eraseSleep pid) fun _ => Keeps.bind (by simp) fun now => ?_
    exact Keeps.bind (storeForReply_keeps _ _ _ _) fun _ =>
      Keeps.bind (replyAndFree_keeps _ _) fun _ => fun _ h => h
  complete pid requestId := by
    refine Keeps.bind (Keeps.gets _) fun pending => Keeps.whenSome fun p => ?_
    refine Keeps.ite (Keeps.pure _) (Keeps.bind (fun w h => h.eraseSleep pid) fun _ => ?_)
    exact Keeps.bind (storeForReply_keeps _ _ _ _) fun _ =>
      Keeps.bind (replyAndFree_keeps _ _) fun _ => fun _ h => h
  drop pid := by
    refine Keeps.bind (Keeps.gets _) fun pending => Keeps.whenSome fun p => ?_
    exact Keeps.bind (fun w h => h.eraseSleep pid) fun _ =>
      Keeps.bind (by simp) fun _ => fun _ h => h

/-- A copy from the memory of a process that is gone fails. -/
theorem copyFromUser_gone (pid a : Nat) {n : Nat} (hn : n ≠ 0) :
    Triple (World.Remains (RemainsView.OkWithout pid)) (copyFromUser pid a n) (fun _ _ => False)
      (fun _ => World.Remains (RemainsView.OkWithout pid)) := by
  let J : World → Prop := World.Remains (RemainsView.OkWithout pid)
  -- no entry is found
  have hlookup : Triple J (lookupMap pid a Perms.R) (fun _ _ => False) (fun _ => J) := by
    refine Triple.bind (R := fun _ _ => False) ?_ fun _ => fun _ h => h.elim
    refine Triple.bind (R := fun _ _ => False) ((getProcess_task pid).post
      fun t w h => ?_) fun _ => fun _ h => h.elim
    have hdead : w.live pid = false := h.1.2
    rw [World.live, h.2] at hdead
    cases hdead
  have hsession : Triple (fun s : Session => J s.1) (sessionCopyFromUser pid a n) (fun _ _ => False)
      (fun _ s => J s.1) := by
    refine Triple.ite (fun h => absurd h hn) fun _ =>
      Triple.ite (fun _ => Triple.throw fun _ h => h)
      fun _ => ?_
    obtain ⟨fuel, rfl⟩ := Nat.exists_eq_succ_of_ne_zero hn
    refine Triple.ite (fun h => absurd h hn) fun _ => ?_
    exact Triple.bind (R := fun _ _ => False) (Triple.inFst fun t => hlookup) fun _ =>
      fun _ h => h.elim
  refine Triple.bind (R := fun r w => J w ∧ ∀ bytes, r.1 ≠ .ok bytes) ?_ ?_
  · refine Triple.runWith (R := fun _ _ => False) (F := fun _ s => J s.1)
      (hsession.pre fun s h => h.1)
      (fun _ _ _ h => h.elim) fun e w _ h => ⟨h, fun bytes hok => ?_⟩
    cases hok
  · intro r
    have hrelease : Keeps (fun w => J w ∧ ∀ bytes, r.1 ≠ .ok bytes) (runWith releaseAll r.2) :=
      fun w h => ⟨(Keeps.runWith releaseAll_frames.keepsProp : Keeps J
        (runWith releaseAll r.2)) w h.1, h.2⟩
    refine Triple.bind (R := fun _ w => J w ∧ ∀ bytes, r.1 ≠ .ok bytes)
      (hrelease.triple.errors fun _ _ h => h.1) fun c => ?_
    refine Triple.bind (R := fun _ _ => False) (Triple.ofExcept (fun bytes w hr h => ?_)
      fun _ _ _ h => h.1) fun _ => fun _ h => h.elim
    exact h.2 bytes hr

/-- `nanosleep` of a process that is there. -/
theorem doNanosleep_okWith (pid req rem : Nat) :
    Keeps (World.Remains (RemainsView.OkWith pid)) (doNanosleep pid req rem) := by
  refine doNanosleep_keeps_of pid req rem fun ns => ?_
  refine Keeps.bind (by simp) fun now => Keeps.bind (by simp) fun slot =>
    Keeps.bind (Keeps.gets _) fun id => ?_
  exact Keeps.bind (fun w h => RemainsView.OkWith.insertSleep h _) fun _ => fun _ h => h

/-- `nanosleep` records the sleep of a process that is there. -/
theorem doNanosleep_remains (pid req rem : Nat) :
    Keeps World.RemainsOk (doNanosleep pid req rem) := by
  intro w hw
  cases hpid : w.live pid with
  | true => exact (doNanosleep_okWith pid req rem w ⟨hw, hpid⟩).1
  | false =>
    have hread : Triple (World.Remains (RemainsView.OkWithout pid)) (readUserTimespec pid req)
        (fun _ _ => False) (fun _ => World.Remains (RemainsView.OkWithout pid)) :=
      Triple.bind (copyFromUser_gone pid req (by simp)) fun _ => fun _ h => h.elim
    have hsleep : Triple (World.Remains (RemainsView.OkWithout pid)) (doNanosleep pid req rem)
        (fun _ => World.Remains (RemainsView.OkWithout pid))
        (fun _ => World.Remains (RemainsView.OkWithout pid)) :=
      Triple.ite (fun _ => Triple.throw fun _ h => h) fun _ =>
        Triple.bind hread fun _ => fun _ h => h.elim
    exact (hsleep.ends ⟨hw, hpid⟩).1

/-! ### Child events -/

/-- An event is recorded. The exit of a process is recorded when it is gone. -/
theorem recordChildEvent_remains (parentPid : Nat) (e : ChildStateEvent) :
    Triple (World.Remains fun v => v.Ok ∧
        (e.kind = .exited → e.childPid < v.nextPid ∧ v.live e.childPid = false))
      (recordChildEvent parentPid e) (fun _ => World.RemainsOk) fun _ => World.RemainsOk := by
  intro w h
  have hlive : (w.task? parentPid).isNone = !w.live parentPid := by
    rw [World.live]
    cases w.task? parentPid <;> rfl
  have hview : ((recordChildEvent parentPid e).run w).2.remainsView
      = w.remainsView.record parentPid e := by
    show RemainsView.mk _ _ _ _ _ _ _ _ (w.staleRecords || (w.task? parentPid).isNone) = _
    rw [hlive]
    rfl
  have hend : World.RemainsOk ((recordChildEvent parentPid e).run w).2 := by
    rw [World.RemainsOk, World.Remains, hview]
    exact h.1.record parentPid h.2
  exact ⟨fun _ _ => hend, fun _ _ => hend⟩

instance : ChangeKeeps World.RemainsOk where
  change parentPid e hkind := by
    refine Keeps.bind (fun _ h => h) fun _ => Keeps.bind (by simp) fun _ => Triple.keeps ?_
    exact (recordChildEvent_remains parentPid e).pre fun w h => ⟨h, fun hexit => absurd hexit hkind⟩

/-- After an event was taken out of a queue, the snapshot of its child may be left. -/
theorem popChildEventMatching_remains (parentPid : Nat) (target : Int) (options callerPgid : Nat) :
    Triple World.RemainsOk (popChildEventMatching parentPid target options callerPgid)
      (fun event w => match event with
        | none => w.RemainsOk
        | some (child, _) => w.Remains (RemainsView.Took child))
      fun _ => World.RemainsOk := by
  intro w hw
  rcases popChildEventMatching_cases parentPid target options callerPgid w with
    ⟨_, hrun⟩ | ⟨e, hfind, hrun⟩
  · rw [hrun]
    exact ⟨fun event hevent => by cases hevent; exact hw, fun _ _ => hw⟩
  · rw [hrun]
    refine ⟨fun event hevent => ?_, fun e he => by cases he⟩
    cases hevent
    have hmem := List.mem_of_find?_eq_some hfind
    cases hq : w.childEvents.get? parentPid with
    | none =>
      rw [World.eventsOf, hq] at hmem
      cases hmem
    | some l =>
      have hl : w.eventsOf parentPid = l := by rw [World.eventsOf, hq]; rfl
      exact RemainsView.Ok.take hw hq (hl ▸ hmem) fun f hf => hl ▸ List.mem_of_mem_eraseP hf

/-- The exit of the child was taken, and its snapshot stays. -/
theorem noteTaken_remains (child : Nat) {E : Err → World → Prop} :
    Triple (World.Remains (RemainsView.Took child)) (noteStale (·.exitTaken))
      (fun _ => World.RemainsOk)
      E := Triple.modify fun _ h => RemainsView.Took.stay h

/-- The deferred `wait4` of a parent is answered and struck off. -/
theorem tryWakePendingWait4Reply_remains (parentPid : Nat) :
    Keeps World.RemainsOk (tryWakePendingWait4Reply parentPid) := by
  have hresult : ∀ p, Keeps World.RemainsOk (pendingWaitResult parentPid p) := by
    intro p
    refine Triple.keeps (Triple.bind (popChildEventMatching_remains _ _ _ _) fun event => ?_)
    cases event with
    | none => exact Keeps.triple (Keeps.bind (Keeps.gets _) fun waitable =>
      Keeps.ite (Keeps.pure _) (Keeps.pure _))
    | some event =>
      refine Triple.bind (noteTaken_remains event.1) fun _ => Keeps.triple ?_
      exact Keeps.bind (storeForReply_keeps _ _ _ _) fun _ => Keeps.pure _
  refine Keeps.bind (Keeps.gets _) fun pending => ?_
  split
  · exact Keeps.pure _
  · refine Keeps.bind (hresult _) fun ret => ?_
    split
    · exact Keeps.pure _
    · exact Keeps.bind (fun w h => h.eraseWait parentPid) fun _ =>
        Keeps.bind (modifySignal_frames parentPid _).keepsProp fun _ =>
          Keeps.bind (replyAndFree_keeps _ _) fun _ => Keeps.pure _

/-- `wait4` clears the snapshot of a child whose event it takes. -/
theorem doWait4_remains (pid : Nat) (target : Int) (wstatus options : Nat) :
    Keeps World.RemainsOk (doWait4 pid target wstatus options) := by
  let J : World → Prop := World.Remains (RemainsView.OkWith pid)
  refine Triple.keeps (Triple.bind (R := fun _ => J) ((getProcess_task pid).post
    fun t w h => ⟨h.1, ?_⟩) ?_)
  · show (w.task? pid).isSome
    rw [h.2]
    rfl
  -- until an event is taken an error leaves everything in order
  intro task
  have hstep : ∀ {α : Type} {c : M α}, Keeps J c → Triple J c (fun _ => J) fun _ =>
    World.RemainsOk :=
    fun h => h.triple.errors fun _ _ h => h.1
  refine Triple.bind (hstep (modifySignal_frames pid _).keepsProp) fun _ => ?_
  refine Triple.bind (((popChildEventMatching_remains pid target options task.processGroupId).frame
    (f := World.live pid) (Frames.of_keeps fun _ => popChildEventMatching_keeps _ _ _ _)
      (· = true)).errors
    fun _ _ h => h.1) fun event => ?_
  -- without an event the reply is queued or the call answers; with one its mark is noted
  cases event with
  | none =>
    refine Triple.pre (K := J) ?_ fun w h => h
    refine Triple.bind (hstep (Keeps.gets _)) fun waitable => ?_
    refine (Keeps.ite (Keeps.pure _) (Keeps.ite (Keeps.pure _) ?_) : Keeps J _).triple.imp
      (fun _ h => h) (fun _ _ h => h.1) fun _ _ h => h.1
    have hqueue : Keeps J (queueWait4Reply pid target wstatus options task.processGroupId) :=
      Keeps.bind (Keeps.gets _) fun busy => Keeps.ite (Keeps.throw _)
        (Keeps.bind (by simp) fun slot => fun w h => RemainsView.OkWith.insertWait h _)
    exact Keeps.bind hqueue fun _ => Keeps.bind (modifySignal_frames pid _).keepsProp fun _ =>
      Keeps.bind (fun _ h => h) fun _ => Keeps.throw _
  | some event =>
    let K : World → Prop := World.Remains (RemainsView.Took event.1)
    refine Triple.pre (K := K) ?_ fun w h => h.1
    refine Triple.bind (R := fun _ => K)
      (Triple.onError (F := fun _ => K) ?_ fun _ => ?_) fun _ => ?_
    · exact (Keeps.when (copyToUser_keeps _ _ _) : Keeps K _).triple
    · exact noteTaken_remains event.1
    · exact Triple.bind (R := fun _ => World.RemainsOk) (Triple.modify fun w h =>
        RemainsView.Took.clear h)
        fun _ => Triple.pure fun _ h => h

instance : Wait4Keeps World.RemainsOk := ⟨doWait4_remains⟩

/-! ### The end of a process -/

/-- The process has no host process. -/
def RemainsView.NoHost (pid : Nat) (v : RemainsView) : Prop := ∀ k, v.hosts.get? k ≠ some pid

/-- The host process of a process is forgotten. -/
theorem killHostProcess_remains (pid : Nat) {E : Err → World → Prop} :
    Triple (World.Remains (RemainsView.OkWith pid)) (killHostProcess pid)
      (fun _ => World.Remains fun v => v.OkWith pid ∧ v.NoHost pid) E := by
  refine Triple.bind (R := fun o w => w.Remains (RemainsView.OkWith pid) ∧ w.hostPidByLocal pid = o)
    (Triple.gets fun w h => ⟨h, rfl⟩) fun host => ?_
  refine Triple.whenSome (fun k hk => Triple.modify ?_) ?_
  · -- the entry that is found is the only one
    intro w h
    have hfound : w.hostPidByLocal pid = some k := h.2.trans hk
    obtain ⟨e, he, rfl⟩ := Option.map_eq_some_iff.mp hfound
    have hget : w.hostPidMap.get? e.1 = some pid := by
      have hpid : e.2 = pid := by simpa using List.find?_some he
      rw [← hpid]
      exact OrdMap.mem_entries.mp (List.mem_of_find?_eq_some he)
    refine ⟨⟨h.1.1.eraseHost e.1, h.1.2⟩, ?_⟩
    intro k' hk'
    obtain ⟨hne, hold⟩ := OrdMap.get?_erase_eq_some.mp hk'
    exact hne (h.1.1.single k' e.1 pid hold hget)
  · intro w hnone h
    refine ⟨h.1, ?_⟩
    intro k hk
    have hfound : w.hostPidByLocal pid = none := h.2.trans hnone
    have hno := List.find?_eq_none.mp (Option.map_eq_none_iff.mp hfound)
    exact hno (k, pid) (OrdMap.mem_entries.mpr hk) (decide_eq_true rfl)

/-- The release of a process. -/
theorem releaseProcess_remains (pid : Nat) (task : TaskStruct) {E : Err → World → Prop} :
    Triple (World.Remains (RemainsView.OkWith pid)) (releaseProcess pid task)
      (fun _ => World.Remains (RemainsView.Erased pid)) E := by
  refine (releaseProcess_total pid task).triple (E := fun _ _ => True) ?_
  have hstep : ∀ {g : RemainsView → Prop} {c : M Unit}, Keeps (World.Remains g) c →
      Triple (World.Remains g) c (fun _ => World.Remains g) fun _ _ => True :=
    fun h => h.triple.errors fun _ _ _ => trivial
  -- the three entries go one after the other: the host process, the `wait4` reply, the sleep
  let NoHost (v : RemainsView) : Prop := v.OkWith pid ∧ v.NoHost pid
  let NoWait (v : RemainsView) : Prop := NoHost v ∧ v.waits.get? pid = none
  let NoSleep (v : RemainsView) : Prop := NoWait v ∧ v.sleeps.get? pid = none
  refine Triple.bind (hstep (modifyState_keeps pid fun _ => .exiting)) fun _ => ?_
  refine Triple.bind (hstep (Keeps.forEach fun fd =>
    Keeps.ignore (doClose_keeps pid fd))) fun _ => ?_
  refine Triple.bind (hstep (unmapAll_frames pid _).keepsProp) fun _ => ?_
  refine Triple.bind (hstep (releaseAllFrames_frames pid _).keepsProp) fun _ => ?_
  refine Triple.bind (hstep (releaseCnode_keeps pid)) fun _ => ?_
  refine Triple.bind (killHostProcess_remains pid) fun _ => ?_
  refine Triple.bind (hstep (Keeps.ignore
    (releaseProcessIntermediatePageTables_frames pid).keepsProp))
    fun _ => ?_
  refine Triple.bind (R := fun _ => World.Remains NoWait) ?_ fun _ => ?_
  · refine Triple.bind (R := fun o w => w.Remains NoHost ∧ w.pendingWaitReplies.get? pid = o)
      (Triple.gets fun w h => ⟨h, rfl⟩) fun pending => ?_
    refine Triple.whenSome (fun p _ => ?_) fun w hnone h => ⟨h.1, h.2.trans hnone⟩
    refine Triple.bind (R := fun _ => World.Remains NoWait) (Triple.modify fun w h => ?_) fun _ =>
      hstep (cspaceFree_keeps _)
    exact ⟨⟨⟨h.1.1.1.eraseWait pid, h.1.1.2⟩, h.1.2⟩, OrdMap.get?_erase_self _ _⟩
  refine Triple.bind (R := fun _ => World.Remains NoSleep) ?_ fun _ => ?_
  · refine Triple.bind (R := fun o w => w.Remains NoWait ∧ w.pendingSleepReplies.get? pid = o)
      (Triple.gets fun w h => ⟨h, rfl⟩) fun pending => ?_
    refine Triple.whenSome (fun p _ => ?_) fun w hnone h => ⟨h.1, h.2.trans hnone⟩
    refine Triple.bind (R := fun _ => World.Remains NoSleep) (Triple.modify fun w h => ?_) fun _ =>
      hstep (Keeps.bind (cspaceFree_keeps _) fun _ => fun _ h => h)
    exact ⟨⟨⟨⟨h.1.1.1.1.eraseSleep pid, h.1.1.1.2⟩, h.1.1.2⟩, h.1.2⟩, OrdMap.get?_erase_self _ _⟩
  refine Triple.bind (hstep (ledgerTakeProcess_frames pid).keepsProp) fun _ =>
    Triple.modify fun w h => ?_
  -- the record goes at the end, when nothing names it any more
  have hview : ({ w with tasks := w.tasks.erase pid } : World).remainsView
      = w.remainsView.remove pid := by
    refine congrArg (RemainsView.mk · _ _ _ _ _ _ _ _) (funext fun q => ?_)
    show ((w.tasks.erase pid).get? q).isSome = if q = pid then false else (w.tasks.get? q).isSome
    rw [OrdMap.get?_erase]
    split <;> rfl
  rw [World.Remains, hview]
  exact RemainsView.OkWith.remove h.1.1.1 h.1.1.2 h.1.2 h.2

/-- The report of an exit to the parent. -/
theorem notifyParent_remains (pid parent pgid code : Nat) :
    Triple (World.Remains (RemainsView.Ended pid parent)) (notifyParent pid parent pgid code)
      (fun _ => World.RemainsOk) fun _ => World.RemainsOk := by
  refine Triple.ite (fun hzero => Triple.pure ?_) fun _ => ?_
  · intro w h
    subst hzero
    exact RemainsView.Ended.orphan h
  let Gone (v : RemainsView) : Prop := v.Ok ∧ pid < v.nextPid ∧ v.live pid = false
  refine Triple.bind (R := fun _ => World.Remains Gone) (Triple.modify ?_) fun _ => ?_
  · intro w h
    exact ⟨RemainsView.Ended.exit h rfl, h.old, h.dead⟩
  refine Triple.bind ((recordChildEvent_remains parent _).pre
    fun w h => ⟨h.1, fun _ => h.2⟩) fun _ => ?_
  refine Keeps.triple (Keeps.bind (tryWakePendingWait4Reply_remains parent) fun replied => ?_)
  exact Keeps.when (Keeps.bind (resumeWait4Parent_keeps _ _ _) fun _ => by simp)

/-- The end of a process takes its records away. -/
theorem terminateProcess_remains (pid code : Nat) :
    Keeps World.RemainsOk (terminateProcess pid code) := by
  refine Triple.keeps (Triple.bind (getProcess_task pid) fun task => ?_)
  refine Triple.bind ((releaseProcess_remains pid task).pre fun w h => ⟨h.1, ?_⟩) fun _ => ?_
  · show (w.task? pid).isSome
    rw [h.2]
    rfl
  let L : World → Prop := World.Remains (RemainsView.Ended pid task.parentPid)
  refine Triple.bind (R := fun _ => L) (Triple.modify fun w h =>
    RemainsView.Erased.mark h) fun _ => ?_
  refine Triple.bind (R := fun _ => L) (Triple.modify fun _ h => h) fun _ => ?_
  refine Triple.bind (notifyParent_remains _ _ _ _) fun _ => Keeps.triple (Keeps.ite ?_ ?_)
  · exact Keeps.bind (fun _ h => h) fun _ => Keeps.throw _
  · exact Keeps.bind (Keeps.gets _) fun caller => Keeps.when (Keeps.throw _)

/-! ### Runs -/

instance : ForkKeeps World.RemainsOk where
  register parentPid hostPid cnode w hw := by
    have hview : ((registerProcess parentPid hostPid cnode).run w).2.remainsView
        = w.remainsView.add parentPid hostPid := by
      refine congrArg (RemainsView.mk · _ _ _ _ _ _ _ _) (funext fun q => ?_)
      show ((w.tasks.insert w.nextPid _).get? q).isSome
        = if q = w.nextPid then true else (w.tasks.get? q).isSome
      rw [OrdMap.get?_insert]
      split <;> rfl
    rw [World.RemainsOk, World.Remains, hview]
    exact RemainsView.Ok.add hw parentPid hostPid
  inherit w child parent pid hw _ := by
    show RemainsView.Ok (w.modifyTask child (·.inherit parent)).remainsView
    rw [World.remainsView_modifyTask]
    exact hw

/-- The tables are in order in every state of a run. -/
theorem Reachable.remainsOk {w : World} (h : Reachable w) : w.RemainsOk := by
  refine Reachable.invariant (I := World.RemainsOk) ?_ ?_ w h
  -- at the start every table is empty
  · intro w w' path hi hr
    have hstart : w.RemainsOk := by
      have hdead : ∀ p, w.live p = false := by
        intro p
        rw [World.live, World.task?, hi.noTasks]
        rfl
      refine ⟨⟨?_, ?_, ?_, ?_, ?_, ?_, ?_⟩, ?_, ?_⟩
      · intro p hp
        rw [show w.remainsView.live p = false from hdead p] at hp
        cases hp
      · intro p r hp
        rw [show w.remainsView.waits = _ from hi.noWaits] at hp
        cases hp
      · intro p r hp
        rw [show w.remainsView.sleeps = _ from hi.noSleeps] at hp
        cases hp
      · intro k p hp
        rw [show w.remainsView.hosts = _ from hi.noHosts] at hp
        cases hp
      · intro k k' p hp
        rw [show w.remainsView.hosts = _ from hi.noHosts] at hp
        cases hp
      · intro q l e hq
        rw [show w.remainsView.events = _ from hi.noEvents] at hq
        cases hq
      · intro c hc
        obtain ⟨e, he, _⟩ := hc
        rw [show w.remainsView.waited = _ from hi.noneWaited] at he
        cases he
      · intro _ q l hq
        rw [show w.remainsView.events = _ from hi.noEvents] at hq
        cases hq
      · intro _ p s hp
        rw [show w.remainsView.lifecycle = _ from hi.noLifecycle] at hp
        cases hp
    have hload := loadInit_keeps_blind (I := World.RemainsOk) path w hstart
    rwa [hr] at hload
  · intro w r w' _ hw hs
    rw [← hs.2]
    exact dispatch_keeps_of terminateProcess_remains
      (fun pid sys ret => finishSyscall_keeps (terminateProcess_remains pid) sys ret)
      doNanosleep_remains r hw fun pid _ _ hsys => jobCall_keeps pid hsys _ hw

/-! ### Dead processes -/

/-- Nothing is kept of a process that is gone, apart from an exit that was not taken yet. -/
structure World.NoRemains (w : World) : Prop where
  events : ∀ pid, w.childEvents.contains pid → w.live pid
  waits : ∀ pid, w.pendingWaitReplies.contains pid → w.live pid
  sleeps : ∀ pid, w.pendingSleepReplies.contains pid → w.live pid
  ledger : ∀ pid, w.ledger.contains pid → w.live pid
  hosts : ∀ host pid, w.hostPidMap.get? host = some pid → w.live pid
  lifecycle : ∀ pid s, w.lifecycle.get? pid = some s →
    w.live pid ∨ (s.state = .exited ∧ ¬ exitIn pid w.waited)

/-- In a run in which no branch was taken that leaves a record of a dead process, nothing is kept of
the dead ones, apart from exits that were not taken yet. -/
theorem no_remains_of_dead {w : World} (h : Reachable w) (hstale : w.staleRecords = false) :
    w.NoRemains := by
  have hok : w.remainsView.Ok := h.remainsOk
  have hkey : ∀ {ν : Type} {m : OrdMap Nat ν} {pid : Nat}, m.contains pid →
      ∃ v, m.get? pid = some v := fun hpid => Option.isSome_iff_exists.mp hpid
  refine ⟨?_, ?_, ?_, ?_, fun host pid hpid => hok.hosts host pid hpid, ?_⟩
  · intro pid hpid
    obtain ⟨l, hl⟩ := hkey hpid
    exact (hok.queues hstale pid l hl).resolve_right nofun
  · intro pid hpid
    obtain ⟨r, hr⟩ := hkey hpid
    exact hok.waits pid r hr
  · intro pid hpid
    obtain ⟨r, hr⟩ := hkey hpid
    exact hok.sleeps pid r hr
  · intro pid hpid
    exact h.ledgersOk pid hpid
  · intro pid s hpid
    exact (hok.snapshots hstale pid s hpid).imp_right fun hrest => hrest.resolve_right nofun

/-- The child of the sample is gone, with all that was recorded of it. -/
theorem no_remains_of_dead_sample :
    Reachable sampleReap ∧ sampleReap.live 2 = false ∧ sampleReap.NoRemains :=
  ⟨sampleReap_reachable, by decide +kernel,
    no_remains_of_dead sampleReap_reachable (by decide +kernel)⟩

/-- `init` waits for its child, which exits then. -/
def sampleLateExit : World :=
  [Request.syscall 1 (.wait4 (-1) 0 0), .syscall 2 (.exit 0)].foldl World.after sampleFork

/-- The child of `init` forks, and both exit, the younger one first. -/
def sampleQueueLeft : World :=
  [Request.syscall 2 (.clone 17 0 0), .syscall 3 (.exit 0), .syscall 2 (.exit 0)].foldl World.after
    sampleFork

/-- The exit record of a child stays after a deferred `wait4` took the exit, and the queue of a dead
process stays. -/
theorem records_of_dead_stay :
    (Reachable sampleLateExit ∧ ¬ sampleLateExit.NoRemains) ∧
      Reachable sampleQueueLeft ∧ ¬ sampleQueueLeft.NoRemains := by
  refine ⟨⟨(sampleFork_reachable.after (by decide +kernel)).after (by decide +kernel), fun h => ?_⟩,
    ((sampleFork_reachable.after (by decide +kernel)).after (by decide +kernel)).after
      (by decide +kernel), fun h => ?_⟩
  · have hdead : sampleLateExit.live 2 = false := by decide +kernel
    have hsome : (sampleLateExit.lifecycle.get? 2).isSome := by decide +kernel
    obtain ⟨s, hs⟩ := Option.isSome_iff_exists.mp hsome
    rcases h.lifecycle 2 s hs with hlive | ⟨_, hnot⟩
    · rw [hdead] at hlive
      cases hlive
    · exact hnot (by decide +kernel)
  · have hdead : sampleQueueLeft.live 2 = false := by decide +kernel
    have hlive := h.events 2 (by decide +kernel)
    rw [hdead] at hlive
    cases hlive

end Ape
