import Ape.Lib.Debts
import Ape.Proofs.FrameRuns

/-!
# `Ape.Proofs.Signals`: what becomes of a pending signal

The trace has an event for each change of a pending set: a signal is queued, dequeued, or
discarded by an arriving `SIGCONT`. `pendingAfter` replays them, and the pending set of a process
is what the replay gives (`SignalView.Ok.pending`). So a bit of a pending set is cleared exactly
where the trace has a `dequeued` or a `discarded` event.

Such an event needs an answer in the same request: the upcall of the handler, the stop, the
continuation or the end of the process, the return of the signal by `rt_sigtimedwait`, or the
queueing of the `SIGCONT` that discarded it. `Ape.Lib.Owing` keeps the events that are not yet
answered. A request ends without any (`no_signal_lost`), unless one of the branches that drop a
signal was taken: `signalDropped` marks them.
-/

set_option autoImplicit false

namespace Ape

open Ape.Lib Cmd

/-! ### Answers -/

/-- The event takes a signal out of a pending set that is not ignored. -/
def Event.needs : Event → Prop
  | .dequeued _ signum action => action.ignores signum = false
  | .discarded .. => True
  | _ => False

/-- The event carries out the action of a signal, or returns the signal to the process. -/
def Event.carriesOut (pid signum : Nat) (action : SignalAction) : Event → Prop
  | .upcall p handler s => p = pid ∧ s = signum ∧ handler = action.handler ∧
      handler ≠ SIG_DFL_HANDLER ∧ handler ≠ SIG_IGN_HANDLER
  | .suspended p => p = pid ∧ action.handler = SIG_DFL_HANDLER ∧ defaultStopSignal signum
  | .resumed p => p = pid ∧ action.handler = SIG_DFL_HANDLER ∧ signum = SIGCONT
  | .terminated p code => p = pid ∧ action.handler = SIG_DFL_HANDLER ∧
      code = getExitCodeForSignal signum
  | .returned p s => p = pid ∧ s = signum
  | _ => False

/-- The event `a` answers the event `d`. A stop signal is discarded by a `SIGCONT` that is then
queued. -/
def Event.answers (a d : Event) : Prop :=
  match d with
  | .dequeued pid signum action => a.carriesOut pid signum action
  | .discarded pid signum => a = .queued pid SIGCONT ∧ defaultStopSignal signum
  | _ => False

/-- Every event of the history that needs an answer has one, apart from the debts. -/
abbrev Answered (debt : Event → Prop) (l : List Event) : Prop :=
  Owing Event.needs Event.answers debt l

/-! ### The replay of a history -/

/-- Whether the signal is pending after the event, when it was pending before or not. -/
def Event.replay (pid signum : Nat) (pending : Bool) : Event → Bool
  | .queued p s => pending || (p == pid && s == signum)
  | .dequeued p s _ => pending && !(p == pid && s == signum)
  | .discarded p s => pending && !(p == pid && s == signum)
  | _ => pending

/-- Whether the signal is pending after a history that starts without signals. -/
def pendingAfter (pid signum : Nat) (history : List Event) : Bool :=
  history.foldl (Event.replay pid signum) false

/-- One more event is replayed on what was pending. -/
theorem pendingAfter_append (pid signum : Nat) (l : List Event) (e : Event) :
    pendingAfter pid signum (l ++ [e]) = e.replay pid signum (pendingAfter pid signum l) := by
  rw [pendingAfter, List.foldl_append]
  rfl

/-- An event that is not about a pending set changes none. -/
theorem Event.replay_quiet (pid signum : Nat) (b : Bool) {e : Event} (h : e.onPending = false) :
    e.replay pid signum b = b := by
  cases e <;> first | rfl | cases h

/-- An event that is no matter of pending signals needs no answer. -/
theorem Event.not_needs_of_quiet {e : Event} (h : e.onPending = false) : ¬ e.needs := by
  cases e <;> first | exact id | cases h

/-! ### The invariant -/

/-- What the invariant sees: the pending sets, the next pid, the trace, and the mark. -/
structure SignalView where
  pending : Nat → Option SigSet
  nextPid : Nat
  trace : List Event
  dropped : Bool

/-- The pending sets agree with the history, and the events since `start` are answered, apart from
the debts. -/
structure SignalView.Ok (start : List Event) (debt : Event → Prop) (v : SignalView) : Prop where
  history : ∃ tail, v.trace = start ++ tail ∧ (v.dropped = false → Answered debt tail)
  pending : ∀ pid p, v.pending pid = some p →
    ∀ i, i < 64 → p.getLsbD i = pendingAfter pid (i + 1) v.trace
  below : ∀ pid p, v.pending pid = some p → pid < v.nextPid
  fresh : ∀ pid signum, v.nextPid ≤ pid → pendingAfter pid signum v.trace = false

/-- What the invariant sees of the server. -/
def World.signalView (w : World) : SignalView :=
  ⟨fun pid => w.pendingOf pid, w.nextPid, w.trace, w.signalDropped⟩

/-- The pending sets and the trace of the server are in order. -/
def World.SignalsOk (start : List Event) (debt : Event → Prop) (w : World) : Prop :=
  w.signalView.Ok start debt

namespace SignalView.Ok

variable {start : List Event} {debt debt' : Event → Prop} {v : SignalView}

/-- More may be owed. -/
theorem mono (h : v.Ok start debt) (hd : ∀ d, debt d → debt' d) : v.Ok start debt' := by
  obtain ⟨tail, htrace, hans⟩ := h.history
  exact ⟨⟨tail, htrace, fun hdrop => (hans hdrop).mono hd⟩, h.pending, h.below, h.fresh⟩

/-- One more event, with the change of a pending set that it stands for. -/
theorem event {e : Event} {pending : Nat → Option SigSet} (h : v.Ok start debt)
    (hold : ∀ d, debt d → ¬ e.answers d → debt' d) (hnew : e.needs → debt' e)
    (hpending : ∀ pid p, pending pid = some p → ∃ p₀, v.pending pid = some p₀ ∧
      ∀ i, i < 64 → p.getLsbD i = e.replay pid (i + 1) (p₀.getLsbD i))
    (hfresh : ∀ pid signum, v.nextPid ≤ pid → e.replay pid signum false = false) :
    ({ v with pending := pending, trace := v.trace ++ [e] } : SignalView).Ok start debt' := by
  obtain ⟨tail, htrace, hans⟩ := h.history
  refine ⟨⟨tail ++ [e], ?_, fun hdrop => (hans hdrop).append_one hold hnew⟩, ?_, ?_, ?_⟩
  · show v.trace ++ [e] = start ++ (tail ++ [e])
    rw [htrace, List.append_assoc]
  · intro pid p hp i hi
    obtain ⟨p₀, hp₀, hbits⟩ := hpending pid p hp
    rw [hbits i hi, h.pending pid p₀ hp₀ i hi, pendingAfter_append]
  · intro pid p hp
    obtain ⟨p₀, hp₀, _⟩ := hpending pid p hp
    exact h.below pid p₀ hp₀
  · intro pid signum hpid
    rw [pendingAfter_append, h.fresh pid signum hpid]
    exact hfresh pid signum hpid

/-- An event that is not about a pending set. -/
theorem quiet {e : Event} (h : v.Ok start debt) (he : e.onPending = false)
    (hold : ∀ d, debt d → ¬ e.answers d → debt' d) :
    ({ v with trace := v.trace ++ [e] } : SignalView).Ok start debt' := by
  refine h.event hold (fun hn => absurd hn (Event.not_needs_of_quiet he))
    (fun pid p hp => ⟨p, hp, ?_⟩) ?_
  · intro i _
    rw [Event.replay_quiet _ _ _ he]
  · intro pid signum _
    rw [Event.replay_quiet _ _ _ he]

/-- After a mark there is nothing to answer. -/
theorem drop (h : v.Ok start debt) : ({ v with dropped := true } : SignalView).Ok start debt' := by
  obtain ⟨tail, htrace, _⟩ := h.history
  exact ⟨⟨tail, htrace, fun hdrop => by cases hdrop⟩, h.pending, h.below, h.fresh⟩

/-- Fewer processes. -/
theorem shrink {pending : Nat → Option SigSet} (h : v.Ok start debt)
    (hsub : ∀ pid p, pending pid = some p → v.pending pid = some p) :
    ({ v with pending := pending } : SignalView).Ok start debt :=
  ⟨h.history, fun pid p hp => h.pending pid p (hsub pid p hp),
    fun pid p hp => h.below pid p (hsub pid p hp), h.fresh⟩

/-- A new process has no pending signals. -/
theorem register {pending : Nat → Option SigSet} (h : v.Ok start debt)
    (hnew : pending v.nextPid = some 0)
    (hold : ∀ pid, pid ≠ v.nextPid → pending pid = v.pending pid) :
    ({ v with pending := pending, nextPid := v.nextPid + 1 } : SignalView).Ok start debt := by
  refine ⟨h.history, ?_, ?_, ?_⟩
  · intro pid p hp i hi
    by_cases heq : pid = v.nextPid
    · subst heq
      have hzero : p = 0 := Option.some.inj (hp.symm.trans hnew)
      rw [hzero, h.fresh _ _ le_rfl]
      exact BitVec.getLsbD_zero
    · exact h.pending pid p ((hold pid heq).symm.trans hp) i hi
  · intro pid p hp
    show pid < v.nextPid + 1
    by_cases heq : pid = v.nextPid
    · omega
    · have hlt : pid < v.nextPid := h.below pid p ((hold pid heq).symm.trans hp)
      omega
  · intro pid signum hpid
    have hle : v.nextPid + 1 ≤ pid := hpid
    exact h.fresh pid signum (by omega)

end SignalView.Ok

/-! ### What the view does not see -/

/-- A change of a process record that keeps the pending sets. -/
theorem World.signalView_modifyTask (w : World) (pid : Nat) {f : TaskStruct → TaskStruct}
    (hf : ∀ t, (f t).signal.signalPending = t.signal.signalPending) :
    (w.modifyTask pid f).signalView = w.signalView :=
  congrArg (SignalView.mk · _ _ _) (funext fun q => w.pendingOf_modifyTask pid q hf)

instance : BlindSlots World.signalView where
  tick _ _ := rfl
  slots _ _ := rfl
  ledger _ _ := rfl

instance : BlindRecords World.signalView where
  record w pid _ hf := w.signalView_modifyTask pid fun t => by rw [(hf t).2.1]
  hostPidMap _ _ := rfl
  stale _ _ := rfl
  stopLog _ _ := rfl
  stopSkewed _ _ := rfl

instance : BlindWaits World.signalView :=
  ⟨fun _ _ => rfl, fun _ _ => rfl, fun _ _ => rfl, fun _ _ => rfl, fun _ _ => rfl, fun _ _ => rfl⟩

instance : BlindSleeps World.signalView :=
  ⟨fun _ _ => rfl, fun _ _ => rfl, fun _ _ => rfl, fun _ _ => rfl⟩

instance : BlindCaller World.signalView := ⟨fun _ _ => rfl⟩

instance : BlindFiles World.signalView where
  cloexecLog _ _ := rfl
  positionSplit _ _ := rfl
  endpoints _ _ := rfl
  doubleClose _ _ := rfl
  asyncFree _ _ := rfl
  asyncRegions _ _ := rfl
  asyncVaddr _ _ := rfl
  iouring _ _ := rfl
  fdOverflow _ _ := rfl
  earlyRecycle _ _ := rfl
  files w pid _ := w.signalView_modifyTask pid fun _ => rfl

instance : BlindMemory World.signalView where
  vspace w pid _ := w.signalView_modifyTask pid fun _ => rfl
  tables w pid _ := w.signalView_modifyTask pid fun _ => rfl
  scratch _ _ _ := rfl
  writeFrame _ _ _ := rfl
  frames _ _ _ := rfl
  refs _ _ := rfl
  doubleFree _ _ := rfl
  mm w pid _ := w.signalView_modifyTask pid fun _ => rfl
  fileMapLog _ _ := rfl

section Blind

variable {start : List Event} {debt : Event → Prop}

instance : BlindSlots (World.SignalsOk start debt) :=
  BlindSlots.comp (V := World.signalView) _ inferInstance

instance : BlindRecords (World.SignalsOk start debt) :=
  BlindRecords.comp (V := World.signalView) _ inferInstance

instance : BlindWaits (World.SignalsOk start debt) :=
  BlindWaits.comp (V := World.signalView) _ inferInstance

instance : BlindSleeps (World.SignalsOk start debt) :=
  BlindSleeps.comp (V := World.signalView) _ inferInstance

instance : BlindCaller (World.SignalsOk start debt) :=
  BlindCaller.comp (V := World.signalView) _ inferInstance

instance : BlindFiles (World.SignalsOk start debt) :=
  BlindFiles.comp (V := World.signalView) _ inferInstance

instance : BlindMemory (World.SignalsOk start debt) :=
  BlindMemory.comp (V := World.signalView) _ inferInstance

instance : TraceKeeps (World.SignalsOk start debt) where
  emit _ he _ h := SignalView.Ok.quiet h he.quiet fun _ hd _ => hd

instance : EndKeeps (World.SignalsOk start debt) where
  ended _ _ _ h := SignalView.Ok.quiet h rfl fun _ hd _ => hd

instance : SuspendKeeps (World.SignalsOk start debt) where
  suspended _ _ h := SignalView.Ok.quiet h rfl fun _ hd _ => hd

instance : FillKeeps (World.SignalsOk start debt) where
  filled _ _ h := SignalView.Ok.quiet h rfl fun _ hd _ => hd

instance (pid : Nat) : OwnSignals (World.SignalsOk start debt) pid where
  own _ hf w h := by
    rw [World.SignalsOk, show ((modifySignal pid _).run w).2.signalView = w.signalView from
      w.signalView_modifyTask pid fun t => hf.pending t.signal]
    exact h

end Blind

/-! ### Queueing -/

/-- The pending sets after a change of those of one process. -/
theorem World.pendingOf_modifySignal (w : World) (pid q : Nat) (f : SignalStruct → SignalStruct)
    {g : SigSet → SigSet} (hf : ∀ s, (f s).signalPending = g s.signalPending) :
    (w.modifySignal pid f).pendingOf q
      = if q = pid then (w.pendingOf q).map g else w.pendingOf q := by
  simp only [World.pendingOf, World.task?, World.modifySignal, World.modifyTask]
  rw [OrdMap.get?_modify]
  by_cases hq : q = pid
  · rw [if_pos hq, if_pos hq, Option.map_map, Option.map_map]
    exact congrArg (Option.map · _) (funext fun t => hf t.signal)
  · rw [if_neg hq, if_neg hq]

/-- The change of the pending set of one process, with its event. -/
theorem changePending_signalsOk {start : List Event} {debt debt' : Event → Prop} {pid : Nat}
    {f : SignalStruct → SignalStruct} {g : SigSet → SigSet} {e : Event} {α : Type} {k : M α}
    {Q : α → World → Prop} {E : Err → World → Prop}
    (hf : ∀ s, (f s).signalPending = g s.signalPending)
    (hself : ∀ p i, i < 64 → (g p).getLsbD i = e.replay pid (i + 1) (p.getLsbD i))
    (hother : ∀ q signum b, q ≠ pid → e.replay q signum b = b)
    (hold : ∀ d, debt d → ¬ e.answers d → debt' d) (hnew : e.needs → debt' e)
    (hk : Triple (fun w => w.SignalsOk start debt' ∧ w.pendingOf pid ≠ none) k Q E) :
    Triple (fun w => w.SignalsOk start debt ∧ w.pendingOf pid ≠ none) (do
      modifySignal pid f
      emit e
      k) Q E := by
  intro w h
  obtain ⟨p, hp⟩ := Option.ne_none_iff_exists'.mp h.2
  refine hk { w.modifySignal pid f with trace := w.trace ++ [e] } ⟨?_, ?_⟩
  · show SignalView.Ok start debt' ⟨fun q => (w.modifySignal pid f).pendingOf q, w.nextPid,
      w.trace ++ [e], w.signalDropped⟩
    refine SignalView.Ok.event (v := w.signalView) h.1 hold hnew ?_ ?_
    -- the process of the event has its bit as replayed, the others are not in the event
    · intro q p hp
      rw [World.pendingOf_modifySignal w pid q f hf] at hp
      split at hp
      · rename_i heq
        obtain ⟨p₀, hp₀, rfl⟩ := Option.map_eq_some_iff.mp hp
        exact ⟨p₀, hp₀, fun i hi => heq ▸ hself p₀ i hi⟩
      · rename_i hne
        exact ⟨p, hp, fun i _ => (hother q _ _ hne).symm⟩
    · -- the process is not a new one
      intro q signum hq
      have hlt : pid < w.nextPid := h.1.below pid p hp
      have hle : w.nextPid ≤ q := hq
      exact hother q signum false (by omega)
  · show (w.modifySignal pid f).pendingOf pid ≠ none
    rw [World.pendingOf_modifySignal w pid pid f hf, if_pos rfl, hp]
    exact Option.some_ne_none _

/-- The bit of a signal. -/
theorem getLsbD_bit (idx i : Nat) (hi : i < 64) :
    (1#64 <<< idx).getLsbD i = decide (i = idx) := by
  rw [BitVec.getLsbD_shiftLeft, BitVec.getLsbD_one]
  by_cases h : i = idx
  · subst h
    simp [hi]
  · by_cases hlt : i < idx
    · simp [hlt, h]
    · have hne : ¬ i - idx = 0 := by omega
      simp [h, hne]

/-- A signal with a bit is a positive number, and the bit is at its place. -/
theorem signalBit_some {signum : Nat} {bit : SigSet} (h : signalBit signum = some bit) :
    1 ≤ signum ∧ bit = 1#64 <<< (signum - 1) := by
  unfold signalBit at h
  split at h
  · rename_i hs
    exact ⟨hs.1, (Option.some.inj h).symm⟩
  · cases h

/-- A queued signal answers the discarding of the stop signals, when it is `SIGCONT`. -/
theorem queueProcessSignal_signalsOk {start : List Event} {debt debt' : Event → Prop}
    {pid signum : Nat} (hvalid : (signalBit signum).isSome)
    (hold : ∀ d, debt d → ¬ (Event.queued pid signum).answers d → debt' d) :
    Triple (fun w => w.SignalsOk start debt ∧ w.pendingOf pid ≠ none)
      (queueProcessSignal pid signum) (fun _ => World.SignalsOk start debt')
      (fun _ => World.SignalsOk start debt') := by
  obtain ⟨bit, hbit⟩ := Option.isSome_iff_exists.mp hvalid
  obtain ⟨hone, rfl⟩ := signalBit_some hbit
  unfold queueProcessSignal
  rw [hbit]
  refine Triple.bind (R := fun o w => (w.SignalsOk start debt ∧ w.pendingOf pid ≠ none) ∧
    w.task? pid = o) (Triple.gets fun w h => ⟨h, rfl⟩) fun task => ?_
  refine Triple.whenSome (fun t _ => Triple.pre (K := fun w =>
    w.SignalsOk start debt ∧ w.pendingOf pid ≠ none) ?_ fun w h => h.1) ?_
  · refine changePending_signalsOk (g := (· ||| 1#64 <<< (signum - 1))) (fun _ => rfl)
      (fun p i hi => ?_) (fun q s b hq => ?_) hold (fun hn => hn.elim) ?_
    · have heq : (i = signum - 1) = (signum = i + 1) := propext (by omega)
      rw [BitVec.getLsbD_or, getLsbD_bit _ _ hi]
      simp [Event.replay, heq, Bool.beq_eq_decide_eq]
    · simp [Event.replay, Ne.symm hq]
    · refine Triple.pre (K := World.SignalsOk start debt') (Keeps.triple ?_) fun w h => h.1
      exact Keeps.bind (by simp) fun _ => Keeps.bind (Keeps.when (wakeFromSigsuspend_keeps _))
        fun _ => keeps_modify fun _ => rfl
  · intro w hnone h
    exact absurd (by rw [World.pendingOf, h.2, hnone]; rfl) h.1.2

/-- A signal that is taken out of a pending set, with its event. -/
theorem clearPending_signalsOk {start : List Event} {debt debt' : Event → Prop} {pid idx : Nat}
    {e : Event} {α : Type} {k : M α} {Q : α → World → Prop} {E : Err → World → Prop}
    (hself : ∀ signum b, e.replay pid signum b = (b && !(idx + 1 == signum)))
    (hother : ∀ q signum b, q ≠ pid → e.replay q signum b = b)
    (hold : ∀ d, debt d → ¬ e.answers d → debt' d) (hnew : e.needs → debt' e)
    (hk : Triple (fun w => w.SignalsOk start debt' ∧ w.pendingOf pid ≠ none) k Q E) :
    Triple (fun w => w.SignalsOk start debt ∧ w.pendingOf pid ≠ none) (do
      modifySignal pid (·.clearPending idx)
      emit e
      k) Q E := by
  refine changePending_signalsOk (g := (· &&& ~~~(1#64 <<< idx))) (fun _ => rfl) (fun p i hi => ?_)
    hother hold hnew hk
  have heq : (i = idx) = (idx = i) := propext ⟨Eq.symm, Eq.symm⟩
  rw [BitVec.getLsbD_and, BitVec.getLsbD_not, getLsbD_bit _ _ hi, hself]
  simp [hi, heq, Bool.beq_eq_decide_eq]

section Quiet

variable {start : List Event} {debt : Event → Prop}

instance : QuietSignals (World.SignalsOk start debt) where
  quiet pid f hf := OwnSignals.own f hf.mask
  queue pid signum w h := by
    by_cases hlive : w.pendingOf pid = none
    · -- a signal for a process that is gone is lost with it
      have htask : w.task? pid = none := Option.map_eq_none_iff.mp hlive
      have hrun : (queueProcessSignal pid signum).run w = (.ok (), w) := by
        rw [queueProcessSignal, run_gets_bind, htask]
        rfl
      rw [hrun]
      exact h
    · cases hbit : signalBit signum with
      | some bit =>
        exact (queueProcessSignal_signalsOk (by rw [hbit]; rfl) fun _ hd _ => hd).ends ⟨h, hlive⟩
      | none =>
        have hrun : Keeps (World.SignalsOk start debt) (queueProcessSignal pid signum) := by
          unfold queueProcessSignal
          rw [hbit]
          exact Keeps.bind (Keeps.gets _) fun _ => Keeps.whenSome fun _ => Keeps.pure _
        exact hrun w h
  dropped _ h := SignalView.Ok.drop h
  waitIntr _ _ h := h

/-- A stop signal that `SIGCONT` discards. -/
def discardDebt (pid : Nat) (d : Event) : Prop :=
  ∃ signum, d = .discarded pid signum ∧ defaultStopSignal signum

/-- A stop signal that is discarded is taken out, and owed if that is a debt. -/
theorem discardStop_signalsOk {pid signum : Nat} (hstop : defaultStopSignal signum)
    (hdebt : ∀ d, discardDebt pid d → debt d) {E : Err → World → Prop} :
    Triple (fun w => w.SignalsOk start debt ∧ w.pendingOf pid ≠ none) (discardStop pid signum)
      (fun _ w => w.SignalsOk start debt ∧ w.pendingOf pid ≠ none) E := by
  obtain ⟨idx, rfl⟩ : ∃ idx, signum = idx + 1 := by
    refine ⟨signum - 1, ?_⟩
    have hne : signum ≠ 0 := by
      intro hzero
      subst hzero
      cases hstop
    omega
  unfold discardStop
  rw [Nat.add_sub_cancel]
  refine Triple.bind (R := fun o w => (w.SignalsOk start debt ∧ w.pendingOf pid ≠ none) ∧
    w.task? pid = o) (Triple.gets fun w h => ⟨h, rfl⟩) fun task => ?_
  refine Triple.whenSome (fun t ht => ?_) fun w _ h => h.1
  by_cases hset : t.signal.signalPending.getLsbD idx = true
  · refine Triple.pre (K := fun w => w.SignalsOk start debt ∧ w.pendingOf pid ≠ none) ?_
      fun w h => h.1
    rw [when_pos hset]
    exact clearPending_signalsOk (k := pure ()) (fun s b => by simp [Event.replay])
      (fun q s b hq => by simp [Event.replay, Ne.symm hq]) (fun _ hd _ => hd)
      (fun _ => hdebt _ ⟨_, rfl, hstop⟩) (Triple.pure fun w h => h)
  · rw [when_neg hset]
    refine Triple.bind (R := fun _ w => w.SignalsOk start debt ∧ w.pendingOf pid ≠ none)
      (Triple.modify fun w h => ?_) fun _ => Triple.pure fun w h => h
    -- the bit is not set, and the set stays as it is
    have hsame : (w.modifySignal pid (·.clearPending idx)).signalView = w.signalView := by
      refine congrArg (SignalView.mk · _ _ _) (funext fun q => ?_)
      rw [World.pendingOf_modifySignal w pid q _ (g := (· &&& ~~~(1#64 <<< idx))) fun _ => rfl]
      split
      · rename_i heq
        subst heq
        rw [World.pendingOf, h.2, ht]
        refine congrArg some (BitVec.eq_of_getLsbD_eq fun i hi => ?_)
        rw [BitVec.getLsbD_and, BitVec.getLsbD_not, getLsbD_bit _ _ hi]
        by_cases heq : i = idx
        · subst heq
          simpa using hset
        · simp [hi, heq]
      · rfl
    refine ⟨?_, ?_⟩
    · rw [World.SignalsOk, hsame]
      exact h.1.1
    · exact fun hnone => h.1.2 ((congrFun (congrArg SignalView.pending hsame) pid).symm.trans hnone)

/-- `SIGCONT` discards the stop signals, and is then queued. -/
instance : ContKeeps (World.SignalsOk start debt) where
  cont pid := by
    refine Triple.keeps (Triple.bind (R := fun o w => w.SignalsOk start debt ∧ w.task? pid = o)
      (Triple.gets fun w h => ⟨h, rfl⟩) fun task => ?_)
    have hresume : Keeps (World.SignalsOk start debt) (do
        let task ← gets (·.task? pid)
        Cmd.whenSome task fun _ => ignore (tcbResume pid) : M Unit) :=
      Keeps.bind (Keeps.gets _) fun _ => Keeps.whenSome fun _ => Keeps.ignore (tcbResume_keeps _)
    cases task with
    | none =>
      refine Keeps.triple (I := World.SignalsOk start debt) ?_ |>.pre fun w h => h.1
      exact Keeps.bind (Keeps.pure _) fun _ => Keeps.bind (Keeps.pure _) fun _ =>
        Keeps.bind (queueProcessSignal_keeps _ _) fun _ => hresume
    | some t =>
      let debt' (d : Event) : Prop := debt d ∨ discardDebt pid d
      let Jv (v : SignalView) : Prop := v.Ok start debt' ∧ v.pending pid ≠ none
      let J (w : World) : Prop := Jv w.signalView
      have hstep : ∀ {c : M Unit}, (∀ v, Keeps (fun w => w.signalView = v) c) → Total c →
          Triple J c (fun _ => J) (fun _ => World.SignalsOk start debt) := fun hk ht =>
        ht.triple ((Frames.of_keeps hk).keeps Jv).triple
      refine Triple.pre (K := J) ?_ fun w h => show J w from ⟨h.1.mono fun _ => .inl, ?_⟩
      · refine Triple.bind (R := fun _ => J) ?_ fun _ => ?_
        · refine Triple.bind (R := fun _ => J) ?_ fun _ =>
            hstep (fun v => setStopped_keeps pid false) (setStopped_total pid false)
          -- every stop signal that is discarded owes its answer to the `SIGCONT`
          have hloop := Triple.forEach (f := discardStop pid)
            (E := fun _ => World.SignalsOk start debt)
            (fun l w => J w ∧ ∀ s ∈ l, defaultStopSignal s) (fun s l w h => by
              have htriple : Triple J (discardStop pid s) (fun _ => J)
                  (fun _ => World.SignalsOk start debt) :=
                discardStop_signalsOk (h.2 s List.mem_cons_self) fun _ => .inr
              have hdiscard := htriple w h.1
              exact ⟨fun a ha => ⟨hdiscard.1 a ha, fun s' hs' =>
                h.2 s' (List.mem_cons_of_mem _ hs')⟩,
                hdiscard.2⟩) stopSignals
          exact hloop.imp (fun w h => ⟨h, by decide⟩) (fun _ _ h => h.1) fun _ _ h => h
        · refine Triple.bind (R := fun _ => J) ?_ fun _ => ?_
          · exact Triple.when (fun _ => hstep (fun v => recordChildChange_keeps _ _)
              (Total.bind (Total.modify _) fun _ => Total.bind (Total.modify _) fun _ =>
                Total.modify _)) fun w _ h => h
          · -- the queued `SIGCONT` answers what was discarded
            refine Triple.bind (R := fun _ => World.SignalsOk start debt) ?_ fun _ => hresume.triple
            have hold : ∀ d, debt' d → ¬ (Event.queued pid SIGCONT).answers d → debt d := ?_
            · exact queueProcessSignal_signalsOk (by decide) hold
            intro d hd hans
            rcases hd with hd | ⟨signum, rfl, hstop⟩
            · exact hd
            · exact absurd ⟨rfl, hstop⟩ hans
      · rw [World.signalView]
        show w.pendingOf pid ≠ none
        rw [World.pendingOf, h.2]
        exact Option.some_ne_none _

instance : ProcessKeeps (World.SignalsOk start debt) where
  erase w pid h _ := by
    refine SignalView.Ok.shrink (v := w.signalView) h fun q p hp => ?_
    have hp' : ((w.tasks.erase pid).get? q).map (·.signal.signalPending) = some p := hp
    rw [OrdMap.get?_erase] at hp'
    split at hp'
    · cases hp'
    · exact hp'
  register w parentPid cnode h := by
    refine SignalView.Ok.register (v := w.signalView) h ?_ ?_
    · show ((w.registered parentPid cnode).task? w.nextPid).map _ = some 0
      rw [World.task?, World.registered, OrdMap.get?_insert_self]
      rfl
    · intro q hq
      have hq' : q ≠ w.nextPid := hq
      show ((w.registered parentPid cnode).task? q).map _ = (w.task? q).map _
      rw [World.task?, World.registered, OrdMap.get?_insert_ne _ _ hq']
      rfl
  inherit w child parent pid h hfork := by
    refine SignalView.Ok.shrink (v := w.signalView) h fun q p hp => ?_
    have hp' : ((w.modifyTask child (·.inherit parent)).task? q).map (·.signal.signalPending)
        = some p := hp
    rw [World.task?, World.modifyTask, OrdMap.get?_modify] at hp'
    split at hp'
    · -- the child had no pending signals before, and has none now
      rename_i heq
      rw [Option.map_map] at hp'
      obtain ⟨t', _, rfl⟩ := Option.map_eq_some_iff.mp hp'
      have hpending : (t'.inherit parent).signal.signalPending = 0 := by
        unfold TaskStruct.inherit
        dsimp only
        split <;> rfl
      show w.pendingOf q = some (t'.inherit parent).signal.signalPending
      rw [hpending, heq]
      exact hfork.2.fresh.2
    · exact hp'
  panicked w b h := h

end Quiet

/-! ### Dequeueing -/

/-- The debts with one more, if it needs an answer. -/
def owes (debt : Event → Prop) (d' : Event) (d : Event) : Prop := debt d ∨ (d = d' ∧ d'.needs)

section Dequeue

variable {start : List Event} {debt : Event → Prop} {pid : Nat}

/-- A process that is there has a set of pending signals. -/
theorem pendingOf_ne_none {w : World} {t : TaskStruct} (h : w.task? pid = some t) :
    w.pendingOf pid ≠ none := by
  rw [World.pendingOf, h]
  exact Option.some_ne_none _

/-- The process that a lookup returns, when there is one. -/
theorem getProcess_pending {P : World → Prop} {E : Err → World → Prop} :
    Triple (fun w => P w ∧ w.pendingOf pid ≠ none) (getProcess pid) (fun _ => P) E := by
  intro w h
  obtain ⟨t, ht⟩ := Option.ne_none_iff_exists'.mp (Option.map_eq_none_iff.not.mp h.2)
  rw [run_getProcess ht]
  exact ⟨fun _ _ => h.1, fun _ he => by cases he⟩

/-- A dequeued signal is a debt. -/
theorem popPendingSignalFromMask_signalsOk (t : TaskStruct) (mask : SigSet) :
    Triple (fun w => w.SignalsOk start debt ∧ w.task? pid = some t)
      (popPendingSignalFromMask pid mask)
      (fun o w => match o with
        | none => w.SignalsOk start debt ∧ w.pendingOf pid ≠ none
        | some signum => w.SignalsOk start
          (owes debt (.dequeued pid signum (t.signalAction signum)))
            ∧ w.pendingOf pid ≠ none)
      (fun _ => World.SignalsOk start debt) := by
  intro w h
  have hlive := pendingOf_ne_none h.2
  unfold popPendingSignalFromMask
  rw [run_bind_ok (run_getProcess h.2)]
  cases SigSet.lowest? (t.signal.signalPending &&& mask) with
  | none => exact ⟨fun o ho => by cases ho; exact ⟨h.1, hlive⟩, fun _ he => by cases he⟩
  | some idx =>
    let e := Event.dequeued pid (idx + 1) (t.signalAction (idx + 1))
    have hold : ∀ d, debt d → ¬ e.answers d → owes debt e d := fun _ hd _ => .inl hd
    have hclear := clearPending_signalsOk (e := e) (k := pure (some (idx + 1)))
      (Q := fun o w => o = some (idx + 1) ∧ w.SignalsOk start (owes debt e) ∧
        w.pendingOf pid ≠ none)
      (E := fun _ => World.SignalsOk start debt)
      (fun s b => show e.replay pid s b = (b && !(idx + 1 == s)) by simp [e, Event.replay])
      (fun q s b hq => by simp [e, Event.replay, Ne.symm hq]) hold (fun hn => .inr ⟨rfl, hn⟩)
        (Triple.pure fun w h => ⟨rfl, h⟩) w ⟨h.1, hlive⟩
    refine ⟨?_, hclear.2⟩
    intro o ho
    obtain ⟨rfl, hpost⟩ := hclear.1 o ho
    exact hpost

/-- A call to a thread that answers the debt, or marks that it was refused. -/
theorem answerOrDrop_signalsOk {debt' : Event → Prop} {α : Type} {c : M Unit}
    {k : Except Err Unit → M α} {e : Event} {Q : α → World → Prop} {E : Err → World → Prop}
    (hc : c = (do let _ ← ext; emit e)) (he : e.onPending = false)
    (hold : ∀ d, debt d → ¬ e.answers d → debt' d)
    (hk : ∀ r, Triple (World.SignalsOk start debt') (k r) Q E) :
    Triple (World.SignalsOk start debt) (do
      let r ← attempt c
      when (¬ r.isOk) markSignalDropped
      k r) Q E := by
  refine Triple.bind (R := fun r w => (r.isOk → w.SignalsOk start debt') ∧
    (¬ r.isOk → w.SignalsOk start debt)) (Triple.attempt ?_) ?_
  · rw [hc]
    refine Triple.bind (R := fun _ => World.SignalsOk start debt) ?_ fun _ => ?_
    · exact ext_keeps.triple.errors fun _ _ h =>
        ⟨fun hok => (by cases hok), fun _ => h⟩
    · exact Triple.modify fun w h =>
        ⟨fun _ => SignalView.Ok.quiet h he hold, fun hno => absurd rfl hno⟩
  · intro r
    refine Triple.bind (R := fun _ => World.SignalsOk start debt') ?_ fun _ => hk r
    exact Triple.when (fun hno => Triple.modify fun w h => SignalView.Ok.drop (h.2 hno))
      fun w hok h => h.1 (not_not.mp hok)

/-- What is left to do for a dequeued signal after its delivery: nothing, or the end of the
process. -/
def Delivered (start : List Event) (debt : Event → Prop) (pid : Nat) (d : Event) :
    PendingSignalAction → World → Prop
  | .terminate code, w => (w.SignalsOk start (owes debt d) ∧ w.pendingOf pid ≠ none) ∧
      (Event.terminated pid code).answers d
  | _, w => w.SignalsOk start debt

/-- The answer of a debt leaves the others. -/
theorem owes_answered {e d : Event} (h : e.answers d) :
    ∀ d', owes debt d d' → ¬ e.answers d' → debt d' := by
  rintro d' (hd | ⟨rfl, _⟩) hans
  · exact hd
  · exact absurd h hans

/-- The default action of a stop signal answers what is owed. -/
theorem deliverStop_signalsOk {signum : Nat} {action : SignalAction}
    (hdfl : action.handler = SIG_DFL_HANDLER) (hstop : defaultStopSignal signum) :
    Triple (fun w => w.SignalsOk start (owes debt (.dequeued pid signum action)) ∧
        w.pendingOf pid ≠ none) (deliverStop pid signum)
      (Delivered start debt pid (.dequeued pid signum action))
      (fun _ => World.SignalsOk start debt) := by
  refine Triple.bind getProcess_pending fun task => ?_
  refine answerOrDrop_signalsOk (e := .suspended pid) rfl rfl
    (owes_answered ⟨rfl, hdfl, hstop⟩) fun r => ?_
  refine Triple.bind (Keeps.triple (by simp)) fun _ => Triple.bind (Keeps.triple (Keeps.when ?_))
    fun _ => Triple.pure fun w h => h
  exact Keeps.bind (by simp) fun _ => by simp

/-- The default action of `SIGCONT` answers what is owed. -/
theorem deliverCont_signalsOk {action : SignalAction} (hdfl : action.handler = SIG_DFL_HANDLER) :
    Triple (fun w => w.SignalsOk start (owes debt (.dequeued pid SIGCONT action)) ∧
        w.pendingOf pid ≠ none) (deliverCont pid)
      (Delivered start debt pid (.dequeued pid SIGCONT action))
      (fun _ => World.SignalsOk start debt) := by
  refine Triple.bind getProcess_pending fun task => ?_
  refine answerOrDrop_signalsOk (e := .resumed pid) rfl rfl (owes_answered ⟨rfl, hdfl, rfl⟩)
    fun r => ?_
  refine Triple.bind (Keeps.triple (by simp)) fun _ => Triple.bind (Keeps.triple (Keeps.when ?_))
    fun _ => Triple.pure fun w h => h
  exact Keeps.bind (by simp) fun _ => by simp

/-- The delivery of a dequeued signal pays its debt, or asks for the end of the process. -/
theorem deliverSignal_signalsOk (signum : Nat) (action : SignalAction) :
    Triple (fun w => w.SignalsOk start (owes debt (.dequeued pid signum action)) ∧
        w.pendingOf pid ≠ none) (deliverSignal pid signum action)
      (Delivered start debt pid (.dequeued pid signum action))
      (fun _ => World.SignalsOk start debt) := by
  -- an ignored signal is no debt
  have hignored : action.ignores signum = true → ∀ {w : World},
      w.SignalsOk start (owes debt (.dequeued pid signum action)) → w.SignalsOk start debt := by
    intro hign w h
    refine SignalView.Ok.mono h fun d hd => hd.resolve_right fun hneeds => ?_
    have hno : action.ignores signum = false := hneeds.2
    rw [hign] at hno
    cases hno
  unfold deliverSignal
  refine Triple.ite (fun hign => Triple.pure ?_) ?_
  · intro w h
    exact hignored (by simp [SignalAction.ignores, hign]) h.1
  intro hnign
  refine Triple.ite ?_ ?_
  · intro hhandler
    refine Triple.bind getProcess_pending fun _ => ?_
    refine answerOrDrop_signalsOk (e := .upcall pid action.handler signum) rfl rfl
      (owes_answered ⟨rfl, rfl, rfl, hhandler, hnign⟩) fun r => ?_
    exact Triple.pure fun w h => h
  intro hdfl
  have hdfl := not_not.mp hdfl
  refine Triple.ite (fun hign => Triple.pure ?_) fun _ => ?_
  · intro w h
    exact hignored (by simp [SignalAction.ignores, hdfl, hign]) h.1
  refine Triple.ite (fun hstop => deliverStop_signalsOk hdfl hstop) fun _ => ?_
  refine Triple.ite (fun hcont => ?_) fun _ => Triple.pure fun w h => ⟨h, rfl, hdfl, rfl⟩
  subst hcont
  exact deliverCont_signalsOk hdfl

/-! ### The end of a call -/

/-- The end of a process pays the debt of a signal that ends it. -/
theorem terminateProcess_signalsOk {code : Nat} {d : Event}
    (hans : (Event.terminated pid code).answers d) :
    Triple (fun w => w.SignalsOk start (owes debt d) ∧ w.pendingOf pid ≠ none)
      (terminateProcess pid code) (fun _ => World.SignalsOk start debt)
      (fun _ => World.SignalsOk start debt) := by
  intro w h
  obtain ⟨t, ht⟩ := Option.ne_none_iff_exists'.mp (Option.map_eq_none_iff.not.mp h.2)
  unfold terminateProcess
  rw [run_bind_ok (run_getProcess ht)]
  have hopen : w.OpenIn pid t.files.fds.keys := by
    intro fs hfs fd _ hget
    rw [World.filesOf, ht] at hfs
    cases hfs
    exact OrdMap.mem_keys.mpr (Option.isSome_iff_ne_none.mpr hget)
  have hrelease := (releaseProcess_total pid t).triple (F := fun _ => World.SignalsOk start debt)
    (releaseProcess_keeps_blind (I := World.SignalsOk start (owes debt d)) pid t)
  refine Triple.bind hrelease (fun _ => ?_) w ⟨h.1, hopen⟩
  refine Triple.bind (R := fun _ => World.SignalsOk start (owes debt d))
    (Triple.modify fun _ h => h) fun _ => ?_
  refine Triple.bind (R := fun _ => World.SignalsOk start debt)
    (Triple.modify fun w h => SignalView.Ok.quiet h rfl (owes_answered hans)) fun _ => ?_
  refine Keeps.triple (Keeps.bind (by simp) fun _ => Keeps.ite ?_ ?_)
  · exact Keeps.bind (fun _ h => h) fun _ => Keeps.throw _
  · exact Keeps.bind (Keeps.gets _) fun caller => Keeps.when (Keeps.throw _)

/-- A signal that is dequeued on the return of a call is dealt with before the call ends. -/
theorem finishSyscall_signalsOk (sys : Syscall) (ret : Int) :
    Keeps (World.SignalsOk start debt) (finishSyscall pid sys ret) := by
  have hconsume : Triple (World.SignalsOk start debt) (consumeDeliverableSignalOnSyscallReturn pid)
      (fun action w => w.SignalsOk start debt ∨ ∃ d, Delivered start debt pid d action w)
      (fun _ => World.SignalsOk start debt) := by
    refine Triple.bind (R := fun o w => w.SignalsOk start debt ∧ w.task? pid = o)
      (Triple.gets fun w h => ⟨h, rfl⟩) fun task => ?_
    cases task with
    | none => exact Triple.pure fun w h => .inl h.1
    | some t =>
      refine Triple.bind (popPendingSignalFromMask_signalsOk t _) fun signum => ?_
      cases signum with
      | none => exact Triple.pure fun w h => .inl h.1
      | some signum =>
        exact (deliverSignal_signalsOk signum _).post fun _ _ h => .inr ⟨_, h⟩
  refine Triple.keeps (Triple.bind (Triple.attempt (Q := fun r w => match r with
    | .ok action => w.SignalsOk start debt ∨ ∃ d, Delivered start debt pid d action w
    | .error _ => w.SignalsOk start debt) hconsume) fun r => ?_)
  -- what the delivery decides is carried out here, and answers the dequeue
  match r with
  | .error _ => exact Triple.pure fun w h => h
  | .ok .none => exact Triple.pure fun w h => h.elim id fun ⟨_, hd⟩ => hd
  | .ok (.interrupt restart) =>
    refine Triple.pre (K := World.SignalsOk start debt) ?_ fun w h => h.elim id fun ⟨_, hd⟩ => hd
    exact Triple.ite (fun _ => Triple.pure fun _ h => h) fun _ => Triple.pure fun _ h => h
  | .ok (.terminate code) =>
    intro w h
    rcases h with h | ⟨d, hd, hans⟩
    · exact (Keeps.bind (terminateProcess_keeps_blind pid code) fun _ => Keeps.pure ret).triple w h
    · have hend : Triple (fun w => w.SignalsOk start (owes debt d) ∧ w.pendingOf pid ≠ none)
          (do terminateProcess pid code; pure ret : M Int) (fun _ => World.SignalsOk start debt)
          (fun _ => World.SignalsOk start debt) :=
        Triple.bind (terminateProcess_signalsOk hans) fun _ => Triple.pure fun _ h => h
      exact hend w hd

/-! ### The calls that dequeue -/

/-- The signal that `rt_sigtimedwait` takes is owed to its caller. -/
theorem sigtimedwaitLoop_signalsOk (mask : SigSet) (deadline rounds : Nat) :
    Triple (World.SignalsOk start debt) (sigtimedwaitLoop pid mask deadline rounds)
      (fun o w => match o with
        | none => w.SignalsOk start debt
        | some signum => ∃ action, w.SignalsOk start (owes debt (.dequeued pid signum action)))
      (fun _ => World.SignalsOk start debt) := by
  induction rounds with
  | zero => exact Triple.throw fun _ h => h
  | succ rounds ih =>
    unfold sigtimedwaitLoop
    have hpop : Triple (World.SignalsOk start debt) (popPendingSignalFromMask pid mask)
        (fun o w => match o with
          | none => w.SignalsOk start debt
          | some signum => ∃ action, w.SignalsOk start (owes debt (.dequeued pid signum action)))
        (fun _ => World.SignalsOk start debt) := by
      -- a process that is gone leaves the loop with its error
      intro w h
      cases ht : w.task? pid with
      | some t =>
        obtain ⟨hok, herr⟩ := popPendingSignalFromMask_signalsOk t mask w ⟨h, ht⟩
        refine ⟨?_, herr⟩
        intro o ho
        have hpost := hok o ho
        cases o with
        | none => exact hpost.1
        | some signum => exact ⟨_, hpost.1⟩
      | none =>
        have hrun : (popPendingSignalFromMask pid mask).run w = (.error .notFound, w) := by
          refine run_bind_error ?_
          rw [getProcess, run_gets_bind, ht]
          rfl
        rw [hrun]
        exact ⟨fun _ ho => (by cases ho), fun _ _ => h⟩
    refine Triple.bind hpop fun candidate => ?_
    cases candidate with
    | some signum => exact Triple.pure fun w h => h
    | none =>
      refine Triple.bind (Keeps.triple (I := World.SignalsOk start debt)
        monoNow_keeps) fun now => ?_
      refine Triple.ite (fun _ => Triple.pure fun w h => h) fun _ => ?_
      exact Triple.bind (Keeps.triple (Keeps.ignore (by simp))) fun _ => ih

/-- `rt_sigtimedwait` returns what it dequeues, and `rt_sigsuspend` drops what is ignored. -/
instance : DequeueKeeps (World.SignalsOk start debt) pid where
  timedwait set info timeout size := by
    unfold doRtSigtimedwait
    refine Keeps.ite (by simp) (Keeps.bind (by simp) fun mask => Keeps.ite (by simp) ?_)
    refine Keeps.bind (Keeps.attempt (parseTimeoutDeadline_keeps _)) fun r => ?_
    split
    · exact Keeps.throw _
    refine Keeps.bind (Keeps.gets _) fun rounds => Triple.keeps ?_
    refine Triple.bind (sigtimedwaitLoop_signalsOk _ _ _) fun signum => ?_
    cases signum with
    | none => exact Triple.pure fun w h => h
    | some signum =>
      intro w ⟨action, h⟩
      refine Triple.bind (Q := fun _ => World.SignalsOk start debt)
        (P := World.SignalsOk start (owes debt (.dequeued pid signum action)))
        (Triple.onError (Keeps.triple (storeSiginfo_keeps _ _ _)) fun _ =>
          Triple.modify fun _ h => SignalView.Ok.drop h) (fun _ => ?_) w h
      exact Triple.bind (Triple.modify fun w h =>
        SignalView.Ok.quiet (e := .returned pid signum) h rfl (owes_answered ⟨rfl, rfl⟩))
          fun _ => Triple.pure fun w h => h
  suspend mask size := by
    unfold doRtSigsuspend
    refine Keeps.ite (by simp) (Keeps.bind (by simp) fun suspendMask => ?_)
    refine Keeps.bind (by simp) fun task => Keeps.bind (by simp) fun _ => Triple.keeps ?_
    refine Triple.bind (getProcess_task pid) fun task' => ?_
    refine Triple.bind (popPendingSignalFromMask_signalsOk task' _) fun observed => ?_
    cases observed with
    | none =>
      refine Triple.pre (K := World.SignalsOk start debt) (Keeps.triple ?_) fun w h => h.1
      exact Keeps.bind (by simp) fun _ => Keeps.bind (by simp) fun _ =>
        Keeps.bind (by simp) fun r => by simp
    | some signum =>
      refine Triple.bind (R := fun _ => World.SignalsOk start debt) ?_ fun _ =>
        Keeps.triple (Keeps.bind (by simp) fun _ => Keeps.pure _)
      refine Triple.when (fun _ => Triple.modify fun w h => SignalView.Ok.drop h.1)
        fun w hign h => ?_
      refine SignalView.Ok.mono h.1 fun d hd => hd.resolve_right fun hneeds => ?_
      have hno : (task'.signalAction signum).ignores signum = false := hneeds.2
      rw [hno] at hign
      exact hign (by simp)

end Dequeue

/-! ### Runs -/

/-- Every request answers the signals it takes out of a pending set. -/
theorem dispatch_signalsOk {start : List Event} {debt : Event → Prop} (r : Request) :
    Keeps (World.SignalsOk start debt) (dispatch r) := fun _ hw =>
  dispatch_keeps_of terminateProcess_keeps_blind (fun _ => finishSyscall_signalsOk)
    doNanosleep_keeps r hw
    fun pid _ _ hsys => jobCall_keeps pid hsys _ hw

/-- The pending sets agree with the trace in every reachable state. -/
theorem Reachable.signalsOk {w : World} (h : Reachable w) : w.SignalsOk w.trace fun _ => False := by
  have hrun : w.SignalsOk [] fun _ => True := by
    refine Reachable.invariant ?_ ?_ w h
    · intro w w' path hi hr
      have hnone : ∀ pid, w.pendingOf pid = none := by
        intro pid
        rw [World.pendingOf, World.task?, hi.noTasks]
        rfl
      have hstart : w.SignalsOk [] fun _ => True := by
        refine ⟨⟨[], hi.noTrace, fun _ => trivial⟩, fun pid p hp => ?_, fun pid p hp => ?_,
          fun pid signum _ => ?_⟩
        · cases (hnone pid).symm.trans hp
        · cases (hnone pid).symm.trans hp
        · show pendingAfter pid signum w.trace = false
          rw [hi.noTrace]
          rfl
      have hload := loadInit_keeps_blind (I := World.SignalsOk [] fun _ => True) path w hstart
      rwa [hr] at hload
    · intro w r w' _ hw hs
      rw [← hs.2]
      exact dispatch_signalsOk r w hw
  exact ⟨⟨[], (List.append_nil _).symm, fun _ => trivial⟩, hrun.pending, hrun.below, hrun.fresh⟩

/-- The request that led from `w` to `w'` lost no signal. Its events `tail` say how each pending
set changed, and every event that takes out a signal is followed by its answer. -/
def NoSignalLost (w w' : World) : Prop :=
  ∃ tail, w'.trace = w.trace ++ tail ∧
    (∀ pre e post, tail = pre ++ e :: post → e.needs → ∃ a ∈ post, a.answers e) ∧
    ∀ pid t t', w.task? pid = some t → w'.task? pid = some t' → ∀ i, i < 64 →
      t'.signal.signalPending.getLsbD i
        = tail.foldl (Event.replay pid (i + 1)) (t.signal.signalPending.getLsbD i)

/-- In every run in which no signal was dropped by a branch that `signalDropped` marks, every
request accounts for the signals it takes out of a pending set. -/
theorem no_signal_lost (w : World) (r : Request) (h : Reachable w)
    (hdropped : (w.after r).signalDropped = false) : NoSignalLost w (w.after r) := by
  have hstart := h.signalsOk
  have hend : (w.after r).SignalsOk w.trace fun _ => False := dispatch_signalsOk r w hstart
  obtain ⟨tail, htrace, hans⟩ := hend.history
  refine ⟨tail, htrace, fun pre e post htail hn => (hans hdropped).answered htail hn, ?_⟩
  intro pid t t' ht ht' i hi
  have hpending : ∀ {v : World} {s : TaskStruct}, v.task? pid = some s →
      v.signalView.pending pid = some s.signal.signalPending := fun {v s} hs => by
    show (v.task? pid).map _ = _
    rw [hs]
    rfl
  have hold := hstart.pending pid _ (hpending ht) i hi
  have hnew := hend.pending pid _ (hpending ht') i hi
  rw [hnew, htrace, pendingAfter, List.foldl_append, hold]
  rfl

/-- `init` without a handler for `SIGTERM` sends it to its child, which is ended by it on its next
call. -/
theorem no_signal_lost_sigterm :
    let w := sampleFork.after (.syscall 1 (.kill 2 15))
    Event.terminated 2 143 ∈ (w.after (.syscall 2 .setsid)).trace ∧
    NoSignalLost w (w.after (.syscall 2 .setsid)) :=
  ⟨by decide +kernel,
    no_signal_lost _ _ (sampleFork_reachable.after (by decide +kernel)) (by decide +kernel)⟩

/-- The server when `init` has blocked `SIGTERM` and sent it to itself. -/
def sampleTerm : World :=
  ((sampleBoot.after (.syscall 1 (.userWrite 0x3ffff000 [0, 0x40, 0, 0, 0, 0, 0, 0]))).after
    (.syscall 1 (.rtSigprocmask SIG_BLOCK 0x3ffff000 0 8))).after (.syscall 1 (.kill 1 15))

/-- The sample with a `SIGTERM` is reachable. -/
theorem sampleTerm_reachable : Reachable sampleTerm :=
  ((sampleBoot_reachable.after (by decide +kernel)).after (by decide +kernel)).after
    (by decide +kernel)

/-- `rt_sigsuspend` with an empty mask takes the pending `SIGTERM` of `init`, and nothing comes
of it. -/
theorem sigsuspend_swallows_sigterm : Reachable sampleTerm ∧
    ¬ NoSignalLost sampleTerm (sampleTerm.after (.syscall 1 (.rtSigsuspend 0x3ffff008 8))) := by
  refine ⟨sampleTerm_reachable, ?_⟩
  rintro ⟨tail, htrace, hans, _⟩
  have htrace' : (sampleTerm.after (.syscall 1 (.rtSigsuspend 0x3ffff008 8))).trace
      = sampleTerm.trace ++ [.dequeued 1 15 SignalAction.default] := by decide +kernel
  have htail : tail = [.dequeued 1 15 SignalAction.default] :=
    List.append_cancel_left (htrace.symm.trans htrace')
  have hneeds : (Event.dequeued 1 15 SignalAction.default).needs := by
    show SignalAction.default.ignores 15 = false
    decide
  obtain ⟨a, ha, _⟩ := hans [] _ [] htail hneeds
  cases ha

end Ape
