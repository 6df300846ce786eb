import Ape.Proofs.Ioctl
import Ape.Proofs.Unblockable

/-!
# `Ape.Proofs.Actions`: the action of a signal is the one that was set last

A process sets the action of a signal with `rt_sigaction`, from its memory, and gets the old one
back into its memory. Between two such calls anything may happen: calls of this and of other
processes, faults, forks, `execve`. None of it changes the action, and each time the signal is
taken out of the pending set of the process it is this action that goes with it
(`dispatch_actionKept`).

`sigaction_round_trip` joins the two ends.
-/

set_option autoImplicit false

namespace Ape

open Ape.Lib Cmd

/-! ### The action between two calls -/

/-- The action of `signum` is `a` as long as the process is there, and `a` went with every `signum`
of the process that was dequeued after the first `n` events. The process is not a future one. -/
structure ActionView.Kept (pid signum : Nat) (a : SignalAction) (n : Nat) (v : ActionView) :
    Prop where
  old : pid < v.nextPid
  held : ∀ t, v.actions pid = some t → t.get? signum = some a
  since : n ≤ v.trace.length
  taken : ∀ a', Event.dequeued pid signum a' ∈ v.trace.drop n → a' = a

/-- The signals of the process are taken with the action from the `n`th event on, and it is the one
that is set. -/
def World.ActionKept (pid signum : Nat) (a : SignalAction) (n : Nat) (w : World) : Prop :=
  w.actionView.Kept pid signum a n

/-- The request sets the action of `signum` of the process. -/
def Request.SetsAction (pid signum : Nat) : Request → Prop
  | .syscall q (.rtSigaction s act _ _) => q = pid ∧ s = signum ∧ act ≠ 0
  | _ => False

section Kept

variable {pid signum n : Nat} {a : SignalAction}

instance : BlindSlots (World.ActionKept pid signum a n) :=
  BlindSlots.comp (V := World.actionView) _ inferInstance

instance : BlindSignals (World.ActionKept pid signum a n) :=
  BlindSignals.comp (V := World.actionView) _ inferInstance

instance : BlindHosts (World.ActionKept pid signum a n) :=
  BlindHosts.comp (V := World.actionView) _ inferInstance

instance : BlindRest (World.ActionKept pid signum a n) :=
  BlindRest.comp (V := World.actionView) _ inferInstance

instance : BlindStops (World.ActionKept pid signum a n) :=
  BlindStops.comp (V := World.actionView) _ inferInstance

instance : BlindJobs (World.ActionKept pid signum a n) :=
  BlindJobs.comp (V := World.actionView) _ inferInstance

instance : BlindWaits (World.ActionKept pid signum a n) :=
  BlindWaits.comp (V := World.actionView) _ inferInstance

instance : BlindSleeps (World.ActionKept pid signum a n) :=
  BlindSleeps.comp (V := World.actionView) _ inferInstance

instance : BlindCaller (World.ActionKept pid signum a n) :=
  BlindCaller.comp (V := World.actionView) _ inferInstance

instance : BlindFiles (World.ActionKept pid signum a n) :=
  BlindFiles.comp (V := World.actionView) _ inferInstance

instance : BlindMemory (World.ActionKept pid signum a n) :=
  BlindMemory.comp (V := World.actionView) _ inferInstance

/-- The event is no dequeue of the signal, or one with the action. -/
theorem emit_actionKept {e : Event} (he : ∀ a', e = .dequeued pid signum a' → a' = a) :
    Keeps (World.ActionKept pid signum a n) (emit e) := by
  intro w h
  have hlen : n ≤ w.trace.length := h.since
  refine ⟨h.old, h.held, ?_, ?_⟩
  · show n ≤ (w.trace ++ [e]).length
    rw [List.length_append]
    omega
  · intro a' ha'
    have hmem : Event.dequeued pid signum a' ∈ (w.trace ++ [e]).drop n := ha'
    rw [List.drop_append_of_le_length hlen, List.mem_append, List.mem_singleton] at hmem
    rcases hmem with hmem | heq
    · exact h.taken a' hmem
    · exact he a' heq.symm

instance : TraceKeeps (World.ActionKept pid signum a n) where
  emit e he := emit_actionKept fun a' heq => by
    have hquiet := he.quiet
    rw [heq] at hquiet
    cases hquiet

instance : EndKeeps (World.ActionKept pid signum a n) where
  ended _ _ := emit_actionKept fun _ heq => by cases heq

instance : SuspendKeeps (World.ActionKept pid signum a n) where
  suspended _ := emit_actionKept fun _ heq => by cases heq

instance : QueuedKeeps (World.ActionKept pid signum a n) where
  queued _ _ := emit_actionKept fun _ heq => by cases heq

instance : FillKeeps (World.ActionKept pid signum a n) where
  filled _ := emit_actionKept fun _ heq => by cases heq

/-- The action that goes with a dequeued signal is the one in the table. -/
instance (q : Nat) : PopKeeps (World.ActionKept pid signum a n) q where
  pop mask := by
    unfold popPendingSignalFromMask
    refine Triple.keeps (Triple.bind (getProcess_task q) fun t => ?_)
    refine Triple.of_pre fun w₀ h₀ => ?_
    obtain ⟨hkept, ht⟩ := h₀
    refine Triple.pre (K := World.ActionKept pid signum a n) (Keeps.triple ?_) fun w heq => by
      rw [heq]
      exact hkept
    split
    · exact Keeps.pure _
    refine Keeps.bind (modifySignal_frames q _).keepsProp fun _ => ?_
    refine Keeps.bind (emit_actionKept fun a' heq => ?_) fun _ => Keeps.pure _
    injection heq with hpid hsig haction
    subst hpid
    subst hsig
    rw [← haction]
    rw [TaskStruct.signalAction, hkept.held t.signalActions (World.actionsOf_of_task ht)]
    rfl

instance : ContKeeps (World.ActionKept pid signum a n) where
  cont q := killCont_keeps_of fun _ => Keeps.bind (Keeps.gets _) fun _ => Keeps.whenSome fun _ =>
    Keeps.bind (modifySignal_frames q _).keepsProp fun _ =>
      Keeps.when (emit_actionKept fun _ heq => by cases heq)

/-- A new process is another one. -/
instance : ProcessKeeps (World.ActionKept pid signum a n) where
  erase w q h _ := by
    refine ⟨h.old, ?_, h.since, h.taken⟩
    intro t ht
    have ht' : ((w.tasks.erase q).get? pid).map (·.signalActions) = some t := ht
    rw [OrdMap.get?_erase] at ht'
    split at ht'
    · cases ht'
    · exact h.held t ht'
  register w parentPid cnode h := by
    -- the process is older than the one that is registered, so its record is another one
    have hlt : pid < w.nextPid := h.old
    have hne : pid ≠ w.nextPid := by omega
    refine ⟨Nat.lt_succ_of_lt hlt, ?_, h.since, h.taken⟩
    intro t ht
    have ht' : ((w.registered parentPid cnode).tasks.get? pid).map (·.signalActions) = some t := ht
    rw [World.registered, OrdMap.get?_insert_ne _ _ hne] at ht'
    exact h.held t ht'
  inherit w child parent q h hfork := by
    refine ⟨h.old, ?_, h.since, h.taken⟩
    intro t ht
    have ht' : ((w.tasks.modify child (·.inherit parent)).get? pid).map (·.signalActions) =
      some t := ht
    rw [OrdMap.get?_modify] at ht'
    split at ht'
    · -- the child starts without actions, so it is not the process
      rename_i heq
      subst heq
      obtain ⟨-, l, cnode, hrecord⟩ := hfork.2
      obtain ⟨t₀, ht₀, hnew⟩ := World.task?_of_record hrecord
      have hnone : t₀.signalActions = OrdMap.empty := congrArg TaskStruct.signalActions hnew
      have hsome := h.held t₀.signalActions (World.actionsOf_of_task ht₀)
      rw [hnone] at hsome
      cases hsome
    · exact h.held t ht'
  panicked w b h := h

/-- `rt_sigaction` of another process, for another signal, or without a new action. -/
theorem doRtSigaction_actionKept {q s act : Nat} (hother : q = pid → s = signum → act = 0)
    (oldact size : Nat) :
    Keeps (World.ActionKept pid signum a n) (doRtSigaction q s act oldact size) := by
  unfold doRtSigaction
  refine Keeps.ite (by simp) (Keeps.bind (by simp) fun _ => ?_)
  by_cases hact : act = 0
  · rw [if_pos hact]
    exact Keeps.pure _
  rw [if_neg hact]
  refine Keeps.ite (by simp) (Keeps.bind (by simp [readSigaction]) fun action => ?_)
  refine Keeps.bind (by simp) fun _ => Keeps.bind ?_ fun _ => Keeps.pure _
  -- the process that sets the action, and the table that it changes, are left
  intro w h
  refine ⟨h.old, ?_, h.since, h.taken⟩
  intro t ht
  have ht' : ((w.tasks.modify q _).get? pid).map (·.signalActions) = some t := ht
  rw [OrdMap.get?_modify] at ht'
  split at ht'
  · rename_i heq
    have hne : signum ≠ s := fun hs => hact (hother heq.symm hs.symm)
    rw [Option.map_map] at ht'
    obtain ⟨t₀, ht₀, rfl⟩ := Option.map_eq_some_iff.mp ht'
    show (t₀.signalActions.insert s _).get? signum = some a
    rw [OrdMap.get?_insert_ne _ _ hne]
    exact h.held t₀.signalActions (World.actionsOf_of_task ht₀)
  · exact h.held t ht'

/-- A request that does not set the action keeps it. -/
theorem dispatch_actionKept {r : Request} (hr : ¬ r.SetsAction pid signum) :
    Keeps (World.ActionKept pid signum a n) (dispatch r) := by
  intro w hw
  have hterm : ∀ q code, Keeps (World.ActionKept pid signum a n) (terminateProcess q code) :=
    terminateProcess_keeps_blind
  have hw' : World.ActionKept pid signum a n { w with activeCallerPid := r.caller } := hw
  refine dispatch_at_of_handle ?_
  cases r with
  | syscall q sys =>
    refine handleSyscall_keeps_at (finishSyscall_keeps (hterm q) sys) ?_
    refine routeSyscall_keeps_but hterm q sys hw' (fun hmem => memoryCall_keeps_blind q hmem _ hw')
      (fun hjob => jobCall_keeps q hjob _ hw')
        (fun _ _ _ hsys => hsys ▸ doWait4_keeps _ _ _ _ _ hw')
      (fun req rem hsys => hsys ▸ doNanosleep_keeps q req rem _ hw')
      (fun target sig hsys => hsys ▸ doKill_keeps hterm q target sig _ hw') (fun hdeq => ?_)
      fun s act oldact size hsys => ?_
    -- a dequeue is logged with the action that is held
    · cases sys with
      | rtSigtimedwait => exact DequeueKeeps.timedwait _ _ _ _ _ hw'
      | rtSigsuspend => exact DequeueKeeps.suspend _ _ _ hw'
      | _ => cases hdeq
    · subst hsys
      refine doRtSigaction_actionKept (fun hq hs => ?_) oldact size _ hw'
      by_contra hact
      exact hr ⟨hq, hs, hact⟩
  | pageFault q addr cause =>
    rw [handle_pageFault_state]
    exact pageFault_keeps_blind q (hterm q) _ _ _ hw'
  | fault q kind => exact Keeps.bind (hterm _ _) (fun _ => Keeps.pure _) _ hw'
  | sleepDone q requestId =>
    exact Keeps.bind (SleepsKeeps.complete _ _) (fun _ => Keeps.pure _) _ hw'

/-- A run in which the action is not set again keeps it. -/
theorem run_actionKept {rs : List Request} (hrs : ∀ r ∈ rs, ¬ r.SetsAction pid signum) {w : World}
    (hw : w.ActionKept pid signum a n) : (rs.foldl World.after w).ActionKept pid signum a n := by
  induction rs generalizing w with
  | nil => exact hw
  | cons r rs ih =>
    exact ih (fun r' hr' => hrs r' (List.mem_cons_of_mem r hr'))
      (dispatch_actionKept (hrs r List.mem_cons_self) w hw)

end Kept

/-! ### One call -/

/-- The action in 32 bytes of user memory. -/
def SignalAction.ofBytes (raw : List UInt8) : SignalAction :=
  ⟨leNat (raw.take 8), leNat ((raw.drop 8).take 8), leNat ((raw.drop 16).take 8),
    BitVec.ofNat 64 (leNat (raw.drop 24))⟩

/-- The action that `rt_sigaction` keeps of one that it reads. -/
def SignalAction.blockable (a : SignalAction) : SignalAction :=
  { a with mask := a.mask &&& ~~~SIGNAL_UNBLOCKABLE_MASK }

/-- The action of a signal, the default one of a process that has none. -/
def World.actionOf (w : World) (pid signum : Nat) : SignalAction :=
  (((w.actionsOf pid).getD OrdMap.empty).get? signum).getD SignalAction.default

/-- The memory of the process once `rt_sigaction` has stored the old action at `oldact`. -/
def World.withOldAction (w : World) (pid signum oldact : Nat) : Memory :=
  if oldact = 0 then w.userByte pid
  else overlay (w.userByte pid) oldact (w.actionOf pid signum).bytes

/-- `rt_sigaction` of `signum` took `w` to `w'`. The old action is stored before the new one is
read. -/
structure World.Exchanged (w : World) (pid signum act oldact : Nat) (w' : World) : Prop where
  stored : w.Reads pid (w.withOldAction pid signum oldact) w'
  kept : act = 0 → w'.actionView = w.actionView
  set : act ≠ 0 → ∃ raw, raw.length = 32 ∧
    Memory.HoldsBytes (w.withOldAction pid signum oldact) act raw ∧ w'.nextPid = w.nextPid ∧
    w'.trace = w.trace ∧ ∃ t, w'.actionsOf pid = some t ∧
      t.get? signum = some (SignalAction.ofBytes raw).blockable

/-- An action has thirty-two bytes. -/
theorem SignalAction.length_bytes (a : SignalAction) : a.bytes.length = 32 := by
  simp [SignalAction.bytes]

/-- An action is stored as it was read, up to the two bits of its mask. -/
theorem SignalAction.bytes_blockable {raw : List UInt8} (hlen : raw.length = 32) :
    (SignalAction.ofBytes raw).blockable.bytes =
      raw.take 24 ++ leBytes 8 (BitVec.ofNat 64 (leNat (raw.drop 24)) &&&
        ~~~SIGNAL_UNBLOCKABLE_MASK).toNat := by
  have hword : ∀ bs : List UInt8, bs.length = 8 → leBytes 8 (leNat bs) = bs :=
    fun bs hbs => hbs ▸ leBytes_leNat bs
  have hsplit : raw.take 24 = raw.take 8 ++ (raw.drop 8).take 8 ++ (raw.drop 16).take 8 := by
    rw [show 24 = 16 + 8 from rfl, List.take_add, show 16 = 8 + 8 from rfl, List.take_add]
  rw [hsplit]
  show leBytes 8 (leNat (raw.take 8)) ++ leBytes 8 (leNat ((raw.drop 8).take 8)) ++
    leBytes 8 (leNat ((raw.drop 16).take 8)) ++ _ = _
  rw [hword _ (by simp [hlen]), hword _ (by simp [hlen]), hword _ (by simp [hlen])]
  rfl

section Call

variable {w : World} {pid signum act oldact : Nat}

/-- The action of a process that is there. -/
theorem World.actionOf_task {t : TaskStruct} (h : w.task? pid = some t) (signum : Nat) :
    w.actionOf pid signum = t.signalAction signum := by
  rw [World.actionOf, World.actionsOf_of_task h]
  rfl

/-- The old action is stored first. -/
theorem storeOld_serving {mm : MmState} (hsound : mm.Sound) (hmm : w.mms.get? pid = some mm)
    (hold : oldact ≠ 0 → ∀ x, oldact ≤ x → x < oldact + 32 → ¬ mm.Reserved x) :
    Triple (w.Serving pid World.actionView w.actionView (w.userByte pid))
      (when (oldact ≠ 0) do
        let task ← getProcess pid
        copyToUser pid oldact (task.signalAction signum).bytes)
      (fun _ => w.Serving pid World.actionView w.actionView (w.withOldAction pid signum oldact))
      (fun _ _ => True) := by
  refine Triple.when ?_ ?_
  · intro hne
    refine Triple.bind ((getProcess_task pid).errors
      fun _ _ _ => trivial) fun t => Triple.of_pre fun v hv => ?_
    have haction : t.signalAction signum = w.actionOf pid signum := by
      have hactions : v.actionsOf = w.actionsOf := congrArg ActionView.actions hv.1.view
      rw [← World.actionOf_task hv.2, World.actionOf, hactions, World.actionOf]
    have hlen := SignalAction.length_bytes (w.actionOf pid signum)
    rw [haction, World.withOldAction, if_neg hne]
    refine (copyToUser_serving hsound hmm (by rw [hlen]; exact hold hne)).imp (fun v' h => ?_)
      (fun _ _ h => h) fun _ _ _ => trivial
    rw [h]
    exact hv.1
  · intro v hzero h
    rw [World.withOldAction, if_pos (by simpa using hzero)]
    exact h

/-- What a call of `rt_sigaction` that succeeds has done. -/
theorem doRtSigaction_exchanged {w' : World} {a n : Nat} (hbuf : w.Buffer pid a n)
    (hold : oldact ≠ 0 → w.Buffer pid oldact 32) (hact : act ≠ 0 → w.Buffer pid act 32)
    (h : (doRtSigaction pid signum act oldact 8).run w = (.ok 0, w')) :
    w.Exchanged pid signum act oldact w' := by
  obtain ⟨mm, hmm, hsound, -⟩ := hbuf.tables
  have hcall : Triple (w.Serving pid World.actionView w.actionView (w.userByte pid))
      (doRtSigaction pid signum act oldact 8)
      (fun ret w' => ret = 0 → w.Exchanged pid signum act oldact w') (fun _ _ => True) := by
    have hinval : ∀ {P : World → Prop}, Triple P (pure (-EINVAL) : M Int)
        (fun ret w' => ret = 0 → w.Exchanged pid signum act oldact w') (fun _ _ => True) :=
      Triple.pure fun _ _ hret => by cases hret
    -- the old action is stored first, then the new one is read and put into the table
    unfold doRtSigaction
    refine Triple.ite (fun _ => hinval) fun _ => ?_
    refine Triple.bind (storeOld_serving hsound hmm fun hne => (hold hne).outside hmm) fun _ => ?_
    refine Triple.ite (fun hzero => Triple.pure ?_) ?_
    · intro v hv _
      exact ⟨hv.reads, fun _ => hv.view, fun hne => absurd hzero hne⟩
    intro hne
    refine Triple.ite (fun _ => hinval) fun _ => ?_
    refine Triple.bind (R := fun action v => (∃ raw, raw.length = 32 ∧
      Memory.HoldsBytes (w.withOldAction pid signum oldact) act raw ∧
      action = SignalAction.ofBytes raw) ∧ w.Serving pid World.actionView w.actionView
        (w.withOldAction pid signum oldact) v) ?_ ?_
    · refine Triple.bind ((copyFromUser_serving hsound hmm ((hact hne).outside hmm)).errors
        fun _ _ _ => trivial) fun raw => Triple.pure fun v hv => ?_
      exact ⟨⟨raw, hv.1.1, hv.1.2, rfl⟩, hv.2⟩
    intro action
    refine Triple.of_fact fun hraw => ?_
    obtain ⟨raw, hlen, hholds, rfl⟩ := hraw
    refine Triple.bind ((getProcess_task pid).errors fun _ _ _ => trivial) fun t => ?_
    refine Triple.bind (R := fun _ => w.Exchanged pid signum act oldact)
      (Triple.modify fun v hv => ?_) fun _ => Triple.pure fun _ hv _ => hv
    -- the store changes the memory, and the last step only the table of actions
    obtain ⟨hv, ht⟩ := hv
    refine ⟨hv.reads.congr ?_, fun hzero => absurd hzero hne, fun _ => ?_⟩
    · exact congrArg (·, v.frames) (v.mms_modifyTask pid fun _ => rfl)
    refine ⟨raw, hlen, hholds, congrArg ActionView.nextPid hv.view,
      congrArg ActionView.trace hv.view,
      t.signalActions.insert signum (SignalAction.ofBytes raw).blockable, ?_,
      OrdMap.get?_insert_self _ _ _⟩
    have hget : v.tasks.get? pid = some t := ht
    show ((v.tasks.modify pid _).get? pid).map (·.signalActions) = _
    rw [OrdMap.get?_modify, if_pos rfl, hget]
    rfl
  have hdone := (hcall w (World.Serving.start hbuf.frames)).1 0
  rw [h] at hdone
  exact hdone rfl rfl

end Call

/-! ### From one call to the next -/

/-- A process with a buffer is there. -/
theorem World.Buffer.task {w : World} {pid a n : Nat} (h : w.Buffer pid a n) :
    ∃ t, w.task? pid = some t := by
  obtain ⟨mm, hmm, -⟩ := h.tables
  rw [World.mms, OrdMap.get?_mapValues] at hmm
  obtain ⟨t, ht, -⟩ := Option.map_eq_some_iff.mp hmm
  exact ⟨t, ht⟩

/-- The state in which the call of `pid` starts. -/
def World.called (w : World) (pid : Nat) : World := { w with activeCallerPid := some pid }

/-- A buffer stays one when its process calls. -/
theorem World.Buffer.called {w : World} {pid a n : Nat} (h : w.Buffer pid a n) :
    (w.called pid).Buffer pid a n :=
  ⟨(BlindCaller.caller w _).mpr h.frames, h.tables⟩

section Exchange

variable {w w' : World} {pid signum act oldact : Nat}

/-- The action that was set is kept from here on. -/
theorem World.Exchanged.actionKept (hdone : w.Exchanged pid signum act oldact w') (hact : act ≠ 0)
    (hold : pid < w.nextPid) :
    ∃ raw, raw.length = 32 ∧ Memory.HoldsBytes (w.withOldAction pid signum oldact) act raw ∧
      w'.ActionKept pid signum (SignalAction.ofBytes raw).blockable w.trace.length := by
  obtain ⟨raw, hlen, hholds, hnext, htrace, t, ht, hentry⟩ := hdone.set hact
  refine ⟨raw, hlen, hholds, ?_⟩
  refine ⟨by rw [World.actionView, hnext]; exact hold, fun t' ht' => ?_, ?_, fun a ha => ?_⟩
  · have ht₂ : w'.actionsOf pid = some t' := ht'
    rw [ht] at ht₂
    cases ht₂
    exact hentry
  · rw [World.actionView, htrace]
  · rw [World.actionView, htrace, List.drop_length] at ha
    cases ha

/-- What the old action is, when an action is kept. -/
theorem World.ActionKept.actionOf {a : SignalAction} {n : Nat} {t : TaskStruct}
    (h : w.ActionKept pid signum a n) (ht : w.task? pid = some t) : w.actionOf pid signum = a := by
  rw [World.actionOf, World.actionsOf_of_task ht]
  show (t.signalActions.get? signum).getD _ = a
  rw [h.held t.signalActions (World.actionsOf_of_task ht)]
  rfl

/-- The request that set the action keeps it to its end, the signals that its return consumes
included. -/
theorem after_sigaction_actionKept {a : SignalAction} {n : Nat}
    (hcall : ((doRtSigaction pid signum act oldact 8).run (w.called pid)).2.ActionKept
      pid signum a n) :
    (w.after (.syscall pid (.rtSigaction signum act oldact 8))).ActionKept pid signum a n := by
  refine dispatch_at_of_handle ?_
  exact handleSyscall_keeps_at (finishSyscall_keeps (terminateProcess_keeps_blind pid) _) hcall

end Exchange

/-- The action that a process set last is the one in force. After `rt_sigaction` has taken an action
from the memory of a process, and any requests that do not set the action of this signal for this
process, every `signum` of the process that was dequeued in the meantime went with this action, and
the next `rt_sigaction` stores it as the old one: the bytes that were read, with `SIGKILL` and
`SIGSTOP` taken out of the mask. Each call stores the old action before it reads the new one, so one
buffer for both leaves the action as it is. -/
theorem sigaction_round_trip {w₁ w₁' w₂ w₂' : World} {pid signum act old new q : Nat}
    {rs : List Request} (h : Reachable w₁) (hact : act ≠ 0) (hq : q ≠ 0)
    (hbuf : w₁.Buffer pid act 32) (hbuf' : old ≠ 0 → w₁.Buffer pid old 32)
    (hbuf₂ : new ≠ 0 → w₂.Buffer pid new 32) (hbuf₂' : w₂.Buffer pid q 32)
    (hset : (doRtSigaction pid signum act old 8).run (w₁.called pid) = (.ok 0, w₁'))
    (hrs : ∀ r ∈ rs, ¬ r.SetsAction pid signum)
    (hrun : w₂ = rs.foldl World.after (w₁.after (.syscall pid (.rtSigaction signum act old 8))))
    (hget : (doRtSigaction pid signum new q 8).run (w₂.called pid) = (.ok 0, w₂')) :
    ∃ raw, raw.length = 32 ∧ Memory.HoldsBytes (w₁.withOldAction pid signum old) act raw ∧
      (∀ a, Event.dequeued pid signum a ∈ w₂.trace.drop w₁.trace.length →
        a = (SignalAction.ofBytes raw).blockable) ∧
      w₂.Reads pid (overlay (w₂.userByte pid) q (raw.take 24 ++ leBytes 8 (BitVec.ofNat 64
        (leNat (raw.drop 24)) &&& ~~~SIGNAL_UNBLOCKABLE_MASK).toNat)) w₂' := by
  obtain ⟨t₁, ht₁⟩ := hbuf.task
  have hdone := doRtSigaction_exchanged hbuf.called (fun hne => (hbuf' hne).called)
    (fun _ => hbuf.called) hset
  have hold : pid < w₁.nextPid := h.pidsBelow pid (by rw [World.live, ht₁]; rfl)
  obtain ⟨raw, hlen, hholds, hkept₁⟩ := hdone.actionKept hact hold
  have hkept₂ : w₂.ActionKept pid signum (SignalAction.ofBytes raw).blockable w₁.trace.length := by
    rw [hrun]
    refine run_actionKept hrs (after_sigaction_actionKept ?_)
    rw [hset]
    exact hkept₁
  refine ⟨raw, hlen, hholds, hkept₂.taken, ?_⟩
  obtain ⟨t₂, ht₂⟩ := hbuf₂'.task
  have hstored := (doRtSigaction_exchanged hbuf₂'.called (fun _ => hbuf₂'.called)
    -- the second call stores what the table holds, and that is the first one's action
    (fun hne => (hbuf₂ hne).called) hget).stored
  rw [World.withOldAction, if_neg hq] at hstored
  have hthis : (w₂.called pid).actionOf pid signum = (SignalAction.ofBytes raw).blockable :=
    hkept₂.actionOf ht₂
  rw [hthis, SignalAction.bytes_blockable hlen] at hstored
  exact hstored

/-- `init` has a handler for its signal 10. -/
def sampleActions : World := sampleBoot.after (.syscall 1 (.userWrite 0x3ffff800
  (leBytes 8 0x10000 ++ leBytes 8 0 ++ leBytes 8 0x10100 ++ leBytes 8 (2 ^ 63 + 2 ^ 8))))

/-- The sample with an action is reachable. -/
theorem sampleActions_reachable : Reachable sampleActions :=
  sampleBoot_reachable.after (by decide +kernel)

/-- The state after `init` has set the action and has sent the signal to itself. -/
def sampleHandled : World := [Request.syscall 1 (.kill 1 10)].foldl World.after
  (sampleActions.after (.syscall 1 (.rtSigaction 10 0x3ffff800 0 8)))

/-- `init` sends the signal to itself, and asks for the action after that. -/
theorem sigaction_round_trip_sampleActions :
    ∃ raw, raw.length = 32 ∧ Memory.HoldsBytes (sampleActions.userByte 1) 0x3ffff800 raw ∧
      Event.dequeued 1 10 (SignalAction.ofBytes raw).blockable ∈ sampleHandled.trace ∧
      ∀ x, ((doRtSigaction 1 10 0 0x3ffff900 8).run (sampleHandled.called 1)).2.userByte 1 x =
        overlay (sampleHandled.userByte 1) 0x3ffff900 (raw.take 24 ++ leBytes 8
          (BitVec.ofNat 64 (leNat (raw.drop 24)) &&& ~~~SIGNAL_UNBLOCKABLE_MASK).toNat) x := by
  have hset : ((doRtSigaction 1 10 0x3ffff800 0 8).run (sampleActions.called 1)).1 = .ok 0 := by
    decide +kernel
  have hget : ((doRtSigaction 1 10 0 0x3ffff900 8).run (sampleHandled.called 1)).1 = .ok 0 := by
    decide +kernel
  have hframes : FrameInv sampleHandled :=
    ((sampleActions_reachable.after (by decide +kernel)).after (by decide +kernel)).frameInv
  have hother : ∀ r ∈ [Request.syscall 1 (.kill 1 10)], ¬ r.SetsAction 1 10 := by
    intro r hr hsets
    rcases List.mem_singleton.mp hr with rfl
    exact hsets
  obtain ⟨raw, hlen, hholds, htaken, hreads⟩ :=
    @sigaction_round_trip sampleActions _ sampleHandled _
    1 10 0x3ffff800 0 0 0x3ffff900 _ sampleActions_reachable (by decide) (by decide)
      (World.buffer_of_check sampleActions_reachable.frameInv (by decide +kernel))
    (fun hne => absurd rfl hne) (fun hne => absurd rfl hne)
    (World.buffer_of_check hframes (by decide +kernel)) (Prod.ext hset rfl) hother rfl
    (Prod.ext hget rfl)
  refine ⟨raw, hlen, hholds, ?_, hreads.2.2⟩
  -- the run does take the signal, so the clause about its action is not empty
  have hmem : Event.dequeued 1 10 ⟨0x10000, 0, 0x10100, 0x8000000000000000⟩ ∈
      sampleHandled.trace.drop sampleActions.trace.length := by decide +kernel
  rw [← htaken _ hmem]
  exact List.mem_of_mem_drop hmem

end Ape
