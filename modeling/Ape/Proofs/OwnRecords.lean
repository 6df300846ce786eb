import Ape.Proofs.ProcessTable

/-!
# `Ape.Proofs.OwnRecords`: what a process keeps for itself

The record of a process holds its descriptors, its directories, its signal actions, its session and
the numbers it was created with. Only the process changes these, and only with the calls that are
there for it. Everything else that reaches its record leaves them alone: the requests of the other
processes, which can queue signals for it, stop it, move it to another group, wake it, fork and use
pids of their own, and its own faults and remaining calls.

`run_keeps_own` says so for every run. As a pid is not given out twice, a process that is there at
the end of the run was there all along.
-/

set_option autoImplicit false

namespace Ape

open Ape.Lib Cmd

/-- The part of a record that belongs to its process. -/
structure OwnRecord where
  pid : Nat
  parentPid : Nat
  sessionId : Nat
  cspace : Nat
  files : FilesState
  fs : FsState
  signalActions : OrdMap Nat SignalAction

/-- What a process keeps for itself. -/
def TaskStruct.own (t : TaskStruct) : OwnRecord :=
  ⟨t.pid, t.parentPid, t.sessionId, t.cspace, t.files, t.fs, t.signalActions⟩

/-- The next pid and what belongs to the processes. -/
structure OwnView where
  nextPid : Nat
  records : Nat → Option OwnRecord

/-- The next number and what the processes keep for themselves. -/
def World.ownView (w : World) : OwnView := ⟨w.nextPid, fun q => (w.task? q).map (·.own)⟩

/-- The pids up to `k` were given out, and what belongs to `pid` has `P` as long as it is there. -/
structure OwnView.Holds (pid k : Nat) (P : OwnRecord → Prop) (v : OwnView) : Prop where
  old : k < v.nextPid
  held : ∀ o, v.records pid = some o → P o

/-- What is said of the process `pid` in its view. -/
def World.Own (pid k : Nat) (P : OwnRecord → Prop) (w : World) : Prop := w.ownView.Holds pid k P

/-- What is said of the own record, with the number of the next process. -/
theorem World.own_iff {w : World} {pid k : Nat} {P : OwnRecord → Prop} :
    w.Own pid k P ↔ k < w.nextPid ∧ ∀ t, w.task? pid = some t → P t.own := by
  constructor
  · intro h
    refine ⟨h.old, fun t ht => h.held t.own ?_⟩
    show (w.task? pid).map (·.own) = some t.own
    rw [ht]
    rfl
  · intro h
    refine ⟨h.1, ?_⟩
    intro o ho
    obtain ⟨t, ht, rfl⟩ := Option.map_eq_some_iff.mp ho
    exact h.2 t ht

/-- A change of a process record that leaves what belongs to the process. -/
theorem World.ownView_modifyTask (w : World) (pid : Nat) {f : TaskStruct → TaskStruct}
    (hf : ∀ t, (f t).own = t.own) : (w.modifyTask pid f).ownView = w.ownView := by
  refine congrArg (OwnView.mk w.nextPid) (funext fun q => ?_)
  rw [World.task?, World.modifyTask, OrdMap.get?_modify]
  split
  · rw [Option.map_map]
    exact congrArg (Option.map · _) (funext hf)
  · rfl

instance : BlindSlots World.ownView where
  tick _ _ := rfl
  slots _ _ := rfl
  ledger _ _ := rfl

instance : BlindTrace World.ownView := ⟨fun _ _ => rfl⟩

instance : BlindSignals World.ownView :=
  ⟨fun w pid _ => w.ownView_modifyTask pid fun _ => rfl, fun _ _ => rfl, fun _ _ => rfl⟩

instance : BlindMarks World.ownView := ⟨fun _ _ => rfl, fun _ _ => rfl⟩

instance : BlindEndpoints World.ownView where
  endpoints _ _ := rfl
  doubleClose _ _ := rfl
  asyncFree _ _ := rfl
  asyncRegions _ _ := rfl
  asyncVaddr _ _ := rfl
  iouring _ _ := rfl
  fdOverflow _ _ := rfl
  earlyRecycle _ _ := rfl

instance : BlindHosts World.ownView := ⟨fun _ _ => rfl, fun _ _ => rfl⟩

instance : BlindRest World.ownView where
  state w pid _ := w.ownView_modifyTask pid fun _ => rfl
  tty w pid _ := w.ownView_modifyTask pid fun _ => rfl

instance : BlindStops World.ownView :=
  ⟨fun w pid _ _ => w.ownView_modifyTask pid fun _ => rfl, fun _ _ => rfl, fun _ _ => rfl⟩

instance : BlindWaits World.ownView :=
  ⟨fun _ _ => rfl, fun _ _ => rfl, fun _ _ => rfl, fun _ _ => rfl, fun _ _ => rfl, fun _ _ => rfl⟩

instance : BlindSleeps World.ownView :=
  ⟨fun _ _ => rfl, fun _ _ => rfl, fun _ _ => rfl, fun _ _ => rfl⟩

instance : BlindCaller World.ownView := ⟨fun _ _ => rfl⟩

instance : BlindMemory World.ownView where
  vspace w pid _ := w.ownView_modifyTask pid fun _ => rfl
  tables w pid _ := w.ownView_modifyTask pid fun _ => rfl
  scratch _ _ _ := rfl
  writeFrame _ _ _ := rfl
  frames _ _ _ := rfl
  refs _ _ := rfl
  doubleFree _ _ := rfl
  mm w pid _ := w.ownView_modifyTask pid fun _ => rfl
  fileMapLog _ _ := rfl

/-- The calls that change what belongs to their process. -/
def Syscall.isOwn : Syscall → Bool
  | .execve .. | .rtSigaction .. | .setsid => true
  | sys => sys.isFile

/-- The calls on descriptors are calls on the own record. -/
theorem Syscall.isOwn_of_isFile {sys : Syscall} (h : sys.isFile) : sys.isOwn := by
  unfold Syscall.isOwn
  split
  · rfl
  · rfl
  · rfl
  · exact h

/-- The request is a call of the process that changes what belongs to it. -/
def Request.ChangesOwn (pid : Nat) : Request → Prop
  | .syscall q sys => q = pid ∧ sys.isOwn
  | _ => False

section Own

variable {pid k : Nat} {P : OwnRecord → Prop}

instance : BlindSlots (World.Own pid k P) := BlindSlots.comp (V := World.ownView) _ inferInstance

instance : BlindTrace (World.Own pid k P) := BlindTrace.comp (V := World.ownView) _ inferInstance

instance : BlindSignals (World.Own pid k P) :=
  BlindSignals.comp (V := World.ownView) _ inferInstance

instance : BlindMarks (World.Own pid k P) := BlindMarks.comp (V := World.ownView) _ inferInstance

instance : BlindEndpoints (World.Own pid k P) :=
  BlindEndpoints.comp (V := World.ownView) _ inferInstance

instance : BlindHosts (World.Own pid k P) := BlindHosts.comp (V := World.ownView) _ inferInstance

instance : BlindRest (World.Own pid k P) := BlindRest.comp (V := World.ownView) _ inferInstance

instance : BlindStops (World.Own pid k P) := BlindStops.comp (V := World.ownView) _ inferInstance

instance : BlindWaits (World.Own pid k P) := BlindWaits.comp (V := World.ownView) _ inferInstance

instance : BlindSleeps (World.Own pid k P) := BlindSleeps.comp (V := World.ownView) _ inferInstance

instance : BlindCaller (World.Own pid k P) := BlindCaller.comp (V := World.ownView) _ inferInstance

instance : BlindMemory (World.Own pid k P) := BlindMemory.comp (V := World.ownView) _ inferInstance

/-- A change of the record of another process. -/
theorem modifyTask_own {q : Nat} (hq : q ≠ pid) (f : TaskStruct → TaskStruct) :
    Keeps (World.Own pid k P) (modifyTask q f) := by
  intro w h
  refine ⟨h.old, fun o ho => h.held o ?_⟩
  have ho' : ((w.tasks.modify q f).get? pid).map (·.own) = some o := ho
  rwa [OrdMap.get?_modify, if_neg fun heq => hq heq.symm] at ho'

/-- What is said of one process does not see the descriptors of another. -/
theorem OwnFiles.of_ne {q : Nat} (hq : q ≠ pid) : OwnFiles (World.Own pid k P) q :=
  ⟨fun _ => modifyTask_own hq _⟩

/-- What is said of one process does not see the actions of another. -/
theorem OwnActions.of_ne {q : Nat} (hq : q ≠ pid) : OwnActions (World.Own pid k P) q :=
  ⟨fun _ _ _ _ => modifyTask_own hq _⟩

instance : EraseKeeps (World.Own pid k P) where
  erase w q h _ := by
    refine ⟨h.old, ?_⟩
    intro o ho
    have ho' : ((w.tasks.erase q).get? pid).map (·.own) = some o := ho
    rw [OrdMap.get?_erase] at ho'
    split at ho'
    · cases ho'
    · exact h.held o ho'
  panicked _ _ h := h

/-- The end of a process. Once it is gone nothing belongs to it. -/
theorem terminateProcess_own (q code : Nat) :
    Keeps (World.Own pid k P) (terminateProcess q code) := by
  by_cases hq : q = pid
  · -- it closes its own descriptors on the way, so only the next pid is kept up to the end
    subst hq
    intro w h
    have hgone := terminateProcess_gone q code w
    have hfiles : OwnFiles (World.Own q k fun _ => True) q :=
      ⟨fun _ _ h => ⟨h.old, fun _ _ => trivial⟩⟩
    have hold : World.Own q k (fun _ => True) ((terminateProcess q code).run w).2 :=
      terminateProcess_keeps_own q code w ⟨h.old, fun _ _ => trivial⟩
    refine World.own_iff.mpr ⟨hold.old, ?_⟩
    intro t ht
    rw [World.live, ht] at hgone
    cases hgone
  · have hfiles := OwnFiles.of_ne (k := k) (P := P) hq
    exact terminateProcess_keeps_own q code

/-- A new process has a pid of its own. -/
theorem registerProcess_own (hpid : pid ≤ k) (parentPid hostPid cnode : Nat) {w : World}
    (h : World.Own pid k P w) :
    World.Own pid (k + 1) P ((registerProcess parentPid hostPid cnode).run w).2 := by
  have hlt : k < w.nextPid := h.old
  refine ⟨Nat.succ_lt_succ hlt, fun o ho => h.held o ?_⟩
  have ho' : ((w.registered parentPid cnode).task? pid).map (·.own) = some o := ho
  have hne : pid ≠ w.nextPid := by omega
  rwa [World.registered, World.task?, OrdMap.get?_insert_ne _ _ hne] at ho'

/-- A fork of any process. The child is none of the processes before it. -/
theorem doFork_own (q : Nat) : Keeps (World.Own pid pid P) (doFork q) := by
  -- the registration gives one more pid out, and that is how the child is known to be another one
  refine doFork_keeps_of (J := World.Own pid (pid + 1) P)
    (fun parentPid hostPid cnode w h => registerProcess_own (le_refl _) _ _ _ h)
    (fun w h => ⟨Nat.lt_of_succ_lt h.old, h.held⟩) (fun w child parent q h hfork => ?_) q
  have hold : pid + 1 < w.nextPid := h.old
  have hchild : w.nextPid = child + 1 := hfork.2.1
  have hne : child ≠ pid := by omega
  exact modifyTask_own hne (·.inherit parent) w h

/-- `setpgid` changes the group alone, `setsid` what belongs to its process. -/
theorem jobCall_own {q : Nat} {sys : Syscall} (hsys : sys.isJob)
    (hown : ¬ (Request.syscall q sys).ChangesOwn pid) :
    Keeps (World.Own pid k P) (routeSyscall q sys) := by
  cases sys with
  | setsid =>
    have hne : q ≠ pid := fun heq => hown ⟨heq, rfl⟩
    refine Keeps.bind (Keeps.bind (by simp) fun task => Keeps.ite (by simp) ?_) fun _ => by simp
    exact Keeps.bind (modifyTask_own hne _) fun _ => by simp
  | setpgid =>
    refine Keeps.bind (by simp) fun caller => Keeps.bind (by simp) fun task => ?_
    refine Keeps.ite (by simp) ?_
    refine Keeps.bind (Keeps.when (Keeps.bind (by simp) fun _ => by simp)) fun _ =>
      Keeps.ite (by simp) (Keeps.bind (keeps_modify fun w => ?_) fun _ => by simp)
    exact congrArg (OwnView.Holds pid k P) (w.ownView_modifyTask _ fun _ => rfl)
  | _ => cases hsys

/-- A request that is not such a call of the process keeps what belongs to it. -/
theorem dispatch_own {r : Request} (hr : ¬ r.ChangesOwn pid) :
    Keeps (World.Own pid pid P) (dispatch r) := by
  intro w hw
  have hterm : ∀ q code, Keeps (World.Own pid pid P) (terminateProcess q code) :=
    terminateProcess_own
  have hw' : World.Own pid pid P { w with activeCallerPid := r.caller } := hw
  refine dispatch_at_of_handle ?_
  cases r with
  | syscall q sys =>
    -- a call that changes records of its own is a call of another process
    have hne : sys.isOwn → q ≠ pid := fun hown heq => hr ⟨heq, hown⟩
    refine handleSyscall_keeps_at (finishSyscall_keeps (hterm q) sys) ?_
    refine routeSyscall_keeps_apart hterm q sys hw' (fun hfile => ?_) (fun hmem => ?_)
      (fun hjob => jobCall_own hjob hr _ hw') (fun _ _ _ hsys => hsys ▸ doWait4_keeps _ _ _ _ _ hw')
      (fun req rem hsys => hsys ▸ doNanosleep_keeps q req rem _ hw')
      (fun target sig hsys => hsys ▸ doKill_keeps hterm q target sig _ hw') (fun hdeq => ?_)
      fun signum act oldact size hsys => ?_
    -- the calls on files, on the address space, those that dequeue, and `rt_sigaction`
    · have hfiles : OwnFiles (World.Own pid pid P) q :=
        OwnFiles.of_ne (hne (Syscall.isOwn_of_isFile hfile))
      exact fileCall_keeps q hfile _ hw'
    · refine memoryCall_keeps_of q hmem (doFork_own q) (fun filename argv envp hsys => ?_) _ hw'
      have hfiles : OwnFiles (World.Own pid pid P) q := OwnFiles.of_ne (hne (hsys ▸ rfl))
      exact doExecveUser_keeps_blind q filename argv envp
    · cases sys with
      | rtSigtimedwait => exact DequeueKeeps.timedwait _ _ _ _ _ hw'
      | rtSigsuspend => exact DequeueKeeps.suspend _ _ _ hw'
      | _ => cases hdeq
    · have hactions : OwnActions (World.Own pid pid P) q := OwnActions.of_ne (hne (hsys ▸ rfl))
      exact hsys ▸ doRtSigaction_keeps _ _ _ _ _ hw'
  | pageFault q addr cause =>
    rw [handle_pageFault_state]
    exact pageFault_keeps_blind q (hterm q) _ _ _ hw'
  | fault q kind => exact Keeps.bind (hterm _ _) (fun _ => Keeps.pure _) _ hw'
  | sleepDone q requestId =>
    exact Keeps.bind (SleepsKeeps.complete _ _) (fun _ => Keeps.pure _) _ hw'

/-- A run without calls on the own record keeps what is said of it. -/
theorem run_own {rs : List Request} (hrs : ∀ r ∈ rs, ¬ r.ChangesOwn pid) {w : World}
    (hw : World.Own pid pid P w) : World.Own pid pid P (rs.foldl World.after w) := by
  induction rs generalizing w with
  | nil => exact hw
  | cons r rs ih =>
    exact ih (fun r' hr' => hrs r' (List.mem_cons_of_mem r hr'))
      (dispatch_own (hrs r List.mem_cons_self) w hw)

end Own

/-- In a run without a call of the process that changes what belongs to it, a process that is there
at the end was there all along, with the same descriptors, directories, signal actions, session and
numbers. -/
theorem run_keeps_own {w : World} (h : Reachable w) {pid : Nat} {t : TaskStruct}
    (ht : w.task? pid = some t) {rs : List Request} (hrs : ∀ r ∈ rs, ¬ r.ChangesOwn pid)
    (hlive : (rs.foldl World.after w).live pid) {rs₁ : List Request} (hpre : rs₁ <+: rs) :
    ∃ t₁, (rs₁.foldl World.after w).task? pid = some t₁ ∧ t₁.own = t.own := by
  obtain ⟨rs₂, rfl⟩ := hpre
  have hlt : pid < w.nextPid := h.pidsBelow pid (by rw [World.live, ht]; rfl)
  have hstart : World.Own pid pid (· = t.own) w := by
    refine World.own_iff.mpr ⟨hlt, ?_⟩
    intro t' ht'
    rw [ht] at ht'
    cases ht'
    rfl
  have hmid := run_own (fun r hr => hrs r (List.mem_append_left rs₂ hr)) hstart
  cases hget : (rs₁.foldl World.after w).task? pid with
  | some t₁ => exact ⟨t₁, rfl, (World.own_iff.mp hmid).2 t₁ hget⟩
  | none =>
    -- a process that is gone does not come back
    have hgone : World.Own pid pid (fun _ => False) (rs₁.foldl World.after w) := by
      refine World.own_iff.mpr ⟨hmid.old, ?_⟩
      intro t' ht'
      rw [hget] at ht'
      cases ht'
    have hend := run_own (fun r hr => hrs r (List.mem_append_right rs₁ hr)) hgone
    rw [← List.foldl_append] at hend
    obtain ⟨t₂, ht₂⟩ := Option.isSome_iff_exists.mp hlive
    exact ((World.own_iff.mp hend).2 t₂ ht₂).elim

/-- `init` closes its standard input, forks again, moves its first child to another group and sends
it a signal, and the child forks. The child still has its three descriptors. -/
theorem run_keeps_own_sampleFork :
    let rs := [Request.syscall 1 (.close 0), .syscall 1 (.clone 17 0 0), .syscall 1 (.setpgid 2 0),
      .syscall 1 (.kill 2 17), .syscall 2 (.clone 17 0 0)]
    ∃ t t₁, sampleFork.task? 2 = some t ∧ (rs.foldl World.after sampleFork).task? 2 = some t₁ ∧
      t.files.fds.keys = [0, 1, 2] ∧ t₁.own = t.own ∧
      (rs.foldl World.after sampleFork).tasks.keys = [1, 2, 3, 4] ∧
      ((rs.foldl World.after sampleFork).filesOf 1).map (·.fds.keys) = some [1, 2] := by
  intro rs
  have hkeys : (sampleFork.task? 2).map (·.files.fds.keys) = some [0, 1, 2] := by decide +kernel
  obtain ⟨t, ht, hfds⟩ := Option.map_eq_some_iff.mp hkeys
  obtain ⟨t₁, ht₁, hown⟩ := run_keeps_own sampleFork_reachable ht
    (by simp [rs, Request.ChangesOwn, Syscall.isOwn, Syscall.isFile]) (by decide +kernel)
    (List.prefix_refl rs)
  exact ⟨t, t₁, ht, ht₁, hfds, hown, by decide +kernel, by decide +kernel⟩

end Ape
