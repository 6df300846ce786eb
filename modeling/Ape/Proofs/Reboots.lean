import Ape.Model.Reboot
import Ape.Proofs.ExecArgs
import Ape.Proofs.Ledger
import Ape.Proofs.Remains

/-!
# `Ape.Proofs.Reboots`: what a reboot leaves

A reboot ends every process but `init` and loads `init` again. A process that cannot be ended is
passed over, and the load may fail. `reboot_leaves_init` says what is left in each case: `init` at
most, no record of another process, and the frames in order. When the load succeeds, `init` starts
with the path of the configuration as its only argument.

The runs are those of `Operates`. Their invariants are those of the runs without a reboot, since a
reboot is made of the end of processes and one `execve`: `dispatchReboot_keeps`.
-/

set_option autoImplicit false

namespace Ape

open Ape.Lib Cmd

/-! ### Runs with reboots -/

section Keeps

variable {I : World → Prop} {path : String} {caller pid magic magic2 cmd : Nat}

/-- A reboot keeps what the end of a process and `execve` keep. -/
theorem doRebootRuntime_keeps [BlindCaps I] [BlindTrace I]
    (hterm : ∀ pid code, Keeps I (terminateProcess pid code))
    (hexec : ∀ pid, Keeps I (doExecve pid path [] [])) : Keeps I (doRebootRuntime path caller) := by
  unfold doRebootRuntime
  refine Keeps.bind (Keeps.gets _) fun init => Keeps.bind (Keeps.gets _) fun pids => ?_
  refine Keeps.bind (Keeps.forEach fun victim => Keeps.when (Keeps.ignore (hterm _ _))) fun _ => ?_
  refine Keeps.bind (hexec _) fun _ => Keeps.when (Keeps.bind (Keeps.gets _) fun proc => ?_)
  exact Keeps.whenSome fun _ => Keeps.ignore (by simp)

/-- What the end of processes and `execve` keep is kept by a reboot. -/
theorem doReboot_keeps [BlindCaps I] [BlindTrace I]
    (hterm : ∀ pid code, Keeps I (terminateProcess pid code))
    (hexec : ∀ pid, Keeps I (doExecve pid path [] [])) :
    Keeps (fun s : Service => I s.1) (doReboot path pid magic magic2 cmd) := by
  have hstop : Keeps (fun s : Service => I s.1) stop :=
    Keeps.bind (fun _ h => h) fun _ => Keeps.inFst (Keeps.ignore (by simp))
  unfold doReboot
  refine Keeps.ite (Keeps.throw _) (Keeps.ite (Keeps.pure _) (Keeps.ite ?_ (Keeps.ite ?_ ?_)))
  · exact Keeps.bind (Keeps.inFst (doRebootRuntime_keeps hterm hexec)) fun _ => Keeps.pure _
  · exact Keeps.bind hstop fun _ => Keeps.pure _
  · exact Keeps.throw _

/-- The round of the dispatch loop that serves a reboot. -/
theorem dispatchReboot_keeps [BlindCaps I] [BlindTrace I] [BlindCaller I]
    (hterm : ∀ pid code, Keeps I (terminateProcess pid code))
    (hexec : ∀ pid, Keeps I (doExecve pid path [] []))
    (hsignal : Keeps I (consumeDeliverableSignalOnSyscallReturn pid)) :
    Keeps (fun s : Service => I s.1) (dispatchReboot path pid magic magic2 cmd) := by
  have hcaller : ∀ c : Option Nat,
      Keeps I (modify fun w => { w with activeCallerPid := c } : M Unit) :=
    fun c w h => (BlindCaller.caller w c).mpr h
  have hfinish : ∀ ret, Keeps I (finishReboot pid ret) := by
    intro ret
    refine Keeps.bind (Keeps.attempt hsignal) fun action => ?_
    split
    · exact Keeps.bind (hterm _ _) fun _ => Keeps.pure _
    · exact Keeps.pure _
  refine Keeps.bind (Keeps.inFst (hcaller _)) fun _ => Keeps.bind (Keeps.attempt ?_) fun out =>
    Keeps.bind (Keeps.inFst (hcaller _)) fun _ => Keeps.ofExcept _
  refine Keeps.bind (Keeps.attempt (doReboot_keeps hterm hexec)) fun r => ?_
  split
  · exact Keeps.inFst (hfinish _)
  · exact Keeps.throw _
  · exact Keeps.throw _
  · exact Keeps.throw _
  · exact Keeps.bind (Keeps.gets _) fun errno => Keeps.inFst (hfinish _)

/-- The rule for invariants of runs with reboots. -/
theorem Operates.invariant (hboot : ∀ w, Reachable w → I w)
    (hstep : ∀ r, Keeps I (dispatch r))
    (hreboot : ∀ pid magic magic2 cmd,
      Keeps (fun s : Service => I s.1) (dispatchReboot path pid magic magic2 cmd))
    {s : Service} (h : Operates path s) : I s.1 := by
  induction h with
  | boot hi hr => exact hboot _ (.boot hi hr)
  | step _ hs ih =>
    rw [← hs.2]
    exact hstep _ _ ih
  | reboot _ _ _ ih => exact hreboot _ _ _ _ _ ih

end Keeps

section Runs

variable {path : String} {s : Service}

/-- While the service operates, frames are accounted for. -/
theorem Operates.frameInv (h : Operates path s) : FrameInv s.1 :=
  h.invariant (fun _ hw => hw.frameInv) dispatch_keeps fun _ _ _ _ =>
    dispatchReboot_keeps terminateProcess_keeps (fun _ => doExecve_keeps _ _ _ _)
      consumeDeliverableSignalOnSyscallReturn_keeps

/-- While the service operates, ledgers belong to processes that are there. -/
theorem Operates.ledgersOk (h : Operates path s) : s.1.LedgersOk :=
  h.invariant (fun _ hw => hw.ledgersOk) dispatch_ledgersOk fun _ _ _ _ =>
    dispatchReboot_keeps terminateProcess_ledgersOk (fun _ => doExecve_ledgersOk _ _ _ _)
      consumeDeliverableSignalOnSyscallReturn_keeps

/-- While the service operates, records belong to processes that are there. -/
theorem Operates.remainsOk (h : Operates path s) : s.1.RemainsOk := by
  refine h.invariant (fun _ hw => hw.remainsOk) (fun r w hw => ?_) fun _ _ _ _ =>
    dispatchReboot_keeps terminateProcess_remains (fun _ => doExecve_keeps_blind _ _ _ _)
      consumeDeliverableSignalOnSyscallReturn_keeps
  exact dispatch_keeps_of terminateProcess_remains
    (fun pid sys ret => finishSyscall_keeps (terminateProcess_remains pid) sys ret)
    doNanosleep_remains r hw fun pid _ _ hsys => jobCall_keeps pid hsys _ hw

end Runs

/-! ### The processes that are left -/

/-- There is no process `pid`. -/
def World.Gone (pid : Nat) (w : World) : Prop := w.live pid = false

/-- No process but `init` is left. -/
def World.Alone (init : Nat) (w : World) : Prop := ∀ p, w.live p = true → p = init

section Left

variable {pid init : Nat} {α : Type} {c : M α}

instance : BlindMemory (World.Gone pid) :=
  BlindMemory.comp (V := World.live pid) (· = false) inferInstance

instance : BlindControl (World.Gone pid) :=
  BlindControl.comp (V := World.live pid) (· = false) inferInstance

instance : BlindFiles (World.Gone pid) :=
  BlindFiles.comp (V := World.live pid) (· = false) inferInstance

instance : EraseKeeps (World.Gone pid) where
  erase w q h _ := by
    show ((w.tasks.erase q).get? pid).isSome = false
    rw [OrdMap.get?_erase]
    split
    · rfl
    · exact h
  panicked _ _ h := h

/-- A command that makes no process. -/
theorem Keeps.alone (h : ∀ p, Keeps (World.Gone p) c) : Keeps (World.Alone init) c := by
  intro w hw p hp
  by_contra hne
  have hgone : w.Gone p := Bool.eq_false_iff.mpr fun hlive => hne (hw p hlive)
  have hstill : (c.run w).2.live p = false := h p w hgone
  rw [hstill] at hp
  cases hp

/-- The loop of a reboot ends every process of the list but `init`. -/
theorem endOthers_alone (pids : List Nat) :
    Triple (fun w => ∀ p, w.live p = true → p = init ∨ p ∈ pids)
      (forEach pids fun victim => when (victim ≠ init) (ignore (terminateProcess victim 0)))
      (fun _ => World.Alone init) fun _ _ => False := by
  -- who is left: init and the victims still to come
  let Rest (l : List Nat) (w : World) : Prop := ∀ p, w.live p = true → p = init ∨ p ∈ l
  have hloop : Triple (Rest pids)
      (forEach pids fun victim => when (victim ≠ init) (ignore (terminateProcess victim 0)))
      (fun _ => Rest []) fun _ _ => False := by
    refine Triple.forEach Rest (fun victim rest => ?_) pids
    by_cases hinit : victim = init
    · rw [when_neg (not_not.mpr hinit)]
      refine Triple.pure fun w h p hp => ?_
      rcases h p hp with heq | hmem
      · exact .inl heq
      · rcases List.mem_cons.mp hmem with heq | hrest
        · exact .inl (heq.trans hinit)
        · exact .inr hrest
    · rw [when_pos hinit]
      refine Triple.ignore fun w h => ?_
      have hrest : Rest rest ((terminateProcess victim 0).run w).2 := by
        intro p hp
        by_contra hnot
        obtain ⟨hne, hmem⟩ := not_or.mp hnot
        -- a victim is gone after its turn, and the gone stay gone
        have hgone : ((terminateProcess victim 0).run w).2.Gone p := by
          by_cases hp : p = victim
          · rw [hp]
            exact terminateProcess_gone victim 0 w
          · refine terminateProcess_keeps_blind victim 0 w (Bool.eq_false_iff.mpr fun hlive => ?_)
            rcases h p hlive with heq | hcons
            · exact hne heq
            · exact (List.mem_cons.mp hcons).elim hp hmem
        rw [show World.live p _ = false from hgone] at hp
        cases hp
      exact ⟨fun _ _ => hrest, fun _ _ => hrest⟩
  exact hloop.post fun _ w h p hp => (h p hp).resolve_right nofun

/-- Whatever the outcome of a reboot, no process but `init` is left. -/
theorem doRebootRuntime_alone (path : String) (caller : Nat) :
    Triple (fun w => w.initPid caller = init) (doRebootRuntime path caller)
      (fun _ => World.Alone init) fun _ => World.Alone init := by
  unfold doRebootRuntime
  refine Triple.bind (R := fun i w => i = init) (Triple.gets fun w h => h) fun i => ?_
  refine Triple.of_pre fun w₀ hi => ?_
  subst hi
  refine Triple.bind (R := fun pids w => ∀ p, w.live p = true → p = i ∨ p ∈ pids)
    (Triple.gets fun w _ p hp => .inr (OrdMap.mem_keys.mpr hp)) fun pids => ?_
  refine Triple.bind ((endOthers_alone pids).errors fun _ _ h => h.elim) fun _ => ?_
  refine Triple.bind (Keeps.alone fun p => doExecve_keeps_blind i path [] []).triple fun _ => ?_
  refine (Keeps.alone fun p => Keeps.when (Keeps.bind (Keeps.gets _) fun proc => ?_)).triple
  exact Keeps.whenSome fun _ => Keeps.ignore (by simp)

end Left

/-! ### The start of `init` -/

/-- What the start of a program depends on. -/
def World.startView (w : World) : Layout × OrdMap Nat TaskStruct × (Nat → Option Frame) :=
  (w.layout, w.tasks, w.frames)

instance : BlindCaps World.startView where
  tick _ _ := rfl
  slots _ _ := rfl

instance : BlindTrace World.startView where
  trace _ _ := rfl

section Start

variable {pid : Nat}

/-- Where a program starts does not depend on what its view does not have. -/
theorem World.StartsAt.congr {w w' : World} {args env : List (List UInt8)} {auxv : List (Nat × Nat)}
    {sp : Nat} (h : w.StartsAt pid args env auxv sp) (hv : w'.startView = w.startView) :
    w'.StartsAt pid args env auxv sp := by
  have hlayout : w'.layout = w.layout := congrArg Prod.fst hv
  have htasks : w'.tasks = w.tasks := congrArg (·.2.1) hv
  have hframes : w'.frames = w.frames := congrArg (·.2.2) hv
  have hbyte : w'.loadedByte pid = w.loadedByte pid := by
    unfold World.loadedByte World.vspaceOf World.task?
    rw [htasks, hframes]
  exact ⟨hlayout ▸ h.computed, h.aligned, by rw [hlayout, hbyte]; exact h.found⟩

instance (l : Layout) : EraseKeeps fun w => w.layout = l where
  erase _ _ h _ := h
  panicked _ _ h := h

/-- A reboot that succeeds has loaded `init`, and has not touched it since. -/
theorem doRebootRuntime_loads {w w' : World} {path : String} {caller : Nat}
    (hrun : (doRebootRuntime path caller).run w = (.ok (), w')) :
    ∃ w₁ w₂, w₁.layout = w.layout ∧
      (doExecve (w.initPid caller) path [] []).run w₁ = (.ok (), w₂) ∧
      w'.startView = w₂.startView := by
  rw [doRebootRuntime, run_gets_bind, run_gets_bind] at hrun
  let ends : M Unit := forEach w.tasks.keys fun victim =>
    when (victim ≠ w.initPid caller) (ignore (terminateProcess victim 0))
  have hlayout : Frames World.layout ends := Frames.of_keeps fun l =>
    Keeps.forEach fun victim => Keeps.when (Keeps.ignore (terminateProcess_keeps_blind victim 0))
  -- an error of the ends would be the result of the call
  rcases hends : ends.run w with ⟨e | u, w₁⟩
  · rw [run_bind_error hends] at hrun
    cases hrun
  rw [run_bind_ok hends] at hrun
  rcases hexec : (doExecve (w.initPid caller) path [] []).run w₁ with ⟨e | u, w₂⟩
  · rw [run_bind_error hexec] at hrun
    cases hrun
  rw [run_bind_ok hexec] at hrun
  refine ⟨w₁, w₂, ?_, hexec, ?_⟩
  · have := hlayout w
    rwa [hends] at this
  -- resuming the thread changes nothing of the start
  · have hresume : Frames World.startView (when (w.initPid caller ≠ caller) do
        let proc ← gets (·.task? (w.initPid caller))
        whenSome proc fun _ => ignore (tcbResume (w.initPid caller))) :=
      Frames.of_keeps fun v => Keeps.when (Keeps.bind (Keeps.gets _) fun proc =>
        Keeps.whenSome fun _ => Keeps.ignore (by simp))
    have := hresume w₂
    rwa [hrun] at this

end Start

/-! ### Reboots -/

/-- No process but `init` is left, and nothing that belongs to another one. -/
structure World.OnlyLeft (w : World) (init : Nat) : Prop where
  alone : w.Alone init
  waits : ∀ p, w.pendingWaitReplies.contains p → p = init
  sleeps : ∀ p, w.pendingSleepReplies.contains p → p = init
  ledger : ∀ p, w.ledger.contains p → p = init
  hosts : ∀ host p, w.hostPidMap.get? host = some p → p = init
  events : w.staleRecords = false → ∀ p, w.childEvents.contains p → p = init

/-- Where only one process is there, only its records are left. -/
theorem World.Alone.onlyLeft {w : World} {init : Nat} (h : w.Alone init) (hremains : w.RemainsOk)
    (hledgers : w.LedgersOk) : w.OnlyLeft init := by
  have hok : w.remainsView.Ok := hremains
  have hkey : ∀ {ν : Type} {m : OrdMap Nat ν} {pid : Nat}, m.contains pid →
      ∃ v, m.get? pid = some v := fun hpid => Option.isSome_iff_exists.mp hpid
  refine ⟨h, ?_, ?_, fun p hp => h p (hledgers p hp),
    fun host p hp => h p (hok.hosts host p hp), ?_⟩
  · intro p hp
    obtain ⟨r, hr⟩ := hkey hp
    exact h p (hok.waits p r hr)
  · intro p hp
    obtain ⟨r, hr⟩ := hkey hp
    exact h p (hok.sleeps p r hr)
  · intro hstale p hp
    obtain ⟨l, hl⟩ := hkey hp
    exact h p ((hok.queues hstale p l hl).resolve_right nofun)

/-- The arguments of a reboot that restarts. -/
def Restarts (magic magic2 cmd : Nat) : Prop :=
  magic = LINUX_REBOOT_MAGIC1 ∧ validRebootMagic2 magic2 = true ∧
    (cmd % 2 ^ 32 = LINUX_REBOOT_CMD_RESTART ∨ cmd % 2 ^ 32 = LINUX_REBOOT_CMD_RESTART2)

/-- A reboot that restarts runs `do_reboot_runtime`. -/
theorem doReboot_restarts {path : String} {caller magic magic2 cmd : Nat}
    (h : Restarts magic magic2 cmd) : doReboot path caller magic magic2 cmd = (do
      inFst (doRebootRuntime path caller)
      return 0) := by
  obtain ⟨hmagic, hmagic2, hcmd⟩ := h
  have hcad : ¬ (cmd % 2 ^ 32 = LINUX_REBOOT_CMD_CAD_ON ∨
      cmd % 2 ^ 32 = LINUX_REBOOT_CMD_CAD_OFF) := by
    rcases hcmd with hcmd | hcmd <;> rw [hcmd] <;> decide
  rw [doReboot, if_neg (not_or.mpr ⟨not_not.mpr hmagic, not_not.mpr hmagic2⟩), if_neg hcad,
    if_pos hcmd]

/-- After a reboot, in a run with any reboots before, no process but `init` is left, nothing of
another process is, and the frames are in order: whatever the services answered, and whether or not
`init` was loaded. When it was, it starts with its path as the only argument, on empty tables and
without an environment. -/
theorem reboot_leaves_init {path : String} {w w' : World} {running running' : Bool}
    {caller magic magic2 cmd : Nat} {r : Except Err Int} (hs : Operates path (w, running))
    (hrestarts : Restarts magic magic2 cmd)
    (hrun : (doReboot path caller magic magic2 cmd).run (w, running) = (r, (w', running'))) :
    w'.OnlyLeft (w.initPid caller) ∧ FrameInv w' ∧ running' = running ∧
    ∀ ret, r = .ok ret → ret = 0 ∧ w'.live (w.initPid caller) = true ∧
      (w.layout.TlsApart → 0 ∉ utf8 path → ∃ d w₁ w₂ interp sp,
        w₁.Emptied (w.initPid caller) ∧
        (loadImage (w.initPid caller) path [] [] d).run w₁ = (.ok (), w₂) ∧
        w'.startView = w₂.startView ∧
        w'.StartsAt (w.initPid caller) [utf8 path] [] (imageAuxv d interp) sp) := by
  -- the invariants hold in every run
  have hframes : FrameInv w' := by
    have := (doReboot_keeps terminateProcess_keeps fun _ => doExecve_keeps _ _ _ _ :
      Keeps _ (doReboot path caller magic magic2 cmd)) _ hs.frameInv
    rwa [hrun] at this
  have hremains : w'.RemainsOk := by
    have := (doReboot_keeps terminateProcess_remains fun _ => doExecve_keeps_blind _ _ _ _ :
      Keeps _ (doReboot path caller magic magic2 cmd)) _ hs.remainsOk
    rwa [hrun] at this
  have hledgers : w'.LedgersOk := by
    have := (doReboot_keeps terminateProcess_ledgersOk fun _ => doExecve_ledgersOk _ _ _ _ :
      Keeps _ (doReboot path caller magic magic2 cmd)) _ hs.ledgersOk
    rwa [hrun] at this
  -- the outcome is that of `do_reboot_runtime`
  rw [doReboot_restarts hrestarts] at hrun
  have halone : Triple (fun v => v.initPid caller = w.initPid caller) (doRebootRuntime path caller)
      (fun _ => World.Alone (w.initPid caller)) fun _ => World.Alone (w.initPid caller) :=
    doRebootRuntime_alone path caller
  rcases hruntime : (doRebootRuntime path caller).run w with ⟨e | u, v⟩
  · have hfst : (inFst (doRebootRuntime path caller) : Cmd Service Err Unit).run (w, running)
        = (.error e, (v, running)) := by rw [run_inFst, hruntime]
    rw [run_bind_error hfst] at hrun
    cases hrun
    have hleft := (halone w rfl).2 e (by rw [hruntime])
    rw [hruntime] at hleft
    refine ⟨hleft.onlyLeft hremains hledgers, hframes, rfl, ?_⟩
    intro ret hret
    cases hret
  · have hfst : (inFst (doRebootRuntime path caller) : Cmd Service Err Unit).run (w, running)
        = (.ok (), (v, running)) := by rw [run_inFst, hruntime]
    rw [run_bind_ok hfst] at hrun
    cases hrun
    have hleft := (halone w rfl).1 () (by rw [hruntime])
    rw [hruntime] at hleft
    refine ⟨hleft.onlyLeft hremains hledgers, hframes, rfl, fun ret hret => ?_⟩
    cases hret
    obtain ⟨w₁, w₂, hlayout, hexec, hview⟩ := doRebootRuntime_loads hruntime
    refine ⟨rfl, ?_, ?_⟩
    · -- `execve` runs in a process that is there, and leaves it there
      obtain ⟨t, ht⟩ := doExecve_live hexec
      have hid := doExecve_identity (w.initPid caller) path [] [] w₁
      rw [hexec, World.identity, World.identity, ht] at hid
      obtain ⟨t', ht', -⟩ := Option.map_eq_some_iff.mp hid
      show (w'.tasks.get? (w.initPid caller)).isSome = true
      rw [show w'.tasks = w₂.tasks from congrArg (·.2.1) hview]
      exact Option.isSome_iff_exists.mpr ⟨t', ht'⟩
    · intro hapart hnul
      have hpath : startArgs path [] = [utf8 path] := rfl
      have hargs : ∀ a ∈ startArgs path [], 0 ∉ a := by
        intro a ha
        rw [List.mem_singleton.mp ha]
        exact hnul
      obtain ⟨d, w₃, interp, sp, hempty, hload, hstarts⟩ := doExecve_starts (hlayout ▸ hapart)
        hargs (List.forall_mem_nil _) hexec
      rw [hpath, List.map_nil] at hstarts
      exact ⟨d, w₃, w₂, interp, sp, hempty, hload, hview, hstarts.congr hview⟩

/-- The service operates over a request that returns. -/
theorem Operates.after {path : String} {w : World} (h : Operates path (w, true)) {r : Request}
    (hr : w.returns r) : Operates path (w.after r, true) := by
  refine h.step ⟨⟨fun heq => ?_, fun heq => ?_⟩, rfl⟩ <;> simp [World.returns, heq] at hr

/-- The child of `init` reboots, and `init` starts again without it. -/
theorem reboot_leaves_init_sampleFork :
    ∃ w' : World, (doReboot "" 2 LINUX_REBOOT_MAGIC1 LINUX_REBOOT_MAGIC2A
        LINUX_REBOOT_CMD_RESTART).run (sampleFork, true) = (.ok 0, (w', true)) ∧
      w'.OnlyLeft 1 ∧ w'.live 1 = true ∧
      ∃ d interp sp, w'.StartsAt 1 [[]] [] (imageAuxv d interp) sp := by
  let s' : Service := ((doReboot "" 2 LINUX_REBOOT_MAGIC1 LINUX_REBOOT_MAGIC2A
    LINUX_REBOOT_CMD_RESTART).run (sampleFork, true)).2
  have hs : Operates "" (sampleFork, true) :=
    Operates.after (.boot sampleStart_initial sampleBoot_run) (by decide +kernel)
  have hok : ((doReboot "" 2 LINUX_REBOOT_MAGIC1 LINUX_REBOOT_MAGIC2A
      LINUX_REBOOT_CMD_RESTART).run (sampleFork, true)).1 = .ok 0 := by decide +kernel
  have hrunning : s'.2 = true := by decide +kernel
  have hinit : sampleFork.initPid 2 = 1 := by decide +kernel
  have hrun : (doReboot "" 2 LINUX_REBOOT_MAGIC1 LINUX_REBOOT_MAGIC2A
      LINUX_REBOOT_CMD_RESTART).run (sampleFork, true) = (.ok 0, (s'.1, true)) :=
    Prod.ext hok (Prod.ext rfl hrunning)
  obtain ⟨hleft, -, -, hend⟩ := reboot_leaves_init hs
    ⟨rfl, by decide, .inl (by decide)⟩ hrun
  obtain ⟨-, hlive, hload⟩ := hend 0 rfl
  obtain ⟨d, w₁, w₂, interp, sp, -, -, -, hstarts⟩ :=
    hload (.inl (by decide +kernel)) (by decide +kernel)
  rw [hinit] at hleft hlive hstarts
  exact ⟨s'.1, hrun, hleft, hlive, d, interp, sp, by
    rwa [show [utf8 ""] = [[]] by decide +kernel] at hstarts⟩

end Ape
