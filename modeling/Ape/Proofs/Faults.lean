import Ape.Proofs.Hardware

/-!
# `Ape.Proofs.Faults`: how a page fault ends

The dispatch loop replies to a fault whose handler returned, and only logs one whose handler
failed. So a fault is answered when the page is mapped with the access it asked for, or when
the process is gone. `pageFault_answered_iff` says for which faults this holds whatever the
services answer: those that end the process, and those of a file mapping, whose failures end
it too. Every other branch passes on the error of a refused call.
-/

set_option autoImplicit false

namespace Ape

open Ape.Lib Cmd

/-! ### An answered fault -/

/-- The page of `addr` is mapped with permissions that allow the access. -/
def World.Permits (w : World) (pid addr : Nat) (cause : FaultCause) : Prop :=
  ∃ slot perms, w.Installed pid (addr / PGSIZE) slot perms ∧ faultAccessAllowed cause perms = true

/-- The handler returned and the access is allowed now, or the process is gone. -/
def FaultAnswered (pid addr : Nat) (cause : FaultCause) (r : Except Err Unit × World) : Prop :=
  (r.1 = .ok () ∧ r.2.Permits pid addr cause) ∨ r.2.live pid = false

/-- The faults in an entry that need no call which may fail: the access ends the process. -/
def MemoryMap.answers (m : MemoryMap) (cause : FaultCause) : Bool :=
  if cause = .store ∧ m.cow then !m.flags.contains Perms.W
  else !faultAccessAllowed cause m.flags &&
    !(m.memType = .image && (adjustedImagePerms cause m.flags).isSome)

/-- The faults outside the entries that need no such call: the access ends the process, or the
page is one of a file mapping. -/
def FaultAction.answers (cause : FaultCause) : FaultAction → Bool
  | .stackGrowth _ _ => !faultAccessAllowed cause Perms.RW
  | .heapLazy => !faultAccessAllowed cause Perms.RW
  | .lazyMmap m => !faultAccessAllowed cause m.flags || m.memType = .fileBacked
  | .unmanaged => true

/-- The faults that need no call which may fail. -/
def MmState.answers (mm : MmState) (addr : Nat) (cause : FaultCause) : Bool :=
  match mm.lookupMemoryMap addr with
  | some m => m.answers cause
  | none => (classifyFault mm addr (alignDown addr)).answers cause

/-! ### Services that refuse -/

/-- Every call is refused. -/
def World.Refused (w : World) : Prop := ∀ n, (w.env n).err = some .outOfMemory

/-- The command fails when every call is refused. -/
def Refusable {α : Type} (c : M α) : Prop :=
  Triple World.Refused c (fun _ _ => False) (fun _ => World.Refused)

section Refused

variable {α β : Type}

/-- A command that does not see the services. -/
theorem refused_step {c : M α} (h : Frames World.env c) :
    Triple World.Refused c (fun _ => World.Refused) (fun _ => World.Refused) :=
  (Frames.keeps h fun env => ∀ n, (env n).err = some .outOfMemory).triple

/-- A sequence whose first command can be refused can be refused. -/
theorem Refusable.bind {c : M α} {k : α → M β} (h : Refusable c) : Refusable (c >>= k) :=
  Triple.bind h fun _ => fun _ hw => hw.elim

/-- The first part of a command may succeed when the rest is refused. -/
theorem Refusable.after {c : M α} {k : α → M β} (h : Frames World.env c)
    (hk : ∀ a, Refusable (k a)) : Refusable (c >>= k) := Triple.bind (refused_step h) hk

/-- A call that is refused fails. -/
theorem ext_refused {P : Err → World → Prop} (h : ∀ w, World.Refused w → P .outOfMemory w) :
    Triple World.Refused ext (fun _ _ => False) P := by
  intro w hw
  rw [run_ext_error (hw w.tick)]
  refine ⟨fun _ hok => (by cases hok), fun e he => ?_⟩
  cases he
  exact h _ hw

/-- A call can be refused. -/
theorem ext_refusable : Refusable ext := ext_refused fun _ h => h

/-- New page frames can be refused. -/
theorem allocPageFrameNoCleanup_refusable (pages : Nat) :
    Refusable (allocPageFrameNoCleanup pages) := Refusable.bind (Refusable.bind ext_refusable)

/-- The page of a fault can be refused. -/
theorem mapFaultPage_refusable (pid pageAddr : Nat) (perms : Perms) (memType : MemoryType) :
    Refusable (mapFaultPage pid pageAddr perms memType) :=
  Refusable.bind (allocPageFrameNoCleanup_refusable 1)

/-- The mapping of a frame can be refused. -/
theorem mapProcessFrame_refusable (pid slot vaddr : Nat) (perms : Perms) (pages : Nat) :
    Refusable (mapProcessFrame pid slot vaddr perms pages) := by
  refine Refusable.after (by simp) fun _ => Refusable.after (by simp) fun _ => ?_
  -- the refusal is not `MappingFailed`, so there is no second try
  refine Triple.bind (R := fun r w => r = .error .outOfMemory ∧ World.Refused w) ?_ ?_
  · refine Triple.attempt (Triple.bind (R := fun _ _ => False) ?_ fun _ => fun _ hw => hw.elim)
    exact ext_refused fun w h => ⟨rfl, h⟩
  · intro r w hr
    rw [hr.1]
    exact ⟨fun _ hok => (by cases hok), fun _ _ => hr.2⟩

/-- The mapping of a page that is there can be refused. -/
theorem remapExistingPage_refusable (pid pageAddr frameCap : Nat) (perms : Perms) (pages : Nat) :
    Refusable (remapExistingPage pid pageAddr frameCap perms pages) :=
  Refusable.after (by simp) fun _ =>
    Refusable.bind (mapProcessFrame_refusable pid frameCap pageAddr perms pages)

/-- A frame of its own for a page can be refused. -/
theorem resolveCowFault_refusable (pid pageAddr oldFrameCap : Nat) (perms : Perms) :
    Refusable (resolveCowFault pid pageAddr oldFrameCap perms) :=
  Triple.ite (fun _ => Triple.throw fun _ h => h) fun _ =>
    Refusable.bind (allocPageFrameNoCleanup_refusable 1)

/-- The growth of a stack by some pages can be refused. -/
theorem faultStackGrowth_refusable (pid low : Nat) {pages : Nat} (h : 0 < pages) :
    Refusable (faultStackGrowth pid low pages) := by
  obtain ⟨n, rfl⟩ : ∃ n, pages = n + 1 := ⟨pages - 1, by omega⟩
  unfold faultStackGrowth
  rw [List.range_succ_eq_map]
  exact Refusable.bind (Refusable.bind (mapFaultPage_refusable pid _ _ _))

/-- A refused command that keeps the process alive does not answer the fault. -/
theorem Refusable.unanswered {c : M Unit} (h : Refusable c) {pid addr : Nat} {cause : FaultCause}
    (hlive : Frames (World.live pid) c) {w : World} (hw : w.Refused) (hp : w.live pid = true) :
    ¬ FaultAnswered pid addr cause (c.run w) := by
  rintro (⟨hok, -⟩ | hgone)
  · exact (h w hw).1 () hok
  · rw [hlive w, hp] at hgone
    cases hgone

end Refused

/-! ### Pages of a file mapping -/

section FileMapping

variable {pid addr : Nat} {m : MemoryMap}

/-- The page of `addr` is mapped with the permissions of the entry. -/
abbrev FilePage (pid addr : Nat) (m : MemoryMap) (w : World) : Prop :=
  ∃ slot, w.Installed pid (addr / PGSIZE) slot m.flags

/-- A command that keeps page tables keeps the page. -/
theorem filePage_step {α : Type} {c : M α} (h : Frames World.vspaceOf c) :
    Triple (FilePage pid addr m) c (fun _ => FilePage pid addr m) (fun _ _ => True) :=
  (Frames.keeps h fun v => ∃ slot vs i, v pid = some vs ∧
    vs (addr / PGSIZE) = some ⟨slot, i, m.flags⟩).triple.errors fun _ _ _ => trivial

/-- A command that leaves the processes leaves them there. -/
theorem live_step {α : Type} {c : M α} (h : Frames (World.live pid) c) :
    Triple (fun w => w.live pid = true) c (fun _ w => w.live pid = true) (fun _ _ => True) :=
  (Frames.keeps h (· = true)).triple.errors fun _ _ _ => trivial

/-- The first page of a mapping at the page of `addr` is the page of `addr`. -/
theorem mapProcessFrame_filePage (slot : Nat) {pages : Nat} (hpages : 0 < pages)
    (k : Err → M Unit) :
    Triple (fun w => w.live pid = true)
      (onError (mapProcessFrame pid slot (alignDown addr) m.flags pages) k)
      (fun _ => FilePage pid addr m) (fun _ _ => True) := by
  have hmap := mapProcessFrame_installs pid slot (alignDown addr) m.flags pages
  refine Triple.onError (hmap.imp (fun _ h => h) (fun _ w h => ?_) fun _ _ _ => trivial) fun e =>
    triple_true (k e)
  have hpage : alignDown addr / PGSIZE = addr / PGSIZE :=
    Nat.mul_div_cancel _ (by decide : 0 < PGSIZE)
  exact ⟨slot, h _ (by rw [hpage]) (by omega)⟩

/-- The frames of a file service are installed for the page, or none are. -/
theorem tryZeroCopy_installs (fd : Nat) {pages : Nat} (hpages : 0 < pages) :
    Triple (fun w => w.live pid = true) (tryZeroCopy pid fd (alignDown addr) m pages)
      (fun n w => (0 < n → FilePage pid addr m w) ∧ (n = 0 → w.live pid = true))
      (fun _ _ => True) := by
  unfold tryZeroCopy
  refine Triple.bind (live_step (by simp)) fun _ => Triple.bind (live_step (by simp)) fun slot => ?_
  refine Triple.bind (live_step (by simp)) fun r => ?_
  split
  · exact Triple.bind (live_step (by simp)) fun _ => Triple.throw fun _ _ => trivial
  · refine Triple.bind (mapProcessFrame_filePage slot hpages _) fun _ => ?_
    refine Triple.bind (filePage_step (by simp)) fun _ =>
      Triple.bind (filePage_step (by simp)) fun _ => ?_
    refine Triple.bind (filePage_step (emit_frames _)) fun _ => ?_
    exact Triple.pure fun w h => ⟨fun _ => h, fun h0 => absurd h0 (by omega)⟩
  · refine Triple.bind (live_step (by simp)) fun _ => ?_
    exact Triple.pure fun w h => ⟨fun h0 => absurd h0 (lt_irrefl _), fun _ => h⟩
  · exact Triple.bind (live_step (by simp)) fun _ => Triple.throw fun _ _ => trivial

/-- A page with the bytes of a file is installed. -/
theorem copyFilePage_installs (fd : Nat) :
    Triple (fun w => w.live pid = true) (copyFilePage pid fd (alignDown addr) m)
      (fun _ => FilePage pid addr m) (fun _ _ => True) := by
  have hcleanup : ∀ {P : World → Prop} (c : M Unit),
      Triple P c (fun _ _ => True) (fun _ _ => True) := fun c =>
    (triple_true c).imp (fun _ _ => trivial) (fun _ _ _ => trivial) fun _ _ _ => trivial
  unfold copyFilePage
  refine Triple.bind (live_step (by simp)) fun _ => Triple.bind (live_step (by simp)) fun slot => ?_
  refine Triple.bind (live_step (by simp)) fun _ => ?_
  refine Triple.bind (mapProcessFrame_filePage slot (by decide) _) fun _ => ?_
  -- the page is taken back only when the copy fails
  refine Triple.bind (R := fun _ => FilePage pid addr m)
    (Triple.onError (filePage_step (by simp)) fun _ => hcleanup _) fun scratch => ?_
  refine Triple.bind (filePage_step (by simp)) fun r => ?_
  refine Triple.bind (filePage_step (by simp)) fun _ => ?_
  refine Triple.bind (R := fun _ => FilePage pid addr m)
    (Triple.onError (filePage_step (by simp)) fun _ => hcleanup _) fun _ => ?_
  refine Triple.bind (filePage_step (by simp)) fun _ =>
    Triple.bind (filePage_step (by simp)) fun _ => ?_
  exact Triple.bind (filePage_step (emit_frames _)) fun _ => Triple.pure fun w h => h

/-- A file-backed fault that returns has mapped the page. -/
theorem mapFileBackedFaultPage_installs (n : Nat) :
    Triple (fun w => w.live pid = true) (mapFileBackedFaultPage pid (alignDown addr) m n)
      (fun _ => FilePage pid addr m) (fun _ _ => True) := by
  unfold mapFileBackedFaultPage
  refine Triple.bind (live_step (by simp)) fun fd =>
    Triple.bind (live_step (by simp)) fun task => ?_
  have hpages : 0 < spanPages task.mm.state m (alignDown addr) n := by
    unfold spanPages
    omega
  refine Triple.bind (tryZeroCopy_installs fd hpages) fun k => ?_
  refine Triple.ite (fun hk => Triple.pure fun w h => h.1 hk) fun hk => ?_
  exact (copyFilePage_installs fd).pre fun w h => h.2 (by omega)

end FileMapping

/-! ### The answer -/

/-- The command answers the fault, whatever the services answer. -/
def AlwaysAnswers (w : World) (pid addr : Nat) (cause : FaultCause) (c : M Unit) : Prop :=
  ∀ env, FaultAnswered pid addr cause (c.run (w.withEnv env))

section Answer

variable {w : World} {pid addr : Nat} {cause : FaultCause}

/-- The end of the process is an answer. -/
theorem terminateBySignal_answers (signum : Nat) :
    AlwaysAnswers w pid addr cause (terminateBySignal pid signum) := fun _ =>
  .inr (terminateProcess_gone pid _ _)

/-- A command that can be refused is no answer. -/
theorem Refusable.not_answers {c : M Unit} (hc : Refusable c) (hf : Frames (World.live pid) c)
    (hlive : w.live pid = true) : ¬ AlwaysAnswers w pid addr cause c := fun h =>
  hc.unanswered hf (w := w.withEnv fun _ => ⟨some .outOfMemory, 0, fun _ => 0⟩) (fun _ => rfl)
    hlive (h _)

/-- A fault inside an entry is answered whatever the services say, or it is not. -/
theorem faultInEntry_answers_iff (hlive : w.live pid = true) (m : MemoryMap) :
    AlwaysAnswers w pid addr cause (faultInEntry pid cause m) ↔ m.answers cause = true := by
  have hremap : ∀ perms, ¬ AlwaysAnswers w pid addr cause
      (remapExistingPage pid m.vaddr m.frameCap perms m.pages) := fun perms =>
    (remapExistingPage_refusable pid m.vaddr m.frameCap perms m.pages).not_answers (by simp) hlive
  have hcopy : ¬ AlwaysAnswers w pid addr cause (resolveCowFault pid m.vaddr m.frameCap m.flags) :=
    (resolveCowFault_refusable pid m.vaddr m.frameCap m.flags).not_answers (by simp) hlive
  unfold faultInEntry MemoryMap.answers
  by_cases hcow : cause = .store ∧ m.cow
  · rw [if_pos hcow, if_pos hcow]
    cases m.flags.contains Perms.W with
    | false => exact iff_of_true (terminateBySignal_answers _) rfl
    | true => exact iff_of_false hcopy Bool.noConfusion
  · rw [if_neg hcow, if_neg hcow]
    cases faultAccessAllowed cause m.flags with
    | true => exact iff_of_false (hremap _) Bool.noConfusion
    | false =>
      -- an image page may be flipped, and the flip can be refused
      by_cases hty : m.memType = .image
      · rw [if_pos hty, decide_eq_true hty]
        cases adjustedImagePerms cause m.flags with
        | some perms => exact iff_of_false (hremap _) Bool.noConfusion
        | none => exact iff_of_true (terminateBySignal_answers _) rfl
      · rw [if_neg hty, decide_eq_false hty]
        exact iff_of_true (terminateBySignal_answers _) rfl

/-- A fault of a file mapping is answered: its failures end the process. -/
theorem faultLazyMmap_file_answers (hlive : w.live pid = true) {m : MemoryMap}
    (hfile : m.memType = .fileBacked) (hallowed : faultAccessAllowed cause m.flags = true) :
    AlwaysAnswers w pid addr cause (faultLazyMmap pid (alignDown addr) m) := by
  intro env
  have hpage : Triple (fun w => w.live pid = true)
      (mapFileBackedFaultPage pid (alignDown addr) m (requestPages (alignDown addr) m))
      (fun _ => FilePage pid addr m) (fun _ _ => True) :=
    mapFileBackedFaultPage_installs _
  have hinst := (hpage (w.withEnv env) hlive).1
  have hattempt := run_attempt
    (mapFileBackedFaultPage pid (alignDown addr) m (requestPages (alignDown addr) m))
      (w.withEnv env)
  rw [faultLazyMmap, if_pos hfile, run_bind_ok hattempt]
  cases hr : ((mapFileBackedFaultPage pid (alignDown addr) m
      (requestPages (alignDown addr) m)).run (w.withEnv env)).1 with
  | ok n =>
    obtain ⟨slot, hslot⟩ := hinst n hr
    exact .inl ⟨rfl, slot, m.flags, hslot, hallowed⟩
  | error e => exact .inr (terminateProcess_gone pid _ _)

/-- The pages of a growth reach down to the page of the address. -/
theorem MmState.Aligned.growth_pos {mm : MmState} (h : mm.Aligned) (hr : mm.Reserved addr) :
    0 < (mm.stackBottom - mm.stackSize - alignDown addr) / PGSIZE := by
  have hbottom := h.stackBottom
  have hsize := h.stackSize
  have hhi := hr.2
  refine Nat.div_pos ?_ (by decide)
  unfold alignDown
  unfold PGSIZE at *
  omega

/-- A fault outside of all entries is answered whatever the services say, or it is not. -/
theorem faultOutside_answers_iff (hlive : w.live pid = true) {mm : MmState} (h : mm.Aligned) :
    AlwaysAnswers w pid addr cause (faultOutside pid cause mm addr) ↔
      (classifyFault mm addr (alignDown addr)).answers cause = true := by
  have hpage : ∀ v perms ty, ¬ AlwaysAnswers w pid addr cause (mapFaultPage pid v perms ty) :=
    fun v perms ty => (mapFaultPage_refusable pid v perms ty).not_answers (by simp) hlive
  unfold faultOutside
  -- the four answers of the classification, each of them denied or allowed
  rcases classifyFault_cases mm addr with ⟨m, -, hcls⟩ | ⟨-, hr, hcls⟩ | ⟨-, -, -, hcls⟩ |
      ⟨-, -, -, hcls⟩ <;> rw [hcls] <;> dsimp only [FaultAction.answers]
  · cases hallowed : faultAccessAllowed cause m.flags with
    | false => exact iff_of_true (terminateBySignal_answers _) rfl
    | true =>
      rw [if_neg (by decide)]
      by_cases hty : m.memType = .fileBacked
      · exact iff_of_true (faultLazyMmap_file_answers hlive hty hallowed) (by simp [hty])
      -- a page that is made asks for a frame, and that can be refused
      · refine iff_of_false ?_ (by simp [hty])
        rw [faultLazyMmap, if_neg hty]
        exact Refusable.not_answers (Refusable.after (by simp) fun _ =>
          mapFaultPage_refusable pid _ _ _) (by simp) hlive
  · cases faultAccessAllowed cause Perms.RW with
    | false => exact iff_of_true (terminateBySignal_answers _) rfl
    | true =>
      have hgrow := faultStackGrowth_refusable pid (mm.stackBottom - mm.stackSize) (h.growth_pos hr)
      exact iff_of_false (hgrow.not_answers (Frames.forEach fun _ => Frames.bind (by simp) fun _ =>
        by simp) hlive) Bool.noConfusion
  · cases faultAccessAllowed cause Perms.RW with
    | false => exact iff_of_true (terminateBySignal_answers _) rfl
    | true => exact iff_of_false (hpage _ _ _) Bool.noConfusion
  · exact iff_of_true (terminateBySignal_answers _) rfl

end Answer

/-- A fault is answered whatever the services answer, if and only if it ends the process or is
one of a file mapping. -/
theorem pageFault_answered_iff {w : World} (hw : Reachable w) {pid : Nat} {t : TaskStruct}
    (ht : w.task? pid = some t) (addr : Nat) (cause : FaultCause) :
    (∀ env, FaultAnswered pid addr cause ((pageFault pid addr cause).run (w.withEnv env))) ↔
      t.mm.state.answers addr cause = true := by
  have hlive : w.live pid = true := by rw [World.live, ht]; rfl
  have hrun : ∀ env, (pageFault pid addr cause).run (w.withEnv env) =
      (match t.mm.state.lookupMemoryMap addr with
        | some m => faultInEntry pid cause m
        | none => faultOutside pid cause t.mm.state addr).run (w.withEnv env) := by
    intro env
    have ht' : (w.withEnv env).task? pid = some t := ht
    unfold pageFault
    exact run_bind_ok (run_getProcess ht')
  simp only [hrun]
  unfold MmState.answers
  cases t.mm.state.lookupMemoryMap addr with
  | some m => exact faultInEntry_answers_iff hlive m
  | none => exact faultOutside_answers_iff hlive (hw.aligned ht)

/-- The child of the sample run. -/
def sampleChild : TaskStruct := (sampleFork.task? 2).getD (TaskStruct.new sampleLayout 0 0 0)

/-- The child of the sample. -/
theorem sampleChild_task : sampleFork.task? 2 = some sampleChild := by
  have h : (sampleFork.task? 2).isSome = true := by decide +kernel
  obtain ⟨t, ht⟩ := Option.isSome_iff_exists.mp h
  rw [sampleChild, ht]
  rfl

/-- A load of the child outside its memory ends it, whatever the services answer. -/
theorem pageFault_answered_iff_sampleFork :
    AlwaysAnswers sampleFork 2 16 .load (pageFault 2 16 .load) :=
  (pageFault_answered_iff sampleFork_reachable sampleChild_task 16 .load).mpr (by decide +kernel)

/-- A store of the child in its shared stack page, with no frame to be had: the handler fails,
and the child is still there. -/
theorem cow_fault_unanswered :
    ¬ ∀ w, Reachable w → ∀ pid, pid ≠ 1 → (w.task? pid).isSome → ∀ addr cause env,
      FaultAnswered pid addr cause ((pageFault pid addr cause).run (w.withEnv env)) := by
  intro h
  let env : Nat → Ext := fun _ => ⟨some .outOfMemory, 0, fun _ => 0⟩
  rcases h sampleFork sampleFork_reachable 2 (by decide) (by decide +kernel) 1073737728 .store env
    with ⟨hok, -⟩ | hgone
  · revert hok
    decide +kernel
  · revert hgone
    decide +kernel

end Ape
