import Ape.Proofs.FrameRefs
import Ape.Proofs.MemViews

/-!
# `Ape.Proofs.FrameOps`: the memory syscalls and the faults keep the accounting

Every command that touches a frame, from the pages of a stack to the move of `mremap`. A
command that fails on its way gives up the slots it has in hand, after it has released those
that the source releases.
-/

set_option autoImplicit false

namespace Ape

open Ape.Lib Cmd

section Steps

variable {own : Option Nat} {held held' : List Nat} {α : Type}

/-- The order of the frames in hand does not matter. -/
theorem Acct.perm {g : OrdMap Nat MmState → OrdMap Nat MmState} {w : World}
    (h : Acct g own held w) (hp : held.Perm held') : Acct g own held' w :=
  Counted.drop h fun s => (hp.count_eq s).ge

/-- A command that leaves the accounting alone. An error gives up what is in hand. -/
theorem acct_step {c : M α} (h : Frames World.memView c) :
    Triple (Acct id own held) c (fun _ => Acct id own held) (fun _ => FrameInv) := by
  have hk : Keeps (Acct id own held) c := h.keeps fun v => Counted (id v.1) own held v.2
  exact hk.triple.errors fun _ _ h => FrameInv.of_acct h

/-- The same, with a fact about the tables. -/
theorem acct_step_at {c : M α} (R : OrdMap Nat MmState → Prop) (h : Frames World.memView c) :
    Triple (fun w => Acct id own held w ∧ R w.mms) c (fun _ w => Acct id own held w ∧ R w.mms)
      (fun _ => FrameInv) :=
  ((acct_step h).frame (Frames.comp Prod.fst h) R).errors fun _ _ h => h.1

/-- A triple of the accounting, as the preservation of the boundary invariant. -/
theorem keeps_of_acct {c : M α} (own : Option Nat)
    (h : Triple (Acct id own []) c (fun _ => FrameInv) (fun _ => FrameInv)) : Keeps FrameInv c :=
  Triple.keeps (h.pre fun _ hw => FrameInv.acct hw own)

/-- An error of an allocation gives up what is in hand. -/
theorem acct_error {c : M α} {P : World → Prop} {Q : α → World → Prop}
    (h : Triple P c Q fun _ => Acct id own held) : Triple P c Q fun _ => FrameInv :=
  h.errors fun _ _ h => FrameInv.of_acct h

/-- The process that a lookup returns is there. -/
theorem getProcess_at {P : World → Prop} (pid : Nat) :
    Triple P (getProcess pid) (fun t w => P w ∧ w.mms.get? pid = some t.mm.state) (fun _ => P) := by
  refine (getProcess_task pid).post fun t w h => ⟨h.1, ?_⟩
  rw [World.get?_mms, h.2]
  rfl

/-- A process with a table is found. -/
theorem getProcess_found {P : World → Prop} {E : Err → World → Prop} (pid : Nat) :
    Triple (fun w => P w ∧ (w.mms.get? pid).isSome) (getProcess pid) (fun _ => P) E := by
  refine Triple.bind (R := fun o w => P w ∧ o.isSome) (Triple.gets fun w h => ⟨h.1, ?_⟩) ?_
  · rw [World.get?_mms, Option.isSome_map] at h
    exact h.2
  · intro o
    exact Triple.getSome (fun t w _ h => h.1) fun w ho h => by simp [ho] at h

/-- The boundary invariant with a fact about the tables. -/
theorem inv_step_at {c : M α} (R : OrdMap Nat MmState → Prop) (h : Frames World.memView c) :
    Triple (fun w => FrameInv w ∧ R w.mms) c (fun _ w => FrameInv w ∧ R w.mms)
      (fun _ => FrameInv) :=
  acct_step_at R h

end Steps

/-! ### New pages -/

/-- The frame of a new page of the stack goes into the table, or back. -/
theorem growStackPage_keeps (pid vaddr : Nat) : Keeps FrameInv (growStackPage pid vaddr) := by
  refine keeps_of_acct (some pid) ?_
  refine Triple.bind (acct_error (allocPageFrameNoCleanup_acct 1)) fun slot => ?_
  refine Triple.bind (acct_step (by simp)) fun _ => Triple.bind (acct_step (by simp)) fun _ => ?_
  refine Triple.bind (acct_step (by simp)) fun _ => ?_
  refine (addPage_acct ?_).post fun _ _ h => FrameInv.of_acct h
  exact fun mm => ⟨pageEntry vaddr Perms.RW .stack slot, rfl, rfl, rfl⟩

instance : GrowKeeps FrameInv where
  grow pid := tryGrow_keeps_of (growStackPage_keeps pid)

instance : AllocKeeps FrameInv where
  alloc pages := keeps_of_acct none
    ((acct_error (allocPageFrameNoCleanup_acct pages)).post fun _ _ h => FrameInv.of_acct h)

/-- The frame of a page after a fault goes into the table, or back. -/
theorem mapFaultPage_keeps (pid pageAddr : Nat) (perms : Perms) (memType : MemoryType) :
    Keeps FrameInv (mapFaultPage pid pageAddr perms memType) := by
  refine keeps_of_acct (some pid) ?_
  refine Triple.bind (acct_error (allocPageFrameNoCleanup_acct 1)) fun slot => ?_
  refine Triple.bind (acct_step (by simp)) fun _ => Triple.bind (acct_step (by simp)) fun _ => ?_
  refine Triple.bind (acct_step (by simp)) fun _ => ?_
  refine (addPage_acct ?_).post fun _ _ h => FrameInv.of_acct h
  exact fun mm => ⟨pageEntry pageAddr perms memType slot, rfl, rfl, rfl⟩

/-! ### File-backed faults -/

/-- The new frame in hand becomes the entry of a span. -/
theorem installSpan_acct {pid slot pageAddr pages : Nat} {m : MemoryMap} {E : Err → World → Prop}
    (hpos : 0 < pages) (hle : pages ≤ L1_HUGE_PAGES) :
    Triple (Acct id (some pid) [slot]) (modifyMm pid (·.installSpan m pageAddr pages slot))
      (fun _ => FrameInv) E := by
  -- the lazy entries that go away hold no frame
  have hmaps : ∀ (l : List Nat) (mm : MmState),
      (l.foldl (fun mm idx => mm.removeLazyMemoryMap (pageAddr + idx * PGSIZE)) mm).memoryMaps
        = mm.memoryMaps := by
    intro l
    induction l with
    | nil => exact fun _ => rfl
    | cons idx rest ih => exact fun mm => ih _
  have hnil : ∀ s, ([] : List Nat).count s ≤ [slot].count s := fun s => Nat.zero_le _
  refine (modifyMm_acct_all hnil fun mm hmm => ⟨?_, ?_⟩).post fun _ _ h => FrameInv.of_acct h
  · intro s
    have := MmState.uses_add_le
      ((List.range pages).foldl (fun mm idx => mm.removeLazyMemoryMap (pageAddr + idx * PGSIZE)) mm)
      (fileEntry m pageAddr pages slot) s
    rw [MmState.uses_congr (hmaps _ _)] at this
    simpa [MmState.installSpan, fileEntry, pageEntry] using this
  · have hsize : (fileEntry m pageAddr pages slot).size = pages * PGSIZE := rfl
    refine (hmm.congr (hmaps _ _)).add ?_ ?_ ?_
    · rw [hsize]; exact Nat.mul_pos hpos (by simp [PGSIZE])
    · rw [hsize]; exact Nat.mul_le_mul_right _ hle
    · rw [hsize]; exact Nat.mul_mod_left _ _

/-- A span has at least the page of the fault. -/
theorem spanPages_pos (mm : MmState) (m : MemoryMap) (pageAddr n : Nat) :
    0 < spanPages mm m pageAddr n := by unfold spanPages; omega

/-- A span is at most a huge page when no more is asked for. -/
theorem spanPages_le (mm : MmState) (m : MemoryMap) (pageAddr : Nat) {n : Nat}
    (h : n ≤ L1_HUGE_PAGES) : spanPages mm m pageAddr n ≤ L1_HUGE_PAGES := by
  have hlen := (List.takeWhile_sublist (continuesSpan mm m pageAddr)
    (l := List.range' 1 (max n 1 - 1))).length_le
  rw [List.length_range'] at hlen
  unfold spanPages L1_HUGE_PAGES at *
  omega

/-- The release of the only slot in hand. -/
theorem releaseLast_acct (own : Option Nat) (pid slot : Nat) :
    Triple (Acct id own [slot]) (releaseProcessFrameSlot pid slot) (fun _ => FrameInv)
      (fun _ => FrameInv) :=
  (releaseProcessFrameSlot_acct pid slot).imp (fun _ h => h) (fun _ _ h => FrameInv.of_acct h)
    fun _ _ h => FrameInv.of_acct h

/-- The frames that a file service lends for a span go into the table, or back. -/
theorem tryZeroCopy_keeps (pid fd pageAddr : Nat) (m : MemoryMap) {pages : Nat} (hpos : 0 < pages)
    (hle : pages ≤ L1_HUGE_PAGES) : Keeps FrameInv (tryZeroCopy pid fd pageAddr m pages) := by
  refine keeps_of_acct (some pid) ?_
  refine Triple.bind (acct_step (by simp [backingHandle])) fun _ => ?_
  refine Triple.bind (acct_error cspaceAlloc_acct) fun slot => ?_
  refine Triple.bind (R := Triple.onOutcome (fun _ => Acct id (some pid) [slot]) fun _ => FrameInv)
    (Triple.attempt (acct_error (fsMapPages_acct pages slot))) fun r => ?_
  have hfree : Keeps FrameInv (cspaceFree slot) := cspaceFree_keeps slot
  cases r with
  | ok n =>
    cases n with
    -- no page was mapped, so the slot is given back, and the call fails
    | zero => exact Triple.bind (releaseLast_acct _ pid slot) fun _ => Triple.throw fun _ h => h
    | succ n =>
      change Triple (Acct id (some pid) [slot]) _ _ _
      refine Triple.bind (R := fun _ => Acct id (some pid) [slot]) ?_ fun _ => ?_
      -- an install that fails gives the new frame back
      · refine Triple.onError ((mapProcessFrame_frames _ _ _ _ _).keepsProp.triple) fun _ => ?_
        exact releaseLast_acct _ pid slot
      · refine Triple.bind (acct_step (by simp)) fun _ => ?_
        exact Triple.bind (installSpan_acct hpos hle) fun _ =>
          Triple.bind (emit_filled_keeps _).triple fun _ => Triple.pure fun _ h => h
  | error e =>
    cases e with
    -- without the zero-copy path the slot is free again, and the copy is tried
    | notSupported => exact (Keeps.bind hfree fun _ => Keeps.pure _).triple
    | _ => exact (Keeps.bind hfree fun _ => Keeps.throw _).triple

/-- The frame of a page with the bytes of a file goes into the table, or back. -/
theorem copyFilePage_keeps (pid fd pageAddr : Nat) (m : MemoryMap) :
    Keeps FrameInv (copyFilePage pid fd pageAddr m) := by
  refine keeps_of_acct (some pid) ?_
  -- the two cleanups after the page is installed
  have hundo : ∀ slot, Triple (Acct id (some pid) [slot])
      (do ignore (unmapProcessPages pid pageAddr 1); releaseProcessFrameSlot pid slot)
      (fun _ => FrameInv) (fun _ => FrameInv) := fun slot =>
    Triple.bind (acct_step (by simp)) fun _ => releaseLast_acct _ pid slot
  unfold copyFilePage
  refine Triple.bind (acct_step (by simp [backingHandle])) fun _ => ?_
  refine Triple.bind (acct_error allocPageFrame_acct) fun slot => ?_
  refine Triple.bind (acct_step (by simp)) fun _ => ?_
  refine Triple.bind (R := fun _ => Acct id (some pid) [slot]) ?_ fun _ => ?_
  · exact Triple.onError ((mapProcessFrame_frames _ _ _ _ _).keepsProp.triple) fun _ =>
      releaseLast_acct _ pid slot
  refine Triple.bind (R := fun _ => Acct id (some pid) [slot]) ?_ ?_
  · exact Triple.onError ((mapScratch_frames _ _ _).keepsProp.triple) fun _ => hundo slot
  intro scratch
  refine Triple.bind (acct_step (Frames.attempt (fillFromFile_frames scratch))) fun r => ?_
  refine Triple.bind (acct_step (by simp)) fun _ => ?_
  refine Triple.bind (R := fun _ => Acct id (some pid) [slot]) ?_ fun _ => ?_
  · exact Triple.onError ((Keeps.ofExcept r).triple) fun _ => hundo slot
  refine Triple.bind (acct_step (by simp)) fun _ => ?_
  exact Triple.bind (installSpan_acct (by simp) (by simp [L1_HUGE_PAGES])) fun _ =>
    Triple.bind (emit_filled_keeps _).triple fun _ => Triple.pure fun _ h => h

/-- A fault in a file mapping is served by frames of the service, or by a copy. -/
theorem mapFileBackedFaultPage_keeps (pid pageAddr : Nat) (m : MemoryMap) {n : Nat}
    (hn : n ≤ L1_HUGE_PAGES) : Keeps FrameInv (mapFileBackedFaultPage pid pageAddr m n) := by
  unfold mapFileBackedFaultPage
  refine Keeps.bind (by simp) fun fd => Keeps.bind (by simp) fun task => ?_
  refine Keeps.bind (tryZeroCopy_keeps _ _ _ _ (spanPages_pos _ _ _ _) (spanPages_le _ _ _ hn)) ?_
  exact fun k => Keeps.ite (by simp) (copyFilePage_keeps _ _ _ _)

/-! ### Faults in an entry -/

/-- A page that is mapped again keeps its frame. -/
theorem remapExistingPage_keeps (pid pageAddr frameCap : Nat) (perms : Perms) (pages : Nat) :
    Keeps FrameInv (remapExistingPage pid pageAddr frameCap perms pages) := by
  have hflags : Keeps FrameInv (modifyMm pid fun mm => { mm with
      memoryMaps := mm.memoryMaps.modify pageAddr fun m => { m with flags := perms } }) :=
    modifyMm_keeps_frameInv fun mm hmm =>
      ⟨fun s => (mm.uses_modify pageAddr (f := fun m => { m with flags := perms })
        (fun _ => rfl) s).le,
        hmm.modify pageAddr fun _ => ⟨rfl, rfl⟩⟩
  unfold remapExistingPage
  exact Keeps.bind (Frames.keepsProp (by simp)) fun _ =>
    Keeps.bind (Frames.keepsProp (by simp)) fun _ => hflags

/-- The entry of a resolved copy-on-write fault takes the new frame and gives the old one
back. -/
theorem MmState.uses_replace {mm : MmState} {k slot : Nat} {m : MemoryMap}
    {f : MemoryMap → MemoryMap}
    (h : mm.memoryMaps.get? k = some m) (hf : (f m).frameCap = slot) (s : Nat) :
    ({ mm with memoryMaps := mm.memoryMaps.modify k f } : MmState).uses s + [m.frameCap].count s
      = mm.uses s + [slot].count s := by
  have herase := OrdMap.total_erase (fun e : MemoryMap => if e.frameCap = s then 1 else 0)
    mm.memoryMaps h
  simp only [uses, OrdMap.modify_eq_insert _ f h, OrdMap.total_insert, hf, List.count_singleton,
    beq_iff_eq]
  omega

/-- A copy-on-write fault in the entry `m` of the table. -/
theorem resolveCowFault_acct {pid k : Nat} {m : MemoryMap} (perms : Perms) :
    Triple
      (fun w => FrameInv w ∧ ∃ mm : MmState, w.mms.get? pid = some mm ∧
        mm.memoryMaps.get? k = some m)
      (resolveCowFault pid k m.frameCap perms) (fun _ => FrameInv) (fun _ => FrameInv) := by
  refine Triple.ite (fun _ => Triple.throw fun _ h => h.1) fun _ => ?_
  let R (mms : OrdMap Nat MmState) : Prop :=
    ∃ mm, mms.get? pid = some mm ∧ mm.memoryMaps.get? k = some m
  suffices h : Triple (fun w => Acct id (some pid) [] w ∧ R w.mms) _ (fun _ => FrameInv)
      (fun _ => FrameInv) from h.pre fun w hw => ⟨FrameInv.acct hw.1 _, hw.2⟩
  refine Triple.bind (R := fun slot w => Acct id (some pid) [slot] w ∧ R w.mms) ?_ ?_
  · exact ((allocPageFrameNoCleanup_acct 1).frame (by simp) R).errors
      fun _ _ h => FrameInv.of_acct h.1
  intro slot
  refine Triple.bind (acct_step_at R (by simp)) fun _ =>
    Triple.bind (acct_step_at R (copyFramePage_frames _ _)) fun _ => ?_
  refine Triple.bind (acct_step_at R (by simp)) fun _ =>
    Triple.bind (acct_step_at R (by simp)) fun _ => ?_
  refine Triple.bind (R := fun _ => Acct id (some pid) [m.frameCap]) ?_ fun _ =>
    releaseLast_acct _ _ _
  refine modifyMm_acct.pre fun w h => ⟨h.1, ?_⟩
  obtain ⟨mm, hp, hk⟩ := h.2
  refine ⟨mm, hp, fun hmm => ⟨fun s => (MmState.uses_replace hk rfl s).le, ?_⟩⟩
  exact hmm.modify k fun _ => ⟨rfl, rfl⟩

/-! ### Splitting an entry -/

/-- The release of slots in hand. -/
theorem releaseSlots_acct {g : OrdMap Nat MmState → OrdMap Nat MmState} {own : Option Nat}
    {held : List Nat} {E : Err → World → Prop} (pid : Nat) (slots : List Nat) :
    Triple (Acct g own (slots ++ held)) (forEach slots fun slot => releaseProcessFrameSlot pid slot)
      (fun _ => Acct g own held) E :=
  Triple.forEach (fun rest => Acct g own (rest ++ held))
    (fun slot _ => (releaseProcessFrameSlot_total pid slot).triple
      (releaseProcessFrameSlot_acct pid slot)) slots

/-- The temporary frames of a split are given back one by one. -/
theorem releaseTempFrameSlots_acct (own : Option Nat) (pid : Nat) (slots : List Nat) :
    Triple (Acct id own slots) (releaseTempFrameSlots pid slots) (fun _ => FrameInv)
      (fun _ => FrameInv) := by
  have h : Triple (Acct id own (slots ++ [])) (releaseTempFrameSlots pid slots) _
      (fun _ => FrameInv) := releaseSlots_acct pid slots
  rw [List.append_nil] at h
  exact h.post fun _ _ h => FrameInv.of_acct h

/-- The new frames of a split are in hand. -/
theorem splitCopyPages_acct (own : Option Nat) (pid src : Nat) (l slots : List Nat) :
    Triple (Acct id own slots) (splitCopyPages pid src l slots) (fun slots' => Acct id own slots')
      (fun _ => FrameInv) := by
  -- the copies so far are in hand; an error gives them back, and a further page joins them
  induction l generalizing slots with
  | nil => exact Triple.pure fun _ h => h
  | cons idx rest ih =>
    have hclean : Triple (Acct id own slots)
        (do ignore (unmapScratch src); releaseTempFrameSlots pid slots) (fun _ => FrameInv)
        (fun _ => FrameInv) :=
      Triple.bind (acct_step (by simp)) fun _ => releaseTempFrameSlots_acct own pid slots
    unfold splitCopyPages
    refine Triple.bind (R := fun slot w => Acct id own slots w ∧ Fresh slot w) ?_ ?_
    · exact Triple.onError cspaceAlloc_acct fun _ => hclean
    intro slot
    refine Triple.bind (R := fun _ => Acct id own (slot :: slots)) ?_ fun _ => ?_
    · refine Triple.onError (resAllocPage_acct 1 slot) fun _ => ?_
      exact Triple.bind (acct_step (by simp)) fun _ => hclean
    refine Triple.bind (acct_step (by simp)) fun _ => ?_
    refine Triple.bind (R := fun _ => Acct id own (slot :: slots)) ?_ ?_
    · refine Triple.onError ((mapScratch_frames _ _ _).keepsProp.triple) fun _ => ?_
      exact Triple.bind (acct_error (releaseProcessFrameSlot_acct pid slot)) fun _ => hclean
    intro dst
    refine Triple.bind (acct_step (by simp)) fun _ => Triple.bind (acct_step (by simp)) fun _ => ?_
    exact (ih _).pre fun w h => h.perm (List.perm_append_singleton slot slots).symm

/-- The temporary frames of a split are in hand while their pages are mapped. -/
theorem splitMapPages_acct (own : Option Nat) (pid : Nat) (m : MemoryMap) (slots : List Nat)
    (l : List (Nat × Nat)) :
    Triple (Acct id own slots) (splitMapPages pid m slots l) (fun _ => Acct id own slots)
      (fun _ => FrameInv) := by
  induction l with
  | nil => exact Triple.pure fun _ h => h
  | cons e rest ih =>
    refine Triple.bind (R := fun _ => Acct id own slots) ?_ fun _ => ih
    refine Triple.onError ((mapProcessFrame_frames _ _ _ _ _).keepsProp.triple) fun _ => ?_
    refine Triple.bind (acct_step (by simp)) fun _ => Triple.bind (acct_step (by simp)) fun _ => ?_
    exact releaseTempFrameSlots_acct own pid slots

/-- The uses after a list of entries is added. -/
theorem MmState.uses_foldl_add (l : List MemoryMap) (mm : MmState) (s : Nat) :
    (l.foldl MmState.addMemoryMap mm).uses s ≤ mm.uses s + (l.map (·.frameCap)).count s := by
  induction l generalizing mm with
  | nil => simp
  | cons m rest ih =>
    have hm := mm.uses_add_le m s
    have hrest := ih (mm.addMemoryMap m)
    rw [List.count_singleton] at hm
    rw [List.foldl_cons, List.map_cons, List.count_cons]
    omega

/-- Single pages that are added keep the shape of the table. -/
theorem MmState.Shaped.foldl_addPage (l : List MemoryMap) {mm : MmState} (h : mm.Shaped)
    (hl : ∀ m ∈ l, m.size = PGSIZE) : (l.foldl MmState.addMemoryMap mm).Shaped := by
  induction l generalizing mm with
  | nil => exact h
  | cons m rest ih =>
    exact ih (h.addPage (hl m (List.mem_cons_self ..))) fun e he => hl e (List.mem_cons_of_mem _ he)

/-- A split is a removal and a list of pages. -/
theorem MmState.insertSplit_eq (mm : MmState) (m : MemoryMap) (slots : List Nat) :
    mm.insertSplit m slots = (slots.zipIdx.map fun e => splitEntry m e.1 e.2).foldl
      MmState.addMemoryMap (mm.removeMemoryMap m.vaddr) := by
  rw [insertSplit, List.foldl_map]

/-- The frames of a split replace the old one, or go back. -/
theorem splitLargeMappingIntoBasePages_keeps (pid mapStart : Nat) :
    Keeps FrameInv (splitLargeMappingIntoBasePages pid mapStart) := by
  refine keeps_of_acct (some pid) ?_
  refine Triple.bind ((getProcess_at pid).errors fun _ _ h => FrameInv.of_acct h) fun task => ?_
  refine Triple.bind (R := fun m w => Acct id (some pid) [] w ∧
      (w.mms.get? pid = some task.mm.state ∧ task.mm.state.memoryMaps.get? mapStart = some m))
    (Triple.getSome (fun m w hm h => ⟨h.1, h.2, hm⟩) fun w _ h => FrameInv.of_acct h.1) fun m => ?_
  let R (mms : OrdMap Nat MmState) : Prop :=
    mms.get? pid = some task.mm.state ∧ task.mm.state.memoryMaps.get? mapStart = some m
  -- an entry of another kind and one of a single page are left alone
  refine Triple.ite (fun _ => Triple.pure fun _ h => FrameInv.of_acct h.1) fun _ => ?_
  refine Triple.ite (fun _ => Triple.pure fun _ h => FrameInv.of_acct h.1) fun _ => ?_
  refine Triple.bind (acct_step_at R (by simp)) fun src => ?_
  refine Triple.bind (R := fun slots w => Acct id (some pid) slots w ∧ R w.mms)
    (((splitCopyPages_acct _ pid src _ []).frame (by simp) R).errors
      fun _ _ h => h.1) fun slots => ?_
  refine Triple.bind (acct_step_at R (by simp)) fun _ => ?_
  refine Triple.bind (acct_step_at R (by simp)) fun _ => ?_
  refine Triple.bind (R := fun _ w => Acct id (some pid) slots w ∧ R w.mms)
    (((splitMapPages_acct _ pid m slots _).frame (by simp) R).errors fun _ _ h => h.1) fun _ => ?_
  refine Triple.bind (acct_step_at R (by simp)) fun _ => ?_
  -- the old frame is in hand once the new entries stand in its place
  refine Triple.bind (R := fun _ => Acct id (some pid) [m.frameCap]) ?_ fun _ =>
    releaseLast_acct _ _ _
  refine modifyMm_acct.pre fun w h => ⟨h.1, task.mm.state, h.2.1, ?_⟩
  intro hmm
  have hkey : task.mm.state.memoryMaps.get? m.vaddr = some m := by
    rw [(hmm mapStart m h.2.2).1]
    exact h.2.2
  have hcaps : (slots.zipIdx.map fun e => splitEntry m e.1 e.2).map (·.frameCap) = slots := by
    rw [List.map_map]
    exact List.zipIdx_map_fst 0 slots
  rw [MmState.insertSplit_eq]
  refine ⟨?_, (hmm.remove _).foldl_addPage _ ?_⟩
  -- the new entries hold the new frames, and the old one is in no entry
  · intro s
    have hadd := MmState.uses_foldl_add (slots.zipIdx.map fun e => splitEntry m e.1 e.2)
      (task.mm.state.removeMemoryMap m.vaddr) s
    have hrem := MmState.uses_remove hkey s
    rw [hcaps] at hadd
    omega
  · intro e he
    obtain ⟨_, _, rfl⟩ := List.mem_map.mp he
    rfl

/-- The entries at the ends of a range are split. -/
theorem ensurePartialMultiPageRangesSplit_keeps (pid start stop : Nat) :
    Keeps FrameInv (ensurePartialMultiPageRangesSplit pid start stop) :=
  Keeps.bind (getProcess_keeps _) fun _ =>
    Keeps.forEach fun _ => splitLargeMappingIntoBasePages_keeps _ _

/-! ### `mmap` and `munmap` -/

/-- The break is no frame. -/
theorem doBrk_keeps (pid addr : Nat) : Keeps FrameInv (doBrk pid addr) := by
  unfold doBrk
  refine Keeps.bind (by simp) fun task => Keeps.ite (by simp) (Keeps.ite (by simp) ?_)
  exact Keeps.bind (modifyMm_keeps_of_maps fun _ => rfl) fun _ => Keeps.pure _

/-- The tables have the entries of `mapped` in the process `pid`. -/
def HasEntries (pid : Nat) (mapped : List (Nat × Nat)) (mms : OrdMap Nat MmState) : Prop :=
  ∃ mm, mms.get? pid = some mm ∧
    ∀ e ∈ mapped, ∃ m, mm.memoryMaps.get? e.1 = some m ∧ m.frameCap = e.2

/-- The pages of an `mmap` that is undone give their frames back. -/
theorem rollbackEager_acct (pid : Nat) (mapped : List (Nat × Nat))
    (hnd : (mapped.map (·.1)).Nodup) :
    Triple (fun w => FrameInv w ∧ HasEntries pid mapped w.mms) (rollbackEager pid mapped)
      (fun _ => FrameInv) (fun _ => FrameInv) := by
  -- the frames of the entries that are still to be rolled back are in the table
  let I (rest : List (Nat × Nat)) (w : World) : Prop :=
    FrameInv w ∧ (rest.map (·.1)).Nodup ∧ HasEntries pid rest w.mms
  refine (Triple.forEach I (E := fun _ => FrameInv) (fun e rest => ?_) mapped).imp
    (fun w h => ⟨h.1, hnd, h.2⟩) (fun _ w h => h.1) fun _ _ h => h
  let R (mms : OrdMap Nat MmState) : Prop :=
    ((e :: rest).map (·.1)).Nodup ∧ HasEntries pid (e :: rest) mms
  let R' (mms : OrdMap Nat MmState) : Prop := (rest.map (·.1)).Nodup ∧ HasEntries pid rest mms
  suffices h : Triple (fun w => Acct id (some pid) [] w ∧ R w.mms) _
      (fun _ w => FrameInv w ∧ R' w.mms) (fun _ => FrameInv) from
    h.pre fun w hw => ⟨FrameInv.acct hw.1 _, hw.2⟩
  refine Triple.bind (acct_step_at R (by simp)) fun _ => ?_
  refine Triple.bind (R := fun _ w => Acct id (some pid) [e.2] w ∧ R' w.mms) ?_ fun _ => ?_
  · refine modifyMm_acct_at.pre fun w h => ⟨h.1, ?_⟩
    obtain ⟨hnd, mm, hp, hall⟩ := h.2
    obtain ⟨m, hm, hcap⟩ := hall e (List.mem_cons_self ..)
    obtain ⟨hnot, hnd'⟩ := List.nodup_cons.mp hnd
    refine ⟨mm, hp, fun hmm => ⟨fun s => ?_, hmm.remove _⟩, hnd', _, OrdMap.get?_insert_self .., ?_⟩
    -- the entry that is removed gives up one use of its frame
    · have := MmState.uses_remove hm s
      rw [hcap] at this
      simpa using this.le
    · intro e' he'
      -- the other entries are at other addresses, so they are still there
      have hne : e'.1 ≠ e.1 := fun heq => hnot (List.mem_map.mpr ⟨e', he', heq⟩)
      obtain ⟨m', hm', hcap'⟩ := hall e' (List.mem_cons_of_mem _ he')
      exact ⟨m', by rw [MmState.removeMemoryMap, OrdMap.get?_erase_ne _ hne]; exact hm', hcap'⟩
  · exact ((releaseLast_acct _ pid e.2).frame (by simp) R').errors fun _ _ h => h.1

/-- The pages of an `mmap` have their frames, also when it is undone. -/
theorem mapAnonymousPages_acct (pid : Nat) (perms : Perms) (pages : List Nat)
    (mapped : List (Nat × Nat)) (hnd : (pages ++ mapped.map (·.1)).Nodup) :
    Triple (fun w => FrameInv w ∧ HasEntries pid mapped w.mms)
      (mapAnonymousPages pid perms pages mapped) (fun _ => FrameInv) (fun _ => FrameInv) := by
  -- the pages that are mapped so far have entries, so a failure can roll them back
  induction pages generalizing mapped with
  | nil => exact Triple.pure fun _ h => h.1
  | cons page rest ih =>
    have hmapped : (mapped.map (·.1)).Nodup := (List.nodup_append.mp hnd).2.1
    let R (mms : OrdMap Nat MmState) : Prop := HasEntries pid mapped mms
    have hrollback : Triple (fun w => FrameInv w ∧ R w.mms) (rollbackEager pid mapped)
        (fun _ => FrameInv) (fun _ => FrameInv) := rollbackEager_acct pid mapped hmapped
    unfold mapAnonymousPages
    suffices h : Triple (fun w => Acct id (some pid) [] w ∧ R w.mms) _ (fun _ => FrameInv)
        (fun _ => FrameInv) from h.pre fun w hw => ⟨FrameInv.acct hw.1 _, hw.2⟩
    refine Triple.bind (R := fun slot w => (Acct id (some pid) [] w ∧ Fresh slot w) ∧ R w.mms)
      ((cspaceAlloc_acct.frame (by simp) R).errors fun _ _ h => FrameInv.of_acct h.1) fun slot => ?_
    refine Triple.bind (R := fun _ w => Acct id (some pid) [slot] w ∧ R w.mms) ?_ fun _ => ?_
    -- a refused allocation frees the slot, and a refused install gives the frame back too
    · refine Triple.onError ((resAllocPage_acct 1 slot).frame (by simp) R) fun _ => ?_
      exact Triple.bind (acct_step_at R (by simp)) fun _ =>
        hrollback.pre fun w hw => ⟨FrameInv.of_acct hw.1, hw.2⟩
    refine Triple.bind (acct_step_at R (by simp)) fun _ => ?_
    refine Triple.bind (R := fun _ w => Acct id (some pid) [slot] w ∧ R w.mms) ?_ fun _ => ?_
    · have hmap : Keeps (Acct id (some pid) [slot]) (mapProcessFrame pid slot page perms 1) :=
        (mapProcessFrame_frames _ _ _ _ _).keepsProp
      refine Triple.onError (hmap.triple.frame (by simp) R) fun _ => ?_
      refine Triple.bind (((releaseLast_acct _ pid slot).frame (by simp) R).errors
        fun _ _ h => h.1) fun _ => hrollback
    refine Triple.bind (R := fun _ w => Acct id (some pid) [] w ∧
      HasEntries pid ((page, slot) :: mapped) w.mms) ?_ fun _ => ?_
    -- the new entry holds the frame, and the pages before it keep theirs
    · refine modifyMm_acct_at.pre fun w h => ⟨h.1, ?_⟩
      obtain ⟨mm, hp, hall⟩ := h.2
      refine ⟨mm, hp, fun hmm => ⟨fun s => ?_, hmm.addPage rfl⟩, _, OrdMap.get?_insert_self .., ?_⟩
      · simpa [pageEntry] using mm.uses_add_le (pageEntry page perms .anonymous slot) s
      · intro e he
        rcases List.mem_cons.mp he with rfl | he
        · exact ⟨pageEntry page perms .anonymous slot, OrdMap.get?_insert_self .., rfl⟩
        · have hne : e.1 ≠ page := by
            intro heq
            refine (List.nodup_cons.mp hnd).1 (List.mem_append_right _ ?_)
            exact heq ▸ List.mem_map_of_mem he
          obtain ⟨m, hm, hcap⟩ := hall e he
          exact ⟨m, (OrdMap.get?_insert_ne _ _ hne).trans hm, hcap⟩
    · refine (ih ((page, slot) :: mapped) ?_).pre fun w hw => ⟨FrameInv.of_acct hw.1, hw.2⟩
      exact (List.perm_middle.nodup_iff).mpr hnd

/-- No page of a range comes twice. -/
theorem pageRange_nodup (start stop : Nat) : (pageRange start stop).Nodup :=
  List.nodup_range.map fun i j (h : start + i * PGSIZE = start + j * PGSIZE) => by
    unfold PGSIZE at h
    omega

/-- The pages of a new mapping of a process that is there. -/
theorem mapNewRange_acct (pid start stop : Nat) (perms : Perms) (fileBacking : Option (Nat × Nat)) :
    Triple (fun w => FrameInv w ∧ HasEntries pid [] w.mms)
      (mapNewRange pid start stop perms fileBacking) (fun _ => FrameInv) (fun _ => FrameInv) := by
  unfold mapNewRange
  split
  · rename_i fd offset
    refine Triple.pre (Keeps.triple ?_) fun w h => h.1
    refine Keeps.bind (logFileMap_frames _).keepsProp fun _ => Keeps.bind (by simp) fun _ => ?_
    exact Keeps.forEach fun page => Keeps.bind (by simp) fun b =>
      modifyMm_keeps_of_maps fun _ => rfl
  · exact mapAnonymousPages_acct pid perms _ [] (by simpa using pageRange_nodup start stop)

/-- The ranges are entries of the table, with their frames and page counts. -/
def RangesOf (mm : MmState) (ranges : OrdMap Nat (Nat × Nat)) : Prop :=
  ∀ v c n, ranges.get? v = some (c, n) →
    ∃ m, mm.memoryMaps.get? v = some m ∧ m.frameCap = c ∧ m.pages = n

/-- The range of an entry is collected once. -/
theorem RangesOf.orInsert {mm : MmState} {ranges : OrdMap Nat (Nat × Nat)} (h : RangesOf mm ranges)
    {m : MemoryMap} (hm : mm.memoryMaps.get? m.vaddr = some m) :
    RangesOf mm (ranges.orInsert m.vaddr (m.frameCap, m.pages)) := by
  intro v c n hv
  rw [OrdMap.get?_orInsert] at hv
  split at hv
  · rename_i heq
    subst heq
    cases hr : ranges.get? m.vaddr with
    | none =>
      rw [hr] at hv
      cases hv
      exact ⟨m, hm, rfl, rfl⟩
    | some e =>
      rw [hr] at hv
      cases hv
      exact h _ _ _ hr
  · exact h v c n hv

/-- What is collected for an unmapping are the ranges of entries. -/
theorem MmState.Shaped.mappedRanges {mm : MmState} (hmm : mm.Shaped) (pages : List Nat) :
    RangesOf mm (mm.mappedRanges pages) := by
  refine List.foldlRecOn pages _ (motive := RangesOf mm) (fun v c n h => by simp at h)
    fun acc hacc page _ => ?_
  split
  · rename_i m hm
    split
    · refine hacc.orInsert ?_
      rw [(hmm page m hm).1]
      exact hm
    · exact hacc
  · exact hacc

/-- The removal of lazy mappings leaves the other table alone. -/
theorem MmState.memoryMaps_foldl_removeLazy (mm : MmState) (l : List Nat) :
    (l.foldl MmState.removeLazyMemoryMap mm).memoryMaps = mm.memoryMaps := by
  induction l generalizing mm with
  | nil => rfl
  | cons a rest ih => exact ih _

/-- The uses after entries with distinct keys are removed. -/
theorem MmState.uses_foldl_remove (s : Nat) (es : List (Nat × Nat)) (mm : MmState)
    (hnd : (es.map (·.1)).Nodup)
    (hes : ∀ e ∈ es, ∃ m, mm.memoryMaps.get? e.1 = some m ∧ m.frameCap = e.2) :
    ((es.map (·.1)).foldl MmState.removeMemoryMap mm).uses s + (es.map (·.2)).count s
      = mm.uses s := by
  induction es generalizing mm with
  | nil => simp
  | cons e rest ih =>
    obtain ⟨hnot, hnd'⟩ := List.nodup_cons.mp hnd
    obtain ⟨m, hm, hcap⟩ := hes e (List.mem_cons_self ..)
    have hrest := ih (mm.removeMemoryMap e.1) hnd' fun e' he' => by
      obtain ⟨m', hm', hcap'⟩ := hes e' (List.mem_cons_of_mem _ he')
      have hne : e'.1 ≠ e.1 := fun heq => hnot (List.mem_map.mpr ⟨e', he', heq⟩)
      exact ⟨m', by rw [removeMemoryMap, OrdMap.get?_erase_ne _ hne]; exact hm', hcap'⟩
    have hone := uses_remove hm s
    rw [hcap, List.count_singleton] at hone
    rw [List.map_cons, List.foldl_cons, List.map_cons, List.count_cons]
    omega

/-- The removal of mappings keeps the shape of the table. -/
theorem MmState.Shaped.foldl_remove {mm : MmState} (h : mm.Shaped) (l : List Nat) :
    (l.foldl MmState.removeMemoryMap mm).Shaped := by
  induction l generalizing mm with
  | nil => exact h
  | cons a rest ih => exact ih (h.remove a)

/-- The frames of ranges that are taken out of a table are no longer in use. -/
theorem RangesOf.uses_removeRanges {mm : MmState} {ranges : OrdMap Nat (Nat × Nat)}
    (h : RangesOf mm ranges) (pages : List Nat) (s : Nat) :
    (mm.removeRanges pages ranges).uses s + (ranges.entries.map (·.2.1)).count s = mm.uses s := by
  have hes : ∀ e ∈ ranges.entries.map (fun e => (e.1, e.2.1)),
      ∃ m, (pages.foldl MmState.removeLazyMemoryMap mm).memoryMaps.get? e.1 = some m
        ∧ m.frameCap = e.2 := by
    intro e he
    obtain ⟨e', he', rfl⟩ := List.mem_map.mp he
    obtain ⟨m, hm, hcap, -⟩ := h e'.1 e'.2.1 e'.2.2 (OrdMap.mem_entries.mp he')
    exact ⟨m, by rw [MmState.memoryMaps_foldl_removeLazy]; exact hm, hcap⟩
  have hkeys : (ranges.entries.map (fun e => (e.1, e.2.1))).map (·.1) = ranges.keys := by
    rw [List.map_map]
    rfl
  have huses := MmState.uses_foldl_remove s _ _ (by rw [hkeys]; exact ranges.keys_nodup) hes
  rw [hkeys, List.map_map, MmState.uses_congr (MmState.memoryMaps_foldl_removeLazy mm pages)]
    at huses
  exact huses

/-- The frames of ranges that are taken out of a table are in hand. -/
theorem removeRanges_acct {pid : Nat} {mm : MmState} {pages : List Nat}
    {ranges : OrdMap Nat (Nat × Nat)} {E : Err → World → Prop}
    (hr : mm.Shaped → RangesOf mm ranges) :
    Triple (fun w => FrameInv w ∧ w.mms.get? pid = some mm)
      (modifyMm pid (·.removeRanges pages ranges))
      (fun _ w => Acct id (some pid) (ranges.entries.map (·.2.1)) w ∧
        HasEntries pid [] w.mms) E := by
  refine modifyMm_acct_at.pre fun w h =>
    ⟨FrameInv.acct h.1 _, mm, h.2, fun hmm => ⟨fun s => ?_, ?_⟩,
    _, OrdMap.get?_insert_self .., fun e he => by cases he⟩
  · exact ((hr hmm).uses_removeRanges pages s).le
  · exact (hmm.congr (MmState.memoryMaps_foldl_removeLazy mm pages)).foldl_remove _

/-- The frames that were taken out of the table are given back. -/
theorem unmapRanges_acct (pid : Nat) (ranges : OrdMap Nat (Nat × Nat))
    (R : OrdMap Nat MmState → Prop) :
    Triple (fun w => Acct id (some pid) (ranges.entries.map (·.2.1)) w ∧ R w.mms)
      (unmapRanges pid ranges) (fun _ w => FrameInv w ∧ R w.mms) (fun _ => FrameInv) := by
  let I (rest : List (Nat × (Nat × Nat))) (w : World) : Prop :=
    Acct id (some pid) (rest.map (·.2.1)) w ∧ R w.mms
  refine (Triple.forEach I (E := fun _ => FrameInv) (fun e rest => ?_) ranges.entries).imp
    (fun w h => h) (fun _ w h => ⟨FrameInv.of_acct h.1, h.2⟩) fun _ _ h => h
  refine Triple.bind (acct_step_at R (by simp)) fun _ => Triple.when (fun _ => ?_) ?_
  · exact ((releaseProcessFrameSlot_acct pid e.2.1).frame (by simp) R).errors
      fun _ _ h => FrameInv.of_acct h.1
  · intro w _ h
    exact ⟨Counted.drop_cons h.1, h.2⟩

/-- The frames of the mapped ranges are released. -/
theorem takeOut_acct {pid : Nat} {mm : MmState} {pages : List Nat} {α : Type} {k : M α}
    (hk : Triple (fun w => FrameInv w ∧ HasEntries pid [] w.mms) k (fun _ => FrameInv)
      (fun _ => FrameInv)) :
    Triple (fun w => FrameInv w ∧ w.mms.get? pid = some mm)
      (do modifyMm pid (·.removeRanges pages (mm.mappedRanges pages))
          unmapRanges pid (mm.mappedRanges pages)
          k) (fun _ => FrameInv) (fun _ => FrameInv) :=
  Triple.bind (removeRanges_acct fun hmm => hmm.mappedRanges pages) fun _ =>
    Triple.bind (unmapRanges_acct pid _ (HasEntries pid [])) fun _ => hk

/-- `mmap` at a fixed address gives the frames below it back first. -/
theorem mmapFixed_keeps (pid addr len : Nat) (perms : Perms) (fileBacking : Option (Nat × Nat)) :
    Keeps FrameInv (mmapFixed pid addr len perms fileBacking) := by
  refine Keeps.ite (by simp) (Keeps.bind (by simp) fun stop => ?_)
  refine Keeps.bind (ensurePartialMultiPageRangesSplit_keeps _ _ _) fun _ => Triple.keeps ?_
  refine Triple.bind (getProcess_at pid) fun task => ?_
  refine Triple.bind (inv_step_at (fun mms => mms.get? pid = some task.mm.state)
    (by simp)) fun _ => ?_
  refine takeOut_acct (Triple.bind (mapNewRange_acct _ _ _ _ _) fun _ => Keeps.triple ?_)
  exact Keeps.bind (modifyMm_keeps_of_maps fun _ => rfl) fun _ => Keeps.pure _

/-- `mmap` where there is room. -/
theorem mmapAnywhere_keeps (pid addr len : Nat) (perms : Perms) (fileBacking : Option (Nat × Nat)) :
    Keeps FrameInv (mmapAnywhere pid addr len perms fileBacking) := by
  refine Triple.keeps (Triple.bind (getProcess_at pid) fun task => ?_)
  refine Triple.bind (inv_step_at (fun mms => mms.get? pid = some task.mm.state) (by simp))
    fun start => ?_
  refine Triple.bind ((mapNewRange_acct _ _ _ _ _).pre
    fun w h => ⟨h.1, _, h.2, fun e he => by cases he⟩)
    fun _ => Keeps.triple ?_
  exact Keeps.bind (by simp) fun _ => Keeps.bind (modifyMm_keeps_of_maps fun _ => rfl) fun _ =>
    Keeps.pure _

/-- `mmap` keeps the accounting of frames. -/
theorem doMmap_keeps (pid addr len prot flags fd offset : Nat) :
    Keeps FrameInv (doMmap pid addr len prot flags fd offset) := by
  have hfile : Keeps FrameInv (mmapFileBacking pid flags fd offset) := by
    refine Keeps.ite (by simp) (Keeps.ite (by simp) (Keeps.bind (by simp) fun _ => by simp))
  refine Keeps.ite (by simp) (Keeps.ite (by simp) (Keeps.bind hfile fun fileBacking => ?_))
  exact Keeps.ite (mmapFixed_keeps _ _ _ _ _) (mmapAnywhere_keeps _ _ _ _ _)

/-- `munmap` keeps the accounting of frames. -/
theorem doMunmap_keeps (pid addr len : Nat) : Keeps FrameInv (doMunmap pid addr len) := by
  refine Keeps.ite (by simp) (Keeps.bind (by simp) fun stop => ?_)
  refine Keeps.bind (ensurePartialMultiPageRangesSplit_keeps _ _ _) fun _ => Triple.keeps ?_
  refine Triple.bind (getProcess_at pid) fun task => ?_
  refine Triple.bind (removeRanges_acct fun hmm => hmm.mappedRanges _) fun _ => ?_
  exact (unmapRanges_acct pid _ (HasEntries pid [])).post fun _ _ h => h.1

/-! ### `mprotect` -/

/-- The new permissions leave the frames of the entries alone. -/
theorem MmState.uses_setFlags (mm : MmState) (perms : Perms) (vaddrs pages : List Nat) (s : Nat) :
    (mm.setFlags perms vaddrs pages).uses s = mm.uses s := by
  have hfold : ∀ (l : List Nat) (maps : OrdMap Nat MemoryMap),
      (l.foldl (fun maps v => maps.modify v fun m => { m with flags := perms }) maps).total
        (fun m => if m.frameCap = s then 1 else 0)
      = maps.total fun m => if m.frameCap = s then 1 else 0 := by
    intro l
    induction l with
    | nil => exact fun _ => rfl
    | cons v rest ih => exact fun maps => (ih _).trans (OrdMap.total_modify _ _ _ fun _ => rfl)
  exact hfold vaddrs mm.memoryMaps

/-- The entries after `setFlags`. -/
theorem MmState.get?_setFlags (mm : MmState) (perms : Perms) (vaddrs pages : List Nat) (k : Nat) :
    (mm.setFlags perms vaddrs pages).memoryMaps.get? k
      = if k ∈ vaddrs then (mm.memoryMaps.get? k).map fun m => { m with flags := perms }
        else mm.memoryMaps.get? k :=
  OrdMap.get?_foldl_modify (f := fun m : MemoryMap => { m with flags := perms }) (fun _ => rfl)
    vaddrs mm.memoryMaps k

/-- New permissions keep the shape of the table. -/
theorem MmState.Shaped.setFlags {mm : MmState} (h : mm.Shaped) (perms : Perms)
    (vaddrs pages : List Nat) : (mm.setFlags perms vaddrs pages).Shaped := by
  intro k m hk
  rw [MmState.get?_setFlags] at hk
  split at hk
  · obtain ⟨e, he, rfl⟩ := Option.map_eq_some_iff.mp hk
    exact h k e he
  · exact h k m hk

/-- `mprotect` keeps the accounting of frames. -/
theorem doMprotect_keeps (pid addr len prot : Nat) :
    Keeps FrameInv (doMprotect pid addr len prot) := by
  unfold doMprotect
  refine Keeps.ite (by simp) (Keeps.bind (by simp) fun last => ?_)
  refine Keeps.bind (ensurePartialMultiPageRangesSplit_keeps _ _ _) fun _ =>
    Keeps.bind (by simp) fun task => Keeps.bind (by simp) fun ranges => ?_
  refine Keeps.bind (Keeps.forEach ?_) fun _ => ?_
  · intro e
    exact Keeps.bind (Frames.keepsProp (by simp)) fun _ => Frames.keepsProp (by simp)
  · exact modifyMm_keeps_frameInv fun mm hmm =>
      ⟨fun s => (mm.uses_setFlags _ _ _ s).le, hmm.setFlags _ _ _⟩

/-! ### `mremap` -/

/-- The frames of the collected pages. -/
def RemapPageState.caps (states : List RemapPageState) : List Nat :=
  states.filterMap fun s => match s with
    | .mapped c _ => some c
    | .lazyPage _ => none

/-- A page that is mapped has a frame. -/
@[simp] theorem RemapPageState.caps_mapped (c : Nat) (f : Perms) (l : List RemapPageState) :
    caps (.mapped c f :: l) = c :: caps l := rfl

/-- A lazy page has no frame. -/
@[simp] theorem RemapPageState.caps_lazyPage (f : Perms) (l : List RemapPageState) :
    caps (.lazyPage f :: l) = caps l := rfl

/-- What is collected about a page depends on its own entries. -/
theorem MmState.collectRemapStates_congr {mm mm' : MmState} {pages : List Nat}
    (h : ∀ p ∈ pages, mm'.memoryMaps.get? p = mm.memoryMaps.get? p ∧
      mm'.lazyMemoryMaps.get? p = mm.lazyMemoryMaps.get? p) :
    mm'.collectRemapStates pages = mm.collectRemapStates pages := by
  induction pages with
  | nil => rfl
  | cons p rest ih =>
    have hp := h p (List.mem_cons_self ..)
    have hstate : mm'.remapState p = mm.remapState p := by
      rw [remapState, remapState, hp.1, hp.2]
    rw [collectRemapStates, collectRemapStates, hstate,
      ih fun q hq => h q (List.mem_cons_of_mem _ hq)]

/-- The states of a range are those of its first page and of the rest. -/
theorem MmState.collectRemapStates_cons {mm : MmState} {page : Nat} {pages : List Nat}
    {states : List RemapPageState} (h : mm.collectRemapStates (page :: pages) = .ok states) :
    ∃ s rest, mm.remapState page = .ok s ∧ mm.collectRemapStates pages = .ok rest
      ∧ states = s :: rest := by
  rw [collectRemapStates] at h
  cases hs : mm.remapState page with
  | error e => rw [hs] at h; cases h
  | ok s =>
    cases hr : mm.collectRemapStates pages with
    | error e => rw [hs, hr] at h; cases h
    | ok rest =>
      rw [hs, hr] at h
      cases h
      exact ⟨s, rest, rfl, rfl, rfl⟩

/-- A page that is collected as mapped is an entry with that frame, and one that is collected
as lazy is no entry. -/
theorem MmState.remapState_ok {mm : MmState} {page : Nat} {s : RemapPageState}
    (h : mm.remapState page = .ok s) :
    match s with
    | .mapped c f => ∃ m, mm.memoryMaps.get? page = some m ∧ m.frameCap = c ∧ m.flags = f
    | .lazyPage f => mm.memoryMaps.get? page = none ∧
        ∃ m, mm.lazyMemoryMaps.get? page = some m ∧ m.flags = f := by
  unfold remapState at h
  split at h
  · rename_i m hm
    split at h
    · cases h
    · cases h
      exact ⟨m, hm, rfl, rfl⟩
  · rename_i hnone
    split at h
    · rename_i m hm
      split at h
      · cases h
      · cases h
        exact ⟨hnone, m, hm, rfl⟩
    · cases h

/-- Taking the collected pages out of the table gives up their frames. -/
theorem MmState.uses_collected (s : Nat) (pages : List Nat) (mm : MmState)
    (states : List RemapPageState) (hnd : pages.Nodup)
    (h : mm.collectRemapStates pages = .ok states) :
    (pages.foldl (fun mm p => (mm.removeMemoryMap p).removeLazyMemoryMap p) mm).uses s
      + (RemapPageState.caps states).count s = mm.uses s := by
  -- induction over the pages: each state that is collected is the use that is taken out
  induction pages generalizing mm states with
  | nil => cases h; rfl
  | cons page rest ih =>
    obtain ⟨st, states', hst, hrest, rfl⟩ := collectRemapStates_cons h
    obtain ⟨hnot, hnd'⟩ := List.nodup_cons.mp hnd
    have hcongr : ((mm.removeMemoryMap page).removeLazyMemoryMap page).collectRemapStates rest
        = .ok states' := by
      refine (collectRemapStates_congr fun p hp => ?_).trans hrest
      have hne : p ≠ page := fun heq => hnot (heq ▸ hp)
      exact ⟨OrdMap.get?_erase_ne _ hne, OrdMap.get?_erase_ne _ hne⟩
    have hih := ih _ states' hnd' hcongr
    have huses : ((mm.removeMemoryMap page).removeLazyMemoryMap page).uses s
        = (mm.removeMemoryMap page).uses s := uses_congr rfl s
    rw [List.foldl_cons]
    have hok := remapState_ok hst
    -- a mapped page had one use of its frame, and a lazy page has no frame
    cases st with
    | mapped c f =>
      obtain ⟨m, hm, hcap, -⟩ := hok
      have hone := uses_remove hm s
      rw [hcap, List.count_singleton] at hone
      rw [RemapPageState.caps_mapped, List.count_cons]
      omega
    | lazyPage f =>
      have hsame : (mm.removeMemoryMap page).uses s = mm.uses s := by
        rw [removeMemoryMap, OrdMap.erase_of_get?_none _ hok.1]
      rw [RemapPageState.caps_lazyPage]
      omega

/-- A page at its new place uses its frame at most once. -/
theorem MmState.uses_addRemapped_le (mm : MmState) (vaddr : Nat) (st : RemapPageState)
    (l : List RemapPageState) (s : Nat) :
    (mm.addRemapped vaddr st).uses s + (RemapPageState.caps l).count s
      ≤ mm.uses s + (RemapPageState.caps (st :: l)).count s := by
  cases st with
  | mapped c f =>
    have hone : (mm.addRemapped vaddr (.mapped c f)).uses s ≤ mm.uses s + [c].count s :=
      mm.uses_add_le _ s
    rw [List.count_singleton] at hone
    rw [RemapPageState.caps_mapped, List.count_cons]
    omega
  | lazyPage f =>
    have hsame : (mm.addRemapped vaddr (.lazyPage f)).uses s = mm.uses s := uses_congr rfl s
    rw [RemapPageState.caps_lazyPage]
    omega

/-- Inserting the moved pages adds their frames. -/
theorem MmState.uses_addRemapped (s target : Nat) (l : List (RemapPageState × Nat)) (mm : MmState) :
    (l.foldl (fun mm e => mm.addRemapped (target + e.2 * PGSIZE) e.1) mm).uses s
      ≤ mm.uses s + (RemapPageState.caps (l.map (·.1))).count s := by
  induction l generalizing mm with
  | nil => simp [RemapPageState.caps]
  | cons e rest ih =>
    have hih := ih (mm.addRemapped (target + e.2 * PGSIZE) e.1)
    have hone := mm.uses_addRemapped_le (target + e.2 * PGSIZE) e.1 (rest.map (·.1)) s
    rw [List.foldl_cons, List.map_cons]
    omega

/-- Lazy pages are in the other table. -/
theorem MmState.memoryMaps_addLazyRange (mm : MmState) (flags : Perms) (pages : List Nat) :
    (mm.addLazyRange flags pages).memoryMaps = mm.memoryMaps := by
  unfold addLazyRange
  induction pages generalizing mm with
  | nil => rfl
  | cons p rest ih => exact ih _

/-- A move does not add a use of a frame. -/
theorem MmState.uses_moveRange {mm : MmState} {pages : List Nat} {states : List RemapPageState}
    (hnd : pages.Nodup) (h : mm.collectRemapStates pages = .ok states) (target : Nat)
    (flags : Perms)
    (n s : Nat) : (mm.moveRange pages target states flags n).uses s ≤ mm.uses s := by
  have hold := uses_collected s pages mm states hnd h
  have hnew := uses_addRemapped s target (states.take n).zipIdx
    (pages.foldl (fun mm p => (mm.removeMemoryMap p).removeLazyMemoryMap p) mm)
  have hcaps : (RemapPageState.caps ((states.take n).zipIdx.map (·.1))).count s
      ≤ (RemapPageState.caps states).count s := by
    have hfst : (states.take n).zipIdx.map (·.1) = states.take n := List.zipIdx_map_fst 0 _
    rw [hfst]
    exact ((List.take_sublist n states).filterMap _).count_le s
  have hmaps : (mm.moveRange pages target states flags n).uses s
      = ((states.take n).zipIdx.foldl (fun mm e => mm.addRemapped (target + e.2 * PGSIZE) e.1)
          (pages.foldl (fun mm p => (mm.removeMemoryMap p).removeLazyMemoryMap p) mm)).uses s :=
    uses_congr (memoryMaps_addLazyRange _ _ _) s
  omega

/-- A range that is moved keeps the shape of the table. -/
theorem MmState.Shaped.moveRange {mm : MmState} (h : mm.Shaped) (pages : List Nat) (target : Nat)
    (states : List RemapPageState) (flags : Perms) (n : Nat) :
    (mm.moveRange pages target states flags n).Shaped := by
  -- every entry that is added is one page, and what is removed breaks no shape
  have hremoved : ∀ (l : List Nat) (mm : MmState), mm.Shaped →
      (l.foldl (fun mm p => (mm.removeMemoryMap p).removeLazyMemoryMap p) mm).Shaped := by
    intro l
    induction l with
    | nil => exact fun _ h => h
    | cons p rest ih => exact fun mm h => ih _ ((h.remove p).congr rfl)
  have hadded : ∀ (l : List (RemapPageState × Nat)) (mm : MmState), mm.Shaped →
      (l.foldl (fun mm e => mm.addRemapped (target + e.2 * PGSIZE) e.1) mm).Shaped := by
    intro l
    induction l with
    | nil => exact fun _ h => h
    | cons e rest ih =>
      intro mm h
      have hone : ∀ st, (mm.addRemapped (target + e.2 * PGSIZE) st).Shaped := by
        intro st
        cases st with
        | mapped c f => exact h.addPage rfl
        | lazyPage f => exact h.congr rfl
      exact ih _ (hone e.1)
  exact (hadded _ _ (hremoved pages mm h)).congr (memoryMaps_addLazyRange _ _ _)

/-- A move of collected pages. -/
theorem remapMove_acct {pid oldAddr oldLen newLen target : Nat} {mm : MmState}
    {states : List RemapPageState} (flags : Perms)
    (hs : mm.collectRemapStates (pageRange oldAddr (oldAddr + oldLen)) = .ok states) :
    Triple (fun w => FrameInv w ∧ w.mms.get? pid = some mm)
      (remapMove pid oldAddr oldLen newLen target states flags) (fun _ => FrameInv)
      (fun _ => FrameInv) := by
  let R (mms : OrdMap Nat MmState) : Prop := mms.get? pid = some mm
  unfold remapMove
  refine Triple.bind (inv_step_at R (by simp)) fun stop => ?_
  refine Triple.ite (fun _ => Triple.throw fun _ h => h.1) fun _ => ?_
  refine Triple.bind (inv_step_at R (by simp)) fun task => ?_
  refine Triple.ite (fun _ => Triple.throw fun _ h => h.1) fun _ => ?_
  refine Triple.bind (inv_step_at R (remapInstall_frames _ _ _ _)) fun _ => ?_
  refine Triple.bind (inv_step_at R (by simp)) fun _ => ?_
  refine Triple.bind (R := fun _ => Acct id (some pid) []) ?_ fun _ => ?_
  · refine modifyMm_acct.pre fun w h => ⟨FrameInv.acct h.1 _, mm, h.2, fun hmm => ⟨?_, ?_⟩⟩
    · intro s
      simpa using MmState.uses_moveRange (pageRange_nodup _ _) hs target flags (newLen / PGSIZE) s
    · exact hmm.moveRange _ _ _ _ _
  · refine Triple.pre (Keeps.triple ?_) fun w h => FrameInv.of_acct h
    refine Keeps.bind (Keeps.forEach fun e => ?_) fun _ => Keeps.pure _
    split
    · exact Frames.keepsProp (by simp)
    · exact Keeps.pure _

/-- A mapping that grows in place gets lazy pages. -/
theorem expandInPlace_keeps (pid oldEnd newEnd : Nat) (flags : Perms) :
    Keeps FrameInv (expandInPlace pid oldEnd newEnd flags) :=
  Keeps.bind (by simp) fun _ =>
    modifyMm_keeps_of_maps fun mm => MmState.memoryMaps_addLazyRange mm flags _

/-- The pages of a range keep their frames at the new place. -/
theorem remapTo_acct {pid oldAddr oldLen newLen target : Nat} {mm : MmState}
    {states : List RemapPageState} (flags : Perms)
    (hs : mm.collectRemapStates (pageRange oldAddr (oldAddr + oldLen)) = .ok states) :
    Triple (fun w => FrameInv w ∧ w.mms.get? pid = some mm)
      (remapTo pid oldAddr oldLen newLen target states flags) (fun _ => FrameInv)
      (fun _ => FrameInv) := by
  have hsame : Keeps FrameInv (remapSame pid oldAddr oldLen newLen flags) := by
    unfold remapSame
    refine Keeps.ite (Keeps.bind (doMunmap_keeps _ _ _) fun _ => by simp) (Keeps.ite ?_ (by simp))
    refine Keeps.bind (by simp) fun task => Keeps.ite (by simp) ?_
    exact Keeps.bind (expandInPlace_keeps _ _ _ _) fun _ => by simp
  refine Triple.bind (inv_step_at (fun mms => mms.get? pid = some mm) (by simp)) fun _ => ?_
  exact Triple.ite (fun _ => hsame.triple.pre fun _ h => h.1) fun _ => remapMove_acct flags hs

/-- The pages of a range keep their frames wherever there is room for them. -/
theorem remapAnywhere_acct {pid oldAddr oldLen newLen : Nat} {mayMove : Bool} {mm : MmState}
    {states : List RemapPageState} (flags : Perms)
    (hs : mm.collectRemapStates (pageRange oldAddr (oldAddr + oldLen)) = .ok states) :
    Triple (fun w => FrameInv w ∧ w.mms.get? pid = some mm)
      (remapAnywhere pid oldAddr oldLen newLen mayMove states flags) (fun _ => FrameInv)
      (fun _ => FrameInv) := by
  let R (mms : OrdMap Nat MmState) : Prop := mms.get? pid = some mm
  refine Triple.ite (fun _ => Triple.ite (fun _ => ?_) fun _ =>
    Triple.pure fun _ h => h.1) fun _ => ?_
  · exact (Keeps.bind (doMunmap_keeps _ _ _) fun _ => Keeps.pure _).triple.pre fun _ h => h.1
  refine Triple.bind (inv_step_at R (by simp)) fun task => Triple.ite (fun _ => ?_) fun _ => ?_
  · exact (Keeps.bind (expandInPlace_keeps _ _ _ _) fun _ => Keeps.pure _).triple.pre fun _ h => h.1
  refine Triple.ite (fun _ => Triple.throw fun _ h => h.1) fun _ => ?_
  exact Triple.bind (inv_step_at R (by simp)) fun target => remapTo_acct flags hs

/-- `mremap` keeps the accounting of frames. -/
theorem doMremap_keeps (pid oldAddr oldSize newSize flags newAddr : Nat) :
    Keeps FrameInv (doMremap pid oldAddr oldSize newSize flags newAddr) := by
  unfold doMremap
  refine Keeps.ite (by simp) (Keeps.ite (by simp) ?_)
  refine Keeps.bind (by simp) fun _ => Keeps.bind (by simp) fun _ => Triple.keeps ?_
  refine Triple.bind (getProcess_at pid) fun task => ?_
  refine Triple.bind (R := fun states w => (FrameInv w ∧ w.mms.get? pid = some task.mm.state) ∧
      task.mm.state.collectRemapStates (pageRange oldAddr (oldAddr + alignUp oldSize)) = .ok states)
    (Triple.ofExcept (fun states w hs h => ⟨h, hs⟩) fun _ _ _ h => h.1) fun states => ?_
  refine Triple.of_pre fun w h => ?_
  obtain ⟨hw, hs⟩ := h
  suffices hk : Triple (fun w => FrameInv w ∧ w.mms.get? pid = some task.mm.state) _
      (fun _ => FrameInv) (fun _ => FrameInv) from hk.pre fun w' heq => heq ▸ hw
  refine Triple.ite (fun _ => remapAnywhere_acct _ hs) fun _ => ?_
  exact Triple.ite (fun _ => Triple.throw fun _ h => h.1) fun _ => remapTo_acct _ hs

end Ape
