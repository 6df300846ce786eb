import Ape.Lib.Blame
import Ape.Proofs.ProcessTable

/-!
# `Ape.Proofs.Answered`: runs in which no service refuses a call

`World.refused` marks a run in which a service did not give what it was asked for. `Serves pid c`
says that for a process that is there the command `c` fails only in such a run. The commands that
allocate, map and copy pages have one lemma each, in the order of the model. What such a command
does to the rest of the state is said elsewhere, and is joined to its success by
`Succeeds.and_triple` and `Succeeds.frame`.
-/

set_option autoImplicit false

namespace Ape

open Ape.Lib Cmd

/-- A service refused a call. -/
def World.Marked (w : World) : Prop := w.refused = true

/-- There is a process `pid`. -/
def World.Live (pid : Nat) (w : World) : Prop := w.live pid = true

/-- From `P` the command succeeds and ends in `Q`, unless a service refuses a call. -/
abbrev Serve {α : Type} (P : World → Prop) (c : M α) (Q : α → World → Prop) : Prop :=
  Succeeds World.Marked P c Q

/-- For a process that is there, the command fails only when a service refuses a call. -/
abbrev Serves {α : Type} (pid : Nat) (c : M α) : Prop :=
  Serve (World.Live pid) c fun _ => World.Live pid

section Commands

variable {pid : Nat}

/-! ### Services -/

/-- A command of which the mark and the process see nothing. -/
theorem serves_modify {f : World → World} (hmark : ∀ w, (f w).refused = w.refused)
    (hlive : ∀ w, (f w).live pid = w.live pid) : Serves pid (modify f) :=
  Succeeds.modify (fun w h => (hmark w).trans h) fun w h => (hlive w).trans h

/-- A look at the state does not fail. -/
theorem serves_gets {α : Type} (f : World → α) : Serves pid (gets f) :=
  Succeeds.gets fun _ h => h

/-- A command whose error is ignored serves like the command. -/
theorem ignore_serves {α : Type} {c : M α} (h : Serves pid c) : Serves pid (ignore c) :=
  Succeeds.ignore h

/-- A call fails only when it is refused, and marks that. -/
theorem ext_serves : Serves pid ext where
  stays := by
    intro w hw
    cases herr : (w.env w.tick).err with
    | some e => rw [run_ext_error herr]; rfl
    | none => rw [run_ext_ok herr]; exact hw
  good := by
    intro w hw
    cases herr : (w.env w.tick).err with
    | some e => rw [run_ext_error herr]; exact ⟨fun a ha => (by cases ha), fun _ _ => rfl⟩
    | none => rw [run_ext_ok herr]; exact ⟨fun _ _ _ => hw, fun e he => (by cases he)⟩

/-- A refusal of the server itself is marked. -/
theorem refuse_serves {α : Type} (e : Err) (Q : α → World → Prop) :
    Serve (World.Live pid) (refuse e : M α) Q where
  stays := fun _ _ => rfl
  good := refuse_triple fun _ _ => rfl

/-- The record of a process that is there is found. -/
theorem getProcess_serve {P : World → Prop} (hP : ∀ w, P w → w.live pid = true) :
    Serve P (getProcess pid) fun t w => P w ∧ w.task? pid = some t := by
  refine Succeeds.bind (R := fun o w => P w ∧ w.task? pid = o)
    (Succeeds.gets fun w h => ⟨h, rfl⟩) fun o => ?_
  refine Succeeds.getSome (fun t w ho h => ⟨h.1, h.2.trans ho⟩) fun w ho h => ?_
  -- a process that is there has a record
  have hlive := hP w h.1
  rw [World.live, h.2, ho] at hlive
  exact absurd hlive (by decide)

/-- The lookup of a process that is there does not fail. -/
theorem getProcess_serves : Serves pid (getProcess pid) :=
  (getProcess_serve fun _ h => h).post fun _ _ h => h.1

/-- A change of a memory state leaves the processes there. -/
theorem modifyMm_serves (p : Nat) (f : MmState → MmState) : Serves pid (modifyMm p f) :=
  serves_modify (fun _ => rfl) fun w => w.live_modifyTask p pid _

/-! ### Capability slots, frames and page tables -/

/-- A slot that is given out holds no frame. -/
theorem cspaceAlloc_serves : Serves pid cspaceAlloc := by
  unfold cspaceAlloc
  refine Succeeds.bind ext_serves fun a => Succeeds.bind (serves_gets _) fun free => ?_
  refine Succeeds.ite (fun _ => ?_) fun _ => refuse_serves _ _
  exact Succeeds.bind (serves_modify (fun _ => rfl) fun _ => rfl) fun _ =>
    Succeeds.pure fun _ h => h

/-- A slot is freed by a call. -/
theorem cspaceFree_serves (slot : Nat) : Serves pid (cspaceFree slot) :=
  serves_modify (fun _ => rfl) fun _ => rfl

/-- A frame is asked for by a call. -/
theorem resAllocPage_serves (pages slot : Nat) : Serves pid (resAllocPage pages slot) :=
  Succeeds.bind ext_serves fun _ => serves_modify (fun _ => rfl) fun _ => rfl

/-- A frame is given back by a call whose error is ignored. -/
theorem freeFrame_serves (slot : Nat) : Serves pid (freeFrame slot) :=
  serves_modify (fun _ => rfl) fun _ => rfl

/-- A page is mapped by a call. -/
theorem vspaceMap_serves (p slot vaddr : Nat) (perms : Perms) (pages : Nat) :
    Serves pid (vspaceMap p slot vaddr perms pages) :=
  Succeeds.bind ext_serves fun _ => serves_modify (fun _ => rfl) fun w => w.live_modifyTask p pid _

/-- A range is unmapped by a call. -/
theorem vspaceUnmap_serves (p vaddr bytes : Nat) : Serves pid (vspaceUnmap p vaddr bytes) :=
  Succeeds.bind ext_serves fun _ => serves_modify (fun _ => rfl) fun w => w.live_modifyTask p pid _

/-! ### Scratch mappings -/

/-- A scratch window is mapped by a call, or there is no room for it. -/
theorem mapScratch_serves (slot : Nat) (perms : Perms) (pages : Nat) :
    Serves pid (mapScratch slot perms pages) := by
  unfold mapScratch
  refine Succeeds.bind ext_serves fun a => Succeeds.bind (serves_gets _) fun used => ?_
  refine Succeeds.ite (fun _ => refuse_serves _ _) fun _ => ?_
  exact Succeeds.bind (serves_modify (fun _ => rfl) fun _ => rfl) fun _ =>
    Succeeds.pure fun _ h => h

/-- A scratch window is unmapped by a call. -/
theorem unmapScratch_serves (base : Nat) : Serves pid (unmapScratch base) :=
  Succeeds.bind ext_serves fun _ => serves_modify (fun _ => rfl) fun _ => rfl

/-- A store through a scratch window does not fail. -/
theorem writeScratch_serves (base : Nat) (f : Nat → UInt8 → UInt8) :
    Serves pid (writeScratch base f) := by
  refine serves_modify (fun w => ?_) fun w => ?_ <;> split <;> rfl

/-- A copy between scratch windows does not fail. -/
theorem copyScratch_serves (src offset dst n : Nat) : Serves pid (copyScratch src offset dst n) :=
  Succeeds.bind (serves_gets _) fun _ => writeScratch_serves _ _

/-- A scratch window is filled without fail. -/
theorem fillScratch_serves (base n : Nat) (byte : Nat → UInt8) :
    Serves pid (fillScratch base n byte) := writeScratch_serves base _

/-! ### Reference counters and the ledger -/

/-- The ledger is changed without fail. -/
theorem modifyLedger_serves (p : Nat) (f : ProcessLedger → ProcessLedger) :
    Serves pid (modifyLedger p f) := serves_modify (fun _ => rfl) fun _ => rfl

/-- A frame is recorded without fail. -/
theorem ledgerRecordFrameAlloc_serves (p slot : Nat) : Serves pid (ledgerRecordFrameAlloc p slot) :=
  modifyLedger_serves p _

/-- A frame that nobody uses any more is given back. -/
theorem releaseFrameCap_serves (slot : Nat) : Serves pid (releaseFrameCap slot) := by
  refine Succeeds.bind (serves_gets _) fun count => ?_
  split
  · exact Succeeds.pure fun _ h => h
  · refine Succeeds.ite (fun _ => ?_) fun _ => ?_ <;>
      exact Succeeds.bind (serves_modify (fun _ => rfl) fun _ => rfl) fun _ =>
        Succeeds.pure fun _ h => h

/-- A process gives a frame back. -/
theorem releaseProcessFrameSlot_serves (p slot : Nat) :
    Serves pid (releaseProcessFrameSlot p slot) :=
  Succeeds.bind (releaseFrameCap_serves slot) fun _ =>
    Succeeds.when (fun _ => Succeeds.bind (freeFrame_serves slot) fun _ => modifyLedger_serves p _)
      fun _ _ h => h

/-- Temporary frames are given back one after the other. -/
theorem releaseTempFrameSlots_serves (p : Nat) (slots : List Nat) :
    Serves pid (releaseTempFrameSlots p slots) :=
  Succeeds.forEach_const fun slot _ => releaseProcessFrameSlot_serves p slot

/-! ### Frames in an address space -/

/-- A process gives a page table back. -/
theorem releasePagetableSlot_serves (p slot : Nat) : Serves pid (releasePagetableSlot p slot) := by
  have hrest : ∀ released : Bool, Serves pid (when released do
      cspaceFree slot
      ledgerRecordPagetableFree p slot) := fun released =>
    Succeeds.when (fun _ => Succeeds.bind (cspaceFree_serves slot) fun _ => modifyLedger_serves p _)
      fun _ _ h => h
  exact Succeeds.attempt_bind ext_serves (fun _ => hrest _) fun _ => (hrest _).stays

/-- A page table is recorded without fail. -/
theorem recordIntermediatePageTable_serves (p level path cap : Nat) :
    Serves pid (recordIntermediatePageTable p level path cap) :=
  serves_modify (fun _ => rfl) fun w => w.live_modifyTask p pid _

/-- A page table is asked for, installed and recorded. -/
theorem addIntermediatePageTable_serves (p level path : Nat) :
    Serves pid (addIntermediatePageTable p level path) := by
  refine Succeeds.bind cspaceAlloc_serves fun slot => ?_
  have hcall : Serves pid (do let _ ← ext) :=
    Succeeds.bind ext_serves fun _ => Succeeds.pure fun _ h => h
  refine Succeeds.bind (Succeeds.onError hcall fun _ => (@cspaceFree_serves pid slot).stays)
    fun _ => ?_
  refine Succeeds.bind (modifyLedger_serves p _) fun _ => ?_
  refine Succeeds.attempt_bind ext_serves (fun _ => recordIntermediatePageTable_serves p _ _ _)
    fun e => ?_
  have hrelease := (@releasePagetableSlot_serves pid p slot).stays
  split
  · exact (@recordIntermediatePageTable_serves pid p _ _ _).stays
  · exact Keeps.bind hrelease fun _ => (@recordIntermediatePageTable_serves pid p _ _ _).stays
  · exact Keeps.bind hrelease fun _ => Keeps.throw _

/-- The tables above a page are there, or are asked for. -/
theorem ensureIntermediatePageTablesWithLeaf_serves (pageAddr leafLevel : Nat) :
    Serves pid (ensureIntermediatePageTablesWithLeaf pid pageAddr leafLevel) := by
  refine Succeeds.bind getProcess_serves fun task => Succeeds.bind (serves_gets _) fun l => ?_
  exact Succeeds.forEach_const fun level _ => addIntermediatePageTable_serves pid level _

/-- The tables above each page of a range are there, or are asked for. -/
theorem ensureRange_serves (vaddr pages n i : Nat) :
    Serves pid (ensureRange pid vaddr pages n i) := by
  induction n generalizing i with
  | zero => exact Succeeds.pure fun _ h => h
  | succ n ih =>
    refine Succeeds.ite (fun _ => ?_) fun _ => Succeeds.pure fun _ h => h
    refine Succeeds.ite (fun _ => ?_) fun _ => ?_
    · exact Succeeds.bind (ensureIntermediatePageTablesWithLeaf_serves _ 2) fun _ => ih _
    · exact Succeeds.bind (ensureIntermediatePageTablesWithLeaf_serves _ 1) fun _ => ih _

/-- A frame is mapped into a process, below tables that are there. -/
theorem mapProcessFrame_serves (slot vaddr : Nat) (perms : Perms) (pages : Nat) :
    Serves pid (mapProcessFrame pid slot vaddr perms pages) := by
  refine Succeeds.bind (ensureRange_serves vaddr pages pages 0) fun _ => ?_
  refine Succeeds.bind getProcess_serves fun _ => ?_
  refine Succeeds.attempt_bind (vspaceMap_serves pid slot vaddr perms pages)
    (fun _ => Succeeds.pure fun _ h => h) fun e => ?_
  split
  · exact Keeps.pure _
  · -- the second try comes after a refusal
    have hretry : Serves pid (do
        ignore (vspaceUnmap pid vaddr (pages * PGSIZE))
        forEach (List.range pages) fun j =>
          ensureIntermediatePageTablesWithLeaf pid (wAdd vaddr (j * PGSIZE)) 1
        vspaceMap pid slot vaddr perms pages) :=
      Succeeds.bind (ignore_serves (vspaceUnmap_serves pid vaddr _)) fun _ =>
        Succeeds.bind (Succeeds.forEach_const fun _ _ =>
          ensureIntermediatePageTablesWithLeaf_serves _ 1) fun _ => vspaceMap_serves _ _ _ _ _
    exact hretry.stays
  · exact Keeps.throw _

/-- Pages of a process are unmapped by a call. -/
theorem unmapProcessPages_serves (vaddr pages : Nat) :
    Serves pid (unmapProcessPages pid vaddr pages) :=
  Succeeds.bind getProcess_serves fun _ => vspaceUnmap_serves pid vaddr _

/-- Page frames are asked for, with a slot for them. -/
theorem allocPageFrameNoCleanup_serves (pages : Nat) :
    Serves pid (allocPageFrameNoCleanup pages) :=
  Succeeds.bind cspaceAlloc_serves fun slot => Succeeds.bind (resAllocPage_serves pages slot)
    fun _ => Succeeds.pure fun _ h => h

/-! ### Splitting an entry -/

/-- The pages of an entry are copied one after the other. -/
theorem splitCopyPages_serves (src : Nat) (l slots : List Nat) :
    Serves pid (splitCopyPages pid src l slots) := by
  induction l generalizing slots with
  | nil => exact Succeeds.pure fun _ h => h
  | cons idx rest ih =>
    have hclean : Serves pid (do
        ignore (unmapScratch src)
        releaseTempFrameSlots pid slots) :=
      Succeeds.bind (ignore_serves (unmapScratch_serves src)) fun _ =>
        releaseTempFrameSlots_serves pid slots
    refine Succeeds.bind (Succeeds.onError cspaceAlloc_serves fun _ => hclean.stays) fun slot => ?_
    refine Succeeds.bind (Succeeds.onError (resAllocPage_serves 1 slot) fun _ =>
      (Succeeds.bind (cspaceFree_serves slot) fun _ => hclean).stays) fun _ => ?_
    refine Succeeds.bind (ledgerRecordFrameAlloc_serves pid slot) fun _ => ?_
    refine Succeeds.bind (Succeeds.onError (mapScratch_serves slot Perms.RW 1) fun _ =>
      (Succeeds.bind (releaseProcessFrameSlot_serves pid slot) fun _ => hclean).stays) fun dst => ?_
    refine Succeeds.bind (copyScratch_serves src _ dst _) fun _ => ?_
    exact Succeeds.bind (ignore_serves (unmapScratch_serves dst)) fun _ => ih _

/-- The pages of a split are mapped one after the other. -/
theorem splitMapPages_serves (m : MemoryMap) (slots : List Nat) (l : List (Nat × Nat)) :
    Serves pid (splitMapPages pid m slots l) := by
  induction l with
  | nil => exact Succeeds.pure fun _ h => h
  | cons e rest ih =>
    obtain ⟨slot, idx⟩ := e
    have hclean : Serves pid (do
        forEach (List.range idx) fun back =>
          ignore (unmapProcessPages pid (wAdd m.vaddr (back * PGSIZE)) 1)
        ignore (mapProcessFrame pid m.frameCap m.vaddr m.flags m.pages)
        releaseTempFrameSlots pid slots) :=
      Succeeds.bind (Succeeds.forEach_const fun _ _ => ignore_serves (unmapProcessPages_serves _ 1))
        fun _ => Succeeds.bind (ignore_serves (mapProcessFrame_serves _ _ _ _)) fun _ =>
          releaseTempFrameSlots_serves pid slots
    exact Succeeds.bind (Succeeds.onError (mapProcessFrame_serves _ _ _ 1) fun _ => hclean.stays)
      fun _ => ih

/-- The process has an entry at `k`. -/
def World.EntryAt (pid k : Nat) (w : World) : Prop :=
  ∃ t m, w.task? pid = some t ∧ t.mm.state.memoryMaps.get? k = some m

/-- Only a process that is there has entries. -/
theorem World.EntryAt.live {k : Nat} {w : World} (h : w.EntryAt pid k) : w.live pid = true := by
  obtain ⟨t, m, ht, -⟩ := h
  rw [World.live, ht]
  rfl

/-- The split of an entry that is there fails only when a service refuses a call. -/
theorem splitLargeMappingIntoBasePages_serve (k : Nat) :
    Serve (World.EntryAt pid k) (splitLargeMappingIntoBasePages pid k) fun _ => World.Live pid := by
  refine Succeeds.bind (getProcess_serve fun _ h => h.live) fun task => ?_
  refine Succeeds.bind (R := fun _ => World.Live pid)
    (Succeeds.getSome (fun _ _ _ h => h.1.live) ?_) ?_
  · intro w hnone h
    obtain ⟨⟨t, m, ht, hm⟩, htask⟩ := h
    cases ht.symm.trans htask
    rw [hnone] at hm
    cases hm
  intro m
  refine Succeeds.ite (fun _ => Succeeds.pure fun _ h => h) fun _ => ?_
  refine Succeeds.ite (fun _ => Succeeds.pure fun _ h => h) fun _ => ?_
  refine Succeeds.bind (mapScratch_serves _ _ _) fun src => ?_
  refine Succeeds.bind (splitCopyPages_serves src _ _) fun slots => ?_
  refine Succeeds.bind (ignore_serves (unmapScratch_serves src)) fun _ => ?_
  refine Succeeds.bind (unmapProcessPages_serves _ _) fun _ => ?_
  refine Succeeds.bind (splitMapPages_serves m slots _) fun _ => ?_
  refine Succeeds.bind getProcess_serves fun _ => Succeeds.bind (modifyMm_serves pid _) fun _ => ?_
  exact releaseProcessFrameSlot_serves pid _

end Commands

end Ape
