import Ape.Proofs.Answered

/-!
# `Ape.Proofs.Granted`: services that refuse nothing

A command of the server fails because of its input or because a service refuses a call. To show that
an input is not refused, a state is needed whose services refuse nothing, for however many calls
there are (`World.Granting`). From such a state the commands that allocate and map pages succeed,
and they keep it one (`Granted`).
-/

set_option autoImplicit false

namespace Ape

open Ape.Lib Cmd

/-- Every answer to come is granted: it is no error, and its value is a slot and a scratch address
that are free and that no other answer has. There is a process `pid`. -/
structure World.Granting (pid : Nat) (w : World) : Prop where
  live : w.live pid = true
  answers : ∀ t, w.tick ≤ t →
    (w.env t).err = none ∧ w.SlotFree (w.env t).val ∧ (w.scratch (w.env t).val).isNone
  fresh : ∀ t t', w.tick ≤ t → t < t' → (w.env t').val ≠ (w.env t).val

section Granted

variable {pid : Nat}

/-- The command succeeds while every answer is granted. -/
abbrev Granted {α : Type} (pid : Nat) (c : M α) : Prop :=
  Triple (World.Granting pid) c (fun _ => World.Granting pid) fun _ _ => False

/-- An answer, which no later one repeats. -/
theorem ext_granted :
    Triple (World.Granting pid) ext
      (fun a w => w.Granting pid ∧ (w.SlotFree a.val ∧ (w.scratch a.val).isNone) ∧
        ∀ t, w.tick ≤ t → (w.env t).val ≠ a.val) fun _ _ => False := by
  intro w h
  obtain ⟨hok, hfree⟩ := h.answers w.tick le_rfl
  rw [run_ext_ok hok]
  refine ⟨fun a ha => ?_, fun e he => by cases he⟩
  cases ha
  refine ⟨⟨h.live, fun t ht => h.answers t (Nat.le_of_succ_le ht), fun t t' ht hlt => h.fresh t t'
    (Nat.le_of_succ_le ht) hlt⟩, hfree, ?_⟩
  intro t ht
  exact h.fresh w.tick t le_rfl ht

/-- A call is granted. -/
theorem ext_grants : Granted pid ext := ext_granted.post fun _ _ h => h.1

/-- The record of a process that is there is found. -/
theorem getProcess_grants : Granted pid (getProcess pid) := by
  refine Triple.bind (R := fun o w => w.Granting pid ∧ w.task? pid = o)
    (Triple.gets fun w h => ⟨h, rfl⟩) fun o => ?_
  refine Triple.getSome (fun t w _ h => h.1) fun w ho h => ?_
  have hlive := h.1.live
  rw [World.live, h.2, ho] at hlive
  exact absurd hlive (by decide)

/-- A slot that no answer to come has. -/
def World.Held (slot : Nat) (w : World) : Prop := ∀ t, w.tick ≤ t → (w.env t).val ≠ slot

/-- A slot is granted, and held. -/
theorem cspaceAlloc_grants : Triple (World.Granting pid) cspaceAlloc
    (fun slot w => w.Granting pid ∧ w.Held slot) fun _ _ => False := by
  refine Triple.bind ext_granted fun a => ?_
  refine Triple.bind (R := fun free w => free = true ∧ w.Granting pid ∧ w.Held a.val)
    (Triple.gets fun w h => ⟨decide_eq_true h.2.1.1, h.1, h.2.2⟩) fun free =>
      Triple.of_fact fun hfree => ?_
  rw [if_pos hfree]
  refine Triple.bind (R := fun _ w => w.Granting pid ∧ w.Held a.val)
    (Triple.modify fun w h => ?_) fun _ => Triple.pure fun _ h => h
  obtain ⟨hgrant, hheld⟩ := h
  refine ⟨⟨hgrant.live, ?_, hgrant.fresh⟩, hheld⟩
  intro t ht
  obtain ⟨hok, ⟨hnull, hslot, hrest⟩, hscratch⟩ := hgrant.answers t ht
  refine ⟨hok, ⟨hnull, ?_, hrest⟩, hscratch⟩
  intro hmem
  exact (Finset.mem_insert.mp hmem).elim (hheld t ht) hslot

/-- A command that changes a process, the ledger or the bytes behind a scratch address. -/
theorem modify_grants {f : World → World} (hlive : ∀ w, (f w).live pid = w.live pid)
    (henv : ∀ w, (f w).env = w.env) (htick : ∀ w, (f w).tick = w.tick)
    (hfree : ∀ w slot, w.SlotFree slot → (f w).SlotFree slot)
    (hscratch : ∀ w, (f w).scratch = w.scratch) : Granted pid (modify f) := by
  refine Triple.modify fun w h => ⟨(hlive w).trans h.live, ?_, ?_⟩
  · intro t ht
    rw [henv, hscratch]
    rw [htick] at ht
    obtain ⟨hok, hslot, hbase⟩ := h.answers t ht
    exact ⟨hok, hfree w _ hslot, hbase⟩
  · intro t t' ht hlt
    rw [henv]
    rw [htick] at ht
    exact h.fresh t t' ht hlt

/-- A change of a record keeps the grants. -/
theorem modifyTask_grants (p : Nat) (f : TaskStruct → TaskStruct) :
    Granted pid (modify (·.modifyTask p f)) :=
  modify_grants (fun w => w.live_modifyTask p pid f) (fun _ => rfl) (fun _ => rfl)
    (fun _ _ h => h) fun _ => rfl

/-- A change of a ledger keeps the grants. -/
theorem modifyLedger_grants (p : Nat) (f : ProcessLedger → ProcessLedger) :
    Granted pid (modifyLedger p f) :=
  modify_grants (fun _ => rfl) (fun _ => rfl) (fun _ => rfl) (fun _ _ h => h) fun _ => rfl

/-- A page table is granted. -/
theorem addIntermediatePageTable_grants (level path : Nat) :
    Granted pid (addIntermediatePageTable pid level path) := by
  refine Triple.bind (cspaceAlloc_grants.post fun _ _ h => h.1)
    fun slot => ?_
  have hcall : Granted pid (do let _ ← ext) := Triple.bind ext_grants fun _ =>
    Triple.pure fun _ h => h
  refine Triple.bind (Triple.onError hcall fun e w h => h.elim) fun _ => ?_
  refine Triple.bind (modifyLedger_grants pid _) fun _ => ?_
  refine Triple.bind (R := fun r w => (∃ a, r = .ok a) ∧ w.Granting pid)
    (Triple.attempt (ext_grants.imp (fun _ h => h) (fun a _ h => ⟨⟨a, rfl⟩, h⟩)
      fun _ _ h => h.elim))
    fun r => Triple.of_fact fun hr => ?_
  obtain ⟨a, rfl⟩ := hr
  exact modifyTask_grants pid _

/-- The tables above a page are granted. -/
theorem ensureIntermediatePageTablesWithLeaf_grants (pageAddr leafLevel : Nat) :
    Granted pid (ensureIntermediatePageTablesWithLeaf pid pageAddr leafLevel) := by
  refine Triple.bind getProcess_grants fun task => ?_
  refine Triple.bind (R := fun _ => World.Granting pid) (Triple.gets fun _ h => h) fun l => ?_
  exact Triple.forEach (fun _ => World.Granting pid)
    (fun level _ => addIntermediatePageTable_grants level _) _

/-- The tables above a range are granted. -/
theorem ensureRange_grants (vaddr pages n i : Nat) :
    Granted pid (ensureRange pid vaddr pages n i) := by
  induction n generalizing i with
  | zero => exact Triple.pure fun _ h => h
  | succ n ih =>
    refine Triple.ite (fun _ => ?_) fun _ => Triple.pure fun _ h => h
    refine Triple.ite (fun _ => ?_) fun _ => ?_ <;>
      exact Triple.bind (ensureIntermediatePageTablesWithLeaf_grants _ _) fun _ => ih _

/-- The mapping of a frame is granted. -/
theorem mapProcessFrame_grants (slot vaddr : Nat) (perms : Perms) (pages : Nat) :
    Granted pid (mapProcessFrame pid slot vaddr perms pages) := by
  refine Triple.bind (ensureRange_grants vaddr pages pages 0) fun _ => ?_
  refine Triple.bind getProcess_grants fun _ => ?_
  have hmap : Granted pid (vspaceMap pid slot vaddr perms pages) :=
    Triple.bind ext_grants fun _ => modifyTask_grants pid _
  refine Triple.bind (R := fun r w => (∃ a, r = .ok a) ∧ w.Granting pid)
    (Triple.attempt (hmap.imp (fun _ h => h) (fun a _ h => ⟨⟨a, rfl⟩, h⟩) fun _ _ h => h.elim))
    fun r => Triple.of_fact fun hr => ?_
  obtain ⟨a, rfl⟩ := hr
  exact Triple.pure fun _ h => h

/-- A new frame goes into a slot that no answer has. -/
theorem allocPageFrameNoCleanup_grants (pages : Nat) :
    Granted pid (allocPageFrameNoCleanup pages) := by
  refine Triple.bind cspaceAlloc_grants fun slot => ?_
  refine Triple.bind (R := fun _ => World.Granting pid) ?_ fun _ => Triple.pure fun _ h => h
  refine Triple.bind (R := fun _ w => w.Granting pid ∧ w.Held slot) ?_ fun a => Triple.modify ?_
  · intro w h
    obtain ⟨hok, herr⟩ := ext_grants w h.1
    refine ⟨fun a ha => ⟨hok a ha, ?_⟩, herr⟩
    rw [run_ext_ok (h.1.answers w.tick le_rfl).1]
    exact fun t ht => h.2 t (Nat.le_of_succ_le ht)
  · intro w h
    obtain ⟨hgrant, hheld⟩ := h
    refine ⟨hgrant.live, ?_, hgrant.fresh⟩
    intro t ht
    obtain ⟨hok, ⟨hnull, hslot, hframe, hrest⟩, hscratch⟩ := hgrant.answers t ht
    refine ⟨hok, ⟨hnull, hslot, ?_, hrest⟩, hscratch⟩
    show Option.isNone (if (w.env t).val = slot then _ else _) = true
    rw [if_neg (hheld t ht)]
    exact hframe

/-- A scratch window is granted. -/
theorem mapScratch_grants (slot : Nat) (perms : Perms) (pages : Nat) :
    Granted pid (mapScratch slot perms pages) := by
  refine Triple.bind ext_granted fun a => ?_
  refine Triple.bind (R := fun used w => used = false ∧ w.Granting pid ∧ w.Held a.val)
    (Triple.gets fun w h => ⟨Option.isSome_eq_false_iff.mpr h.2.1.2, h.1, h.2.2⟩) fun used =>
      Triple.of_fact fun hused => ?_
  rw [hused, if_neg (by decide)]
  refine Triple.bind (R := fun _ => World.Granting pid) (Triple.modify fun w h => ?_) fun _ =>
    Triple.pure fun _ h => h
  obtain ⟨hgrant, hheld⟩ := h
  refine ⟨hgrant.live, ?_, hgrant.fresh⟩
  intro t ht
  obtain ⟨hok, hfree, hbase⟩ := hgrant.answers t ht
  refine ⟨hok, hfree, ?_⟩
  show Option.isNone (if (w.env t).val = a.val then _ else _) = true
  rw [if_neg (hheld t ht)]
  exact hbase

/-- The end of a scratch window is granted. -/
theorem unmapScratch_grants (base : Nat) : Granted pid (unmapScratch base) := by
  refine Triple.bind ext_grants fun _ => Triple.modify fun w h => ⟨h.live, ?_, h.fresh⟩
  intro t ht
  obtain ⟨hok, hfree, hbase⟩ := h.answers t ht
  refine ⟨hok, hfree, ?_⟩
  show Option.isNone (if (w.env t).val = base then _ else _) = true
  split
  · rfl
  · exact hbase

/-- The bytes of a scratch window are granted. -/
theorem fillScratch_grants (base n : Nat) (byte : Nat → UInt8) :
    Granted pid (fillScratch base n byte) := by
  refine modify_grants (fun w => ?_) (fun w => ?_) (fun w => ?_) (fun w slot h => ?_)
    fun w => ?_ <;>
    split <;> try rfl
  · exact h
  · obtain ⟨hnull, hslot, hframe, hrest⟩ := h
    refine ⟨hnull, hslot, ?_, hrest⟩
    show Option.isNone (if slot = _ then _ else _) = true
    split
    · rw [Option.isNone_map]
      exact hframe
    · exact hframe

end Granted

end Ape
