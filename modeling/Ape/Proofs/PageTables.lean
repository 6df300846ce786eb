import Ape.Lib.Along
import Ape.Proofs.MemViews

/-!
# `Ape.Proofs.PageTables`: the page tables of a process are accounted for

`map_process_frame` installs the intermediate page tables of the pages it maps,
`release_pagetable_slot` gives the slot of a table back, and the end of a process releases what is
recorded in `intermediate_page_tables`. A table that the kernel has already is recorded with a null
capability.

`TableView` is the part of the state that this is about, and `TableView.Accounted` says that the
slots that a process holds are the capabilities in its table, each once, and those in its ledger.
What a process holds is read off the capability space: `MapCall.held` adds the slots that a call
takes and does not give back.

One missing table is one of three changes of the view (`addIntermediatePageTable_cases`). `Grew`
says what every part of a call does: no slot is given back that was allocated before, no record is
replaced, and the accounts stay in order. A page-table slot that the resource service refuses to
free is in the ledger and in no table, so all of this is for runs in which a free is answered with
success or with an error that `release_pagetable_slot` takes for a release (`World.FreeAnswered`).
The conditions that carry it along a run say where the code gets to a free.
-/

set_option autoImplicit false

namespace Ape

open Ape.Lib Cmd

/-! ### The view -/

/-- The intermediate page tables of a process, by level and path. -/
abbrev PathTable : Type := OrdMap (Nat ×ₗ Nat) Nat

/-- The allocated slots, and what is recorded of page tables. -/
structure TableView where
  slots : Finset Nat
  layout : Layout
  tables : Nat → Option PathTable
  live : Nat → Finset Nat

/-- The page tables of a process that is there. -/
def World.tablesOf (w : World) (pid : Nat) : Option PathTable :=
  (w.task? pid).map (·.mm.intermediatePageTables)

/-- The page tables in the ledger of a process. -/
def World.livePagetables (w : World) (pid : Nat) : Finset Nat := (w.ledgerOf pid).livePagetables

/-- What the server and the capability space know of page tables. -/
def World.tableView (w : World) : TableView := ⟨w.slots, w.layout, w.tablesOf, w.livePagetables⟩

namespace TableView

/-- A new slot for a page table of the process. -/
def take (v : TableView) (pid slot : Nat) : TableView := { v with
  slots := insert slot v.slots
  live := Function.update v.live pid (insert slot (v.live pid)) }

/-- A record in the table of the process. -/
def record (v : TableView) (pid level path cap : Nat) : TableView := { v with
  tables := Function.update v.tables pid
    ((v.tables pid).map fun t => t.insert (toLex (level, path)) cap) }

/-- The slot of a page table of the process is given back. -/
def give (v : TableView) (pid slot : Nat) : TableView := { v with
  slots := v.slots.erase slot
  live := Function.update v.live pid ((v.live pid).erase slot) }

/-- The table of the process has a record. -/
def Recorded (v : TableView) (pid level path : Nat) : Prop :=
  ∃ t, v.tables pid = some t ∧ t.contains (toLex (level, path)) = true

end TableView

/-- The capabilities that are recorded, without the null ones. -/
def PathTable.caps (t : PathTable) : Finset Nat := t.values.toFinset.erase 0

/-- No two records have one capability. -/
def PathTable.Once (t : PathTable) : Prop :=
  ∀ k k' slot, slot ≠ 0 → t.get? k = some slot → t.get? k' = some slot → k = k'

/-- The slots that the process holds are allocated, and they are the capabilities in its table, each
once, and the page tables in its ledger. -/
structure TableView.Accounted (pid : Nat) (held : Finset Nat) (v : TableView) : Prop where
  allocated : held ⊆ v.slots
  live : v.live pid = held
  caps : ∃ t, v.tables pid = some t ∧ t.caps = held ∧ t.Once

/-- The process holds these page-table slots, and they are accounted for. -/
abbrev World.Accounted (pid : Nat) (held : Finset Nat) (w : World) : Prop :=
  w.tableView.Accounted pid held

/-- Level and path have a record in the table of the process. -/
abbrev World.TableRecorded (w : World) (pid level path : Nat) : Prop :=
  w.tableView.Recorded pid level path

/-- The capabilities of a path table are those of its entries, the null one aside. -/
theorem PathTable.mem_caps {t : PathTable} {slot : Nat} :
    slot ∈ t.caps ↔ slot ≠ 0 ∧ ∃ k, t.get? k = some slot := by
  rw [PathTable.caps, Finset.mem_erase, List.mem_toFinset, OrdMap.mem_values]

/-! ### The view of a command -/

/-- A change of a process record changes the table of that process. -/
theorem World.tablesOf_modifyTask (w : World) (pid : Nat) (f : TaskStruct → TaskStruct) :
    (w.modifyTask pid f).tablesOf = Function.update w.tablesOf pid
      ((w.task? pid).map fun t => (f t).mm.intermediatePageTables) := by
  funext q
  show ((w.tasks.modify pid f).get? q).map _ = _
  rw [OrdMap.get?_modify, Function.update_apply]
  by_cases hq : q = pid
  · subst hq
    rw [if_pos rfl, if_pos rfl, Option.map_map]
    rfl
  · rw [if_neg hq, if_neg hq]
    rfl

/-- A change of a process that leaves its page tables alone. -/
theorem World.tableView_modifyTask (w : World) (pid : Nat) {f : TaskStruct → TaskStruct}
    (hf : ∀ t, (f t).mm.intermediatePageTables = t.mm.intermediatePageTables) :
    (w.modifyTask pid f).tableView = w.tableView := by
  have htables : (w.modifyTask pid f).tablesOf = w.tablesOf := by
    rw [World.tablesOf_modifyTask]
    refine (congrArg (Function.update w.tablesOf pid) ?_).trans (Function.update_eq_self pid _)
    simp only [hf]
    rfl
  show TableView.mk _ _ _ _ = TableView.mk _ _ _ _
  rw [htables]
  rfl

/-- A ledger that is put in has the page tables of its process. -/
theorem World.livePagetables_insert (w : World) (pid : Nat) (l : ProcessLedger) :
    World.livePagetables { w with ledger := w.ledger.insert pid l } =
      Function.update w.livePagetables pid l.livePagetables := by
  funext q
  show (((w.ledger.insert pid l).get? q).getD _).livePagetables = _
  rw [OrdMap.get?_insert, Function.update_apply]
  by_cases hq : q = pid
  · rw [if_pos hq, if_pos hq]
    rfl
  · rw [if_neg hq, if_neg hq]
    rfl

/-! ### The answers to a free -/

/-- A free of a page-table slot is answered here with success, or with an error that
`release_pagetable_slot` takes for a release. -/
def World.FreeAnswered (w : World) : Prop :=
  ∀ e, (w.env w.tick).err = some e → e = .invalidCapability ∨ e = .invalidSlot ∨ e = .notSupported

/-- The first part of the installation of a missing table: a new slot, and the answer to
`map_table`. -/
def takeTable (pid : Nat) : M (Nat × Except Err Ext) := do
  let slot ← cspaceAlloc
  onError (do let _ ← ext) fun _ => cspaceFree slot
  ledgerRecordPagetableAlloc pid slot
  let r ← attempt ext
  pure (slot, r)

/-- The second part: what the answer to `map_table` decides. -/
def settleTable (pid level path : Nat) (p : Nat × Except Err Ext) : M Unit :=
  match p.2 with
  | .ok _ => recordIntermediatePageTable pid level path p.1
  | .error .alreadyExists => do
    releasePagetableSlot pid p.1
    recordIntermediatePageTable pid level path 0
  | .error e => do
    releasePagetableSlot pid p.1
    throw e

/-- A table is taken and then settled: installed and recorded, or given back. -/
theorem addIntermediatePageTable_eq (pid level path : Nat) :
    addIntermediatePageTable pid level path = takeTable pid >>= settleTable pid level path := by
  simp only [takeTable, bind_bind]
  rfl

/-- The slot of a table that the kernel did not take is freed. -/
def World.AddAnswered (pid : Nat) : World → Prop :=
  After (takeTable pid) fun p w => ∀ e, p.2 = .error e → w.FreeAnswered

/-- The levels for which the process has no table of the page. -/
def World.missingLevels (w : World) (pid pageAddr leafLevel : Nat) : List Nat :=
  ((List.range w.layout.shifts.length).drop leafLevel).reverse.filter fun level =>
    !((w.tablesOf pid).any fun t => t.contains (toLex (level, ptPath w.layout pageAddr level)))

/-- The frees for the missing tables of one page. -/
def World.PageAnswered (pid pageAddr leafLevel : Nat) (w : World) : Prop :=
  AtEach (fun level => addIntermediatePageTable pid level (ptPath w.layout pageAddr level))
    (fun _ => World.AddAnswered pid) (w.missingLevels pid pageAddr leafLevel) w

/-- The frees of the first loop of `map_process_frame`. -/
def RangeAnswered (pid vaddr pages : Nat) : Nat → Nat → World → Prop
  | 0, _, _ => True
  | n + 1, i, w =>
    i < pages →
      if wAdd vaddr (i * PGSIZE) % L1_HUGE_SIZE = 0 ∧ L1_HUGE_PAGES ≤ pages - i then
        w.PageAnswered pid (wAdd vaddr (i * PGSIZE)) 2 ∧
          After (ensureIntermediatePageTablesWithLeaf pid (wAdd vaddr (i * PGSIZE)) 2)
            (fun _ => RangeAnswered pid vaddr pages n (i + L1_HUGE_PAGES)) w
      else
        w.PageAnswered pid (wAdd vaddr (i * PGSIZE)) 1 ∧
          After (ensureIntermediatePageTablesWithLeaf pid (wAdd vaddr (i * PGSIZE)) 1)
            (fun _ => RangeAnswered pid vaddr pages n (i + 1)) w

/-- A call of `map_process_frame`. -/
structure MapCall where
  pid : Nat
  slot : Nat
  vaddr : Nat
  perms : Perms
  pages : Nat

namespace MapCall

/-- The call. -/
def command (c : MapCall) : M Unit := mapProcessFrame c.pid c.slot c.vaddr c.perms c.pages

/-- What the call does before it installs the tables of every page. The value is the outcome of the
first mapping. -/
def attempted (c : MapCall) : M (Except Err Unit) := do
  ensureRange c.pid c.vaddr c.pages c.pages 0
  let _ ← getProcess c.pid
  let r ← attempt (vspaceMap c.pid c.slot c.vaddr c.perms c.pages)
  when (r = .error .mappingFailed) (ignore (vspaceUnmap c.pid c.vaddr (c.pages * PGSIZE)))
  pure r

/-- Every free that the call makes of a page-table slot is answered as a release. -/
def Answered (c : MapCall) (w : World) : Prop :=
  RangeAnswered c.pid c.vaddr c.pages c.pages 0 w ∧
    After c.attempted (fun r w => r = .error .mappingFailed →
      AtEach (fun j => ensureIntermediatePageTablesWithLeaf c.pid (wAdd c.vaddr (j * PGSIZE)) 1)
        (fun j w => w.PageAnswered c.pid (wAdd c.vaddr (j * PGSIZE)) 1) (List.range c.pages) w) w

end MapCall

/-! ### Growth

What the parts of a call do to the view, whatever they are asked for. -/

namespace TableView

/-- Every record of `v` is one of `v'`. -/
def Kept (v v' : TableView) : Prop :=
  ∀ q t, v.tables q = some t →
    ∃ t', v'.tables q = some t' ∧ ∀ k cap, t.get? k = some cap → t'.get? k = some cap

/-- What a part of a call for `pid` does. No slot is given back that was allocated before, and no
record is changed. What the process holds grows by the slots that were taken. -/
structure Grew (pid : Nat) (v v' : TableView) : Prop where
  layout : v'.layout = v.layout
  slots : v.slots ⊆ v'.slots
  kept : v.Kept v'
  accounted : ∀ held, v.Accounted pid held → v'.Accounted pid (held ∪ (v'.slots \ v.slots))
  others : ∀ q, q ≠ pid → ∀ held, v.Accounted q held → v'.Accounted q held

variable {pid level path slot : Nat} {v v' v'' : TableView}

/-- A view has grown from itself. -/
theorem Grew.refl (pid : Nat) (v : TableView) : v.Grew pid v where
  layout := rfl
  slots := Finset.Subset.refl _
  kept _ t ht := ⟨t, ht, fun _ _ h => h⟩
  accounted held h := by rwa [Finset.sdiff_self, Finset.union_empty]
  others _ _ _ h := h

/-- A view that grew twice has grown. -/
theorem Grew.trans (h : v.Grew pid v') (h' : v'.Grew pid v'') : v.Grew pid v'' where
  layout := h'.layout.trans h.layout
  slots := h.slots.trans h'.slots
  kept := by
    intro q t ht
    obtain ⟨t', ht', hkept⟩ := h.kept q t ht
    obtain ⟨t'', ht'', hkept'⟩ := h'.kept q t' ht'
    exact ⟨t'', ht'', fun k cap hk => hkept' k cap (hkept k cap hk)⟩
  accounted := by
    intro held hv
    have hend := h'.accounted _ (h.accounted held hv)
    -- the slots taken first are still allocated
    have hsum : held ∪ (v'.slots \ v.slots) ∪ (v''.slots \ v'.slots)
        = held ∪ (v''.slots \ v.slots) := by
      rw [Finset.union_assoc, Finset.union_comm (v'.slots \ v.slots)]
      rw [Finset.sdiff_union_sdiff_cancel h'.slots h.slots]
    rwa [hsum] at hend
  others q hq held hv := h'.others q hq held (h.others q hq held hv)

/-- A slot that is not allocated is given back. -/
theorem Grew.give (hslot : slot ∉ v.slots) : v.Grew pid (v.give pid slot) where
  layout := rfl
  slots := (Finset.erase_eq_of_notMem hslot).symm.subset
  kept _ t ht := ⟨t, ht, fun _ _ h => h⟩
  accounted := by
    intro held hv
    have hnone : (v.give pid slot).slots = v.slots := Finset.erase_eq_of_notMem hslot
    -- a slot that was not allocated is not one that the process holds
    have hout : slot ∉ v.live pid := by
      intro hmem
      rw [hv.live] at hmem
      exact hslot (hv.allocated hmem)
    rw [hnone, Finset.sdiff_self, Finset.union_empty]
    refine ⟨hnone.symm ▸ hv.allocated, ?_, hv.caps⟩
    show Function.update v.live pid _ pid = held
    rw [Function.update_self, Finset.erase_eq_of_notMem hout, hv.live]
  others := by
    intro q hq held hv
    have hnone : (v.give pid slot).slots = v.slots := Finset.erase_eq_of_notMem hslot
    refine ⟨hnone.symm ▸ hv.allocated, ?_, hv.caps⟩
    show Function.update v.live pid _ q = held
    rw [Function.update_of_ne hq, hv.live]

/-- A record under a new key keeps the others. -/
theorem Kept.record (hnew : ¬ v.Recorded pid level path) (cap : Nat) :
    v.Kept (v.record pid level path cap) := by
  intro q t ht
  by_cases hq : q = pid
  · subst hq
    refine ⟨t.insert (toLex (level, path)) cap, ?_, ?_⟩
    · show Function.update v.tables q _ q = _
      rw [Function.update_self, ht]
      rfl
    · intro k c hk
      have hne : k ≠ toLex (level, path) := by
        intro heq
        refine hnew ⟨t, ht, ?_⟩
        rw [OrdMap.contains, ← heq, hk]
        rfl
      rw [OrdMap.get?_insert_ne _ _ hne, hk]
  · refine ⟨t, ?_, fun _ _ h => h⟩
    show Function.update v.tables pid _ q = _
    rw [Function.update_of_ne hq, ht]

/-- To record a table for one process leaves the others. -/
theorem record_tables_of_ne {q : Nat} (hq : q ≠ pid) (cap : Nat) :
    (v.record pid level path cap).tables q = v.tables q := Function.update_of_ne hq _ _

/-- The table that was recorded is in the tables of its process. -/
theorem record_tables_self {t : PathTable} (ht : v.tables pid = some t) (cap : Nat) :
    (v.record pid level path cap).tables pid = some (t.insert (toLex (level, path)) cap) := by
  show Function.update v.tables pid _ pid = _
  rw [Function.update_self, ht]
  rfl

/-- A null capability is recorded under a new key. -/
theorem Grew.recordNull (hnew : ¬ v.Recorded pid level path) :
    v.Grew pid (v.record pid level path 0) where
  layout := rfl
  slots := Finset.Subset.refl _
  kept := Kept.record hnew 0
  accounted := by
    intro held hv
    rw [show (v.record pid level path 0).slots = v.slots from rfl, Finset.sdiff_self,
      Finset.union_empty]
    obtain ⟨t, ht, hcaps, honce⟩ := hv.caps
    refine ⟨hv.allocated, hv.live, t.insert (toLex (level, path)) 0,
      record_tables_self ht 0, ?_, ?_⟩
    -- a null capability is in nobody's hand, so the hands are the old ones
    · rw [← hcaps]
      ext slot
      rw [PathTable.mem_caps, PathTable.mem_caps]
      refine and_congr_right fun hne => ⟨fun ⟨k, hk⟩ => ⟨k, ?_⟩, fun ⟨k, hk⟩ => ⟨k, ?_⟩⟩
      · rcases OrdMap.get?_insert_eq_some.mp hk with ⟨-, h0⟩ | ⟨-, hk⟩
        · exact absurd h0.symm hne
        · exact hk
      · refine OrdMap.get?_insert_eq_some.mpr (.inr ⟨?_, hk⟩)
        intro heq
        exact hnew ⟨t, ht, by rw [OrdMap.contains, ← heq, hk]; rfl⟩
    -- one slot under two records: neither of them is the null record
    · intro k k' slot hne hk hk'
      rcases OrdMap.get?_insert_eq_some.mp hk with ⟨-, h0⟩ | ⟨-, hk⟩
      · exact absurd h0.symm hne
      rcases OrdMap.get?_insert_eq_some.mp hk' with ⟨-, h0⟩ | ⟨-, hk'⟩
      · exact absurd h0.symm hne
      exact honce k k' slot hne hk hk'
  others q hq held hv := ⟨hv.allocated, hv.live, by
    obtain ⟨t, ht, hrest⟩ := hv.caps
    exact ⟨t, (record_tables_of_ne hq 0).trans ht, hrest⟩⟩

/-- A new slot is taken and recorded under a new key. -/
theorem Grew.take_record (hslot : slot ∉ v.slots) (hne : slot ≠ 0)
    (hnew : ¬ v.Recorded pid level path) :
    v.Grew pid ((v.take pid slot).record pid level path slot) where
  layout := rfl
  slots := Finset.subset_insert _ _
  kept := by
    have hkept : (v.take pid slot).Kept _ := Kept.record (v := v.take pid slot) hnew slot
    exact hkept
  accounted := by
    intro held hv
    have htaken : ((v.take pid slot).record pid level path slot).slots \ v.slots = {slot} := by
      show insert slot v.slots \ v.slots = {slot}
      rw [Finset.insert_sdiff_of_notMem _ hslot, Finset.sdiff_self, insert_empty_eq]
    have hout : slot ∉ held := fun hmem => hslot (hv.allocated hmem)
    rw [htaken, Finset.union_comm, ← Finset.insert_eq]
    obtain ⟨t, ht, hcaps, honce⟩ := hv.caps
    -- no record has the new capability
    have hunused : ∀ k, t.get? k ≠ some slot := by
      intro k hk
      exact hout (hcaps ▸ PathTable.mem_caps.mpr ⟨hne, k, hk⟩)
    have hfree : ∀ k cap, t.get? k = some cap → k ≠ toLex (level, path) := by
      intro k cap hk heq
      exact hnew ⟨t, ht, by rw [OrdMap.contains, ← heq, hk]; rfl⟩
    refine ⟨Finset.insert_subset_insert _ hv.allocated, ?_, t.insert (toLex (level, path)) slot,
      record_tables_self (v := v.take pid slot) ht slot, ?_, ?_⟩
    · show Function.update v.live pid _ pid = _
      rw [Function.update_self, hv.live]
    · ext s
      rw [PathTable.mem_caps, Finset.mem_insert, ← hcaps, PathTable.mem_caps]
      constructor
      · rintro ⟨hs, k, hk⟩
        rcases OrdMap.get?_insert_eq_some.mp hk with ⟨-, h⟩ | ⟨-, hk⟩
        · exact .inl h.symm
        · exact .inr ⟨hs, k, hk⟩
      · rintro (rfl | ⟨hs, k, hk⟩)
        · exact ⟨hne, _, OrdMap.get?_insert_self _ _ _⟩
        · exact ⟨hs, k, OrdMap.get?_insert_eq_some.mpr (.inr ⟨hfree k s hk, hk⟩)⟩
    · intro k k' s hs hk hk'
      rcases OrdMap.get?_insert_eq_some.mp hk with ⟨heq, h⟩ | ⟨-, hk⟩ <;>
        rcases OrdMap.get?_insert_eq_some.mp hk' with ⟨heq', h'⟩ | ⟨-, hk'⟩
      · rw [heq, heq']
      · exact absurd (h ▸ hk') (hunused k')
      · exact absurd (h' ▸ hk) (hunused k)
      · exact honce k k' s hs hk hk'
  others := by
    intro q hq held hv
    refine ⟨hv.allocated.trans (Finset.subset_insert _ _), ?_, ?_⟩
    · show Function.update v.live pid _ q = held
      rw [Function.update_of_ne hq, hv.live]
    · obtain ⟨t, ht, hrest⟩ := hv.caps
      exact ⟨t, (record_tables_of_ne (v := v.take pid slot) hq slot).trans ht, hrest⟩

end TableView

/-! ### One missing table -/

section Add

variable {pid : Nat} {v : TableView}

instance : BlindCaps fun w : World => (w.layout, w.tablesOf, w.livePagetables) where
  tick _ _ := rfl
  slots _ _ := rfl

/-- A call to a service is not seen. -/
theorem ext_tableView : Frames World.tableView ext := by
  intro w
  show World.tableView (ext.run w).2 = w.tableView
  unfold ext
  dsimp only
  split <;> rfl

/-- A slot that is allocated was not in use. -/
theorem cspaceAlloc_tableView :
    Triple (fun w => w.tableView = v) cspaceAlloc
      (fun slot w => (slot ≠ 0 ∧ slot ∉ v.slots) ∧
        w.tableView = { v with slots := insert slot v.slots })
      fun _ w => w.tableView = v := by
  have hext : Keeps (fun w => w.tableView = v) ext := ext_tableView.keeps fun x => x = v
  refine Triple.bind hext.triple fun a => ?_
  refine Triple.bind (R := fun free w => w.tableView = v ∧ free = decide (w.SlotFree a.val))
    (Triple.gets fun w h => ⟨h, rfl⟩) fun free => ?_
  refine Triple.ite (fun hfree => ?_) fun _ => refuse_triple fun w h => h.1
  subst hfree
  refine Triple.bind (Triple.modify (Q := fun _ w => (a.val ≠ 0 ∧ a.val ∉ v.slots) ∧
    w.tableView = { v with slots := insert a.val v.slots }) fun w h => ?_) fun _ =>
      Triple.pure fun w h => h
  obtain ⟨rfl, hslot⟩ := h
  obtain ⟨hne, hout, -⟩ := of_decide_eq_true hslot.symm
  exact ⟨⟨hne, hout⟩, rfl⟩

/-- A page table that the ledger records is live. -/
theorem ledgerRecordPagetableAlloc_tableView (w : World) (slot : Nat) :
    ((ledgerRecordPagetableAlloc pid slot).run w).2.tableView =
      ⟨w.slots, w.layout, w.tablesOf,
        Function.update w.livePagetables pid (insert slot (w.livePagetables pid))⟩ := by
  have hlive := w.livePagetables_insert pid
    { w.ledgerOf pid with livePagetables := insert slot (w.ledgerOf pid).livePagetables }
  show TableView.mk _ _ _ _ = TableView.mk _ _ _ _
  exact congrArg (TableView.mk w.slots w.layout w.tablesOf) hlive

/-- A free that is answered as a release. -/
theorem releasePagetableSlot_tableView (slot : Nat) {E : Err → World → Prop} :
    Triple (fun w => w.tableView = v ∧ w.FreeAnswered) (releasePagetableSlot pid slot)
      (fun _ w => w.tableView = v.give pid slot) E := by
  let Released (r : Except Err Ext) : Prop := ∀ e, r = .error e →
    e = .invalidCapability ∨ e = .invalidSlot ∨ e = .notSupported
  refine Triple.bind (R := fun r w => Released r ∧ w.tableView = v) ?_ fun r => Triple.of_fact ?_
  · intro w hw
    obtain ⟨rfl, hans⟩ := hw
    refine ⟨?_, fun e he => by cases he⟩
    intro r hr
    have hr' : (ext.run w).1 = r := by simpa using hr
    refine ⟨?_, ext_tableView w⟩
    intro e he
    subst hr'
    refine hans e ?_
    unfold ext at he
    dsimp only at he
    split at he
    · cases he
      assumption
    · cases he
  · intro hr
    have hgive : Triple (fun w => w.tableView = v)
        (do cspaceFree slot; ledgerRecordPagetableFree pid slot : M Unit)
        (fun _ w => w.tableView = v.give pid slot) E := by
      refine Triple.bind (R := fun _ w => w.tableView = { v with slots := v.slots.erase slot })
        (Triple.modify fun w h => by subst h; rfl) fun _ => Triple.modify fun w h => ?_
      let l : ProcessLedger :=
        { w.ledgerOf pid with livePagetables := (w.livePagetables pid).erase slot }
      have hview : World.tableView { w with ledger := w.ledger.insert pid l } =
          ⟨w.slots, w.layout, w.tablesOf, Function.update w.livePagetables pid l.livePagetables⟩ :=
        congrArg (TableView.mk w.slots w.layout w.tablesOf) (w.livePagetables_insert pid l)
      refine hview.trans ?_
      have hslots : w.slots = v.slots.erase slot := congrArg TableView.slots h
      have hlayout : w.layout = v.layout := congrArg TableView.layout h
      have htables : w.tablesOf = v.tables := congrArg TableView.tables h
      have hlive : w.livePagetables = v.live := congrArg TableView.live h
      show TableView.mk _ _ _ (Function.update _ pid ((w.livePagetables pid).erase slot)) = _
      rw [hslots, hlayout, htables, hlive]
      rfl
    -- both kinds of answer release the slot
    refine Triple.when (fun _ => hgive) fun w hn _ => (hn ?_).elim
    cases r with
    | ok a => rfl
    | error e => rcases hr e rfl with rfl | rfl | rfl <;> rfl

/-- A table that is recorded is in the record of its process and in its ledger. -/
theorem recordIntermediatePageTable_tableView (w : World) (level path cap : Nat) :
    ((recordIntermediatePageTable pid level path cap).run w).2.tableView =
      w.tableView.record pid level path cap := by
  have htables := w.tablesOf_modifyTask pid fun t => { t with mm := { t.mm with
    intermediatePageTables := t.mm.intermediatePageTables.insert (toLex (level, path)) cap } }
  have hmap : (w.tablesOf pid).map (fun t => t.insert (toLex (level, path)) cap) =
      (w.task? pid).map fun t => t.mm.intermediatePageTables.insert (toLex (level, path)) cap := by
    rw [World.tablesOf, Option.map_map]
    rfl
  show TableView.mk _ _ _ _ = TableView.mk _ _ _ _
  rw [show w.tableView.tables = w.tablesOf from rfl, hmap, ← htables]
  rfl

/-- A table that is taken is in a slot that was not in use, or nothing is left of the attempt. -/
theorem takeTable_tableView :
    Triple (fun w => w.tableView = v) (takeTable pid)
      (fun p w => (p.1 ≠ 0 ∧ p.1 ∉ v.slots) ∧ w.tableView = v.take pid p.1)
      fun _ w => v.Grew pid w.tableView := by
  refine Triple.bind (cspaceAlloc_tableView.errors
    fun _ w h => h ▸ TableView.Grew.refl pid v) fun slot => Triple.of_fact fun hslot => ?_
  let taken : TableView := { v with slots := insert slot v.slots }
  have hext : Keeps (fun w => w.tableView = taken) ext := ext_tableView.keeps fun x => x = taken
  refine Triple.bind (R := fun _ w => w.tableView = taken) ?_ fun _ => ?_
  · refine Triple.onError (F := fun _ w => w.tableView = taken)
      (Triple.bind hext.triple fun _ => Triple.pure fun _ h => h) fun _ =>
        Triple.modify fun w h => ?_
    -- the page table is refused, and the slot is free again
    have hview : World.tableView { w with slots := w.slots.erase slot } = v := by
      have hw : w.slots = insert slot v.slots := congrArg TableView.slots h
      show TableView.mk (w.slots.erase slot) _ _ _ = v
      rw [hw, Finset.erase_insert hslot.2]
      exact congrArg (fun x : TableView => TableView.mk v.slots x.layout x.tables x.live) h
    exact hview ▸ TableView.Grew.refl pid v
  · refine Triple.bind (R := fun _ w => w.tableView = v.take pid slot) ?_ fun _ => ?_
    · intro w h
      refine ⟨fun _ _ => ?_, fun e he => by cases he⟩
      refine (ledgerRecordPagetableAlloc_tableView w slot).trans ?_
      have hslots : w.slots = insert slot v.slots := congrArg TableView.slots h
      have hlayout : w.layout = v.layout := congrArg TableView.layout h
      have htables : w.tablesOf = v.tables := congrArg TableView.tables h
      have hlive : w.livePagetables = v.live := congrArg TableView.live h
      rw [hslots, hlayout, htables, hlive]
      rfl
    · have hext' : Keeps (fun w => w.tableView = v.take pid slot) ext :=
        ext_tableView.keeps fun x => x = v.take pid slot
      refine Triple.bind (R := fun _ w => w.tableView = v.take pid slot)
        (Triple.attempt hext'.triple) fun r => Triple.pure fun w h => ⟨hslot, h⟩

/-- A slot that is taken and given back. -/
theorem TableView.take_give (v : TableView) (pid slot : Nat) :
    (v.take pid slot).give pid slot = v.give pid slot := by
  have hslots : (insert slot v.slots).erase slot = v.slots.erase slot :=
    Finset.erase_insert_eq_erase _ _
  have hlive : Function.update (Function.update v.live pid (insert slot (v.live pid))) pid
      ((Function.update v.live pid (insert slot (v.live pid)) pid).erase slot)
      = Function.update v.live pid ((v.live pid).erase slot) := by
    rw [Function.update_self, Function.update_idem, Finset.erase_insert_eq_erase]
  show TableView.mk _ _ _ _ = TableView.mk _ _ _ _
  rw [← hslots, ← hlive]
  rfl

/-- The record of level and path is there, and no other level has a new one. -/
structure TableView.Added (pid level path : Nat) (v v' : TableView) : Prop where
  grew : v.Grew pid v'
  recorded : v'.Recorded pid level path
  only : ∀ l p, l ≠ level → v'.Recorded pid l p → v.Recorded pid l p

/-- A table that is recorded for a process that is there is recorded. -/
theorem TableView.record_recorded {v : TableView} {pid level path cap : Nat}
    (hlive : (v.tables pid).isSome) : (v.record pid level path cap).Recorded pid level path := by
  obtain ⟨t, ht⟩ := Option.isSome_iff_exists.mp hlive
  refine ⟨_, TableView.record_tables_self ht cap, ?_⟩
  rw [OrdMap.contains, OrdMap.get?_insert_self]
  rfl

/-- To record a table at one level records none at another. -/
theorem TableView.record_only {v : TableView} {pid level path cap l p : Nat} (hl : l ≠ level)
    (h : (v.record pid level path cap).Recorded pid l p) : v.Recorded pid l p := by
  obtain ⟨t', ht', hmem⟩ := h
  have hmap : (v.tables pid).map (fun t => t.insert (toLex (level, path)) cap) = some t' := by
    rw [← ht']
    exact (Function.update_self pid _ v.tables).symm
  obtain ⟨t, ht, rfl⟩ := Option.map_eq_some_iff.mp hmap
  refine ⟨t, ht, ?_⟩
  have hne : toLex (l, p) ≠ toLex (level, path) := by
    intro heq
    exact hl (congrArg Prod.fst (toLex.injective heq))
  rwa [OrdMap.contains, OrdMap.get?_insert_ne _ _ hne] at hmem

/-- One missing table: the slot is recorded, or it is given back. -/
theorem addIntermediatePageTable_tableView (level path : Nat) :
    Triple (fun w => (w.tableView = v ∧ (v.tables pid).isSome ∧ ¬ v.Recorded pid level path) ∧
        w.AddAnswered pid)
      (addIntermediatePageTable pid level path)
      (fun _ w => v.Added pid level path w.tableView) fun _ w => v.Grew pid w.tableView := by
  rw [addIntermediatePageTable_eq]
  have htake : Triple (fun w => w.tableView = v ∧
    (v.tables pid).isSome ∧ ¬ v.Recorded pid level path)
      (takeTable pid)
      (fun p w => ((p.1 ≠ 0 ∧ p.1 ∉ v.slots) ∧
        (v.tables pid).isSome ∧ ¬ v.Recorded pid level path) ∧
        w.tableView = v.take pid p.1)
      fun _ w => v.Grew pid w.tableView := by
    intro w hw
    obtain ⟨hok, herr⟩ := @takeTable_tableView pid v w hw.1
    exact ⟨fun p hp => ⟨⟨(hok p hp).1, hw.2⟩, (hok p hp).2⟩, herr⟩
  refine Triple.bind_after htake fun p => ?_
  obtain ⟨slot, r⟩ := p
  refine Triple.of_pre fun w₀ hw₀ => ?_
  obtain ⟨⟨⟨⟨hne, hslot⟩, hsome, hnew⟩, hview⟩, hans⟩ := hw₀
  -- what a release in this state does
  have hrelease : ∀ e, r = .error e → Triple (fun w => w = w₀) (releasePagetableSlot pid slot)
      (fun _ w => w.tableView = v.give pid slot) fun _ w => v.Grew pid w.tableView := by
    intro e he
    rw [← TableView.take_give]
    exact (releasePagetableSlot_tableView slot).pre fun w hw => hw ▸ ⟨hview, hans e he⟩
  have hgive : v.Grew pid (v.give pid slot) := TableView.Grew.give hslot
  cases r with
  | ok a =>
    -- the kernel took the table
    refine fun w hw => ⟨fun _ _ => ?_, fun e he => by cases he⟩
    subst hw
    show v.Added pid level path ((recordIntermediatePageTable pid level path slot).run
      w).2.tableView
    rw [recordIntermediatePageTable_tableView, hview]
    refine ⟨TableView.Grew.take_record hslot hne hnew, TableView.record_recorded hsome, ?_⟩
    intro l p hl h
    exact TableView.record_only (v := v.take pid slot) hl h
  | error e =>
    by_cases he : e = .alreadyExists
    · -- the kernel has the table
      subst he
      refine Triple.bind (hrelease _ rfl) fun _ w hw => ⟨fun _ _ => ?_, fun e he => by cases he⟩
      rw [recordIntermediatePageTable_tableView, hw]
      refine ⟨hgive.trans (TableView.Grew.recordNull hnew), TableView.record_recorded
        (v := v.give pid slot) hsome, ?_⟩
      intro l p hl h
      exact TableView.record_only (v := v.give pid slot) hl h
    · have hthrow : settleTable pid level path (slot, .error e) =
          (do releasePagetableSlot pid slot; throw e) := by
        cases e <;> first | rfl | exact absurd rfl he
      rw [hthrow]
      refine Triple.bind (hrelease _ rfl) fun _ => Triple.throw fun w hw => ?_
      exact hw ▸ hgive

end Add

/-! ### Calls -/

namespace TableView

/-- The tables of the page are recorded, from the leaf level on. -/
def Covers (v : TableView) (pid pageAddr leafLevel : Nat) : Prop :=
  ∀ level, leafLevel ≤ level → level < v.layout.shifts.length →
    v.Recorded pid level (ptPath v.layout pageAddr level)

/-- A recorded table that is kept is recorded. -/
theorem Kept.recorded {v v' : TableView} {pid level path : Nat} (h : v.Kept v')
    (hv : v.Recorded pid level path) : v'.Recorded pid level path := by
  obtain ⟨t, ht, hmem⟩ := hv
  obtain ⟨cap, hcap⟩ := Option.isSome_iff_exists.mp hmem
  obtain ⟨t', ht', hkept⟩ := h pid t ht
  exact ⟨t', ht', by rw [OrdMap.contains, hkept _ cap hcap]; rfl⟩

/-- The tables above a page stay when more are added. -/
theorem Grew.covers {v v' : TableView} {pid pageAddr leafLevel : Nat} (h : v.Grew pid v')
    (hv : v.Covers pid pageAddr leafLevel) : v'.Covers pid pageAddr leafLevel := by
  intro level hleaf hlen
  rw [h.layout] at hlen ⊢
  exact h.kept.recorded (hv level hleaf hlen)

end TableView

/-- The process is there. -/
theorem World.tables_of_task {w : World} {pid : Nat} {t : TaskStruct} (h : w.task? pid = some t) :
    w.tablesOf pid = some t.mm.intermediatePageTables := by
  rw [World.tablesOf, h]
  rfl

section Calls

variable {pid : Nat} {v : TableView}

/-- The loop over the missing levels of a page. The levels that are left have no record, and the
others have one. -/
theorem addMissing_tableView (pageAddr leafLevel : Nat) (levels : List Nat)
    (hlive : (v.tables pid).isSome) (hnodup : levels.Nodup)
    (hnew : ∀ level ∈ levels, ¬ v.Recorded pid level (ptPath v.layout pageAddr level))
    (hold : ∀ level, leafLevel ≤ level → level < v.layout.shifts.length → level ∉ levels →
      v.Recorded pid level (ptPath v.layout pageAddr level)) :
    Triple (fun w => w.tableView = v ∧
        AtEach (fun level => addIntermediatePageTable pid level (ptPath v.layout pageAddr level))
          (fun _ => World.AddAnswered pid) levels w)
      (forEach levels fun level => addIntermediatePageTable pid level
        (ptPath v.layout pageAddr level))
      (fun _ w => v.Grew pid w.tableView ∧ w.tableView.Covers pid pageAddr leafLevel)
      fun _ w => v.Grew pid w.tableView := by
  let path (level : Nat) : Nat := ptPath v.layout pageAddr level
  -- the levels that are left are not recorded, and all the others are
  let Left (rest : List Nat) (w : World) : Prop :=
    v.Grew pid w.tableView ∧ rest.Nodup ∧
      (∀ level ∈ rest, ¬ w.TableRecorded pid level (path level)) ∧
      ∀ level, leafLevel ≤ level → level < v.layout.shifts.length → level ∉ rest →
        w.TableRecorded pid level (path level)
  have hloop := Triple.forEach_atEach
    (f := fun level => addIntermediatePageTable pid level (path level))
    (A := fun _ => World.AddAnswered pid) Left (E := fun _ w => v.Grew pid w.tableView)
    (fun level rest => Triple.of_pre fun w₀ hw₀ => ?_) levels
  · refine hloop.imp ?_ ?_ fun _ _ h => h
    · intro w hw
      obtain ⟨rfl, hans⟩ := hw
      exact ⟨⟨TableView.Grew.refl pid _, hnodup, hnew, hold⟩, hans⟩
    · intro _ w hw
      refine ⟨hw.1, ?_⟩
      intro level hleaf hlen
      rw [hw.1.layout] at hlen ⊢
      exact hw.2.2.2 level hleaf hlen List.not_mem_nil
  -- the step of one level; the answers that it needs are those of its own state
  · obtain ⟨⟨hgrew, hdup, hfresh, hdone⟩, hans⟩ := hw₀
    obtain ⟨hout, hrest⟩ := List.nodup_cons.mp hdup
    obtain ⟨t, ht⟩ := Option.isSome_iff_exists.mp hlive
    obtain ⟨t', ht', -⟩ := hgrew.kept pid t ht
    have hadd := @addIntermediatePageTable_tableView pid w₀.tableView level (path level)
    refine hadd.imp ?_ ?_ fun _ w hw => hgrew.trans hw
    · intro w hw
      subst hw
      exact ⟨⟨rfl, ht' ▸ rfl, hfresh level List.mem_cons_self⟩, hans⟩
    · intro _ w hw
      refine ⟨hgrew.trans hw.grew, hrest, ?_, ?_⟩
      · -- a level that is left is another one
        intro l hl hrec
        have hne : l ≠ level := fun heq => hout (heq ▸ hl)
        exact hfresh l (List.mem_cons_of_mem _ hl) (hw.only l _ hne hrec)
      · intro l hleaf hlen hl
        by_cases heq : l = level
        · subst heq
          exact hw.recorded
        · have hnot : l ∉ level :: rest := by simp [heq, hl]
          exact hw.grew.kept.recorded (hdone l hleaf hlen hnot)

/-- Afterwards the tables above the page are there, or the view has grown by what was built. -/
theorem ensureIntermediatePageTablesWithLeaf_tableView (pageAddr leafLevel : Nat) :
    Triple (fun w => w.tableView = v ∧ w.PageAnswered pid pageAddr leafLevel)
      (ensureIntermediatePageTablesWithLeaf pid pageAddr leafLevel)
      (fun _ w => v.Grew pid w.tableView ∧ w.tableView.Covers pid pageAddr leafLevel)
      fun _ w => v.Grew pid w.tableView := by
  refine Triple.of_pre fun w₀ hw₀ => ?_
  obtain ⟨rfl, hans⟩ := hw₀
  cases ht : w₀.task? pid with
  | none =>
    -- the process is gone
    intro w hw
    subst hw
    have hrun : (ensureIntermediatePageTablesWithLeaf pid pageAddr leafLevel).run w =
        (.error .notFound, w) := by
      rw [ensureIntermediatePageTablesWithLeaf, getProcess, run_bind_error]
      rw [run_gets_bind, ht]
      rfl
    rw [hrun]
    exact ⟨fun a ha => (by cases ha), fun e _ => TableView.Grew.refl pid _⟩
  | some t =>
    have htable : w₀.tablesOf pid = some t.mm.intermediatePageTables := World.tables_of_task ht
    have hrun : (ensureIntermediatePageTablesWithLeaf pid pageAddr leafLevel).run w₀ =
        (forEach (w₀.missingLevels pid pageAddr leafLevel) fun level =>
          addIntermediatePageTable pid level (ptPath w₀.layout pageAddr level)).run w₀ := by
      rw [ensureIntermediatePageTablesWithLeaf, run_bind_ok (run_getProcess ht), run_gets_bind,
        World.missingLevels, htable]
      rfl
    have hmissing : ∀ level, level ∈ w₀.missingLevels pid pageAddr leafLevel ↔
        (leafLevel ≤ level ∧ level < w₀.layout.shifts.length) ∧
          ¬ w₀.TableRecorded pid level (ptPath w₀.layout pageAddr level) := by
      intro level
      rw [World.missingLevels, List.mem_filter, List.mem_reverse, htable]
      refine and_congr ?_ ?_
      · rw [List.mem_drop_iff_getElem]
        constructor
        · rintro ⟨i, hi, rfl⟩
          simp only [List.length_range] at hi
          simp only [List.getElem_range]
          omega
        · rintro ⟨hle, hlt⟩
          refine ⟨level - leafLevel, ?_, ?_⟩
          · simp only [List.length_range]
            omega
          · simp only [List.getElem_range]
            omega
      · have hrec : w₀.TableRecorded pid level (ptPath w₀.layout pageAddr level) ↔
            t.mm.intermediatePageTables.contains
              (toLex (level, ptPath w₀.layout pageAddr level)) = true := by
          constructor
          · rintro ⟨t', ht', hmem⟩
            rw [show w₀.tableView.tables pid = w₀.tablesOf pid from rfl, htable] at ht'
            cases ht'
            exact hmem
          · exact fun hmem => ⟨_, htable, hmem⟩
        rw [hrec]
        simp
    have hnodup : (w₀.missingLevels pid pageAddr leafLevel).Nodup := by
      refine List.Nodup.filter _ (List.nodup_reverse.mpr ?_)
      exact List.nodup_range.sublist (List.drop_sublist _ _)
    have hsome : (w₀.tableView.tables pid).isSome :=
      Option.isSome_iff_exists.mpr ⟨_, htable⟩
    have hloop := @addMissing_tableView pid w₀.tableView pageAddr leafLevel
      (w₀.missingLevels pid pageAddr leafLevel) hsome hnodup
      (fun level hl => ((hmissing level).mp hl).2) fun level hleaf hlen hl => ?_
    · intro w hw
      subst hw
      rw [hrun]
      exact hloop w ⟨rfl, hans⟩
    · by_contra hnot
      exact hl ((hmissing level).mpr ⟨⟨hleaf, hlen⟩, hnot⟩)

/-- A table above the level of huge pages covers a huge page at least. -/
def Layout.CoversHuge (l : Layout) : Prop := ∀ s ∈ l.upperShifts, 21 ≤ s

/-- Page `j` of the range lies in a chunk of the size and the alignment of a huge page. -/
def InHugeChunk (vaddr pages j : Nat) : Prop :=
  ∃ i, i ≤ j ∧ j < i + L1_HUGE_PAGES ∧ i + L1_HUGE_PAGES ≤ pages ∧
    wAdd vaddr (i * PGSIZE) % L1_HUGE_SIZE = 0

/-- The tables of page `j` are recorded: those above the level of huge pages, and that level too
unless the page lies in a huge chunk. -/
def TableView.PageCovered (v : TableView) (pid vaddr pages j : Nat) : Prop :=
  v.Covers pid (wAdd vaddr (j * PGSIZE)) 2 ∧
    (¬ InHugeChunk vaddr pages j → v.Covers pid (wAdd vaddr (j * PGSIZE)) 1)

/-- A page with its tables keeps them when more are added. -/
theorem TableView.Grew.pageCovered {v v' : TableView} {vaddr pages j : Nat} (h : v.Grew pid v')
    (hv : v.PageCovered pid vaddr pages j) : v'.PageCovered pid vaddr pages j :=
  ⟨h.covers hv.1, fun hj => h.covers (hv.2 hj)⟩

/-- The addresses of the pages of a huge chunk do not wrap around inside it. -/
theorem wAdd_hugeChunk {vaddr i k : Nat} (h : wAdd vaddr (i * PGSIZE) % L1_HUGE_SIZE = 0)
    (hk : k < L1_HUGE_PAGES) :
    wAdd vaddr ((i + k) * PGSIZE) = wAdd vaddr (i * PGSIZE) + k * PGSIZE := by
  have hmod : usizeMod = 2 ^ 64 := rfl
  have hsize : L1_HUGE_SIZE = 2 ^ 21 := rfl
  have hpg : PGSIZE = 2 ^ 12 := rfl
  have hpages : L1_HUGE_PAGES = 2 ^ 9 := rfl
  rw [wAdd, hmod, hsize, hpg] at h
  rw [hpages] at hk
  rw [wAdd, wAdd, hmod, hpg, Nat.add_mul]
  omega

/-- The pages of a huge chunk have one path above the level of huge pages. -/
theorem ptPath_hugeChunk {l : Layout} (hshifts : l.CoversHuge) {base k level : Nat}
    (hbase : base % L1_HUGE_SIZE = 0) (hk : k < L1_HUGE_PAGES) (hlevel : 2 ≤ level)
    (hlen : level < l.shifts.length) :
    ptPath l (base + k * PGSIZE) level = ptPath l base level := by
  have hupper : l.shifts.getD level 0 ∈ l.upperShifts := by
    obtain ⟨n, rfl⟩ : ∃ n, level = n + 2 := ⟨level - 2, by omega⟩
    have hn : n < l.upperShifts.length := by
      simp only [Layout.shifts, List.length_cons] at hlen
      omega
    show (12 :: 21 :: l.upperShifts).getD (n + 2) 0 ∈ _
    rw [List.getD_cons_succ, List.getD_cons_succ, List.getD_eq_getElem?_getD,
      List.getElem?_eq_getElem hn, Option.getD_some]
    exact List.getElem_mem hn
  obtain ⟨d, hd⟩ : ∃ d, l.shifts.getD level 0 = 21 + d :=
    ⟨l.shifts.getD level 0 - 21, by have := hshifts _ hupper; omega⟩
  -- a shift is one by the size of a huge page, and then the rest
  have hsplit : ∀ a : Nat, a / 2 ^ (21 + d) = a / 2 ^ 21 / 2 ^ d := by
    intro a
    rw [Nat.pow_add, Nat.div_div_eq_div_mul]
  have hsize : L1_HUGE_SIZE = 2 ^ 21 := rfl
  have hpg : PGSIZE = 2 ^ 12 := rfl
  have hpages : L1_HUGE_PAGES = 2 ^ 9 := rfl
  have hhuge : (base + k * PGSIZE) / 2 ^ 21 = base / 2 ^ 21 := by
    rw [hsize] at hbase
    rw [hpages] at hk
    rw [hpg]
    omega
  rw [ptPath, ptPath, hd, hsplit, hsplit, hhuge]

/-- The tables of the first page of a huge chunk are those of every page of it. -/
theorem TableView.covers_hugeChunk {v : TableView} (hshifts : v.layout.CoversHuge)
    {base k : Nat} (hbase : base % L1_HUGE_SIZE = 0) (hk : k < L1_HUGE_PAGES)
    (h : v.Covers pid base 2) : v.Covers pid (base + k * PGSIZE) 2 := by
  intro level hlevel hlen
  rw [ptPath_hugeChunk hshifts hbase hk hlevel hlen]
  exact h level hlevel hlen

/-- The first loop of `map_process_frame`. -/
theorem ensureRange_tableView (vaddr pages n i : Nat) (hn : pages ≤ i + n) :
    Triple (fun w => w.tableView = v ∧ RangeAnswered pid vaddr pages n i w)
      (ensureRange pid vaddr pages n i)
      (fun _ w => v.Grew pid w.tableView ∧ (v.layout.CoversHuge →
        ∀ j, i ≤ j → j < pages → w.tableView.PageCovered pid vaddr pages j))
      fun _ w => v.Grew pid w.tableView := by
  induction n generalizing i v with
  | zero =>
    refine Triple.pure fun w hw => ?_
    obtain ⟨rfl, -⟩ := hw
    exact ⟨TableView.Grew.refl pid _, fun _ j hij hj => by omega⟩
  | succ n ih =>
    refine Triple.ite (fun hi => ?_) fun hi => Triple.pure fun w hw => ?_
    rotate_left
    · obtain ⟨rfl, -⟩ := hw
      refine ⟨TableView.Grew.refl pid _, ?_⟩
      intro _ j hij hj
      exact absurd (by omega) hi
    -- one step of the loop covers the pages from `i` to `i + step`
    have hstep : ∀ step leaf, 0 < step → (∀ v' : TableView, v.layout.CoversHuge → v.Grew pid v' →
          v'.Covers pid (wAdd vaddr (i * PGSIZE)) leaf →
          ∀ j, i ≤ j → j < i + step → v'.PageCovered pid vaddr pages j) →
        Triple (fun w => (w.tableView = v ∧ w.PageAnswered pid (wAdd vaddr (i * PGSIZE)) leaf) ∧
            After (ensureIntermediatePageTablesWithLeaf pid (wAdd vaddr (i * PGSIZE)) leaf)
              (fun _ => RangeAnswered pid vaddr pages n (i + step)) w)
          (ensureIntermediatePageTablesWithLeaf pid (wAdd vaddr (i * PGSIZE)) leaf >>= fun _ =>
            ensureRange pid vaddr pages n (i + step))
          (fun _ w => v.Grew pid w.tableView ∧ (v.layout.CoversHuge →
            ∀ j, i ≤ j → j < pages → w.tableView.PageCovered pid vaddr pages j))
          fun _ w => v.Grew pid w.tableView := by
      intro step leaf hpos hcover
      refine Triple.bind_after (ensureIntermediatePageTablesWithLeaf_tableView _ _) fun _ =>
        Triple.of_pre fun w₁ hw₁ => ?_
      obtain ⟨⟨hgrew, hcovers⟩, hans⟩ := hw₁
      refine (ih (v := w₁.tableView) (i + step) (by omega)).imp
        (fun w hw => by subst hw; exact ⟨rfl, hans⟩)
        (fun _ w hw => ⟨hgrew.trans hw.1, fun hshifts j hij hj => ?_⟩)
        fun _ w hw => hgrew.trans hw
      by_cases hnext : i + step ≤ j
      · exact hw.2 (hgrew.layout ▸ hshifts) j hnext hj
      · exact hw.1.pageCovered (hcover _ hshifts hgrew hcovers j hij (by omega))
    refine Triple.ite ?_ ?_
    · -- a huge chunk
      intro hhuge
      refine (hstep L1_HUGE_PAGES 2 (by decide) ?_).pre ?_
      · intro v' hshifts hgrew hcovers j hij hj
        obtain ⟨k, rfl⟩ : ∃ k, j = i + k := ⟨j - i, by omega⟩
        have hk : k < L1_HUGE_PAGES := by omega
        refine ⟨?_, fun hnot => (hnot ⟨i, hij, hj, by omega, hhuge.1⟩).elim⟩
        have hchunk := TableView.covers_hugeChunk (hgrew.layout ▸ hshifts) hhuge.1 hk hcovers
        rwa [← wAdd_hugeChunk hhuge.1 hk] at hchunk
      · intro w hw
        obtain ⟨hview, hans⟩ := hw
        have hans' := hans hi
        rw [if_pos hhuge] at hans'
        exact ⟨⟨hview, hans'.1⟩, hans'.2⟩
    · -- a single page
      intro hhuge
      refine (hstep 1 1 (by decide) ?_).pre ?_
      · intro v' _ hgrew hcovers j hij hj
        obtain rfl : j = i := by omega
        refine ⟨?_, fun _ => hcovers⟩
        intro level hlevel hlen
        exact hcovers level (by omega) hlen
      · intro w hw
        obtain ⟨hview, hans⟩ := hw
        have hans' := hans hi
        rw [if_neg hhuge] at hans'
        exact ⟨⟨hview, hans'.1⟩, hans'.2⟩

/-- A page that is mapped is not seen in the tables above it. -/
theorem vspaceMap_tableView (slot vaddr : Nat) (perms : Perms) (pages : Nat) :
    Frames World.tableView (vspaceMap pid slot vaddr perms pages) :=
  Frames.bind ext_tableView fun _ => fun w => w.tableView_modifyTask pid fun _ => rfl

/-- A range that is unmapped is not seen in the tables above it. -/
theorem vspaceUnmap_tableView (vaddr bytes : Nat) :
    Frames World.tableView (vspaceUnmap pid vaddr bytes) :=
  Frames.bind ext_tableView fun _ => fun w => w.tableView_modifyTask pid fun _ => rfl

end Calls

namespace MapCall

/-- What the call does when it is known how the first mapping went. -/
def finish (c : MapCall) : Except Err Unit → M Unit
  | .ok _ => pure ()
  | .error .mappingFailed => do
    forEach (List.range c.pages) fun j =>
      ensureIntermediatePageTablesWithLeaf c.pid (wAdd c.vaddr (j * PGSIZE)) 1
    vspaceMap c.pid c.slot c.vaddr c.perms c.pages
  | .error e => throw e

/-- A mapping is an attempt to have the tables and what follows it. -/
theorem command_eq (c : MapCall) : c.command = c.attempted >>= c.finish := by
  simp only [attempted, bind_bind]
  refine congrArg (_ >>= ·) (funext fun _ => congrArg (_ >>= ·) (funext fun _ =>
    congrArg (_ >>= ·) (funext fun r => ?_)))
  cases r with
  | ok a => rfl
  | error e => cases e <;> rfl

/-- The tables of every page of the call are recorded. -/
def Covered (c : MapCall) (v : TableView) : Prop :=
  v.layout.CoversHuge → ∀ j < c.pages, v.PageCovered c.pid c.vaddr c.pages j

variable {v : TableView}

/-- The attempt leaves the range covered, or the view has grown by what was built. -/
theorem attempted_tableView (c : MapCall) :
    Triple (fun w => w.tableView = v ∧ RangeAnswered c.pid c.vaddr c.pages c.pages 0 w) c.attempted
      (fun _ w => v.Grew c.pid w.tableView ∧ c.Covered w.tableView)
      fun _ w => v.Grew c.pid w.tableView := by
  let J (w : World) : Prop := v.Grew c.pid w.tableView ∧ c.Covered w.tableView
  have hkeep : ∀ {α : Type} {d : M α}, Frames World.tableView d →
      Triple J d (fun _ => J) fun _ w => v.Grew c.pid w.tableView := by
    intro α d hd
    have hJ : Keeps J d := hd.keeps fun x => v.Grew c.pid x ∧ c.Covered x
    exact hJ.triple.errors fun _ _ h => h.1
  have hrange := @ensureRange_tableView c.pid v c.vaddr c.pages c.pages 0 (by omega)
  refine Triple.bind (R := fun _ => J) (hrange.post
    fun _ w h => ⟨h.1, fun hs j hj => h.2 (h.1.layout ▸ hs) j (Nat.zero_le j) hj⟩) fun _ => ?_
  refine Triple.bind (hkeep (Frames.bind (Frames.gets _) fun _ => Frames.getSome _ _)) fun _ => ?_
  refine Triple.bind (hkeep (Frames.attempt (vspaceMap_tableView _ _ _ _))) fun r => ?_
  refine Triple.bind (hkeep (Frames.when (Frames.ignore (vspaceUnmap_tableView _ _)))) fun _ => ?_
  exact Triple.pure fun w h => h

/-- A call of `map_process_frame` whose frees are answered as releases. -/
theorem command_tableView (c : MapCall) :
    Triple (fun w => w.tableView = v ∧ c.Answered w) c.command
      (fun _ w => v.Grew c.pid w.tableView ∧ c.Covered w.tableView)
      fun _ w => v.Grew c.pid w.tableView := by
  rw [command_eq]
  -- the attempt, then the second try when the kernel missed a table
  refine (Triple.bind_after c.attempted_tableView fun r => ?_).pre
    fun w hw => ⟨⟨hw.1, hw.2.1⟩, hw.2.2⟩
  by_cases hr : r = .error .mappingFailed
  · -- the tables of every page are installed, and the mapping is tried again
    subst hr
    let J (w : World) : Prop := v.Grew c.pid w.tableView ∧ c.Covered w.tableView
    have hloop := Triple.forEach_atEach
      (f := fun j => ensureIntermediatePageTablesWithLeaf c.pid (wAdd c.vaddr (j * PGSIZE)) 1)
      (A := fun j w => w.PageAnswered c.pid (wAdd c.vaddr (j * PGSIZE)) 1) (fun _ => J)
      (E := fun _ w => v.Grew c.pid w.tableView) (fun j _ => Triple.of_pre fun w₁ hw₁ => ?_)
      (List.range c.pages)
    · refine Triple.bind (hloop.pre fun w hw => ⟨hw.1, hw.2 rfl⟩) fun _ => ?_
      have hJ : Keeps J (vspaceMap c.pid c.slot c.vaddr c.perms c.pages) :=
        (vspaceMap_tableView _ _ _ _).keeps fun x => v.Grew c.pid x ∧ c.Covered x
      exact hJ.triple.errors fun _ _ h => h.1
    -- the page of this turn is covered now, and the pages before it stay covered
    · obtain ⟨⟨hgrew, hcov⟩, hans⟩ := hw₁
      refine (ensureIntermediatePageTablesWithLeaf_tableView (v := w₁.tableView) _ _).imp
        (fun w hw => by subst hw; exact ⟨rfl, hans⟩) (fun _ w hw => ?_) fun _ w hw => hgrew.trans hw
      refine ⟨hgrew.trans hw.1, ?_⟩
      intro hs j hj
      exact hw.1.pageCovered (hcov (hw.1.layout ▸ hs) j hj)
  -- every other outcome is handed on
  · have hfinish : c.finish r = ofExcept r := by
      cases r with
      | ok a => rfl
      | error e => cases e <;> first | rfl | exact absurd rfl hr
    rw [hfinish]
    exact Triple.ofExcept (fun _ w _ hw => hw.1) fun _ w _ hw => hw.1.1

end MapCall

end Ape
