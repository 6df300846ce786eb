import Ape.Model.State

/-!
# `Ape.Model.Paging`: installing frames in an address space

The lower half of `ape/fault.rs`: intermediate page tables, `map_process_frame` and
`unmap_process_pages`, and the lookups of `ape/mm.rs` in the two tables of a process.
-/

set_option autoImplicit false

namespace Ape

open Ape.Lib Cmd

/-- `L1_HUGE_PAGES`. -/
def L1_HUGE_PAGES : Nat := 512

/-- `L1_HUGE_SIZE`. -/
def L1_HUGE_SIZE : Nat := L1_HUGE_PAGES * PGSIZE

/-! ### Lookups -/

/-- The last step of a lookup: the entry with the greatest key contains the address. The
end of the entry is computed in the word. -/
def entryAt (maps : OrdMap Nat MemoryMap) (a : Nat) : Option MemoryMap :=
  match maps.floor? a with
  | some (_, m) => if a < wAdd m.vaddr m.size then some m else none
  | none => none

/-- `lookup_memory_map`. -/
def MmState.lookupMemoryMap (mm : MmState) (a : Nat) : Option MemoryMap := entryAt mm.memoryMaps a

/-- `lookup_lazy_memory_map`. -/
def MmState.lookupLazyMemoryMap (mm : MmState) (a : Nat) : Option MemoryMap :=
  entryAt mm.lazyMemoryMaps a

/-- `add_memory_map`. -/
def MmState.addMemoryMap (mm : MmState) (m : MemoryMap) : MmState :=
  { mm with memoryMaps := mm.memoryMaps.insert m.vaddr m }

/-- `add_lazy_memory_map`. -/
def MmState.addLazyMemoryMap (mm : MmState) (m : MemoryMap) : MmState :=
  { mm with lazyMemoryMaps := mm.lazyMemoryMaps.insert m.vaddr m }

/-- `remove_lazy_memory_map`. -/
def MmState.removeLazyMemoryMap (mm : MmState) (a : Nat) : MmState :=
  { mm with lazyMemoryMaps := mm.lazyMemoryMaps.erase a }

/-- `memory_maps.remove(a)`. -/
def MmState.removeMemoryMap (mm : MmState) (a : Nat) : MmState :=
  { mm with memoryMaps := mm.memoryMaps.erase a }

/-! ### Intermediate page tables -/

/-- `release_pagetable_slot`. -/
def releasePagetableSlot (pid slot : Nat) : M Unit := do
  let r ← attempt ext
  let released : Bool := match r with
    | .ok _ => true
    | .error e => e == .invalidCapability || e == .invalidSlot || e == .notSupported
  when released do
    cspaceFree slot
    ledgerRecordPagetableFree pid slot

/-- `release_process_intermediate_page_tables`. -/
def releaseProcessIntermediatePageTables (pid : Nat) : M Unit := do
  let task ← getProcess pid
  let slots := task.mm.intermediatePageTables.values.filter (· ≠ 0)
  modifyTask pid fun t => { t with mm := { t.mm with intermediatePageTables := OrdMap.empty } }
  forEach slots fun slot => releasePagetableSlot pid slot

/-- `record_intermediate_page_table`. -/
def recordIntermediatePageTable (pid level path cap : Nat) : M Unit :=
  modifyTask pid fun t => { t with mm := { t.mm with
    intermediatePageTables := t.mm.intermediatePageTables.insert (toLex (level, path)) cap } }

/-- One missing table of `ensure_intermediate_page_tables_with_leaf`. The answer to
`map_table` decides: a table that was already there is recorded with a null capability. -/
def addIntermediatePageTable (pid level path : Nat) : M Unit := do
  let slot ← cspaceAlloc
  onError (do let _ ← ext) fun _ => cspaceFree slot
  ledgerRecordPagetableAlloc pid slot
  let r ← attempt ext
  match r with
  | .ok _ => recordIntermediatePageTable pid level path slot
  | .error .alreadyExists => do
    releasePagetableSlot pid slot
    recordIntermediatePageTable pid level path 0
  | .error e => do
    releasePagetableSlot pid slot
    throw e

/-- `ensure_intermediate_page_tables_with_leaf`. -/
def ensureIntermediatePageTablesWithLeaf (pid pageAddr leafLevel : Nat) : M Unit := do
  let task ← getProcess pid
  let l ← gets (·.layout)
  let levels := ((List.range l.shifts.length).drop leafLevel).reverse
  let missing := levels.filter fun level =>
    !task.mm.intermediatePageTables.contains (toLex (level, ptPath l pageAddr level))
  forEach missing fun level => addIntermediatePageTable pid level (ptPath l pageAddr level)

/-- The first loop of `map_process_frame`, from page `i` on. Every round moves at least one
page, so `pages` rounds are enough. -/
def ensureRange (pid vaddr pages : Nat) : Nat → Nat → M Unit
  | 0, _ => pure ()
  | n + 1, i =>
    if i < pages then
      if wAdd vaddr (i * PGSIZE) % L1_HUGE_SIZE = 0 ∧ L1_HUGE_PAGES ≤ pages - i then do
        ensureIntermediatePageTablesWithLeaf pid (wAdd vaddr (i * PGSIZE)) 2
        ensureRange pid vaddr pages n (i + L1_HUGE_PAGES)
      else do
        ensureIntermediatePageTablesWithLeaf pid (wAdd vaddr (i * PGSIZE)) 1
        ensureRange pid vaddr pages n (i + 1)
    else pure ()

/-- `map_process_frame`. A mapping that fails for want of a table is tried again, with the
tables of every page in place. -/
def mapProcessFrame (pid slot vaddr : Nat) (perms : Perms) (pages : Nat) : M Unit := do
  ensureRange pid vaddr pages pages 0
  let _ ← getProcess pid
  let r ← attempt (vspaceMap pid slot vaddr perms pages)
  match r with
  | .ok _ => pure ()
  | .error .mappingFailed => do
    ignore (vspaceUnmap pid vaddr (pages * PGSIZE))
    forEach (List.range pages) fun j =>
      ensureIntermediatePageTablesWithLeaf pid (wAdd vaddr (j * PGSIZE)) 1
    vspaceMap pid slot vaddr perms pages
  | .error e => throw e

/-- `unmap_process_pages`. -/
def unmapProcessPages (pid vaddr pages : Nat) : M Unit := do
  let _ ← getProcess pid
  vspaceUnmap pid vaddr (pages * PGSIZE)

/-- A page-aligned entry of one page, the shape of the entries that the fault handler, the
stack growth and `mmap` add. -/
def pageEntry (vaddr : Nat) (flags : Perms) (memType : MemoryType) (frameCap : Nat) : MemoryMap :=
  ⟨vaddr, 0, PGSIZE, flags, memType, false, frameCap, none, 0⟩

/-- `cspace_mgr.alloc` and `res_client.alloc` of one page, with the slot given back when the
page is refused. -/
def allocPageFrame : M Nat := do
  let slot ← cspaceAlloc
  onError (resAllocPage 1 slot) fun _ => cspaceFree slot
  pure slot

/-- `cspace_mgr.alloc` and `res_client.alloc` of `pages` pages, without a cleanup. -/
def allocPageFrameNoCleanup (pages : Nat) : M Nat := do
  let slot ← cspaceAlloc
  resAllocPage pages slot
  pure slot

end Ape
