import Ape.Model.User

/-!
# `Ape.Model.Mm`: the memory syscalls

`mm/mod.rs`: `brk`, `mmap`, `munmap`, `mprotect`, `mremap`, and the splitting of an entry of
several pages that a range cuts. The bounds of a range are checked before they are used, so
the additions that follow a check are plain.
-/

set_option autoImplicit false

namespace Ape

open Ape.Lib Cmd

/-! ### Constants of `linux_raw_sys` -/

def PROT_READ : Nat := 1
def PROT_WRITE : Nat := 2
def PROT_EXEC : Nat := 4
def MAP_PRIVATE : Nat := 2
def MAP_FIXED : Nat := 16
def MAP_ANONYMOUS : Nat := 32
def MREMAP_MAYMOVE : Nat := 1
def MREMAP_FIXED : Nat := 2
def MREMAP_DONTUNMAP : Nat := 4

/-! ### Ranges -/

/-- `prot_to_perms`. -/
def protToPerms (prot : Nat) : Perms :=
  ⟨prot &&& PROT_READ != 0, prot &&& PROT_WRITE != 0, prot &&& PROT_EXEC != 0⟩

/-- `has_overlap`. -/
def hasOverlap (start stop mapStart mapSize : Nat) : Bool :=
  start < satAdd mapStart mapSize && mapStart < stop

/-- `is_remappable_user_mapping`. -/
def isRemappableUserMapping : MemoryType → Bool
  | .anonymous | .fileBacked => true
  | _ => false

/-- The lowest address of the stack reservation. -/
def MmState.stackLow (mm : MmState) : Nat := mm.stackBottom - mm.maxStackSize

/-- The test of `range_is_free` and `range_is_free_excluding` on the regions that are not in
the tables. -/
def MmState.outsideFixedRegions (mm : MmState) (start stop : Nat) : Bool :=
  !hasOverlap start stop mm.heapStart (mm.heapBrk - mm.heapStart)
    && !hasOverlap start stop mm.stackLow mm.maxStackSize

/-- `range_is_free`. -/
def MmState.rangeIsFree (mm : MmState) (start stop : Nat) : Bool :=
  !(mm.mmapLimit < stop || start < mm.mmapBase || stop ≤ start)
    && mm.outsideFixedRegions start stop
    && mm.memoryMaps.values.all (fun m => !hasOverlap start stop m.vaddr m.size)
    && mm.lazyMemoryMaps.values.all fun m => !hasOverlap start stop m.vaddr m.size

/-- An entry that does not stand in the way of `range_is_free_excluding`. -/
def clearOrExcepted (start stop exceptStart exceptEnd : Nat) (m : MemoryMap) : Bool :=
  !hasOverlap start stop m.vaddr m.size
    || (exceptStart ≤ m.vaddr && satAdd m.vaddr m.size ≤ exceptEnd)

/-- `range_is_free_excluding`. -/
def MmState.rangeIsFreeExcluding (mm : MmState) (start stop exceptStart exceptEnd : Nat) : Bool :=
  !(mm.mmapLimit < stop || start < mm.mmapBase || stop ≤ start)
    && mm.outsideFixedRegions start stop
    && mm.memoryMaps.values.all (clearOrExcepted start stop exceptStart exceptEnd)
    && mm.lazyMemoryMaps.values.all (clearOrExcepted start stop exceptStart exceptEnd)

/-- The search of `do_mmap` and `find_free_remap_target`, from `candidate` on. -/
def MmState.findFree (mm : MmState) (len : Nat) : Nat → Nat → Option Nat
  | 0, _ => none
  | rounds + 1, candidate =>
    match checkedAdd candidate len with
    | none => none
    | some stop =>
      if mm.mmapLimit < stop then none
      else if mm.rangeIsFree candidate stop then some candidate
      else mm.findFree len rounds (satAdd candidate PGSIZE)

/-- The rounds after which every candidate is past `mmap_limit`. -/
def MmState.searchRounds (mm : MmState) : Nat := mm.mmapLimit / PGSIZE + 2

/-- `find_free_remap_target`. -/
def MmState.findFreeRemapTarget (mm : MmState) (len : Nat) : Option Nat :=
  mm.findFree len mm.searchRounds (max mm.mmapNext mm.mmapBase)

/-! ### Splitting an entry of several pages -/

/-- `split_partial_multi_page_targets`. -/
def MmState.splitPartialMultiPageTargets (mm : MmState) (start stop : Nat) : List Nat :=
  mm.memoryMaps.values.filterMap fun m =>
    if !isRemappableUserMapping m.memType || m.frameCap = 0 then none
    else if m.pages ≤ 1 then none
    else if !hasOverlap start stop m.vaddr (m.pages * PGSIZE) then none
    else if m.vaddr < start || stop < satAdd m.vaddr (m.pages * PGSIZE) then some m.vaddr
    else none

/-- `release_temp_frame_slots`. -/
def releaseTempFrameSlots (pid : Nat) (slots : List Nat) : M Unit :=
  forEach slots fun slot => releaseProcessFrameSlot pid slot

/-- The first loop of `split_large_mapping_into_base_pages`: a copy of each page of the old
frame in a frame of its own. `slots` are the new frames so far. -/
def splitCopyPages (pid src : Nat) : List Nat → List Nat → M (List Nat)
  | [], slots => pure slots
  | idx :: rest, slots => do
    let slot ← onError cspaceAlloc fun _ => do
      ignore (unmapScratch src)
      releaseTempFrameSlots pid slots
    onError (resAllocPage 1 slot) fun _ => do
      cspaceFree slot
      ignore (unmapScratch src)
      releaseTempFrameSlots pid slots
    ledgerRecordFrameAlloc pid slot
    let dst ← onError (mapScratch slot Perms.RW 1) fun _ => do
      releaseProcessFrameSlot pid slot
      ignore (unmapScratch src)
      releaseTempFrameSlots pid slots
    copyScratch src (idx * PGSIZE) dst PGSIZE
    ignore (unmapScratch dst)
    splitCopyPages pid src rest (slots ++ [slot])

/-- The second loop of `split_large_mapping_into_base_pages`: the new frames are installed.
When one fails, those before it are unmapped and the old frame is put back. -/
def splitMapPages (pid : Nat) (m : MemoryMap) (slots : List Nat) : List (Nat × Nat) → M Unit
  | [] => pure ()
  | (slot, idx) :: rest => do
    onError (mapProcessFrame pid slot (wAdd m.vaddr (idx * PGSIZE)) m.flags 1) fun _ => do
      forEach (List.range idx) fun back =>
        ignore (unmapProcessPages pid (wAdd m.vaddr (back * PGSIZE)) 1)
      ignore (mapProcessFrame pid m.frameCap m.vaddr m.flags m.pages)
      releaseTempFrameSlots pid slots
    splitMapPages pid m slots rest

/-- The entry of page `idx` of a split entry. -/
def splitEntry (m : MemoryMap) (slot idx : Nat) : MemoryMap :=
  { m with
    vaddr := wAdd m.vaddr (idx * PGSIZE)
    paddr := 0
    size := PGSIZE
    frameCap := slot
    fileBackingOffset := satAdd m.fileBackingOffset (idx * PGSIZE) }

/-- The table after a split: the old entry is removed and its pages take its place. -/
def MmState.insertSplit (mm : MmState) (m : MemoryMap) (slots : List Nat) : MmState :=
  slots.zipIdx.foldl (fun mm e => mm.addMemoryMap (splitEntry m e.1 e.2))
    (mm.removeMemoryMap m.vaddr)

/-- `split_large_mapping_into_base_pages`. -/
def splitLargeMappingIntoBasePages (pid mapStart : Nat) : M Unit := do
  let task ← getProcess pid
  let m ← getSome (task.mm.state.memoryMaps.get? mapStart) .notFound
  if !isRemappableUserMapping m.memType || m.frameCap = 0 then pure ()
  else if m.pages ≤ 1 then pure ()
  else do
    let src ← mapScratch m.frameCap Perms.R m.pages
    let slots ← splitCopyPages pid src (List.range m.pages) []
    ignore (unmapScratch src)
    unmapProcessPages pid m.vaddr m.pages
    splitMapPages pid m slots slots.zipIdx
    let _ ← getProcess pid
    modifyMm pid (·.insertSplit m slots)
    releaseProcessFrameSlot pid m.frameCap

/-- `ensure_partial_multi_page_ranges_split`. -/
def ensurePartialMultiPageRangesSplit (pid start stop : Nat) : M Unit := do
  let task ← getProcess pid
  forEach (task.mm.state.splitPartialMultiPageTargets start stop) fun mapStart =>
    splitLargeMappingIntoBasePages pid mapStart

/-! ### `brk` -/

/-- `do_brk`. -/
def doBrk (pid addr : Nat) : M Nat := do
  let task ← getProcess pid
  let mm := task.mm.state
  if addr = 0 then pure mm.heapBrk
  else if addr < mm.heapStart ∨ mm.heapLimit < addr then pure mm.heapBrk
  else do
    modifyMm pid fun mm => { mm with heapBrk := addr }
    pure addr

/-! ### `mmap` and `munmap` -/

/-- A lazy entry of one page. -/
def lazyEntry (vaddr : Nat) (flags : Perms) (memType : MemoryType) (fd : Option Nat)
    (offset : Nat) : MemoryMap :=
  ⟨vaddr, 0, PGSIZE, flags, memType, false, 0, fd, offset⟩

/-- The rollback of `map_anonymous_range_eager`, the newest page first. -/
def rollbackEager (pid : Nat) (mapped : List (Nat × Nat)) : M Unit :=
  forEach mapped fun e => do
    ignore (unmapProcessPages pid e.1 1)
    modifyMm pid (·.removeMemoryMap e.1)
    releaseProcessFrameSlot pid e.2

/-- The loop of `map_anonymous_range_eager`. `mapped` are the pages of this call, the newest
first. A refused capability slot ends the call without the rollback. -/
def mapAnonymousPages (pid : Nat) (perms : Perms) : List Nat → List (Nat × Nat) → M Unit
  | [], _ => pure ()
  | page :: pages, mapped => do
    let slot ← cspaceAlloc
    onError (resAllocPage 1 slot) fun _ => do
      cspaceFree slot
      rollbackEager pid mapped
    ledgerRecordFrameAlloc pid slot
    onError (mapProcessFrame pid slot page perms 1) fun _ => do
      releaseProcessFrameSlot pid slot
      rollbackEager pid mapped
    modifyMm pid (·.addMemoryMap (pageEntry page perms .anonymous slot))
    mapAnonymousPages pid perms pages ((page, slot) :: mapped)

/-- `map_anonymous_range_eager`. -/
def mapAnonymousRangeEager (pid start stop : Nat) (perms : Perms) : M Unit :=
  mapAnonymousPages pid perms (pageRange start stop) []

/-- The lazy entries of a file mapping. -/
def mapFileRangeLazy (pid start stop : Nat) (perms : Perms) (fd offset : Nat) : M Unit := do
  let _ ← getProcess pid
  forEach (pageRange start stop) fun page => do
    let backing ← getSome (checkedAdd offset (page - start)) .outOfMemory
    modifyMm pid (·.addLazyMemoryMap (lazyEntry page perms .fileBacked (some fd) backing))

/-- Record a file mapping. -/
def logFileMap (e : FileMapEvent) : M Unit := modify fun w =>
  { w with fileMapLog := e :: w.fileMapLog }

/-- The pages of a new mapping, lazy for a file and eager otherwise. -/
def mapNewRange (pid start stop : Nat) (perms : Perms) (fileBacking : Option (Nat × Nat)) :
    M Unit :=
  match fileBacking with
  | some (fd, offset) => do
    logFileMap (.mapped pid start stop fd offset)
    mapFileRangeLazy pid start stop perms fd offset
  | none => mapAnonymousRangeEager pid start stop perms

/-- The ranges that a fixed `mmap` or a `munmap` of these pages takes out of the table: the
frame and the page count of each remappable entry, by address. -/
def MmState.mappedRanges (mm : MmState) (pages : List Nat) : OrdMap Nat (Nat × Nat) :=
  pages.foldl (fun acc page =>
    match mm.memoryMaps.get? page with
    | some m =>
      if isRemappableUserMapping m.memType then acc.orInsert m.vaddr (m.frameCap, m.pages) else acc
    | none => acc) OrdMap.empty

/-- The tables without the lazy entries of these pages and without the given ranges. -/
def MmState.removeRanges (mm : MmState) (pages : List Nat) (ranges : OrdMap Nat (Nat × Nat)) :
    MmState :=
  ranges.keys.foldl MmState.removeMemoryMap (pages.foldl MmState.removeLazyMemoryMap mm)

/-- The unmapping of the ranges that were taken out of the table. -/
def unmapRanges (pid : Nat) (ranges : OrdMap Nat (Nat × Nat)) : M Unit :=
  forEach ranges.entries fun e => do
    unmapProcessPages pid e.1 e.2.2
    when (e.2.1 ≠ 0) (releaseProcessFrameSlot pid e.2.1)

/-- The checks of a fixed `mmap` against the regions it may not replace. -/
def MmState.checkFixed (mm : MmState) (start stop : Nat) : Except Err Unit :=
  if mm.mmapLimit < stop then .error .outOfMemory
  else if !mm.outsideFixedRegions start stop then .error .invalidArgs
  else if mm.memoryMaps.values.any (fun m =>
      hasOverlap start stop m.vaddr m.size && !isRemappableUserMapping m.memType) then
    .error .invalidArgs
  else .ok ()

/-- The `MAP_FIXED` branch of `do_mmap`. -/
def mmapFixed (pid addr len : Nat) (perms : Perms) (fileBacking : Option (Nat × Nat)) : M Nat :=
  if addr % PGSIZE ≠ 0 then throw .invalidArgs
  else do
    let stop ← getSome (checkedAdd addr len) .outOfMemory
    ensurePartialMultiPageRangesSplit pid addr stop
    let task ← getProcess pid
    ofExcept (task.mm.state.checkFixed addr stop)
    let ranges := task.mm.state.mappedRanges (pageRange addr stop)
    modifyMm pid (·.removeRanges (pageRange addr stop) ranges)
    unmapRanges pid ranges
    mapNewRange pid addr stop perms fileBacking
    modifyMm pid fun mm => { mm with mmapNext := max mm.mmapNext stop }
    pure addr

/-- The search branch of `do_mmap`. -/
def mmapAnywhere (pid addr len : Nat) (perms : Perms) (fileBacking : Option (Nat × Nat)) :
    M Nat := do
  let task ← getProcess pid
  let mm := task.mm.state
  let first := max (if addr ≠ 0 then alignDown addr else mm.mmapNext) mm.mmapBase
  let start ← getSome (mm.findFree len mm.searchRounds first) .outOfMemory
  mapNewRange pid start (start + len) perms fileBacking
  let _ ← getProcess pid
  modifyMm pid fun mm => { mm with mmapNext := max mm.mmapNext (start + len) }
  pure start

/-- The file of a mapping: none when it is anonymous, and else an open descriptor. -/
def mmapFileBacking (pid flags fd offset : Nat) : M (Option (Nat × Nat)) :=
  if flags &&& MAP_ANONYMOUS ≠ 0 then pure none
  else if 2 ^ 32 ≤ fd then throw .invalidSlot
  else do
    let task ← getProcess pid
    let _ ← getSome (task.files.fds.get? fd) .invalidSlot
    pure (some (fd, offset))

/-- `do_mmap`. -/
def doMmap (pid addr len prot flags fd offset : Nat) : M Nat :=
  if len = 0 then throw .invalidArgs
  else if flags &&& MAP_PRIVATE = 0 then throw .invalidArgs
  else do
    let fileBacking ← mmapFileBacking pid flags fd offset
    if flags &&& MAP_FIXED ≠ 0 then
      mmapFixed pid addr (alignUp len) (protToPerms prot) fileBacking
    else mmapAnywhere pid addr (alignUp len) (protToPerms prot) fileBacking

/-- `do_munmap`. -/
def doMunmap (pid addr len : Nat) : M Unit :=
  if len = 0 ∨ addr % PGSIZE ≠ 0 then throw .invalidArgs
  else do
    let stop ← getSome (checkedAdd addr (alignUp len)) .outOfMemory
    ensurePartialMultiPageRangesSplit pid addr stop
    let task ← getProcess pid
    let ranges := task.mm.state.mappedRanges (pageRange addr stop)
    modifyMm pid (·.removeRanges (pageRange addr stop) ranges)
    unmapRanges pid ranges

/-! ### `mprotect` -/

/-- The ranges of `do_mprotect`: the entry of every page, or an error when one has none. -/
def MmState.protectRanges (mm : MmState) (pages : List Nat) :
    Except Err (OrdMap Nat (Nat × Nat)) :=
  pages.foldlM (fun acc page =>
    match mm.lookupMemoryMap page with
    | some m =>
      if page < m.vaddr ∨ satAdd m.vaddr m.size ≤ page then .error .invalidAddress
      else .ok (acc.orInsert m.vaddr (m.frameCap, m.pages))
    | none => .error .invalidAddress) OrdMap.empty

/-- The new permissions in the tables. -/
def MmState.setFlags (mm : MmState) (perms : Perms) (vaddrs pages : List Nat) : MmState :=
  { mm with
    memoryMaps := vaddrs.foldl (fun maps v => maps.modify v fun m => { m with flags := perms })
      mm.memoryMaps
    lazyMemoryMaps := pages.foldl (fun maps p => maps.modify p fun m => { m with flags := perms })
      mm.lazyMemoryMaps }

/-- `do_mprotect`. -/
def doMprotect (pid addr len prot : Nat) : M Unit :=
  if len = 0 then pure ()
  else do
    let start := alignDown addr
    let last ← getSome (checkedAdd addr len) .outOfMemory
    let stop := alignUp last
    ensurePartialMultiPageRangesSplit pid start stop
    let task ← getProcess pid
    let ranges ← ofExcept (task.mm.state.protectRanges (pageRange start stop))
    forEach ranges.entries fun e => do
      ignore (unmapProcessPages pid e.1 e.2.2)
      mapProcessFrame pid e.2.1 e.1 (protToPerms prot) e.2.2
    modifyMm pid (·.setFlags (protToPerms prot) ranges.keys (pageRange start stop))

/-! ### `mremap` -/

/-- `RemapPageState`. -/
inductive RemapPageState where
  | mapped (frameCap : Nat) (flags : Perms)
  | lazyPage (flags : Perms)
  deriving DecidableEq

/-- `RemapPageState::flags`. -/
def RemapPageState.flags : RemapPageState → Perms
  | .mapped _ flags => flags
  | .lazyPage flags => flags

/-- The state of one page in `collect_remap_states`. -/
def MmState.remapState (mm : MmState) (page : Nat) : Except Err RemapPageState :=
  match mm.memoryMaps.get? page with
  | some m =>
    if m.memType ≠ .anonymous ∨ m.size ≠ PGSIZE then .error .invalidArgs
    else .ok (.mapped m.frameCap m.flags)
  | none =>
    match mm.lazyMemoryMaps.get? page with
    | some m =>
      if m.memType ≠ .anonymous ∨ m.size ≠ PGSIZE then .error .invalidArgs
      else .ok (.lazyPage m.flags)
    | none => .error .invalidAddress

/-- `collect_remap_states`, over the pages of the range. -/
def MmState.collectRemapStates (mm : MmState) : List Nat → Except Err (List RemapPageState)
  | [] => .ok []
  | page :: pages => do
    let s ← mm.remapState page
    let rest ← mm.collectRemapStates pages
    pure (s :: rest)

/-- The lazy anonymous pages of an expansion. -/
def MmState.addLazyRange (mm : MmState) (flags : Perms) (pages : List Nat) : MmState :=
  pages.foldl (fun mm page => mm.addLazyMemoryMap (lazyEntry page flags .anonymous none 0)) mm

/-- The in-place expansion of `do_mremap`. -/
def expandInPlace (pid oldEnd newEnd : Nat) (flags : Perms) : M Unit := do
  let _ ← getProcess pid
  modifyMm pid fun mm =>
    { mm.addLazyRange flags (pageRange oldEnd newEnd) with mmapNext := max mm.mmapNext newEnd }

/-- The destination loop of `do_mremap`. When a frame cannot be installed, the pages
installed before it are unmapped. -/
def remapInstall (pid target : Nat) : List (RemapPageState × Nat) → List Nat → M Unit
  | [], _ => pure ()
  | (.mapped frameCap flags, i) :: rest, done => do
    onError (mapProcessFrame pid frameCap (target + i * PGSIZE) flags 1) fun _ =>
      forEach done fun page => ignore (unmapProcessPages pid page 1)
    remapInstall pid target rest (done ++ [target + i * PGSIZE])
  | (.lazyPage _, _) :: rest, done => remapInstall pid target rest done

/-- The entry of one moved page in the tables. -/
def MmState.addRemapped (mm : MmState) (vaddr : Nat) : RemapPageState → MmState
  | .mapped frameCap flags => mm.addMemoryMap (pageEntry vaddr flags .anonymous frameCap)
  | .lazyPage flags => mm.addLazyMemoryMap (lazyEntry vaddr flags .anonymous none 0)

/-- The tables after a move: the old pages are removed, the moved ones inserted, and the
rest of the new range is lazy. -/
def MmState.moveRange (mm : MmState) (oldPages : List Nat) (target : Nat)
    (states : List RemapPageState) (flags : Perms) (newPages : Nat) : MmState :=
  let removed := oldPages.foldl (fun mm p => (mm.removeMemoryMap p).removeLazyMemoryMap p) mm
  let moved := (states.take newPages).zipIdx.foldl
    (fun mm e => mm.addRemapped (target + e.2 * PGSIZE) e.1) removed
  { moved.addLazyRange flags
      (pageRange (target + min states.length newPages * PGSIZE) (target + newPages * PGSIZE)) with
    mmapNext := max mm.mmapNext (target + newPages * PGSIZE) }

/-- The move of `do_mremap` to another address. -/
def remapMove (pid oldAddr oldLen newLen target : Nat) (states : List RemapPageState)
    (flags : Perms) : M Nat := do
  let stop ← getSome (checkedAdd target newLen) .outOfMemory
  if hasOverlap target stop oldAddr oldLen then throw .invalidArgs
  else do
    let task ← getProcess pid
    if !task.mm.state.rangeIsFree target stop then throw .outOfMemory
    else do
      remapInstall pid target (states.take (newLen / PGSIZE)).zipIdx []
      let _ ← getProcess pid
      modifyMm pid (·.moveRange (pageRange oldAddr (oldAddr + oldLen)) target states flags
        (newLen / PGSIZE))
      forEach states.zipIdx fun e =>
        match e.1 with
        | .mapped _ _ => ignore (unmapProcessPages pid (oldAddr + e.2 * PGSIZE) 1)
        | .lazyPage _ => pure ()
      pure target

/-- The fixed branch of `do_mremap` when the target is the old address. -/
def remapSame (pid oldAddr oldLen newLen : Nat) (flags : Perms) : M Nat :=
  if newLen < oldLen then do
    doMunmap pid (oldAddr + newLen) (oldLen - newLen)
    pure oldAddr
  else if oldLen < newLen then do
    let task ← getProcess pid
    if !task.mm.state.rangeIsFreeExcluding oldAddr (oldAddr + newLen) oldAddr (oldAddr + oldLen)
    then throw .outOfMemory
    else do
      expandInPlace pid (oldAddr + oldLen) (oldAddr + newLen) flags
      pure oldAddr
  else pure oldAddr

/-- The end of `do_mremap`, once the target is known. -/
def remapTo (pid oldAddr oldLen newLen target : Nat) (states : List RemapPageState)
    (flags : Perms) : M Nat := do
  let _ ← getSome (checkedAdd target newLen) .outOfMemory
  if target = oldAddr then remapSame pid oldAddr oldLen newLen flags
  else remapMove pid oldAddr oldLen newLen target states flags

/-- The part of `do_mremap` without `MREMAP_FIXED`. -/
def remapAnywhere (pid oldAddr oldLen newLen : Nat) (mayMove : Bool)
    (states : List RemapPageState) (flags : Perms) : M Nat :=
  if newLen ≤ oldLen then
    if newLen < oldLen then do
      doMunmap pid (oldAddr + newLen) (oldLen - newLen)
      pure oldAddr
    else pure oldAddr
  else do
    let task ← getProcess pid
    if task.mm.state.rangeIsFreeExcluding oldAddr (oldAddr + newLen) oldAddr (oldAddr + oldLen)
    then do
      expandInPlace pid (oldAddr + oldLen) (oldAddr + newLen) flags
      pure oldAddr
    else if !mayMove then throw .outOfMemory
    else do
      let target ← getSome (task.mm.state.findFreeRemapTarget newLen) .outOfMemory
      remapTo pid oldAddr oldLen newLen target states flags

/-- The flag checks of `do_mremap`. -/
def remapFlagsOk (flags : Nat) : Bool :=
  flags < 8 && flags &&& MREMAP_DONTUNMAP = 0
    && (flags &&& MREMAP_FIXED = 0 || flags &&& MREMAP_MAYMOVE ≠ 0)

/-- `do_mremap`. -/
def doMremap (pid oldAddr oldSize newSize flags newAddr : Nat) : M Nat :=
  if oldSize = 0 ∨ newSize = 0 ∨ oldAddr % PGSIZE ≠ 0 then throw .invalidArgs
  else if !remapFlagsOk flags then throw .invalidArgs
  else do
    let oldLen := alignUp oldSize
    let newLen := alignUp newSize
    let _ ← getSome (checkedAdd oldAddr oldLen) .outOfMemory
    let _ ← getSome (checkedAdd oldAddr newLen) .outOfMemory
    let task ← getProcess pid
    let states ← ofExcept
      (task.mm.state.collectRemapStates (pageRange oldAddr (oldAddr + oldLen)))
    let base := (states.head?.map (·.flags)).getD Perms.RW
    if flags &&& MREMAP_FIXED = 0 then
      remapAnywhere pid oldAddr oldLen newLen (flags &&& MREMAP_MAYMOVE ≠ 0) states base
    else if newAddr % PGSIZE ≠ 0 then throw .invalidArgs
    else remapTo pid oldAddr oldLen newLen newAddr states base

end Ape
