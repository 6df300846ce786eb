import Ape.Model.Paging

/-!
# `Ape.Model.User`: copies between the server and a user address space

`ape/user.rs` with its page pool and the LRU policy of `ape/policy/lru.rs`. A session looks
up the entry of the current address, grows the stack when the address is in its reservation,
maps the entry's frame in the server (or finds it in the pool), and moves the bytes that lie
in this entry.
-/

set_option autoImplicit false

namespace Ape

open Ape.Lib Cmd

/-- `USER_SHARED_PAGE_POOL_SLOTS`. -/
def USER_SHARED_PAGE_POOL_SLOTS : Nat := 16

/-- `SharedPagePoolEntry`. -/
structure SharedPagePoolEntry where
  mapVaddr : Nat
  scratchVaddr : Nat
  pages : Nat
  frameCap : Nat
  perms : Perms
  deriving DecidableEq

/-- `SharedPagePool<LruPolicy>`: the sixteen slots and the order of their last use. -/
structure SharedPagePool where
  entries : Nat → Option SharedPagePoolEntry
  occupied : Nat → Bool
  order : List Nat

/-- `SharedPagePool::new`. -/
def SharedPagePool.new : SharedPagePool := ⟨fun _ => none, fun _ => false, []⟩

/-- `LruPolicy::touch`: the slot becomes the most recently used. -/
def SharedPagePool.touch (p : SharedPagePool) (slot : Nat) : SharedPagePool :=
  { p with order := p.order.erase slot ++ [slot] }

/-- `LruPolicy::victim`: unoccupied slots at the front are dropped from the order. -/
def SharedPagePool.victim (p : SharedPagePool) : Option Nat × SharedPagePool :=
  let order := p.order.dropWhile fun s => !(s < USER_SHARED_PAGE_POOL_SLOTS && p.occupied s)
  match order with
  | s :: _ => (some s, { p with order := order })
  | [] => ((List.range USER_SHARED_PAGE_POOL_SLOTS).find? p.occupied, { p with order := [] })

/-- `find_hit`. -/
def SharedPagePool.findHit (p : SharedPagePool) (m : MemoryMap) (perms : Perms) : Option Nat :=
  (List.range USER_SHARED_PAGE_POOL_SLOTS).find? fun i =>
    p.occupied i &&
      match p.entries i with
      | some e => e.frameCap = m.frameCap && e.perms.contains perms
      | none => false

/-- The state of a user session: the server and the session's pool. -/
abbrev Session := World × SharedPagePool

/-- A command of a user session. -/
abbrev S := Cmd Session Err

/-- `pick_slot`. -/
def pickSlot : S Nat := do
  let pool ← gets (·.2)
  match (List.range USER_SHARED_PAGE_POOL_SLOTS).find? (fun i => !pool.occupied i) with
  | some i => pure i
  | none => do
    modify fun s => (s.1, s.2.victim.2)
    getSome pool.victim.1 .outOfMemory

/-- `unmap_slot`. The entry is taken before the unmap, and the slot becomes free after it. -/
def unmapSlot (slot : Nat) : S Unit := do
  let e ← gets (·.2.entries slot)
  whenSome e fun e => do
    modify fun s => (s.1, { s.2 with entries := fun i => if i = slot then none else s.2.entries i })
    inFst (unmapScratch e.scratchVaddr)
    modify fun s =>
      (s.1, { s.2 with occupied := fun i => if i = slot then false else s.2.occupied i })

/-- `acquire`: the scratch address of the entry's frame. -/
def acquire (m : MemoryMap) (perms : Perms) : S Nat := do
  let pool ← gets (·.2)
  match pool.findHit m perms with
  | some slot => do
    modify fun s => (s.1, s.2.touch slot)
    pure (((pool.entries slot).map (·.scratchVaddr)).getD 0)
  | none => do
    let slot ← pickSlot
    let busy ← gets (·.2.occupied slot)
    when busy (unmapSlot slot)
    let scratch ← inFst (mapScratch m.frameCap perms m.pages)
    modify fun s => (s.1, SharedPagePool.touch
      { s.2 with
        entries := fun i =>
          if i = slot then some ⟨m.vaddr, scratch, m.pages, m.frameCap, perms⟩ else s.2.entries i
        occupied := fun i => if i = slot then true else s.2.occupied i } slot)
    pure scratch

/-- `release_all`. -/
def releaseAll : S Unit :=
  forEach (List.range USER_SHARED_PAGE_POOL_SLOTS) fun i => do
    let busy ← gets (·.2.occupied i)
    when busy (unmapSlot i)

/-- The growth of the stack by one page at `vaddr`, the body of the loop of
`try_grow_stack_for_user_addr`. -/
def growStackPage (pid vaddr : Nat) : M Unit := do
  let slot ← allocPageFrameNoCleanup 1
  ledgerRecordFrameAlloc pid slot
  mapProcessFrame pid slot vaddr Perms.RW 1
  let _ ← getProcess pid
  modifyMm pid fun mm =>
    { mm.addMemoryMap (pageEntry vaddr Perms.RW .stack slot) with
      stackSize := satAdd mm.stackSize PGSIZE }

/-- `try_grow_stack_for_user_addr`. -/
def tryGrowStackForUserAddr (pid userAddr : Nat) : M Bool := do
  let task ← getProcess pid
  let mm := task.mm.state
  let pageAddr := alignDown userAddr
  let low := mm.stackBottom - mm.stackSize
  if ¬ (userAddr < mm.stackBottom ∧ mm.stackBottom - mm.maxStackSize ≤ userAddr) then pure false
  else if low ≤ pageAddr then pure false
  else if (low - pageAddr) / PGSIZE = 0 then pure false
  else do
    forEach (List.range ((low - pageAddr) / PGSIZE)) fun idx =>
      growStackPage pid (low - (idx + 1) * PGSIZE)
    pure true

/-- The lookup of `lookup_map` before its checks: the entry of the address, after growing
the stack when there is none. -/
def lookupOrGrow (pid userAddr : Nat) : M (Option MemoryMap) := do
  let task ← getProcess pid
  match task.mm.state.lookupMemoryMap userAddr with
  | some m => pure (some m)
  | none => do
    let grown ← attempt (tryGrowStackForUserAddr pid userAddr)
    match grown with
    | .ok true => gets fun w =>
        (w.task? pid).bind fun t => t.mm.state.lookupMemoryMap userAddr
    | _ => pure none

/-- `lookup_map`. -/
def lookupMap (pid userAddr : Nat) (required : Perms) : M MemoryMap := do
  let found ← lookupOrGrow pid userAddr
  let m ← getSome found .invalidAddress
  if m.frameCap = 0 ∨ !m.flags.contains required then throw .invalidAddress
  else if userAddr < m.vaddr ∨ satAdd m.vaddr m.size ≤ userAddr then throw .invalidAddress
  else pure m

/-- The loop of `copy_from_user`, with `n` bytes to go. Every round moves at least one byte,
so a fuel of the length is enough. -/
def copyFromUserLoop (pid : Nat) : Nat → Nat → Nat → S (List UInt8)
  | 0, _, _ => pure []
  | fuel + 1, cursor, n =>
    if n = 0 then pure []
    else do
      let m ← inFst (lookupMap pid cursor Perms.R)
      let start := cursor - m.vaddr
      let chunk := min (m.size - start) n
      if chunk = 0 then throw .invalidAddress
      else do
        let scratch ← acquire m Perms.R
        let bytes ← gets fun s => (List.range chunk).map fun i =>
          s.1.scratchByte scratch (start + i)
        let rest ← copyFromUserLoop pid fuel (satAdd cursor chunk) (n - chunk)
        pure (bytes ++ rest)

/-- `UserAccessSession::copy_from_user`. -/
def sessionCopyFromUser (pid userSrc n : Nat) : S (List UInt8) :=
  if n = 0 then pure []
  else if userSrc = 0 then throw .invalidAddress
  else copyFromUserLoop pid n userSrc n

/-- The bytes of a frame after `src` is stored from `start` on. -/
def storeBytes (start : Nat) (src : List UInt8) (o : Nat) (b : UInt8) : UInt8 :=
  if start ≤ o ∧ o < start + src.length then src.getD (o - start) b else b

/-- The loop of `copy_to_user`, with the bytes `src` to go. -/
def copyToUserLoop (pid : Nat) : Nat → Nat → List UInt8 → S Unit
  | 0, _, _ => pure ()
  | fuel + 1, cursor, src =>
    if src = [] then pure ()
    else do
      let m ← inFst (lookupMap pid cursor Perms.W)
      let start := cursor - m.vaddr
      let chunk := min (m.size - start) src.length
      if chunk = 0 then throw .invalidAddress
      else do
        let scratch ← acquire m Perms.RW
        inFst (writeScratch scratch (storeBytes start (src.take chunk)))
        copyToUserLoop pid fuel (satAdd cursor chunk) (src.drop chunk)

/-- `UserAccessSession::copy_to_user`. -/
def sessionCopyToUser (pid userDst : Nat) (src : List UInt8) : S Unit :=
  if src = [] then pure ()
  else if userDst = 0 then throw .invalidAddress
  else copyToUserLoop pid src.length userDst src

/-- `with_user_session`: the session's own error comes first, then that of its cleanup. -/
def withUserSession {α : Type} (f : S α) : M α := do
  let r ← runWith f SharedPagePool.new
  let cleanup ← runWith releaseAll r.2
  let a ← ofExcept r.1
  ofExcept cleanup.1
  pure a

/-- `ApeManager::copy_from_user`. -/
def copyFromUser (pid userSrc n : Nat) : M (List UInt8) :=
  withUserSession (sessionCopyFromUser pid userSrc n)

/-- `ApeManager::copy_to_user`. -/
def copyToUser (pid userDst : Nat) (src : List UInt8) : M Unit :=
  withUserSession (sessionCopyToUser pid userDst src)

/-- `write_zeros_to_user`: sessions of at most 64 bytes, with `rounds` of them to go. -/
def writeZerosLoop (pid userPtr len : Nat) : Nat → Nat → M Unit
  | 0, _ => pure ()
  | rounds + 1, done =>
    if done < len then do
      copyToUser pid (userPtr + done) (List.replicate (min (len - done) 64) 0)
      writeZerosLoop pid userPtr len rounds (done + min (len - done) 64)
    else pure ()

/-- `write_zeros_to_user`. -/
def writeZerosToUser (pid userPtr len : Nat) : M Unit :=
  if userPtr = 0 ∨ len = 0 then pure ()
  else writeZerosLoop pid userPtr len len 0

end Ape
