import Ape.Lib.Recency
import Ape.Proofs.UserCopy

/-!
# `Ape.Proofs.PagePool`: the scratch mappings of a session

A session maps the frames it needs in the server, sixteen at a time. `PoolRun` is a session that
acquires entries, with other work in between that leaves the scratch mappings alone. Beside the
state go two histories: the slots in the order of the acquires, and the calls that map and unmap.

`PoolInv` is the invariant of a run. The policy's list is the order of last use (`Ape.Lib.Recency`),
the entries are the mappings of the session that are live, and the calls about one address are a
map, its unmap, a map, and so on. `page_pool_correct` reads off what an acquire and the end of the
session do.
-/

set_option autoImplicit false

namespace Ape

open Ape.Lib Cmd

/-! ### Calls -/

/-- A call of a session that maps or unmaps a scratch address. -/
inductive ScratchCall where
  | map (a : Nat)
  | unmap (a : Nat)
  deriving DecidableEq

/-- What the call does to the address `a`: it maps it, it unmaps it, or nothing. -/
def ScratchCall.on (a : Nat) : ScratchCall → Option Bool
  | map b => if b = a then some true else none
  | unmap b => if b = a then some false else none

/-- The world goes through the calls, and each of them succeeds. -/
inductive Calls : World → List ScratchCall → World → Prop
  | nil (w : World) : Calls w [] w
  | map {w w₁ w₂ : World} {slot a pages : Nat} {perms : Perms} {calls : List ScratchCall} :
      (mapScratch slot perms pages).run w = (.ok a, w₁) → Calls w₁ calls w₂ →
      Calls w (.map a :: calls) w₂
  | unmap {w w₁ w₂ : World} {a : Nat} {calls : List ScratchCall} :
      (unmapScratch a).run w = (.ok (), w₁) → Calls w₁ calls w₂ → Calls w (.unmap a :: calls) w₂

/-- The calls of two runs, one after the other. -/
theorem Calls.trans {w w₁ w₂ : World} {calls calls' : List ScratchCall} (h : Calls w calls w₁)
    (h' : Calls w₁ calls' w₂) : Calls w (calls ++ calls') w₂ := by
  induction h with
  | nil => exact h'
  | map hrun _ ih => exact .map hrun (ih h')
  | unmap hrun _ ih => exact .unmap hrun (ih h')

/-- A call that maps or unmaps is refused. -/
def ScratchRefused (w : World) (e : Err) (w' : World) : Prop :=
  (∃ slot perms pages, (mapScratch slot perms pages).run w = (.error e, w')) ∨
    ∃ a, (unmapScratch a).run w = (.error e, w')

/-- The calls about an address. -/
def eventsOf (a : Nat) (log : List ScratchCall) : List Bool := log.filterMap (ScratchCall.on a)

/-- Maps and unmaps in turn: each map has its unmap. -/
def Paired (events : List Bool) : Prop := ∃ n, events = (List.replicate n [true, false]).flatten

namespace SharedPagePool

/-- The slot of `pick_slot`. -/
def chosen (p : SharedPagePool) : Option Nat :=
  match (List.range USER_SHARED_PAGE_POOL_SLOTS).find? (fun i => !p.occupied i) with
  | some i => some i
  | none => p.victim.1

/-- The slot that an acquire uses. -/
def slotFor (p : SharedPagePool) (m : MemoryMap) (perms : Perms) : Option Nat :=
  match p.findHit m perms with
  | some i => some i
  | none => p.chosen

/-- The calls of an acquire that returns `a`. -/
def acquireCalls (p : SharedPagePool) (m : MemoryMap) (perms : Perms) (a : Nat) :
    List ScratchCall :=
  match p.findHit m perms with
  | some _ => []
  | none => (((p.chosen).bind p.entries).map fun e => ScratchCall.unmap e.scratchVaddr).toList ++
      [.map a]

/-- The calls of the end of the session. -/
def releaseCalls (p : SharedPagePool) : List ScratchCall :=
  (List.range USER_SHARED_PAGE_POOL_SLOTS).filterMap fun i =>
    (p.entries i).map fun e => .unmap e.scratchVaddr

/-- The pool without the entry of a slot. -/
def clear (p : SharedPagePool) (slot : Nat) : SharedPagePool :=
  { p with
    entries := fun i => if i = slot then none else p.entries i
    occupied := fun i => if i = slot then false else p.occupied i }

/-- The pool with an entry that is used now. -/
def fill (p : SharedPagePool) (slot : Nat) (e : SharedPagePoolEntry) : SharedPagePool :=
  touch { p with
    entries := fun i => if i = slot then some e else p.entries i
    occupied := fun i => if i = slot then true else p.occupied i } slot

end SharedPagePool

/-- A session that starts in `w₀`, with the slots of its acquires and its calls so far. -/
inductive PoolRun (w₀ : World) : Session → List Nat → List ScratchCall → Prop
  | start : PoolRun w₀ (w₀, .new) [] []
  | other {w w' : World} {pool : SharedPagePool} {uses : List Nat} {log : List ScratchCall} :
      PoolRun w₀ (w, pool) uses log → w'.scratch = w.scratch → PoolRun w₀ (w', pool) uses log
  | acquire {s s' : Session} {uses : List Nat} {log : List ScratchCall} {m : MemoryMap}
      {perms : Perms} {a slot : Nat} :
      PoolRun w₀ s uses log → (acquire m perms).run s = (.ok a, s') →
      s.2.slotFor m perms = some slot →
      PoolRun w₀ s' (uses ++ [slot]) (log ++ s.2.acquireCalls m perms a)

/-! ### The invariant -/

/-- What holds in a session, also while an acquire has emptied a slot. -/
structure PoolCore (s : Session) (uses : List Nat) (log : List ScratchCall) : Prop where
  bound : ∀ i ∈ uses, i < USER_SHARED_PAGE_POOL_SLOTS
  entry : ∀ i, s.2.occupied i = true ↔ (s.2.entries i).isSome = true
  order : s.2.order = uses.dedup
  live : ∀ i e, s.2.entries i = some e →
    s.1.scratch e.scratchVaddr = some ⟨e.frameCap, e.pages, e.perms⟩
  distinct : ∀ i j e e', s.2.entries i = some e → s.2.entries j = some e' →
    e.scratchVaddr = e'.scratchVaddr → i = j
  closed : ∀ a, (∀ i e, s.2.entries i = some e → e.scratchVaddr ≠ a) → Paired (eventsOf a log)
  opened : ∀ i e, s.2.entries i = some e →
    ∃ events, Paired events ∧ eventsOf e.scratchVaddr log = events ++ [true]

/-- The invariant of a session: the slots in use are those that were acquired. -/
structure PoolInv (s : Session) (uses : List Nat) (log : List ScratchCall) : Prop
    extends PoolCore s uses log where
  used : ∀ i, s.2.occupied i = true ↔ i ∈ uses

/-- The state in an acquire before the slot gets its new entry. -/
structure PoolGap (s : Session) (slot : Nat) (uses : List Nat) (log : List ScratchCall) : Prop
    extends PoolCore s uses log where
  used : ∀ i, i ≠ slot → (s.2.occupied i = true ↔ i ∈ uses)
  empty : s.2.entries slot = none

section Events

variable {a b : Nat} {log log' : List ScratchCall}

/-- The events of a window in two logs. -/
theorem eventsOf_append : eventsOf a (log ++ log') = eventsOf a log ++ eventsOf a log' :=
  List.filterMap_append

/-- A window that is mapped. -/
theorem eventsOf_map_self : eventsOf a [.map a] = [true] := by
  simp [eventsOf, ScratchCall.on]

/-- A window that is unmapped. -/
theorem eventsOf_unmap_self : eventsOf a [.unmap a] = [false] := by
  simp [eventsOf, ScratchCall.on]

/-- Another window that is mapped. -/
theorem eventsOf_map_ne (h : b ≠ a) : eventsOf a [.map b] = [] := by
  simp [eventsOf, ScratchCall.on, h]

/-- Another window that is unmapped. -/
theorem eventsOf_unmap_ne (h : b ≠ a) : eventsOf a [.unmap b] = [] := by
  simp [eventsOf, ScratchCall.on, h]

/-- Without events there is nothing to pair. -/
theorem Paired.nil : Paired [] := ⟨0, rfl⟩

/-- A map and its unmap behind pairs. -/
theorem Paired.snoc {events : List Bool} (h : Paired events) :
    Paired (events ++ [true] ++ [false]) := by
  obtain ⟨n, rfl⟩ := h
  exact ⟨n + 1, by rw [List.replicate_succ', List.flatten_append, List.append_assoc]; rfl⟩

/-- Pairs do not end with a map. -/
theorem Paired.getLast?_ne {events : List Bool} (h : Paired events) :
    events.getLast? ≠ some true := by
  obtain ⟨n, rfl⟩ := h
  cases n with
  | zero => decide
  | succ n =>
    rw [List.replicate_succ', List.flatten_append]
    simp

end Events

section Steps

variable {w w' : World} {pool : SharedPagePool} {uses : List Nat} {log : List ScratchCall}

/-- An empty pool is in order. -/
theorem PoolInv.start (w : World) : PoolInv (w, .new) [] [] where
  bound _ hi := by cases hi
  used i := iff_of_false Bool.false_ne_true List.not_mem_nil
  entry i := iff_of_false Bool.false_ne_true Bool.false_ne_true
  order := rfl
  live _ _ he := by cases he
  distinct _ _ _ _ he := by cases he
  closed _ _ := Paired.nil
  opened _ _ he := by cases he

/-- Work that leaves the scratch mappings alone. -/
theorem PoolInv.other (h : PoolInv (w, pool) uses log) (hs : w'.scratch = w.scratch) :
    PoolInv (w', pool) uses log :=
  ⟨⟨h.bound, h.entry, h.order, fun i e he => (congrFun hs _).trans (h.live i e he),
    h.distinct, h.closed, h.opened⟩, h.used⟩

/-- Every entry is in one of the sixteen slots. -/
theorem PoolInv.lt (h : PoolInv (w, pool) uses log) {i : Nat} {e : SharedPagePoolEntry}
    (he : pool.entries i = some e) : i < USER_SHARED_PAGE_POOL_SLOTS :=
  h.bound i ((h.used i).mp ((h.entry i).mpr (by rw [he]; rfl)))

/-- A use of a slot that has an entry. -/
theorem PoolInv.touch (h : PoolInv (w, pool) uses log) {slot : Nat} (hslot : slot ∈ uses) :
    PoolInv (w, pool.touch slot) (uses ++ [slot]) log where
  bound i hi := by
    rcases List.mem_append.mp hi with hi | hi
    · exact h.bound i hi
    · rw [List.mem_singleton.mp hi]
      exact h.bound slot hslot
  -- the slot was used before, so the set of the used slots stays
  used i := by
    refine (h.used i).trans ?_
    rw [List.mem_append, List.mem_singleton]
    constructor
    · exact .inl
    · rintro (hi | rfl)
      · exact hi
      · exact hslot
  entry := h.entry
  -- the last use moves to the end of the order
  order := by
    rw [dedup_concat, ← h.order]
    rfl
  live := h.live
  distinct := h.distinct
  closed := h.closed
  opened := h.opened

/-- The scratch mappings after a call that unmaps. -/
theorem unmapScratch_scratch {a : Nat} (hrun : (unmapScratch a).run w = (.ok (), w')) :
    w'.scratch = fun b => if b = a then none else w.scratch b := by
  rcases unmapScratch_run a w with ⟨e, hfail⟩ | hok
  · rw [hfail] at hrun
    cases hrun
  · rw [hok] at hrun
    cases hrun
    rfl

/-- The scratch mappings after a call that maps: a new address. -/
theorem mapScratch_scratch {slot pages a : Nat} {perms : Perms}
    (hrun : (mapScratch slot perms pages).run w = (.ok a, w')) :
    w.scratch a = none ∧
      w'.scratch = fun b => if b = a then some ⟨slot, pages, perms⟩ else w.scratch b := by
  rcases mapScratch_run slot perms pages w with ⟨e, hfail⟩ | ⟨a', hfree, hok⟩
  · rw [hfail] at hrun
    cases hrun
  · rw [hok] at hrun
    cases hrun
    exact ⟨hfree, rfl⟩

/-- The entry of a slot is unmapped. -/
theorem PoolCore.clear (h : PoolCore (w, pool) uses log) {slot : Nat} {e : SharedPagePoolEntry}
    (he : pool.entries slot = some e)
    (hrun : (unmapScratch e.scratchVaddr).run w = (.ok (), w')) :
    PoolCore (w', pool.clear slot) uses (log ++ [.unmap e.scratchVaddr]) := by
  have hscratch := unmapScratch_scratch hrun
  -- the other entries are at other addresses, and none of them goes
  have hentries : ∀ i e', (pool.clear slot).entries i = some e' →
      i ≠ slot ∧ pool.entries i = some e' ∧ e'.scratchVaddr ≠ e.scratchVaddr := by
    intro i e' he'
    change (if i = slot then none else pool.entries i) = some e' at he'
    split at he'
    · cases he'
    · rename_i hne
      exact ⟨hne, he', fun heq => hne (h.distinct i slot e' e he' he heq)⟩
  refine ⟨h.bound, ?_, h.order, ?_, ?_, ?_, ?_⟩
  · intro i
    show (if i = slot then false else pool.occupied i) = true ↔
      (if i = slot then none else pool.entries i).isSome = true
    split
    · rfl
    · exact h.entry i
  -- the mappings of the others live on, and their addresses stay distinct
  · intro i e' he'
    obtain ⟨-, hold, hne⟩ := hentries i e' he'
    rw [hscratch]
    exact (if_neg hne).trans (h.live i e' hold)
  · intro i j e₁ e₂ h₁ h₂ heq
    exact h.distinct i j e₁ e₂ (hentries i e₁ h₁).2.1 (hentries j e₂ h₂).2.1 heq
  · intro a hnone
    rw [eventsOf_append]
    by_cases ha : e.scratchVaddr = a
    · -- the map of the entry gets its unmap
      subst ha
      obtain ⟨events, hpaired, heq⟩ := h.opened slot e he
      rw [heq, eventsOf_unmap_self]
      exact hpaired.snoc
    · rw [eventsOf_unmap_ne ha, List.append_nil]
      refine h.closed a ?_
      intro i e' he' heq
      by_cases hi : i = slot
      · subst hi
        cases he.symm.trans he'
        exact ha heq
      · exact hnone i e' ((if_neg hi).trans he') heq
  -- an entry that stays still waits for its unmap
  · intro i e' he'
    obtain ⟨-, hold, hne⟩ := hentries i e' he'
    obtain ⟨events, hpaired, heq⟩ := h.opened i e' hold
    refine ⟨events, hpaired, ?_⟩
    rw [eventsOf_append, heq, eventsOf_unmap_ne hne.symm, List.append_nil]

/-- A gap is filled with a new mapping. -/
theorem PoolGap.fill {slot : Nat} (h : PoolGap (w, pool) slot uses log)
    (hlt : slot < USER_SHARED_PAGE_POOL_SLOTS) {m : MemoryMap} {perms : Perms} {a : Nat}
    (hrun : (mapScratch m.frameCap perms m.pages).run w = (.ok a, w')) :
    PoolInv (w', pool.fill slot ⟨m.vaddr, a, m.pages, m.frameCap, perms⟩) (uses ++ [slot])
      (log ++ [.map a]) := by
  obtain ⟨hfree, hscratch⟩ := mapScratch_scratch hrun
  -- the address is new, so no entry has it
  have hnew : ∀ i e, pool.entries i = some e → e.scratchVaddr ≠ a := by
    intro i e he heq
    have hlive := h.live i e he
    rw [heq] at hlive
    exact absurd (hfree.symm.trans hlive) (by simp)
  have hentries : ∀ i e, (pool.fill slot ⟨m.vaddr, a, m.pages, m.frameCap, perms⟩).entries i
      = some e → i = slot ∧ e = ⟨m.vaddr, a, m.pages, m.frameCap, perms⟩ ∨
        i ≠ slot ∧ pool.entries i = some e := by
    intro i e he
    change (if i = slot then some _ else pool.entries i) = some e at he
    split at he
    · cases he
      exact .inl ⟨by assumption, rfl⟩
    · exact .inr ⟨by assumption, he⟩
  refine ⟨⟨?_, ?_, ?_, ?_, ?_, ?_, ?_⟩, ?_⟩
  · intro i hi
    rcases List.mem_append.mp hi with hi | hi
    · exact h.bound i hi
    · rw [List.mem_singleton.mp hi]
      exact hlt
  · intro i
    show (if i = slot then true else pool.occupied i) = true ↔
      (if i = slot then some _ else pool.entries i).isSome = true
    split
    · exact iff_of_true rfl rfl
    · exact h.entry i
  · rw [dedup_concat, ← h.order]
    rfl
  · intro i e he
    rw [hscratch]
    rcases hentries i e he with ⟨-, rfl⟩ | ⟨-, hold⟩
    · exact if_pos rfl
    · exact (if_neg (hnew i e hold)).trans (h.live i e hold)
  · intro i j e e' he he' heq
    rcases hentries i e he with ⟨hi, rfl⟩ | ⟨-, hold⟩ <;>
      rcases hentries j e' he' with ⟨hj, rfl⟩ | ⟨-, hold'⟩
    · rw [hi, hj]
    · exact absurd heq.symm (hnew j e' hold')
    · exact absurd heq (hnew i e hold)
    · exact h.distinct i j e e' hold hold' heq
  · intro b hb
    have hne : a ≠ b := by
      intro heq
      exact hb slot ⟨m.vaddr, a, m.pages, m.frameCap, perms⟩ (if_pos rfl) heq
    rw [eventsOf_append, eventsOf_map_ne hne, List.append_nil]
    refine h.closed b ?_
    intro i e he
    refine hb i e ((if_neg ?_).trans he)
    rintro rfl
    exact absurd (h.empty.symm.trans he) (by simp)
  · intro i e he
    rcases hentries i e he with ⟨-, rfl⟩ | ⟨-, hold⟩
    · exact ⟨_, h.closed a hnew, by rw [eventsOf_append, eventsOf_map_self]⟩
    · obtain ⟨events, hpaired, heq⟩ := h.opened i e hold
      refine ⟨events, hpaired, ?_⟩
      rw [eventsOf_append, heq, eventsOf_map_ne (hnew i e hold).symm, List.append_nil]
  · intro i
    show (if i = slot then true else pool.occupied i) = true ↔ _
    rw [List.mem_append, List.mem_singleton]
    split
    · rename_i heq
      exact iff_of_true rfl (.inr heq)
    · rename_i hne
      rw [h.used i hne]
      exact (or_iff_left hne).symm

end Steps

/-! ### One acquire -/

section Acquire

variable {w : World} {pool : SharedPagePool} {uses : List Nat} {log : List ScratchCall}
  {m : MemoryMap} {perms : Perms}

/-- A hit is an entry of the frame with the permissions. -/
theorem SharedPagePool.findHit_some {slot : Nat} (h : pool.findHit m perms = some slot) :
    ∃ e, pool.entries slot = some e ∧ e.frameCap = m.frameCap ∧ e.perms.contains perms = true := by
  have hfound := List.find?_some h
  rw [Bool.and_eq_true] at hfound
  cases he : pool.entries slot with
  | none => simp [he] at hfound
  | some e => exact ⟨e, rfl, by simpa [he] using (by simpa [he] using hfound.2 : _ ∧ _)⟩

/-- When every slot is occupied, the policy names the slot whose last acquire is the oldest. -/
theorem PoolInv.victim_eq (h : PoolInv (w, pool) uses log)
    (hfull : ∀ i < USER_SHARED_PAGE_POOL_SLOTS, pool.occupied i = true) :
    ∃ slot rest, uses.dedup = slot :: rest ∧ pool.victim = (some slot, pool) := by
  have hzero : 0 ∈ uses.dedup := List.mem_dedup.mpr ((h.used 0).mp (hfull 0 (by decide)))
  obtain ⟨slot, rest, hdedup⟩ : ∃ slot rest, uses.dedup = slot :: rest :=
    List.exists_cons_of_ne_nil (List.ne_nil_of_mem hzero)
  have hslot : slot ∈ uses := List.mem_dedup.mp (by rw [hdedup]; exact List.mem_cons_self)
  have horder : pool.order = slot :: rest := h.order.trans hdedup
  have hkeep : (pool.order.dropWhile fun s =>
      !(s < USER_SHARED_PAGE_POOL_SLOTS && pool.occupied s)) = slot :: rest := by
    rw [horder, List.dropWhile_cons_of_neg]
    simp [h.bound slot hslot, hfull slot (h.bound slot hslot)]
  refine ⟨slot, rest, hdedup, ?_⟩
  unfold SharedPagePool.victim
  dsimp only
  rw [hkeep]
  dsimp only
  rw [← horder]

/-- The slot that a miss uses: a free one, or the one whose last acquire is the oldest. -/
theorem PoolInv.pickSlot_run (h : PoolInv (w, pool) uses log) :
    ∃ slot, pool.chosen = some slot ∧ pickSlot.run (w, pool) = (.ok slot, (w, pool)) ∧
      slot < USER_SHARED_PAGE_POOL_SLOTS ∧
      ((∀ i < USER_SHARED_PAGE_POOL_SLOTS, pool.occupied i = true) → Oldest uses slot) := by
  unfold SharedPagePool.chosen pickSlot
  rw [run_gets_bind]
  cases hfree : (List.range USER_SHARED_PAGE_POOL_SLOTS).find? fun i => !pool.occupied i with
  -- a free slot is taken first, so the pool is not full
  | some slot =>
    have hlt := List.mem_range.mp (List.mem_of_find?_eq_some hfree)
    refine ⟨slot, rfl, rfl, hlt, ?_⟩
    intro hfull
    have hocc := List.find?_some hfree
    rw [hfull slot hlt] at hocc
    cases hocc
  -- a full pool evicts the slot at the front of the order
  | none =>
    have hfull : ∀ i < USER_SHARED_PAGE_POOL_SLOTS, pool.occupied i = true := by
      intro i hi
      simpa using List.find?_eq_none.mp hfree i (List.mem_range.mpr hi)
    obtain ⟨slot, rest, hdedup, hvictim⟩ := h.victim_eq hfull
    have hslot : slot ∈ uses := List.mem_dedup.mp (by rw [hdedup]; exact List.mem_cons_self)
    refine ⟨slot, congrArg Prod.fst hvictim, ?_, h.bound slot hslot,
      fun _ => oldest_of_dedup hdedup⟩
    dsimp only
    rw [run_modify_bind, hvictim]
    rfl

/-- The entry of a slot is unmapped, or the call is refused. -/
theorem unmapSlot_run {slot : Nat} {e : SharedPagePoolEntry} (he : pool.entries slot = some e) :
    (∃ w', (unmapScratch e.scratchVaddr).run w = (.ok (), w') ∧
      (unmapSlot slot).run (w, pool) = (.ok (), (w', pool.clear slot))) ∨
    ∃ err w' pool', (unmapScratch e.scratchVaddr).run w = (.error err, w') ∧
      (unmapSlot slot).run (w, pool) = (.error err, (w', pool')) := by
  unfold unmapSlot
  rw [run_gets_bind]
  dsimp only
  rw [he]
  change (∃ w', _ ∧ (modify _ >>= fun _ => inFst (unmapScratch e.scratchVaddr) >>= _ : S Unit).run _
    = _) ∨ ∃ err w' pool', _ ∧ (modify _ >>= fun _ => inFst (unmapScratch e.scratchVaddr) >>= _ :
      S Unit).run _ = _
  rw [run_modify_bind, run_bind, run_inFst]
  rcases (unmapScratch e.scratchVaddr).run w with ⟨err | u, w'⟩
  · exact .inr ⟨err, w', _, rfl, rfl⟩
  · exact .inl ⟨w', rfl, rfl⟩

/-- A slot is emptied, or the call that unmaps its entry is refused. -/
theorem PoolCore.emptySlot (h : PoolCore (w, pool) uses log) (slot : Nat) :
    (∃ w' pool', PoolCore (w', pool') uses
        (log ++ ((pool.entries slot).map fun e => ScratchCall.unmap e.scratchVaddr).toList) ∧
      Calls w ((pool.entries slot).map fun e => ScratchCall.unmap e.scratchVaddr).toList w' ∧
      pool'.entries slot = none ∧ (∀ i, i ≠ slot → pool'.entries i = pool.entries i) ∧
      (∀ i, i ≠ slot → pool'.occupied i = pool.occupied i) ∧
      (when (pool.occupied slot = true) (unmapSlot slot)).run (w, pool) = (.ok (), (w', pool'))) ∨
    ∃ err w' pool' a, (unmapScratch a).run w = (.error err, w') ∧
      (when (pool.occupied slot = true) (unmapSlot slot)).run (w, pool)
        = (.error err, (w', pool')) := by
  cases he : pool.entries slot with
  -- a free slot is not unmapped; an occupied one is, and that may be refused
  | none =>
    have hfree : ¬ pool.occupied slot = true := by
      rw [h.entry slot, he]
      exact Bool.false_ne_true
    refine .inl ⟨w, pool, ?_, .nil w, he, fun _ _ => rfl, fun _ _ => rfl, ?_⟩
    · rw [Option.map_none, Option.toList_none, List.append_nil]
      exact h
    · rw [when_neg hfree]
      rfl
  | some e =>
    have hbusy : pool.occupied slot = true := by
      rw [h.entry slot, he]
      rfl
    rw [when_pos hbusy]
    rcases unmapSlot_run (w := w) he with ⟨w', hrun, hslot⟩ | ⟨err, w', pool', hrun, hslot⟩
    · exact .inl ⟨w', _, h.clear he hrun, .unmap hrun (.nil w'), if_pos rfl,
        fun i hi => if_neg hi, fun i hi => if_neg hi, hslot⟩
    · exact .inr ⟨err, w', pool', _, hrun, hslot⟩

/-- A miss: the slot is emptied, and the frame is mapped. -/
theorem acquire_miss (hmiss : pool.findHit m perms = none) {slot : Nat}
    (hpick : pickSlot.run (w, pool) = (.ok slot, (w, pool))) :
    (acquire m perms).run (w, pool) = (do
      when (pool.occupied slot = true) (unmapSlot slot)
      let scratch ← inFst (mapScratch m.frameCap perms m.pages)
      modify fun s => (s.1, SharedPagePool.fill s.2 slot
        ⟨m.vaddr, scratch, m.pages, m.frameCap, perms⟩)
      pure scratch : S Nat).run (w, pool) := by
  unfold acquire
  rw [run_gets_bind]
  dsimp only
  rw [hmiss]
  dsimp only
  rw [run_bind_ok hpick, run_gets_bind]
  rfl

/-- A window that is in the pool is found and becomes the newest. -/
theorem acquire_hit {slot : Nat} {e : SharedPagePoolEntry} (hhit : pool.findHit m perms = some slot)
    (he : pool.entries slot = some e) :
    (acquire m perms).run (w, pool) = (.ok e.scratchVaddr, (w, pool.touch slot)) := by
  unfold acquire
  rw [run_gets_bind]
  dsimp only
  rw [hhit]
  dsimp only
  rw [run_modify_bind, he]
  rfl

/-- What an acquire that succeeds has done: it used `slot` and returned `a`. -/
structure Acquired (s : Session) (m : MemoryMap) (perms : Perms) (uses : List Nat) (slot a : Nat)
    (s' : Session) : Prop where
  calls : Calls s.1 (s.2.acquireCalls m perms a) s'.1
  live : ∃ sc, s'.1.scratch a = some sc ∧ sc.slot = m.frameCap ∧ sc.perms.contains perms = true
  used : s.2.slotFor m perms = some slot
  here : ∃ e, s'.2.entries slot = some e ∧ e.scratchVaddr = a
  others : ∀ i, i ≠ slot → s'.2.entries i = s.2.entries i
  evicts : s.2.findHit m perms = none →
    (∀ i < USER_SHARED_PAGE_POOL_SLOTS, s.2.occupied i = true) → Oldest uses slot

/-- An acquire succeeds and keeps the invariant, or a call that maps or unmaps is refused. -/
theorem PoolInv.acquire (h : PoolInv (w, pool) uses log) (m : MemoryMap) (perms : Perms) :
    (∃ slot a s', (acquire m perms).run (w, pool) = (.ok a, s') ∧
      Acquired (w, pool) m perms uses slot a s' ∧
      PoolInv s' (uses ++ [slot]) (log ++ pool.acquireCalls m perms a)) ∨
    ∃ e s' calls w₁, (acquire m perms).run (w, pool) = (.error e, s') ∧ Calls w calls w₁ ∧
      ScratchRefused w₁ e s'.1 := by
  -- a hit takes no call and only moves the slot to the end of the order
  cases hhit : pool.findHit m perms with
  | some slot =>
    obtain ⟨e, he, hcap, hperms⟩ := SharedPagePool.findHit_some hhit
    have hcalls : pool.acquireCalls m perms e.scratchVaddr = [] := by
      rw [SharedPagePool.acquireCalls, hhit]
    have hslot : slot ∈ uses := (h.used slot).mp ((h.entry slot).mpr (by rw [he]; rfl))
    refine .inl ⟨slot, e.scratchVaddr, _, acquire_hit hhit he, ?_, ?_⟩
    · refine ⟨?_, ⟨_, h.live slot e he, hcap, hperms⟩, ?_, ⟨e, he, rfl⟩, fun _ _ => rfl, ?_⟩
      · rw [hcalls]
        exact .nil w
      · rw [SharedPagePool.slotFor, hhit]
      · intro hmiss
        rw [hhit] at hmiss
        cases hmiss
    · rw [hcalls, List.append_nil]
      exact h.touch hslot
  | none =>
    obtain ⟨slot, hchosen, hpick, hlt, holdest⟩ := h.pickSlot_run
    rw [acquire_miss hhit hpick]
    rcases h.emptySlot slot with ⟨w₁, pool₁, hcore, hcalls, hnone, hothers, hocc, hempty⟩ |
      ⟨err, w₁, pool₁, a, hrun, hempty⟩
    · have hgap : PoolGap (w₁, pool₁) slot uses _ := ⟨hcore, fun i hi => by
        rw [hocc i hi]
        exact h.used i, hnone⟩
      rw [run_bind_ok hempty, run_bind, run_inFst]
      -- the slot is empty by now, and the new mapping is the last call
      rcases hmap : (mapScratch m.frameCap perms m.pages).run w₁ with ⟨err | a, w₂⟩
      · exact .inr ⟨err, (w₂, pool₁), _, w₁, rfl, hcalls, .inl ⟨_, _, _, hmap⟩⟩
      · have hall : pool.acquireCalls m perms a
            = ((pool.entries slot).map fun e => ScratchCall.unmap e.scratchVaddr).toList
              ++ [.map a] := by
          rw [SharedPagePool.acquireCalls, hhit, hchosen]
          rfl
        have hfilled := hgap.fill hlt hmap
        refine .inl ⟨slot, a, (w₂, pool₁.fill slot ⟨m.vaddr, a, m.pages, m.frameCap, perms⟩), rfl,
          ?_, ?_⟩
        -- the calls, the mapping, the slot, its entry, the other entries, and the victim
        · refine ⟨?_, ⟨_, hfilled.live slot _ (if_pos rfl), rfl, ?_⟩, ?_,
            ⟨_, if_pos rfl, rfl⟩, ?_, fun _ => holdest⟩
          · rw [hall]
            exact hcalls.trans (.map hmap (.nil w₂))
          · cases perms
            unfold Perms.contains
            simp
          · rw [SharedPagePool.slotFor, hhit, hchosen]
          · intro i hi
            exact (if_neg hi).trans (hothers i hi)
        · rw [hall, ← List.append_assoc]
          exact hfilled
    · rw [run_bind_error hempty]
      exact .inr ⟨err, (w₁, pool₁), [], w, rfl, .nil w, .inr ⟨a, hrun⟩⟩

/-! ### The end of a session -/

/-- The slots of a list are emptied, or a call that unmaps is refused. -/
theorem PoolCore.release {l : List Nat} (hl : l.Nodup) (h : PoolCore (w, pool) uses log) :
    (∃ w' pool', (forEach l fun i => do
        let busy ← gets (·.2.occupied i)
        when busy (unmapSlot i) : S Unit).run (w, pool) = (.ok (), (w', pool')) ∧
      Calls w (l.filterMap fun i => (pool.entries i).map fun e => .unmap e.scratchVaddr) w' ∧
      PoolCore (w', pool') uses
        (log ++ l.filterMap fun i => (pool.entries i).map fun e => .unmap e.scratchVaddr) ∧
      ∀ i, pool'.entries i = if i ∈ l then none else pool.entries i) ∨
    ∃ e s' calls w₁, (forEach l fun i => do
        let busy ← gets (·.2.occupied i)
        when busy (unmapSlot i) : S Unit).run (w, pool) = (.error e, s') ∧ Calls w calls w₁ ∧
      ScratchRefused w₁ e s'.1 := by
  induction l generalizing w pool log with
  | nil =>
    refine .inl ⟨w, pool, rfl, .nil w, ?_, ?_⟩
    · rw [List.filterMap_nil, List.append_nil]
      exact h
    · intro i
      rw [if_neg List.not_mem_nil]
  | cons slot l ih =>
    obtain ⟨hslot, hrest⟩ := List.nodup_cons.mp hl
    have hround : ∀ s : Session, (forEach (slot :: l) fun i => do
        let busy ← gets (·.2.occupied i)
        when busy (unmapSlot i) : S Unit).run s = ((when (s.2.occupied slot = true)
          (unmapSlot slot)) >>= fun _ => (forEach l fun i => do
            let busy ← gets (·.2.occupied i)
            when busy (unmapSlot i) : S Unit)).run s := fun s => rfl
    rcases h.emptySlot slot with ⟨w₁, pool₁, hcore, hcalls, hnone, hothers, -, hempty⟩ |
      ⟨err, w₁, pool₁, a, hrun, hempty⟩
    · rw [hround, run_bind_ok hempty]
      -- the entries of the other slots are still there
      have hsame : (l.filterMap fun i => (pool₁.entries i).map fun e =>
          ScratchCall.unmap e.scratchVaddr)
          = l.filterMap fun i => (pool.entries i).map fun e => .unmap e.scratchVaddr := by
        refine List.filterMap_congr fun i hi => ?_
        rw [hothers i fun heq => hslot (heq ▸ hi)]
      have hall : (slot :: l).filterMap (fun i => (pool.entries i).map fun e =>
          ScratchCall.unmap e.scratchVaddr)
          = ((pool.entries slot).map fun e => ScratchCall.unmap e.scratchVaddr).toList
            ++ l.filterMap fun i => (pool.entries i).map fun e => .unmap e.scratchVaddr := by
        rw [List.filterMap_cons]
        cases (pool.entries slot).map fun e => ScratchCall.unmap e.scratchVaddr <;> rfl
      rcases ih hrest hcore with ⟨w₂, pool₂, hrun, hcalls', hcore', hentries⟩ |
        ⟨e, s', calls, w₂, hrun, hcalls', hrefused⟩
      · rw [hsame] at hcalls' hcore'
        rw [hall, ← List.append_assoc]
        refine .inl ⟨w₂, pool₂, hrun, hcalls.trans hcalls', hcore', ?_⟩
        intro i
        rw [hentries i]
        by_cases hi : i = slot
        · rw [hi, hnone, ite_self, if_pos List.mem_cons_self]
        · rw [hothers i hi]
          simp only [List.mem_cons, hi, false_or]
      · exact .inr ⟨e, s', _, w₂, hrun, hcalls.trans hcalls', hrefused⟩
    · rw [hround, run_bind_error hempty]
      exact .inr ⟨err, _, [], w, rfl, .nil w, .inr ⟨a, hrun⟩⟩

end Acquire

/-! ### Sessions -/

/-- Every run of a session keeps the pool in order. -/
theorem PoolRun.inv {w₀ : World} {s : Session} {uses : List Nat} {log : List ScratchCall}
    (h : PoolRun w₀ s uses log) : PoolInv s uses log := by
  induction h with
  | start => exact PoolInv.start w₀
  | other _ hs ih => exact ih.other hs
  | @acquire s s' uses log m perms a slot _ hrun hslot ih =>
    obtain ⟨w, pool⟩ := s
    rcases ih.acquire m perms with ⟨slot', a', s'', hrun', hacquired, hinv⟩ |
      ⟨e, s'', _, _, hrun', -, -⟩
    · obtain ⟨rfl, rfl⟩ : a = a' ∧ s' = s'' := by simpa using hrun.symm.trans hrun'
      obtain rfl : slot = slot' := by simpa using hslot.symm.trans hacquired.used
      exact hinv
    · rw [hrun] at hrun'
      cases hrun'

/-- The live mappings of a session, by its calls: the addresses whose last call maps them. -/
def LiveIn (log : List ScratchCall) (a : Nat) : Prop := (eventsOf a log).getLast? = some true

/-- What holds of the pool at every moment of a session. -/
structure PoolCorrect (s : Session) (log : List ScratchCall) : Prop where
  occupied : ∀ i, s.2.occupied i = true ↔ (s.2.entries i).isSome = true
  order : s.2.order.Nodup
  sixteen : ∃ live : Finset Nat, live.card ≤ USER_SHARED_PAGE_POOL_SLOTS ∧
    ∀ a, a ∈ live ↔ LiveIn log a

/-- The windows that are mapped are those of the pool. -/
theorem PoolInv.liveIn_iff {s : Session} {uses : List Nat} {log : List ScratchCall}
    (h : PoolInv s uses log) (a : Nat) :
    LiveIn log a ↔ ∃ i e, s.2.entries i = some e ∧ e.scratchVaddr = a := by
  constructor
  · intro hlive
    by_contra hnone
    refine (h.closed a fun i e he heq => hnone ⟨i, e, he, heq⟩).getLast?_ne hlive
  · rintro ⟨i, e, he, rfl⟩
    obtain ⟨events, -, heq⟩ := h.opened i e he
    rw [LiveIn, heq, List.getLast?_concat]

/-- A pool in order is correct. -/
theorem PoolInv.correct {s : Session} {uses : List Nat} {log : List ScratchCall}
    (h : PoolInv s uses log) : PoolCorrect s log where
  occupied := h.entry
  order := by
    rw [h.order]
    exact List.nodup_dedup uses
  sixteen := by
    refine ⟨((Finset.range USER_SHARED_PAGE_POOL_SLOTS).filter fun i =>
      (s.2.entries i).isSome).image fun i => ((s.2.entries i).map (·.scratchVaddr)).getD 0, ?_, ?_⟩
    · exact (Finset.card_image_le.trans (Finset.card_filter_le _ _)).trans_eq (Finset.card_range _)
    · intro a
      rw [h.liveIn_iff, Finset.mem_image]
      constructor
      · rintro ⟨i, hi, rfl⟩
        obtain ⟨e, he⟩ := Option.isSome_iff_exists.mp (Finset.mem_filter.mp hi).2
        exact ⟨i, e, he, by rw [he]; rfl⟩
      · rintro ⟨i, e, he, rfl⟩
        have hi := h.bound i ((h.used i).mp ((h.entry i).mpr (by rw [he]; rfl)))
        refine ⟨i, Finset.mem_filter.mpr ⟨Finset.mem_range.mpr hi, by rw [he]; rfl⟩, ?_⟩
        rw [he]
        rfl

/-- At every moment of a session the pool is correct. An acquire returns a live mapping of the frame
with the permissions, and when every slot is occupied a miss takes the slot whose last acquire is
the oldest. The end of the session leaves no entry, and every mapping of the session was unmapped
once. An acquire and the end of the session fail only if a call that maps or unmaps is refused. -/
theorem page_pool_correct (w₀ : World) (s : Session) (uses : List Nat) (log : List ScratchCall)
    (h : PoolRun w₀ s uses log) :
    PoolCorrect s log ∧
    (∀ m perms, (∃ slot a s', (acquire m perms).run s = (.ok a, s') ∧
        Acquired s m perms uses slot a s') ∨
      ∃ e s' calls w₁, (acquire m perms).run s = (.error e, s') ∧ Calls s.1 calls w₁ ∧
        ScratchRefused w₁ e s'.1) ∧
    ((∃ s', releaseAll.run s = (.ok (), s') ∧ Calls s.1 s.2.releaseCalls s'.1 ∧
        (∀ i, s'.2.entries i = none) ∧ ∀ a, Paired (eventsOf a (log ++ s.2.releaseCalls))) ∨
      ∃ e s' calls w₁, releaseAll.run s = (.error e, s') ∧ Calls s.1 calls w₁ ∧
        ScratchRefused w₁ e s'.1) := by
  -- the invariant holds after every run of the session
  obtain ⟨w, pool⟩ := s
  have hinv := h.inv
  refine ⟨hinv.correct, ?_, ?_⟩
  · intro m perms
    rcases hinv.acquire m perms with ⟨slot, a, s', hrun, hacquired, -⟩ | hrefused
    · exact .inl ⟨slot, a, s', hrun, hacquired⟩
    · exact .inr hrefused
  · rcases hinv.toPoolCore.release List.nodup_range with ⟨w', pool', hrun, hcalls,
      hcore, hentries⟩ |
      hrefused
    -- every entry sits in one of the slots that the release goes through
    · have hnone : ∀ i, pool'.entries i = none := by
        intro i
        rw [hentries i]
        split
        · rfl
        · rename_i hi
          cases he : pool.entries i with
          | none => rfl
          | some e => exact absurd (List.mem_range.mpr (hinv.lt he)) hi
      refine .inl ⟨(w', pool'), hrun, hcalls, hnone, fun a => hcore.closed a ?_⟩
      intro i e he
      rw [hnone i] at he
      cases he
    · exact .inr hrefused

/-- A session that acquires the stack page of `init` twice: one mapping, and the end unmaps it. -/
theorem page_pool_correct_sampleBoot : ∃ s log, PoolRun sampleBoot s [0, 0] log ∧
    log.length = 1 ∧ s.2.releaseCalls.length = 1 ∧ PoolCorrect s log := by
  have hfirst : (acquire (pageEntry 0x3ffff000 Perms.RW .stack 1001) Perms.RW).run
      (sampleBoot, .new) = _ := acquire_run (by decide +kernel) (by decide +kernel)
  have hhit : SharedPagePool.findHit (.single ⟨0x3ffff000, (sampleBoot.env sampleBoot.tick).val, 1,
      1001, Perms.RW⟩) (pageEntry 0x3ffff000 Perms.RW .stack 1001) Perms.R = some 0 := rfl
  have hrun := PoolRun.acquire (PoolRun.acquire PoolRun.start hfirst rfl)
    (acquire_hit hhit rfl) rfl
  exact ⟨_, _, hrun, rfl, rfl, (page_pool_correct sampleBoot _ _ _ hrun).1⟩

end Ape
