import Ape.Proofs.FrameRuns

/-!
# `Ape.Proofs.UserCopy`: what a copy into one process does to another

`copy_to_user` looks up the entry of an address, maps the frame of the entry in the server
and stores the bytes there. It does not go through the fault handler, so it does not look at
the `cow` mark: a frame that `fork` left shared is written in place.

`WritesInto w p q` names the bytes that are at stake: `p` has a writable entry on a frame
that an entry of `q` names, and a store that starts at an address of `p` reaches the byte
that `q` reads. `copyToUser_isolated_iff` proves that this is exactly when a copy into `p`
can change what `q` reads.

One direction follows the bytes through a session. A session has a pool of scratch mappings,
and `PoolOk` says that a pool entry maps the frame it claims to map. The other direction runs
one copy, with services that answer.
-/

set_option autoImplicit false

namespace Ape

open Ape.Lib Cmd

/-! ### What a process reads -/

/-- The entry of `memory_maps` that a lookup of `pid` finds for an address. -/
def World.lookup (w : World) (pid a : Nat) : Option MemoryMap :=
  (w.mms.get? pid).bind fun mm => mm.lookupMemoryMap a

/-- The byte that `pid` reads at an address through its `memory_maps`. -/
def World.userByte (w : World) (pid a : Nat) : Option UInt8 :=
  (w.lookup pid a).bind fun m => (w.frames m.frameCap).map fun fr => fr.data (a - m.vaddr)

/-- The same state with other services. -/
def World.withEnv (w : World) (env : Nat → Ext) : World := { w with env := env }

/-- A store of `p` that starts at a writable address of its own reaches a byte that `q`
reads: both entries name one frame, and the byte lies in the rest of the entry of `p`. -/
def World.WritesInto (w : World) (p q : Nat) : Prop :=
  ∃ a m b m', a ≠ 0 ∧ w.lookup p a = some m ∧ m.flags.write = true ∧ w.lookup q b = some m' ∧
    m'.frameCap = m.frameCap ∧ a - m.vaddr ≤ b - m'.vaddr ∧ b - m'.vaddr < m.size

/-! ### The pool of a session -/

/-- Every entry of the pool maps the frame it names, and no two share a scratch address. -/
structure PoolOk (s : Session) : Prop where
  mapped : ∀ i e, s.2.entries i = some e →
    ∃ sc, s.1.scratch e.scratchVaddr = some sc ∧ sc.slot = e.frameCap
  distinct : ∀ i j e e', s.2.entries i = some e → s.2.entries j = some e' →
    e.scratchVaddr = e'.scratchVaddr → i = j

/-- An empty pool is in order. -/
theorem PoolOk.new (w : World) : PoolOk (w, SharedPagePool.new) :=
  ⟨fun _ _ h => (by cases h), fun _ _ _ _ h => (by cases h)⟩

/-- A change of the world that leaves the scratch mappings alone. -/
theorem PoolOk.of_scratch {w w' : World} {pool : SharedPagePool} (h : PoolOk (w, pool))
    (hs : w'.scratch = w.scratch) : PoolOk (w', pool) :=
  ⟨fun i e he => by rw [hs]; exact h.mapped i e he, h.distinct⟩

/-- A change of the order of use. -/
theorem PoolOk.of_entries {w : World} {pool pool' : SharedPagePool} (h : PoolOk (w, pool))
    (hs : ∀ i e, pool'.entries i = some e → pool.entries i = some e) : PoolOk (w, pool') :=
  ⟨fun i e he => h.mapped i e (hs i e he),
    fun i j e e' he he' => h.distinct i j e e' (hs i e he) (hs j e' he')⟩

/-- One call of `map_scratch`: an error, or a mapping at an address that was free. -/
theorem mapScratch_run (slot : Nat) (perms : Perms) (pages : Nat) (w : World) :
    (∃ e, (mapScratch slot perms pages).run w
      = (.error e, { w with tick := w.tick + 1, refused := true })) ∨
    ∃ a, w.scratch a = none ∧ (mapScratch slot perms pages).run w = (.ok a, { w with
      tick := w.tick + 1
      scratch := fun b => if b = a then some ⟨slot, pages, perms⟩ else w.scratch b }) := by
  unfold mapScratch ext
  cases herr : (w.env w.tick).err with
  | some e => exact .inl ⟨e, by simp [run_bind, herr]⟩
  | none =>
    cases hused : w.scratch (w.env w.tick).val with
    | some sc => exact .inl ⟨.outOfMemory, by simp [run_bind, refuse, herr, hused]⟩
    | none =>
      exact .inr ⟨(w.env w.tick).val, hused, by simp [run_bind, herr, hused]⟩

/-- One call of `unmap`: an error, or the mapping is gone. -/
theorem unmapScratch_run (base : Nat) (w : World) :
    (∃ e, (unmapScratch base).run w
      = (.error e, { w with tick := w.tick + 1, refused := true })) ∨
    (unmapScratch base).run w = (.ok (), { w with
      tick := w.tick + 1
      scratch := fun b => if b = base then none else w.scratch b }) := by
  unfold unmapScratch ext
  cases herr : (w.env w.tick).err with
  | some e => exact .inl ⟨e, by simp [run_bind, herr]⟩
  | none => exact .inr (by simp [run_bind, herr])

/-- A window that is given up keeps the pool in order. -/
theorem unmapSlot_poolOk (slot : Nat) : Keeps PoolOk (unmapSlot slot) := by
  unfold unmapSlot
  refine Triple.keeps (Triple.bind (R := fun o s => PoolOk s ∧ s.2.entries slot = o)
    (Triple.gets fun s h => ⟨h, rfl⟩) fun o => ?_)
  refine Triple.whenSome (fun e ho => ?_) fun s _ h => h.1
  -- the entry is taken out first, so its scratch address is nobody's
  refine Triple.bind (R := fun _ s => PoolOk s ∧ ∀ i e', s.2.entries i = some e' →
    e'.scratchVaddr ≠ e.scratchVaddr) (Triple.modify ?_) fun _ => ?_
  · intro s h
    obtain ⟨hok, hslot⟩ := h
    have hsub : ∀ i e', (if i = slot then none else s.2.entries i) = some e' →
        i ≠ slot ∧ s.2.entries i = some e' := by
      intro i e' he'
      split at he'
      · cases he'
      · exact ⟨by assumption, he'⟩
    refine ⟨hok.of_entries fun i e' he' => (hsub i e' he').2, ?_⟩
    intro i e' he' heq
    obtain ⟨hne, he⟩ := hsub i e' he'
    exact hne (hok.distinct i slot e' e he (hslot.trans ho) heq)
  · refine Triple.bind (R := fun _ => PoolOk) ?_ fun _ => Triple.modify fun s h => h.of_entries
      fun _ _ he => he
    refine Triple.inFst fun pool w h => ?_
    obtain ⟨hok, hother⟩ := h
    rcases unmapScratch_run e.scratchVaddr w with ⟨err, hrun⟩ | hrun <;> rw [hrun]
    · exact ⟨fun a ha => (by cases ha), fun _ _ => hok.of_scratch rfl⟩
    · refine ⟨fun _ _ => ⟨?_, hok.distinct⟩, fun _ he => by cases he⟩
      intro i e' he'
      obtain ⟨sc, hsc, hslot⟩ := hok.mapped i e' he'
      exact ⟨sc, by simpa [hother i e' he'] using hsc, hslot⟩

/-- The scratch address that `acquire` returns maps the frame of the entry. -/
theorem acquire_maps (m : MemoryMap) (perms : Perms) :
    Triple PoolOk (acquire m perms)
      (fun a s => PoolOk s ∧ ∃ sc, s.1.scratch a = some sc ∧ sc.slot = m.frameCap)
      (fun _ => PoolOk) := by
  unfold acquire
  refine Triple.bind (R := fun pool s => PoolOk s ∧ s.2 = pool)
    (Triple.gets fun s h => ⟨h, rfl⟩) fun pool => ?_
  split
  · -- a hit has the frame of the entry
    rename_i slot hhit
    have hfound : ∃ e, pool.entries slot = some e ∧ e.frameCap = m.frameCap := by
      have h := List.find?_some hhit
      rw [Bool.and_eq_true] at h
      cases he : pool.entries slot with
      | none => simp [he] at h
      | some e => exact ⟨e, rfl, by simpa [he] using (by simpa [he] using h.2 : _ ∧ _).1⟩
    obtain ⟨e, he, hcap⟩ := hfound
    refine Triple.bind (R := fun _ s => PoolOk s ∧ s.2.entries slot = some e)
      (Triple.modify fun s h => ⟨h.1.of_entries fun _ _ he => he, ?_⟩) fun _ => ?_
    · rw [← he, ← h.2]
      rfl
    · refine Triple.pure fun s h => ⟨h.1, ?_⟩
      obtain ⟨sc, hsc, hslot⟩ := h.1.mapped slot e h.2
      rw [he]
      exact ⟨sc, hsc, hslot.trans hcap⟩
  · have hpick : Keeps PoolOk pickSlot := by
      unfold pickSlot
      refine Keeps.bind (Keeps.gets _) fun pool => ?_
      split
      · exact Keeps.pure _
      · refine Keeps.bind (fun s h => h.of_entries fun _ _ he => ?_) fun _ => Keeps.getSome _ _
        unfold SharedPagePool.victim at he
        dsimp only at he
        split at he <;> exact he
    refine Triple.bind (hpick.triple.pre fun s h => h.1) fun slot => ?_
    refine Triple.bind (Keeps.gets _).triple fun busy => ?_
    refine Triple.bind (Keeps.when (unmapSlot_poolOk slot)).triple fun _ => ?_
    -- the new mapping is at an address that no pool entry has
    refine Triple.bind (R := fun a s => PoolOk s ∧
      s.1.scratch a = some ⟨m.frameCap, m.pages, perms⟩ ∧
      ∀ i e, s.2.entries i = some e → e.scratchVaddr ≠ a) ?_ ?_
    · refine Triple.inFst fun pool w h => ?_
      rcases mapScratch_run m.frameCap perms m.pages w with ⟨err, hrun⟩ | ⟨a, hfree, hrun⟩ <;>
        rw [hrun]
      · exact ⟨fun a ha => (by cases ha), fun _ _ => h.of_scratch rfl⟩
      · refine ⟨fun a' ha' => ?_, fun _ he => by cases he⟩
        cases ha'
        have hne : ∀ i e, pool.entries i = some e → e.scratchVaddr ≠ a := by
          intro i e he heq
          obtain ⟨sc, hsc, -⟩ := h.mapped i e he
          rw [heq, hfree] at hsc
          cases hsc
        refine ⟨⟨?_, h.distinct⟩, by simp, hne⟩
        intro i e he
        obtain ⟨sc, hsc, hslot⟩ := h.mapped i e he
        exact ⟨sc, by simpa [hne i e he] using hsc, hslot⟩
    · intro a
      refine Triple.bind (R := fun _ s => PoolOk s ∧
        s.1.scratch a = some ⟨m.frameCap, m.pages, perms⟩) (Triple.modify fun s h => ?_) fun _ =>
          Triple.pure fun s h => ⟨h.1, _, h.2, rfl⟩
      obtain ⟨hok, hsc, hne⟩ := h
      have hcases : ∀ i e, (if i = slot then some ⟨m.vaddr, a, m.pages, m.frameCap, perms⟩
          else s.2.entries i) = some e →
          i = slot ∧ e.scratchVaddr = a ∧ e.frameCap = m.frameCap ∨
            i ≠ slot ∧ s.2.entries i = some e := by
        intro i e he
        split at he
        · cases he
          exact .inl ⟨by assumption, rfl, rfl⟩
        · exact .inr ⟨by assumption, he⟩
      refine ⟨⟨?_, ?_⟩, hsc⟩
      · intro i e he
        rcases hcases i e he with ⟨-, ha, hcap⟩ | ⟨-, he⟩
        · exact ⟨_, by rw [ha]; exact hsc, hcap.symm⟩
        · exact hok.mapped i e he
      · intro i j e e' he he' heq
        rcases hcases i e he with ⟨hi, ha, -⟩ | ⟨hi, he⟩ <;>
          rcases hcases j e' he' with ⟨hj, ha', -⟩ | ⟨hj, he'⟩
        · rw [hi, hj]
        · exact absurd (heq.symm.trans ha) (hne j e' he')
        · exact absurd (heq.trans ha') (hne i e he)
        · exact hok.distinct i j e e' he he' heq

/-! ### A session that writes -/

/-- The tables and the frames: what a read depends on. -/
def World.readView (w : World) : OrdMap Nat MmState × (Nat → Option Frame) := (w.mms, w.frames)

instance : BlindTables World.readView where
  tick _ _ := rfl
  slots _ _ := rfl
  vspace w pid _ := congrArg (·, w.frames) (w.mms_modifyTask pid fun _ => rfl)
  tables w pid _ := congrArg (·, w.frames) (w.mms_modifyTask pid fun _ => rfl)

instance : BlindSlots World.readView where
  ledger _ _ := rfl

instance : BlindFiles World.readView where
  files w pid _ := congrArg (·, w.frames) (w.mms_modifyTask pid fun _ => rfl)
  cloexecLog _ _ := rfl
  positionSplit _ _ := rfl
  endpoints _ _ := rfl
  doubleClose _ _ := rfl
  asyncFree _ _ := rfl
  asyncRegions _ _ := rfl
  asyncVaddr _ _ := rfl
  iouring _ _ := rfl
  fdOverflow _ _ := rfl
  earlyRecycle _ _ := rfl

instance : BlindScratch World.readView where
  scratch _ _ _ := rfl

instance : BlindTables World.scratch where
  tick _ _ := rfl
  slots _ _ := rfl
  vspace _ _ _ := rfl
  tables _ _ _ := rfl

instance : BlindSlots World.scratch where
  ledger _ _ := rfl

instance : BlindFrames World.scratch where
  frames _ _ _ := rfl
  refs _ _ := rfl
  doubleFree _ _ := rfl

instance : BlindMm World.scratch where
  mm _ _ _ := rfl
  fileMapLog _ _ := rfl

/-- Nothing that `q` reads can be written from `p`, and nothing of it has changed since
`w₀`. -/
def Isolated (w₀ : World) (p q : Nat) (w : World) : Prop :=
  ¬ w.WritesInto p q ∧ ∀ b, w.userByte q b = w₀.userByte q b

/-- No read of `q` goes to the frame in `slot`. -/
def World.Unread (w : World) (q slot : Nat) : Prop :=
  ∀ b m, w.lookup q b = some m → m.frameCap ≠ slot

section Session

variable {w₀ : World} {p q : Nat} {α : Type}

/-- The lookup after one more entry finds it, or what it found before. -/
theorem entryAt_insert {maps : OrdMap Nat MemoryMap} {m m' : MemoryMap} {k a : Nat}
    (h : entryAt (maps.insert k m) a = some m') : m' = m ∨ entryAt maps a = some m' := by
  unfold entryAt at h ⊢
  split at h
  · rename_i k v hfloor
    rcases OrdMap.floor?_insert hfloor with ⟨-, hv⟩ | ⟨-, hold⟩
    · split at h
      · exact .inl ((Option.some.inj h).symm.trans hv)
      · cases h
    · rw [hold]
      exact .inr h
  · cases h

/-- What a lookup finds is an entry of the table. -/
theorem MmState.lookup_mem {mm : MmState} {m : MemoryMap} {a : Nat}
    (h : mm.lookupMemoryMap a = some m) : ∃ k, mm.memoryMaps.get? k = some m ∧ k ≤ a := by
  unfold MmState.lookupMemoryMap entryAt at h
  split at h
  · rename_i k v hfloor
    split at h
    · obtain ⟨hget, hle, -⟩ := OrdMap.floor?_eq_some.mp hfloor
      cases h
      exact ⟨k, hget, hle⟩
    · cases h
  · cases h

/-- The frame that a read goes to is there. -/
theorem FrameInv.live_lookup {w : World} (h : FrameInv w) {pid a : Nat} {m : MemoryMap}
    (hm : w.lookup pid a = some m) : (w.frames m.frameCap).isSome := by
  obtain ⟨mm, hmm, hlook⟩ := Option.bind_eq_some_iff.mp hm
  obtain ⟨k, hk, -⟩ := MmState.lookup_mem hlook
  exact Counted.live_entry h hmm hk

/-- A byte is the same when its table and its frame hold the same. -/
theorem World.userByte_congr {w w' : World} {b : Nat} (hmms : w'.mms = w.mms)
    (h : ∀ m, w.lookup q b = some m → (w'.frames m.frameCap).map (fun fr => fr.data (b - m.vaddr))
      = (w.frames m.frameCap).map fun fr => fr.data (b - m.vaddr)) :
    w'.userByte q b = w.userByte q b := by
  have hlook : w'.lookup q b = w.lookup q b := by rw [World.lookup, hmms, World.lookup]
  rw [World.userByte, hlook, World.userByte]
  cases hm : w.lookup q b with
  | none => rfl
  | some m => exact h m hm

/-- Isolation is a matter of what a read depends on. -/
theorem Isolated.congr {w w' : World} (h : Isolated w₀ p q w) (hv : w'.readView = w.readView) :
    Isolated w₀ p q w' := by
  have hmms : w'.mms = w.mms := congrArg Prod.fst hv
  have hframes : w'.frames = w.frames := congrArg Prod.snd hv
  constructor
  · simpa only [World.WritesInto, World.lookup, hmms] using h.1
  · intro b
    simpa only [World.userByte, World.lookup, hmms, hframes] using h.2 b

/-- A command that changes nothing that a read depends on. -/
theorem isolated_step {c : M α} {slot : Nat} (hc : Frames World.readView c) :
    Triple (fun w => Isolated w₀ p q w ∧ w.Unread q slot) c
      (fun _ w => Isolated w₀ p q w ∧ w.Unread q slot) (fun _ => Isolated w₀ p q) := by
  have hk : Keeps (fun w => Isolated w₀ p q w ∧ w.Unread q slot) c := by
    intro w h
    refine ⟨h.1.congr (hc w), ?_⟩
    have hmms : (c.run w).2.mms = w.mms := congrArg Prod.fst (hc w)
    simpa only [World.Unread, World.lookup, hmms] using h.2
  exact hk.triple.errors fun _ _ h => h.1

/-- A new frame is not one that `q` reads. -/
theorem newFrame_isolated (pages : Nat) :
    Triple (fun w => FrameInv w ∧ Isolated w₀ p q w) (allocPageFrameNoCleanup pages)
      (fun slot w => Isolated w₀ p q w ∧ w.Unread q slot) (fun _ => Isolated w₀ p q) := by
  unfold allocPageFrameNoCleanup
  refine Triple.bind (R := fun slot w => Isolated w₀ p q w ∧ w.Unread q slot) ?_ ?_
  · have halloc : Triple (fun w => FrameInv w ∧ Isolated w₀ p q w) cspaceAlloc
        (fun slot w => (FrameInv w ∧ Fresh slot w) ∧ Isolated w₀ p q w)
        (fun _ w => FrameInv w ∧ Isolated w₀ p q w) :=
      Triple.and cspaceAlloc_acct (Keeps.triple (I := Isolated w₀ p q) fun w h =>
        h.congr (cspaceAlloc_frames w))
    refine halloc.imp (fun _ h => h) (fun slot w h => ⟨h.2, ?_⟩) fun _ _ h => h.2
    intro b m hm heq
    have hlive := FrameInv.live_lookup h.1.1 hm
    rw [heq] at hlive
    have hdead : (w.frames slot).isSome = false := h.1.2.2
    rw [hlive] at hdead
    cases hdead
  · intro slot
    refine Triple.bind (R := fun _ w => Isolated w₀ p q w ∧ w.Unread q slot) ?_ fun _ =>
      Triple.pure fun _ h => h
    unfold resAllocPage
    refine Triple.bind (isolated_step ext_frames) fun a => Triple.modify fun w h =>
      ⟨⟨h.1.1, ?_⟩, h.2⟩
    -- the bytes of `q` are in other frames
    intro b
    rw [← h.1.2 b]
    exact World.userByte_congr rfl fun m hm => by simp only [if_neg (h.2 b m hm)]

/-- A page of stack for `p` leaves `q` alone. -/
theorem growStackPage_isolated (hne : p ≠ q) (vaddr : Nat) :
    Keeps (fun w => FrameInv w ∧ Isolated w₀ p q w) (growStackPage p vaddr) := by
  have hgrow : Triple (fun w => FrameInv w ∧ Isolated w₀ p q w) (growStackPage p vaddr)
      (fun _ => Isolated w₀ p q) (fun _ => Isolated w₀ p q) := by
    unfold growStackPage
    refine Triple.bind (newFrame_isolated 1) fun slot => ?_
    refine Triple.bind (isolated_step (by simp)) fun _ => ?_
    refine Triple.bind (isolated_step (by simp)) fun _ => ?_
    refine Triple.bind (isolated_step (by simp)) fun _ => Triple.modify fun w h => ?_
    obtain ⟨⟨hwrites, hbytes⟩, hunread⟩ := h
    have hq : ∀ f b, (w.modifyMm p f).lookup q b = w.lookup q b := by
      intro f b
      rw [World.lookup, World.mms_modifyMm, OrdMap.get?_modify, if_neg (Ne.symm hne), World.lookup]
    constructor
    · rintro ⟨a, m, b, m', ha, hm, hw, hm', hcap, hlo, hhi⟩
      rw [hq] at hm'
      -- an entry that a lookup finds now is the new one or was found before
      rw [World.lookup, World.mms_modifyMm, OrdMap.get?_modify, if_pos rfl] at hm
      obtain ⟨mm', hmm', hlook⟩ := Option.bind_eq_some_iff.mp hm
      obtain ⟨mm, hmm, rfl⟩ := Option.map_eq_some_iff.mp hmm'
      unfold MmState.lookupMemoryMap at hlook
      rcases entryAt_insert hlook with rfl | hold
      · exact hunread b m' hm' hcap
      · exact hwrites ⟨a, m, b, m', ha, by rw [World.lookup, hmm]; exact hold, hw, hm',
          hcap, hlo, hhi⟩
    · intro b
      rw [← hbytes b]
      simp only [World.userByte, hq]
      rfl
  have hboth := Triple.and (growStackPage_keeps p vaddr).triple hgrow
  exact Triple.keeps (hboth.pre fun w h => ⟨h.1, h⟩)

/-- The entry that a checked lookup returns is the one a lookup finds, and has the
permissions. -/
theorem lookupMap_found {P : World → Prop} {pid a : Nat}
    (hgrow : Keeps P (tryGrowStackForUserAddr pid a)) (perms : Perms) :
    Triple P (lookupMap pid a perms)
      (fun m w => P w ∧ w.lookup pid a = some m ∧ m.flags.contains perms = true) (fun _ => P) := by
  -- an address below the stack may grow it, and is looked up again
  have hfind : Triple P (lookupOrGrow pid a)
      (fun o w => P w ∧ ∀ m, o = some m → w.lookup pid a = some m) (fun _ => P) := by
    unfold lookupOrGrow
    refine Triple.bind (getProcess_at pid) fun task => ?_
    split
    · rename_i m hm
      refine Triple.pure fun w h => ⟨h.1, ?_⟩
      intro m' hm'
      rw [World.lookup, h.2]
      exact hm.trans hm'
    · refine Triple.bind (R := fun _ => P) ((Keeps.attempt hgrow).triple.pre fun w h => h.1)
        fun grown => ?_
      split
      · refine Triple.gets fun w h => ⟨h, ?_⟩
        intro m hm
        rw [World.lookup, World.get?_mms]
        cases ht : w.task? pid with
        | none => simp [ht] at hm
        | some t => simpa [ht] using hm
      · exact Triple.pure fun w h => ⟨h, fun m hm => by cases hm⟩
  unfold lookupMap
  refine Triple.bind hfind fun o => ?_
  refine Triple.bind (R := fun m w => P w ∧ w.lookup pid a = some m)
    (Triple.getSome (fun m w ho h => ⟨h.1, h.2 m ho⟩) fun w _ h => h.1) fun m => ?_
  refine Triple.ite (fun _ => Triple.throw fun w h => h.1) fun hok => ?_
  refine Triple.ite (fun _ => Triple.throw fun w h => h.1) fun _ => ?_
  refine Triple.pure fun w h => ⟨h.1, h.2, ?_⟩
  by_contra hperms
  exact hok (.inr (by simpa using hperms))

/-- The invariant of the rounds of a copy into `p`. -/
def CopyInv (w₀ : World) (p q : Nat) (s : Session) : Prop :=
  PoolOk s ∧ FrameInv s.1 ∧ Isolated w₀ p q s.1

/-- The frame of a writable entry of `p` may be written from the address on. -/
theorem writeFrame_isolated {w : World} {m : MemoryMap} {a : Nat} {src : List UInt8}
    (h : Isolated w₀ p q w) (ha : a ≠ 0) (hm : w.lookup p a = some m) (hw : m.flags.write = true)
    (hlen : src.length ≤ m.size - (a - m.vaddr)) :
    Isolated w₀ p q (w.writeFrame m.frameCap (storeBytes (a - m.vaddr) src)) := by
  refine ⟨h.1, ?_⟩
  intro b
  rw [← h.2 b]
  refine World.userByte_congr rfl fun m' hm' => ?_
  simp only [World.writeFrame]
  split
  · rename_i hcap
    -- an offset that is written would be one that `q` reads
    have hout : ¬ (a - m.vaddr ≤ b - m'.vaddr ∧ b - m'.vaddr < a - m.vaddr + src.length) :=
      fun hin => h.1 ⟨a, m, b, m', ha, hm, hw, hm', hcap, hin.1, by omega⟩
    cases w.frames m'.frameCap with
    | none => rfl
    | some fr => simp only [Option.map_some, storeBytes, if_neg hout]
  · rfl

/-- The loop of a copy leaves the bytes of the other process. -/
theorem copyToUserLoop_isolated (hne : p ≠ q) (fuel : Nat) :
    ∀ cursor src, cursor ≠ 0 → Keeps (CopyInv w₀ p q) (copyToUserLoop p fuel cursor src) := by
  induction fuel with
  | zero => intro cursor src _; exact Keeps.pure _
  | succ fuel ih =>
    intro cursor src hcursor
    unfold copyToUserLoop
    refine Keeps.ite (Keeps.pure _) (Triple.keeps ?_)
    -- the chunk lies in a mapping that may be written
    refine Triple.bind (R := fun m s => CopyInv w₀ p q s ∧ s.1.lookup p cursor = some m ∧
      m.flags.write = true) ?_ ?_
    · refine Triple.inFst fun pool => ?_
      have hgrow : ∀ vaddr, Keeps (fun w => CopyInv w₀ p q (w, pool)) (growStackPage p vaddr) :=
        fun vaddr w h => ⟨h.1.of_scratch (growStackPage_frames (V := World.scratch) p vaddr w),
          growStackPage_isolated hne vaddr w h.2⟩
      refine (lookupMap_found (tryGrow_keeps_of hgrow cursor) Perms.W).post fun m w h => ?_
      exact ⟨h.1, h.2.1, by simpa [Perms.contains, Perms.W] using h.2.2⟩
    intro m
    dsimp only
    refine Triple.ite (fun _ => Triple.throw fun s h => h.1) fun hchunk => ?_
    -- the window shows the frame of that mapping
    refine Triple.bind (R := fun a s => CopyInv w₀ p q s ∧ (s.1.lookup p cursor = some m ∧
      m.flags.write = true) ∧ ∃ sc, s.1.scratch a = some sc ∧ sc.slot = m.frameCap) ?_ ?_
    · have hrest : Keeps (fun s : Session => (FrameInv s.1 ∧ Isolated w₀ p q s.1) ∧
          s.1.lookup p cursor = some m ∧ m.flags.write = true) (acquire m Perms.RW) := by
        intro s h
        have hv := acquire_frames (V := World.readView) m Perms.RW s
        have hmms : ((acquire m Perms.RW).run s).2.1.mms = s.1.mms := congrArg Prod.fst hv
        refine ⟨⟨acquire_keeps m Perms.RW s h.1.1, h.1.2.congr hv⟩, ?_, h.2.2⟩
        rw [World.lookup, hmms]
        exact h.2.1
      refine (Triple.and (acquire_maps m Perms.RW) hrest.triple).imp
        (fun s h => ⟨h.1.1, h.1.2, h.2⟩) (fun a s h => ⟨⟨h.1.1, h.2.1⟩, h.2.2, h.1.2⟩)
        fun _ s h => ⟨h.1, h.2.1⟩
    -- the bytes go to that frame, and the rest of the source after them
    · intro a
      refine Triple.bind (R := fun _ => CopyInv w₀ p q) ?_ fun _ => (ih _ _ ?_).triple
      · refine Triple.inFst fun pool => Triple.modify fun w h => ?_
        obtain ⟨⟨hpool, hinv, hiso⟩, ⟨hm, hw⟩, sc, hsc, hslot⟩ := h
        rw [hsc]
        dsimp only
        rw [hslot]
        refine ⟨hpool.of_scratch rfl, (BlindBytes.writeFrame w m.frameCap _).mpr hinv, ?_⟩
        exact writeFrame_isolated hiso hcursor hm hw (by rw [List.length_take]; omega)
      · unfold satAdd usizeMax usizeMod
        omega

/-- A copy into `p` does not change what `q` reads, unless a store of `p` reaches it. -/
theorem copyToUser_isolated (hne : p ≠ q) (a : Nat) (src : List UInt8) :
    Keeps (fun w => FrameInv w ∧ Isolated w₀ p q w) (copyToUser p a src) := by
  have hsession : Keeps (CopyInv w₀ p q) (sessionCopyToUser p a src) := by
    unfold sessionCopyToUser
    refine Keeps.ite (Keeps.pure _) ?_
    by_cases ha : a = 0
    · rw [if_pos ha]
      exact Keeps.throw _
    · rw [if_neg ha]
      exact copyToUserLoop_isolated hne _ _ _ ha
  unfold copyToUser withUserSession
  refine Keeps.bind ?_ fun r => Keeps.bind ?_ fun c => by simp
  · intro w h
    exact (hsession (w, SharedPagePool.new) ⟨PoolOk.new w, h⟩).2
  · intro w h
    have hv := releaseAll_frames (V := World.readView) (w, r.2)
    exact ⟨releaseAll_frames.keepsProp (w, r.2) h.1, h.2.congr hv⟩

end Session

/-! ### The run of a copy of one round -/

/-- A lookup that finds an entry with the permissions changes nothing. -/
theorem lookupMap_run {w : World} {pid a : Nat} {m : MemoryMap} {perms : Perms}
    (hm : w.lookup pid a = some m) (hle : m.vaddr ≤ a) (hcap : m.frameCap ≠ 0)
    (hperms : m.flags.contains perms = true) : (lookupMap pid a perms).run w = (.ok m, w) := by
  obtain ⟨mm, hmm, hlook⟩ := Option.bind_eq_some_iff.mp hm
  rw [World.get?_mms] at hmm
  obtain ⟨t, ht, rfl⟩ := Option.map_eq_some_iff.mp hmm
  have hget : (getProcess pid).run w = (.ok t, w) := by simp [getProcess, getSome, run_bind, ht]
  have hfind : (lookupOrGrow pid a).run w = (.ok (some m), w) := by
    unfold lookupOrGrow
    rw [run_bind_ok hget, hlook]
    rfl
  -- the end of the entry in the word is not past its saturated end
  have hend : a < satAdd m.vaddr m.size := by
    have hlt : a < wAdd m.vaddr m.size := by
      unfold MmState.lookupMemoryMap entryAt at hlook
      split at hlook
      · split at hlook
        · cases hlook; assumption
        · cases hlook
      · cases hlook
    have hmod := Nat.mod_lt (m.vaddr + m.size) (by decide : 0 < usizeMod)
    have hself := Nat.mod_le (m.vaddr + m.size) usizeMod
    unfold satAdd wAdd usizeMax at *
    omega
  unfold lookupMap
  rw [run_bind_ok hfind, getSome_bind, if_neg (by simp [hcap, hperms]), if_neg (by omega)]
  rfl

/-- The pool after its first mapping. -/
def SharedPagePool.single (e : SharedPagePoolEntry) : SharedPagePool where
  entries := fun i => if i = 0 then some e else none
  occupied := fun i => if i = 0 then true else false
  order := [0]

/-- The first mapping of a session. -/
theorem acquire_run {w : World} {m : MemoryMap} {perms : Perms}
    (herr : (w.env w.tick).err = none) (hfree : w.scratch (w.env w.tick).val = none) :
    (acquire m perms).run (w, SharedPagePool.new) = (.ok (w.env w.tick).val,
      ({ w with
        tick := w.tick + 1
        scratch := fun b => if b = (w.env w.tick).val then some ⟨m.frameCap, m.pages, perms⟩
          else w.scratch b },
       SharedPagePool.single ⟨m.vaddr, (w.env w.tick).val, m.pages, m.frameCap, perms⟩)) := by
  have hmap : (mapScratch m.frameCap perms m.pages).run w = (.ok (w.env w.tick).val, { w with
      tick := w.tick + 1
      scratch := fun b => if b = (w.env w.tick).val then some ⟨m.frameCap, m.pages, perms⟩
        else w.scratch b }) := by
    simp [mapScratch, ext, run_bind, herr, hfree]
  have hpick : pickSlot.run (w, SharedPagePool.new) = (.ok 0, (w, SharedPagePool.new)) := rfl
  unfold acquire
  rw [run_gets_bind]
  change (pickSlot >>= _ : S Nat).run (w, SharedPagePool.new) = _
  rw [run_bind_ok hpick, run_gets_bind]
  change (inFst (mapScratch m.frameCap perms m.pages) >>= _ : S Nat).run (w, SharedPagePool.new) = _
  rw [run_bind, run_inFst, hmap]
  rfl

/-- The cleanup of a session with one mapping. -/
theorem releaseAll_run {w : World} {e : SharedPagePoolEntry} (herr : (w.env w.tick).err = none) :
    (releaseAll.run (w, SharedPagePool.single e)).1 = .ok () ∧
      (releaseAll.run (w, SharedPagePool.single e)).2.1 = { w with
        tick := w.tick + 1
        scratch := fun b => if b = e.scratchVaddr then none else w.scratch b } := by
  have hunmap : (unmapScratch e.scratchVaddr).run w = (.ok (), { w with
      tick := w.tick + 1
      scratch := fun b => if b = e.scratchVaddr then none else w.scratch b }) := by
    simp [unmapScratch, ext, run_bind, herr]
  -- after the first slot nothing is occupied
  have hrest : ∀ (l : List Nat) (s : Session), (∀ i ∈ l, s.2.occupied i = false) →
      (forEach l fun i => do
        let busy ← gets (·.2.occupied i)
        when busy (unmapSlot i) : S Unit).run s = (.ok (), s) := by
    intro l s hl
    induction l with
    | nil => rfl
    | cons i rest ih =>
      have hi := hl i (by simp)
      simp only [forEach, run_bind, run_gets, hi, Cmd.when]
      exact ih fun j hj => hl j (by simp [hj])
  have hfirst : (unmapSlot 0).run (w, SharedPagePool.single e) = (.ok (), ({ w with
      tick := w.tick + 1
      scratch := fun b => if b = e.scratchVaddr then none else w.scratch b },
      ⟨fun i => if i = 0 then none else (SharedPagePool.single e).entries i,
        fun i => if i = 0 then false else (SharedPagePool.single e).occupied i, [0]⟩)) := by
    unfold unmapSlot
    rw [run_gets_bind]
    change (modify _ >>= fun _ => inFst (unmapScratch e.scratchVaddr) >>= _ : S Unit).run _ = _
    rw [run_modify_bind, run_bind, run_inFst, hunmap]
    rfl
  have hall : releaseAll.run (w, SharedPagePool.single e) =
      (.ok (), ((unmapSlot 0).run (w, SharedPagePool.single e)).2) := by
    change (unmapSlot 0 >>= fun _ => forEach (List.range' 1 15) fun i => do
      let busy ← gets (·.2.occupied i)
      when busy (unmapSlot i) : S Unit).run (w, SharedPagePool.single e) = _
    rw [run_bind_ok hfirst, hfirst]
    refine hrest _ _ fun i hi => ?_
    have hpos := (List.mem_range'_1.mp hi).1
    have hne : i ≠ 0 := by omega
    simp [SharedPagePool.single, hne]
  rw [hall, hfirst]
  exact ⟨rfl, rfl⟩

/-- Without bytes the loop does nothing. -/
theorem copyToUserLoop_nil (pid n cursor : Nat) : copyToUserLoop pid n cursor [] = pure () := by
  cases n <;> rfl

/-- A copy of one round, with services that answer: the bytes are in the frame of the entry
that the lookup returned. -/
theorem copyToUser_run {w w' : World} {pid a : Nat} {src : List UInt8} {m : MemoryMap}
    (hsrc : src ≠ []) (ha : a ≠ 0) (hlook : (lookupMap pid a Perms.W).run w = (.ok m, w'))
    (hfit : src.length ≤ m.size - (a - m.vaddr)) (herr : ∀ n, (w'.env n).err = none)
    (hfree : w'.scratch (w'.env w'.tick).val = none) :
    (copyToUser pid a src).run w = (.ok (), { w'.writeFrame m.frameCap
      (storeBytes (a - m.vaddr) src) with tick := w'.tick + 2 }) := by
  have hlen : 0 < src.length := List.length_pos_iff.mpr hsrc
  have hchunk : min (m.size - (a - m.vaddr)) src.length = src.length := min_eq_right hfit
  -- the world with the window mapped, and the one with the bytes stored
  let w₁ : World := { w' with
    tick := w'.tick + 1
    scratch := fun b => if b = (w'.env w'.tick).val then some ⟨m.frameCap, m.pages, Perms.RW⟩
      else w'.scratch b }
  let w₂ : World := w₁.writeFrame m.frameCap (storeBytes (a - m.vaddr) src)
  let e : SharedPagePoolEntry := ⟨m.vaddr, (w'.env w'.tick).val, m.pages, m.frameCap, Perms.RW⟩
  -- one chunk is enough for the whole source
  have hsession : (sessionCopyToUser pid a src).run (w, SharedPagePool.new) =
      (.ok (), (w₂, SharedPagePool.single e)) := by
    unfold sessionCopyToUser
    rw [if_neg hsrc, if_neg ha]
    obtain ⟨n, hn⟩ : ∃ n, src.length = n + 1 := ⟨src.length - 1, by omega⟩
    rw [hn]
    unfold copyToUserLoop
    rw [if_neg hsrc, run_bind, run_inFst, hlook]
    dsimp only
    have hwrite : (inFst (writeScratch (w'.env w'.tick).val
        (storeBytes (a - m.vaddr) (src.take src.length))) : S Unit).run
          (w₁, SharedPagePool.single e)
        = (.ok (), (w₂, SharedPagePool.single e)) := by
      simp [run_inFst, writeScratch, w₂, w₁]
    rw [hchunk, if_neg (by omega), run_bind_ok (acquire_run (herr _) hfree), run_bind_ok hwrite,
      List.drop_length, copyToUserLoop_nil]
    rfl
  -- the release at the end unmaps the window
  have hclean := releaseAll_run (w := w₂) (e := e) (herr _)
  have hscratch : (fun b => if b = e.scratchVaddr then none else w₂.scratch b) = w'.scratch := by
    funext b
    by_cases hb : b = (w'.env w'.tick).val
    · simp [e, hb, hfree]
    · simp [e, w₂, w₁, World.writeFrame, hb]
  unfold copyToUser withUserSession
  simp only [run_bind, run_runWith, hsession, hclean, hscratch, Cmd.ofExcept, run_pure]
  rfl

/-! ### Isolation -/

/-- An entry that a lookup finds starts at or below the address. -/
theorem FrameInv.lookup_le {w : World} (h : FrameInv w) {pid a : Nat} {m : MemoryMap}
    (hm : w.lookup pid a = some m) : m.vaddr ≤ a := by
  obtain ⟨mm, hmm, hlook⟩ := Option.bind_eq_some_iff.mp hm
  obtain ⟨k, hk, hle⟩ := MmState.lookup_mem hlook
  rw [(Counted.shaped h pid mm hmm k m hk).1]
  exact hle

/-- An entry that a lookup finds has a frame. -/
theorem FrameInv.lookup_cap {w : World} (h : FrameInv w) {pid a : Nat} {m : MemoryMap}
    (hm : w.lookup pid a = some m) : m.frameCap ≠ 0 := by
  intro hzero
  have hlive := h.live_lookup hm
  have hnull : (w.frames 0).isSome = false := Counted.null h
  rw [hzero, hnull] at hlive
  cases hlive

/-- A copy into `p` leaves every byte that `q` reads alone, whatever the services answer, if
and only if no store of `p` reaches a byte that `q` reads. -/
theorem copyToUser_isolated_iff {w : World} (hw : Reachable w) {p q : Nat} (hne : p ≠ q) :
    (∀ env a src b, ((copyToUser p a src).run (w.withEnv env)).2.userByte q b = w.userByte q b) ↔
      ¬ w.WritesInto p q := by
  have hinv : FrameInv w := hw.frameInv
  constructor
  · rintro hiso ⟨a, m, b, m', ha, hm, hwrite, hm', hcap, hlo, hhi⟩
    -- store up to the byte, and another value there
    obtain ⟨base, hbase⟩ := hw.exists_free_scratch
    obtain ⟨fr, hfr⟩ := Option.isSome_iff_exists.mp (FrameInv.live_lookup hinv hm)
    let env : Nat → Ext := fun _ => ⟨none, base, fun _ => 0⟩
    let src := List.replicate (b - m'.vaddr - (a - m.vaddr)) 0 ++ [fr.data (b - m'.vaddr) + 1]
    have hlen : src.length = b - m'.vaddr - (a - m.vaddr) + 1 := by simp [src]
    have hlook : (lookupMap p a Perms.W).run (w.withEnv env) = (.ok m, w.withEnv env) := by
      refine lookupMap_run hm (hinv.lookup_le hm) (hinv.lookup_cap hm) ?_
      simp [Perms.contains, Perms.W, hwrite]
    have hne : src ≠ [] := by simp [src]
    have hrun := copyToUser_run hne ha hlook (by omega) (fun _ => rfl) hbase
    have hbyte := hiso env a src b
    rw [hrun] at hbyte
    have hat : storeBytes (a - m.vaddr) src (b - m'.vaddr) (fr.data (b - m'.vaddr))
        = fr.data (b - m'.vaddr) + 1 := by
      rw [storeBytes, if_pos (by omega)]
      simp [src]
    have hlook' : ∀ f n, World.lookup { (w.withEnv env).writeFrame m.frameCap f with tick := n } q b
        = some m' := fun _ _ => hm'
    rw [World.userByte, hlook', World.userByte, hm'] at hbyte
    simp [World.writeFrame, World.withEnv, hcap, hfr, hat] at hbyte
  · intro hnot env a src b
    have hiso : Isolated w p q (w.withEnv env) := ⟨hnot, fun _ => rfl⟩
    exact (copyToUser_isolated hne a src (w.withEnv env) ⟨hinv, hiso⟩).2.2 b

/-- After the `fork`, a store of the parent in its stack page is read by the child. -/
theorem copyToUser_isolated_iff_sampleFork :
    ¬ ∀ env a src b, ((copyToUser 1 a src).run (sampleFork.withEnv env)).2.userByte 2 b
      = sampleFork.userByte 2 b := by
  rw [copyToUser_isolated_iff sampleFork_reachable (by decide : 1 ≠ 2), not_not]
  refine ⟨1073737728, (sampleFork.lookup 1 1073737728).getD (pageEntry 0 Perms.R .stack 0),
    1073737728, (sampleFork.lookup 2 1073737728).getD (pageEntry 0 Perms.R .stack 0), ?_⟩
  decide +kernel

/-- The parent and the child are live and distinct, and a copy into the parent changes a byte
that the child reads. -/
theorem copyToUser_changes_child :
    ¬ ∀ w, Reachable w → ∀ p q, p ≠ q → (w.task? p).isSome → (w.task? q).isSome →
      ∀ a src b, ((copyToUser p a src).run w).2.userByte q b = w.userByte q b := by
  intro h
  have hbyte := h sampleFork sampleFork_reachable 1 2 (by decide) (by decide +kernel)
    (by decide +kernel) 1073737728 [5] 1073737728
  revert hbyte
  decide +kernel

end Ape
