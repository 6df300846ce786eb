import Ape.Proofs.AddrViews
import Ape.Proofs.TableRuns

/-!
# `Ape.Proofs.Brk`: the heap over runs of `brk` and page faults

`do_brk` moves the recorded break and nothing else. The pages of the heap are made one by one by
the page faults below the break, and nothing takes them away when the break goes down. So a page
that was touched once keeps its entry, its frame and its bytes, and reads the same when the break
is above it again.

`MmState.heapByte` is the byte of a heap page behind an address. `HeapRun` is a run of `brk` calls,
page faults in the heap and stores of the process into its heap pages. `World.HeapOk.faulted` says
what a fault does to the heap bytes: nothing, or one more page, which reads zero.
`shrunk_heap_stays` is the induction over the run. In it, `lastStored` is the byte that the run
stored last at an address.
-/

set_option autoImplicit false

namespace Ape

open Ape.Lib Cmd

/-! ### The bytes of the heap -/

namespace MmState

variable {mm : MmState} {frames frames' : Nat → Option Frame}

/-- The byte of a heap page behind an address. -/
def heapByte (mm : MmState) (frames : Nat → Option Frame) (a : Nat) : Option UInt8 :=
  (mm.lookupMemoryMap a).bind fun m =>
    if m.memType = .heap then (frames m.frameCap).map fun f => f.data (a - m.vaddr) else none

/-- Every entry of the heap is one page long. -/
def HeapPages (mm : MmState) : Prop :=
  ∀ k m, mm.memoryMaps.get? k = some m → m.memType = .heap → m.size = PGSIZE

/-- The bytes are those of the frames of the entries. -/
theorem heapByte_frames
    (h : ∀ k m, mm.memoryMaps.get? k = some m → frames' m.frameCap = frames m.frameCap) (a : Nat) :
    mm.heapByte frames' a = mm.heapByte frames a := by
  rw [heapByte, heapByte]
  cases hlook : mm.lookupMemoryMap a with
  | none => rfl
  | some m =>
    obtain ⟨k, hk, -⟩ := get?_of_lookup hlook
    rw [Option.bind_some, Option.bind_some, h k m hk]

/-- A change of the entry at `v`, when every entry is filed at its address. -/
theorem lookup_modify (hkey : ∀ k m, mm.memoryMaps.get? k = some m → m.vaddr = k)
    {f : MemoryMap → MemoryMap} (hvaddr : ∀ m, (f m).vaddr = m.vaddr)
    (hsize : ∀ m, (f m).size = m.size) (v a : Nat) :
    entryAt (mm.memoryMaps.modify v f) a
      = (mm.lookupMemoryMap a).map fun m => if m.vaddr = v then f m else m := by
  have hmap : mm.memoryMaps.modify v f
      = mm.memoryMaps.mapValues fun m => if m.vaddr = v then f m else m := by
    refine OrdMap.ext_get? fun k => ?_
    rw [OrdMap.get?_modify, OrdMap.get?_mapValues]
    cases hk : mm.memoryMaps.get? k with
    | none => simp
    | some m =>
      rw [← hkey k m hk]
      by_cases hv : m.vaddr = v <;> simp [hv]
  rw [hmap]
  refine entryAt_mapValues ?_ ?_ mm.memoryMaps a
  · intro m
    by_cases hv : m.vaddr = v <;> simp [hv, hvaddr]
  · intro m
    by_cases hv : m.vaddr = v <;> simp [hv, hsize]

/-- Other permissions in an entry change no byte. -/
theorem heapByte_setPerms (hkey : ∀ k m, mm.memoryMaps.get? k = some m → m.vaddr = k)
    (v : Nat) (perms : Perms) (a : Nat) :
    heapByte { mm with memoryMaps := mm.memoryMaps.modify v fun m => { m with flags := perms } }
      frames a = mm.heapByte frames a := by
  have hlook : lookupMemoryMap
      { mm with memoryMaps := mm.memoryMaps.modify v fun m => { m with flags := perms } } a
        = (mm.lookupMemoryMap a).map fun m =>
          if m.vaddr = v then { m with flags := perms } else m :=
    lookup_modify hkey (f := fun m => { m with flags := perms }) (fun _ => rfl) (fun _ => rfl) v a
  rw [heapByte, hlook, heapByte]
  cases mm.lookupMemoryMap a with
  | none => rfl
  | some m => by_cases hv : m.vaddr = v <;> simp [hv]

/-- A copied page reads as before. -/
theorem heapByte_setCopied (h : mm.Sound) (hpages : mm.HeapPages) (honce : ∀ s, mm.uses s ≤ 1)
    {m : MemoryMap} (hm : mm.memoryMaps.get? m.vaddr = some m) {slot : Nat} {perms : Perms}
    (hothers : ∀ k e, mm.memoryMaps.get? k = some e → e.frameCap ≠ m.frameCap →
      frames' e.frameCap = frames e.frameCap)
    (hcopy : ∀ o, o < PGSIZE →
      (frames' slot).map (fun f => f.data o) = (frames m.frameCap).map fun f => f.data o)
    (a : Nat) :
    (mm.setCopied m.vaddr slot perms).heapByte frames' a = mm.heapByte frames a := by
  -- the lookup finds the entry it found before, with the new frame if it is the copied one
  have hlook : (mm.setCopied m.vaddr slot perms).lookupMemoryMap a
      = (mm.lookupMemoryMap a).map fun e => if e.vaddr = m.vaddr then
          { e with frameCap := slot, cow := false, flags := perms } else e :=
    lookup_modify (h.key .mapped)
      (f := fun e => { e with frameCap := slot, cow := false, flags := perms })
      (fun _ => rfl) (fun _ => rfl) m.vaddr a
  rw [heapByte, hlook, heapByte]
  cases hfound : mm.lookupMemoryMap a with
  | none => rfl
  | some e =>
    obtain ⟨k, hk, hlo, hhi⟩ := (h.entryAt_iff .mapped).mp hfound
    rw [Option.map_some, Option.bind_some, Option.bind_some]
    by_cases hv : e.vaddr = m.vaddr
    · -- the entry that was copied
      have hkey : e.vaddr = k := h.key .mapped k e hk
      obtain rfl : e = m := by
        have hsame : mm.memoryMaps.get? k = some m := by rw [← hkey, hv, hm]
        have hget : mm.memoryMaps.get? k = some e := hk
        exact Option.some.inj (hget.symm.trans hsame)
      rw [if_pos hv]
      by_cases hheap : e.memType = .heap
      · rw [if_pos hheap, if_pos hheap]
        have hsize := hpages k e hk hheap
        exact hcopy (a - e.vaddr) (by omega)
      · rw [if_neg hheap, if_neg hheap]
    · rw [if_neg hv]
      -- another entry has another frame, since no frame is in two entries
      have hne : e.frameCap ≠ m.frameCap := by
        intro heq
        have hkk := entry_of_frame honce hm hk heq
        have hkey : e.vaddr = k := h.key .mapped k e hk
        exact hv (hkey.trans hkk)
      rw [hothers k e hk hne]

/-- A new page of the heap that reads zero. -/
theorem heapByte_added (h : mm.Sound) {page slot : Nat} {perms : Perms}
    (h' : (mm.addMemoryMap (pageEntry page perms .heap slot)).Sound)
    (hpage : page % PGSIZE = 0) (hmiss : mm.lookupMemoryMap page = none)
    (hothers : ∀ k e, mm.memoryMaps.get? k = some e → frames' e.frameCap = frames e.frameCap)
    (hzero : ∃ f, frames' slot = some f ∧ ∀ o, o < PGSIZE → f.data o = 0) (a : Nat) :
    (mm.addMemoryMap (pageEntry page perms .heap slot)).heapByte frames' a
      = if a / PGSIZE = page / PGSIZE then some 0 else mm.heapByte frames a := by
  let e := pageEntry page perms .heap slot
  by_cases hin : a / PGSIZE = page / PGSIZE
  -- an address of the new page is found in the new entry, and its frame is all zero
  · have hcont : e.Contains a := by
      show page ≤ a ∧ a < page + PGSIZE
      unfold PGSIZE at *
      omega
    have hfound : (mm.addMemoryMap e).lookupMemoryMap a = some e :=
      @Sound.entryAt_eq (mm.addMemoryMap e) .mapped a e h' page (OrdMap.get?_insert_self ..) hcont
    obtain ⟨f, hf, hbyte⟩ := hzero
    rw [if_pos hin, heapByte, hfound]
    show (if MemoryType.heap = .heap then (frames' slot).map _ else none) = some 0
    rw [if_pos rfl, hf, Option.map_some, hbyte]
    show a - page < PGSIZE
    unfold PGSIZE at *
    omega
  · -- the other entries are those of before
    have hnone : mm.memoryMaps.get? page = none := by
      cases hk : mm.memoryMaps.get? page with
      | none => rfl
      | some m =>
        have hvaddr : m.vaddr = page := h.key .mapped page m hk
        have hsize : 0 < m.size := (h.paged .mapped page m hk).2.2
        refine absurd (show m.span.Has page from ?_) (@Sound.miss mm h .mapped page hmiss page m hk)
        show m.vaddr ≤ page ∧ page < m.vaddr + m.size
        omega
    have hsame : (mm.addMemoryMap e).lookupMemoryMap a = mm.lookupMemoryMap a := by
      refine @Sound.entryAt_congr mm (mm.addMemoryMap e) .mapped a h h' fun k m hcont => ?_
      show (mm.memoryMaps.insert page e).get? k = some m ↔ mm.memoryMaps.get? k = some m
      by_cases hk : k = page
      · subst hk
        rw [OrdMap.get?_insert_self, hnone]
        constructor
        · intro heq
          obtain rfl := Option.some.inj heq
          have hout : k ≤ a ∧ a < k + PGSIZE := hcont
          unfold PGSIZE at *
          omega
        · intro heq
          cases heq
      · rw [OrdMap.get?_insert_ne _ _ hk]
    rw [if_neg hin, heapByte, hsame]
    exact heapByte_frames hothers a

/-- A page is in one entry or in none. -/
theorem Sound.lookup_none (h : mm.Sound) {a x : Nat} (hmiss : mm.lookupMemoryMap a = none)
    (hx : x / PGSIZE = a / PGSIZE) : mm.lookupMemoryMap x = none := by
  cases hfound : mm.lookupMemoryMap x with
  | none => rfl
  | some m =>
    obtain ⟨k, hk, hin⟩ := (h.entryAt_iff .mapped).mp hfound
    refine absurd ?_ (@Sound.miss mm h .mapped a hmiss k m hk)
    exact ((h.paged .mapped k m hk).has_iff hx).mp hin

/-- Heap entries that keep their type and size stay pages. -/
theorem HeapPages.modify (h : mm.HeapPages) (v : Nat) {f : MemoryMap → MemoryMap}
    (hf : ∀ m, (f m).memType = m.memType ∧ (f m).size = m.size) :
    HeapPages { mm with memoryMaps := mm.memoryMaps.modify v f } := by
  intro k m hk hheap
  replace hk : (mm.memoryMaps.modify v f).get? k = some m := hk
  rw [OrdMap.get?_modify] at hk
  by_cases hv : k = v
  · rw [if_pos hv] at hk
    obtain ⟨e, he, rfl⟩ := Option.map_eq_some_iff.mp hk
    rw [(hf e).2]
    exact h k e he ((hf e).1 ▸ hheap)
  · rw [if_neg hv] at hk
    exact h k m hk hheap

/-- A page that is added to the heap is a page. -/
theorem HeapPages.add (h : mm.HeapPages) (page slot : Nat) (perms : Perms) :
    (mm.addMemoryMap (pageEntry page perms .heap slot)).HeapPages := by
  intro k m hk hheap
  replace hk : (mm.memoryMaps.insert page (pageEntry page perms .heap slot)).get? k = some m := hk
  rw [OrdMap.get?_insert] at hk
  by_cases hpage : k = page
  · rw [if_pos hpage] at hk
    obtain rfl := Option.some.inj hk
    rfl
  · rw [if_neg hpage] at hk
    exact h k m hk hheap

end MmState

/-! ### A new page and a copied page -/

/-- The services give out frames that are filled with zeros. -/
def ZeroFrames (env : Nat → Ext) : Prop := ∀ n o, (env n).bytes o = 0

/-- The process has this table, and these frames are as they were. -/
structure Held (pid : Nat) (mm : MmState) (fr : Nat → Option Frame) (v : MapView) : Prop where
  mms : v.mms.get? pid = some mm
  frames : ∀ s f, fr s = some f → v.frames s = some f

/-- The same, with a frame in a slot that had none. -/
structure HeldWith (pid : Nat) (mm : MmState) (fr : Nat → Option Frame) (slot : Nat)
    (data : Nat → UInt8) (v : MapView) : Prop extends Held pid mm fr v where
  fresh : fr slot = none
  frame : ∃ f, v.frames slot = some f ∧ ∀ o, o < PGSIZE → f.data o = data o

section Commands

variable {pid : Nat} {mm : MmState} {fr : Nat → Option Frame} {α : Type}

/-- A step that the view does not see, whether it succeeds or fails. -/
theorem blind_both {c : M α} (h : Frames World.mapView c) {S T : MapView → Prop}
    (hST : ∀ v, S v → T v) :
    Triple (fun w => S w.mapView) c (fun _ w => S w.mapView) (fun _ w => T w.mapView) :=
  (Frames.keeps h S).triple.errors fun _ _ h => hST _ h

/-- The answer of a call carries a frame that is filled with zeros. -/
theorem ext_zero : Triple (fun w => ZeroFrames w.env) ext (fun a _ => ∀ o, a.bytes o = 0)
    (fun _ _ => True) := by
  intro w hw
  refine ⟨fun a ha => ?_, fun _ _ => trivial⟩
  cases herr : (w.env w.tick).err with
  | none =>
    rw [run_ext_ok herr] at ha
    cases ha
    exact hw w.tick
  | some e =>
    rw [run_ext_error herr] at ha
    cases ha

instance : BlindSlots World.env where
  tick _ _ := rfl
  slots _ _ := rfl
  ledger _ _ := rfl

/-- A new page, in a slot that had no frame. -/
theorem allocPageFrameNoCleanup_held :
    Triple (fun w => Held pid mm fr w.mapView ∧ ZeroFrames w.env) (allocPageFrameNoCleanup 1)
      (fun slot w => HeldWith pid mm fr slot (fun _ => 0) w.mapView)
      (fun _ w => Held pid mm fr w.mapView) := by
  have hblind : ∀ {β : Type} {c : M β}, Frames World.mapView c →
      Triple (fun w => Held pid mm fr w.mapView) c (fun _ w => Held pid mm fr w.mapView)
        (fun _ w => Held pid mm fr w.mapView) := fun h => blind_both h fun _ h => h
  refine Triple.bind (R := fun slot w => (Held pid mm fr w.mapView ∧ ZeroFrames w.env) ∧
    fr slot = none) ?_ ?_
  · have hkept := ((hblind (c := cspaceAlloc) (by simp)).frame
      (cspaceAlloc_frames (V := World.env)) ZeroFrames)
    refine (hkept.and cspaceAlloc_frameless).imp (fun w h => ⟨h, trivial⟩) (fun slot w h => ?_)
      fun _ _ h => h.1.1
    refine ⟨h.1, ?_⟩
    -- the frames that are held were there before
    cases hfr : fr slot with
    | none => rfl
    | some f =>
      have hframe : w.frames slot = some f := h.1.1.frames slot f hfr
      rw [h.2.2] at hframe
      cases hframe
  intro slot
  refine Triple.bind (R := fun _ w => HeldWith pid mm fr slot (fun _ => 0) w.mapView) ?_
    fun _ => Triple.pure fun _ h => h
  refine Triple.bind (R := fun a w => (Held pid mm fr w.mapView ∧ fr slot = none) ∧
    ∀ o, a.bytes o = 0) ?_ fun a => Triple.modify ?_
  · intro w hw
    obtain ⟨hok, herr⟩ := ((hblind (c := ext) (by simp)).and ext_zero) w hw.1
    constructor
    · intro a ha
      exact ⟨⟨(hok a ha).1, hw.2⟩, (hok a ha).2⟩
    · intro e he
      exact (herr e he).1
  · intro w h
    obtain ⟨⟨hheld, hfresh⟩, hzero⟩ := h
    refine ⟨⟨hheld.mms, ?_⟩, hfresh, ⟨1, a.bytes⟩, if_pos rfl, fun o _ => hzero o⟩
    intro s f hs
    have hne : s ≠ slot := by
      rintro rfl
      rw [hfresh] at hs
      cases hs
    exact (if_neg hne).trans (hheld.frames s f hs)

/-- The copy of a page goes to the new frame. -/
theorem copyFramePage_held {old slot : Nat} {g : Frame} (hold : fr old = some g) :
    Triple (fun w => HeldWith pid mm fr slot (fun _ => 0) w.mapView) (copyFramePage old slot)
      (fun _ w => HeldWith pid mm fr slot g.data w.mapView)
      (fun _ w => Held pid mm fr w.mapView) := by
  refine Triple.bind (R := fun src w => HeldWith pid mm fr slot (fun _ => 0) w.mapView ∧
    w.scratch src = some ⟨old, 1, Perms.R⟩) ?_ ?_
  -- a map that is refused leaves everything as it was
  · intro w hw
    rcases mapScratch_run old Perms.R 1 w with ⟨e, hrun⟩ | ⟨a, -, hrun⟩ <;> rw [hrun]
    · exact ⟨fun _ hok => (by cases hok), fun _ _ => hw.toHeld⟩
    · refine ⟨fun a' ha' => ?_, fun _ herr => by cases herr⟩
      cases ha'
      exact ⟨hw, if_pos rfl⟩
  intro src
  refine Triple.bind (R := fun dst w => HeldWith pid mm fr slot (fun _ => 0) w.mapView ∧
    w.scratch src = some ⟨old, 1, Perms.R⟩ ∧ w.scratch dst = some ⟨slot, 1, Perms.RW⟩)
    (Triple.onError (F := fun _ w => Held pid mm fr w.mapView) ?_ fun e =>
      blind_both (by simp) fun _ h => h) ?_
  -- the second map fails with the source still mapped, and its cleanup leaves the frames
  · intro w hw
    rcases mapScratch_run slot Perms.RW 1 w with ⟨e, hrun⟩ | ⟨a, hfree, hrun⟩ <;> rw [hrun]
    · exact ⟨fun _ hok => (by cases hok), fun _ _ => hw.1.toHeld⟩
    · refine ⟨fun a' ha' => ?_, fun _ herr => by cases herr⟩
      cases ha'
      have hne : src ≠ a := by
        intro heq
        rw [heq, hfree] at hw
        cases hw.2
      exact ⟨hw.1, (if_neg hne).trans hw.2, if_pos rfl⟩
  intro dst
  refine Triple.bind (R := fun _ w => HeldWith pid mm fr slot g.data w.mapView) ?_ fun _ => ?_
  -- the copy writes the new frame only, and the source keeps its bytes
  · intro w hw
    obtain ⟨hheld, hsrc, hdst⟩ := hw
    have hrun := @run_copyScratch_page w src dst 0 _ _ hsrc hdst
    rw [Nat.zero_mul] at hrun
    rw [hrun]
    refine ⟨fun _ _ => ⟨⟨hheld.mms, ?_⟩, hheld.fresh, ?_⟩, fun _ he => by cases he⟩
    · intro s f hs
      have hne : s ≠ slot := by
        rintro rfl
        rw [hheld.fresh] at hs
        cases hs
      exact (if_neg hne).trans (hheld.frames s f hs)
    · obtain ⟨f, hf, -⟩ := hheld.frame
      have hsource : w.frames old = some g := hheld.frames old g hold
      have hslot : w.frames slot = some f := hf
      refine ⟨_, (if_pos rfl).trans (by rw [hslot]; rfl), fun o ho => ?_⟩
      simp [ho, hsource]
  · exact Triple.bind (blind_both (by simp) fun _ h => h.toHeld) fun _ =>
      blind_both (by simp) fun _ h => h.toHeld

/-- A change of the memory state is the only one. -/
theorem Held.modifyMm {w : World} (h : Held pid mm fr w.mapView) (f : MmState → MmState) :
    Held pid (f mm) fr (w.modifyMm pid f).mapView := by
  refine ⟨?_, h.frames⟩
  show (w.modifyMm pid f).mms.get? pid = _
  rw [World.mms_modifyMm, OrdMap.get?_modify, if_pos rfl, show w.mms.get? pid = some mm from h.mms]
  rfl

/-- The page of a fault in the heap. -/
theorem mapFaultPage_held (page : Nat) :
    Triple (fun w => Held pid mm fr w.mapView ∧ ZeroFrames w.env)
      (mapFaultPage pid page Perms.RW .heap)
      (fun _ w => ∃ slot, HeldWith pid (mm.addMemoryMap
        (pageEntry page Perms.RW .heap slot)) fr slot
        (fun _ => 0) w.mapView)
      (fun _ w => Held pid mm fr w.mapView) := by
  refine Triple.bind allocPageFrameNoCleanup_held fun slot => ?_
  have hblind : ∀ {β : Type} {c : M β}, Frames World.mapView c →
      Triple (fun w => HeldWith pid mm fr slot (fun _ => 0) w.mapView) c
        (fun _ w => HeldWith pid mm fr slot (fun _ => 0) w.mapView)
        (fun _ w => Held pid mm fr w.mapView) := fun h => blind_both h fun _ h => h.toHeld
  refine Triple.bind (hblind (by simp)) fun _ => Triple.bind (hblind (by simp)) fun _ => ?_
  refine Triple.bind (hblind (by simp)) fun _ => Triple.modify fun w h => ⟨slot, ?_⟩
  exact ⟨h.toHeld.modifyMm (·.addMemoryMap (pageEntry page Perms.RW .heap slot)), h.fresh, h.frame⟩

/-- Other permissions for an entry. -/
theorem remapExistingPage_held (v frameCap pages : Nat) (perms : Perms) :
    Triple (fun w => Held pid mm fr w.mapView) (remapExistingPage pid v frameCap perms pages)
      (fun _ w => Held pid { mm with
        memoryMaps := mm.memoryMaps.modify v fun m => { m with flags := perms } } fr w.mapView)
      (fun _ w => Held pid mm fr w.mapView) := by
  refine Triple.bind (blind_both (by simp) fun _ h => h) fun _ => ?_
  refine Triple.bind (blind_both (by simp) fun _ h => h) fun _ => Triple.modify fun w h => ?_
  exact h.modifyMm fun mm => { mm with
    memoryMaps := mm.memoryMaps.modify v fun m => { m with flags := perms } }

/-- The copy of a page that was shared. -/
theorem resolveCowFault_held (v : Nat) {old : Nat} (perms : Perms) {g : Frame}
    (hold : fr old = some g) :
    Triple (fun w => Held pid mm fr w.mapView ∧ ZeroFrames w.env) (resolveCowFault pid v old perms)
      (fun _ w => ∃ slot, HeldWith pid (mm.setCopied v slot perms)
        (fun s => if s = old then none else fr s) slot g.data w.mapView)
      (fun _ w => Held pid mm fr w.mapView) := by
  -- the counter of the old frame may be missing, and then nothing was taken yet
  refine Triple.ite (fun _ => Triple.throw fun _ h => h.1) fun _ => ?_
  refine Triple.bind allocPageFrameNoCleanup_held fun slot => ?_
  refine Triple.bind (blind_both (by simp) fun _ h => h.toHeld) fun _ => ?_
  refine Triple.bind (copyFramePage_held hold) fun _ => ?_
  refine Triple.bind (blind_both (by simp) fun _ h => h.toHeld) fun _ => ?_
  refine Triple.bind (blind_both (by simp) fun _ h => h.toHeld) fun _ => ?_
  refine Triple.bind (R := fun _ w => HeldWith pid (mm.setCopied v slot perms) fr slot
    g.data w.mapView)
    (Triple.modify fun w h => ⟨h.toHeld.modifyMm (·.setCopied v slot perms), h.fresh, h.frame⟩)
    fun _ => ?_
  -- the release of the old frame cannot fail, and it leaves the new one
  refine fun w h => ⟨fun _ _ => ⟨slot, ?_⟩, fun e he =>
    absurd he (releaseProcessFrameSlot_total pid old w e)⟩
  have hne : slot ≠ old := by
    rintro rfl
    rw [h.fresh] at hold
    cases hold
  rw [releaseProcessFrameSlot_view pid old w]
  refine ⟨⟨?_, ?_⟩, ?_, ?_⟩
  · rw [MapView.release_mms]
    exact h.mms
  · intro s f hs
    by_cases hs' : s = old
    · rw [if_pos hs'] at hs
      cases hs
    · rw [if_neg hs'] at hs
      rw [MapView.release_frames_ne _ hs']
      exact h.frames s f hs
  · rw [if_neg hne]
    exact h.fresh
  · rw [MapView.release_frames_ne _ hne]
    exact h.frame

end Commands

/-! ### A fault in the heap -/

/-- The address is in a page of the heap, or `page_fault` makes one for it. -/
def MmState.HeapFault (mm : MmState) (a : Nat) : Prop :=
  (∃ m, mm.lookupMemoryMap a = some m ∧ m.memType = .heap) ∨
    mm.lookupMemoryMap a = none ∧ classifyFault mm a (alignDown a) = .heapLazy

/-- What a fault in the heap leaves behind: no process, the table as it was, other permissions in
an entry, a copied page, or a new page. -/
inductive HeapOutcome (pid : Nat) (mm : MmState) (fr : Nat → Option Frame) (a : Nat) (w : World) :
    Prop where
  | gone (h : w.live pid = false)
  | kept (h : Held pid mm fr w.mapView)
  | perms (v : Nat) (p : Perms) (h : Held pid { mm with
      memoryMaps := mm.memoryMaps.modify v fun m => { m with flags := p } } fr w.mapView)
  | copied (m : MemoryMap) (hm : mm.memoryMaps.get? m.vaddr = some m) (g : Frame)
      (hg : fr m.frameCap = some g) (slot : Nat) (p : Perms)
      (h : HeldWith pid (mm.setCopied m.vaddr slot p)
        (fun s => if s = m.frameCap then none else fr s) slot g.data w.mapView)
  | added (hmiss : mm.lookupMemoryMap a = none) (slot : Nat)
      (h : HeldWith pid (mm.addMemoryMap (pageEntry (alignDown a) Perms.RW .heap slot)) fr slot
        (fun _ => 0) w.mapView)

/-- A fault at a heap page that is missing ends the process, or makes the page when it returns. -/
theorem pageFault_missing {w₀ : World} {pid a : Nat} {mm : MmState} (cause : FaultCause)
    (hmm : w₀.mms.get? pid = some mm) (hmiss : mm.lookupMemoryMap a = none)
    (hclass : classifyFault mm a (alignDown a) = .heapLazy) (hzero : ZeroFrames w₀.env) :
    Triple (fun w => w = w₀) (pageFault pid a cause)
      (fun _ w => w.live pid = false ∨ ∃ slot, HeldWith pid
        (mm.addMemoryMap (pageEntry (alignDown a) Perms.RW .heap slot)) w₀.frames slot (fun _ => 0)
        w.mapView)
      (fun _ w => w.live pid = false ∨ Held pid mm w₀.frames w.mapView) := by
  refine Triple.bind (getProcess_known hmm) fun t => Triple.of_pre fun w₁ h₁ => ?_
  obtain ⟨rfl, hstate⟩ := h₁
  rw [hstate, hmiss]
  show Triple _ (faultOutside pid cause mm a) _ _
  rw [faultOutside, hclass]
  refine Triple.ite ?_ fun _ => ?_
  · intro _ w _
    have hgone := terminateProcess_gone pid (getExitCodeForSignal SIGSEGV) w
    exact ⟨fun _ _ => .inl hgone, fun _ _ => .inl hgone⟩
  · have hstart : ∀ w, w = w₁ → Held pid mm w₁.frames w.mapView ∧ ZeroFrames w.env := by
      rintro w rfl
      exact ⟨⟨hmm, fun _ _ h => h⟩, hzero⟩
    exact (mapFaultPage_held (alignDown a)).imp hstart (fun _ _ h => .inr h) fun _ _ h => .inr h

/-- What a fault in the heap leaves behind, when it returns and when it fails. -/
theorem pageFault_outcome {w₀ : World} {pid a : Nat} {mm : MmState} (cause : FaultCause)
    (hinv : FrameInv w₀) (hmm : w₀.mms.get? pid = some mm) (hsound : mm.Sound)
    (hfault : mm.HeapFault a) (hzero : ZeroFrames w₀.env) :
    Triple (fun w => w = w₀) (pageFault pid a cause)
      (fun _ => HeapOutcome pid mm w₀.frames a) (fun _ => HeapOutcome pid mm w₀.frames a) := by
  have hheld : ∀ w, w = w₀ → Held pid mm w₀.frames w.mapView ∧ ZeroFrames w.env := by
    rintro w rfl
    exact ⟨⟨hmm, fun _ _ h => h⟩, hzero⟩
  -- a fault that is not resolved ends the process
  have hterm : Triple (fun w => w = w₀) (terminateBySignal pid SIGSEGV)
      (fun _ => HeapOutcome pid mm w₀.frames a) (fun _ => HeapOutcome pid mm w₀.frames a) :=
    fun w _ => ⟨fun _ _ => .gone (terminateProcess_gone pid _ w),
      fun _ _ => .gone (terminateProcess_gone pid _ w)⟩
  rcases hfault with ⟨m, hm, hheap⟩ | ⟨hmiss, hclass⟩
  · -- the address is in an entry of the heap
    refine Triple.bind (getProcess_known hmm) fun t => Triple.of_pre fun w₁ h₁ => ?_
    obtain ⟨rfl, hstate⟩ := h₁
    rw [hstate]
    obtain ⟨k, hk, -⟩ := get?_of_lookup hm
    have hkey : m.vaddr = k := hsound.key .mapped k m hk
    obtain ⟨g, hg⟩ := Option.isSome_iff_exists.mp (hinv.live_frame hmm hk)
    rw [hm]
    -- the three answers of the code: a copy-on-write page, a denied access, stale permissions
    refine Triple.ite (fun _ => Triple.ite (fun _ => hterm) fun _ => ?_) fun _ => Triple.ite
      (fun _ => ?_) fun _ => ?_
    · refine (resolveCowFault_held m.vaddr m.flags hg).imp hheld (fun _ w h => ?_) fun _ w h =>
        .kept h
      obtain ⟨slot, h⟩ := h
      exact .copied m (hkey ▸ hk) g hg slot m.flags h
    · rw [hheap]
      exact hterm
    · exact (remapExistingPage_held _ _ _ _).imp (fun w h => (hheld w h).1)
        (fun _ w h => .perms _ _ h) fun _ w h => .kept h
  · -- the page is made
    refine (pageFault_missing cause hmm hmiss hclass hzero).imp (fun _ h => h) (fun _ w h => ?_)
      fun _ w h => h.elim .gone .kept
    rcases h with hgone | ⟨slot, h⟩
    · exact .gone hgone
    · exact .added hmiss slot h

/-- The byte of a heap page of a process. -/
def World.heapByte (pid : Nat) (w : World) (a : Nat) : Option UInt8 :=
  (w.mms.get? pid).bind fun mm => mm.heapByte w.frames a

/-- The state in which the heap of the process is as the faults make it. -/
structure World.HeapOk (pid : Nat) (w : World) : Prop where
  frames : FrameInv w
  sound : ∀ mm, w.mms.get? pid = some mm → mm.Sound
  pages : ∀ mm, w.mms.get? pid = some mm → mm.HeapPages

/-- The byte of the heap is read through the tables of the process. -/
theorem World.heapByte_eq {w : World} {pid : Nat} {mm : MmState} (hmm : w.mms.get? pid = some mm)
    (a : Nat) : w.heapByte pid a = mm.heapByte w.frames a := by
  rw [World.heapByte, hmm]
  rfl

/-- The heap has one more page, the page of an address, and it reads zero. -/
structure NewHeapPage (pid a : Nat) (w w' : World) : Prop where
  missing : ∀ x, x / PGSIZE = a / PGSIZE → w.heapByte pid x = none
  bytes : ∀ x, w'.heapByte pid x = if x / PGSIZE = a / PGSIZE then some 0 else w.heapByte pid x

/-- A page that is made for a fault is a new page of the heap. -/
theorem HeldWith.newHeapPage {w₀ w : World} {pid a slot : Nat} {mm : MmState} (hok : w₀.HeapOk pid)
    (hmm : w₀.mms.get? pid = some mm) (hmiss : mm.lookupMemoryMap a = none)
    (h : HeldWith pid (mm.addMemoryMap (pageEntry (alignDown a) Perms.RW .heap slot)) w₀.frames slot
      (fun _ => 0) w.mapView)
    (hsound' : ∀ mm', w.mms.get? pid = some mm' → mm'.Sound) :
    (∀ mm', w.mms.get? pid = some mm' → mm'.HeapPages) ∧ NewHeapPage pid a w₀ w := by
  -- the old entries keep their frames, so the old bytes are read through the same lookups
  have hsound := hok.sound mm hmm
  have hsame : ∀ k m, mm.memoryMaps.get? k = some m →
      w.mapView.frames m.frameCap = w₀.frames m.frameCap := by
    intro k m hk
    obtain ⟨g, hg⟩ := Option.isSome_iff_exists.mp (hok.frames.live_frame hmm hk)
    rw [hg]
    exact h.frames _ _ hg
  have hbefore := fun x => World.heapByte_eq hmm x
  have hdown : alignDown a / PGSIZE = a / PGSIZE := by
    unfold alignDown PGSIZE
    omega
  -- no byte was there before on the new page, and it reads zero now
  refine ⟨?_, ?_, ?_⟩
  · intro mm' hmm'
    rw [Option.some.inj (hmm'.symm.trans h.mms)]
    exact (hok.pages mm hmm).add _ slot _
  · intro x hx
    rw [hbefore, MmState.heapByte, hsound.lookup_none hmiss hx]
    rfl
  · intro x
    rw [World.heapByte_eq h.mms, hbefore, ← hdown]
    refine MmState.heapByte_added hsound (hsound' _ h.mms) (alignDown_page a)
      (hsound.lookup_none hmiss hdown) hsame h.frame x

/-- A fault in the heap leaves no process behind, or the bytes of the heap, or one more page. -/
theorem HeapOutcome.bytes {w₀ w : World} {pid a : Nat} {mm : MmState} (hok : w₀.HeapOk pid)
    (hmm : w₀.mms.get? pid = some mm) (h : HeapOutcome pid mm w₀.frames a w)
    (hsound' : ∀ mm', w.mms.get? pid = some mm' → mm'.Sound) :
    w.live pid = false ∨ (∀ mm', w.mms.get? pid = some mm' → mm'.HeapPages) ∧
      ((∀ x, w.heapByte pid x = w₀.heapByte pid x) ∨ NewHeapPage pid a w₀ w) := by
  have hsound := hok.sound mm hmm
  have hpages := hok.pages mm hmm
  have hlive : ∀ k m, mm.memoryMaps.get? k = some m → ∃ g, w₀.frames m.frameCap = some g :=
    fun k m hk => Option.isSome_iff_exists.mp (hok.frames.live_frame hmm hk)
  -- the frames of the entries are those of before, unless the entry was copied
  have hsame : ∀ {fr' : Nat → Option Frame}, (∀ s f, w₀.frames s = some f → fr' s = some f) →
      ∀ k m, mm.memoryMaps.get? k = some m → fr' m.frameCap = w₀.frames m.frameCap := by
    intro fr' hfr k m hk
    obtain ⟨g, hg⟩ := hlive k m hk
    rw [hg]
    exact hfr _ _ hg
  have hbefore := fun x => World.heapByte_eq hmm x
  cases h with
  | gone h => exact .inl h
  | kept h =>
    refine .inr ⟨?_, .inl ?_⟩
    · intro mm' hmm'
      rw [Option.some.inj (hmm'.symm.trans h.mms)]
      exact hpages
    · intro x
      rw [World.heapByte_eq h.mms, hbefore]
      exact MmState.heapByte_frames (hsame h.frames) x
  | perms v p h =>
    refine .inr ⟨?_, .inl ?_⟩
    · intro mm' hmm'
      rw [Option.some.inj (hmm'.symm.trans h.mms)]
      exact hpages.modify v fun _ => ⟨rfl, rfl⟩
    · intro x
      rw [World.heapByte_eq h.mms, hbefore, MmState.heapByte_setPerms (hsound.key .mapped)]
      exact MmState.heapByte_frames (hsame h.frames) x
  | copied m hm g hg slot p h =>
    refine .inr ⟨?_, .inl ?_⟩
    · intro mm' hmm'
      rw [Option.some.inj (hmm'.symm.trans h.mms)]
      exact hpages.modify m.vaddr fun _ => ⟨rfl, rfl⟩
    · intro x
      rw [World.heapByte_eq h.mms, hbefore]
      refine MmState.heapByte_setCopied hsound hpages (hok.frames.uses_le_one hmm) hm ?_ ?_ x
      · intro k e hk hne
        obtain ⟨f, hf⟩ := hlive k e hk
        rw [hf]
        exact h.frames _ f (by rw [if_neg hne, hf])
      · intro o ho
        obtain ⟨f, hf, hdata⟩ := h.frame
        rw [show w.frames slot = some f from hf, hg, Option.map_some, Option.map_some, hdata o ho]
  | added hmiss slot h =>
    obtain ⟨hnew, hpage⟩ := h.newHeapPage hok hmm hmiss hsound'
    exact .inr ⟨hnew, .inr hpage⟩

/-! ### Runs -/

/-- What happens to a heap: a `brk` call, a page fault, or a store of the process. -/
inductive HeapStep where
  | brk (addr : Nat)
  | fault (addr : Nat) (cause : FaultCause)
  | store (addr : Nat) (byte : UInt8)

/-- One step. The services may refuse every call of it, and they give out frames that are filled
with zeros. A fault is in the heap, and a store goes to a heap page that is not shared. -/
inductive HeapStepped (pid : Nat) : World → HeapStep → World → Prop where
  | brk {w : World} {env : Nat → Ext} (addr : Nat) :
      HeapStepped pid w (.brk addr) ((doBrk pid addr).run (w.withEnv env)).2
  | fault {w : World} {env : Nat → Ext} {mm : MmState} (addr : Nat) (cause : FaultCause)
      (hmm : w.mms.get? pid = some mm) (hfault : mm.HeapFault addr) (hzero : ZeroFrames env) :
      HeapStepped pid w (.fault addr cause) ((pageFault pid addr cause).run (w.withEnv env)).2
  | store {w : World} {m : MemoryMap} (addr : Nat) (byte : UInt8)
      (hm : w.lookup pid addr = some m) (hheap : m.memType = .heap)
      (hwrite : m.flags.write = true) (hcow : m.cow = false) :
      HeapStepped pid w (.store addr byte)
        (w.writeFrame m.frameCap fun o b => if o = addr - m.vaddr then byte else b)

/-- A run of steps. -/
inductive HeapRun (pid : Nat) : World → List HeapStep → World → Prop where
  | nil (w : World) : HeapRun pid w [] w
  | cons {w w₁ w' : World} {s : HeapStep} {steps : List HeapStep} :
      HeapStepped pid w s w₁ → HeapRun pid w₁ steps w' → HeapRun pid w (s :: steps) w'

/-- What one step does to a byte of the heap. -/
def HeapStep.after (x : Nat) : HeapStep → UInt8 → UInt8
  | .store a v, b => if a = x then v else b
  | .brk _, b => b
  | .fault _ _, b => b

/-- The byte at an address after the steps, when it was `b` before them: the one that they store
last, or `b`. -/
def lastStored (x : Nat) (steps : List HeapStep) (b : UInt8) : UInt8 :=
  steps.foldl (fun b s => s.after x b) b

/-- `do_brk` moves the break to an address of the heap, and answers with the break. -/
theorem run_doBrk {w : World} {pid : Nat} {mm : MmState} (hmm : w.mms.get? pid = some mm)
    (addr : Nat) :
    (doBrk pid addr).run w =
      if addr = 0 ∨ addr < mm.heapStart ∨ mm.heapLimit < addr then (.ok mm.heapBrk, w)
      else (.ok addr, w.modifyMm pid fun mm => { mm with heapBrk := addr }) := by
  obtain ⟨t, hget, rfl⟩ := run_getProcess_known hmm
  rw [doBrk, run_bind_ok hget]
  by_cases h0 : addr = 0
  · rw [if_pos h0, if_pos (Or.inl h0)]
    rfl
  by_cases hout : addr < t.mm.state.heapStart ∨ t.mm.state.heapLimit < addr
  · rw [if_neg h0, if_pos hout, if_pos (Or.inr hout)]
    rfl
  · rw [if_neg h0, if_neg hout, if_neg (not_or.mpr ⟨h0, hout⟩)]
    rfl

/-- `do_brk` moves the break, or does nothing. -/
theorem doBrk_moves (pid addr : Nat) (w : World) :
    ((doBrk pid addr).run w).2 = w ∨
      ((doBrk pid addr).run w).2 = w.modifyMm pid fun mm => { mm with heapBrk := addr } := by
  cases ht : w.task? pid with
  | none =>
    have hrun : (getProcess pid).run w = (.error .notFound, w) := by
      rw [getProcess, run_gets_bind, ht]
      rfl
    rw [doBrk, run_bind_error hrun]
    exact .inl rfl
  | some t =>
    rw [doBrk, run_bind_ok (run_getProcess ht)]
    by_cases h0 : addr = 0
    · rw [if_pos h0]
      exact .inl rfl
    · rw [if_neg h0]
      by_cases hout : addr < t.mm.state.heapStart ∨ t.mm.state.heapLimit < addr
      · rw [if_pos hout]
        exact .inl rfl
      · rw [if_neg hout]
        exact .inr rfl

/-- The break is not read when a byte of the heap is. -/
theorem World.heapByte_moved (w : World) (pid addr a : Nat) :
    (w.modifyMm pid fun mm => { mm with heapBrk := addr }).heapByte pid a = w.heapByte pid a := by
  rw [World.heapByte, World.heapByte, World.mms_modifyMm, OrdMap.get?_modify, if_pos rfl]
  cases w.mms.get? pid <;> rfl

/-- `brk` changes no byte of the heap. -/
theorem doBrk_heapByte (pid addr a : Nat) (w : World) :
    ((doBrk pid addr).run w).2.heapByte pid a = w.heapByte pid a := by
  rcases doBrk_moves pid addr w with h | h
  · rw [h]
  · rw [h, World.heapByte_moved]

/-- A store changes the byte of its address. -/
theorem World.HeapOk.heapByte_store {w : World} {pid addr : Nat} {m : MemoryMap}
    (hok : w.HeapOk pid) (hm : w.lookup pid addr = some m) (byte : UInt8) (x : Nat) :
    (w.writeFrame m.frameCap fun o b => if o = addr - m.vaddr then byte else b).heapByte pid x
      = (w.heapByte pid x).map fun b => if addr = x then byte else b := by
  obtain ⟨mm, hmm, hlook⟩ := Option.bind_eq_some_iff.mp hm
  have hsound := hok.sound mm hmm
  obtain ⟨k, hk, hlo, -⟩ := (hsound.entryAt_iff .mapped).mp hlook
  let w' := w.writeFrame m.frameCap fun o b => if o = addr - m.vaddr then byte else b
  have hmm' : w'.mms.get? pid = some mm := hmm
  -- the store goes through one entry, and the byte at `x` is read through another or the same one
  rw [World.heapByte_eq hmm', World.heapByte_eq hmm, MmState.heapByte, MmState.heapByte]
  cases hfound : mm.lookupMemoryMap x with
  | none => rfl
  | some e =>
    obtain ⟨j, hj, hxlo, -⟩ := (hsound.entryAt_iff .mapped).mp hfound
    rw [Option.bind_some, Option.bind_some]
    by_cases hheap : e.memType = .heap
    · rw [if_pos hheap, if_pos hheap]
      by_cases hcap : e.frameCap = m.frameCap
      · -- the frame has one entry in the table
        have hjk : j = k := MmState.entry_of_frame (hok.frames.uses_le_one hmm) hk hj hcap
        subst hjk
        obtain rfl : e = m := Option.some.inj (hj.symm.trans hk)
        have hframe : w'.frames e.frameCap = (w.frames e.frameCap).map fun fr =>
            { fr with data := fun o => if o = addr - e.vaddr then byte else fr.data o } :=
              if_pos rfl
        rw [hframe, Option.map_map, Option.map_map]
        refine congrArg (Option.map · _) (funext fun fr => ?_)
        show (if x - e.vaddr = addr - e.vaddr then byte else fr.data (x - e.vaddr)) = _
        -- in one frame, the two offsets agree exactly when the two addresses do
        by_cases hx : addr = x
        · subst hx
          simp
        · rw [if_neg (by omega)]
          simp [hx]
      -- in another frame nothing was written, and the addresses are in different entries
      · have hframe : w'.frames e.frameCap = w.frames e.frameCap := if_neg hcap
        have hx : addr ≠ x := by
          rintro rfl
          rw [hlook] at hfound
          exact hcap (congrArg MemoryMap.frameCap (Option.some.inj hfound).symm)
        rw [hframe, Option.map_map]
        exact congrArg (Option.map · _) (funext fun fr => (if_neg hx).symm)
    · rw [if_neg hheap, if_neg hheap]
      rfl

/-- The table of the process is sound after a command that keeps it so. -/
theorem World.HeapOk.sound_after {w : World} {pid : Nat} (hok : w.HeapOk pid) {α : Type} {c : M α}
    (hc : Keeps (AllTabs (fun q => q = pid) True) c) (env : Nat → Ext) :
    ∀ mm, (c.run (w.withEnv env)).2.mms.get? pid = some mm → mm.Sound := by
  have hall : AllTabs (fun q => q = pid) True (w.withEnv env) := by
    rintro q mm rfl hq
    have hsound := hok.sound mm hq
    exact ⟨hsound.aligned, fun _ => hsound⟩
  exact fun mm hmm => (hc _ hall pid mm rfl hmm).2 trivial

/-- What a fault in the heap does. -/
theorem World.HeapOk.faulted {w : World} {pid addr : Nat} {mm : MmState} (hok : w.HeapOk pid)
    (cause : FaultCause) {env : Nat → Ext} (hmm : w.mms.get? pid = some mm)
    (hfault : mm.HeapFault addr) (hzero : ZeroFrames env) :
    let w' := ((pageFault pid addr cause).run (w.withEnv env)).2
    w'.live pid = false ∨ (∀ mm', w'.mms.get? pid = some mm' → mm'.HeapPages) ∧
      ((∀ x, w'.heapByte pid x = w.heapByte pid x) ∨ NewHeapPage pid addr w w') := by
  have hok' : (w.withEnv env).HeapOk pid := ⟨hok.frames, hok.sound, hok.pages⟩
  have houtcome := Triple.ends (pageFault_outcome cause hok'.frames hmm (hok.sound mm hmm) hfault
    hzero) rfl
  have hbytes := houtcome.bytes hok' hmm (hok.sound_after (pageFault_allTabs (S := fun q => q = pid)
    rfl addr cause) env)
  refine hbytes.imp id (And.imp id (Or.imp id fun h => ⟨h.missing, h.bytes⟩))

/-- A byte of every page that has a heap entry is there. -/
theorem World.HeapOk.heapByte_isSome {w : World} {pid addr x : Nat} {mm : MmState} {m : MemoryMap}
    (hok : w.HeapOk pid) (hmm : w.mms.get? pid = some mm) (hm : mm.lookupMemoryMap addr = some m)
    (hheap : m.memType = .heap) (hx : x / PGSIZE = addr / PGSIZE) : (w.heapByte pid x).isSome := by
  have hsound := hok.sound mm hmm
  obtain ⟨k, hk, hlo, hhi⟩ := (hsound.entryAt_iff .mapped).mp hm
  have hsize : m.size = PGSIZE := hok.pages mm hmm k m hk hheap
  have hpage : m.vaddr % PGSIZE = 0 := (hsound.paged .mapped k m hk).1
  have hin : m.Contains x := by
    unfold MemoryMap.Contains
    rw [hsize] at hhi ⊢
    unfold PGSIZE at *
    omega
  have hlook : mm.lookupMemoryMap x = some m := hsound.entryAt_eq (l := .mapped) hk hin
  obtain ⟨g, hg⟩ := Option.isSome_iff_exists.mp (hok.frames.live_frame hmm hk)
  rw [World.heapByte_eq hmm, MmState.heapByte, hlook, Option.bind_some, if_pos hheap, hg]
  rfl

/-- After a fault in the heap that returns, the page is there: it reads what it read, or zeros. -/
theorem World.HeapOk.served {w : World} {pid addr : Nat} {mm : MmState} (hok : w.HeapOk pid)
    (cause : FaultCause) {env : Nat → Ext} (hmm : w.mms.get? pid = some mm)
    (hfault : mm.HeapFault addr) (hzero : ZeroFrames env)
    (hret : ((pageFault pid addr cause).run (w.withEnv env)).1 = .ok ())
    (hlive : ((pageFault pid addr cause).run (w.withEnv env)).2.live pid = true) {x : Nat}
    (hx : x / PGSIZE = addr / PGSIZE) :
    ((pageFault pid addr cause).run (w.withEnv env)).2.heapByte pid x
      = some ((w.heapByte pid x).getD 0) := by
  let w' : World := ((pageFault pid addr cause).run (w.withEnv env)).2
  have hok' : (w.withEnv env).HeapOk pid := ⟨hok.frames, hok.sound, hok.pages⟩
  have hsound' : ∀ mm', w'.mms.get? pid = some mm' → mm'.Sound :=
    hok.sound_after (pageFault_allTabs (S := fun q => q = pid) rfl addr cause) env
  -- a page that was there keeps its byte; one that was not there reads zero
  rcases hfault with ⟨m, hm, hheap⟩ | ⟨hmiss, hclass⟩
  · -- the page was there
    obtain ⟨b, hb⟩ := Option.isSome_iff_exists.mp (hok.heapByte_isSome hmm hm hheap hx)
    rw [hb]
    rcases hok.faulted cause hmm (.inl ⟨m, hm, hheap⟩) hzero with hdead | ⟨-, hsame | hnew⟩
    · rw [hdead] at hlive
      cases hlive
    · exact (hsame x).trans hb
    · rw [hnew.missing x hx] at hb
      cases hb
  -- a fault that returns and leaves the process there has put the page in
  · have hmm' : (w.withEnv env).mms.get? pid = some mm := hmm
    rcases (pageFault_missing cause hmm' hmiss hclass hzero _ rfl).1 () hret with hdead | ⟨slot, h⟩
    · rw [hdead] at hlive
      cases hlive
    · have hnew := (h.newHeapPage hok' hmm hmiss hsound').2
      have hmissing : w.heapByte pid x = none := hnew.missing x hx
      rw [hnew.bytes, if_pos hx, hmissing]
      rfl

/-- A process that is gone has no table. -/
theorem World.mms_of_dead {w : World} {pid : Nat} (h : w.live pid = false) :
    w.mms.get? pid = none := by
  rw [World.get?_mms, Option.map_eq_none_iff]
  exact Option.isNone_iff_eq_none.mp (Option.isSome_eq_false_iff.mp h)

/-- A step of a heap keeps its invariant. -/
theorem HeapStepped.ok {pid : Nat} {w w' : World} {s : HeapStep} (h : HeapStepped pid w s w')
    (hok : w.HeapOk pid) : w'.HeapOk pid := by
  cases h with
  | @brk env addr =>
    have hbrk : Keeps (AllTabs (fun q => q = pid) True) (doBrk pid addr) :=
      allTabs_keeps rfl (doBrk_tabs addr)
    refine ⟨doBrk_keeps pid addr _ hok.frames, hok.sound_after hbrk env, ?_⟩
    -- `brk` moves the break and leaves the entries
    intro mm hmm
    rcases doBrk_moves pid addr (w.withEnv env) with heq | heq <;> rw [heq] at hmm
    · exact hok.pages mm hmm
    · rw [World.mms_modifyMm, OrdMap.get?_modify, if_pos rfl] at hmm
      obtain ⟨mm₀, hmm₀, rfl⟩ := Option.map_eq_some_iff.mp hmm
      exact hok.pages mm₀ hmm₀
  | @fault env mm addr cause hmm hfault hzero =>
    refine ⟨pageFault_keeps pid addr cause _ hok.frames,
      hok.sound_after (pageFault_allTabs (S := fun q => q = pid) rfl addr cause) env, ?_⟩
    -- a dead process has no tables, and a fault that was served has sound ones
    rcases hok.faulted cause hmm hfault hzero with hdead | h
    · intro mm' hmm'
      rw [World.mms_of_dead hdead] at hmm'
      cases hmm'
    · exact h.1
  | store addr byte hm hheap hwrite hcow =>
    exact ⟨(BlindBytes.writeFrame (V := FrameInv) w _ _).mpr hok.frames, hok.sound, hok.pages⟩

/-- A run of a heap keeps its invariant. -/
theorem HeapRun.ok {pid : Nat} {w w' : World} {steps : List HeapStep} (h : HeapRun pid w steps w')
    (hok : w.HeapOk pid) : w'.HeapOk pid := by
  induction h with
  | nil => exact hok
  | cons hstep _ ih => exact ih (hstep.ok hok)

/-- A process that is gone stays gone. -/
theorem HeapStepped.dead {pid : Nat} {w w' : World} {s : HeapStep} (h : HeapStepped pid w s w')
    (hdead : w.live pid = false) : w'.live pid = false := by
  have hnone := World.mms_of_dead hdead
  cases h with
  | @brk env addr =>
    rw [doBrk_frames (V := World.live pid)]
    exact hdead
  | fault addr cause hmm =>
    rw [hnone] at hmm
    cases hmm
  | store addr byte hm =>
    rw [World.lookup, hnone] at hm
    cases hm

/-- A byte of the heap stays, unless the step stores at its address. -/
theorem HeapStepped.stays {pid : Nat} {w w' : World} {s : HeapStep} (h : HeapStepped pid w s w')
    (hok : w.HeapOk pid) (hlive : w'.live pid = true) {x : Nat} {b : UInt8}
    (hx : w.heapByte pid x = some b) : w'.heapByte pid x = some (s.after x b) := by
  cases h with
  | brk addr =>
    rw [doBrk_heapByte]
    exact hx
  | fault addr cause hmm hfault hzero =>
    rcases hok.faulted cause hmm hfault hzero with hdead | ⟨-, hsame | hnew⟩
    · rw [hdead] at hlive
      cases hlive
    · rw [hsame]
      exact hx
    · rw [hnew.bytes, if_neg fun hpage => ?_]
      · exact hx
      · rw [hnew.missing x hpage] at hx
        cases hx
  | store addr byte hm =>
    rw [hok.heapByte_store hm, hx]
    rfl

/-- A byte that is not in the heap stays outside, unless the step is a fault in its page. Then
it reads zero. -/
theorem HeapStepped.appears {pid : Nat} {w w' : World} {s : HeapStep} (h : HeapStepped pid w s w')
    (hok : w.HeapOk pid) (hlive : w'.live pid = true) {x : Nat} (hx : w.heapByte pid x = none) :
    w'.heapByte pid x = none ∨
      ∃ a c, s = .fault a c ∧ x / PGSIZE = a / PGSIZE ∧ w'.heapByte pid x = some 0 := by
  cases h with
  | brk addr =>
    rw [doBrk_heapByte]
    exact .inl hx
  | fault addr cause hmm hfault hzero =>
    rcases hok.faulted cause hmm hfault hzero with hdead | ⟨-, hsame | hnew⟩
    · rw [hdead] at hlive
      cases hlive
    · rw [hsame]
      exact .inl hx
    · by_cases hpage : x / PGSIZE = addr / PGSIZE
      · exact .inr ⟨addr, cause, rfl, hpage, by rw [hnew.bytes, if_pos hpage]⟩
      · rw [hnew.bytes, if_neg hpage]
        exact .inl hx
  | store addr byte hm =>
    rw [hok.heapByte_store hm, hx]
    exact .inl rfl

/-- A process that is there at the end of a run was there all the time. -/
theorem HeapRun.live {pid : Nat} {w w' : World} {steps : List HeapStep} (h : HeapRun pid w steps w')
    (hlive : w'.live pid = true) : w.live pid = true := by
  induction h with
  | nil => exact hlive
  | cons hstep _ ih =>
    by_contra hdead
    have hgone := hstep.dead (Bool.eq_false_of_not_eq_true hdead)
    rw [ih hlive] at hgone
    cases hgone

/-- A byte of the heap stays in it over a run, with the byte that the run stores last. -/
theorem HeapRun.stays {pid : Nat} {w w' : World} {steps : List HeapStep}
    (h : HeapRun pid w steps w') (hok : w.HeapOk pid) (hlive : w'.live pid = true) {x : Nat}
    {b : UInt8} (hx : w.heapByte pid x = some b) :
    w'.heapByte pid x = some (lastStored x steps b) := by
  induction h generalizing b with
  | nil => exact hx
  | cons hstep hrest ih => exact ih (hstep.ok hok) hlive (hstep.stays hok (hrest.live hlive) hx)

/-- A byte that is not in the heap comes into it with the first fault in its page, as zero. -/
theorem HeapRun.appears {pid : Nat} {w w' : World} {steps : List HeapStep}
    (h : HeapRun pid w steps w') (hok : w.HeapOk pid) (hlive : w'.live pid = true) {x : Nat}
    (hx : w.heapByte pid x = none) :
    w'.heapByte pid x = none ∨ ∃ before a c later, steps = before ++ .fault a c :: later ∧
      x / PGSIZE = a / PGSIZE ∧ w'.heapByte pid x = some (lastStored x later 0) := by
  induction h with
  | nil => exact .inl hx
  | @cons w w₁ w' s steps hstep hrest ih =>
    rcases hstep.appears hok (hrest.live hlive) hx with hx' | ⟨a, c, rfl, hpage, hx'⟩
    · rcases ih (hstep.ok hok) hlive hx' with hnone | ⟨before, a, c, later, rfl, hpage, hbyte⟩
      · exact .inl hnone
      · exact .inr ⟨s :: before, a, c, later, rfl, hpage, hbyte⟩
    · refine .inr ⟨[], a, c, steps, rfl, hpage, ?_⟩
      exact hrest.stays (hstep.ok hok) hlive hx'

/-- `do_brk` moves the break to any address of the heap and changes nothing else. So in every run,
wherever the break goes, a byte of the heap stays in it and reads what was stored there last, and a
byte that was not in it reads as zero from the first fault in its page on. A fault in the heap that
returns has its page there. -/
theorem shrunk_heap_stays {pid : Nat} {w w' : World} {steps : List HeapStep} (hok : w.HeapOk pid)
    (hrun : HeapRun pid w steps w') (hlive : w'.live pid = true) :
    (∀ env addr mm, w'.mms.get? pid = some mm →
      (doBrk pid addr).run (w'.withEnv env) =
        if addr = 0 ∨ addr < mm.heapStart ∨ mm.heapLimit < addr then
          (.ok mm.heapBrk, w'.withEnv env)
        else (.ok addr, (w'.withEnv env).modifyMm pid fun mm => { mm with heapBrk := addr })) ∧
    (∀ x b, w.heapByte pid x = some b → w'.heapByte pid x = some (lastStored x steps b)) ∧
    (∀ x, w.heapByte pid x = none → w'.heapByte pid x = none ∨
      ∃ before a c later, steps = before ++ .fault a c :: later ∧ x / PGSIZE = a / PGSIZE ∧
        w'.heapByte pid x = some (lastStored x later 0)) ∧
    ∀ env addr cause mm, w'.mms.get? pid = some mm → mm.HeapFault addr → ZeroFrames env →
      ((pageFault pid addr cause).run (w'.withEnv env)).1 = .ok () →
      ((pageFault pid addr cause).run (w'.withEnv env)).2.live pid = true →
      ∀ x, x / PGSIZE = addr / PGSIZE →
        ((pageFault pid addr cause).run (w'.withEnv env)).2.heapByte pid x
          = some ((w'.heapByte pid x).getD 0) := by
  have hok' : w'.HeapOk pid := hrun.ok hok
  refine ⟨fun env addr mm hmm => run_doBrk (w := w'.withEnv env) hmm addr,
    fun _ _ hx => hrun.stays hok hlive hx, fun _ hx => hrun.appears hok hlive hx, ?_⟩
  intro env addr cause mm hmm hfault hzero hret halive x hx
  exact hok'.served cause hmm hfault hzero hret halive hx

/-- Services as in the small run, which give out frames that are filled with zeros. -/
def zeroEnv (n : Nat) : Ext := ⟨none, n + 1000, fun _ => 0⟩

/-- `init` has raised the break by a page. -/
def sampleRaised : World := ((doBrk 1 0x10001000).run (sampleBoot.withEnv zeroEnv)).2

/-- It touches the page. -/
def sampleTouched : World := ((pageFault 1 0x10000000 .store).run (sampleRaised.withEnv zeroEnv)).2

/-- Its entry for the page. -/
def sampleHeapEntry : MemoryMap :=
  (sampleTouched.lookup 1 0x10000000).getD (lazyEntry 0 Perms.R .heap none 0)

/-- It stores a byte there. -/
def sampleStored : World :=
  sampleTouched.writeFrame sampleHeapEntry.frameCap fun o b =>
    if o = 0x10000000 - sampleHeapEntry.vaddr then 7 else b

/-- The heap of the sample is in order after its boot. -/
theorem sampleBoot_heapOk : sampleBoot.HeapOk 1 := by
  obtain ⟨mm, hmm, hsound⟩ := @World.sound_of_check sampleBoot 1 (by decide +kernel)
  have hnone : (sampleBoot.mms.get? 1).map (fun mm => mm.memoryMaps.values.all fun m =>
      m.memType ≠ .heap) = some true := by decide +kernel
  rw [hmm] at hnone
  have hall := List.all_eq_true.mp (Option.some.inj hnone)
  refine ⟨sampleBoot_reachable.frameInv, fun mm' hmm' => ?_, fun mm' hmm' k m hk hheap => ?_⟩ <;>
    obtain rfl := Option.some.inj (hmm.symm.trans hmm')
  · exact hsound
  · exact absurd hheap (of_decide_eq_true (hall m (OrdMap.mem_values.mpr ⟨k, hk⟩)))

/-- The fault of the sample is in the heap. -/
theorem sampleRaised_heapFault :
    ∃ mm, sampleRaised.mms.get? 1 = some mm ∧ mm.HeapFault 0x10000000 := by
  have hcheck : (sampleRaised.mms.get? 1).map (fun mm =>
      (mm.lookupMemoryMap 0x10000000).isNone && (mm.lookupLazyMemoryMap 0x10000000).isNone &&
        decide (¬ (mm.stackBottom - mm.maxStackSize ≤ 0x10000000 ∧
          0x10000000 < mm.stackBottom - mm.stackSize)) &&
        decide (mm.heapStart ≤ 0x10000000 ∧ 0x10000000 < mm.heapBrk)) = some true := by
    decide +kernel
  obtain ⟨mm, hmm, hbool⟩ := Option.map_eq_some_iff.mp hcheck
  simp only [Bool.and_eq_true, Option.isNone_iff_eq_none, decide_eq_true_eq] at hbool
  obtain ⟨⟨⟨hmiss, hlazy⟩, hreserved⟩, hheap⟩ := hbool
  refine ⟨mm, hmm, .inr ⟨hmiss, ?_⟩⟩
  rw [classifyFault, hlazy]
  exact (if_neg hreserved).trans (if_pos hheap)

/-- The sample touches a page of its heap. -/
theorem sampleTouched_run :
    HeapRun 1 sampleBoot [.brk 0x10001000, .fault 0x10000000 .store] sampleTouched := by
  obtain ⟨mm, hmm, hfault⟩ := sampleRaised_heapFault
  exact .cons (.brk _) (.cons (.fault _ _ hmm hfault fun _ _ => rfl) (.nil _))

/-- `init` lowers the break and raises it again. The byte that it stored is still there. -/
theorem shrunk_heap_stays_sampleStored :
    ∃ w', HeapRun 1 sampleStored [.brk 0x10000000, .brk 0x10001000] w' ∧
      w'.heapByte 1 0x10000000 = some 7 := by
  have hlookup : sampleTouched.lookup 1 0x10000000 = some sampleHeapEntry := by
    have hsome : (sampleTouched.lookup 1 0x10000000).isSome := by decide +kernel
    obtain ⟨m, hm⟩ := Option.isSome_iff_exists.mp hsome
    rw [sampleHeapEntry, hm]
    rfl
  have htouched : sampleTouched.HeapOk 1 := by
    obtain ⟨mm, hmm, hfault⟩ := sampleRaised_heapFault
    exact (HeapStepped.fault _ _ hmm hfault fun _ _ => rfl).ok
      ((@HeapStepped.brk 1 sampleBoot zeroEnv _).ok sampleBoot_heapOk)
  have hstored : sampleStored.HeapOk 1 := by
    refine (HeapStepped.store 0x10000000 7 hlookup ?_ ?_ ?_).ok htouched <;> decide +kernel
  have hrun : HeapRun 1 sampleStored [.brk 0x10000000, .brk 0x10001000]
      ((doBrk 1 0x10001000).run ((((doBrk 1 0x10000000).run
        (sampleStored.withEnv zeroEnv)).2).withEnv
        zeroEnv)).2 := .cons (.brk _) (.cons (.brk _) (.nil _))
  refine ⟨_, hrun, ?_⟩
  exact (shrunk_heap_stays hstored hrun (by decide +kernel)).2.1 0x10000000 7 (by decide +kernel)

/-- The break goes down to the start of the heap, and the page of the heap is still there. -/
theorem brk_leaves_heap_page :
    Reachable sampleBoot ∧ ¬ ∀ (steps : List HeapStep) (w : World) (env : Nat → Ext) (a : Nat),
      HeapRun 1 sampleBoot steps w → ((doBrk 1 a).run (w.withEnv env)).1 = .ok a →
      ∀ mm k m, ((doBrk 1 a).run (w.withEnv env)).2.mms.get? 1 = some mm →
        mm.memoryMaps.get? k = some m → m.memType = .heap → k < alignUp a := by
  refine ⟨sampleBoot_reachable, ?_⟩
  intro hall
  have hentry : (((doBrk 1 0x10000000).run (sampleTouched.withEnv zeroEnv)).2.mms.get? 1).bind
      (fun mm => (mm.memoryMaps.get? 0x10000000).map fun m => m.memType) = some .heap := by
    decide +kernel
  obtain ⟨mm, hmm, hget⟩ := Option.bind_eq_some_iff.mp hentry
  obtain ⟨m, hm, hheap⟩ := Option.map_eq_some_iff.mp hget
  have hlt := hall _ sampleTouched zeroEnv 0x10000000 sampleTouched_run (by decide +kernel) mm _ m
    hmm hm hheap
  exact absurd hlt (by decide)

end Ape
