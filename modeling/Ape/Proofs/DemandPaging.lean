import Ape.Proofs.Brk
import Ape.Proofs.Cow

/-!
# `Ape.Proofs.DemandPaging`: a page fault is not seen by the memory of the processes

A fault makes pages for a process, gives an entry other permissions, or copies a shared page. None
of this takes a byte away from a process, and nothing of it is seen by the others.

Until the copy of a shared page takes its place, a fault only adds: `Enlarged` says that the other
tables and the frames are there as they were, and so are the ranges and the frames of the entries
of the process. The copy is the one step that exchanges a frame, `Swapped`. Both carry the memory:
every entry is still there and its frame holds the bytes it held.
-/

set_option autoImplicit false

namespace Ape

open Ape.Lib Cmd MmState

/-- What is left in a slot after a release was there. -/
theorem MapView.release_frames_some {v : MapView} {slot s : Nat} {f : Frame}
    (h : (v.release slot).frames s = some f) : v.frames s = some f := by
  by_cases hs : s = slot
  · subst hs
    unfold MapView.release at h
    split at h
    · split at h
      · exact h
      · simp at h
    · simp at h
  · rwa [MapView.release_frames_ne v hs] at h

/-! ### Tables that grow -/

/-- The table has every entry of `mm₀`, with its range and its frame. -/
def MmState.Extends (mm mm₀ : MmState) : Prop :=
  ∀ k m, mm₀.memoryMaps.get? k = some m →
    ∃ m', mm.memoryMaps.get? k = some m' ∧ m'.span = m.span ∧ m'.frameCap = m.frameCap

namespace MmState

variable {mm mm₀ : MmState}

/-- Tables extend themselves. -/
theorem Extends.refl (mm : MmState) : mm.Extends mm :=
  fun _ m hm => ⟨m, hm, rfl, rfl⟩

/-- The lazy entries and the regions do not matter. -/
theorem Extends.congr {mm' : MmState} (h : mm.Extends mm₀) (heq : mm'.memoryMaps = mm.memoryMaps) :
    mm'.Extends mm₀ := by
  intro k m hm
  rw [heq]
  exact h k m hm

/-- An entry at a key that had none. -/
theorem Extends.add (h : mm.Extends mm₀) {m : MemoryMap}
    (hfree : mm₀.memoryMaps.get? m.vaddr = none) : (mm.addMemoryMap m).Extends mm₀ := by
  intro k e he
  have hne : k ≠ m.vaddr := by
    rintro rfl
    rw [hfree] at he
    cases he
  obtain ⟨e', he', hsame⟩ := h k e he
  exact ⟨e', (OrdMap.get?_insert_ne _ _ hne).trans he', hsame⟩

/-- Other permissions for an entry. -/
theorem Extends.setPerms (h : mm.Extends mm₀) (v : Nat) (perms : Perms) :
    ({ mm with memoryMaps := mm.memoryMaps.modify v fun m => { m with flags := perms } }).Extends
      mm₀ := by
  intro k e he
  obtain ⟨e', he', hspan, hcap⟩ := h k e he
  by_cases hv : k = v
  · refine ⟨{ e' with flags := perms }, ?_, hspan, hcap⟩
    show (mm.memoryMaps.modify v _).get? k = _
    rw [OrdMap.get?_modify, if_pos hv, he']
    rfl
  · refine ⟨e', ?_, hspan, hcap⟩
    show (mm.memoryMaps.modify v _).get? k = _
    rw [OrdMap.get?_modify, if_neg hv, he']

/-- A span of a file at a key that had no entry. -/
theorem Extends.installSpan (h : mm.Extends mm₀) (m : MemoryMap) {page : Nat} (pages slot : Nat)
    (hfree : mm₀.memoryMaps.get? page = none) : (mm.installSpan m page pages slot).Extends mm₀ := by
  refine Extends.add (h.congr ?_) hfree
  generalize List.range pages = l
  induction l generalizing mm with
  | nil => rfl
  | cons idx rest ih => exact @ih (mm.removeLazyMemoryMap (page + idx * PGSIZE)) h

end MmState

/-! ### The states of a fault that only adds -/

/-- The view has the other tables and the frames of `v₀`, and of the process a table that extends
`mm₀`. -/
structure Enlarged (pid : Nat) (mm₀ : MmState) (v₀ v : MapView) : Prop where
  others : ∀ q, q ≠ pid → v.mms.get? q = v₀.mms.get? q
  own : ∃ mm, v.mms.get? pid = some mm ∧ mm.Extends mm₀
  frames : ∀ s f, v₀.frames s = some f → v.frames s = some f

/-- The process has an entry with the address. -/
def MapView.Covers (v : MapView) (pid a : Nat) : Prop :=
  ∃ mm k m, v.mms.get? pid = some mm ∧ mm.memoryMaps.get? k = some m ∧ m.span.Has a

instance : BlindTrace World.mapView where
  trace _ _ := rfl

section Enlarged

variable {pid : Nat} {mm₀ : MmState} {v₀ : MapView}

/-- A slot without a frame had none. -/
theorem Enlarged.fresh {v : MapView} (h : Enlarged pid mm₀ v₀ v) {slot : Nat}
    (hnone : v.frames slot = none) : v₀.frames slot = none := by
  cases hfr : v₀.frames slot with
  | none => rfl
  | some f => rw [h.frames slot f hfr] at hnone; cases hnone

/-- Other bytes in a frame, in a slot that had none. -/
theorem Enlarged.write {v : MapView} (h : Enlarged pid mm₀ v₀ v) {slot : Nat}
    (hfresh : v₀.frames slot = none) {fr : Nat → Option Frame} {refs : Nat → Option Nat}
    (hfr : ∀ s, s ≠ slot → fr s = v.frames s) :
    Enlarged pid mm₀ v₀ ⟨v.mms, fr, refs⟩ := by
  refine ⟨h.others, h.own, ?_⟩
  intro s f hs
  have hne : s ≠ slot := by
    rintro rfl
    rw [hfresh] at hs
    cases hs
  exact (hfr s hne).trans (h.frames s f hs)

/-- An edit of the table of the process. -/
theorem Enlarged.modifyMm {w : World} (h : Enlarged pid mm₀ v₀ w.mapView) {f : MmState → MmState}
    (hf : ∀ mm, mm.Extends mm₀ → (f mm).Extends mm₀) :
    Enlarged pid mm₀ v₀ (w.modifyMm pid f).mapView := by
  obtain ⟨mm, hmm, hext⟩ := h.own
  refine ⟨?_, ⟨f mm, ?_, hf mm hext⟩, h.frames⟩
  · intro q hq
    show (w.modifyMm pid f).mms.get? q = _
    rw [World.mms_modifyMm, OrdMap.get?_modify, if_neg hq]
    exact h.others q hq
  · show (w.modifyMm pid f).mms.get? pid = _
    rw [World.mms_modifyMm, OrdMap.get?_modify, if_pos rfl, show w.mms.get? pid = some mm from hmm]
    rfl

/-- An entry that was just added covers its addresses. -/
theorem Enlarged.covers {w : World} (h : Enlarged pid mm₀ v₀ w.mapView) {f : MmState → MmState}
    {m : MemoryMap} (hf : ∀ mm : MmState, (f mm).memoryMaps.get? m.vaddr = some m) {a : Nat}
    (ha : m.span.Has a) : (w.modifyMm pid f).mapView.Covers pid a := by
  obtain ⟨mm, hmm, -⟩ := h.own
  refine ⟨f mm, m.vaddr, m, ?_, hf mm, ha⟩
  show (w.modifyMm pid f).mms.get? pid = _
  rw [World.mms_modifyMm, OrdMap.get?_modify, if_pos rfl, show w.mms.get? pid = some mm from hmm]
  rfl

/-! ### New frames -/

variable {α : Type}

/-- A step that the view does not see. -/
theorem enlarged_blind {c : M α} (h : Frames World.mapView c) :
    Triple (fun w => Enlarged pid mm₀ v₀ w.mapView) c (fun _ w => Enlarged pid mm₀ v₀ w.mapView)
      (fun _ w => Enlarged pid mm₀ v₀ w.mapView) := blind_both h fun _ h => h

/-- The record of what a fault did, once the address is covered. -/
theorem emit_covers (e : Event) (a : Nat) :
    Triple (fun w => Enlarged pid mm₀ v₀ w.mapView ∧ w.mapView.Covers pid a) (emit e)
      (fun _ w => Enlarged pid mm₀ v₀ w.mapView ∧ w.mapView.Covers pid a)
      (fun _ w => Enlarged pid mm₀ v₀ w.mapView) :=
  @blind_both _ _ (emit_frames e) (fun v => Enlarged pid mm₀ v₀ v ∧ v.Covers pid a) _
    fun _ h => h.1

/-- A step that the view does not see, while a new slot is in hand. -/
theorem enlarged_step {c : M α} {p : Prop} (h : Frames World.mapView c) :
    Triple (fun w => Enlarged pid mm₀ v₀ w.mapView ∧ p) c
      (fun _ w => Enlarged pid mm₀ v₀ w.mapView ∧ p) (fun _ w => Enlarged pid mm₀ v₀ w.mapView) :=
  @blind_both α c h (fun v => Enlarged pid mm₀ v₀ v ∧ p) _ fun _ h => h.1

/-- A new slot held no frame before. -/
theorem cspaceAlloc_enlarged :
    Triple (fun w => Enlarged pid mm₀ v₀ w.mapView) cspaceAlloc
      (fun slot w => Enlarged pid mm₀ v₀ w.mapView ∧ v₀.frames slot = none)
      (fun _ w => Enlarged pid mm₀ v₀ w.mapView) := by
  have hkept : Triple (fun w => Enlarged pid mm₀ v₀ w.mapView) cspaceAlloc
      (fun _ w => Enlarged pid mm₀ v₀ w.mapView) (fun _ w => Enlarged pid mm₀ v₀ w.mapView) :=
    enlarged_blind (by simp)
  exact (hkept.and cspaceAlloc_frameless).imp (fun _ h => ⟨h, trivial⟩)
    (fun _ _ h => ⟨h.1, h.1.fresh h.2.2⟩) fun _ _ h => h.1

/-- A frame arrives in a slot that had none. -/
theorem resAllocPage_enlarged (pages slot : Nat) :
    Triple (fun w => Enlarged pid mm₀ v₀ w.mapView ∧ v₀.frames slot = none)
      (resAllocPage pages slot)
      (fun _ w => Enlarged pid mm₀ v₀ w.mapView ∧ v₀.frames slot = none)
      (fun _ w => Enlarged pid mm₀ v₀ w.mapView) := by
  refine Triple.bind (enlarged_step (by simp)) fun a => Triple.modify fun w h => ⟨?_, h.2⟩
  exact h.1.write h.2 fun s hs => if_neg hs

/-- New page frames are where no frame was before. -/
theorem allocPageFrameNoCleanup_enlarged (pages : Nat) :
    Triple (fun w => Enlarged pid mm₀ v₀ w.mapView) (allocPageFrameNoCleanup pages)
      (fun slot w => Enlarged pid mm₀ v₀ w.mapView ∧ v₀.frames slot = none)
      (fun _ w => Enlarged pid mm₀ v₀ w.mapView) :=
  Triple.bind cspaceAlloc_enlarged fun slot =>
    Triple.bind (resAllocPage_enlarged pages slot) fun _ => Triple.pure fun _ h => h

/-- A new page frame is where no frame was before. -/
theorem allocPageFrame_enlarged :
    Triple (fun w => Enlarged pid mm₀ v₀ w.mapView) allocPageFrame
      (fun slot w => Enlarged pid mm₀ v₀ w.mapView ∧ v₀.frames slot = none)
      (fun _ w => Enlarged pid mm₀ v₀ w.mapView) := by
  refine Triple.bind cspaceAlloc_enlarged fun slot => ?_
  refine Triple.bind (Triple.onError (resAllocPage_enlarged 1 slot) fun e => ?_) fun _ =>
    Triple.pure fun _ h => h
  exact enlarged_blind (by simp)

/-- The pages of a file arrive in a slot that had none. -/
theorem fsMapPages_enlarged (pages slot : Nat) :
    Triple (fun w => Enlarged pid mm₀ v₀ w.mapView ∧ v₀.frames slot = none) (fsMapPages pages slot)
      (fun _ w => Enlarged pid mm₀ v₀ w.mapView ∧ v₀.frames slot = none)
      (fun _ w => Enlarged pid mm₀ v₀ w.mapView) := by
  refine Triple.bind (enlarged_step (by simp)) fun a => Triple.bind (R := fun _ w =>
    Enlarged pid mm₀ v₀ w.mapView ∧ v₀.frames slot = none) (Triple.modify fun w h => ⟨?_, h.2⟩)
      fun _ => Triple.pure fun _ h => h
  exact h.1.write h.2 fun s hs => if_neg hs

/-- The frame in a new slot is given back. -/
theorem releaseFresh_enlarged {p : Nat} {slot : Nat} {Q : Unit → World → Prop}
    (hQ : ∀ w, Enlarged pid mm₀ v₀ w.mapView → Q () w) :
    Triple (fun w => Enlarged pid mm₀ v₀ w.mapView ∧ v₀.frames slot = none)
      (releaseProcessFrameSlot p slot) Q (fun _ w => Enlarged pid mm₀ v₀ w.mapView) := by
  intro w h
  refine ⟨fun _ _ => hQ _ ?_, fun e he => absurd he (releaseProcessFrameSlot_total p slot w e)⟩
  rw [releaseProcessFrameSlot_view p slot w]
  refine ⟨?_, ?_, ?_⟩
  · rw [MapView.release_mms]
    exact h.1.others
  · rw [MapView.release_mms]
    exact h.1.own
  · intro s f hs
    have hne : s ≠ slot := by
      rintro rfl
      rw [h.2] at hs
      cases hs
    rw [MapView.release_frames_ne _ hne]
    exact h.1.frames s f hs

/-! ### New pages -/

/-- An address lies in its page. -/
theorem alignDown_has (a : Nat) : alignDown a ≤ a ∧ a < alignDown a + PGSIZE := by
  unfold alignDown PGSIZE
  omega

/-- The page that a fault makes. -/
theorem mapFaultPage_enlarged {page a : Nat} (perms : Perms) (ty : MemoryType)
    (hfree : mm₀.memoryMaps.get? page = none) (ha : page ≤ a ∧ a < page + PGSIZE) :
    Triple (fun w => Enlarged pid mm₀ v₀ w.mapView) (mapFaultPage pid page perms ty)
      (fun _ w => Enlarged pid mm₀ v₀ w.mapView ∧ w.mapView.Covers pid a)
      (fun _ w => Enlarged pid mm₀ v₀ w.mapView) := by
  refine Triple.bind (allocPageFrameNoCleanup_enlarged 1) fun slot => ?_
  refine Triple.bind (enlarged_step (by simp)) fun _ =>
    Triple.bind (enlarged_step (by simp)) fun _ => ?_
  refine Triple.bind (enlarged_step (by simp)) fun _ => Triple.modify fun w h => ⟨?_, ?_⟩
  · exact h.1.modifyMm fun mm hext => hext.add hfree
  · exact h.1.covers (m := pageEntry page perms ty slot) (fun mm => OrdMap.get?_insert_self ..) ha

/-- An edit that leaves the entries alone. -/
theorem edit_enlarged {f : MmState → MmState} (hf : ∀ mm, (f mm).memoryMaps = mm.memoryMaps)
    {a : Nat} :
    Triple (fun w => Enlarged pid mm₀ v₀ w.mapView ∧ w.mapView.Covers pid a) (modifyMm pid f)
      (fun _ w => Enlarged pid mm₀ v₀ w.mapView ∧ w.mapView.Covers pid a)
      (fun _ w => Enlarged pid mm₀ v₀ w.mapView) := by
  refine Triple.modify fun w h => ⟨h.1.modifyMm fun mm hext => hext.congr (hf mm), ?_⟩
  obtain ⟨mm, k, m, hmm, hk, ha⟩ := h.2
  refine ⟨f mm, k, m, ?_, by rw [hf]; exact hk, ha⟩
  show (w.modifyMm pid f).mms.get? pid = _
  rw [World.mms_modifyMm, OrdMap.get?_modify, if_pos rfl, show w.mms.get? pid = some mm from hmm]
  rfl

/-- The pages between the stack and the page of an address. -/
theorem faultStackGrowth_enlarged {low a : Nat} : ∀ n first,
    (∀ i, first ≤ i → i < first + n → mm₀.memoryMaps.get? (low - (i + 1) * PGSIZE) = none) →
    (low - (first + n) * PGSIZE ≤ a ∧ a < low - (first + n) * PGSIZE + PGSIZE) →
    Triple (fun w => Enlarged pid mm₀ v₀ w.mapView ∧ (n = 0 → w.mapView.Covers pid a))
      (forEach (List.range' first n) fun idx => do
        mapFaultPage pid (low - (idx + 1) * PGSIZE) Perms.RW .stack
        modifyMm pid fun mm => { mm with stackSize := mm.stackSize + PGSIZE })
      (fun _ w => Enlarged pid mm₀ v₀ w.mapView ∧ w.mapView.Covers pid a)
      (fun _ w => Enlarged pid mm₀ v₀ w.mapView) := by
  intro n
  induction n with
  | zero =>
    intro first _ _
    exact Triple.pure fun w h => ⟨h.1, h.2 rfl⟩
  | succ n ih =>
    intro first hfree ha
    -- the page of this round is the last one, or the address is in a later one
    obtain ⟨x, hx, hlast⟩ : ∃ x, (low - (first + 1) * PGSIZE ≤ x ∧
        x < low - (first + 1) * PGSIZE + PGSIZE) ∧ (n = 0 → x = a) := by
      by_cases hn : n = 0
      · subst hn
        exact ⟨a, ha, fun _ => rfl⟩
      · refine ⟨_, ⟨le_rfl, Nat.lt_add_of_pos_right (by decide)⟩, ?_⟩
        intro h
        exact absurd h hn
    have hpage : Triple (fun w => Enlarged pid mm₀ v₀ w.mapView)
        (mapFaultPage pid (low - (first + 1) * PGSIZE) Perms.RW .stack)
        (fun _ w => Enlarged pid mm₀ v₀ w.mapView ∧ w.mapView.Covers pid x)
        (fun _ w => Enlarged pid mm₀ v₀ w.mapView) :=
      mapFaultPage_enlarged Perms.RW .stack (hfree first le_rfl (by omega)) hx
    have hsize : Triple (fun w => Enlarged pid mm₀ v₀ w.mapView ∧ w.mapView.Covers pid x)
        (modifyMm pid fun mm => { mm with stackSize := mm.stackSize + PGSIZE })
        (fun _ w => Enlarged pid mm₀ v₀ w.mapView ∧ w.mapView.Covers pid x)
        (fun _ w => Enlarged pid mm₀ v₀ w.mapView) := edit_enlarged (by intro mm; rfl)
    refine Triple.bind (Triple.bind (hpage.pre fun w h => h.1) fun _ => hsize) fun _ => ?_
    refine (ih (first + 1) (fun i hlo hhi => hfree i (by omega) (by omega)) ?_).pre fun w h =>
      ⟨h.1, fun hn => ?_⟩
    · rw [show first + 1 + n = first + (n + 1) by omega]
      exact ha
    · exact hlast hn ▸ h.2

/-! ### Pages of a file -/

/-- The entry of a span of pages of a file. -/
theorem installSpan_enlarged {page pages slot a : Nat} {m : MemoryMap} (hpos : 0 < pages)
    (hfree : mm₀.memoryMaps.get? page = none) (ha : page ≤ a ∧ a < page + PGSIZE) {p : Prop} :
    Triple (fun w => Enlarged pid mm₀ v₀ w.mapView ∧ p)
      (modifyMm pid (·.installSpan m page pages slot))
      (fun _ w => Enlarged pid mm₀ v₀ w.mapView ∧ w.mapView.Covers pid a)
      (fun _ w => Enlarged pid mm₀ v₀ w.mapView) := by
  refine Triple.modify fun w h => ⟨?_, ?_⟩
  · exact h.1.modifyMm fun mm hext => hext.installSpan m pages slot hfree
  · refine h.1.covers (m := fileEntry m page pages slot) (fun mm => OrdMap.get?_insert_self ..)
      ⟨ha.1, ha.2.trans_le ?_⟩
    exact Nat.add_le_add_left (Nat.le_mul_of_pos_left _ hpos) _

/-- The pages that the file service maps. -/
theorem tryZeroCopy_enlarged {fd page pages a : Nat} {m : MemoryMap} (hpos : 0 < pages)
    (hfree : mm₀.memoryMaps.get? page = none) (ha : page ≤ a ∧ a < page + PGSIZE) :
    Triple (fun w => Enlarged pid mm₀ v₀ w.mapView) (tryZeroCopy pid fd page m pages)
      (fun n w => Enlarged pid mm₀ v₀ w.mapView ∧ (0 < n → w.mapView.Covers pid a))
      (fun _ w => Enlarged pid mm₀ v₀ w.mapView) := by
  refine Triple.bind (enlarged_blind (by simp [backingHandle])) fun handle => ?_
  refine Triple.bind cspaceAlloc_enlarged fun slot => ?_
  refine Triple.bind (R := Triple.onOutcome
    (fun _ w => Enlarged pid mm₀ v₀ w.mapView ∧ v₀.frames slot = none)
    fun _ w => Enlarged pid mm₀ v₀ w.mapView)
    (Triple.attempt (fsMapPages_enlarged pages slot)) fun r => ?_
  cases r with
  | error e =>
    -- the slot is given back, and the pages are copied when the service cannot map them
    cases e with
    | notSupported =>
      exact Triple.bind (enlarged_blind (by simp)) fun _ => Triple.pure fun _ h =>
        ⟨h, fun hn => absurd hn (Nat.lt_irrefl 0)⟩
    | _ => exact Triple.bind (enlarged_blind (by simp)) fun _ => Triple.throw fun _ h => h
  | ok n =>
    change Triple (fun w : World => Enlarged pid mm₀ v₀ w.mapView ∧ v₀.frames slot = none) _ _ _
    cases n with
    | zero =>
      exact Triple.bind (releaseFresh_enlarged fun _ h => h) fun _ => Triple.throw fun _ h => h
    | succ n =>
      refine Triple.bind (R := fun _ w => Enlarged pid mm₀ v₀ w.mapView ∧ v₀.frames slot = none)
        (Triple.onError (F := fun _ w => Enlarged pid mm₀ v₀ w.mapView ∧ v₀.frames slot = none) ?_
          fun e => releaseFresh_enlarged fun _ h => h) fun _ => ?_
      · exact (Frames.keeps (by simp) fun v => Enlarged pid mm₀ v₀ v ∧ v₀.frames slot = none).triple
      refine Triple.bind (enlarged_step (by simp)) fun _ => ?_
      refine Triple.bind (installSpan_enlarged hpos hfree ha) fun _ => ?_
      refine Triple.bind (emit_covers _ a) fun _ => ?_
      exact Triple.pure fun _ h => ⟨h.1, fun _ => h.2⟩

/-- The scratch page of a new slot is filled. -/
theorem fillScratch_enlarged {scratch slot : Nat} (n : Nat) (byte : Nat → UInt8) :
    Triple (fun w => (Enlarged pid mm₀ v₀ w.mapView ∧ v₀.frames slot = none) ∧
        w.scratch scratch = some ⟨slot, 1, Perms.RW⟩) (fillScratch scratch n byte)
      (fun _ w => (Enlarged pid mm₀ v₀ w.mapView ∧ v₀.frames slot = none) ∧
        w.scratch scratch = some ⟨slot, 1, Perms.RW⟩)
      (fun _ w => Enlarged pid mm₀ v₀ w.mapView ∧ v₀.frames slot = none) := by
  refine Triple.modify fun w h => ?_
  simp only [h.2]
  exact ⟨⟨h.1.1.write h.1.2 fun s hs => if_neg hs, h.1.2⟩, h.2⟩

/-- The page is filled with zeros, and with what the file service reads. -/
theorem fillFromFile_enlarged {scratch slot : Nat} :
    Triple (fun w => (Enlarged pid mm₀ v₀ w.mapView ∧ v₀.frames slot = none) ∧
        w.scratch scratch = some ⟨slot, 1, Perms.RW⟩) (fillFromFile scratch)
      (fun _ w => Enlarged pid mm₀ v₀ w.mapView ∧ v₀.frames slot = none)
      (fun _ w => Enlarged pid mm₀ v₀ w.mapView ∧ v₀.frames slot = none) := by
  refine Triple.bind (fillScratch_enlarged _ _) fun _ => ?_
  refine Triple.bind (R := fun _ w => (Enlarged pid mm₀ v₀ w.mapView ∧ v₀.frames slot = none) ∧
    w.scratch scratch = some ⟨slot, 1, Perms.RW⟩) ?_ ?_
  · exact ((Frames.keeps (ext_frames (V := World.copyView)) fun v =>
      (Enlarged pid mm₀ v₀ v.1 ∧ v₀.frames slot = none) ∧
        v.2 scratch = some ⟨slot, 1, Perms.RW⟩).triple).errors
        fun _ _ h => h.1
  · intro a
    exact (fillScratch_enlarged _ _).post fun _ _ h => h.1

/-- The page that is read from the file. -/
theorem copyFilePage_enlarged {fd page a : Nat} {m : MemoryMap}
    (hfree : mm₀.memoryMaps.get? page = none) (ha : page ≤ a ∧ a < page + PGSIZE) :
    Triple (fun w => Enlarged pid mm₀ v₀ w.mapView) (copyFilePage pid fd page m)
      (fun _ w => Enlarged pid mm₀ v₀ w.mapView ∧ w.mapView.Covers pid a)
      (fun _ w => Enlarged pid mm₀ v₀ w.mapView) := by
  have hkeep : ∀ {β : Type} {c : M β} {slot : Nat}, Frames World.mapView c →
      Triple (fun w => Enlarged pid mm₀ v₀ w.mapView ∧ v₀.frames slot = none) c
        (fun _ w => Enlarged pid mm₀ v₀ w.mapView ∧ v₀.frames slot = none)
        (fun _ w => Enlarged pid mm₀ v₀ w.mapView ∧ v₀.frames slot = none) := fun h =>
    (Frames.keeps h fun v => Enlarged pid mm₀ v₀ v ∧ v₀.frames _ = none).triple
  have hundo : ∀ slot, Triple (fun w => Enlarged pid mm₀ v₀ w.mapView ∧ v₀.frames slot = none)
      (do ignore (unmapProcessPages pid page 1); releaseProcessFrameSlot pid slot)
      (fun _ w => Enlarged pid mm₀ v₀ w.mapView) (fun _ w => Enlarged pid mm₀ v₀ w.mapView) :=
    fun slot => Triple.bind (enlarged_step (by simp)) fun _ => releaseFresh_enlarged fun _ h => h
  refine Triple.bind (enlarged_blind (by simp [backingHandle])) fun handle => ?_
  refine Triple.bind allocPageFrame_enlarged fun slot => ?_
  refine Triple.bind (enlarged_step (by simp)) fun _ => ?_
  refine Triple.bind (Triple.onError (hkeep (by simp)) fun _ =>
    releaseFresh_enlarged fun _ h => h) fun _ => ?_
  -- the scratch page stands for the new slot
  refine Triple.bind (R := fun scratch w =>
    (Enlarged pid mm₀ v₀ w.mapView ∧ v₀.frames slot = none) ∧
      w.scratch scratch = some ⟨slot, 1, Perms.RW⟩) (Triple.onError
      (F := fun _ w => Enlarged pid mm₀ v₀ w.mapView ∧ v₀.frames slot = none) ?_
        fun _ => hundo slot) ?_
  · intro w hw
    rcases mapScratch_run slot Perms.RW 1 w with ⟨e, hrun⟩ | ⟨b, -, hrun⟩ <;> rw [hrun]
    · exact ⟨fun _ hok => (by cases hok), fun _ _ => hw⟩
    · refine ⟨fun b' hb' => ?_, fun _ he => by cases he⟩
      cases hb'
      exact ⟨hw, if_pos rfl⟩
  intro scratch
  refine Triple.bind (R := fun _ w => Enlarged pid mm₀ v₀ w.mapView ∧ v₀.frames slot = none)
    (Triple.attempt fillFromFile_enlarged) fun r => ?_
  refine Triple.bind (enlarged_step (by simp)) fun _ => ?_
  refine Triple.bind (Triple.onError (hkeep (Frames.ofExcept r)) fun _ => hundo slot) fun _ => ?_
  refine Triple.bind (enlarged_step (by simp)) fun _ => ?_
  refine Triple.bind (installSpan_enlarged (by decide) hfree ha) fun _ => ?_
  refine Triple.bind (emit_covers _ a) fun _ => ?_
  exact Triple.pure fun _ h => h

/-- The page of a mapped file. -/
theorem mapFileBackedFaultPage_enlarged {page a : Nat} {m : MemoryMap} (n : Nat)
    (hfree : mm₀.memoryMaps.get? page = none) (ha : page ≤ a ∧ a < page + PGSIZE) :
    Triple (fun w => Enlarged pid mm₀ v₀ w.mapView) (mapFileBackedFaultPage pid page m n)
      (fun _ w => Enlarged pid mm₀ v₀ w.mapView ∧ w.mapView.Covers pid a)
      (fun _ w => Enlarged pid mm₀ v₀ w.mapView) := by
  refine Triple.bind (enlarged_blind (by simp)) fun fd => ?_
  refine Triple.bind (enlarged_blind (by simp)) fun task => ?_
  refine Triple.bind (tryZeroCopy_enlarged (spanPages_pos _ _ _ _) hfree ha) fun k => ?_
  refine Triple.ite (fun hk => Triple.pure fun _ h => ⟨h.1, h.2 hk⟩) fun _ => ?_
  exact (copyFilePage_enlarged hfree ha).pre fun _ h => h.1

/-! ### Faults in an entry -/

/-- Other permissions for an entry. -/
theorem remapExistingPage_enlarged (v frameCap pages : Nat) (perms : Perms) :
    Triple (fun w => Enlarged pid mm₀ v₀ w.mapView) (remapExistingPage pid v frameCap perms pages)
      (fun _ w => Enlarged pid mm₀ v₀ w.mapView) (fun _ w => Enlarged pid mm₀ v₀ w.mapView) := by
  refine Triple.bind (enlarged_blind (by simp)) fun _ => ?_
  refine Triple.bind (enlarged_blind (by simp)) fun _ => Triple.modify fun w h => ?_
  exact h.modifyMm fun mm hext => hext.setPerms v perms

/-- The bytes of a page go to a new slot. -/
theorem copyFramePage_enlarged (old slot : Nat) :
    Triple (fun w => Enlarged pid mm₀ v₀ w.mapView ∧ v₀.frames slot = none) (copyFramePage old slot)
      (fun _ w => Enlarged pid mm₀ v₀ w.mapView ∧ v₀.frames slot = none)
      (fun _ w => Enlarged pid mm₀ v₀ w.mapView) := by
  refine Triple.bind (enlarged_step (by simp)) fun src => ?_
  refine Triple.bind (R := fun dst w => (Enlarged pid mm₀ v₀ w.mapView ∧ v₀.frames slot = none) ∧
    w.scratch dst = some ⟨slot, 1, Perms.RW⟩) (Triple.onError
      (F := fun _ w => Enlarged pid mm₀ v₀ w.mapView) ?_ fun _ => enlarged_blind (by simp)) ?_
  · intro w hw
    rcases mapScratch_run slot Perms.RW 1 w with ⟨e, hrun⟩ | ⟨b, -, hrun⟩ <;> rw [hrun]
    · exact ⟨fun _ hok => (by cases hok), fun _ _ => hw.1⟩
    · refine ⟨fun b' hb' => ?_, fun _ he => by cases he⟩
      cases hb'
      exact ⟨hw, if_pos rfl⟩
  intro dst
  refine Triple.bind (R := fun _ w => Enlarged pid mm₀ v₀ w.mapView ∧ v₀.frames slot = none) ?_
    fun _ => Triple.bind (enlarged_step (by simp)) fun _ => enlarged_step (by simp)
  refine Triple.bind (R := fun _ w => (Enlarged pid mm₀ v₀ w.mapView ∧ v₀.frames slot = none) ∧
    w.scratch dst = some ⟨slot, 1, Perms.RW⟩) (Triple.gets fun w h => h) fun byte =>
      Triple.modify fun w h => ?_
  simp only [h.2]
  exact ⟨h.1.1.write h.1.2 fun s hs => if_neg hs, h.1.2⟩

/-- The copy of a shared page takes no frame away but the old one, and that one only when it
succeeds. -/
theorem resolveCowFault_enlarged {v old : Nat} {g : Frame} (perms : Perms)
    (hold : v₀.frames old = some g) :
    Triple (fun w => Enlarged pid mm₀ v₀ w.mapView) (resolveCowFault pid v old perms)
      (fun _ w => (∀ s f, v₀.frames s = some f → s ≠ old → w.frames s = some f) ∧
        ∀ f, w.frames old = some f → v₀.frames old = some f)
      (fun _ w => Enlarged pid mm₀ v₀ w.mapView) := by
  refine Triple.ite (fun _ => Triple.throw fun _ h => h) fun _ => ?_
  refine Triple.bind (allocPageFrameNoCleanup_enlarged 1) fun slot => ?_
  refine Triple.bind (enlarged_step (by simp)) fun _ => ?_
  refine Triple.bind (copyFramePage_enlarged old slot) fun _ => ?_
  refine Triple.bind (enlarged_step (by simp)) fun _ =>
    Triple.bind (enlarged_step (by simp)) fun _ => ?_
  refine Triple.bind (R := fun _ w => ∀ s f, v₀.frames s = some f → w.frames s = some f)
    (Triple.modify fun w h => h.1.frames) fun _ => ?_
  intro w h
  refine ⟨fun _ _ => ?_, fun e he => absurd he (releaseProcessFrameSlot_total pid old w e)⟩
  have hview := releaseProcessFrameSlot_view pid old w
  have hframes : ((releaseProcessFrameSlot pid old).run w).2.frames
      = (w.mapView.release old).frames := congrArg MapView.frames hview
  constructor
  · intro s f hs hne
    rw [hframes, MapView.release_frames_ne _ hne]
    exact h s f hs
  · intro f hf
    rw [hframes] at hf
    exact hold.trans ((h old g hold).symm.trans (MapView.release_frames_some hf))

end Enlarged

/-- A shared page was exchanged for a copy: the table is that of before but for the entry at `v`,
whose new frame holds the first page of the old one, and no frame but the old one is gone. -/
structure Swapped (pid v old : Nat) (mm₀ : MmState) (v₀ w : MapView) : Prop where
  others : ∀ q, q ≠ pid → w.mms.get? q = v₀.mms.get? q
  own : ∃ slot perms f, w.mms.get? pid = some (mm₀.setCopied v slot perms) ∧
    w.frames slot = some f ∧ ∀ o, o < PGSIZE →
      some (f.data o) = (v₀.frames old).map fun g => g.data o
  frames : ∀ s f, v₀.frames s = some f → s ≠ old → w.frames s = some f
  old : ∀ f, w.frames old = some f → v₀.frames old = some f

/-- A copied page was exchanged. -/
theorem resolveCowFault_swaps {w₀ : World} {pid v old : Nat} {mm₀ : MmState} {g : Frame}
    (perms : Perms) (hmm : w₀.mms.get? pid = some mm₀) (hold : w₀.frames old = some g) :
    Triple (fun w => w = w₀) (resolveCowFault pid v old perms)
      (fun _ w => Swapped pid v old mm₀ w₀.mapView w.mapView)
      (fun _ w => Enlarged pid mm₀ w₀.mapView w.mapView) := by
  -- the copy is the one step that exchanges a frame, and every other one enlarges
  have hlive : w₀.live pid = true := by
    rw [World.get?_mms] at hmm
    obtain ⟨t, ht, -⟩ := Option.map_eq_some_iff.mp hmm
    show (w₀.task? pid).isSome = true
    rw [ht]
    rfl
  have hkept : Triple (fun w => Enlarged pid mm₀ w₀.mapView w.mapView)
      (resolveCowFault pid v old perms) _ _ := resolveCowFault_enlarged perms hold
  have hcopied := @resolveCowFault_copies w₀ pid v old perms hlive (by rw [hold]; rfl)
  refine (hcopied.and hkept).imp (fun w h => ⟨h, ?_⟩) ?_ fun _ _ h => h.2
  · subst h
    exact ⟨fun _ _ => rfl, ⟨mm₀, hmm, .refl mm₀⟩, fun _ _ h => h⟩
  · intro _ w h
    obtain ⟨⟨slot, hslot⟩, hframes, hsame⟩ := h
    obtain ⟨f, hf, -, hbytes⟩ := hslot.frame
    refine ⟨?_, ⟨slot, perms, f, ?_, hf, hbytes⟩, hframes, hsame⟩
    · intro q hq
      show w.mms.get? q = _
      rw [hslot.tables, OrdMap.get?_modify, if_neg hq]
      rfl
    · show w.mms.get? pid = _
      rw [hslot.tables, OrdMap.get?_modify, if_pos rfl, hmm]
      rfl

/-! ### A fault -/

/-- The fault is no store to a shared entry of several pages. -/
def World.Resolvable (w : World) (pid a : Nat) (cause : FaultCause) : Prop :=
  ∀ m, w.lookup pid a = some m → cause = .store → m.cow = true → m.size = PGSIZE

/-- What a fault leaves behind for a process that goes on: a view that grew, or one in which the
page of a shared entry was exchanged. -/
inductive Handled (pid : Nat) (mm₀ : MmState) (v₀ v : MapView) : Prop where
  | grown (h : Enlarged pid mm₀ v₀ v)
  | swapped (m : MemoryMap) (hm : mm₀.memoryMaps.get? m.vaddr = some m) (hsize : m.size = PGSIZE)
      (h : Swapped pid m.vaddr m.frameCap mm₀ v₀ v)

section Fault

variable {w₀ : World} {pid a : Nat} {mm₀ : MmState}

/-- A page that no entry covers has no key. -/
theorem MmState.Sound.page_free (h : mm₀.Sound) (hmiss : mm₀.lookupMemoryMap a = none) :
    mm₀.memoryMaps.get? (alignDown a) = none := by
  cases hk : mm₀.memoryMaps.get? (alignDown a) with
  | none => rfl
  | some m =>
    have hvaddr : m.vaddr = alignDown a := h.key .mapped _ m hk
    obtain ⟨-, hlen, hpos⟩ := h.paged .mapped _ m hk
    have hpage := alignDown_has a
    refine absurd ?_ (@MmState.Sound.miss mm₀ h .mapped a hmiss _ m hk)
    have hle : PGSIZE ≤ m.size := Nat.le_of_dvd hpos (Nat.dvd_of_mod_eq_zero hlen)
    show m.vaddr ≤ a ∧ a < m.vaddr + m.size
    rw [hvaddr]
    exact ⟨hpage.1, lt_of_lt_of_le hpage.2 (Nat.add_le_add_left hle _)⟩

/-- The part of the stack that has not grown has no key. -/
theorem MmState.Sound.reserved_free (h : mm₀.Sound) {x : Nat} (hx : mm₀.Reserved x) :
    mm₀.memoryMaps.get? x = none := by
  cases hk : mm₀.memoryMaps.get? x with
  | none => rfl
  | some m =>
    have hvaddr : m.vaddr = x := h.key .mapped _ m hk
    obtain ⟨-, -, hpos⟩ := h.paged .mapped _ m hk
    refine absurd hx (h.unreserved .mapped x m x hk ⟨hvaddr.le, ?_⟩)
    rw [← hvaddr]
    exact Nat.lt_add_of_pos_right hpos

/-- The growth of the stack to an address ends at its page, and its pages have not grown yet. -/
theorem MmState.Sound.growth (h : mm₀.Sound) (hr : mm₀.Reserved a) {n : Nat}
    (hn : (mm₀.stackBottom - mm₀.stackSize - alignDown a) / PGSIZE = n) :
    0 < n ∧ mm₀.stackBottom - mm₀.stackSize - n * PGSIZE = alignDown a ∧
      ∀ i, i < n → mm₀.Reserved (mm₀.stackBottom - mm₀.stackSize - (i + 1) * PGSIZE) := by
  obtain ⟨hlo, hhi⟩ := hr
  have hbottom := h.stackBottom
  have hsize := h.stackSize
  have hmax := h.maxStackSize
  have hgrown := h.grown
  have hfits := h.fits
  unfold MmState.Reserved alignDown PGSIZE at *
  refine ⟨by omega, by omega, fun i hi => ?_⟩
  omega

/-- An entry that covered the address still does. -/
theorem Handled.covers {v₀ v : MapView} (h : Handled pid mm₀ v₀ v) {k : Nat} {m : MemoryMap}
    (hk : mm₀.memoryMaps.get? k = some m) (ha : m.span.Has a) : v.Covers pid a := by
  cases h with
  | grown h =>
    obtain ⟨mm, hmm, hext⟩ := h.own
    obtain ⟨m', hm', hspan, -⟩ := hext k m hk
    exact ⟨mm, k, m', hmm, hm', hspan ▸ ha⟩
  | swapped e he hsize h =>
    obtain ⟨slot, perms, f, hmm, -⟩ := h.own
    by_cases hke : k = e.vaddr
    · refine ⟨_, k, { m with frameCap := slot, cow := false, flags := perms }, hmm, ?_, ha⟩
      show (mm₀.memoryMaps.modify e.vaddr _).get? k = _
      rw [OrdMap.get?_modify, if_pos hke, hk]
      rfl
    · refine ⟨_, k, m, hmm, ?_, ha⟩
      show (mm₀.memoryMaps.modify e.vaddr _).get? k = _
      rw [OrdMap.get?_modify, if_neg hke, hk]

/-- The outcome of a fault that makes a page or ends the process. -/
abbrev Outcome (w₀ : World) (pid : Nat) (mm₀ : MmState) (w : World) : Prop :=
  w.live pid = false ∨ Handled pid mm₀ w₀.mapView w.mapView

/-- The same for a fault that returned: an entry covers its address. -/
abbrev Resolved (w₀ : World) (pid : Nat) (mm₀ : MmState) (a : Nat) (w : World) : Prop :=
  w.live pid = false ∨ Handled pid mm₀ w₀.mapView w.mapView ∧ w.mapView.Covers pid a

/-- A process that is ended is gone. -/
theorem terminateBySignal_outcome {P : World → Prop} (signum : Nat) :
    Triple P (terminateBySignal pid signum)
      (fun _ => Resolved w₀ pid mm₀ a)
      (fun _ => Outcome w₀ pid mm₀) :=
  fun w _ => ⟨fun _ _ => .inl (terminateProcess_gone pid _ w),
    fun _ _ => .inl (terminateProcess_gone pid _ w)⟩

/-- A fault that adds pages. -/
theorem outcome_of_enlarged {α : Type} {c : M α}
    (h : Triple (fun w => Enlarged pid mm₀ w₀.mapView w.mapView) c
      (fun _ w => Enlarged pid mm₀ w₀.mapView w.mapView ∧ w.mapView.Covers pid a)
      (fun _ w => Enlarged pid mm₀ w₀.mapView w.mapView)) :
    Triple (fun w => Enlarged pid mm₀ w₀.mapView w.mapView) c
      (fun _ => Resolved w₀ pid mm₀ a)
      (fun _ => Outcome w₀ pid mm₀) :=
  h.imp (fun _ h => h) (fun _ _ h => .inr ⟨.grown h.1, h.2⟩) fun _ _ h => .inr (.grown h)

/-- A fault outside the entries. -/
theorem faultOutside_outcome (cause : FaultCause) (hsound : mm₀.Sound)
    (hmiss : mm₀.lookupMemoryMap a = none) :
    Triple (fun w => Enlarged pid mm₀ w₀.mapView w.mapView) (faultOutside pid cause mm₀ a)
      (fun _ => Resolved w₀ pid mm₀ a)
      (fun _ => Outcome w₀ pid mm₀) := by
  have hfree := hsound.page_free hmiss
  have hpage := alignDown_has a
  unfold faultOutside
  -- one case for each answer of the classification
  rcases classifyFault_cases mm₀ a with ⟨m, hm, hcls⟩ | ⟨-, hr, hcls⟩ | ⟨-, -, -, hcls⟩ |
      ⟨-, -, -, hcls⟩ <;> rw [hcls] <;> dsimp only
  · -- a lazy entry
    refine Triple.ite (fun _ => terminateBySignal_outcome _) fun _ =>
      Triple.ite (fun _ => ?_) fun _ => ?_
    · refine Triple.bind (R := Triple.onOutcome
        (fun _ w => Enlarged pid mm₀ w₀.mapView w.mapView ∧ w.mapView.Covers pid a)
        fun _ w => Enlarged pid mm₀ w₀.mapView w.mapView)
        (Triple.attempt (mapFileBackedFaultPage_enlarged _ hfree hpage)) fun r => ?_
      cases r with
      | ok n => exact Triple.pure fun _ h => .inr ⟨.grown h.1, h.2⟩
      | error e => exact terminateBySignal_outcome _
    · refine outcome_of_enlarged (Triple.bind
        (R := fun _ w => Enlarged pid mm₀ w₀.mapView w.mapView)
        (Triple.modify fun w h => h.modifyMm (by intro mm hext; exact hext.congr rfl)) fun _ => ?_)
      exact mapFaultPage_enlarged _ _ hfree hpage
  · -- the stack
    refine Triple.ite (fun _ => terminateBySignal_outcome _) fun _ => outcome_of_enlarged ?_
    obtain ⟨hpos, hlow, hreserved⟩ := hsound.growth hr rfl
    unfold faultStackGrowth
    rw [List.range_eq_range']
    refine (faultStackGrowth_enlarged _ 0 ?_ ?_).pre fun w h =>
      ⟨h, fun hzero => absurd hzero hpos.ne'⟩
    · intro i _ hi
      exact hsound.reserved_free (hreserved i (by omega))
    · rw [Nat.zero_add, hlow]
      exact hpage
  · -- the heap
    refine Triple.ite (fun _ => terminateBySignal_outcome _) fun _ => outcome_of_enlarged ?_
    exact mapFaultPage_enlarged _ _ hfree hpage
  · exact terminateBySignal_outcome _

/-- A page fault leaves no process behind, or it is handled; when it returns, an entry covers the
address. -/
theorem pageFault_handled (cause : FaultCause) (hinv : FrameInv w₀)
    (hmm : w₀.mms.get? pid = some mm₀) (hsound : mm₀.Sound) (hres : w₀.Resolvable pid a cause) :
    Triple (fun w => w = w₀) (pageFault pid a cause)
      (fun _ => Resolved w₀ pid mm₀ a)
      (fun _ => Outcome w₀ pid mm₀) := by
  have hstart : ∀ w, w = w₀ → Enlarged pid mm₀ w₀.mapView w.mapView := by
    rintro w rfl
    exact ⟨fun _ _ => rfl, ⟨mm₀, hmm, .refl mm₀⟩, fun _ _ h => h⟩
  refine Triple.bind (getProcess_known hmm) fun t => Triple.of_pre fun w₁ h₁ => ?_
  obtain ⟨rfl, hstate⟩ := h₁
  rw [hstate]
  cases hm : mm₀.lookupMemoryMap a with
  | none => exact (faultOutside_outcome cause hsound hm).pre hstart
  | some m =>
    -- the entry of the address is there whatever becomes of it
    obtain ⟨k, hk, ha⟩ := ((hsound.lookups a m).1).mp hm
    have hvaddr : m.vaddr = k := hsound.key .mapped k m hk
    have hremap : ∀ perms pages, Triple (fun w => w = w₁)
        (remapExistingPage pid m.vaddr m.frameCap perms pages)
        (fun _ => Resolved w₁ pid mm₀ a)
        (fun _ => Outcome w₁ pid mm₀) := fun perms pages =>
      (remapExistingPage_enlarged m.vaddr m.frameCap pages perms).imp hstart
        (fun _ _ h => .inr ⟨.grown h, (Handled.grown h).covers hk ha⟩) fun _ _ h => .inr (.grown h)
    show Triple _ (faultInEntry pid cause m) _ _
    refine Triple.ite (fun hcow => Triple.ite (fun _ => terminateBySignal_outcome _) fun _ => ?_)
      fun _ => Triple.ite (fun _ => ?_) fun _ => hremap _ _
    · obtain ⟨g, hg⟩ := Option.isSome_iff_exists.mp (hinv.live_frame hmm hk)
      have hswapped : ∀ w : World, Swapped pid m.vaddr m.frameCap mm₀ w₁.mapView w.mapView →
          Handled pid mm₀ w₁.mapView w.mapView := fun w h =>
        .swapped m (hvaddr ▸ hk) (hres m (by rw [World.lookup, hmm]; exact hm) hcow.1 hcow.2) h
      exact (resolveCowFault_swaps m.flags hmm hg).imp (fun _ h => h)
        (fun _ w h => .inr ⟨hswapped w h, (hswapped w h).covers hk ha⟩) fun _ _ h => .inr (.grown h)
    · split
      · exact hremap _ _
      · exact terminateBySignal_outcome _

end Fault

/-! ### The bytes of the processes -/

section Bytes

variable {w w' : World} {pid a : Nat} {mm₀ : MmState}

/-- A frame that is there after a fault, and was before, holds the bytes it held. -/
theorem Handled.frame {v₀ v : MapView} (h : Handled pid mm₀ v₀ v) {s : Nat} {f f' : Frame}
    (hf : v₀.frames s = some f) (hf' : v.frames s = some f') : f' = f := by
  cases h with
  | grown h => exact Option.some.inj (hf'.symm.trans (h.frames s f hf))
  | swapped m hm hsize h =>
    by_cases hs : s = m.frameCap
    · subst hs
      exact Option.some.inj ((h.old f' hf').symm.trans hf)
    · exact Option.some.inj (hf'.symm.trans (h.frames s f hf hs))

/-- A fault of one process leaves the memory states of the others. -/
theorem Handled.others {v₀ v : MapView} (h : Handled pid mm₀ v₀ v) {q : Nat} (hq : q ≠ pid) :
    v.mms.get? q = v₀.mms.get? q := by
  cases h with
  | grown h => exact h.others q hq
  | swapped _ _ _ h => exact h.others q hq

/-- The other processes read what they read. -/
theorem Handled.bytes_other (h : Handled pid mm₀ w.mapView w'.mapView) (hinv : FrameInv w)
    (hinv' : FrameInv w') {q : Nat} (hq : q ≠ pid) (x : Nat) :
    w'.userByte q x = w.userByte q x := by
  have hmms : w'.mms.get? q = w.mms.get? q := h.others hq
  have hlook : w'.lookup q x = w.lookup q x := by rw [World.lookup, hmms, World.lookup]
  rw [World.userByte, hlook, World.userByte]
  cases hm : w.lookup q x with
  | none => rfl
  | some m =>
    obtain ⟨f, hf⟩ := Option.isSome_iff_exists.mp (hinv.live_lookup hm)
    obtain ⟨f', hf'⟩ := Option.isSome_iff_exists.mp (hinv'.live_lookup (hlook.trans hm))
    have hsame : f' = f := h.frame hf hf'
    rw [Option.bind_some, Option.bind_some, hf, hf', hsame]

/-- A byte of a process with sound tables is that of an entry. -/
theorem MmState.Sound.userByte_eq {mm : MmState} (hs : mm.Sound) (hmm : w.mms.get? pid = some mm)
    {k x : Nat} {m : MemoryMap} (hk : mm.memoryMaps.get? k = some m) (hx : m.Contains x) {f : Frame}
    (hf : w.frames m.frameCap = some f) : w.userByte pid x = some (f.data (x - m.vaddr)) := by
  have hlook : w.lookup pid x = some m := by
    rw [World.lookup, hmm]
    exact (hs.lookups x m).1.mpr ⟨k, hk, hx⟩
  rw [World.userByte, hlook, Option.bind_some, hf]
  rfl

/-- The process reads what it read. -/
theorem Handled.bytes_own (h : Handled pid mm₀ w.mapView w'.mapView) (hinv' : FrameInv w')
    (hmm : w.mms.get? pid = some mm₀) (hs : mm₀.Sound)
    (hs' : ∀ mm, w'.mms.get? pid = some mm → mm.Sound) {x : Nat} {b : UInt8}
    (hb : w.userByte pid x = some b) : w'.userByte pid x = some b := by
  obtain ⟨m, hm, hbyte⟩ := Option.bind_eq_some_iff.mp hb
  obtain ⟨f, hf, rfl⟩ := Option.map_eq_some_iff.mp hbyte
  have hlook : mm₀.lookupMemoryMap x = some m := by
    rw [World.lookup, hmm] at hm
    exact hm
  obtain ⟨k, hk, hx⟩ := (hs.lookups x m).1.mp hlook
  have hframe := @Handled.frame pid mm₀ w.mapView w'.mapView h
  cases h with
  -- a table that grew has the entry still, with the same span and frame
  | grown h =>
    obtain ⟨mm, hget, hext⟩ := h.own
    obtain ⟨m', hk', hspan, hcap⟩ := hext k m hk
    have hvaddr : m'.vaddr = m.vaddr := congrArg Span.start hspan
    have hx' : m'.Contains x := by
      show m'.span.Has x
      rw [hspan]
      exact hx
    have hf' : w'.frames m'.frameCap = some f := hcap ▸ h.frames _ f hf
    rw [(hs' mm hget).userByte_eq hget hk' hx' hf', hvaddr]
  | swapped e he hsize h =>
    obtain ⟨slot, perms, f', hget, hf', hdata⟩ := h.own
    by_cases hke : k = e.vaddr
    · -- the byte is in the page that was copied
      obtain rfl : m = e := Option.some.inj (hk.symm.trans (hke ▸ he))
      have hk' : (mm₀.setCopied m.vaddr slot perms).memoryMaps.get? k
          = some { m with frameCap := slot, cow := false, flags := perms } := by
        show (mm₀.memoryMaps.modify m.vaddr _).get? k = _
        rw [OrdMap.get?_modify, if_pos hke, hk]
        rfl
      have hin : x - m.vaddr < PGSIZE := by
        have := hx.1
        have := hx.2
        omega
      have hsame := hdata _ hin
      rw [show w.mapView.frames m.frameCap = some f from hf] at hsame
      rw [(hs' _ hget).userByte_eq hget hk' hx hf']
      exact hsame
    · have hk' : (mm₀.setCopied e.vaddr slot perms).memoryMaps.get? k = some m := by
        show (mm₀.memoryMaps.modify e.vaddr _).get? k = _
        rw [OrdMap.get?_modify, if_neg hke, hk]
      obtain ⟨g, hg⟩ := Option.isSome_iff_exists.mp (hinv'.live_frame hget hk')
      rw [(hs' _ hget).userByte_eq hget hk' hx hg, hframe hf hg]

/-- An address that an entry covers has a byte. -/
theorem MapView.Covers.byte (h : w'.mapView.Covers pid a) (hinv : FrameInv w')
    (hs : ∀ mm, w'.mms.get? pid = some mm → mm.Sound) : (w'.userByte pid a).isSome := by
  obtain ⟨mm, k, m, hmm, hk, ha⟩ := h
  obtain ⟨f, hf⟩ := Option.isSome_iff_exists.mp (hinv.live_frame hmm hk)
  rw [(hs mm hmm).userByte_eq hmm hk ha hf]
  rfl

end Bytes

/-! ### Runs of faults -/

/-- A run of page faults from `w₀` in which every process goes on, with the processes, the addresses
and the outcomes of the faults, the last one first. No fault is a store to a shared entry of several
pages. -/
inductive FaultRun (w₀ : World) : List (Nat × Nat × Except Err Int) → World → Prop where
  | start : FaultRun w₀ [] w₀
  | fault {faults : List (Nat × Nat × Except Err Int)} {w : World} {pid a : Nat}
      {cause : FaultCause} : FaultRun w₀ faults w → w.Resolvable pid a cause →
      (w.after (.pageFault pid a cause)).live pid = true →
      FaultRun w₀ ((pid, a, ((dispatch (.pageFault pid a cause)).run w).1) :: faults)
        (w.after (.pageFault pid a cause))

/-- The round of the dispatch loop that serves a fault. -/
theorem dispatch_pageFault {w₀ : World} {pid a : Nat} {mm₀ : MmState} (cause : FaultCause)
    (hinv : FrameInv w₀) (hmm : w₀.mms.get? pid = some mm₀) (hsound : mm₀.Sound)
    (hres : w₀.Resolvable pid a cause) :
    Triple (fun w => w = w₀) (dispatch (.pageFault pid a cause))
      (fun _ => Resolved w₀ pid mm₀ a)
      (fun _ => Outcome w₀ pid mm₀) := by
  let called : World := { w₀ with activeCallerPid := some pid }
  have hfault : Triple (fun w => w = called) (pageFault pid a cause) _ _ :=
    pageFault_handled cause ((BlindCaller.caller w₀ (some pid)).mpr hinv) hmm hsound hres
  refine Triple.bind (R := fun _ w => w = called) (Triple.modify fun w h => h ▸ rfl) fun _ => ?_
  let After : Except Err Int → World → Prop := Triple.onOutcome
    (fun _ => Resolved w₀ pid mm₀ a)
    fun _ => Outcome w₀ pid mm₀
  refine Triple.bind (R := After) (Triple.attempt (Triple.bind hfault fun _ =>
    Triple.pure fun _ h => h)) fun r => ?_
  refine Triple.bind (R := fun _ => After r) (Triple.modify fun w h => ?_) fun _ => ?_
  · cases r with
    | ok n => exact h
    | error e => exact h
  · cases r with
    | ok n => exact Triple.pure fun _ h => h
    | error e => exact Triple.throw fun _ h => h

/-- What a fault keeps is kept by the request that handles it. -/
theorem dispatch_pageFault_keeps {I : World → Prop} [BlindCaller I] {pid a : Nat}
    {cause : FaultCause} (h : Keeps I (pageFault pid a cause)) :
    Keeps I (dispatch (.pageFault pid a cause)) := by
  have hcaller : ∀ c, Keeps I (modify fun w : World => { w with activeCallerPid := c } : M Unit) :=
    fun c w hw => (BlindCaller.caller w c).mpr hw
  refine Keeps.bind (hcaller _) fun _ => ?_
  refine Keeps.bind (Keeps.attempt (Keeps.bind h fun _ => Keeps.pure _)) fun r => ?_
  exact Keeps.bind (hcaller _) fun _ => Keeps.ofExcept r

/-- A process that goes on after a fault was there before. -/
theorem live_before_pageFault {w : World} {pid a : Nat} {cause : FaultCause}
    (h : (w.after (.pageFault pid a cause)).live pid = true) : ∃ mm, w.mms.get? pid = some mm := by
  by_contra hnone
  have hmms : w.mms.get? pid = none :=
    Option.eq_none_iff_forall_ne_some.mpr fun mm hmm => hnone ⟨mm, hmm⟩
  have hblind : BlindCaller fun w : World => w.mms.get? pid = none := ⟨fun _ _ => rfl⟩
  have hkeeps : Keeps (fun w : World => w.mms.get? pid = none) (pageFault pid a cause) := by
    refine Triple.keeps (Triple.bind (getProcess_at pid) fun t => ?_)
    exact fun w hw => by rw [hw.1] at hw; cases hw.2
  have hafter : (w.after (.pageFault pid a cause)).mms.get? pid = none :=
    dispatch_pageFault_keeps hkeeps w hmms
  rw [World.get?_mms, Option.map_eq_none_iff] at hafter
  rw [World.live, hafter] at h
  cases h

/-- Page faults are not seen by the memory: in a run of faults of any processes with sound tables,
every byte that a process reads at the start it reads at the end, a process without a fault reads
what it read, and the address of a fault that returned can be read. -/
theorem faultRun_transparent {w w' : World} {faults : List (Nat × Nat × Except Err Int)}
    (hw : Reachable w) (hrun : FaultRun w faults w')
    (hsound : ∀ f ∈ faults, ∀ mm, w.mms.get? f.1 = some mm → mm.Sound) :
    (∀ q x b, w.userByte q x = some b → w'.userByte q x = some b) ∧
      (∀ q x, (∀ f ∈ faults, f.1 ≠ q) → w'.userByte q x = w.userByte q x) ∧
      ∀ q x n, (q, x, .ok n) ∈ faults → (w'.userByte q x).isSome := by
  let S (q : Nat) : Prop := ∀ mm, w.mms.get? q = some mm → mm.Sound
  have htabs : AllTabs S True w := by
    intro q mm hq hmm
    have hmap := hmm
    rw [World.get?_mms] at hmap
    obtain ⟨t, ht, rfl⟩ := Option.map_eq_some_iff.mp hmap
    exact ⟨hw.aligned ht, fun _ => hq _ hmm⟩
  -- the frames stay counted and the tables sound, and every fault carries the bytes on
  suffices hall : FrameInv w' ∧ AllTabs S True w' ∧
      (∀ q x b, w.userByte q x = some b → w'.userByte q x = some b) ∧
      (∀ q x, (∀ f ∈ faults, f.1 ≠ q) → w'.userByte q x = w.userByte q x) ∧
      ∀ q x n, (q, x, .ok n) ∈ faults → (w'.userByte q x).isSome from hall.2.2
  induction hrun with
  | start =>
    refine ⟨hw.frameInv, htabs, ?_, fun _ _ _ => rfl, ?_⟩
    · intro _ _ _ h
      exact h
    · intro _ _ _ h
      cases h
  | @fault faults v pid a cause hrun hres hlive ih =>
    obtain ⟨hinv, htidy, hkept, hsame, hread⟩ := ih fun f hf => hsound f (List.mem_cons_of_mem _ hf)
    have hS : S pid := hsound _ (List.mem_cons_self ..)
    have hinv' : FrameInv (v.after (.pageFault pid a cause)) := dispatch_keeps _ v hinv
    have htidy' : AllTabs S True (v.after (.pageFault pid a cause)) :=
      dispatch_pageFault_keeps (pageFault_allTabs hS a cause) v htidy
    obtain ⟨mm, hmm⟩ := live_before_pageFault hlive
    have hs : mm.Sound := (htidy pid mm hS hmm).2 trivial
    have hs' : ∀ mm', (v.after (.pageFault pid a cause)).mms.get? pid = some mm' → mm'.Sound :=
      fun mm' hmm' => (htidy' pid mm' hS hmm').2 trivial
    obtain ⟨hok, herr⟩ := dispatch_pageFault cause hinv hmm hs hres v rfl
    have hgone : ¬ (v.after (.pageFault pid a cause)).live pid = false := by
      rw [hlive]
      exact Bool.noConfusion
    have hhandled : Handled pid mm v.mapView (v.after (.pageFault pid a cause)).mapView := by
      cases hr : ((dispatch (.pageFault pid a cause)).run v).1 with
      | ok n => exact ((hok n hr).resolve_left hgone).1
      | error e => exact (herr e hr).resolve_left hgone
    have hstep : ∀ q x b, v.userByte q x = some b →
        (v.after (.pageFault pid a cause)).userByte q x = some b := by
      intro q x b hb
      by_cases hq : q = pid
      · subst hq
        exact hhandled.bytes_own hinv' hmm hs hs' hb
      · exact (hhandled.bytes_other hinv hinv' hq x).trans hb
    refine ⟨hinv', htidy', fun q x b hb => hstep q x b (hkept q x b hb), ?_, ?_⟩
    · intro q x hq
      have hne : q ≠ pid := fun heq => hq _ (List.mem_cons_self ..) heq.symm
      exact (hhandled.bytes_other hinv hinv' hne x).trans
        (hsame q x fun f hf => hq f (List.mem_cons_of_mem _ hf))
    · intro q x n hmem
      rcases List.mem_cons.mp hmem with heq | hmem
      · -- the fault itself: an entry covers its address
        obtain ⟨rfl, hrest⟩ := Prod.mk.inj heq
        obtain ⟨rfl, hr⟩ := Prod.mk.inj hrest
        exact ((hok n hr.symm).resolve_left hgone).2.byte hinv' hs'
      · obtain ⟨b, hb⟩ := Option.isSome_iff_exists.mp (hread q x n hmem)
        exact Option.isSome_iff_exists.mpr ⟨b, hstep q x b hb⟩

/-- The state after a store of the child to the stack page that it shares with its parent. -/
def sampleShared : World := sampleFork.after (.pageFault 2 0x3ffff000 .store)

/-- After this store, a load of the parent below its stack: the parent has a page there, and no
process has lost a byte. -/
theorem faultRun_transparent_sampleFork :
    (∀ q x b, sampleFork.userByte q x = some b →
      (sampleShared.after (.pageFault 1 0x3fffd000 .load)).userByte q x = some b) ∧
    sampleFork.userByte 1 0x3fffd000 = none ∧
    ((sampleShared.after (.pageFault 1 0x3fffd000 .load)).userByte 1 0x3fffd000).isSome := by
  -- the child stores into a shared page and copies it, and then `init` reads one that it lacks
  have hstore : FaultRun sampleFork
      [(2, 0x3ffff000, ((dispatch (.pageFault 2 0x3ffff000 .store)).run sampleFork).1)]
      sampleShared := by
    refine FaultRun.fault .start (fun m hm _ _ => ?_) (by decide +kernel)
    have hsize : (sampleFork.lookup 2 0x3ffff000).map (·.size) = some PGSIZE := by decide +kernel
    rw [hm] at hsize
    exact Option.some.inj hsize
  have hload : FaultRun sampleFork
      [(1, 0x3fffd000, ((dispatch (.pageFault 1 0x3fffd000 .load)).run sampleShared).1),
        (2, 0x3ffff000, ((dispatch (.pageFault 2 0x3ffff000 .store)).run sampleFork).1)]
      (sampleShared.after (.pageFault 1 0x3fffd000 .load)) :=
    hstore.fault (fun _ _ hcause => by cases hcause) (by decide +kernel)
  have hsound : ∀ q, (sampleFork.mms.get? q).map MmState.soundCheck = some true →
      ∀ mm, sampleFork.mms.get? q = some mm → mm.Sound := by
    intro q h mm hmm
    rw [hmm] at h
    exact MmState.Sound.of_check (Option.some.inj h)
  -- both processes have sound tables at the start, which the check decides
  obtain ⟨hkept, -, hread⟩ := faultRun_transparent sampleFork_reachable hload fun f hf => by
    rcases List.mem_cons.mp hf with rfl | hf
    · exact hsound 1 (by decide +kernel)
    · rw [List.mem_singleton.mp hf]
      exact hsound 2 (by decide +kernel)
  have hok : ((dispatch (.pageFault 1 0x3fffd000 .load)).run sampleShared).1 = .ok 0 := by
    decide +kernel
  exact ⟨hkept, by decide +kernel, hread 1 0x3fffd000 0 (by rw [hok]; exact List.mem_cons_self ..)⟩

end Ape
