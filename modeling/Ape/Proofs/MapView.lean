import Ape.Proofs.Cow
import Ape.Proofs.TableCalls

/-!
# `Ape.Proofs.MapView`: what the memory calls change

A memory call changes the tables of its process, the frames and their counters. `MapView` is
these three. The lemmas say what the steps of the calls do to it: a page that is copied into a
frame of its own, the release of a frame, and the split of an entry of several pages.

`PageRecord` is what an entry records of one address, and `MmState.byteAt` the byte behind it.
-/

set_option autoImplicit false

namespace Ape

open Ape.Lib Cmd

/-! ### The view -/

/-- The tables of the processes, the frames and their counters. -/
structure MapView where
  mms : OrdMap Nat MmState
  frames : Nat → Option Frame
  refs : Nat → Option Nat

/-- What the memory calls change. -/
def World.mapView (w : World) : MapView := ⟨w.mms, w.frames, w.frameCapRefs⟩

/-- What the memory calls change, with the scratch mappings that they copy through. -/
def World.copyView (w : World) : MapView × (Nat → Option Scratch) := (w.mapView, w.scratch)

/-- A change of a record that keeps the memory state keeps the view of memory. -/
theorem World.mapView_modifyTask (w : World) (pid : Nat) {f : TaskStruct → TaskStruct}
    (hf : ∀ t, (f t).mm.state = t.mm.state) : (w.modifyTask pid f).mapView = w.mapView :=
  congrArg (MapView.mk · w.frames w.frameCapRefs) (w.mms_modifyTask pid hf)

/-- A change of a memory state is seen in the view of memory. -/
theorem World.mapView_modifyMm (w : World) (pid : Nat) (f : MmState → MmState) :
    (w.modifyMm pid f).mapView = { w.mapView with mms := w.mms.modify pid f } :=
  congrArg (MapView.mk · w.frames w.frameCapRefs) (w.mms_modifyMm pid f)

instance : BlindTables World.mapView where
  tick _ _ := rfl
  slots _ _ := rfl
  vspace w pid _ := w.mapView_modifyTask pid fun _ => rfl
  tables w pid _ := w.mapView_modifyTask pid fun _ => rfl

instance : BlindSlots World.mapView where
  ledger _ _ := rfl

instance : BlindScratch World.mapView where
  scratch _ _ _ := rfl

instance : BlindMaps World.mapView where
  fileMapLog _ _ := rfl

instance : BlindSlots World.copyView where
  tick _ _ := rfl
  slots _ _ := rfl
  ledger _ _ := rfl

/-- A step that the view does not see keeps what is known of the view. -/
theorem blind_keeps {α γ : Type} {V : World → γ} {c : M α} (h : Frames V c) (S : γ → Prop) :
    Triple (fun w => S (V w)) c (fun _ w => S (V w)) (fun _ _ => True) :=
  (Frames.keeps h S).triple.errors fun _ _ _ => trivial

/-- A command that leaves a view. -/
theorem blind_step {α γ : Type} {V : World → γ} {v : γ} {c : M α} (h : Frames V c) :
    Triple (fun w => V w = v) c (fun _ w => V w = v) (fun _ _ => True) :=
  blind_keeps h (· = v)

/-! ### What is recorded of an address -/

/-- What an entry records of an address: the permissions, the type, and the place in the file
behind it. -/
structure PageRecord where
  flags : Perms
  memType : MemoryType
  fileBackingFd : Option Nat
  fileBackingOffset : Nat
  deriving DecidableEq

/-- The record of an address of an entry. -/
def MemoryMap.recordAt (m : MemoryMap) (a : Nat) : PageRecord :=
  ⟨m.flags, m.memType, m.fileBackingFd, satAdd m.fileBackingOffset (a - m.vaddr)⟩

namespace MmState

/-- The record of an address in one of the tables. -/
def recordAt (mm : MmState) (l : TableKind) (a : Nat) : Option PageRecord :=
  (entryAt (mm.table l) a).map (·.recordAt a)

/-- The byte behind an address. -/
def byteAt (mm : MmState) (frames : Nat → Option Frame) (a : Nat) : Option UInt8 :=
  (mm.lookupMemoryMap a).bind fun m => (frames m.frameCap).map fun fr => fr.data (a - m.vaddr)

end MmState

/-- The byte of a process is read through its tables. -/
theorem World.userByte_eq {w : World} {pid : Nat} {mm : MmState} (h : w.mms.get? pid = some mm)
    (a : Nat) : w.userByte pid a = mm.byteAt w.frames a := by
  rw [World.userByte, World.lookup, h]
  rfl

/-! ### The release of a frame -/

namespace MapView

/-- How often the frame in a slot is held. -/
def holders (v : MapView) (s : Nat) : Nat := if (v.frames s).isSome then (v.refs s).getD 1 else 0

/-- The view after `release_process_frame_slot`. -/
def release (v : MapView) (slot : Nat) : MapView :=
  match v.refs slot with
  | some n =>
    if 1 < n then { v with refs := fun s => if s = slot then some (n - 1) else v.refs s }
    else
      { v with
        refs := fun s => if s = slot then none else v.refs s
        frames := fun s => if s = slot then none else v.frames s }
  | none => { v with frames := fun s => if s = slot then none else v.frames s }

/-- A frame that is released is in no table. -/
@[simp] theorem release_mms (v : MapView) (slot : Nat) : (v.release slot).mms = v.mms := by
  unfold release
  split
  · split <;> rfl
  · rfl

/-- The other frames are left alone. -/
theorem release_frames_ne (v : MapView) {slot s : Nat} (h : s ≠ slot) :
    (v.release slot).frames s = v.frames s := by
  unfold release
  split
  · split
    · rfl
    · exact if_neg h
  · exact if_neg h

/-- So are their counters. -/
theorem release_refs_ne (v : MapView) {slot s : Nat} (h : s ≠ slot) :
    (v.release slot).refs s = v.refs s := by
  unfold release
  split
  · split <;> exact if_neg h
  · rfl

/-- A frame that is released leaves the holders of the others. -/
theorem release_holders_ne (v : MapView) {slot s : Nat} (h : s ≠ slot) :
    (v.release slot).holders s = v.holders s := by
  rw [holders, release_refs_ne v h, release_frames_ne v h, holders]

/-- A frame that is there is held once less. -/
theorem release_holders_self (v : MapView) {slot : Nat} (hlive : (v.frames slot).isSome)
    (hstored : ∀ n, v.refs slot = some n → 1 ≤ n) :
    (v.release slot).holders slot + 1 = v.holders slot := by
  have hbefore : v.holders slot = (v.refs slot).getD 1 := if_pos hlive
  rw [hbefore]
  unfold release
  cases hrefs : v.refs slot with
  | none => simp [holders]
  | some n =>
    have hpos := hstored n hrefs
    by_cases hmany : 1 < n
    · simp only [hmany, if_true, holders, hlive, Option.getD_some]
      omega
    · have hone : n = 1 := by omega
      simp [holders, hone]

end MapView

/-- `release_process_frame_slot`. -/
theorem releaseProcessFrameSlot_view (pid slot : Nat) (w : World) :
    ((releaseProcessFrameSlot pid slot).run w).2.mapView = w.mapView.release slot := by
  have hview : w.mapView.refs slot = w.frameCapRefs slot := rfl
  unfold releaseProcessFrameSlot releaseFrameCap MapView.release
  rw [hview]
  simp only [run_bind, run_gets]
  cases hrefs : w.frameCapRefs slot with
  | none => rfl
  | some n => by_cases hmany : 1 < n <;> simp [hmany, run_bind] <;> rfl

/-! ### The copies of a split -/

/-- The frames after the first pages of the frame `old` were copied to the slots, a page each. -/
structure Copied (frames : Nat → Option Frame) (old : Nat) (slots : List Nat)
    (frames' : Nat → Option Frame) : Prop where
  fresh : ∀ s ∈ slots, s ≠ 0 ∧ frames s = none
  nodup : slots.Nodup
  others : ∀ s, s ∉ slots → frames' s = frames s
  bytes : ∀ j s, slots[j]? = some s → ∃ f, frames' s = some f ∧ f.pages = 1 ∧
    ∀ o, o < PGSIZE → some (f.data o) = (frames old).map fun g => g.data (j * PGSIZE + o)

/-- Nothing was copied yet. -/
theorem Copied.nil (frames : Nat → Option Frame) (old : Nat) : Copied frames old [] frames where
  fresh s hs := by cases hs
  nodup := List.nodup_nil
  others _ _ := rfl
  bytes j s hs := by cases hs

/-- The frame that is copied from is not one of the copies. -/
theorem Copied.old_frame {frames frames' : Nat → Option Frame} {old : Nat} {slots : List Nat}
    (h : Copied frames old slots frames') (hold : (frames old).isSome) :
    frames' old = frames old := by
  refine h.others old fun hmem => ?_
  rw [(h.fresh old hmem).2] at hold
  cases hold

/-- One more copy, in a slot that has no frame yet. -/
theorem Copied.snoc {frames frames' frames'' : Nat → Option Frame} {old slot : Nat}
    {slots : List Nat} (h : Copied frames old slots frames') (hne : slot ≠ 0)
    (hfree : frames' slot = none) {f : Frame} (hslot : frames'' slot = some f)
    (hpages : f.pages = 1)
    (hdata : ∀ o, o < PGSIZE →
      some (f.data o) = (frames old).map fun g => g.data (slots.length * PGSIZE + o))
    (hothers : ∀ s, s ≠ slot → frames'' s = frames' s) :
    Copied frames old (slots ++ [slot]) frames'' := by
  -- the slots so far have frames, and the new one has none
  have hnew : slot ∉ slots := by
    intro hmem
    obtain ⟨j, hj⟩ := List.getElem?_of_mem hmem
    obtain ⟨g, hg, -⟩ := h.bytes j slot hj
    rw [hfree] at hg
    cases hg
  have hfresh : frames slot = none := by rw [← h.others slot hnew, hfree]
  refine ⟨?_, ?_, ?_, ?_⟩
  · intro s hs
    rcases List.mem_append.mp hs with hs | hs
    · exact h.fresh s hs
    · rw [List.mem_singleton.mp hs]
      exact ⟨hne, hfresh⟩
  · refine List.nodup_append.mpr ⟨h.nodup, List.nodup_singleton _, ?_⟩
    intro a ha b hb heq
    rw [List.mem_singleton.mp hb] at heq
    exact hnew (heq ▸ ha)
  · intro s hs
    rw [List.mem_append, not_or, List.mem_singleton] at hs
    rw [hothers s hs.2, h.others s hs.1]
  · intro j s hs
    rcases lt_trichotomy j slots.length with hlt | rfl | hgt
    · rw [List.getElem?_append_left hlt] at hs
      have hmem : s ∈ slots := List.mem_of_getElem? hs
      rw [hothers s fun heq => hnew (heq ▸ hmem)]
      exact h.bytes j s hs
    · rw [List.getElem?_append_right le_rfl, Nat.sub_self] at hs
      cases hs
      exact ⟨f, hslot, hpages, hdata⟩
    · rw [List.getElem?_eq_none (by simp; omega)] at hs
      cases hs

/-- The copy has filled the slots so far, and `src` still maps the frame `old`. -/
structure Copying (v : MapView) (src old : Nat) (slots : List Nat) (w : World) : Prop where
  mms : w.mms = v.mms
  refs : w.frameCapRefs = v.refs
  source : ∃ sc, w.scratch src = some sc ∧ sc.slot = old
  copied : Copied v.frames old slots w.frames

/-- A copy does not depend on what the view does not have. -/
theorem Copying.congr {v : MapView} {src old : Nat} {slots : List Nat} {w w' : World}
    (h : Copying v src old slots w) (hv : w'.copyView = w.copyView) :
    Copying v src old slots w' := by
  have hmap : w'.mapView = w.mapView := congrArg Prod.fst hv
  have hmms : w'.mms = w.mms := congrArg MapView.mms hmap
  have hframes : w'.frames = w.frames := congrArg MapView.frames hmap
  have hrefs : w'.frameCapRefs = w.frameCapRefs := congrArg MapView.refs hmap
  have hscratch : w'.scratch = w.scratch := congrArg Prod.snd hv
  exact ⟨hmms.trans h.mms, hrefs.trans h.refs, by rw [hscratch]; exact h.source,
    by rw [hframes]; exact h.copied⟩

/-- A new slot has no frame. -/
theorem cspaceAlloc_frameless :
    Triple (fun _ => True) cspaceAlloc (fun slot w => slot ≠ 0 ∧ w.frames slot = none)
      (fun _ _ => True) := by
  intro w _
  refine ⟨?_, fun _ _ => trivial⟩
  intro slot hslot
  by_cases hgood : (w.env w.tick).err = none ∧ w.SlotFree (w.env w.tick).val
  · rw [run_cspaceAlloc_ok hgood.1 hgood.2] at hslot ⊢
    cases hslot
    exact ⟨hgood.2.1, by simpa using hgood.2.2.2.1⟩
  · obtain ⟨e, he⟩ := run_cspaceAlloc_error (w := w) (by tauto)
    rw [he] at hslot
    cases hslot

/-- The bytes that a copy leaves in the frame at `slot`, page `idx` of the frame `old`. -/
def pageCopied (frames : Nat → Option Frame) (old slot idx : Nat) : Nat → Option Frame := fun s =>
  if s = slot then (frames s).map fun f => { f with data := fun o =>
    if o < PGSIZE then ((frames old).map fun g => g.data (idx * PGSIZE + o)).getD 0 else f.data o }
  else frames s

/-- A copy between two scratch addresses. -/
theorem run_copyScratch_page {w : World} {src dst idx : Nat} {sc sc' : Scratch}
    (hsrc : w.scratch src = some sc) (hdst : w.scratch dst = some sc') :
    (copyScratch src (idx * PGSIZE) dst PGSIZE).run w
      = (.ok (), { w with frames := pageCopied w.frames sc.slot sc'.slot idx }) := by
  rw [copyScratch, run_gets_bind, writeScratch, run_modify, hdst]
  refine Prod.ext rfl ?_
  show w.writeFrame sc'.slot _ = _
  have hframes : (w.writeFrame sc'.slot fun o b => if o < PGSIZE then
      w.scratchByte src (idx * PGSIZE + o) else b).frames
        = pageCopied w.frames sc.slot sc'.slot idx := by
    funext s
    simp only [World.writeFrame, pageCopied, World.scratchByte, hsrc]
  rw [← hframes]
  rfl

/-- A frame of one page was put in a slot that had none. -/
structure Filling (v : MapView) (src old : Nat) (slots : List Nat) (slot : Nat) (w : World) :
    Prop where
  mms : w.mms = v.mms
  refs : w.frameCapRefs = v.refs
  source : ∃ sc, w.scratch src = some sc ∧ sc.slot = old
  ne : slot ≠ 0
  filled : ∃ frames data, Copied v.frames old slots frames ∧ frames slot = none ∧
    w.frames = fun s => if s = slot then some ⟨1, data⟩ else frames s

/-- A page that is being filled depends on memory and its window only. -/
theorem Filling.congr {v : MapView} {src old slot : Nat} {slots : List Nat} {w w' : World}
    (h : Filling v src old slots slot w) (hmap : w'.mapView = w.mapView)
    (hscratch : w'.scratch src = w.scratch src) : Filling v src old slots slot w' := by
  have hmms : w'.mms = w.mms := congrArg MapView.mms hmap
  have hframes : w'.frames = w.frames := congrArg MapView.frames hmap
  have hrefs : w'.frameCapRefs = w.frameCapRefs := congrArg MapView.refs hmap
  exact ⟨hmms.trans h.mms, hrefs.trans h.refs, by rw [hscratch]; exact h.source, h.ne,
    by rw [hframes]; exact h.filled⟩

/-- The page is copied into the new frame. -/
theorem Filling.copy {v : MapView} {src dst old slot : Nat} {slots : List Nat} {w : World}
    (h : Filling v src old slots slot w) (hold : (v.frames old).isSome) {sc : Scratch}
    (hdst : w.scratch dst = some sc) (hsc : sc.slot = slot) :
    (copyScratch src (slots.length * PGSIZE) dst PGSIZE).run w
        = (.ok (), { w with frames := pageCopied w.frames old slot slots.length }) ∧
      Copied v.frames old (slots ++ [slot]) (pageCopied w.frames old slot slots.length) := by
  obtain ⟨sc', hsrc, hsc'⟩ := h.source
  obtain ⟨frames, data, hcopied, hfree, hframes⟩ := h.filled
  refine ⟨by rw [run_copyScratch_page hsrc hdst, hsc, hsc'], ?_⟩
  -- the old frame is not the new one, and it has its bytes
  have hold' : frames old = v.frames old := hcopied.old_frame hold
  have hne : old ≠ slot := by
    rintro rfl
    rw [← hold', hfree] at hold
    cases hold
  obtain ⟨g, hg⟩ := Option.isSome_iff_exists.mp hold
  have hwold : w.frames old = some g := by rw [hframes]; exact (if_neg hne).trans (hold'.trans hg)
  have hwslot : w.frames slot = some ⟨1, data⟩ := by rw [hframes]; exact if_pos rfl
  have hcopy : pageCopied w.frames old slot slots.length slot = some ⟨1, fun o =>
      if o < PGSIZE then g.data (slots.length * PGSIZE + o) else data o⟩ := by
    rw [pageCopied, if_pos rfl, hwold, hwslot]
    rfl
  refine hcopied.snoc h.ne hfree hcopy rfl ?_ ?_
  · intro o ho
    rw [hg]
    simp only [ho, if_true, Option.map_some]
  · intro s hs
    rw [pageCopied, if_neg hs, hframes]
    exact if_neg hs

/-- The loop of copies fills a slot for every page, in order. -/
theorem splitCopyPages_view {v : MapView} (pid src : Nat) {old : Nat}
    (hold : (v.frames old).isSome) :
    ∀ (n : Nat) (slots : List Nat),
      Triple (Copying v src old slots) (splitCopyPages pid src (List.range' slots.length n) slots)
        (fun r w => r.length = slots.length + n ∧ Copying v src old r w) (fun _ _ => True) := by
  intro n
  induction n with
  | zero => exact fun slots => Triple.pure fun w h => ⟨rfl, h⟩
  | succ n ih =>
    intro slots
    rw [List.range'_succ]
    unfold splitCopyPages
    -- a slot without a frame
    refine Triple.bind (R := fun slot w => Copying v src old slots w ∧ slot ≠ 0 ∧
      w.frames slot = none) (Triple.onError (F := fun _ _ => True) ?_ fun _ => triple_true _) ?_
    · have hkeep : Keeps (Copying v src old slots) cspaceAlloc := fun w h =>
        h.congr (cspaceAlloc_frames (V := World.copyView) w)
      exact (hkeep.triple.and cspaceAlloc_frameless).imp (fun w h => ⟨h, trivial⟩) (fun _ _ h => h)
        fun _ _ _ => trivial
    -- a frame in it
    intro slot
    refine Triple.bind (R := fun _ => Filling v src old slots slot)
      (Triple.onError (F := fun _ _ => True) ?_ fun _ => triple_true _) fun _ => ?_
    · unfold resAllocPage
      refine Triple.bind (R := fun _ w => Copying v src old slots w ∧ slot ≠ 0 ∧
        w.frames slot = none) ?_ fun a => Triple.modify ?_
      · intro w h
        have hv := ext_frames (V := World.copyView) w
        have hframes : (ext.run w).2.frames = w.frames :=
          congrArg (fun p => p.1.frames) hv
        exact ⟨fun _ _ => ⟨h.1.congr hv, h.2.1, by rw [hframes]; exact h.2.2⟩, fun _ _ => trivial⟩
      · intro w h
        exact ⟨h.1.mms, h.1.refs, h.1.source, h.2.1, w.frames, a.bytes, h.1.copied, h.2.2, rfl⟩
    refine Triple.bind (R := fun _ => Filling v src old slots slot) ?_ fun _ => ?_
    · have hkeep : Keeps (Filling v src old slots slot) (ledgerRecordFrameAlloc pid slot) :=
        fun w h => h.congr rfl rfl
      exact hkeep.triple.errors fun _ _ _ => trivial
    -- the scratch address of the new frame is not that of the old one
    refine Triple.bind (R := fun dst w => Filling v src old slots slot w ∧ dst ≠ src ∧
      w.scratch dst = some ⟨slot, 1, Perms.RW⟩)
      (Triple.onError (F := fun _ _ => True) ?_ fun _ => triple_true _) ?_
    · intro w h
      rcases mapScratch_run slot Perms.RW 1 w with ⟨e, hrun⟩ | ⟨a, hfree, hrun⟩ <;> rw [hrun]
      · exact ⟨fun _ hok => (by cases hok), fun _ _ => trivial⟩
      · refine ⟨fun a' ha' => ?_, fun _ _ => trivial⟩
        cases ha'
        have hne : a ≠ src := by
          rintro rfl
          obtain ⟨sc, hsc, -⟩ := h.source
          rw [hfree] at hsc
          cases hsc
        exact ⟨h.congr rfl (if_neg (Ne.symm hne)), hne, if_pos rfl⟩
    -- the copy
    intro dst
    refine Triple.bind (R := fun _ w => Copying v src old (slots ++ [slot]) w ∧ dst ≠ src) ?_
      fun _ => ?_
    · intro w h
      obtain ⟨hfill, hne, hdst⟩ := h
      obtain ⟨hrun, hcopied⟩ := hfill.copy hold hdst rfl
      rw [hrun]
      exact ⟨fun _ _ => ⟨⟨hfill.mms, hfill.refs, hfill.source, hcopied⟩, hne⟩, fun _ _ => trivial⟩
    refine Triple.bind (R := fun _ => Copying v src old (slots ++ [slot])) ?_ fun _ => ?_
    · refine Triple.ignore (fun w h => ?_)
      obtain ⟨hcopying, hne⟩ := h
      rcases unmapScratch_run dst w with ⟨e, hrun⟩ | hrun <;> rw [hrun]
      · exact ⟨fun _ hok => (by cases hok), fun _ _ => hcopying.congr rfl⟩
      · obtain ⟨sc, hsc, hslot⟩ := hcopying.source
        refine ⟨fun _ _ => ⟨hcopying.mms, hcopying.refs, ⟨sc, (if_neg (Ne.symm hne)).trans hsc,
          hslot⟩, hcopying.copied⟩, ?_⟩
        intro _ he
        cases he
    · have hlen : slots.length + 1 = (slots ++ [slot]).length := by simp
      rw [hlen]
      refine (ih (slots ++ [slot])).post fun r w h => ⟨?_, h.2⟩
      rw [h.1, ← hlen]
      omega

/-! ### The split of an entry -/

/-- The view after the entry `m` was split into the pages that were copied to the slots. -/
def MapView.split (v : MapView) (pid : Nat) (m : MemoryMap) (slots : List Nat)
    (frames : Nat → Option Frame) : MapView :=
  MapView.release ⟨v.mms.modify pid (·.insertSplit m slots), frames, v.refs⟩ m.frameCap

/-- What one round of the split does: nothing, to an entry that is not split, or a split. -/
inductive SplitStep (pid k : Nat) (v : MapView) (mm : MmState) (m : MemoryMap) : MapView → Prop
  | kept (hno : ¬ (isRemappableUserMapping m.memType = true ∧ m.frameCap ≠ 0 ∧ 1 < m.pages)) :
    SplitStep pid k v mm m v
  | split (slots : List Nat) (frames : Nat → Option Frame)
    (hty : isRemappableUserMapping m.memType = true) (hlen : slots.length = m.pages)
    (hcopied : Copied v.frames m.frameCap slots frames) :
    SplitStep pid k v mm m (v.split pid m slots frames)

/-- The installation of the copies, when it succeeds. -/
theorem splitMapPages_view {v : MapView} (pid : Nat) (m : MemoryMap) (slots : List Nat) :
    ∀ l : List (Nat × Nat), Triple (fun w => w.mapView = v) (splitMapPages pid m slots l)
      (fun _ w => w.mapView = v) (fun _ _ => True) := by
  intro l
  induction l with
  | nil => exact Triple.pure fun _ h => h
  | cons e rest ih =>
    obtain ⟨slot, idx⟩ := e
    unfold splitMapPages
    refine Triple.bind (Triple.onError (F := fun _ _ => True) (blind_step (by simp)) fun _ =>
      triple_true _) fun _ => ih

/-- What a split does to the view of memory. -/
theorem splitLargeMappingIntoBasePages_view {v : MapView} {pid k : Nat} {mm : MmState}
    {m : MemoryMap}
    (hmm : v.mms.get? pid = some mm) (hk : mm.memoryMaps.get? k = some m)
    (hlive : (v.frames m.frameCap).isSome) :
    Triple (fun w => w.mapView = v) (splitLargeMappingIntoBasePages pid k)
      (fun _ w => SplitStep pid k v mm m w.mapView) (fun _ _ => True) := by
  unfold splitLargeMappingIntoBasePages
  refine Triple.of_pre fun w₀ h₀ => ?_
  have hmms : w₀.mms = v.mms := congrArg MapView.mms h₀
  obtain ⟨t, ht, rfl⟩ : ∃ t, w₀.task? pid = some t ∧ t.mm.state = mm := by
    rw [← hmms, World.get?_mms] at hmm
    exact Option.map_eq_some_iff.mp hmm
  refine Triple.bind (R := fun task w => w.mapView = v ∧ task = t) ?_ ?_
  · rintro w rfl
    rw [run_getProcess ht]
    refine ⟨fun a ha => ?_, fun _ _ => trivial⟩
    cases ha
    exact ⟨h₀, rfl⟩
  intro task
  refine Triple.of_pre fun w₁ h₁ => ?_
  obtain ⟨hv₁, rfl⟩ := h₁
  refine Triple.pre (K := fun w => w.mapView = v) ?_ fun w hw => hw ▸ hv₁
  rw [hk, getSome_bind]
  -- an entry that is not split
  refine Triple.ite (fun hskip => Triple.pure ?_) ?_
  · intro w hw
    rw [hw]
    refine .kept fun h => ?_
    simp [h.1, h.2.1] at hskip
  intro hty
  refine Triple.ite (fun hone => Triple.pure ?_) ?_
  · intro w hw
    rw [hw]
    exact .kept fun h => absurd h.2.2 (by omega)
  -- the copies
  intro hpages
  refine Triple.bind (R := fun src => Copying v src m.frameCap []) ?_ ?_
  · intro w hw
    rcases mapScratch_run m.frameCap Perms.R m.pages w with ⟨e, hrun⟩ | ⟨a, -, hrun⟩ <;> rw [hrun]
    · exact ⟨fun _ hok => (by cases hok), fun _ _ => trivial⟩
    · refine ⟨fun a' ha' => ?_, fun _ _ => trivial⟩
      cases ha'
      have hframes : w.frames = v.frames := congrArg MapView.frames hw
      refine ⟨congrArg MapView.mms hw, congrArg MapView.refs hw, ⟨_, if_pos rfl, rfl⟩, ?_⟩
      show Copied v.frames m.frameCap [] w.frames
      rw [hframes]
      exact Copied.nil _ _
  intro src
  rw [List.range_eq_range']
  refine Triple.bind (splitCopyPages_view pid src hlive m.pages []) fun slots => ?_
  refine Triple.of_pre fun w₂ h₂ => ?_
  obtain ⟨hlen, hcopying⟩ := h₂
  rw [List.length_nil, Nat.zero_add] at hlen
  have hv₂ : w₂.mapView = ⟨v.mms, w₂.frames, v.refs⟩ := by
    rw [World.mapView, hcopying.mms, hcopying.refs]
  -- the copies are installed and take the place of the entry
  refine Triple.pre (K := fun w => w.mapView = ⟨v.mms, w₂.frames, v.refs⟩) ?_ fun w hw => hw ▸ hv₂
  refine Triple.bind (blind_step (by simp)) fun _ => ?_
  refine Triple.bind (blind_step (by simp)) fun _ => ?_
  refine Triple.bind (splitMapPages_view pid m slots _) fun _ => ?_
  refine Triple.bind (blind_step (by simp)) fun _ => ?_
  refine Triple.bind (R := fun _ w => w.mapView
    = ⟨v.mms.modify pid (·.insertSplit m slots), w₂.frames, v.refs⟩) (Triple.modify ?_) fun _ => ?_
  · intro w hw
    have hmms' : (w.modifyMm pid (·.insertSplit m slots)).mms
        = v.mms.modify pid (·.insertSplit m slots) := by
      rw [World.mms_modifyMm, show w.mms = v.mms from congrArg MapView.mms hw]
    have hframes' : w.frames = w₂.frames := congrArg MapView.frames hw
    have hrefs' : w.frameCapRefs = v.refs := congrArg MapView.refs hw
    rw [World.mapView, hmms']
    show MapView.mk _ w.frames w.frameCapRefs = _
    rw [hframes', hrefs']
  · intro w hw
    refine ⟨fun _ _ => ?_, fun _ _ => trivial⟩
    show SplitStep pid k v _ m ((releaseProcessFrameSlot pid m.frameCap).run w).2.mapView
    rw [releaseProcessFrameSlot_view, hw]
    refine .split slots w₂.frames ?_ hlen hcopying.copied
    simp only [Bool.or_eq_true, Bool.not_eq_true', decide_eq_true_eq, not_or,
      Bool.not_eq_false] at hty
    exact hty.1

end Ape
