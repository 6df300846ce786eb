import Ape.Proofs.AddrViews

/-!
# `Ape.Proofs.SplitPages`: a split replaces an entry by its pages, or nothing happens

`split_large_mapping_into_base_pages` copies each page of a frame into a frame of its own, installs
the copies and puts one entry per page in the place of the old one.
`splitLargeMappingIntoBasePages_view` says what the tables, the frames and the counters are after a
split that succeeds. Here is what they are after one that fails: what they were before. The new
frames so far are in hand (`Temps`), and every error path but one gives them all back. The exception
is a refused unmap of the old range, which is returned with `?`.

An entry of at most one page is left as it is.
-/

set_option autoImplicit false

namespace Ape

open Ape.Lib Cmd

/-- Only frames that are there have a counter. -/
def MapView.Tallied (v : MapView) : Prop := ∀ s, v.Accounted s

/-- A frame that is not there is not counted. -/
theorem MapView.Tallied.refs_none {v : MapView} (h : v.Tallied) {s : Nat} (hs : v.frames s = none) :
    v.refs s = none := (h s).resolve_left fun hsome => by
  rw [hs] at hsome
  cases hsome

/-! ### New frames in hand -/

/-- Apart from the frames in the slots, which are new, nothing has changed. -/
structure Temps (v : MapView) (slots : List Nat) (w : World) : Prop where
  mms : w.mms = v.mms
  refs : w.frameCapRefs = v.refs
  others : ∀ s, s ∉ slots → w.frames s = v.frames s
  fresh : ∀ s ∈ slots, v.frames s = none

namespace Temps

variable {v : MapView} {slots : List Nat} {w w' : World}

/-- The temporary frames are a matter of memory. -/
theorem congr (h : Temps v slots w) (hv : w'.mapView = w.mapView) : Temps v slots w' := by
  have hmms : w'.mms = w.mms := congrArg MapView.mms hv
  have hframes : w'.frames = w.frames := congrArg MapView.frames hv
  have hrefs : w'.frameCapRefs = w.frameCapRefs := congrArg MapView.refs hv
  exact ⟨hmms.trans h.mms, hrefs.trans h.refs, fun s hs => by rw [hframes, h.others s hs], h.fresh⟩

/-- A step that the view does not see. -/
theorem keeps {α : Type} {c : M α} (hc : Frames World.mapView c) : Keeps (Temps v slots) c :=
  fun w h => h.congr (hc w)

/-- Before the first copy there is no temporary frame. -/
theorem of_mapView (h : w.mapView = v) : Temps v [] w where
  mms := congrArg MapView.mms h
  refs := congrArg MapView.refs h
  others s _ := congrFun (congrArg MapView.frames h) s
  fresh s hs := by cases hs

/-- With no new frame in hand, everything is as it was. -/
theorem nil (h : Temps v [] w) : w.mapView = v := by
  have hframes : w.frames = v.frames := funext fun s => h.others s List.not_mem_nil
  rw [World.mapView, h.mms, h.refs, hframes]

/-- The order of the slots does not matter. -/
theorem perm {slots' : List Nat} (h : Temps v slots w) (hmem : ∀ s, s ∈ slots' ↔ s ∈ slots) :
    Temps v slots' w :=
  ⟨h.mms, h.refs, fun s hs => h.others s fun hin => hs ((hmem s).mpr hin),
    fun s hs => h.fresh s ((hmem s).mp hs)⟩

/-- A new frame in a slot that had none. -/
theorem put (h : Temps v slots w) {slot : Nat} (hfree : w.frames slot = none) (fr : Frame) :
    Temps v (slot :: slots)
      { w with frames := fun s => if s = slot then some fr else w.frames s } where
  mms := h.mms
  refs := h.refs
  others s hs := by
    rw [List.mem_cons, not_or] at hs
    exact (if_neg hs.1).trans (h.others s hs.2)
  fresh := by
    intro s hs
    rcases List.mem_cons.mp hs with rfl | hs
    · by_cases hin : s ∈ slots
      · exact h.fresh s hin
      · rw [← h.others s hin, hfree]
    · exact h.fresh s hs

/-- The bytes of a frame in hand may change. -/
theorem writeFrame (h : Temps v slots w) {slot : Nat} (hslot : slot ∈ slots)
    (f : Nat → UInt8 → UInt8) : Temps v slots (w.writeFrame slot f) where
  mms := h.mms
  refs := h.refs
  others s hs := by
    have hne : s ≠ slot := fun heq => hs (heq ▸ hslot)
    exact (if_neg hne).trans (h.others s hs)
  fresh := h.fresh

end Temps

section Undo

variable {v : MapView} (hrefs : v.Tallied) (pid : Nat)

include hrefs

/-- A new frame has one holder, so its release frees it. -/
theorem releaseProcessFrameSlot_temps (slot : Nat) (rest : List Nat) {E : Err → World → Prop} :
    Triple (Temps v (slot :: rest)) (releaseProcessFrameSlot pid slot)
      (fun _ => Temps v rest) E := by
  intro w h
  refine ⟨fun _ _ => ?_, fun e he => absurd he (releaseProcessFrameSlot_total pid slot w e)⟩
  have hnone : v.frames slot = none := h.fresh slot List.mem_cons_self
  have hcount : w.frameCapRefs slot = none := by rw [h.refs, hrefs.refs_none hnone]
  have hview : ((releaseProcessFrameSlot pid slot).run w).2.mapView =
      { w.mapView with frames := fun s => if s = slot then none else w.frames s } := by
    rw [releaseProcessFrameSlot_view, MapView.release, show w.mapView.refs slot = none from hcount]
    rfl
  have hfreed : Temps v rest
      { w with frames := fun s => if s = slot then none else w.frames s } := by
    refine ⟨h.mms, h.refs, ?_, fun s hs => h.fresh s (List.mem_cons_of_mem _ hs)⟩
    intro s hs
    by_cases heq : s = slot
    · subst heq
      exact (if_pos rfl).trans hnone.symm
    · exact (if_neg heq).trans (h.others s (by simp [heq, hs]))
  exact hfreed.congr hview

/-- The temporary frames that are released leave memory as it was. -/
theorem releaseTempFrameSlots_temps (slots : List Nat) {E : Err → World → Prop} :
    Triple (Temps v slots) (releaseTempFrameSlots pid slots) (fun _ w => w.mapView = v) E :=
  (Triple.forEach (Temps v) (fun slot rest => releaseProcessFrameSlot_temps hrefs pid slot rest)
    slots).post fun _ _ h => h.nil

/-- The cleanup of a copy that fails. -/
theorem copyCleanup_temps (src : Nat) (slots : List Nat) {E : Err → World → Prop} :
    Triple (Temps v slots) (do ignore (unmapScratch src); releaseTempFrameSlots pid slots)
      (fun _ w => w.mapView = v) E := by
  have hunmap : Triple (Temps v slots) (ignore (unmapScratch src)) (fun _ => Temps v slots) E := by
    have hkeep : Keeps (Temps v slots) (unmapScratch src) := Temps.keeps (unmapScratch_frames src)
    exact Triple.ignore hkeep.triple
  exact Triple.bind hunmap fun _ => releaseTempFrameSlots_temps hrefs pid slots

/-- The loop of copies holds the new frames, and gives them back when it fails. -/
theorem splitCopyPages_temps (src : Nat) (l slots : List Nat) :
    Triple (Temps v slots) (splitCopyPages pid src l slots) (fun slots' => Temps v slots')
      fun _ w => w.mapView = v := by
  have hstep : ∀ {α : Type} {c : M α} (slots : List Nat), Frames World.mapView c →
      Triple (Temps v slots) c (fun _ => Temps v slots) fun _ => Temps v slots :=
    fun slots hc => (Temps.keeps hc).triple
  induction l generalizing slots with
  | nil => exact Triple.pure fun _ h => h
  | cons idx rest ih =>
    unfold splitCopyPages
    -- a slot without a frame
    refine Triple.bind (R := fun slot w => Temps v slots w ∧ w.frames slot = none) ?_ ?_
    · refine Triple.onError (F := fun _ => Temps v slots) ?_ fun _ =>
        copyCleanup_temps hrefs pid src slots
      intro w h
      have hkeep := (hstep slots cspaceAlloc_frames) w h
      refine ⟨?_, hkeep.2⟩
      intro slot hs
      exact ⟨hkeep.1 slot hs, ((cspaceAlloc_frameless w trivial).1 slot hs).2⟩
    -- a frame in it
    intro slot
    refine Triple.bind (R := fun _ => Temps v (slot :: slots)) ?_ fun _ => ?_
    · refine Triple.onError (F := fun _ => Temps v slots) ?_ fun _ => ?_
      · refine Triple.bind (R := fun _ w => Temps v slots w ∧ w.frames slot = none) (fun w h => ?_)
          fun a => Triple.modify fun w h => h.1.put h.2 ⟨1, a.bytes⟩
        have hv : (ext.run w).2.mapView = w.mapView := ext_frames w
        have hframes : (ext.run w).2.frames = w.frames := congrArg MapView.frames hv
        exact ⟨fun _ _ => ⟨h.1.congr hv, by rw [hframes]; exact h.2⟩, fun _ _ => h.1.congr hv⟩
      · exact Triple.bind (R := fun _ => Temps v slots) (Triple.modify fun w h => h.congr rfl)
          fun _ => copyCleanup_temps hrefs pid src slots
    refine Triple.bind (R := fun _ => Temps v (slot :: slots))
      (Triple.modify fun w h => h.congr rfl)
      fun _ => ?_
    -- the scratch address of the new frame
    refine Triple.bind (R := fun dst w => Temps v (slot :: slots) w ∧
      w.scratch dst = some ⟨slot, 1, Perms.RW⟩) ?_ ?_
    · refine Triple.onError (F := fun _ => Temps v (slot :: slots)) ?_ fun _ => ?_
      · intro w h
        rcases mapScratch_run slot Perms.RW 1 w with ⟨e, hrun⟩ | ⟨a, -, hrun⟩ <;> rw [hrun]
        · exact ⟨fun _ hok => (by cases hok), fun _ _ => h.congr rfl⟩
        · refine ⟨fun a' ha' => ?_, fun _ he => by cases he⟩
          cases ha'
          exact ⟨h.congr rfl, if_pos rfl⟩
      · exact Triple.bind (releaseProcessFrameSlot_temps hrefs pid slot slots)
          fun _ => copyCleanup_temps hrefs pid src slots
    -- the copy
    intro dst
    refine Triple.bind (R := fun _ => Temps v (slot :: slots)) ?_ fun _ => ?_
    · refine Triple.bind (R := fun _ w => Temps v (slot :: slots) w ∧
        w.scratch dst = some ⟨slot, 1, Perms.RW⟩) (Triple.gets fun w h => h) fun byte => ?_
      refine Triple.modify fun w h => ?_
      rw [h.2]
      exact h.1.writeFrame List.mem_cons_self _
    have hunmap : Keeps (Temps v (slot :: slots)) (unmapScratch dst) :=
      Temps.keeps (unmapScratch_frames dst)
    refine Triple.bind (R := fun _ => Temps v (slot :: slots)) (Triple.ignore hunmap.triple)
      fun _ => ?_
    exact (ih (slots ++ [slot])).pre fun w h => h.perm fun s => by simp [or_comm]

/-- The loop that installs the copies gives them back when it fails. -/
theorem splitMapPages_temps (m : MemoryMap) (slots : List Nat) (l : List (Nat × Nat)) :
    Triple (Temps v slots) (splitMapPages pid m slots l) (fun _ => Temps v slots)
      fun _ w => w.mapView = v := by
  induction l with
  | nil => exact Triple.pure fun _ h => h
  | cons e rest ih =>
    refine Triple.bind (R := fun _ => Temps v slots) ?_ fun _ => ih
    have hkeep : Keeps (Temps v slots) (mapProcessFrame pid e.1
        (wAdd m.vaddr (e.2 * PGSIZE)) m.flags 1) :=
      Temps.keeps (mapProcessFrame_frames pid _ _ _ _)
    refine Triple.onError (F := fun _ => Temps v slots) hkeep.triple fun _ => ?_
    -- the pages before it are unmapped, and the old frame is put back
    refine Triple.bind (R := fun _ => Temps v slots) ?_ fun _ =>
      Triple.bind (R := fun _ => Temps v slots)
      ?_ fun _ => releaseTempFrameSlots_temps hrefs pid slots
    · refine Triple.forEach (fun _ => Temps v slots) (fun back _ => Triple.ignore ?_) _
      have hback : Keeps (Temps v slots) (unmapProcessPages pid (wAdd m.vaddr (back * PGSIZE)) 1) :=
        Temps.keeps (unmapProcessPages_frames pid _ _)
      exact hback.triple
    · have hold : Keeps (Temps v slots) (mapProcessFrame pid m.frameCap m.vaddr m.flags m.pages) :=
        Temps.keeps (mapProcessFrame_frames pid _ _ _ _)
      exact Triple.ignore hold.triple

end Undo

/-! ### The parts of a split -/

/-- The copies of a split, up to the unmap of the old range. -/
def splitCopies (pid : Nat) (m : MemoryMap) : M (List Nat) := do
  let src ← mapScratch m.frameCap Perms.R m.pages
  let slots ← splitCopyPages pid src (List.range m.pages) []
  ignore (unmapScratch src)
  pure slots

/-- What comes after the unmap of the old range. -/
def splitInstall (pid : Nat) (m : MemoryMap) (slots : List Nat) : M Unit := do
  splitMapPages pid m slots slots.zipIdx
  let _ ← getProcess pid
  modifyMm pid (·.insertSplit m slots)
  releaseProcessFrameSlot pid m.frameCap

/-- The call that fails is the unmap of the old range. -/
def World.SplitUnmapFails (pid : Nat) (m : MemoryMap) (w : World) : Prop :=
  ∃ slots w₁ e, (splitCopies pid m).run w = (.ok slots, w₁) ∧
    ((unmapProcessPages pid m.vaddr m.pages).run w₁).1 = .error e

section Split

variable {w : World} {pid k : Nat} {mm : MmState} {m : MemoryMap}

/-- The run of a split of an entry of several pages. -/
theorem run_split (hmm : w.mms.get? pid = some mm) (hk : mm.memoryMaps.get? k = some m)
    (htype : isRemappableUserMapping m.memType = true) (hcap : m.frameCap ≠ 0)
    (hpages : 1 < m.pages) :
    (splitLargeMappingIntoBasePages pid k).run w = (splitCopies pid m >>= fun slots =>
      unmapProcessPages pid m.vaddr m.pages >>= fun _ => splitInstall pid m slots).run w := by
  obtain ⟨t, ht, rfl⟩ := run_getProcess_known hmm
  have hgo : ¬ ((!isRemappableUserMapping m.memType || decide (m.frameCap = 0)) = true) := by
    simp [htype, hcap]
  have hmany : ¬ m.pages ≤ 1 := by omega
  rw [splitLargeMappingIntoBasePages, run_bind_ok ht, hk, getSome_bind, if_neg hgo, if_neg hmany]
  simp only [splitCopies, bind_bind]
  rfl

/-- An entry of at most one page is left as it is. -/
theorem run_split_single (hmm : w.mms.get? pid = some mm) (hk : mm.memoryMaps.get? k = some m)
    (hpages : m.pages ≤ 1) : (splitLargeMappingIntoBasePages pid k).run w = (.ok (), w) := by
  obtain ⟨t, ht, rfl⟩ := run_getProcess_known hmm
  rw [splitLargeMappingIntoBasePages, run_bind_ok ht, hk, getSome_bind]
  split <;> rfl

variable {v : MapView} (hrefs : v.Tallied)

include hrefs

/-- The copies are in temporary frames, or nothing is left of them. -/
theorem splitCopies_temps (pid : Nat) (m : MemoryMap) :
    Triple (fun w => w.mapView = v) (splitCopies pid m) (fun slots => Temps v slots)
      fun _ w => w.mapView = v := by
  have hmap : Keeps (fun w => w.mapView = v) (mapScratch m.frameCap Perms.R m.pages) :=
    (mapScratch_frames _ _ _).keeps (· = v)
  refine Triple.bind hmap.triple fun src => ?_
  refine Triple.bind ((splitCopyPages_temps hrefs pid src _ []).pre fun w h => .of_mapView h)
    fun slots => ?_
  have hunmap : Keeps (Temps v slots) (unmapScratch src) := Temps.keeps (unmapScratch_frames src)
  exact Triple.bind (R := fun _ => Temps v slots) (Triple.ignore hunmap.triple) fun _ =>
    Triple.pure fun w h => h

/-- The pages are installed, or the temporary frames are given back. -/
theorem splitInstall_temps (pid : Nat) (m : MemoryMap) (slots : List Nat) {mm : MmState}
    (hmm : v.mms.get? pid = some mm) :
    Triple (Temps v slots) (splitInstall pid m slots)
      (fun _ _ => True) fun _ w => w.mapView = v := by
  refine Triple.bind (splitMapPages_temps hrefs pid m slots _) fun _ => ?_
  -- the process is still there
  refine Triple.bind (R := fun _ _ => True) ?_ fun _ => ?_
  · intro w h
    obtain ⟨t, ht, -⟩ := run_getProcess_known (show w.mms.get? pid = some mm by rw [h.mms, hmm])
    rw [ht]
    exact ⟨fun _ _ => trivial, fun _ he => by cases he⟩
  · refine Triple.bind (R := fun _ _ => True) (Triple.modify fun w h => h) fun _ w _ => ?_
    refine ⟨fun _ _ => trivial, ?_⟩
    intro e he
    exact absurd he (releaseProcessFrameSlot_total pid m.frameCap w e)

omit hrefs

/-- A split that fails leaves the tables alone. It leaves the frames and their counters alone too,
unless it is the unmap of the old range that fails. -/
theorem split_undone (hmm : w.mms.get? pid = some mm) (hk : mm.memoryMaps.get? k = some m)
    (htype : isRemappableUserMapping m.memType = true) (hcap : m.frameCap ≠ 0)
    (hpages : 1 < m.pages)
    (hrefs : w.mapView.Tallied) {e : Err}
    (he : ((splitLargeMappingIntoBasePages pid k).run w).1 = .error e) :
    ((splitLargeMappingIntoBasePages pid k).run w).2.mms = w.mms ∧
      (¬ w.SplitUnmapFails pid m →
        ((splitLargeMappingIntoBasePages pid k).run w).2.mapView = w.mapView) := by
  have hrun := run_split hmm hk htype hcap hpages
  obtain ⟨hcopies, hfail⟩ := splitCopies_temps hrefs pid m w rfl
  -- the copies, the unmap of the old range and the install, each with its own failure
  rcases hc : (splitCopies pid m).run w with ⟨e₁ | slots, w₁⟩ <;> rw [hc] at hcopies hfail
  · rw [hrun, run_bind_error hc]
    exact ⟨congrArg MapView.mms (hfail e₁ rfl), fun _ => hfail e₁ rfl⟩
  have htemps : Temps w.mapView slots w₁ := hcopies slots rfl
  have hkept : Temps w.mapView slots ((unmapProcessPages pid m.vaddr m.pages).run w₁).2 :=
    Temps.keeps (unmapProcessPages_frames pid _ _) w₁ htemps
  rcases hu : (unmapProcessPages pid m.vaddr m.pages).run w₁ with ⟨e₂ | a, w₂⟩ <;> rw [hu] at hkept
  · -- the unmap of the old range fails
    have hend : (splitLargeMappingIntoBasePages pid k).run w = (.error e₂, w₂) := by
      rw [hrun, run_bind_ok hc, run_bind_error hu]
    rw [hend]
    exact ⟨hkept.mms, fun hno => absurd ⟨slots, w₁, e₂, hc, by rw [hu]⟩ hno⟩
  · have hend : (splitLargeMappingIntoBasePages pid k).run w
      = (splitInstall pid m slots).run w₂ := by
      rw [hrun, run_bind_ok hc, run_bind_ok hu]
    rw [hend] at he ⊢
    have hview := (splitInstall_temps hrefs pid m slots hmm w₂ hkept).2 e he
    exact ⟨congrArg MapView.mms hview, fun _ => hview⟩

end Split

/-! ### The split of an entry -/

/-- The entry of page `j` of an entry, in a frame of its own. -/
def MemoryMap.pageOf (m : MemoryMap) (slot j : Nat) : MemoryMap :=
  ⟨wAdd m.vaddr (j * PGSIZE), 0, PGSIZE, m.flags, m.memType, m.cow, slot, m.fileBackingFd,
    m.fileBackingOffset + j * PGSIZE⟩

/-- The entry `m` was replaced by its pages, which are in the frames of the slots. -/
structure SplitInto (pid : Nat) (w : World) (mm : MmState) (m : MemoryMap) (slots : List Nat)
    (w' : World) : Prop where
  /-- One new frame for each page. -/
  length : slots.length = m.pages
  nodup : slots.Nodup
  fresh : ∀ slot ∈ slots, slot ≠ 0 ∧ w.frames slot = none
  /-- One entry for each page, and the other entries as they were. -/
  table : ∃ table, w'.mms.get? pid = some { mm with memoryMaps := table } ∧
    ∀ k e, table.get? k = some e ↔
      (∃ j slot, slots[j]? = some slot ∧ k = wAdd m.vaddr (j * PGSIZE) ∧ e = m.pageOf slot j) ∨
      (k ≠ m.vaddr ∧ mm.memoryMaps.get? k = some e)
  others : ∀ q, q ≠ pid → w'.mms.get? q = w.mms.get? q
  /-- The bytes of each page are those of the page of the old frame. -/
  bytes : ∀ j slot, slots[j]? = some slot → ∃ f, w'.frames slot = some f ∧ f.pages = 1 ∧
    ∀ o, o < PGSIZE → some (f.data o) = (w.frames m.frameCap).map fun g => g.data (j * PGSIZE + o)
  /-- Apart from the copies, one reference to the old frame was released. -/
  released : ∃ frames, Copied w.frames m.frameCap slots frames ∧
    w'.mapView = MapView.release ⟨w'.mms, frames, w.frameCapRefs⟩ m.frameCap

/-- The entries after a split, when no other entry starts inside the old one. -/
theorem MmState.get?_insertSplit_iff {mm : MmState} {m : MemoryMap} {slots : List Nat}
    (hlen : slots.length = m.pages)
    (hinside : ∀ j < m.pages, wAdd m.vaddr (j * PGSIZE) ≠ m.vaddr →
      mm.memoryMaps.get? (wAdd m.vaddr (j * PGSIZE)) = none)
    (hoff : m.fileBackingOffset + m.pages * PGSIZE ≤ 2 ^ 64) (k : Nat) (e : MemoryMap) :
    (mm.insertSplit m slots).memoryMaps.get? k = some e ↔
      (∃ j slot, slots[j]? = some slot ∧ k = wAdd m.vaddr (j * PGSIZE) ∧ e = m.pageOf slot j) ∨
      (k ≠ m.vaddr ∧ mm.memoryMaps.get? k = some e) := by
  -- the offset of a page is in range
  have hentry : ∀ {j slot : Nat}, slots[j]? = some slot →
    splitEntry m slot j = m.pageOf slot j := by
    intro j slot hj
    have hlt : j < m.pages := hlen ▸ (List.getElem?_eq_some_iff.mp hj).1
    have hsat : satAdd m.fileBackingOffset (j * PGSIZE) = m.fileBackingOffset + j * PGSIZE := by
      unfold satAdd usizeMax usizeMod PGSIZE at *
      omega
    rw [splitEntry, hsat]
    rfl
  have hlt : ∀ {j slot : Nat}, slots[j]? = some slot → j < m.pages :=
    fun hj => hlen ▸ (List.getElem?_eq_some_iff.mp hj).1
  by_cases hat : ∃ j < slots.length, k = wAdd m.vaddr (j * PGSIZE)
  · obtain ⟨j, hj, rfl⟩ := hat
    have hget := List.getElem?_eq_getElem hj
    rw [insertSplit_page mm hlen hget, hentry hget]
    constructor
    · intro heq
      exact .inl ⟨j, slots[j], hget, rfl, (Option.some.inj heq).symm⟩
    · rintro (⟨j', slot, hj', heq, rfl⟩ | ⟨hne, hold⟩)
      · obtain rfl : j = j' := m.wAdd_page_inj (hlen ▸ hj) (hlt hj') heq
        rw [hget] at hj'
        rw [Option.some.inj hj']
      · -- an old entry at a page would start inside
        rw [hinside j (hlen ▸ hj) hne] at hold
        cases hold
  · have hpage : ¬ ∃ j slot, slots[j]? = some slot ∧ k = wAdd m.vaddr (j * PGSIZE) ∧
        e = m.pageOf slot j := by
      rintro ⟨j, slot, hj, heq, -⟩
      exact hat ⟨j, (List.getElem?_eq_some_iff.mp hj).1, heq⟩
    by_cases hne : k = m.vaddr
    · -- the old entry is removed
      have hgone : (mm.insertSplit m slots).memoryMaps.get? k = none := by
        have hnot : ∀ d ∈ splitEntries m slots, d.1 = .mapped → d.2.vaddr ≠ k := by
          intro d hd _ heq
          obtain ⟨j, slot, hj, rfl⟩ := mem_splitEntries.mp hd
          exact hat ⟨j, (List.getElem?_eq_some_iff.mp hj).1, heq.symm⟩
        have hother := MmState.get?_foldl_addTo_notMem hnot (mm.removeMemoryMap m.vaddr)
        rw [← MmState.insertSplit_addTo] at hother
        refine Eq.trans hother ?_
        show (mm.memoryMaps.erase m.vaddr).get? k = none
        rw [hne]
        exact OrdMap.get?_erase_self ..
      rw [hgone]
      exact iff_of_false (by simp) fun h => h.elim hpage fun hold => hold.1 hne
    · have hother : (mm.insertSplit m slots).memoryMaps.get? k = mm.memoryMaps.get? k :=
        insertSplit_other (l := .mapped) fun _ => ⟨hne, fun j hj heq => hat ⟨j, hj, heq⟩⟩
      rw [hother]
      constructor
      · intro h
        exact .inr ⟨hne, h⟩
      · intro h
        exact h.elim (fun h => absurd h hpage) fun h => h.2

section Replaces

variable {w : World} {pid k : Nat} {mm : MmState} {m : MemoryMap}

/-- A split that succeeds. -/
theorem split_into (hmm : w.mms.get? pid = some mm) (hk : mm.memoryMaps.get? k = some m)
    (htype : isRemappableUserMapping m.memType = true) (hcap : m.frameCap ≠ 0)
    (hlive : (w.frames m.frameCap).isSome) (hpages : 1 < m.pages)
    (hinside : ∀ j < m.pages, wAdd m.vaddr (j * PGSIZE) ≠ m.vaddr →
      mm.memoryMaps.get? (wAdd m.vaddr (j * PGSIZE)) = none)
    (hoff : m.fileBackingOffset + m.pages * PGSIZE ≤ 2 ^ 64)
    (hok : ((splitLargeMappingIntoBasePages pid k).run w).1 = .ok ()) :
    ∃ slots, SplitInto pid w mm m slots ((splitLargeMappingIntoBasePages pid k).run w).2 := by
  let w' : World := ((splitLargeMappingIntoBasePages pid k).run w).2
  have hstep : SplitStep pid k w.mapView mm m w'.mapView :=
    (splitLargeMappingIntoBasePages_view (v := w.mapView) hmm hk hlive w rfl).1 () hok
  generalize hw' : w'.mapView = v' at hstep
  cases hstep with
  | kept hno => exact absurd ⟨htype, hcap, hpages⟩ hno
  | split slots frames _ hlen hcopied =>
    have hmms : w'.mms = w.mms.modify pid (·.insertSplit m slots) :=
      (congrArg MapView.mms hw').trans (MapView.release_mms _ _)
    -- the release of the old frame changes no other slot
    have hframes : ∀ s, s ≠ m.frameCap → w'.frames s = frames s := fun s hs =>
      (congrFun (congrArg MapView.frames hw') s).trans (MapView.release_frames_ne _ hs)
    refine ⟨slots, hlen, hcopied.nodup, hcopied.fresh, ?_, ?_, ?_, frames, hcopied, ?_⟩
    · refine ⟨(mm.insertSplit m slots).memoryMaps, ?_,
        MmState.get?_insertSplit_iff hlen hinside hoff⟩
      show w'.mms.get? pid = _
      rw [hmms, OrdMap.get?_modify, if_pos rfl, hmm, ← MmState.insertSplit_rest]
      rfl
    · intro q hq
      show w'.mms.get? q = _
      rw [hmms, OrdMap.get?_modify, if_neg hq]
    · -- a copy is not the old frame
      intro j slot hj
      have hne : slot ≠ m.frameCap := by
        intro heq
        have hnone : w.frames slot = none := (hcopied.fresh slot (List.mem_of_getElem? hj)).2
        rw [← heq, hnone] at hlive
        cases hlive
      obtain ⟨f, hf, hone, hdata⟩ := hcopied.bytes j slot hj
      exact ⟨f, (hframes slot hne).trans hf, hone, hdata⟩
    · show w'.mapView = MapView.release ⟨w'.mms, frames, w.frameCapRefs⟩ m.frameCap
      rw [hw', hmms]
      rfl

/-- **A split replaces an entry by its pages, or undoes what it did.** The entry has at least two
pages, and its frame covers it. When the split succeeds, there is one entry for each page in its
place, with the bytes of the page, the other entries are as they were, and one reference to the old
frame is released. When it fails, the tables are as they were, and the frames too unless the unmap
of the old range is refused. An entry of at most one page is left alone. -/
theorem split_replaces_entry (hmm : w.mms.get? pid = some mm) (hk : mm.memoryMaps.get? k = some m)
    (htype : m.memType = .anonymous ∨ m.memType = .fileBacked) (hcap : m.frameCap ≠ 0)
    (hcovers : ∃ fr, w.frames m.frameCap = some fr ∧ m.pages ≤ fr.pages)
    (hinside : ∀ j < m.pages, wAdd m.vaddr (j * PGSIZE) ≠ m.vaddr →
      mm.memoryMaps.get? (wAdd m.vaddr (j * PGSIZE)) = none)
    (hoff : m.fileBackingOffset + m.pages * PGSIZE ≤ 2 ^ 64) (htally : w.mapView.Tallied) :
    (m.pages ≤ 1 → (splitLargeMappingIntoBasePages pid k).run w = (.ok (), w)) ∧
    (1 < m.pages →
      (((splitLargeMappingIntoBasePages pid k).run w).1 = .ok () →
        (∃ slots, SplitInto pid w mm m slots ((splitLargeMappingIntoBasePages pid k).run w).2) ∧
        (FrameInv w → mm.Sound → ∀ a,
          ((splitLargeMappingIntoBasePages pid k).run w).2.userByte pid a = w.userByte pid a)) ∧
      ∀ e, ((splitLargeMappingIntoBasePages pid k).run w).1 = .error e →
        ((splitLargeMappingIntoBasePages pid k).run w).2.mms = w.mms ∧
        (¬ w.SplitUnmapFails pid m →
          ((splitLargeMappingIntoBasePages pid k).run w).2.mapView = w.mapView)) := by
  have htype' : isRemappableUserMapping m.memType = true := by
    rcases htype with h | h <;> rw [h] <;> rfl
  obtain ⟨fr, hfr, -⟩ := hcovers
  have hlive : (w.frames m.frameCap).isSome := hfr ▸ rfl
  refine ⟨fun hone => run_split_single hmm hk hone, fun hpages => ⟨fun hok => ⟨?_, ?_⟩, ?_⟩⟩
  · exact split_into hmm hk htype' hcap hlive hpages hinside hoff hok
  · intro hinv hsound a
    have hstep := (splitLargeMappingIntoBasePages_view (v := w.mapView) hmm hk hlive w rfl).1 () hok
    obtain ⟨mm', hsplit, -⟩ := hstep.splitOf hinv hmm hsound hk
    rw [World.userByte_eq hsplit.mms, World.userByte_eq hmm]
    exact congrArg AddrView.byte (hsplit.views a)
  · intro e he
    exact split_undone hmm hk htype' hcap hpages htally he

end Replaces

/-- Counters are those of frames that are there. -/
theorem FrameInv.tallied {w : World} (h : FrameInv w) : w.mapView.Tallied := by
  intro s
  cases hrefs : w.frameCapRefs s with
  | none => exact .inr hrefs
  | some n => exact .inl (h.shared s n hrefs)

/-- The thread area of `init` is an entry of four pages. -/
def sampleThreadArea : MemoryMap :=
  ((sampleBoot.mms.get? 1).bind fun mm => mm.memoryMaps.get? 0x4fff4000).getD
    (pageEntry 0 Perms.R .stack 0)

/-- The thread area of `init` is split. -/
theorem split_replaces_entry_sampleBoot :
    ∃ mm slots, sampleBoot.mms.get? 1 = some mm ∧
      SplitInto 1 sampleBoot mm sampleThreadArea slots
        ((splitLargeMappingIntoBasePages 1 0x4fff4000).run sampleBoot).2 := by
  obtain ⟨mm, hmm⟩ : ∃ mm, sampleBoot.mms.get? 1 = some mm :=
    Option.isSome_iff_exists.mp (by decide +kernel)
  have htables : ((sampleBoot.mms.get? 1).map fun mm => decide
      (mm.memoryMaps.get? 0x4fff4000 = some sampleThreadArea ∧
        ∀ j < 4, wAdd 0x4fff4000 (j * PGSIZE) ≠ 0x4fff4000 →
          mm.memoryMaps.get? (wAdd 0x4fff4000 (j * PGSIZE)) = none)) = some true := by
    decide +kernel
  rw [hmm] at htables
  obtain ⟨hk, hinside⟩ := of_decide_eq_true (Option.some.inj htables)
  have hframe : (sampleBoot.frames sampleThreadArea.frameCap).map (·.pages) = some 4 := by
    decide +kernel
  obtain ⟨fr, hfr, hpages⟩ := Option.map_eq_some_iff.mp hframe
  have hfour : sampleThreadArea.pages = 4 := by decide +kernel
  have hvaddr : sampleThreadArea.vaddr = 0x4fff4000 := by decide +kernel
  have hsplit := (split_replaces_entry hmm hk (.inl (by decide +kernel)) (by decide +kernel)
    ⟨fr, hfr, by rw [hfour, hpages]⟩ (fun j hj => hvaddr ▸ hinside j (hfour ▸ hj))
    (by decide +kernel) sampleBoot_reachable.frameInv.tallied).2 (by rw [hfour]; decide)
  obtain ⟨slots, hinto⟩ := (hsplit.1 (by decide +kernel)).1
  exact ⟨mm, slots, hmm, hinto⟩

/-- `init` maps one page. -/
def sampleOnePage : World := sampleBoot.after (.syscall 1 (.mmap 0x20000000 4096 3 50 0 0))

/-- An entry of one page is not split: it keeps its frame, whose reference is not released. -/
theorem single_page_keeps_its_frame :
    ∃ mm m, sampleOnePage.mms.get? 1 = some mm ∧ mm.memoryMaps.get? 0x20000000 = some m ∧
      m.memType = .anonymous ∧ m.frameCap ≠ 0 ∧
      (∃ fr, sampleOnePage.frames m.frameCap = some fr ∧ m.pages ≤ fr.pages) ∧
      m.fileBackingOffset + m.pages * PGSIZE ≤ 2 ^ 64 ∧
      ((splitLargeMappingIntoBasePages 1 0x20000000).run sampleOnePage).1 = .ok () ∧
      ¬ ∃ slots, SplitInto 1 sampleOnePage mm m slots
        ((splitLargeMappingIntoBasePages 1 0x20000000).run sampleOnePage).2 := by
  obtain ⟨mm, hmm⟩ : ∃ mm, sampleOnePage.mms.get? 1 = some mm :=
    Option.isSome_iff_exists.mp (by decide +kernel)
  have htables : ((sampleOnePage.mms.get? 1).bind fun mm => mm.memoryMaps.get? 0x20000000).map
      (fun m => decide (m.memType = .anonymous ∧ m.frameCap = 1029 ∧ m.pages = 1 ∧
        m.fileBackingOffset = 0)) = some true := by decide +kernel
  rw [hmm] at htables
  obtain ⟨m, hk, hfacts⟩ := Option.map_eq_some_iff.mp htables
  obtain ⟨htype, hcap, hone, hoff⟩ := of_decide_eq_true hfacts
  have hframe : (sampleOnePage.frames 1029).map (·.pages) = some 1 := by decide +kernel
  obtain ⟨fr, hfr, hpages⟩ := Option.map_eq_some_iff.mp hframe
  have hrun := run_split_single (w := sampleOnePage) hmm hk hone.le
  refine ⟨mm, m, hmm, hk, htype, by rw [hcap]; decide,
    ⟨fr, by rw [hcap, hfr], by rw [hone, hpages]⟩,
    by rw [hone, hoff]; decide, by rw [hrun], ?_⟩
  rintro ⟨slots, hsplit⟩
  rw [hrun] at hsplit
  -- the frame of the page would be a new one
  have hlen : slots.length = 1 := hsplit.length.trans hone
  obtain ⟨slot, rfl⟩ := List.length_eq_one_iff.mp hlen
  obtain ⟨f, hf, -⟩ := hsplit.bytes 0 slot rfl
  rw [(hsplit.fresh slot List.mem_cons_self).2] at hf
  cases hf

end Ape
