import Ape.Proofs.Munmap
import Ape.Proofs.Search

/-!
# `Ape.Proofs.Mmap`: what a mapping leaves behind

`mmap` puts an entry at every page of a free range. An anonymous page has a frame of its own, and
a page of a file is lazy. A fixed mapping takes the range out of the tables first.
-/

set_option autoImplicit false

namespace Ape

open Ape.Lib Cmd MmState

/-! ### Entries in a free range -/

namespace MmState

variable {mm mm' : MmState} {es : List (TableKind × MemoryMap)} {start n a : Nat}

/-- Entries in a free range leave what the other addresses have. -/
theorem Sound.viewAt_added {frames frames' : Nat → Option Frame} (h : mm.Sound) (h' : mm'.Sound)
    (hfree : mm.Free start n) (hdis : es.Pairwise fun e e' => e.2.vaddr ≠ e'.2.vaddr)
    (hes : ∀ e ∈ es, start ≤ e.2.vaddr ∧ e.2.vaddr + e.2.size ≤ start + n ∧ 0 < e.2.size)
    (htables : ∀ l, mm'.table l = (es.foldl (fun mm e => mm.addTo e.1 e.2) mm).table l)
    (hframes : ∀ k m, mm.memoryMaps.get? k = some m → frames' m.frameCap = frames m.frameCap)
    (ha : a < start ∨ start + n ≤ a) : mm'.viewAt frames' a = mm.viewAt frames a := by
  refine h.viewAt_congr h' (fun l k m hin => ?_) fun k m hk _ => hframes k m hk
  rw [htables l]
  by_cases hat : ∃ e ∈ es, e.1 = l ∧ e.2.vaddr = k
  · obtain ⟨e, he, rfl, rfl⟩ := hat
    obtain ⟨hlo, hhi, hpos⟩ := hes e he
    obtain ⟨hin₁, hin₂⟩ := hin
    rw [get?_foldl_addTo_mem hdis he]
    constructor
    · -- the new entry is inside the range
      intro heq
      obtain rfl := Option.some.inj heq
      omega
    · -- and there was no entry before
      intro hk
      have hkey : m.vaddr = e.2.vaddr := h.key _ _ m hk
      have hsize : 0 < m.size := (h.paged _ _ m hk).2.2
      have hspan : mm.spans (e.1, e.2.vaddr) = some m.span := by rw [spans, hk]; rfl
      have hno := hfree.clear (e.1, e.2.vaddr) m.span e.2.vaddr hspan hlo (by omega)
      refine absurd ?_ hno
      show m.vaddr ≤ e.2.vaddr ∧ e.2.vaddr < m.vaddr + m.size
      omega
  -- an address outside the added entries has the entry that it had
  · rw [get?_foldl_addTo_notMem fun e he hl hk => hat ⟨e, he, hl, hk⟩]

end MmState

/-! ### New frames -/

/-- A page that is given out. -/
theorem resAllocPage_view {v : MapView} (pages slot : Nat) :
    Triple (fun w => w.mapView = v) (resAllocPage pages slot)
      (fun _ w => ∃ bytes, w.mapView
        = { v with frames := fun s => if s = slot then some ⟨pages, bytes⟩ else v.frames s })
      (fun _ _ => True) := by
  unfold resAllocPage
  refine Triple.bind (blind_step (by simp)) fun a => Triple.modify fun w hw => ?_
  subst hw
  exact ⟨a.bytes, rfl⟩

/-- A new capability slot, with what the memory calls change left alone. -/
theorem cspaceAlloc_mapView {v : MapView} :
    Triple (fun w => w.mapView = v) cspaceAlloc
      (fun slot w => w.mapView = v ∧ slot ≠ 0 ∧ v.frames slot = none) (fun _ _ => True) := by
  rintro w rfl
  refine ⟨?_, fun _ _ => trivial⟩
  intro slot hslot
  have hsame := cspaceAlloc_frames (V := World.mapView) w
  have hfresh := (cspaceAlloc_frameless w trivial).1 slot hslot
  refine ⟨hsame, hfresh.1, ?_⟩
  rw [← hsame]
  exact hfresh.2

/-- The pages got new frames of one page each, in the slots, and their entries are in the table
of the process. -/
structure Populated (pid : Nat) (perms : Perms) (pages slots : List Nat) (v : MapView)
    (mm : MmState) (v' : MapView) : Prop where
  length : slots.length = pages.length
  mms : v'.mms.get? pid = some ((pages.zip slots).foldl
    (fun mm e => mm.addMemoryMap (pageEntry e.1 perms .anonymous e.2)) mm)
  others : ∀ q, q ≠ pid → v'.mms.get? q = v.mms.get? q
  nodup : slots.Nodup
  fresh : ∀ s ∈ slots, s ≠ 0 ∧ v.frames s = none
  made : ∀ s ∈ slots, ∃ f, v'.frames s = some f ∧ f.pages = 1
  kept : ∀ s, s ∉ slots → v'.frames s = v.frames s
  refs : v'.refs = v.refs

/-- The loop of `map_anonymous_range_eager`, when it succeeds. -/
theorem mapAnonymousPages_view (pid : Nat) (perms : Perms) (pages : List Nat) :
    ∀ {v : MapView} {mm : MmState} (mapped : List (Nat × Nat)), v.mms.get? pid = some mm →
      Triple (fun w => w.mapView = v) (mapAnonymousPages pid perms pages mapped)
        (fun _ w => ∃ slots, Populated pid perms pages slots v mm w.mapView) (fun _ _ => True) := by
  induction pages with
  | nil =>
    intro v mm mapped hmm
    refine Triple.pure fun w hw => ⟨[], ?_⟩
    rw [hw]
    exact ⟨rfl, hmm, fun _ _ => rfl, List.nodup_nil, fun _ h => (by cases h),
      fun _ h => (by cases h),
      fun _ _ => rfl, rfl⟩
  | cons page rest ih =>
    intro v mm mapped hmm
    unfold mapAnonymousPages
    refine Triple.bind cspaceAlloc_mapView fun slot => ?_
    refine Triple.of_pre fun w₁ h₁ => ?_
    obtain ⟨hv₁, hne, hnone⟩ := h₁
    refine Triple.pre (K := fun w => w.mapView = v) ?_ fun w hw => hw ▸ hv₁
    refine Triple.bind (Triple.onError (F := fun _ _ => True) (resAllocPage_view 1 slot) fun _ =>
      triple_true _) fun _ => ?_
    refine Triple.of_pre fun w₂ h₂ => ?_
    obtain ⟨bytes, hv₂⟩ := h₂
    let v₂ : MapView :=
      { v with frames := fun s => if s = slot then some ⟨1, bytes⟩ else v.frames s }
    refine Triple.pre (K := fun w => w.mapView = v₂) ?_ fun w hw => hw ▸ hv₂
    refine Triple.bind (blind_step (by simp)) fun _ => ?_
    refine Triple.bind (Triple.onError (F := fun _ _ => True) (blind_step (by simp)) fun _ =>
      triple_true _) fun _ => ?_
    -- the entry of the page, and then the other pages
    let add := fun mm : MmState => mm.addMemoryMap (pageEntry page perms .anonymous slot)
    let v₃ : MapView := { v₂ with mms := v.mms.modify pid add }
    refine Triple.bind (R := fun _ w => w.mapView = v₃) (Triple.modify ?_) fun _ => ?_
    · intro w hw
      have hmms : (w.modifyMm pid add).mms = v.mms.modify pid add := by
        rw [World.mms_modifyMm, show w.mms = v.mms from congrArg MapView.mms hw]
      show MapView.mk (w.modifyMm pid add).mms w.frames w.frameCapRefs = v₃
      rw [hmms, show w.frames = v₂.frames from congrArg MapView.frames hw,
        show w.frameCapRefs = v.refs from congrArg MapView.refs hw]
    have hmm₃ : v₃.mms.get? pid = some (add mm) := by
      show (v.mms.modify pid add).get? pid = _
      rw [OrdMap.get?_modify, if_pos rfl, hmm]
      rfl
    refine (ih ((page, slot) :: mapped) hmm₃).post fun _ w hw => ?_
    obtain ⟨slots, hpop⟩ := hw
    have hnot : slot ∉ slots := by
      intro hmem
      have hused : v₃.frames slot = none := (hpop.fresh slot hmem).2
      rw [show v₃.frames slot = some ⟨1, bytes⟩ from if_pos rfl] at hused
      cases hused
    refine ⟨slot :: slots, ?_⟩
    refine
      { length := by rw [List.length_cons, List.length_cons, hpop.length]
        mms := hpop.mms
        others := fun q hq => (hpop.others q hq).trans ?_
        nodup := List.nodup_cons.mpr ⟨hnot, hpop.nodup⟩
        fresh := fun s hs => ?_
        made := fun s hs => ?_
        kept := fun s hs => ?_
        refs := hpop.refs }
    · show (v.mms.modify pid add).get? q = v.mms.get? q
      rw [OrdMap.get?_modify, if_neg hq]
    · rcases List.mem_cons.mp hs with rfl | hs
      · exact ⟨hne, hnone⟩
      · obtain ⟨hs0, hsnone⟩ := hpop.fresh s hs
        have hss : s ≠ slot := fun heq => hnot (heq ▸ hs)
        refine ⟨hs0, ?_⟩
        rwa [show v₃.frames s = v.frames s from if_neg hss] at hsnone
    · rcases List.mem_cons.mp hs with rfl | hs
      · exact ⟨⟨1, bytes⟩, (hpop.kept s hnot).trans (if_pos rfl), rfl⟩
      · exact hpop.made s hs
    · rw [List.mem_cons, not_or] at hs
      exact (hpop.kept s hs.2).trans (if_neg hs.1)

/-- The lazy entry of a page of a file. -/
def filePage (start : Nat) (perms : Perms) (fd offset p : Nat) : MemoryMap :=
  lazyEntry p perms .fileBacked (some fd) (offset + (p - start))

/-- The loop of a file mapping, when it succeeds. -/
theorem mapFilePages_view (pid start : Nat) (perms : Perms) (fd offset : Nat) (pages : List Nat) :
    ∀ {v : MapView} {mm : MmState}, v.mms.get? pid = some mm →
      Triple (fun w => w.mapView = v)
        (forEach pages fun page => do
          let backing ← getSome (checkedAdd offset (page - start)) .outOfMemory
          modifyMm pid (·.addLazyMemoryMap (lazyEntry page perms .fileBacked (some fd) backing)))
        (fun _ w => w.mapView.mms.get? pid = some (pages.foldl
            (fun mm p => mm.addLazyMemoryMap (filePage start perms fd offset p)) mm) ∧
          (∀ q, q ≠ pid → w.mapView.mms.get? q = v.mms.get? q) ∧ w.mapView.frames = v.frames)
        (fun _ _ => True) := by
  -- induction over the pages: each adds its lazy entry to the table of before
  induction pages with
  | nil =>
    intro v mm hmm
    refine Triple.pure fun w hw => ?_
    rw [hw]
    exact ⟨hmm, fun _ _ => rfl, rfl⟩
  | cons page rest ih =>
    intro v mm hmm
    let add := fun mm : MmState => mm.addLazyMemoryMap (filePage start perms fd offset page)
    let v₁ : MapView := { v with mms := v.mms.modify pid add }
    have hmm₁ : v₁.mms.get? pid = some (add mm) := by
      show (v.mms.modify pid add).get? pid = _
      rw [OrdMap.get?_modify, if_pos rfl, hmm]
      rfl
    -- the offset of the page is computed with a checked sum, or the call fails
    refine Triple.bind (R := fun _ w => w.mapView = v₁) ?_ fun _ => ?_
    · refine Triple.bind (R := fun b w => w.mapView = v ∧ checkedAdd offset (page - start) = some b)
        (Triple.getSome (fun b w hb hw => ⟨hw, hb⟩) fun _ _ _ => trivial) fun b => ?_
      refine Triple.modify fun w hw => ?_
      obtain ⟨hview, hb⟩ := hw
      obtain ⟨rfl, -⟩ := checkedAdd_some hb
      have hmms : (w.modifyMm pid add).mms = v.mms.modify pid add := by
        rw [World.mms_modifyMm, show w.mms = v.mms from congrArg MapView.mms hview]
      show MapView.mk (w.modifyMm pid add).mms w.frames w.frameCapRefs = v₁
      rw [hmms, show w.frames = v.frames from congrArg MapView.frames hview,
        show w.frameCapRefs = v.refs from congrArg MapView.refs hview]
    · refine (ih hmm₁).post fun _ w hw => ?_
      obtain ⟨hget, hothers, hframes⟩ := hw
      refine ⟨hget, fun q hq => (hothers q hq).trans ?_, hframes⟩
      show (v.mms.modify pid add).get? q = v.mms.get? q
      rw [OrdMap.get?_modify, if_neg hq]

/-! ### A mapped range -/

/-- The page of a new mapping: an anonymous entry with a frame that nothing else uses, or a lazy
entry of the file. -/
def NewPage (v' : MapView) (pid : Nat) (mm' : MmState) (start : Nat) (perms : Perms) (p : Nat) :
    Option (Nat × Nat) → Prop
  | none => ∃ slot, mm'.memoryMaps.get? p = some (pageEntry p perms .anonymous slot) ∧
      (v'.frames slot).isSome ∧
      ∀ q mm k m, v'.mms.get? q = some mm → mm.memoryMaps.get? k = some m → m.frameCap = slot →
        q = pid ∧ k = p
  | some (fd, offset) => mm'.lazyMemoryMaps.get? p = some (filePage start perms fd offset p)

/-- A range was mapped: every page of it has a new entry, every other address has what it had,
and the entries of the image, the heap and the stack stay. -/
structure RangeMapped (pid start n : Nat) (perms : Perms) (backing : Option (Nat × Nat))
    (v : MapView) (mm : MmState) (v' : MapView) (mm' : MmState) : Prop where
  mms : v'.mms.get? pid = some mm'
  others : ∀ q, q ≠ pid → v'.mms.get? q = v.mms.get? q
  pages : ∀ p ∈ pageRange start (start + n), NewPage v' pid mm' start perms p backing
  kept : ∀ a, a < start ∨ start + n ≤ a → mm'.viewAt v'.frames a = mm.viewAt v.frames a
  fixed : ∀ k m, isRemappableUserMapping m.memType = false →
    (mm'.memoryMaps.get? k = some m ↔ mm.memoryMaps.get? k = some m)

/-- A mapping into a range that was taken out of the tables. -/
theorem RangeRemoved.then_mapped {pid start n : Nat} {perms : Perms} {backing : Option (Nat × Nat)}
    {v v' v'' : MapView} {mm mm' mm'' : MmState}
    (h : RangeRemoved pid start (start + n) v mm v' mm')
    (h' : RangeMapped pid start n perms backing v' mm' v'' mm'') :
    RangeMapped pid start n perms backing v mm v'' mm'' where
  mms := h'.mms
  others q hq := (h'.others q hq).trans (h.others q hq)
  pages := h'.pages
  kept a ha := (h'.kept a ha).trans (h.kept a (ha.elim .inl fun hhi => .inr (.inl hhi)))
  fixed k m hm := (h'.fixed k m hm).trans (h.fixed k m hm)

section Mapping

variable {w₀ : World} {pid start n : Nat} {mm : MmState}

/-- The pages of a range are different. -/
theorem pageRange_distinct (start stop : Nat) : (pageRange start stop).Pairwise fun p q => p ≠ q :=
  (pageRange_ordered start stop).imp fun {p q} hle => by
    have hpos : 0 < PGSIZE := by decide
    omega

/-- New entries at the pages of a free range. -/
theorem rangeMapped_of_added {w : World} (hinv : FrameInv w₀) (hmm : w₀.mms.get? pid = some mm)
    (hsound : mm.Sound) (hfree : mm.Free start n)
    (hstart : start % PGSIZE = 0) (hn : n % PGSIZE = 0) (hlt : start + n < usizeMod) {perms : Perms}
    {backing : Option (Nat × Nat)} {es : List (TableKind × MemoryMap)}
    (hpages : es.map (·.2.vaddr) = pageRange start (start + n))
    (hes : ∀ e ∈ es, e.2.size = PGSIZE ∧ isRemappableUserMapping e.2.memType = true ∧
      (e.1 = .mapped → e.2.frameCap ≠ 0))
    (hmms : w.mms.get? pid = some (es.foldl (fun mm e => mm.addTo e.1 e.2) mm))
    (hothers : ∀ q, q ≠ pid → w.mms.get? q = w₀.mms.get? q)
    (hframes : ∀ s, (w₀.frames s).isSome → w.frames s = w₀.frames s)
    (hnew : ∀ e ∈ es, NewPage w.mapView pid (es.foldl (fun mm e => mm.addTo e.1 e.2) mm) start perms
      e.2.vaddr backing) :
    ∃ mm', RangeMapped pid start n perms backing w₀.mapView mm w.mapView mm' ∧ mm'.Sound := by
  -- the pages are free and page-sized, so they can be added to a sound table
  have hroom := hfree.roomFor hstart hn hlt
  have hsound' := hsound.addPages es (by rw [hpages]; exact hroom) fun e he =>
    ⟨(hes e he).1, (hes e he).2.2⟩
  have hdis : es.Pairwise fun e e' => e.2.vaddr ≠ e'.2.vaddr := by
    have hd := pageRange_distinct start (start + n)
    rw [← hpages] at hd
    exact List.pairwise_map.mp hd
  have hat : ∀ e ∈ es, e.2.vaddr ∈ pageRange start (start + n) := by
    intro e he
    rw [← hpages]
    exact List.mem_map_of_mem he
  refine ⟨_, ?_, hsound'⟩
  refine
    { mms := hmms
      others := hothers
      pages := fun p hp => ?_
      kept := fun a ha => ?_
      fixed := fun k m hfix => ?_ }
  -- each page of the range, the addresses outside of it, and the fixed regions
  · rw [← hpages] at hp
    obtain ⟨e, he, rfl⟩ := List.mem_map.mp hp
    exact hnew e he
  · refine hsound.viewAt_added hsound' hfree hdis (fun e he => ?_) (fun _ => rfl)
      (fun k m hk => hframes _ (hinv.live_frame hmm hk)) ha
    obtain ⟨hlo, hhi, -⟩ := pageRange_le hn (hat e he)
    have hpos : 0 < PGSIZE := by decide
    rw [(hes e he).1]
    exact ⟨hlo, hhi, hpos⟩
  · -- a new entry is none of the image, the heap and the stack, and was not there before
    by_cases hin : ∃ e ∈ es, e.1 = .mapped ∧ e.2.vaddr = k
    · obtain ⟨e, he, hl, rfl⟩ := hin
      have hget := MmState.get?_foldl_addTo_mem hdis he mm
      rw [hl] at hget
      obtain ⟨hlo, hhi, -⟩ := pageRange_le hn (hat e he)
      have hpos : 0 < PGSIZE := by decide
      constructor
      · intro hk
        rw [show (es.foldl (fun mm e => mm.addTo e.1 e.2) mm).memoryMaps.get? e.2.vaddr = some e.2
          from hget] at hk
        rw [← Option.some.inj hk, (hes e he).2.1] at hfix
        cases hfix
      · intro hk
        have hkey : m.vaddr = e.2.vaddr := hsound.key .mapped _ m hk
        have hsize : 0 < m.size := (hsound.paged .mapped _ m hk).2.2
        have hspan : mm.spans (.mapped, e.2.vaddr) = some m.span := by
          show ((mm.memoryMaps.get? e.2.vaddr).map MemoryMap.span) = _
          rw [hk]
          rfl
        refine absurd ?_ (hfree.clear (.mapped, e.2.vaddr) m.span e.2.vaddr hspan hlo (by omega))
        show m.vaddr ≤ e.2.vaddr ∧ e.2.vaddr < m.vaddr + m.size
        omega
    -- at an address where nothing was added the table is the old one
    · have hsame := MmState.get?_foldl_addTo_notMem (l := .mapped) (k := k)
        (fun e he hl hk => hin ⟨e, he, hl, hk⟩) mm
      rw [show (es.foldl (fun mm e => mm.addTo e.1 e.2) mm).memoryMaps.get? k
        = mm.memoryMaps.get? k from hsame]

/-- The pages of a new mapping are in the tables. -/
theorem mapNewRange_view (hinv : FrameInv w₀) (hmm : w₀.mms.get? pid = some mm) (hsound : mm.Sound)
    (hfree : mm.Free start n) (hstart : start % PGSIZE = 0) (hn : n % PGSIZE = 0)
    (hlt : start + n < usizeMod) (perms : Perms) (backing : Option (Nat × Nat)) :
    Triple (fun w => w = w₀) (mapNewRange pid start (start + n) perms backing)
      (fun _ w => FrameInv w ∧ ∃ mm', RangeMapped pid start n perms backing w₀.mapView
        mm w.mapView mm'
        ∧ mm'.Sound) (fun _ _ => True) := by
  have hacct := mapNewRange_acct pid start (start + n) perms backing
  cases backing with
  | some file =>
    obtain ⟨fd, offset⟩ := file
    have hrun : Triple (fun w => w.mapView = w₀.mapView)
        (mapNewRange pid start (start + n) perms (some (fd, offset)))
        (fun _ w => w.mapView.mms.get? pid = some ((pageRange start (start + n)).foldl
            (fun mm p => mm.addLazyMemoryMap (filePage start perms fd offset p)) mm) ∧
          (∀ q, q ≠ pid → w.mapView.mms.get? q = w₀.mms.get? q) ∧
          w.mapView.frames = w₀.frames) (fun _ _ => True) := by
      refine Triple.bind (blind_step (logFileMap_frames _)) fun _ => ?_
      exact Triple.bind (blind_step (by simp)) fun _ =>
        mapFilePages_view pid start perms fd offset _ hmm
    rintro w rfl
    refine ⟨?_, fun _ _ => trivial⟩
    intro a ha
    have hinv' := (hacct w ⟨hinv, mm, hmm, fun e he => by cases he⟩).1 a ha
    obtain ⟨hmms, hothers, hframes⟩ := (hrun w rfl).1 a ha
    -- the pages become lazy entries that name the file and the offset
    let es := (pageRange start (start + n)).map fun p =>
      (TableKind.lazily, filePage start perms fd offset p)
    have hfold : (pageRange start (start + n)).foldl
        (fun mm p => mm.addLazyMemoryMap (filePage start perms fd offset p)) mm
        = es.foldl (fun mm e => mm.addTo e.1 e.2) mm := by
      rw [List.foldl_map]
      rfl
    have hvaddrs : es.map (·.2.vaddr) = pageRange start (start + n) := by
      show ((pageRange start (start + n)).map _).map _ = _
      rw [List.map_map]
      exact List.map_id _
    have hdis : es.Pairwise fun e e' => e.2.vaddr ≠ e'.2.vaddr := by
      have hd := pageRange_distinct start (start + n)
      rw [← hvaddrs] at hd
      exact List.pairwise_map.mp hd
    refine ⟨hinv', rangeMapped_of_added hinv hmm hsound hfree hstart hn hlt hvaddrs ?_ ?_
      hothers (fun s _ => congrFun hframes s) ?_⟩
    · intro e he
      obtain ⟨p, -, rfl⟩ := List.mem_map.mp he
      exact ⟨rfl, rfl, fun hl => by cases hl⟩
    · rw [← hfold]
      exact hmms
    · intro e he
      have hget := get?_foldl_addTo_mem hdis he mm
      obtain ⟨p, -, rfl⟩ := List.mem_map.mp he
      exact hget
  | none =>
    have hrun : Triple (fun w => w.mapView = w₀.mapView)
        (mapNewRange pid start (start + n) perms none)
        (fun _ w => ∃ slots, Populated pid perms (pageRange start (start + n)) slots w₀.mapView mm
          w.mapView) (fun _ _ => True) := mapAnonymousPages_view pid perms _ [] hmm
    rintro w rfl
    refine ⟨?_, fun _ _ => trivial⟩
    intro a ha
    have hinv' := (hacct w ⟨hinv, mm, hmm, fun e he => by cases he⟩).1 a ha
    obtain ⟨slots, hpop⟩ := (hrun w rfl).1 a ha
    let w' := ((mapNewRange pid start (start + n) perms none).run w).2
    -- the pages become entries with frames of their own
    let es := ((pageRange start (start + n)).zip slots).map fun e =>
      (TableKind.mapped, pageEntry e.1 perms .anonymous e.2)
    have hfold : ((pageRange start (start + n)).zip slots).foldl
        (fun mm e => mm.addMemoryMap (pageEntry e.1 perms .anonymous e.2)) mm
        = es.foldl (fun mm e => mm.addTo e.1 e.2) mm := by
      rw [List.foldl_map]
      rfl
    have hvaddrs : es.map (·.2.vaddr) = pageRange start (start + n) := by
      show (((pageRange start (start + n)).zip slots).map _).map _ = _
      rw [List.map_map]
      exact List.map_fst_zip hpop.length.ge
    have hdis : es.Pairwise fun e e' => e.2.vaddr ≠ e'.2.vaddr := by
      -- distinct pages, so what is added at one of them is found there
      have hd := pageRange_distinct start (start + n)
      rw [← hvaddrs] at hd
      exact List.pairwise_map.mp hd
    have hmms : w'.mms.get? pid = some (es.foldl (fun mm e => mm.addTo e.1 e.2) mm) := by
      rw [← hfold]
      exact hpop.mms
    refine ⟨hinv', rangeMapped_of_added hinv hmm hsound hfree hstart hn hlt hvaddrs ?_ hmms
      hpop.others (fun s hs => hpop.kept s ?_) ?_⟩
    · intro e he
      obtain ⟨e', he', rfl⟩ := List.mem_map.mp he
      exact ⟨rfl, rfl, fun _ => (hpop.fresh _ (List.of_mem_zip he').2).1⟩
    · intro hmem
      rw [show w.frames s = none from (hpop.fresh s hmem).2] at hs
      cases hs
    · intro e he
      have hget := get?_foldl_addTo_mem hdis he mm
      obtain ⟨⟨p, slot⟩, he', rfl⟩ := List.mem_map.mp he
      have hslot : slot ∈ slots := (List.of_mem_zip he').2
      obtain ⟨f, hf, -⟩ := hpop.made slot hslot
      refine ⟨slot, hget, ?_, ?_⟩
      · rw [show w'.mapView.frames slot = some f from hf]
        rfl
      · -- no other process had the frame, and this one has it once
        intro q mm'' k m hq hk hcap
        by_cases hpid : q = pid
        · subst hpid
          rw [show w'.mapView.mms.get? q = some _ from hmms] at hq
          cases hq
          exact ⟨rfl, entry_of_frame (hinv'.uses_le_one hmms) hget hk hcap⟩
        · rw [show w'.mapView.mms.get? q = w.mms.get? q from hpop.others q hpid] at hq
          have hlive := hinv.live_frame hq hk
          rw [hcap, show w.frames slot = none from (hpop.fresh slot hslot).2] at hlive
          cases hlive

end Mapping

/-! ### `mmap` -/

/-- The start of the next search is no part of the range. -/
theorem RangeMapped.setNext {pid start n next : Nat} {perms : Perms} {backing : Option (Nat × Nat)}
    {v v' : MapView} {mm mm' : MmState} (h : RangeMapped pid start n perms backing v mm v' mm') :
    RangeMapped pid start n perms backing v mm
      { v' with mms := v'.mms.modify pid fun mm => { mm with mmapNext := max mm.mmapNext next } }
      { mm' with mmapNext := max mm'.mmapNext next } where
  mms := by
    show (v'.mms.modify pid _).get? pid = _
    rw [OrdMap.get?_modify, if_pos rfl, h.mms]
    rfl
  others q hq := by
    show (v'.mms.modify pid _).get? q = _
    rw [OrdMap.get?_modify, if_neg hq, h.others q hq]
  pages p hp := by
    have hpage := h.pages p hp
    -- only an anonymous page speaks of tables, and the next address is none of their entries
    cases backing with
    | some file => exact hpage
    | none =>
      obtain ⟨slot, hget, hlive, halone⟩ := hpage
      refine ⟨slot, hget, hlive, ?_⟩
      intro q mm'' k m hq hk hcap
      have hq' : (v'.mms.modify pid fun mm => { mm with mmapNext := max mm.mmapNext next }).get? q
        = some mm'' := hq
      rw [OrdMap.get?_modify] at hq'
      split at hq'
      · obtain ⟨mm₁, hmm₁, rfl⟩ := Option.map_eq_some_iff.mp hq'
        exact halone q mm₁ k m hmm₁ hk hcap
      · exact halone q mm'' k m hq' hk hcap
  kept := h.kept
  fixed := h.fixed

/-- The end of `do_mmap`: the next search starts after the range. -/
theorem setNext_mapped {w₁ : World} {pid start n next : Nat} {perms : Perms}
    {backing : Option (Nat × Nat)} {v : MapView} {mm mm' : MmState}
    (h : RangeMapped pid start n perms backing v mm w₁.mapView mm') (hinv : FrameInv w₁)
    (hsound : mm'.Sound) (hnext : next % PGSIZE = 0) :
    Triple (fun w => w = w₁)
      (modifyMm pid fun mm => { mm with mmapNext := max mm.mmapNext next })
      (fun _ w => FrameInv w ∧ ∃ mm', RangeMapped pid start n perms backing v mm w.mapView mm'
        ∧ mm'.Sound) (fun _ _ => True) := by
  rintro w rfl
  refine ⟨fun a ha => ⟨?_, _, ?_, hsound.setNext (hsound.aligned.max_next hnext)⟩,
    fun _ _ => trivial⟩
  · exact modifyMm_keeps_of_maps (f := fun mm => { mm with mmapNext := max mm.mmapNext next })
      (fun _ => rfl) w hinv
  · have hmms : ((modifyMm pid fun mm => { mm with mmapNext := max mm.mmapNext next }).run w).2.mms
        = w.mms.modify pid fun mm => { mm with mmapNext := max mm.mmapNext next } :=
      w.mms_modifyMm pid _
    show RangeMapped pid start n perms backing v mm ⟨_, _, _⟩ _
    rw [hmms]
    exact h.setNext

/-- A `do_mmap` to a fixed address. -/
theorem mmapFixed_view {w₀ : World} {pid addr len : Nat} {mm : MmState} (h : FrameInv w₀)
    (hmm : w₀.mms.get? pid = some mm) (hsound : mm.Sound) (hlen : len % PGSIZE = 0) (perms : Perms)
    (backing : Option (Nat × Nat)) :
    Triple (fun w => w = w₀) (mmapFixed pid addr len perms backing)
      (fun start w => (start = addr ∧ addr % PGSIZE = 0) ∧ FrameInv w ∧
        ∃ mm', RangeMapped pid addr len perms backing w₀.mapView mm w.mapView mm' ∧ mm'.Sound)
      (fun _ _ => True) := by
  unfold mmapFixed
  refine Triple.ite (fun _ => Triple.throw fun _ _ => trivial) fun hpage => ?_
  have haddr : addr % PGSIZE = 0 := not_not.mp hpage
  refine Triple.bind (R := fun stop w => w = w₀ ∧ checkedAdd addr len = some stop)
    (Triple.getSome (fun stop w hs hw => ⟨hw, hs⟩) fun _ _ _ => trivial) fun stop => ?_
  refine Triple.of_pre fun w h₁ => ?_
  obtain ⟨rfl, hstop⟩ := h₁
  obtain ⟨rfl, hlt⟩ := checkedAdd_some hstop
  -- the split
  refine Triple.bind (ensurePartialMultiPageRangesSplit_view h hmm hsound addr (addr + len))
    fun _ => ?_
  refine Triple.of_pre fun w₁ h₁ => ?_
  obtain ⟨hinv₁, mm₁, hsplit, hsound₁, ht⟩ := h₁
  refine Triple.bind (getProcess_known hsplit.mms) fun task => ?_
  refine Triple.of_pre fun w₂ h₂ => ?_
  obtain ⟨rfl, rfl⟩ := h₂
  refine Triple.bind (R := fun _ w => w = w₂ ∧
      task.mm.state.checkFixed addr (addr + len) = .ok ())
    (Triple.ofExcept (fun _ w hr hw => ⟨hw, hr⟩) fun _ _ _ _ => trivial) fun _ => ?_
  refine Triple.of_pre fun w₃ h₃ => ?_
  obtain ⟨rfl, hcheck⟩ := h₃
  -- the range is taken out of the tables
  refine Triple.bind (modifyMm_takenOut hinv₁ hsplit.mms _) fun _ => ?_
  refine Triple.bind (unmapRanges_removed hinv₁ hsplit.mms hsound₁ haddr hlen ht) fun _ => ?_
  refine Triple.of_pre fun w₄ h₄ => ?_
  obtain ⟨hinv₄, hremoved⟩ := h₄
  have hnone : task.mm.state.splitPartialMultiPageTargets addr (addr + len) = [] :=
    List.eq_nil_iff_forall_not_mem.mpr fun v hv => List.not_mem_nil (ht v hv)
  have hfree := hsound₁.free_fixed haddr hnone hcheck
  have hsound₄ := hsound₁.within (within_removeRanges task.mm.state
    (pageRange addr (addr + len)) (task.mm.state.mappedRanges (pageRange addr (addr + len))))
  have hremoved' := hsplit.removed hsound hsound₁ hremoved
  -- and mapped
  refine Triple.bind (mapNewRange_view hinv₄ hremoved.mms hsound₄ hfree haddr hlen hlt
    perms backing)
    fun _ => ?_
  refine Triple.of_pre fun w₅ h₅ => ?_
  obtain ⟨hinv₅, mm₅, hmapped, hsound₅⟩ := h₅
  refine Triple.bind (setNext_mapped (hremoved'.then_mapped hmapped) hinv₅ hsound₅
    (add_page haddr hlen)) fun _ => ?_
  exact Triple.pure fun w hw => ⟨⟨rfl, haddr⟩, hw⟩

/-- The range is free: it is inside the bounds of the search, and no entry of the tables, nor the
heap, nor the reservation of the stack has an address of it. -/
structure MmState.Vacant (mm : MmState) (start stop : Nat) : Prop where
  above : mm.mmapBase ≤ start
  below : stop ≤ mm.mmapLimit
  unmapped : ∀ a, start ≤ a → a < stop →
    mm.lookupMemoryMap a = none ∧ mm.lookupLazyMemoryMap a = none
  heap : ∀ a, start ≤ a → a < stop → ¬ (mm.heapStart ≤ a ∧ a < mm.heapBrk)
  stack : ∀ a, start ≤ a → a < stop → ¬ (mm.stackLow ≤ a ∧ a < mm.stackBottom)

/-- What `range_is_free` accepts is free. -/
theorem MmState.Sound.vacant {mm : MmState} (h : mm.Sound) {start stop : Nat}
    (hfree : mm.rangeIsFree start stop = true) : mm.Vacant start stop := by
  unfold rangeIsFree outsideFixedRegions at hfree
  simp only [Bool.and_eq_true, Bool.not_eq_true', Bool.or_eq_false_iff, decide_eq_false_iff_not,
    not_le, not_lt, List.all_eq_true] at hfree
  obtain ⟨⟨⟨⟨⟨hlimit, hbase⟩, hlt⟩, hheap, hstack⟩, hmaps⟩, hlazy⟩ := hfree
  -- an entry that the checks let pass does not reach into the range
  have hentry : ∀ l k m a, (mm.table l).get? k = some m → m.Contains a → start ≤ a →
    ¬ a < stop := by
    intro l k m a hk hin hlo hhi
    have hover : hasOverlap start stop m.vaddr m.size = false := by
      cases l with
      | mapped => exact hmaps m (OrdMap.mem_values.mpr ⟨k, hk⟩)
      | lazily => exact hlazy m (OrdMap.mem_values.mpr ⟨k, hk⟩)
    exact not_has_of_overlap (h.below l k m hk) hover hlo hhi hin
  refine
    { above := hbase
      below := hlimit
      unmapped := fun a hlo hhi => ⟨?_, ?_⟩
      heap := fun a hlo hhi hin => ?_
      stack := fun a hlo hhi hin => ?_ }
  -- no entry, no lazy entry, no byte of the heap and no byte of the stack
  · cases hm : mm.lookupMemoryMap a with
    | none => rfl
    | some m =>
      obtain ⟨k, hk, hin⟩ := (h.lookups a m).1.mp hm
      exact absurd hhi (hentry .mapped k m a hk hin hlo)
  · cases hm : mm.lookupLazyMemoryMap a with
    | none => rfl
    | some m =>
      obtain ⟨k, hk, hin⟩ := (h.lookups a m).2.mp hm
      exact absurd hhi (hentry .lazily k m a hk hin hlo)
  · have hbrk := h.heapBrk
    have hbelow := h.heapBelow
    rw [hasOverlap, satAdd_eq (by omega)] at hheap
    simp only [Bool.and_eq_false_iff, decide_eq_false_iff_not, not_lt] at hheap
    omega
  · have hfits := h.fits
    have hbelow := h.stackBelow
    unfold MmState.stackLow at hin hstack
    rw [hasOverlap, satAdd_eq (by omega)] at hstack
    simp only [Bool.and_eq_false_iff, decide_eq_false_iff_not, not_lt] at hstack
    omega

/-- A `do_mmap` that searches. -/
theorem mmapAnywhere_view {w₀ : World} {pid addr len : Nat} {mm : MmState} (h : FrameInv w₀)
    (hmm : w₀.mms.get? pid = some mm) (hsound : mm.Sound) (hlen : len % PGSIZE = 0) (perms : Perms)
    (backing : Option (Nat × Nat)) :
    Triple (fun w => w = w₀) (mmapAnywhere pid addr len perms backing)
      (fun start w => (start % PGSIZE = 0 ∧ mm.Vacant start (start + len)) ∧ FrameInv w ∧
        ∃ mm', RangeMapped pid start len perms backing w₀.mapView mm w.mapView mm' ∧ mm'.Sound)
      (fun _ _ => True) := by
  unfold mmapAnywhere
  refine Triple.bind (getProcess_known hmm) fun task => ?_
  refine Triple.of_pre fun w h₁ => ?_
  obtain ⟨rfl, rfl⟩ := h₁
  -- the search starts at the hint or at the next address, and not below the base
  refine Triple.bind (R := fun start w' => w' = w ∧ task.mm.state.findFree len
      task.mm.state.searchRounds (max (if addr ≠ 0 then alignDown addr else task.mm.state.mmapNext)
        task.mm.state.mmapBase) = some start)
    (Triple.getSome (fun start w hs hw => ⟨hw, hs⟩) fun _ _ _ => trivial) fun start => ?_
  refine Triple.of_pre fun w₁ h₁ => ?_
  obtain ⟨rfl, hfound⟩ := h₁
  -- both starting points are page-aligned, so every candidate of the search is
  have hfirst : max (if addr ≠ 0 then alignDown addr else task.mm.state.mmapNext)
      task.mm.state.mmapBase % PGSIZE = 0 := by
    have hbase := hsound.mmapBase
    have hnext := hsound.mmapNext
    have hdown : alignDown addr % PGSIZE = 0 := Nat.mul_mod_left _ _
    rcases max_choice (if addr ≠ 0 then alignDown addr else task.mm.state.mmapNext)
      task.mm.state.mmapBase with heq | heq <;> rw [heq]
    · split <;> assumption
    · exact hbase
  obtain ⟨hpage, hlt, hrange⟩ := findFree_some _ _ (.inl hfirst) hfound
  have hfree := (hsound.free_range hrange).2
  rw [Nat.add_sub_cancel_left] at hfree
  -- the range that was found is free, and the pages are added there
  refine Triple.bind (mapNewRange_view h hmm hsound hfree hpage hlen hlt perms backing) fun _ => ?_
  refine Triple.of_pre fun w₂ h₂ => ?_
  obtain ⟨hinv₂, mm₂, hmapped, hsound₂⟩ := h₂
  refine Triple.bind (getProcess_known hmapped.mms) fun _ => ?_
  refine Triple.pre (K := fun w => w = w₂) ?_ fun w hw => hw.1
  refine Triple.bind (setNext_mapped hmapped hinv₂ hsound₂ (add_page hpage hlen)) fun _ => ?_
  exact Triple.pure fun w hw => ⟨⟨hpage, hsound.vacant hrange⟩, hw⟩

/-- The file of a mapping by its flags. -/
def backingOf (flags fd offset : Nat) : Option (Nat × Nat) :=
  if flags &&& MAP_ANONYMOUS ≠ 0 then none else some (fd, offset)

/-- The file of a mapping is looked up, and nothing changes. -/
theorem mmapFileBacking_view (w₀ : World) (pid flags fd offset : Nat) :
    Triple (fun w => w = w₀) (mmapFileBacking pid flags fd offset)
      (fun backing w => w = w₀ ∧ backing = backingOf flags fd offset) (fun _ _ => True) := by
  unfold mmapFileBacking backingOf
  refine Triple.ite (fun hanon => Triple.pure fun w hw => ⟨hw, (if_pos hanon).symm⟩) fun hfile => ?_
  refine Triple.ite (fun _ => Triple.throw fun _ _ => trivial) fun _ => ?_
  rw [if_neg hfile]
  refine Triple.bind (R := fun _ w => w = w₀) ?_ ?_
  · exact (Frames.keeps (getProcess_frames (V := fun w : World => w) pid) (· = w₀)).triple.errors
      fun _ _ _ => trivial
  · intro task
    refine Triple.bind (R := fun _ w => w = w₀) (Triple.getSome (fun _ _ _ hw => hw)
      fun _ _ _ => trivial) fun _ => ?_
    exact Triple.pure fun w hw => ⟨hw, rfl⟩

/-- What `mmap` leaves behind. -/
def MmapPost (w₀ : World) (pid addr len : Nat) (perms : Perms) (flags : Nat)
    (backing : Option (Nat × Nat)) (mm : MmState) (start : Nat) (w : World) : Prop :=
  start % PGSIZE = 0 ∧
  (flags &&& MAP_FIXED = 0 → mm.Vacant start (start + len)) ∧
  (flags &&& MAP_FIXED ≠ 0 → start = addr) ∧
  ∃ mm', RangeMapped pid start len perms backing w₀.mapView mm w.mapView mm' ∧ mm'.Sound

/-- What `mmap` does to the view of memory. -/
theorem doMmap_view {w₀ : World} {pid addr len prot flags fd offset : Nat} {mm : MmState}
    (hinv : FrameInv w₀) (hmm : w₀.mms.get? pid = some mm) (hsound : mm.Sound) :
    Triple (fun w => w = w₀) (doMmap pid addr len prot flags fd offset)
      (MmapPost w₀ pid addr (alignUp len) (protToPerms prot) flags (backingOf flags fd offset) mm)
      (fun _ _ => True) := by
  unfold doMmap
  refine Triple.ite (fun _ => Triple.throw fun _ _ => trivial) fun _ => ?_
  refine Triple.ite (fun _ => Triple.throw fun _ _ => trivial) fun _ => ?_
  refine Triple.bind (mmapFileBacking_view w₀ pid flags fd offset) fun backing => ?_
  refine Triple.of_pre fun w₁ h₁ => ?_
  obtain ⟨rfl, rfl⟩ := h₁
  refine Triple.ite ?_ ?_
  · intro hfixed
    refine (mmapFixed_view hinv hmm hsound (alignUp_page len) _ _).post fun start w' hw => ?_
    obtain ⟨⟨rfl, hpage⟩, -, hmapped⟩ := hw
    exact ⟨hpage, fun hno => absurd hno hfixed, fun _ => rfl, hmapped⟩
  · intro hanywhere
    refine (mmapAnywhere_view hinv hmm hsound (alignUp_page len) _ _).post fun start w' hw => ?_
    obtain ⟨⟨hpage, hvacant⟩, -, hmapped⟩ := hw
    refine ⟨hpage, fun _ => hvacant, ?_, hmapped⟩
    intro hfixed
    exact absurd hfixed hanywhere

/-- What `mmap` leaves behind when it succeeds. The start is a page boundary; every page of the
range has a new entry with the asked permissions, with a frame of its own or lazily of the file;
every other address has what it had. Without `MAP_FIXED` the range was free, and with it the
range is the asked one and the entries of the image, the heap and the stack stay. -/
theorem mmap_maps_range {w : World} {pid addr len prot flags fd offset start : Nat} {mm : MmState}
    (hinv : FrameInv w) (hmm : w.mms.get? pid = some mm) (hsound : mm.Sound)
    (hok : ((doMmap pid addr len prot flags fd offset).run w).1 = .ok start) :
    start % PGSIZE = 0 ∧
    (flags &&& MAP_FIXED = 0 → mm.Vacant start (start + alignUp len)) ∧
    (flags &&& MAP_FIXED ≠ 0 → start = addr) ∧
    ∃ mm', RangeMapped pid start (alignUp len) (protToPerms prot) (backingOf flags fd offset)
      w.mapView mm ((doMmap pid addr len prot flags fd offset).run w).2.mapView mm' ∧ mm'.Sound :=
  (doMmap_view hinv hmm hsound w rfl).1 start hok

/-- `init` maps two anonymous pages where it says. -/
theorem mmap_maps_range_sampleBoot :
    ∃ mm mm', sampleBoot.mms.get? 1 = some mm ∧
      RangeMapped 1 0x20000000 (alignUp 8192) (protToPerms 3)
        (backingOf 50 0 0) sampleBoot.mapView mm
        ((doMmap 1 0x20000000 8192 3 50 0 0).run sampleBoot).2.mapView mm' ∧
      (mm'.lookupMemoryMap 0x20001000).isSome := by
  obtain ⟨mm, hmm, hsound⟩ := @World.sound_of_check sampleBoot 1 (by decide +kernel)
  obtain ⟨-, -, -, mm', hmapped, hsound'⟩ := @mmap_maps_range sampleBoot 1 0x20000000 8192 3 50 0 0
    0x20000000 mm sampleBoot_reachable.frameInv hmm hsound (by decide +kernel)
  refine ⟨mm, mm', hmm, hmapped, ?_⟩
  obtain ⟨slot, hslot, -⟩ := hmapped.pages 0x20001000 (by decide +kernel)
  rw [(hsound'.lookups 0x20001000 _).1.mpr ⟨_, hslot, le_rfl, by
    show 0x20001000 < 0x20001000 + PGSIZE
    decide⟩]
  rfl

end Ape
