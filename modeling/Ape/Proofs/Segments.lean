import Ape.Proofs.Answered
import Ape.Proofs.MapView
import Ape.Proofs.TableRuns
import Mathlib.Data.List.Pairwise

/-!
# `Ape.Proofs.Segments`: which bytes of an image a process gets

`load_elf_into_process` goes through the segments of an image in order. Every page that a segment
has a byte on gets a new frame, which holds the bytes of this segment and zeroes elsewhere, and a
new entry, which takes the place of the entry that an earlier segment left there.

So a page belongs to the last segment on it (`ElfImage.lastOn`). The loop is followed with the
owner of every page (`Laid`): a page of a segment changes its own owner and no other. The image
is in place exactly if no earlier segment loses a byte or a permission to the last one on a page
(`segments_placed_iff`).
-/

set_option autoImplicit false

namespace Ape

open Ape.Lib Cmd

/-! ### Images -/

/-- The segments that the loader loads. -/
def ElfImage.segments (d : ElfImage) : List Phdr :=
  d.programHeaders.filter fun ph => ph.pType = PT_LOAD ∧ ph.pMemsz ≠ 0

/-- The byte `k` of a segment in memory: from the file, or zero. -/
def ElfImage.segmentByte (d : ElfImage) (ph : Phdr) (k : Nat) : UInt8 :=
  if k < ph.pFilesz then d.byte (ph.pOffset + k) else 0

/-- The segment has a byte on the page. -/
def Phdr.meets (bias page : Nat) (ph : Phdr) : Bool :=
  page < bias + ph.pVaddr + ph.pMemsz && bias + ph.pVaddr < page + PGSIZE

/-- The last segment on a page. -/
def ElfImage.lastOn (d : ElfImage) (bias page : Nat) : Option Phdr :=
  (d.segments.filter (Phdr.meets bias page)).getLast?

/-- An image whose segments are disjoint in memory and lie within the file, at addresses that fit
the word when they are rounded up to a page. -/
structure ElfImage.WellFormed (d : ElfImage) (bias : Nat) : Prop where
  valid : d.valid = true
  size : d.size < usizeMod
  fits : ∀ ph ∈ d.segments, bias + ph.pVaddr + ph.pMemsz + (PGSIZE - 1) < usizeMod
  filesz : ∀ ph ∈ d.segments, ph.pFilesz ≤ ph.pMemsz
  inFile : ∀ ph ∈ d.segments, ph.pOffset + ph.pFilesz ≤ d.size
  apart : d.segments.Pairwise fun a b =>
    a.pVaddr + a.pMemsz ≤ b.pVaddr ∨ b.pVaddr + b.pMemsz ≤ a.pVaddr

/-- Every segment that is not the last one on one of its pages has nothing to lose there: its bytes
on the page are zeroes, and the last segment there has its permissions. -/
def ElfImage.SharedPagesFit (d : ElfImage) (bias : Nat) : Prop :=
  ∀ ph ∈ d.segments, ∀ k < ph.pMemsz, ∀ last ∈ d.lastOn bias (alignDown (bias + ph.pVaddr + k)),
    last ≠ ph → d.segmentByte ph k = 0 ∧ last.perms.contains ph.perms = true

/-- Every byte of every segment is in the process, with the permissions of the segment. -/
def World.Holds (w : World) (pid : Nat) (d : ElfImage) (bias : Nat) : Prop :=
  ∀ ph ∈ d.segments, ∀ k < ph.pMemsz,
    w.userByte pid (bias + ph.pVaddr + k) = some (d.segmentByte ph k) ∧
    ∃ m, w.lookup pid (bias + ph.pVaddr + k) = some m ∧ m.flags.contains ph.perms = true

/-- Permissions contain themselves. -/
theorem Perms.contains_self (p : Perms) : p.contains p = true := by
  simp [contains]

/-- The segments that are loaded. -/
theorem ElfImage.mem_segments {d : ElfImage} {ph : Phdr} :
    ph ∈ d.segments ↔ ph ∈ d.programHeaders ∧ ph.pType = PT_LOAD ∧ ph.pMemsz ≠ 0 := by
  simp [segments]

/-- A segment meets a page when they overlap. -/
theorem Phdr.meets_iff {bias page : Nat} {ph : Phdr} : ph.meets bias page = true ↔
    page < bias + ph.pVaddr + ph.pMemsz ∧ bias + ph.pVaddr < page + PGSIZE := by
  simp [meets]

/-- The last segment on a page is a segment on the page. -/
theorem ElfImage.lastOn_mem {d : ElfImage} {bias page : Nat} {last : Phdr}
    (h : d.lastOn bias page = some last) : last ∈ d.segments ∧ last.meets bias page = true :=
  List.mem_filter.mp (List.mem_of_getLast? h)

/-- A page that a segment is on has a last segment. -/
theorem ElfImage.lastOn_isSome {d : ElfImage} {bias page : Nat} {ph : Phdr} (hph : ph ∈ d.segments)
    (hmeets : ph.meets bias page = true) : ∃ last, d.lastOn bias page = some last := by
  have hmem : ph ∈ d.segments.filter (Phdr.meets bias page) := List.mem_filter.mpr ⟨hph, hmeets⟩
  cases hlast : d.lastOn bias page with
  | some last => exact ⟨last, rfl⟩
  | none =>
    rw [lastOn, List.getLast?_eq_none_iff] at hlast
    rw [hlast] at hmem
    cases hmem

/-- Two different segments have no address in common. -/
theorem ElfImage.WellFormed.disjoint {d : ElfImage} {bias : Nat} (h : d.WellFormed bias)
    {a b : Phdr} (ha : a ∈ d.segments) (hb : b ∈ d.segments) (hne : a ≠ b) :
    a.pVaddr + a.pMemsz ≤ b.pVaddr ∨ b.pVaddr + b.pMemsz ≤ a.pVaddr := by
  have : Std.Symm fun a b : Phdr =>
      a.pVaddr + a.pMemsz ≤ b.pVaddr ∨ b.pVaddr + b.pMemsz ≤ a.pVaddr := ⟨fun _ _ hab => hab.symm⟩
  exact h.apart.forall ha hb hne

/-! ### The pages of a segment -/

/-- The pages that the loader goes through are those with a byte of the segment. -/
theorem mem_segmentPages {start memsz page : Nat}
    (hfits : start + memsz + (PGSIZE - 1) < usizeMod) :
    page ∈ segmentPages start memsz ↔
      page % PGSIZE = 0 ∧ page < start + memsz ∧ start < page + PGSIZE := by
  simp only [segmentPages, List.mem_map, List.mem_range, alignDown, alignUp, wAdd, PGSIZE,
    usizeMod] at hfits ⊢
  constructor
  · rintro ⟨i, hi, rfl⟩
    omega
  · rintro ⟨hpage, hlt, hgt⟩
    refine ⟨(page - start / 4096 * 4096) / 4096, ?_, ?_⟩ <;> omega

/-- The pages of a segment start at page boundaries. -/
theorem segmentPages_aligned {start memsz page : Nat} (h : page ∈ segmentPages start memsz) :
    page % PGSIZE = 0 := by
  obtain ⟨i, -, rfl⟩ := List.mem_map.mp h
  simp only [alignDown, wAdd, PGSIZE, usizeMod]
  omega

/-- What the loader puts on a page of a segment. -/
theorem ElfImage.pageByte_eq {d : ElfImage} {ph : Phdr} {start page o : Nat}
    (hsize : d.size < usizeMod) (hfits : start + ph.pMemsz + (PGSIZE - 1) < usizeMod)
    (hfile : ph.pFilesz ≤ ph.pMemsz) (hin : ph.pOffset + ph.pFilesz ≤ d.size)
    (hpage : page < start + ph.pMemsz) (ho : o < PGSIZE) :
    d.pageByte ph start page o =
      if start ≤ page + o ∧ page + o < start + ph.pFilesz then
        d.byte (ph.pOffset + (page + o - start))
      else 0 := by
  have hend : wAdd page PGSIZE = page + PGSIZE := by
    simp only [wAdd, PGSIZE, usizeMod] at hfits ⊢
    omega
  -- the sums of the loader do not wrap on a well-formed image
  have hsat : satAdd start ph.pFilesz = start + ph.pFilesz := by
    simp only [satAdd, usizeMax, PGSIZE, usizeMod] at hfits ⊢
    omega
  simp only [pageByte, hend, hsat]
  by_cases hmeet : max page start < min (page + PGSIZE) (start + ph.pFilesz)
  · -- the file has bytes of the page, from `src` on
    have hsrc : wAdd ph.pOffset (max page start - start) = ph.pOffset
      + (max page start - start) := by
      simp only [wAdd]
      exact Nat.mod_eq_of_lt (by omega)
    rw [hsrc]
    by_cases hin' : start ≤ page + o ∧ page + o < start + ph.pFilesz
    · have hoff : ph.pOffset + (max page start - start) + (o - (max page start - page))
          = ph.pOffset + (page + o - start) := by omega
      rw [if_pos hin', if_pos ⟨hmeet, by omega, by omega, by omega, by omega⟩, hoff]
    · rw [if_neg hin', if_neg]
      rintro ⟨-, -, -, h1, h2⟩
      exact hin' (by omega)
  · rw [if_neg fun h => hmeet h.1, if_neg]
    rintro ⟨h1, h2⟩
    exact hmeet (by omega)

/-! ### The owner of a page -/

/-- Every page with an owner has the entry and the bytes of this segment. The frames behind them are
not in the slots `avoid`. -/
def Laid (d : ElfImage) (bias pid : Nat) (owner : Nat → Option Phdr) (avoid : List Nat)
    (v : MapView) : Prop :=
  ∃ mm, v.mms.get? pid = some mm ∧ (∀ k m, mm.memoryMaps.get? k = some m → k % PGSIZE = 0) ∧
    ∀ page ph, owner page = some ph → ∃ slot f, slot ∉ avoid ∧
      mm.memoryMaps.get? page = some (pageEntry page ph.perms .image slot) ∧
      v.frames slot = some f ∧
      ∀ o < PGSIZE, f.data o = d.pageByte ph (wAdd bias ph.pVaddr) page o

section Loop

variable {d : ElfImage} {bias pid : Nat} {owner : Nat → Option Phdr}

/-- A slot without a frame is none of theirs. -/
theorem Laid.avoid {v : MapView} {slot : Nat} (h : Laid d bias pid owner [] v)
    (hfree : v.frames slot = none) : Laid d bias pid owner [slot] v := by
  obtain ⟨mm, hmm, hkeys, hpages⟩ := h
  refine ⟨mm, hmm, hkeys, ?_⟩
  intro page ph hph
  obtain ⟨s, f, -, hget, hf, hbytes⟩ := hpages page ph hph
  refine ⟨s, f, ?_, hget, hf, hbytes⟩
  rw [List.mem_singleton]
  rintro rfl
  rw [hfree] at hf
  cases hf

/-- A change of the frame in that slot does not reach them. -/
theorem Laid.put {v : MapView} {slot : Nat} {frames : Nat → Option Frame}
    (h : Laid d bias pid owner [slot] v) (hframes : ∀ s, s ≠ slot → frames s = v.frames s) :
    Laid d bias pid owner [slot] { v with frames := frames } := by
  obtain ⟨mm, hmm, hkeys, hpages⟩ := h
  refine ⟨mm, hmm, hkeys, ?_⟩
  intro page ph hph
  obtain ⟨s, f, hs, hget, hf, hbytes⟩ := hpages page ph hph
  exact ⟨s, f, hs, hget, (hframes s fun heq => hs (by simp [heq])).trans hf, hbytes⟩

/-- The entry of a page is replaced, and the page has no owner for now. -/
theorem Laid.enter {v : MapView} {avoid : List Nat} {page : Nat} {m : MemoryMap}
    (h : Laid d bias pid owner avoid v) (hm : m.vaddr = page) (hpage : page % PGSIZE = 0) :
    Laid d bias pid (Function.update owner page none) avoid
        { v with mms := v.mms.modify pid (·.addMemoryMap m) } ∧
      ∃ mm, (v.mms.modify pid (·.addMemoryMap m)).get? pid = some mm ∧
        mm.memoryMaps.get? page = some m := by
  subst hm
  obtain ⟨mm, hmm, hkeys, hpages⟩ := h
  have hmm' : (v.mms.modify pid (·.addMemoryMap m)).get? pid = some (mm.addMemoryMap m) := by
    rw [OrdMap.get?_modify, if_pos rfl, hmm]
    rfl
  refine ⟨⟨_, hmm', fun k m' hk => ?_, fun page' ph hph => ?_⟩, _, hmm',
    OrdMap.get?_insert_self _ _ _⟩
  · by_cases hkey : k = m.vaddr
    · exact hkey ▸ hpage
    · have hne := OrdMap.get?_insert_ne mm.memoryMaps m hkey
      exact hkeys k m' (hne.symm.trans hk)
  · by_cases hkey : page' = m.vaddr
    · rw [hkey, Function.update_self] at hph
      cases hph
    · rw [Function.update_of_ne hkey] at hph
      obtain ⟨s, f, hs, hget, hrest⟩ := hpages page' ph hph
      exact ⟨s, f, hs, (OrdMap.get?_insert_ne mm.memoryMaps m hkey).trans hget, hrest⟩

/-- The page gets its owner, once the bytes are there. -/
theorem Laid.own {v : MapView} {page slot : Nat} {ph : Phdr} {f : Frame} {mm : MmState}
    (h : Laid d bias pid (Function.update owner page none) [slot] v)
    (hmm : v.mms.get? pid = some mm)
    (hentry : mm.memoryMaps.get? page = some (pageEntry page ph.perms .image slot))
    (hf : v.frames slot = some f)
    (hbytes : ∀ o < PGSIZE, f.data o = d.pageByte ph (wAdd bias ph.pVaddr) page o) :
    Laid d bias pid (Function.update owner page (some ph)) [] v := by
  obtain ⟨mm', hmm', hkeys, hpages⟩ := h
  cases hmm.symm.trans hmm'
  refine ⟨mm, hmm, hkeys, ?_⟩
  intro page' ph' hph
  by_cases hkey : page' = page
  · subst hkey
    rw [Function.update_self] at hph
    cases hph
    exact ⟨slot, f, List.not_mem_nil, hentry, hf, hbytes⟩
  · rw [Function.update_of_ne hkey] at hph
    obtain ⟨s, g, -, hrest⟩ := hpages page' ph' (by rw [Function.update_of_ne hkey]; exact hph)
    exact ⟨s, g, List.not_mem_nil, hrest⟩

/-- A store leaves the other frames. -/
theorem World.frames_writeFrame_ne (w : World) (g : Nat → UInt8 → UInt8) {slot s : Nat}
    (h : s ≠ slot) : (w.writeFrame slot g).frames s = w.frames s := if_neg h

/-- A store changes the bytes of its frame. -/
theorem World.frames_writeFrame_self (w : World) (g : Nat → UInt8 → UInt8) {slot : Nat} {f : Frame}
    (h : w.frames slot = some f) : (w.writeFrame slot g).frames slot
      = some { f with data := fun o => g o (f.data o) } := by
  show (if slot = slot then _ else _) = _
  rw [if_pos rfl, h]
  rfl

/-- A new frame of one page, in a slot that had none. -/
theorem allocPageFrameNoCleanup_laid :
    Triple (fun w => Laid d bias pid owner [] w.mapView) (allocPageFrameNoCleanup 1)
      (fun slot w => Laid d bias pid owner [slot] w.mapView ∧ (w.frames slot).isSome)
      (fun _ _ => True) := by
  unfold allocPageFrameNoCleanup
  refine Triple.bind (R := fun slot w => Laid d bias pid owner [slot] w.mapView) ?_ ?_
  · exact ((blind_keeps (V := World.mapView) (by simp) (Laid d bias pid owner [])).and
      cspaceAlloc_frameless).imp (fun w h => ⟨h, trivial⟩) (fun slot w h => h.1.avoid h.2.2)
      fun _ _ _ => trivial
  · intro slot
    refine Triple.bind (R := fun _ w => Laid d bias pid owner [slot] w.mapView ∧
      (w.frames slot).isSome) ?_ fun _ => Triple.pure fun w h => h
    refine Triple.bind (blind_keeps (V := World.mapView) (by simp) (Laid d bias pid owner [slot]))
      fun a => Triple.modify fun w h => ⟨h.put fun s hs => if_neg hs, ?_⟩
    simp

/-- One page of a segment changes its own owner. -/
theorem loadSegmentPage_laid {ph : Phdr} {page : Nat} (hpage : page % PGSIZE = 0) :
    Triple (fun w => Laid d bias pid owner [] w.mapView)
      (loadSegmentPage pid d ph (wAdd bias ph.pVaddr) page)
      (fun _ w => Laid d bias pid (Function.update owner page (some ph)) [] w.mapView)
      (fun _ _ => True) := by
  unfold loadSegmentPage
  refine Triple.bind allocPageFrameNoCleanup_laid fun slot => ?_
  let S (v : MapView) : Prop := Laid d bias pid owner [slot] v ∧ (v.frames slot).isSome
  refine Triple.bind (R := fun _ w => S w.mapView) (blind_keeps (by simp) S) fun _ => ?_
  refine Triple.bind (R := fun _ w => S w.mapView) (blind_keeps (by simp) S) fun _ => ?_
  refine Triple.bind (R := fun _ w => S w.mapView) (blind_keeps (by simp) S) fun _ => ?_
  -- the entry is filed, and the bytes are still to come
  let E (v : MapView) : Prop := Laid d bias pid (Function.update owner page none) [slot] v ∧
    (v.frames slot).isSome ∧ ∃ mm, v.mms.get? pid = some mm ∧
      mm.memoryMaps.get? page = some (pageEntry page ph.perms .image slot)
  refine Triple.bind (R := fun _ w => E w.mapView) (Triple.modify ?_) fun _ => ?_
  · intro w h
    rw [World.mapView_modifyMm]
    obtain ⟨hlaid, hentry⟩ := h.1.enter (m := pageEntry page ph.perms .image slot) rfl hpage
    exact ⟨hlaid, h.2, hentry⟩
  refine Triple.bind (R := fun base w => E w.mapView ∧
    w.scratch base = some ⟨slot, 1, Perms.RW⟩) ?_ ?_
  · intro w h
    rcases mapScratch_run slot Perms.RW 1 w with ⟨e, hrun⟩ | ⟨a, -, hrun⟩ <;> rw [hrun]
    · exact ⟨fun _ hok => (by cases hok), fun _ _ => trivial⟩
    · refine ⟨fun a' ha' => ?_, fun _ _ => trivial⟩
      cases ha'
      exact ⟨h, if_pos rfl⟩
  intro base
  let Q (v : MapView) : Prop := Laid d bias pid (Function.update owner page (some ph)) [] v
  refine Triple.bind (R := fun _ w => Q w.mapView) (Triple.modify fun w h => ?_) fun _ =>
    blind_keeps (V := World.mapView) (by simp) Q
  obtain ⟨⟨hlaid, hlive, mm, hmm, hentry⟩, hbase⟩ := h
  obtain ⟨f, hf⟩ := Option.isSome_iff_exists.mp hlive
  rw [hbase]
  let g (o : Nat) (b : UInt8) : UInt8 :=
    if o < PGSIZE then d.pageByte ph (wAdd bias ph.pVaddr) page o else b
  have hput : Laid d bias pid (Function.update owner page none) [slot]
    (w.writeFrame slot g).mapView :=
    hlaid.put fun s hs => w.frames_writeFrame_ne g hs
  exact hput.own hmm hentry (w.frames_writeFrame_self g hf) fun o ho => if_pos ho

/-- The pages of a list get the owner. -/
theorem loadSegmentPages_laid {ph : Phdr} :
    ∀ (pages : List Nat) (owner : Nat → Option Phdr), (∀ page ∈ pages, page % PGSIZE = 0) →
      Triple (fun w => Laid d bias pid owner [] w.mapView)
        (forEach pages fun page => loadSegmentPage pid d ph (wAdd bias ph.pVaddr) page)
        (fun _ w => Laid d bias pid (fun page => if page ∈ pages then some ph else owner page) []
          w.mapView) (fun _ _ => True) := by
  intro pages
  induction pages with
  | nil => exact fun owner _ => Triple.pure fun w h => by simpa using h
  | cons page rest ih =>
    intro owner hpages
    have hlast : (fun q => if q ∈ page :: rest then some ph else owner q)
        = fun q => if q ∈ rest then some ph else Function.update owner page (some ph) q := by
      funext q
      by_cases hq : q = page
      · subst hq
        simp
      · simp [hq]
    rw [hlast]
    exact Triple.bind (loadSegmentPage_laid (hpages page List.mem_cons_self)) fun _ =>
      ih _ fun q hq => hpages q (List.mem_cons_of_mem page hq)

/-- The loader loads the segment, and one of its pages is `page`. -/
def Phdr.loads (bias page : Nat) (ph : Phdr) : Bool :=
  ph.pType = PT_LOAD && ph.pMemsz ≠ 0 && page ∈ segmentPages (wAdd bias ph.pVaddr) ph.pMemsz

/-- A segment takes the pages that it meets. -/
theorem loadSegment_laid (ph : Phdr) :
    Triple (fun w => Laid d bias pid owner [] w.mapView) (loadSegment pid d bias ph)
      (fun _ w => Laid d bias pid (fun page => if ph.loads bias page then some ph
        else owner page) []
        w.mapView) (fun _ _ => True) := by
  refine Triple.ite (fun hskip => Triple.pure ?_) ?_
  · intro w h
    have hno : ∀ page, ph.loads bias page = false := by
      intro page
      rcases hskip with hty | hsz
      · simp [Phdr.loads, hty]
      · simp [Phdr.loads, hsz]
    simpa [hno] using h
  · intro hload
    have hpages : ∀ page ∈ segmentPages (wAdd bias ph.pVaddr) ph.pMemsz, page % PGSIZE = 0 :=
      fun page hpage => segmentPages_aligned hpage
    have hload' : ∀ page, ph.loads bias page
        = decide (page ∈ segmentPages (wAdd bias ph.pVaddr) ph.pMemsz) := by
      intro page
      have hne := not_or.mp hload
      simp only [Phdr.loads, not_not.mp hne.1, hne.2, decide_true, ne_eq, not_false_eq_true,
        Bool.true_and]
    simpa only [hload', decide_eq_true_eq] using loadSegmentPages_laid _ owner hpages

/-- After the segments of a list, a page belongs to the last of them that loads it. -/
theorem loadSegments_laid :
    ∀ (l : List Phdr) (owner : Nat → Option Phdr),
      Triple (fun w => Laid d bias pid owner [] w.mapView)
        (forEach l fun ph => loadSegment pid d bias ph)
        (fun _ w => Laid d bias pid
          (fun page => ((l.filter (Phdr.loads bias page)).getLast?).or (owner page)) [] w.mapView)
        (fun _ _ => True) := by
  intro l
  induction l with
  | nil => exact fun owner => Triple.pure fun w h => by simpa using h
  | cons ph rest ih =>
    intro owner
    have hlast : (fun page => (((ph :: rest).filter
      (Phdr.loads bias page)).getLast?).or (owner page))
        = fun page => ((rest.filter (Phdr.loads bias page)).getLast?).or
            (if ph.loads bias page then some ph else owner page) := by
      funext page
      by_cases hph : ph.loads bias page = true
      · rw [List.filter_cons_of_pos hph, if_pos hph, List.getLast?_cons]
        cases (rest.filter (Phdr.loads bias page)).getLast? <;> rfl
      · rw [List.filter_cons_of_neg hph, if_neg hph]
    rw [hlast]
    exact Triple.bind (loadSegment_laid ph) fun _ => ih _

end Loop

/-! ### The image in place -/

/-- The owner of a page after the last segment is the last segment on the page. -/
theorem ElfImage.lastOn_eq {d : ElfImage} {bias page : Nat} (hd : d.WellFormed bias)
    (hpage : page % PGSIZE = 0) :
    (d.programHeaders.filter (Phdr.loads bias page)).getLast? = d.lastOn bias page := by
  rw [lastOn, segments, List.filter_filter]
  refine congrArg List.getLast? (List.filter_congr fun ph hph => ?_)
  by_cases hload : ph.pType = PT_LOAD ∧ ph.pMemsz ≠ 0
  · have hfits := hd.fits ph (ElfImage.mem_segments.mpr ⟨hph, hload⟩)
    have hadd : wAdd bias ph.pVaddr = bias + ph.pVaddr := Nat.mod_eq_of_lt (by omega)
    have hmem := @mem_segmentPages _ _ page hfits
    simp [Phdr.loads, Phdr.meets, hload.1, hload.2, hadd, hmem, hpage]
  · have hno : ph.loads bias page = false := by
      by_contra hyes
      simp only [Phdr.loads, Bool.not_eq_false, Bool.and_eq_true, decide_eq_true_eq] at hyes
      exact hload hyes.1
    simp [hno, hload]

/-- A page with an owner reads as the page of the owner. -/
theorem Laid.reads {w : World} {d : ElfImage} {bias pid page o : Nat} {owner : Nat → Option Phdr}
    {ph : Phdr} (h : Laid d bias pid owner [] w.mapView) (hown : owner page = some ph)
    (hend : page + PGSIZE < usizeMod) (ho : o < PGSIZE) :
    w.userByte pid (page + o) = some (d.pageByte ph (wAdd bias ph.pVaddr) page o) ∧
      ∃ m, w.lookup pid (page + o) = some m ∧ m.flags = ph.perms := by
  obtain ⟨mm, hmm, hkeys, hpages⟩ := h
  obtain ⟨slot, f, -, hget, hf, hbytes⟩ := hpages page ph hown
  have hpage := hkeys page _ hget
  -- every other entry starts on another page
  have hfloor : mm.memoryMaps.floor? (page + o)
    = some (page, pageEntry page ph.perms .image slot) := by
    refine OrdMap.floor?_eq_some.mpr ⟨hget, by omega, fun j u hj hle => ?_⟩
    have haligned := hkeys j u hj
    rw [PGSIZE] at hpage haligned ho
    omega
  have hadd : wAdd page PGSIZE = page + PGSIZE := Nat.mod_eq_of_lt hend
  have hlookup : w.lookup pid (page + o) = some (pageEntry page ph.perms .image slot) := by
    rw [World.lookup, show w.mms.get? pid = some mm from hmm]
    show entryAt mm.memoryMaps (page + o) = _
    rw [entryAt, hfloor]
    show (if page + o < wAdd page PGSIZE then _ else _) = _
    rw [hadd, if_pos (by omega)]
  refine ⟨?_, _, hlookup, rfl⟩
  rw [World.userByte, hlookup]
  show (w.frames slot).map (fun fr => fr.data (page + o - page)) = _
  rw [show w.frames slot = some f from hf, Option.map_some, Nat.add_sub_cancel_left, hbytes o ho]

/-- Every byte of a segment reads as the last segment on its page has it. -/
theorem Laid.byte {w : World} {d : ElfImage} {bias pid k : Nat} {ph : Phdr}
    (h : Laid d bias pid
      (fun page => (d.programHeaders.filter (Phdr.loads bias page)).getLast?) [] w.mapView)
    (hd : d.WellFormed bias) (hph : ph ∈ d.segments) (hk : k < ph.pMemsz) :
    ∃ last, d.lastOn bias (alignDown (bias + ph.pVaddr + k)) = some last ∧
      w.userByte pid (bias + ph.pVaddr + k) = some (if last = ph then d.segmentByte ph k else 0) ∧
      ∃ m, w.lookup pid (bias + ph.pVaddr + k) = some m ∧ m.flags = last.perms := by
  let page := alignDown (bias + ph.pVaddr + k)
  let o := (bias + ph.pVaddr + k) % PGSIZE
  have hfits := hd.fits ph hph
  have hsplit : page + o = bias + ph.pVaddr + k := Nat.div_add_mod' _ PGSIZE
  have ho : o < PGSIZE := Nat.mod_lt _ (by decide)
  have hpage : page % PGSIZE = 0 := Nat.mul_mod_left _ _
  have hmeets : ph.meets bias page = true := Phdr.meets_iff.mpr ⟨by omega, by omega⟩
  -- the byte is the one of the last segment on the page
  obtain ⟨last, hlast⟩ := ElfImage.lastOn_isSome hph hmeets
  obtain ⟨hmem, hon⟩ := ElfImage.lastOn_mem hlast
  have hon' := Phdr.meets_iff.mp hon
  have hfits' := hd.fits last hmem
  have hadd : wAdd bias last.pVaddr = bias + last.pVaddr := Nat.mod_eq_of_lt (by omega)
  have hend : page + PGSIZE < usizeMod := by
    rw [PGSIZE] at hfits' ⊢
    omega
  obtain ⟨hbyte, hflags⟩ := h.reads ((ElfImage.lastOn_eq hd hpage).trans hlast) hend ho
  rw [hsplit] at hbyte hflags
  refine ⟨last, hlast, hbyte.trans (congrArg some ?_), hflags⟩
  rw [hadd, ElfImage.pageByte_eq hd.size hfits' (hd.filesz last hmem)
    (hd.inFile last hmem) hon'.1 ho,
    hsplit]
  by_cases heq : last = ph
  · subst heq
    rw [if_pos rfl, ElfImage.segmentByte]
    have hoff : bias + last.pVaddr + k - (bias + last.pVaddr) = k := by omega
    by_cases hfile : k < last.pFilesz
    · rw [if_pos ⟨by omega, by omega⟩, if_pos hfile, hoff]
    · rw [if_neg fun hin => hfile (by omega), if_neg hfile]
  · -- the other segments have no byte at the address
    have hapart := hd.disjoint hmem hph heq
    have hfile := hd.filesz last hmem
    rw [if_neg heq, if_neg fun hin => by omega]

/-- What the loader leaves of an image. -/
theorem loadElfIntoProcess_laid {d : ElfImage} {bias pid : Nat} :
    Triple (fun w => Laid d bias pid (fun _ => none) [] w.mapView) (loadElfIntoProcess pid d bias)
      (fun _ w => Laid d bias pid
        (fun page => (d.programHeaders.filter (Phdr.loads bias page)).getLast?) [] w.mapView)
      (fun _ _ => True) := by
  refine Triple.ite (fun _ => Triple.throw fun _ _ => trivial) fun _ => ?_
  refine Triple.bind (loadSegments_laid d.programHeaders fun _ => none) fun _ => ?_
  exact Triple.pure fun w h => by simpa using h

/-- Before the first segment no page has an owner. -/
theorem Laid.start {w : World} {d : ElfImage} {bias pid : Nat} (hlive : w.live pid = true)
    (haligned : ∀ t, w.task? pid = some t → t.mm.state.Aligned) :
    Laid d bias pid (fun _ => none) [] w.mapView := by
  obtain ⟨t, ht⟩ := Option.isSome_iff_exists.mp hlive
  refine ⟨t.mm.state, ?_, fun k m hk => ((haligned t ht).key k m hk).2,
    fun _ _ hown => by cases hown⟩
  show w.mms.get? pid = _
  rw [World.get?_mms, ht]
  rfl

/-- A page of a segment is loaded unless a service refuses a call. -/
theorem loadSegmentPage_serves {pid : Nat} (d : ElfImage) (ph : Phdr) (segStart page : Nat) :
    Serves pid (loadSegmentPage pid d ph segStart page) := by
  refine Succeeds.bind (allocPageFrameNoCleanup_serves 1) fun slot => ?_
  refine Succeeds.bind (ledgerRecordFrameAlloc_serves pid slot) fun _ => ?_
  refine Succeeds.bind (mapProcessFrame_serves slot page _ 1) fun _ => ?_
  refine Succeeds.bind getProcess_serves fun _ => Succeeds.bind (modifyMm_serves pid _) fun _ => ?_
  refine Succeeds.bind (mapScratch_serves slot _ 1) fun base => ?_
  exact Succeeds.bind (fillScratch_serves base _ _) fun _ => unmapScratch_serves base

/-- The loader fails only when a service refuses a call. -/
theorem loadElfIntoProcess_serves {pid : Nat} {d : ElfImage} (hvalid : d.valid = true)
    (bias : Nat) : Serves pid (loadElfIntoProcess pid d bias) := by
  refine Succeeds.ite ?_ fun _ => Succeeds.bind (Succeeds.forEach_const ?_)
    fun _ => Succeeds.pure fun _ h => h
  · intro hno
    rw [hvalid] at hno
    cases hno
  · intro ph _
    exact Succeeds.ite (fun _ => Succeeds.pure fun _ h => h) fun _ =>
      Succeeds.forEach_const fun page _ => loadSegmentPage_serves d ph _ page

/-- When no service refuses a call, the loader succeeds, and the image is in place exactly if no
segment loses a byte or a permission to the last segment on one of its pages. -/
theorem segments_placed_iff {w : World} {pid bias : Nat} {d : ElfImage} (hlive : w.live pid = true)
    (haligned : ∀ t, w.task? pid = some t → t.mm.state.Aligned) (hd : d.WellFormed bias)
    (hserved : ((loadElfIntoProcess pid d bias).run w).2.refused = false) :
    ((∃ info, ((loadElfIntoProcess pid d bias).run w).1 = .ok info) ∧
      ((loadElfIntoProcess pid d bias).run w).2.Holds pid d bias) ↔ d.SharedPagesFit bias := by
  have hnot : ¬ ((loadElfIntoProcess pid d bias).run w).2.Marked := by
    rw [World.Marked, hserved]
    decide
  obtain ⟨info, hok, -⟩ := (loadElfIntoProcess_serves hd.valid bias).ok hlive hnot
  have hlaid := (loadElfIntoProcess_laid w (Laid.start hlive haligned)).1 info hok
  constructor
  · intro hplaced ph hph k hk last hlast hne
    obtain ⟨last', hlast', hbyte, m, hm, hflags⟩ := hlaid.byte hd hph hk
    cases (Option.mem_def.mp hlast).symm.trans hlast'
    obtain ⟨hwant, m', hm', hperms⟩ := hplaced.2 ph hph k hk
    cases hm.symm.trans hm'
    rw [hwant, if_neg hne] at hbyte
    exact ⟨Option.some.inj hbyte, hflags ▸ hperms⟩
  · intro hfit
    refine ⟨⟨info, hok⟩, ?_⟩
    intro ph hph k hk
    obtain ⟨last, hlast, hbyte, m, hm, hflags⟩ := hlaid.byte hd hph hk
    by_cases heq : last = ph
    · subst heq
      rw [if_pos rfl] at hbyte
      exact ⟨hbyte, m, hm, by rw [hflags]; exact Perms.contains_self _⟩
    · obtain ⟨hzero, hperms⟩ := hfit ph hph k hk last hlast heq
      rw [if_neg heq] at hbyte
      exact ⟨hbyte.trans (congrArg some hzero.symm), m, hm, hflags ▸ hperms⟩

/-! ### Two segments on one page -/

/-- A program header with four bytes of the file from `offset` on, at `vaddr`. -/
def samplePhdr (offset vaddr : Nat) : List UInt8 :=
  leBytes 4 PT_LOAD ++ leBytes 4 PF_W ++ leBytes 8 offset ++ leBytes 8 vaddr ++ leBytes 8 0
    ++ leBytes 8 4 ++ leBytes 8 4 ++ leBytes 8 PGSIZE

/-- An image with one segment at `0x10000` and one at `second`. -/
def sampleSegments (second : Nat) : ElfImage where
  size := 184
  byte := fun i =>
    ([0x7f, 0x45, 0x4c, 0x46] ++ List.replicate 28 0 ++ leBytes 8 64 ++ List.replicate 14 0
      ++ leBytes 2 56 ++ leBytes 2 2 ++ List.replicate 6 0 ++ samplePhdr 176 0x10000
      ++ samplePhdr 180 second ++ [1, 2, 3, 4, 5, 6, 7, 8]).getD i 0

/-- The second segment half a page behind the first, and the second segment on the next page. -/
theorem sampleSegments_wellFormed {second : Nat} (h : second = 0x10800 ∨ second = 0x11000) :
    (sampleSegments second).WellFormed 0 := by
  obtain rfl | rfl := h <;> constructor <;> decide +kernel

/-- With the segments on pages of their own the image is in place. -/
theorem segments_placed_iff_sampleSegments :
    (∃ info, ((loadElfIntoProcess 1 (sampleSegments 0x11000) 0).run sampleBoot).1 = .ok info) ∧
      ((loadElfIntoProcess 1 (sampleSegments 0x11000) 0).run sampleBoot).2.Holds 1
        (sampleSegments 0x11000) 0 :=
  (segments_placed_iff (by decide +kernel) (fun _ ht => sampleBoot_reachable.aligned ht)
    (sampleSegments_wellFormed (.inr rfl)) (by decide +kernel)).mpr
    (by unfold ElfImage.SharedPagesFit; decide +kernel)

/-- With both segments on one page the loader reports success, and the first byte of the first
segment is gone: it was `1`, and the process reads `0`. -/
theorem loader_loses_shared_page :
    sampleBoot.live 1 = true ∧ (∀ t, sampleBoot.task? 1 = some t → t.mm.state.Aligned) ∧
    (sampleSegments 0x10800).WellFormed 0 ∧
    ((loadElfIntoProcess 1 (sampleSegments 0x10800) 0).run sampleBoot).2.refused = false ∧
    (∃ info, ((loadElfIntoProcess 1 (sampleSegments 0x10800) 0).run sampleBoot).1 = .ok info) ∧
    ((loadElfIntoProcess 1 (sampleSegments 0x10800) 0).run sampleBoot).2.userByte 1
      0x10000 = some 0 ∧
    ¬ ((loadElfIntoProcess 1 (sampleSegments 0x10800) 0).run sampleBoot).2.Holds 1
      (sampleSegments 0x10800) 0 := by
  have hbyte : ((loadElfIntoProcess 1 (sampleSegments 0x10800) 0).run
    sampleBoot).2.userByte 1 0x10000
      = some 0 := by decide +kernel
  refine ⟨by decide +kernel, fun _ ht => sampleBoot_reachable.aligned ht,
    sampleSegments_wellFormed (.inl rfl), by decide +kernel,
    ⟨(sampleSegments 0x10800).info 0, by decide +kernel⟩, hbyte, ?_⟩
  -- the first byte of the first segment
  intro hholds
  have hfirst : ((loadElfIntoProcess 1 (sampleSegments 0x10800) 0).run sampleBoot).2.userByte 1
      0x10000 = some ((sampleSegments 0x10800).segmentByte ⟨PT_LOAD, PF_W, 176, 0x10000, 4, 4⟩ 0) :=
    (hholds ⟨PT_LOAD, PF_W, 176, 0x10000, 4, 4⟩ (by decide +kernel) 0 (by decide)).1
  exact absurd (hbyte.symm.trans hfirst) (by decide +kernel)

end Ape
