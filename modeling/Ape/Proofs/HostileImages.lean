import Ape.Proofs.Bytes
import Ape.Proofs.Granted
import Ape.Proofs.Segments
import Mathlib.Order.Interval.Finset.Nat

/-!
# `Ape.Proofs.HostileImages`: the arithmetic of the loader

The fields of an image are the file's own, and `load_elf_into_process` adds them up in `usize`. The
sums and differences of a load are listed in the order of the source (`ElfImage.loadSums`), each
with the value the code computes and the exact one. A load is safe (`ElfImage.LoadsSafely`) if they
agree, every segment is mapped on the pages that it has an address on, and a segment that does not
end below the limit of the user addresses is refused before anything is mapped for it.

The code checks none of it, so a load is safe exactly if the fields are small enough
(`loads_safely_iff`).
-/

set_option autoImplicit false

namespace Ape

open Ape.Lib Cmd

/-! ### Sums and differences -/

/-- A sum or a difference: the value the code computes, and the exact one. -/
structure Reckoned where
  computed : Nat
  exact : Int

namespace Reckoned

/-- `a + b`. -/
def add (a b : Nat) : Reckoned := ⟨wAdd a b, a + b⟩

/-- `a.saturating_add(b)`. -/
def sat (a b : Nat) : Reckoned := ⟨satAdd a b, a + b⟩

/-- `a - b`. -/
def sub (a b : Nat) : Reckoned := ⟨(a + (usizeMod - b)) % usizeMod, a - b⟩

/-- The code computes the exact value. -/
def Exact (r : Reckoned) : Prop := (r.computed : Int) = r.exact

/-- A wrapping sum is exact when it fits. -/
theorem add_exact {a b : Nat} : (add a b).Exact ↔ a + b < usizeMod := by
  simp only [Exact, add, wAdd, usizeMod]
  omega

/-- A saturating sum is exact when it fits. -/
theorem sat_exact {a b : Nat} : (sat a b).Exact ↔ a + b < usizeMod := by
  simp only [Exact, sat, satAdd, usizeMax, usizeMod]
  omega

/-- A difference is exact when nothing is borrowed. -/
theorem sub_exact {a b : Nat} (hle : b ≤ a) (hlt : a < usizeMod) : (sub a b).Exact := by
  simp only [Exact, sub, usizeMod] at *
  omega

end Reckoned

/-! ### A safe load -/

namespace ElfImage

variable (d : ElfImage)

/-- The headers that `ProgramHeaders::next` computes an offset for. -/
def examined : List Nat := (List.range d.phNum).take (d.programHeaders.length + 1)

/-- The sums of `ProgramHeaders::next`. -/
def headerSums : List Reckoned :=
  d.examined.flatMap fun i => [.add d.phOffset (i * d.phEntrySize), .add (d.phdrOffset i) 56]

/-- The sums of one page of a segment. -/
def pageSums (ph : Phdr) (segStart page : Nat) : List Reckoned :=
  let copyStart := max page segStart
  let copyEnd := min (wAdd page PGSIZE) (satAdd segStart ph.pFilesz)
  let srcOff := wAdd ph.pOffset (copyStart - segStart)
  let actual := min (copyEnd - copyStart) (d.size - srcOff)
  [.sat segStart ph.pFilesz, .add page PGSIZE] ++
    if copyStart < copyEnd ∧ ph.pOffset < d.size then
      [.sub copyStart segStart, .add ph.pOffset (copyStart - segStart), .sub copyStart page,
        .sub copyEnd copyStart] ++
      if srcOff < d.size then
        [.sub d.size srcOff, .add (copyStart - page) actual, .add srcOff actual]
      else []
    else []

/-- The sums of one segment. -/
def segmentSums (bias : Nat) (ph : Phdr) : List Reckoned :=
  let segStart := wAdd bias ph.pVaddr
  let segEnd := wAdd segStart ph.pMemsz
  [.add bias ph.pVaddr, .add segStart ph.pMemsz, .add segEnd (PGSIZE - 1),
    .sub (alignUp segEnd) (alignDown segStart)] ++
  (List.range (segmentPages segStart ph.pMemsz).length).flatMap fun i =>
    .add (alignDown segStart) (i * PGSIZE)
      :: d.pageSums ph segStart (wAdd (alignDown segStart) (i * PGSIZE))

/-- The sums of one header. -/
def phdrSums (bias : Nat) (ph : Phdr) : List Reckoned :=
  (if ph.pType = PT_PHDR then [.add bias ph.pVaddr] else []) ++
    if ph.pType ≠ PT_LOAD ∨ ph.pMemsz = 0 then [] else d.segmentSums bias ph

/-- The sums of `load_elf_into_process`. -/
def loadSums (bias : Nat) : List Reckoned :=
  d.headerSums ++ d.programHeaders.flatMap (d.phdrSums bias)
    ++ [.add bias d.phOffset, .add bias d.entryPoint]

end ElfImage

/-- The pages that have an address of `[start, start + size)`. -/
def pagesMeeting (start size : Nat) : Finset Nat :=
    (Finset.Ico start (start + size)).image alignDown

/-- The pages of a set have new entries of a segment, and the other entries are as before. -/
def MmState.Maps (perms : Perms) (pages : Finset Nat) (mm mm' : MmState) : Prop :=
  ∀ page, if page ∈ pages then
      ∃ slot, mm'.memoryMaps.get? page = some (pageEntry page perms .image slot)
    else mm'.memoryMaps.get? page = mm.memoryMaps.get? page

/-- What a load has to do with an image when user addresses end at `limit`. Nothing in the code
names the limit. -/
structure ElfImage.LoadsSafely (d : ElfImage) (limit bias : Nat) : Prop where
  exact : ∀ r ∈ d.loadSums bias, r.Exact
  counts : ∀ ph ∈ d.segments, (segmentPages (wAdd bias ph.pVaddr) ph.pMemsz).length
    = (pagesMeeting (bias + ph.pVaddr) ph.pMemsz).card
  maps : ∀ ph ∈ d.segments, ∀ pid w w' mm, w.mms.get? pid = some mm →
    (loadSegment pid d bias ph).run w = (.ok (), w') →
    ∃ mm', w'.mms.get? pid = some mm' ∧
      mm.Maps ph.perms (pagesMeeting (bias + ph.pVaddr) ph.pMemsz) mm'
  rejects : ∀ before ph after, d.programHeaders = before ++ ph :: after → ph ∈ d.segments →
    limit < bias + ph.pVaddr + ph.pMemsz → ∀ pid w,
      (∃ e, ((loadElfIntoProcess pid d bias).run w).1 = .error e) ∧
      ((loadElfIntoProcess pid d bias).run w).2.mms
        = ((forEach before fun h => loadSegment pid d bias h).run w).2.mms

/-- The fields of a segment are small enough: the end of the segment fits the word when it is
rounded up to a page, its bytes of the file would fit behind its start, and so does the offset in
the file of its last page that has bytes of the file. -/
structure ElfImage.SegmentFits (d : ElfImage) (bias : Nat) (ph : Phdr) : Prop where
  stop : bias + ph.pVaddr + ph.pMemsz + (PGSIZE - 1) < usizeMod
  file : bias + ph.pVaddr + ph.pFilesz < usizeMod
  source : ph.pOffset < d.size → ph.pFilesz ≠ 0 → ph.pOffset +
    (alignDown (bias + ph.pVaddr + min ph.pMemsz ph.pFilesz - 1) - (bias + ph.pVaddr)) < usizeMod

/-- The fields of an image are small enough. -/
structure ElfImage.Fits (d : ElfImage) (limit bias : Nat) : Prop where
  headers : d.phNum = 0 ∨ d.phOffset + 56 < usizeMod
  table : ∀ ph ∈ d.programHeaders, ph.pType = PT_PHDR → bias + ph.pVaddr < usizeMod
  segments : ∀ ph ∈ d.segments, d.SegmentFits bias ph
  below : ∀ ph ∈ d.segments, bias + ph.pVaddr + ph.pMemsz ≤ limit
  fallback : bias + d.phOffset < usizeMod
  entry : bias + d.entryPoint < usizeMod

/-! ### The headers -/

section Headers

variable {d : ElfImage}

/-- A word of the file fits in its bytes. -/
theorem ElfImage.word_lt (d : ElfImage) (off k : Nat) : d.word off k < 256 ^ k := by
  simpa [word] using leNat_lt ((List.range k).map fun i => d.byte (off + i))

/-- A header is examined if those before it fit. -/
theorem ElfImage.mem_examined {i : Nat} :
    i ∈ d.examined ↔ i < d.phNum ∧ i ≤ d.programHeaders.length := by
  rw [examined, List.take_range, List.mem_range]
  omega

/-- A header that was taken lies within the file, as far as the code can tell. -/
theorem ElfImage.header_within {i : Nat} (h : i < d.programHeaders.length) :
    wAdd (d.phdrOffset i) 56 ≤ d.size := by
  simp only [programHeaders, List.length_map] at h
  have hmem := List.getElem_mem h
  have hi : ((List.range d.phNum).takeWhile fun i => wAdd (d.phdrOffset i) 56 ≤ d.size)[i] = i := by
    have hpre := List.takeWhile_prefix (l := List.range d.phNum)
      fun i => decide (wAdd (d.phdrOffset i) 56 ≤ d.size)
    rw [hpre.getElem h, List.getElem_range]
  have hp := List.mem_takeWhile_imp hmem
  rw [hi] at hp
  exact of_decide_eq_true hp

/-- If the first header ends within the word, so does every header that is examined: the one before
it lies within the file. -/
theorem ElfImage.header_fits (hsize : d.size < 2 ^ 63) (hfirst : d.phOffset + 56 < usizeMod) :
    ∀ i ≤ d.programHeaders.length, d.phOffset + i * d.phEntrySize + 56 < usizeMod := by
  have hentry : d.phEntrySize < 2 ^ 16 := d.word_lt 54 2
  intro i hi
  induction i with
  | zero => omega
  | succ i ih =>
    have hprev := ih (by omega)
    have hin := header_within (d := d) (i := i) (by omega)
    have hoff : d.phdrOffset i = d.phOffset + i * d.phEntrySize := Nat.mod_eq_of_lt (by omega)
    rw [hoff, wAdd, Nat.mod_eq_of_lt hprev] at hin
    rw [Nat.succ_mul, usizeMod]
    omega

/-- The sums of the headers are exact if the first header that is examined ends within the word. -/
theorem ElfImage.headerSums_exact (hsize : d.size < 2 ^ 63) :
    (∀ r ∈ d.headerSums, r.Exact) ↔ d.phNum = 0 ∨ d.phOffset + 56 < usizeMod := by
  simp only [headerSums, List.mem_flatMap, List.mem_cons, List.not_mem_nil, or_false,
    mem_examined]
  constructor
  · intro h
    by_cases hnum : d.phNum = 0
    · exact .inl hnum
    · have hfirst := Reckoned.add_exact.mp (h _ ⟨0, ⟨by omega, Nat.zero_le _⟩, .inl rfl⟩)
      have hend := Reckoned.add_exact.mp (h _ ⟨0, ⟨by omega, Nat.zero_le _⟩, .inr rfl⟩)
      rw [phdrOffset, wAdd, Nat.mod_eq_of_lt hfirst] at hend
      exact .inr (by omega)
  · rintro h r ⟨i, ⟨hnum, hlen⟩, hr⟩
    have hfits := header_fits hsize (h.resolve_left (by omega)) i hlen
    have hadd : d.phdrOffset i = d.phOffset + i * d.phEntrySize := Nat.mod_eq_of_lt (by omega)
    rcases hr with rfl | rfl
    · exact Reckoned.add_exact.mpr (by omega)
    · exact Reckoned.add_exact.mpr (by rw [hadd]; exact hfits)

end Headers

/-! ### The pages of a segment -/

section Pages

variable {d : ElfImage} {bias : Nat} {ph : Phdr}

/-- The pages of a segment are counted from its first one. -/
theorem segmentPages_eq (start memsz : Nat) : segmentPages start memsz =
    (List.range (segmentPages start memsz).length).map fun i =>
      wAdd (alignDown start) (i * PGSIZE) := by
  simp only [segmentPages, List.length_map, List.length_range]

/-- The pages of a segment are the pages that have an address of it. -/
theorem segmentPages_meeting {start memsz : Nat} (hfits : start + memsz + (PGSIZE - 1) < usizeMod)
    (hsize : memsz ≠ 0) (page : Nat) :
    page ∈ segmentPages start memsz ↔ page ∈ pagesMeeting start memsz := by
  rw [mem_segmentPages hfits, pagesMeeting, Finset.mem_image]
  simp only [Finset.mem_Ico, alignDown, PGSIZE]
  constructor
  · rintro ⟨hpage, hlt, hgt⟩
    exact ⟨max page start, by omega, by omega⟩
  · rintro ⟨a, ha, rfl⟩
    omega

/-- No page comes twice. -/
theorem segmentPages_nodup (start memsz : Nat) : (segmentPages start memsz).Nodup := by
  rw [segmentPages_eq]
  refine List.Nodup.map_on (fun i hi j hj hij => ?_) List.nodup_range
  simp only [segmentPages, List.length_map, List.length_range, List.mem_range, alignDown, alignUp,
    wAdd, PGSIZE, usizeMod] at hi hj hij
  omega

/-- A segment that fits has as many pages as it meets. -/
theorem segmentPages_length {start memsz : Nat} (hfits : start + memsz + (PGSIZE - 1) < usizeMod)
    (hsize : memsz ≠ 0) : (segmentPages start memsz).length = (pagesMeeting start memsz).card := by
  rw [← List.toFinset_card_of_nodup (segmentPages_nodup start memsz)]
  refine congrArg Finset.card (Finset.ext fun page => ?_)
  rw [List.mem_toFinset, segmentPages_meeting hfits hsize]

/-- The end of a page of a segment is exact. -/
theorem page_end_lt {start memsz page : Nat} (hfits : start + memsz + (PGSIZE - 1) < usizeMod)
    (hpage : page ∈ segmentPages start memsz) : page + PGSIZE < usizeMod := by
  have h := (mem_segmentPages hfits).mp hpage
  simp only [PGSIZE, usizeMod] at *
  omega

/-- The offset in the file of the bytes of a page is at most that of the last page that has any. -/
theorem ElfImage.SegmentFits.source_lt {page : Nat} (h : d.SegmentFits bias ph)
    (hpage : page ∈ segmentPages (bias + ph.pVaddr) ph.pMemsz)
    (hcopy : max page (bias + ph.pVaddr) < min (page + PGSIZE) (bias + ph.pVaddr + ph.pFilesz))
    (hoff : ph.pOffset < d.size) :
    ph.pOffset + (max page (bias + ph.pVaddr) - (bias + ph.pVaddr)) < usizeMod := by
  have hlast := h.source hoff (by omega)
  obtain ⟨haligned, hlt, -⟩ := (mem_segmentPages h.stop).mp hpage
  have hle : page ≤ alignDown (bias + ph.pVaddr + min ph.pMemsz ph.pFilesz - 1) := by
    simp only [alignDown, PGSIZE] at *
    omega
  omega

/-- The sums of a page are exact if the fields are small enough. -/
theorem ElfImage.pageSums_exact {page : Nat} (hsize : d.size < 2 ^ 63) (h : d.SegmentFits bias ph)
    (hpage : page ∈ segmentPages (bias + ph.pVaddr) ph.pMemsz) :
    ∀ r ∈ d.pageSums ph (bias + ph.pVaddr) page, r.Exact := by
  have hfile := h.file
  have hpageEnd := page_end_lt h.stop hpage
  have hend : wAdd page PGSIZE = page + PGSIZE := Nat.mod_eq_of_lt hpageEnd
  have hsat : satAdd (bias + ph.pVaddr) ph.pFilesz = bias + ph.pVaddr + ph.pFilesz :=
    Nat.min_eq_left (Nat.le_sub_one_of_lt hfile)
  have hword : d.size < usizeMod := lt_trans hsize (by decide)
  intro r hr
  simp only [pageSums, hend, hsat, List.mem_append, List.mem_cons, List.not_mem_nil,
    or_false] at hr
  rcases hr with (rfl | rfl) | hr
  · exact Reckoned.sat_exact.mpr hfile
  · exact Reckoned.add_exact.mpr hpageEnd
  by_cases hcopy : max page (bias + ph.pVaddr) < min (page + PGSIZE) (bias + ph.pVaddr + ph.pFilesz)
      ∧ ph.pOffset < d.size
  swap
  · rw [if_neg hcopy] at hr
    cases hr
  -- the page has bytes of the file
  have hsrc := h.source_lt hpage hcopy.1 hcopy.2
  rw [if_pos hcopy, wAdd, Nat.mod_eq_of_lt hsrc] at hr
  simp only [List.mem_append, List.mem_cons, List.not_mem_nil, or_false] at hr
  rcases hr with (rfl | rfl | rfl | rfl) | hr
  · exact Reckoned.sub_exact (le_max_right _ _) (by omega)
  · exact Reckoned.add_exact.mpr hsrc
  · exact Reckoned.sub_exact (le_max_left _ _) (by omega)
  · exact Reckoned.sub_exact hcopy.1.le (by omega)
  split at hr
  · simp only [List.mem_cons, List.not_mem_nil, or_false] at hr
    rcases hr with rfl | rfl | rfl
    · exact Reckoned.sub_exact (by omega) hword
    · exact Reckoned.add_exact.mpr (by omega)
    · exact Reckoned.add_exact.mpr (by omega)
  · cases hr

/-- The sums of a segment are exact if and only if its fields are small enough. -/
theorem ElfImage.segmentSums_exact (hsize : d.size < 2 ^ 63) (hmem : ph.pMemsz ≠ 0) :
    (∀ r ∈ d.segmentSums bias ph, r.Exact) ↔ d.SegmentFits bias ph := by
  simp only [segmentSums, List.mem_append, List.mem_flatMap, List.mem_cons, List.not_mem_nil,
    or_false, List.mem_range]
  constructor
  · intro h
    have hstart := Reckoned.add_exact.mp (h _ (.inl (.inl rfl)))
    have hadd : wAdd bias ph.pVaddr = bias + ph.pVaddr := Nat.mod_eq_of_lt hstart
    rw [hadd] at h
    have hstop := Reckoned.add_exact.mp (h _ (.inl (.inr (.inl rfl))))
    have hadd' : wAdd (bias + ph.pVaddr) ph.pMemsz = bias + ph.pVaddr + ph.pMemsz :=
      Nat.mod_eq_of_lt hstop
    rw [hadd'] at h
    have hround := Reckoned.add_exact.mp (h _ (.inl (.inr (.inr (.inl rfl)))))
    -- the sums of every page of the segment
    have hpages : ∀ page ∈ segmentPages (bias + ph.pVaddr) ph.pMemsz,
        ∀ r ∈ d.pageSums ph (bias + ph.pVaddr) page, r.Exact := by
      intro page hpage r hr
      rw [segmentPages_eq, List.mem_map] at hpage
      obtain ⟨i, hi, rfl⟩ := hpage
      exact h r (.inr ⟨i, List.mem_range.mp hi, .inr hr⟩)
    have hfirst : alignDown (bias + ph.pVaddr) ∈ segmentPages (bias + ph.pVaddr) ph.pMemsz := by
      rw [mem_segmentPages hround]
      simp only [alignDown, PGSIZE]
      omega
    have hfile : bias + ph.pVaddr + ph.pFilesz < usizeMod :=
      Reckoned.sat_exact.mp (hpages _ hfirst _ (by simp [pageSums]))
    refine ⟨hround, hfile, ?_⟩
    intro hoff hne
    let page := alignDown (bias + ph.pVaddr + min ph.pMemsz ph.pFilesz - 1)
    have hpage : page ∈ segmentPages (bias + ph.pVaddr) ph.pMemsz := by
      rw [mem_segmentPages hround]
      simp only [page, alignDown, PGSIZE]
      omega
    have hend : wAdd page PGSIZE = page + PGSIZE := Nat.mod_eq_of_lt (page_end_lt hround hpage)
    have hsat : satAdd (bias + ph.pVaddr) ph.pFilesz = bias + ph.pVaddr + ph.pFilesz :=
      Nat.min_eq_left (Nat.le_sub_one_of_lt hfile)
    have hcopy : max page (bias + ph.pVaddr) < min (page + PGSIZE) (bias + ph.pVaddr + ph.pFilesz)
        ∧ ph.pOffset < d.size := by
      refine ⟨?_, hoff⟩
      simp only [page, alignDown, PGSIZE]
      omega
    have hsrc := Reckoned.add_exact.mp (hpages page hpage
      (.add ph.pOffset (max page (bias + ph.pVaddr) - (bias + ph.pVaddr)))
      (by simp only [pageSums, hend, hsat, if_pos hcopy]; simp))
    omega
  · intro h
    have hstop := h.stop
    have hadd : wAdd bias ph.pVaddr = bias + ph.pVaddr := Nat.mod_eq_of_lt (by omega)
    have hadd' : wAdd (bias + ph.pVaddr) ph.pMemsz = bias + ph.pVaddr + ph.pMemsz :=
      Nat.mod_eq_of_lt (by omega)
    rw [hadd, hadd']
    rintro r ((rfl | rfl | rfl | rfl) | ⟨i, hi, hr⟩)
    · exact Reckoned.add_exact.mpr (by omega)
    · exact Reckoned.add_exact.mpr (by omega)
    · exact Reckoned.add_exact.mpr hstop
    · refine Reckoned.sub_exact ?_ ?_ <;>
        · simp only [alignUp, alignDown, wAdd, PGSIZE, usizeMod] at *
          omega
    have hpage : wAdd (alignDown (bias + ph.pVaddr)) (i * PGSIZE) ∈
        segmentPages (bias + ph.pVaddr) ph.pMemsz := by
      rw [segmentPages_eq]
      exact List.mem_map_of_mem (List.mem_range.mpr hi)
    rcases hr with rfl | hr
    · refine Reckoned.add_exact.mpr ?_
      simp only [segmentPages, List.length_map, List.length_range, alignUp, alignDown, wAdd,
        PGSIZE, usizeMod] at *
      omega
    · exact pageSums_exact hsize h hpage r hr

end Pages

/-- The sums of a load are exact if and only if the fields of the image are small enough. -/
theorem ElfImage.loadSums_exact {d : ElfImage} {bias : Nat} (hsize : d.size < 2 ^ 63) :
    (∀ r ∈ d.loadSums bias, r.Exact) ↔
      (d.phNum = 0 ∨ d.phOffset + 56 < usizeMod) ∧
      (∀ ph ∈ d.programHeaders, ph.pType = PT_PHDR → bias + ph.pVaddr < usizeMod) ∧
      (∀ ph ∈ d.segments, d.SegmentFits bias ph) ∧
      bias + d.phOffset < usizeMod ∧ bias + d.entryPoint < usizeMod := by
  rw [← headerSums_exact hsize, ← Reckoned.add_exact, ← Reckoned.add_exact]
  simp only [loadSums, phdrSums, List.mem_append, List.mem_flatMap, List.mem_cons,
    List.not_mem_nil, or_false]
  -- the sums are those of the headers, of each segment, and the two of the image
  constructor
  · intro h
    refine ⟨fun r hr => h r (.inl (.inl hr)), ?_, ?_, h _ (.inr (.inl rfl)), h _ (.inr (.inr rfl))⟩
    · intro ph hph htype
      exact Reckoned.add_exact.mp (h _ (.inl (.inr ⟨ph, hph, .inl (by simp [htype])⟩)))
    · intro ph hph
      obtain ⟨hmem, hload⟩ := mem_segments.mp hph
      refine (segmentSums_exact hsize hload.2).mp fun r hr => h r (.inl (.inr ⟨ph, hmem, .inr ?_⟩))
      rwa [if_neg (by simp [hload])]
  · rintro ⟨hheaders, htable, hsegments, hfallback, hentry⟩
      r ((hr | ⟨ph, hph, hr | hr⟩) | rfl | rfl)
    · exact hheaders r hr
    · by_cases htype : ph.pType = PT_PHDR
      · rw [if_pos htype, List.mem_singleton] at hr
        exact hr ▸ Reckoned.add_exact.mpr (htable ph hph htype)
      · rw [if_neg htype] at hr
        cases hr
    -- a header that is not loaded has no sums
    · by_cases hskip : ph.pType ≠ PT_LOAD ∨ ph.pMemsz = 0
      · rw [if_pos hskip] at hr
        cases hr
      · rw [if_neg hskip] at hr
        have hload : ph.pType = PT_LOAD ∧ ph.pMemsz ≠ 0 := by simpa using hskip
        exact (segmentSums_exact hsize hload.2).mpr
          (hsegments ph (mem_segments.mpr ⟨hph, hload⟩)) r hr
    · exact hfallback
    · exact hentry

/-! ### The entries of a segment -/

section Entries

variable {d : ElfImage} {bias pid : Nat} {ph : Phdr} {mm : MmState}

/-- The pages of a set have new entries. -/
def Entered (pid : Nat) (perms : Perms) (mm : MmState) (pages : Finset Nat)
    (mms : OrdMap Nat MmState) : Prop :=
  ∃ mm', mms.get? pid = some mm' ∧ mm.Maps perms pages mm'

/-- One more entry. -/
theorem Entered.enter {pages : Finset Nat} {mms : OrdMap Nat MmState} {page slot : Nat}
    {perms : Perms} (h : Entered pid perms mm pages mms) :
    Entered pid perms mm (insert page pages)
      (mms.modify pid (·.addMemoryMap (pageEntry page perms .image slot))) := by
  obtain ⟨mm', hmm', hmaps⟩ := h
  refine ⟨mm'.addMemoryMap (pageEntry page perms .image slot), ?_, ?_⟩
  · rw [OrdMap.get?_modify, if_pos rfl, hmm']
    rfl
  intro k
  by_cases hk : k = page
  · subst hk
    rw [if_pos (Finset.mem_insert_self k pages)]
    exact ⟨slot, OrdMap.get?_insert_self _ _ _⟩
  · have hother : (mm'.addMemoryMap (pageEntry page perms .image slot)).memoryMaps.get? k
        = mm'.memoryMaps.get? k := OrdMap.get?_insert_ne _ _ hk
    have hmem : k ∈ insert page pages ↔ k ∈ pages := by simp [hk]
    simpa only [hmem, hother] using hmaps k

/-- One page of a segment enters itself. -/
theorem loadSegmentPage_enters {pages : Finset Nat} {segStart page : Nat} :
    Triple (fun w => Entered pid ph.perms mm pages w.mms) (loadSegmentPage pid d ph segStart page)
      (fun _ w => Entered pid ph.perms mm (insert page pages) w.mms) fun _ _ => True := by
  let S (mms : OrdMap Nat MmState) : Prop := Entered pid ph.perms mm pages mms
  let T (mms : OrdMap Nat MmState) : Prop := Entered pid ph.perms mm (insert page pages) mms
  unfold loadSegmentPage
  refine Triple.bind (R := fun _ w => S w.mms) (blind_keeps (by simp) S) fun slot => ?_
  refine Triple.bind (R := fun _ w => S w.mms) (blind_keeps (by simp) S) fun _ => ?_
  refine Triple.bind (R := fun _ w => S w.mms) (blind_keeps (by simp) S) fun _ => ?_
  refine Triple.bind (R := fun _ w => S w.mms) (blind_keeps (by simp) S) fun _ => ?_
  refine Triple.bind (R := fun _ w => T w.mms) (Triple.modify ?_) fun _ => ?_
  · intro w h
    rw [World.mms_modifyMm]
    exact h.enter
  refine Triple.bind (R := fun _ w => T w.mms) (blind_keeps (by simp) T) fun _ => ?_
  exact Triple.bind (R := fun _ w => T w.mms) (blind_keeps (by simp) T) fun _ =>
    blind_keeps (by simp) T

/-- The pages of a list enter themselves. -/
theorem loadSegmentPages_enters {segStart : Nat} :
    ∀ (l : List Nat) (pages : Finset Nat),
      Triple (fun w => Entered pid ph.perms mm pages w.mms)
        (forEach l fun page => loadSegmentPage pid d ph segStart page)
        (fun _ w => Entered pid ph.perms mm (pages ∪ l.toFinset) w.mms) fun _ _ => True := by
  intro l
  induction l with
  | nil => exact fun pages => Triple.pure fun w h => by simpa using h
  | cons page rest ih =>
    intro pages
    have hunion : pages ∪ (page :: rest).toFinset = insert page pages ∪ rest.toFinset := by
      ext k
      simp
    rw [hunion]
    exact Triple.bind loadSegmentPage_enters fun _ => ih _

/-- A load of a segment enters the pages that have an address of it. -/
theorem loadSegment_enters (hseg : ph ∈ d.segments)
    (hfits : bias + ph.pVaddr + ph.pMemsz + (PGSIZE - 1) < usizeMod) :
    Triple (fun w => w.mms.get? pid = some mm) (loadSegment pid d bias ph)
      (fun _ w => Entered pid ph.perms mm (pagesMeeting (bias + ph.pVaddr) ph.pMemsz) w.mms)
      fun _ _ => True := by
  obtain ⟨-, htype, hmem⟩ := ElfImage.mem_segments.mp hseg
  have hadd : wAdd bias ph.pVaddr = bias + ph.pVaddr := Nat.mod_eq_of_lt (by omega)
  have hpages : (segmentPages (bias + ph.pVaddr) ph.pMemsz).toFinset
      = pagesMeeting (bias + ph.pVaddr) ph.pMemsz := by
    ext page
    rw [List.mem_toFinset, segmentPages_meeting hfits hmem]
  unfold loadSegment
  rw [if_neg (by simp [htype, hmem]), hadd, ← hpages]
  refine (loadSegmentPages_enters _ ∅).imp (fun w hw => ⟨mm, hw, ?_⟩)
    (fun _ w h => by simpa using h) fun _ _ h => h
  intro page
  rw [if_neg (Finset.notMem_empty page)]

end Entries

/-! ### Services that refuse nothing -/

/-- A page of a segment is granted. -/
theorem loadSegmentPage_grants {pid : Nat} (d : ElfImage) (ph : Phdr) (segStart page : Nat) :
    Granted pid (loadSegmentPage pid d ph segStart page) := by
  refine Triple.bind (allocPageFrameNoCleanup_grants 1) fun slot => ?_
  refine Triple.bind (modifyLedger_grants pid _) fun _ => ?_
  refine Triple.bind (mapProcessFrame_grants slot page _ 1) fun _ => ?_
  refine Triple.bind getProcess_grants fun _ => Triple.bind (modifyTask_grants pid _) fun _ => ?_
  refine Triple.bind (mapScratch_grants slot _ 1) fun base => ?_
  exact Triple.bind (fillScratch_grants base _ _) fun _ => unmapScratch_grants base

/-- While every answer is granted, every image is loaded. -/
theorem loadElfIntoProcess_grants {pid : Nat} {d : ElfImage} (hvalid : d.valid = true)
    (bias : Nat) :
    Granted pid (loadElfIntoProcess pid d bias) := by
  unfold loadElfIntoProcess
  rw [hvalid, if_neg (by decide)]
  refine Triple.bind (Triple.forEach (fun _ => World.Granting pid) (fun ph _ => ?_) _) fun _ =>
    Triple.pure fun _ h => h
  exact Triple.ite (fun _ => Triple.pure fun _ h => h) fun _ =>
    Triple.forEach (fun _ => World.Granting pid)
      (fun page _ => loadSegmentPage_grants d ph _ page) _

/-! ### Small fields and safe loads -/

/-- A server that has given nothing out and whose services answer with one number after the
other. -/
def grantingWorld : World :=
  { sampleBoot with
    env := fun t => ⟨none, t + 1, fun _ => 0⟩
    tick := 0
    slots := ∅
    frames := fun _ => none
    scratch := fun _ => none
    openEndpoints := ∅ }

/-- The sample grants every call. -/
theorem grantingWorld_granting : grantingWorld.Granting 1 where
  live := show sampleBoot.live 1 = true by decide +kernel
  answers t _ := ⟨rfl, ⟨Nat.succ_ne_zero t, Finset.notMem_empty _, rfl, Finset.notMem_empty _⟩, rfl⟩
  fresh t t' _ hlt := fun heq => absurd (Nat.succ.inj heq) hlt.ne'

/-- The loader computes every sum exactly, maps every segment on its own pages and refuses what does
not end below the limit, exactly if the fields of the image are small enough: it checks none of
them. -/
theorem loads_safely_iff (d : ElfImage) (hvalid : d.valid = true) (hsize : d.size < 2 ^ 63)
    (limit bias : Nat) : d.LoadsSafely limit bias ↔ d.Fits limit bias := by
  constructor
  · intro h
    obtain ⟨hheaders, htable, hsegments, hfallback, hentry⟩ :=
      (ElfImage.loadSums_exact hsize).mp h.exact
    refine ⟨hheaders, htable, hsegments, ?_, hfallback, hentry⟩
    intro ph hph
    by_contra habove
    obtain ⟨before, after, hsplit⟩ := List.append_of_mem (ElfImage.mem_segments.mp hph).1
    obtain ⟨⟨e, herr⟩, -⟩ := h.rejects before ph after hsplit hph (not_le.mp habove) 1 grantingWorld
    -- nothing in the loader looks at the limit
    exact (loadElfIntoProcess_grants hvalid bias grantingWorld grantingWorld_granting).2 e herr
  · intro h
    refine ⟨(ElfImage.loadSums_exact hsize).mpr
      ⟨h.headers, h.table, h.segments, h.fallback, h.entry⟩, ?_, ?_, ?_⟩
    · intro ph hph
      have hstop := (h.segments ph hph).stop
      rw [wAdd, Nat.mod_eq_of_lt (by omega)]
      exact segmentPages_length hstop (ElfImage.mem_segments.mp hph).2.2
    · intro ph hph pid w w' mm hmm hrun
      have henters := (loadSegment_enters hph (h.segments ph hph).stop w hmm).1 () (by rw [hrun])
      rw [hrun] at henters
      exact henters
    · intro before ph after _ hph habove
      exact absurd (h.below ph hph) (not_le.mpr habove)

/-- An image with two small segments is loaded safely below `2 ^ 38`. -/
theorem loads_safely_iff_sampleSegments : (sampleSegments 0x11000).LoadsSafely (2 ^ 38) 0 :=
  (loads_safely_iff (sampleSegments 0x11000) (by decide +kernel) (by decide) (2 ^ 38) 0).mpr
    { headers := by decide +kernel
      table := by decide +kernel
      segments := by
        intro ph hph
        have hall : ∀ ph ∈ (sampleSegments 0x11000).segments,
            0 + ph.pVaddr + ph.pMemsz + (PGSIZE - 1) < usizeMod ∧
            0 + ph.pVaddr + ph.pFilesz < usizeMod ∧ ph.pOffset + (alignDown
              (0 + ph.pVaddr + min ph.pMemsz ph.pFilesz - 1) - (0 + ph.pVaddr)) < usizeMod := by
          decide +kernel
        obtain ⟨hstop, hfile, hsource⟩ := hall ph hph
        exact ⟨hstop, hfile, fun _ _ => hsource⟩
      below := by decide +kernel
      fallback := by decide +kernel
      entry := by decide +kernel }

/-- An image whose second segment starts two bytes before the end of the word. The sum of its start
and its size is `2`, the loader takes it for a segment of two pages, maps the last page of the word
and the page at `0`, and reports success. -/
theorem loader_wraps_segment :
    (sampleSegments (2 ^ 64 - 2)).valid = true ∧ (sampleSegments (2 ^ 64 - 2)).size < 2 ^ 63 ∧
    (∃ info, ((loadElfIntoProcess 1 (sampleSegments (2 ^ 64 - 2)) 0).run sampleBoot).1 = .ok info) ∧
    (((loadElfIntoProcess 1 (sampleSegments (2 ^ 64 - 2)) 0).run sampleBoot).2.mms.get? 1).map
      (fun mm => (mm.memoryMaps.get? 0).isSome) = some true ∧
    ¬ (sampleSegments (2 ^ 64 - 2)).LoadsSafely usizeMod 0 := by
  refine ⟨by decide +kernel, by decide, ⟨(sampleSegments (2 ^ 64 - 2)).info 0, by decide +kernel⟩,
    by decide +kernel, fun h => ?_⟩
  have hload : ⟨PT_LOAD, PF_W, 180, 2 ^ 64 - 2, 4, 4⟩ ∈ (sampleSegments (2 ^ 64 - 2)).segments := by
    decide +kernel
  have hsum := (ElfImage.loadSums_exact (by decide)).mp h.exact
  exact absurd (hsum.2.2.1 _ hload).stop (by decide)

end Ape
