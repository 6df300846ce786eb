import Ape.Proofs.Mmap

/-!
# `Ape.Proofs.Mremap`: one specification for every way through `mremap`

`mremap` may shrink a range, grow it in place, or move it, and with `MREMAP_FIXED` it does the
same to a given target. `Remapped` says page by page what it leaves behind, whichever way it went.
The lengths are those that the call rounds to whole pages.

A page is described by what `collect_remap_states` reads of it: a frame with permissions, or a
lazy page with permissions. The pages that are kept have the same description at the target.
-/

set_option autoImplicit false

namespace Ape

open Ape.Lib Cmd MmState

/-! ### Pages and their states -/

/-- The record without the file behind it. -/
def PageRecord.bare (r : PageRecord) : PageRecord :=
  { r with fileBackingFd := none, fileBackingOffset := 0 }

/-- What there is at an address, without the file behind it: the types, the permissions and the
byte. -/
def AddrView.bare (x : AddrView) : AddrView :=
  { x with mapped := x.mapped.map PageRecord.bare, lazily := x.lazily.map PageRecord.bare }

/-- What a page in this state has at an offset. -/
def RemapPageState.viewIn (frames : Nat → Option Frame) (o : Nat) : RemapPageState → AddrView
  | .mapped c fl => ⟨some ⟨fl, .anonymous, none, 0⟩, none, (frames c).map fun f => f.data o⟩
  | .lazyPage fl => ⟨none, some ⟨fl, .anonymous, none, 0⟩, none⟩

namespace MmState

variable {mm : MmState} {p : Nat} {st : RemapPageState}

/-- The entry that the state of a page was read from. -/
theorem remapState_entry (h : mm.remapState p = .ok st) :
    ∃ m, (mm.table (remapEntry p st).1).get? p = some m ∧ m.memType = .anonymous ∧
      m.size = PGSIZE ∧ m.flags = st.flags ∧ ∀ c fl, st = .mapped c fl → m.frameCap = c := by
  unfold remapState at h
  split at h
  · rename_i m hm
    split at h
    · cases h
    · rename_i hok
      rw [not_or, not_not, not_not] at hok
      cases h
      exact ⟨m, hm, hok.1, hok.2, rfl, fun c fl heq => by cases heq; rfl⟩
  · split at h
    · rename_i m hm
      split at h
      · cases h
      · rename_i hok
        rw [not_or, not_not, not_not] at hok
        cases h
        exact ⟨m, hm, hok.1, hok.2, rfl, fun c fl heq => by cases heq⟩
    · cases h

/-- A lookup of the other table misses. -/
theorem Sound.other_misses (h : mm.Sound) {l j : TableKind} {k a : Nat} {m : MemoryMap}
    (hk : (mm.table l).get? k = some m) (hin : m.Contains a) (hne : j ≠ l) :
    entryAt (mm.table j) a = none := by
  cases hm : entryAt (mm.table j) a with
  | none => rfl
  | some m' =>
    obtain ⟨k', hk', hin'⟩ := (h.entryAt_iff j).mp hm
    exact absurd (h.entry_unique hk' hk hin' hin).1 hne

/-- What a page has is a function of its state. -/
theorem Sound.viewAt_state (h : mm.Sound) (hst : mm.remapState p = .ok st)
    (frames : Nat → Option Frame) {o : Nat} (ho : o < PGSIZE) :
    (mm.viewAt frames (p + o)).bare = st.viewIn frames o := by
  obtain ⟨m, hm, hty, hsize, hflags, hcap⟩ := remapState_entry hst
  have hvaddr : m.vaddr = p := h.key _ p m hm
  have hin : m.Contains (p + o) := by
    unfold MemoryMap.Contains
    omega
  have hfound := h.entryAt_eq hm hin
  -- a sound table has the address in one of its two tables only
  cases st with
  | mapped c fl =>
    have hother : entryAt (mm.table .lazily) (p + o) = none :=
      h.other_misses (l := .mapped) hm hin (by simp)
    have hbyte : mm.byteAt frames (p + o) = (frames c).map fun f => f.data o := by
      rw [byteAt, show mm.lookupMemoryMap (p + o) = some m from hfound]
      show (frames m.frameCap).map (fun f => f.data (p + o - m.vaddr)) = _
      rw [hcap c fl rfl, hvaddr, Nat.add_sub_cancel_left]
    have hmapped : (mm.recordAt .mapped (p + o)).map PageRecord.bare
        = some ⟨fl, .anonymous, none, 0⟩ := by
      rw [recordAt, show entryAt (mm.table .mapped) (p + o) = some m from hfound]
      show some (PageRecord.mk m.flags m.memType none 0) = _
      rw [hflags, hty]
      rfl
    show AddrView.mk ((mm.recordAt .mapped (p + o)).map _) ((mm.recordAt .lazily (p + o)).map _)
      (mm.byteAt frames (p + o)) = _
    rw [hmapped, hbyte, recordAt, hother]
    rfl
  | lazyPage fl =>
    have hother : entryAt (mm.table .mapped) (p + o) = none :=
      h.other_misses (l := .lazily) hm hin (by simp)
    have hbyte : mm.byteAt frames (p + o) = none := by
      rw [byteAt, show mm.lookupMemoryMap (p + o) = none from hother]
      rfl
    have hlazily : (mm.recordAt .lazily (p + o)).map PageRecord.bare
        = some ⟨fl, .anonymous, none, 0⟩ := by
      rw [recordAt, show entryAt (mm.table .lazily) (p + o) = some m from hfound]
      show some (PageRecord.mk m.flags m.memType none 0) = _
      rw [hflags, hty]
      rfl
    show AddrView.mk ((mm.recordAt .mapped (p + o)).map _) ((mm.recordAt .lazily (p + o)).map _)
      (mm.byteAt frames (p + o)) = _
    rw [hlazily, hbyte, recordAt, hother]
    rfl

/-- The states that `collect_remap_states` returns are those of the pages, in order. -/
theorem collectRemapStates_forall {pages : List Nat} :
    ∀ {states : List RemapPageState}, mm.collectRemapStates pages = .ok states →
      List.Forall₂ (fun p st => mm.remapState p = .ok st) pages states := by
  -- induction over the pages: the states are collected in their order
  induction pages with
  | nil =>
    intro states h
    cases h
    exact .nil
  | cons page rest ih =>
    intro states h
    unfold collectRemapStates at h
    cases hst : mm.remapState page with
    | error e =>
      rw [hst] at h
      cases h
    | ok st =>
      cases hrest : mm.collectRemapStates rest with
      | error e =>
        rw [hst, hrest] at h
        cases h
      | ok sts =>
        rw [hst, hrest] at h
        cases h
        exact .cons hst (ih hrest)

/-- A range has a page for each `PGSIZE` bytes. -/
theorem length_pageRange {start n : Nat} (hn : n % PGSIZE = 0) :
    (pageRange start (start + n)).length = n / PGSIZE := by
  rw [pageRange, List.length_map, List.length_range, Nat.add_sub_cancel_left]
  unfold PGSIZE at *
  omega

/-- The pages of a range, by their number. -/
theorem getElem_pageRange {start stop i : Nat} (hi : i < (pageRange start stop).length) :
    (pageRange start stop)[i] = start + i * PGSIZE := by
  simp [pageRange]

/-- The state of each page of a range. -/
theorem collectRemapStates_page {old n : Nat} {states : List RemapPageState} (hn : n % PGSIZE = 0)
    (h : mm.collectRemapStates (pageRange old (old + n)) = .ok states) :
    states.length = n / PGSIZE ∧
    ∀ i st, states[i]? = some st → mm.remapState (old + i * PGSIZE) = .ok st := by
  have hall := collectRemapStates_forall h
  have hlen : states.length = n / PGSIZE := by
    rw [← hall.length_eq, length_pageRange hn]
  refine ⟨hlen, ?_⟩
  intro i st hi
  obtain ⟨hlt, rfl⟩ := List.getElem?_eq_some_iff.mp hi
  have hlt' : i < (pageRange old (old + n)).length := by
    rw [hall.length_eq]
    exact hlt
  have hget := hall.get hlt' hlt
  rwa [List.get_eq_getElem, getElem_pageRange, List.get_eq_getElem] at hget

/-- The page of an address in a range of pages. -/
theorem page_of_range {old n a : Nat} (hn : n % PGSIZE = 0) (hlo : old ≤ a) (hhi : a < old + n) :
    ∃ i o, i < n / PGSIZE ∧ o < PGSIZE ∧ a = old + i * PGSIZE + o := by
  refine ⟨(a - old) / PGSIZE, (a - old) % PGSIZE, ?_, Nat.mod_lt _ (by decide), ?_⟩ <;>
    unfold PGSIZE at * <;> omega

end MmState

/-! ### What `mremap` leaves behind -/

/-- What `mremap` leaves behind. The pages that are kept have at the target what they had, the
further pages of the new range are lazy with the permissions of the first old page, the old pages
outside of the new range are gone, and every other address has what it had. -/
structure Remapped (pid old target oldPages newPages : Nat) (v : MapView) (mm : MmState)
    (v' : MapView) (mm' : MmState) : Prop where
  mms : v'.mms.get? pid = some mm'
  others : ∀ q, q ≠ pid → v'.mms.get? q = v.mms.get? q
  moved : ∀ i o, i < min oldPages newPages → o < PGSIZE →
    (mm'.viewAt v'.frames (target + i * PGSIZE + o)).bare
      = (mm.viewAt v.frames (old + i * PGSIZE + o)).bare
  grown : ∃ flags, (0 < oldPages → ∃ l r, mm.recordAt l old = some r ∧ r.flags = flags) ∧
    ∀ i, min oldPages newPages ≤ i → i < newPages →
      mm'.lazyMemoryMaps.get? (target + i * PGSIZE)
        = some (lazyEntry (target + i * PGSIZE) flags .anonymous none 0)
  gone : ∀ a, old ≤ a → a < old + oldPages * PGSIZE →
    (a < target ∨ target + newPages * PGSIZE ≤ a) →
    mm'.lookupMemoryMap a = none ∧ mm'.lookupLazyMemoryMap a = none
  kept : ∀ a, (a < old ∨ old + oldPages * PGSIZE ≤ a) →
    (a < target ∨ target + newPages * PGSIZE ≤ a) →
    mm'.viewAt v'.frames a = mm.viewAt v.frames a

section Modes

variable {pid old target oldLen newLen : Nat} {v v' : MapView} {mm mm' : MmState}
  {states : List RemapPageState}

/-- Whole pages have their number times `PGSIZE` bytes. -/
theorem div_mul_page {n : Nat} (hn : n % PGSIZE = 0) : n / PGSIZE * PGSIZE = n :=
  Nat.div_mul_cancel (Nat.dvd_of_mod_eq_zero hn)

/-- The permissions of the first old page. -/
theorem first_flags (hsound : mm.Sound) (hold : oldLen % PGSIZE = 0)
    (hstates : mm.collectRemapStates (pageRange old (old + oldLen)) = .ok states)
    (hpos : 0 < oldLen / PGSIZE) :
    ∃ l r, mm.recordAt l old = some r ∧
      r.flags = (states.head?.map RemapPageState.flags).getD Perms.RW := by
  obtain ⟨hlen, hpage⟩ := collectRemapStates_page hold hstates
  rw [← hlen] at hpos
  have hfirst := List.getElem?_eq_getElem hpos
  have hst := hpage 0 _ hfirst
  rw [Nat.zero_mul, Nat.add_zero] at hst
  obtain ⟨m, hm, -, hsize, hflags, -⟩ := remapState_entry hst
  have hvaddr : m.vaddr = old := hsound.key _ old m hm
  have hin : m.Contains old := by
    have hpg : 0 < PGSIZE := by decide
    unfold MemoryMap.Contains
    omega
  refine ⟨(remapEntry old states[0]).1, m.recordAt old, ?_, ?_⟩
  · rw [recordAt, hsound.entryAt_eq hm hin]
    rfl
  · rw [List.head?_eq_getElem?, hfirst]
    exact hflags

/-- A range that shrinks, or stays. -/
theorem RangeRemoved.remapped (hsound : mm.Sound) (hsound' : mm'.Sound) (hold : oldLen % PGSIZE = 0)
    (hnew : newLen % PGSIZE = 0) (hle : newLen ≤ oldLen)
    (hstates : mm.collectRemapStates (pageRange old (old + oldLen)) = .ok states)
    (h : RangeRemoved pid (old + newLen) (old + oldLen) v mm v' mm') :
    Remapped pid old old (oldLen / PGSIZE) (newLen / PGSIZE) v mm v' mm' := by
  obtain ⟨hlen, hpage⟩ := collectRemapStates_page hold hstates
  have hmin : min (oldLen / PGSIZE) (newLen / PGSIZE) = newLen / PGSIZE :=
    Nat.min_eq_right (Nat.div_le_div_right hle)
  refine
    { mms := h.mms
      others := h.others
      moved := fun i o hi ho => ?_
      grown := ⟨_, first_flags hsound hold hstates, fun i hi hi' => by omega⟩
      gone := fun a hlo hhi hout => ?_
      kept := fun a hout _ => ?_ }
  · rw [hmin] at hi
    have hlt : i * PGSIZE + o < newLen := by
      have hmul : (i + 1) * PGSIZE ≤ newLen / PGSIZE * PGSIZE := Nat.mul_le_mul_right _ hi
      rw [div_mul_page hnew, Nat.add_mul, Nat.one_mul] at hmul
      omega
    rw [h.kept _ (.inl (by omega))]
  · rw [div_mul_page hold] at hhi
    rw [div_mul_page hnew] at hout
    have hge : old + newLen ≤ a := by omega
    refine ⟨?_, h.lazies a hge hhi⟩
    -- a fixed entry at the address would be one of the old table too
    cases hm : mm'.lookupMemoryMap a with
    | none => rfl
    | some m =>
      have hfix := h.mapped a m hge hhi hm
      obtain ⟨k, hk, hin⟩ := (hsound'.lookups a m).1.mp hm
      have hwas := (h.fixed k m hfix).mp hk
      obtain ⟨i, o, hi, ho, rfl⟩ := page_of_range hold hlo hhi
      rw [← hlen] at hi
      have hst := hpage i _ (List.getElem?_eq_getElem hi)
      obtain ⟨m', hm', hty, hsize, -, -⟩ := remapState_entry hst
      have hvaddr : m'.vaddr = old + i * PGSIZE := hsound.key _ _ m' hm'
      have hin' : m'.Contains (old + i * PGSIZE + o) := by
        unfold MemoryMap.Contains
        omega
      obtain ⟨hl, hkk⟩ := hsound.entry_unique (l := .mapped) hwas hm' hin hin'
      rw [← hl, ← hkk, show (mm.table .mapped).get? k = some m from hwas] at hm'
      cases hm'
      rw [hty] at hfix
      cases hfix
  · rw [div_mul_page hold] at hout
    refine h.kept a ?_
    rcases hout with hlt | hge
    · exact .inl (by omega)
    · exact .inr (.inl hge)

/-- A range that keeps its length. -/
theorem Remapped.same (hmm : v.mms.get? pid = some mm) (hsound : mm.Sound)
    (hold : oldLen % PGSIZE = 0)
    (hstates : mm.collectRemapStates (pageRange old (old + oldLen)) = .ok states) :
    Remapped pid old old (oldLen / PGSIZE) (oldLen / PGSIZE) v mm v mm where
  mms := hmm
  others _ _ := rfl
  moved _ _ _ _ := rfl
  grown := ⟨_, first_flags hsound hold hstates, fun i hi hi' => by omega⟩
  gone a hlo hhi hout := by omega
  kept _ _ _ := rfl

/-- A range that grows in place. -/
theorem addLazyRange_remapped (hsound : mm.Sound)
    (hpage : old % PGSIZE = 0) (hold : oldLen % PGSIZE = 0) (hnew : newLen % PGSIZE = 0)
    (hle : oldLen ≤ newLen) (hlt : old + newLen < usizeMod)
    (hstates : mm.collectRemapStates (pageRange old (old + oldLen)) = .ok states)
    (hfree : mm.Free (old + oldLen) (newLen - oldLen))
    (hmms : v'.mms.get? pid = some mm')
    (hmm' : mm' = { mm.addLazyRange ((states.head?.map RemapPageState.flags).getD Perms.RW)
      (pageRange (old + oldLen) (old + newLen)) with mmapNext := max mm.mmapNext (old + newLen) })
    (hothers : ∀ q, q ≠ pid → v'.mms.get? q = v.mms.get? q) (hframes : v'.frames = v.frames) :
    Remapped pid old old (oldLen / PGSIZE) (newLen / PGSIZE) v mm v' mm' ∧ mm'.Sound := by
  let flags := (states.head?.map RemapPageState.flags).getD Perms.RW
  let es := (pageRange (old + oldLen) (old + newLen)).map fun p =>
    (TableKind.lazily, lazyEntry p flags .anonymous none 0)
  have hdiff : (newLen - oldLen) % PGSIZE = 0 :=
    Nat.mod_eq_zero_of_dvd (Nat.dvd_sub (Nat.dvd_of_mod_eq_zero hnew) (Nat.dvd_of_mod_eq_zero hold))
  have hend : old + newLen = old + oldLen + (newLen - oldLen) := by omega
  have hvaddrs : es.map (·.2.vaddr) = pageRange (old + oldLen) (old + newLen) := by
    show ((pageRange (old + oldLen) (old + newLen)).map _).map _ = _
    rw [List.map_map]
    exact List.map_id _
  -- the pages that are added are those of `es`, whatever the table
  have htables : ∀ l, mm'.table l = (es.foldl (fun mm e => mm.addTo e.1 e.2) mm).table l := by
    intro l
    rw [hmm', List.foldl_map]
    cases l <;> rfl
  have hdis : es.Pairwise fun e e' => e.2.vaddr ≠ e'.2.vaddr := by
    have hd := pageRange_distinct (old + oldLen) (old + newLen)
    rw [← hvaddrs] at hd
    exact List.pairwise_map.mp hd
  have hsound' : mm'.Sound := by
    have hroom := hfree.roomFor (add_page hpage hold) hdiff (by omega)
    rw [← hend] at hroom
    rw [hmm']
    exact (hsound.addLazyRange flags hroom).setNext
      (hsound.aligned.max_next (add_page hpage hnew))
  -- outside the added pages the view is the old one
  have hview : ∀ a, a < old + oldLen ∨ old + newLen ≤ a →
      mm'.viewAt v'.frames a = mm.viewAt v.frames a := by
    intro a ha
    refine hsound.viewAt_added hsound' hfree hdis (fun e he => ?_) htables
      (fun k m _ => by rw [hframes]) (by omega)
    have hmem : e.2.vaddr ∈ pageRange (old + oldLen) (old + oldLen + (newLen - oldLen)) := by
      rw [← hend, ← hvaddrs]
      exact List.mem_map_of_mem he
    obtain ⟨hlo, hhi, -⟩ := pageRange_le hdiff hmem
    obtain ⟨p, -, rfl⟩ := List.mem_map.mp he
    have hpos : 0 < PGSIZE := by decide
    exact ⟨hlo, hhi, hpos⟩
  have hmin : min (oldLen / PGSIZE) (newLen / PGSIZE) = oldLen / PGSIZE :=
    Nat.min_eq_left (Nat.div_le_div_right hle)
  refine ⟨?_, hsound'⟩
  -- the pages that stay in place, those that are added, and the addresses around
  refine
    { mms := hmms
      others := hothers
      moved := fun i o hi ho => ?_
      grown := ⟨flags, first_flags hsound hold hstates, fun i hi hi' => ?_⟩
      gone := fun a hlo hhi hout => ?_
      kept := fun a hout hout' => ?_ }
  · rw [hmin] at hi
    have hmul : (i + 1) * PGSIZE ≤ oldLen / PGSIZE * PGSIZE := Nat.mul_le_mul_right _ hi
    rw [div_mul_page hold, Nat.add_mul, Nat.one_mul] at hmul
    rw [hview _ (.inl (by omega))]
  · rw [hmin] at hi
    -- the page is behind the old end, so it is one of the added ones
    have hlow : oldLen ≤ i * PGSIZE := by
      rw [← div_mul_page hold]
      exact Nat.mul_le_mul_right _ hi
    have hhigh : (i + 1) * PGSIZE ≤ newLen := by
      rw [← div_mul_page hnew]
      exact Nat.mul_le_mul_right _ hi'
    rw [Nat.add_mul, Nat.one_mul] at hhigh
    have hpos : 0 < PGSIZE := by decide
    have hmem : old + i * PGSIZE ∈ pageRange (old + oldLen) (old + newLen) :=
      mem_pageRange_of_le (add_page hpage hold)
        (add_page hpage (Nat.mul_mod_left _ _)) (by omega) (by omega)
    have hin : (TableKind.lazily, lazyEntry (old + i * PGSIZE) flags .anonymous none 0) ∈ es :=
      List.mem_map.mpr ⟨_, hmem, rfl⟩
    have hget := get?_foldl_addTo_mem hdis hin mm
    rw [← htables] at hget
    exact hget
  · rw [div_mul_page hold] at hhi
    rw [div_mul_page hnew] at hout
    omega
  · rw [div_mul_page hnew] at hout'
    exact hview a (by omega)

/-- The tables without the old pages. -/
theorem get?_removePages (pages : List Nat) (mm : MmState) (l : TableKind) (k : Nat) :
    ((pages.foldl (fun mm p => (mm.removeMemoryMap p).removeLazyMemoryMap p) mm).table l).get? k
      = if k ∈ pages then none else (mm.table l).get? k := by
  induction pages generalizing mm with
  | nil => rfl
  | cons p rest ih =>
    rw [List.foldl_cons, ih]
    have hone : (((mm.removeMemoryMap p).removeLazyMemoryMap p).table l).get? k
        = if k = p then none else (mm.table l).get? k := by
      cases l <;> exact OrdMap.get?_erase _ _ _
    rw [hone]
    by_cases heq : k = p <;> simp [heq]

/-- A range that moves to a free one. -/
theorem moveRange_remapped (hsound : mm.Sound)
    (hpage : old % PGSIZE = 0) (hold : oldLen % PGSIZE = 0) (hnew : newLen % PGSIZE = 0)
    (htarget : target % PGSIZE = 0) (hlt : target + newLen < usizeMod)
    (hstates : mm.collectRemapStates (pageRange old (old + oldLen)) = .ok states)
    (hfree : mm.Free target newLen)
    (hmms : v'.mms.get? pid = some mm')
    (hmm' : mm' = mm.moveRange (pageRange old (old + oldLen)) target states
      ((states.head?.map RemapPageState.flags).getD Perms.RW) (newLen / PGSIZE))
    (hothers : ∀ q, q ≠ pid → v'.mms.get? q = v.mms.get? q) (hframes : v'.frames = v.frames) :
    Remapped pid old target (oldLen / PGSIZE) (newLen / PGSIZE) v mm v' mm' ∧ mm'.Sound := by
  let flags := (states.head?.map RemapPageState.flags).getD Perms.RW
  let removed := (pageRange old (old + oldLen)).foldl
    (fun mm p => (mm.removeMemoryMap p).removeLazyMemoryMap p) mm
  let es := moveEntries target states flags (newLen / PGSIZE)
  obtain ⟨hlen, hpages⟩ := collectRemapStates_page hold hstates
  have hvaddrs : es.map (·.2.vaddr) = pageRange target (target + newLen) := by
    have hall := moveEntries_vaddrs target states flags (newLen / PGSIZE)
    rwa [div_mul_page hnew] at hall
  have hdis : es.Pairwise fun e e' => e.2.vaddr ≠ e'.2.vaddr := by
    have hd := pageRange_distinct target (target + newLen)
    rw [← hvaddrs] at hd
    exact List.pairwise_map.mp hd
  have htables : ∀ l, mm'.table l = (es.foldl (fun mm e => mm.addTo e.1 e.2) removed).table l := by
    intro l
    rw [hmm', moveRange_eq]
    cases l <;> rfl
  have hw : Within removed mm :=
    within_foldl (fun mm p => (within_removeLazy _ p).trans (within_remove mm p)) _ _
  have hsound₁ : removed.Sound := hsound.within hw
  have hsound' : mm'.Sound := by
    rw [hmm']
    refine hsound.moveRange flags htarget (by rwa [div_mul_page hnew])
      (by rwa [div_mul_page hnew]) (hsound.collect_frames _ hstates)
  -- an address of the old range is in the entry of its page
  have hentry : ∀ a, old ≤ a → a < old + oldLen → ∃ l k m, (mm.table l).get? k = some m ∧
      m.Contains a ∧ k ∈ pageRange old (old + oldLen) ∧ m.size = PGSIZE := by
    intro a hlo hhi
    obtain ⟨i, o, hi, ho, rfl⟩ := page_of_range hold hlo hhi
    have hi' : i < states.length := by rwa [hlen]
    obtain ⟨m, hm, -, hsize, -, -⟩ := remapState_entry (hpages i _ (List.getElem?_eq_getElem hi'))
    have hvaddr : m.vaddr = old + i * PGSIZE := hsound.key _ _ m hm
    refine ⟨_, _, m, hm, ?_, mem_pageRange_of_le hpage (add_page hpage (Nat.mul_mod_left _ _))
      (by omega) (by omega), hsize⟩
    unfold MemoryMap.Contains
    omega
  have hat : ∀ e ∈ es, target ≤ e.2.vaddr ∧ e.2.vaddr + e.2.size ≤ target + newLen ∧
      0 < e.2.size := by
    intro e he
    have hmem : e.2.vaddr ∈ pageRange target (target + newLen) := by
      rw [← hvaddrs]
      exact List.mem_map_of_mem he
    obtain ⟨hlo, hhi, -⟩ := pageRange_le hnew hmem
    have hsize : e.2.size = PGSIZE := by
      rcases List.mem_append.mp he with he | he
      · obtain ⟨⟨st, i⟩, -, rfl⟩ := List.mem_map.mp he
        cases st <;> rfl
      · obtain ⟨p, -, rfl⟩ := List.mem_map.mp he
        rfl
    rw [hsize]
    exact ⟨hlo, hhi, by decide⟩
  refine ⟨?_, hsound'⟩
  refine
    { mms := hmms
      others := hothers
      moved := fun i o hi ho => ?_
      grown := ⟨flags, first_flags hsound hold hstates, fun i hi hi' => ?_⟩
      gone := fun a hlo hhi hout => ?_
      kept := fun a hout hout' => ?_ }
  · -- the page has the same state at the target
    have hi' : i < states.length := by omega
    have hst := hpages i _ (List.getElem?_eq_getElem hi')
    have hin : remapEntry (target + i * PGSIZE) states[i] ∈ es := by
      refine List.mem_append_left _ (List.mem_map.mpr ⟨(states[i], i), ?_, rfl⟩)
      refine List.mem_zipIdx_iff_getElem?.mpr ?_
      rw [List.getElem?_take_of_lt (by omega)]
      exact List.getElem?_eq_getElem hi'
    have hget := get?_foldl_addTo_mem hdis hin removed
    rw [← htables, remapEntry_vaddr] at hget
    have hst' : mm'.remapState (target + i * PGSIZE) = .ok states[i] := by
      cases hcase : states[i] with
      | mapped c fl =>
        rw [hcase] at hget
        have hmap : mm'.memoryMaps.get? (target + i * PGSIZE)
            = some (pageEntry (target + i * PGSIZE) fl .anonymous c) := hget
        rw [remapState, hmap]
        rfl
      | lazyPage fl =>
        rw [hcase] at hget
        have hlazy : mm'.lazyMemoryMaps.get? (target + i * PGSIZE)
            = some (lazyEntry (target + i * PGSIZE) fl .anonymous none 0) := hget
        have hnone : mm'.memoryMaps.get? (target + i * PGSIZE) = none := by
          cases hm : mm'.memoryMaps.get? (target + i * PGSIZE) with
          | none => rfl
          | some m =>
            have hvaddr : m.vaddr = target + i * PGSIZE := hsound'.key .mapped _ m hm
            have hsize : 0 < m.size := (hsound'.paged .mapped _ m hm).2.2
            have hin : m.Contains (target + i * PGSIZE) := by
              unfold MemoryMap.Contains
              omega
            have hboth := hsound'.entry_unique (l := .mapped) (j := .lazily) hm hlazy hin
              ⟨le_rfl, Nat.lt_add_of_pos_right (show 0 < PGSIZE by decide)⟩
            cases hboth.1
        rw [remapState, hnone, hlazy]
        rfl
    rw [hsound'.viewAt_state hst' v'.frames ho, hsound.viewAt_state hst v.frames ho, hframes]
  · rw [hlen.symm] at hi
    have hmem : target + i * PGSIZE ∈ pageRange
        (target + min states.length (newLen / PGSIZE) * PGSIZE)
        (target + newLen / PGSIZE * PGSIZE) := by
      have hlow := Nat.mul_le_mul_right PGSIZE hi
      have hhigh : (i + 1) * PGSIZE ≤ newLen / PGSIZE * PGSIZE := Nat.mul_le_mul_right _ hi'
      rw [Nat.add_mul, Nat.one_mul] at hhigh
      have hpos : 0 < PGSIZE := by decide
      exact mem_pageRange_of_le (add_page htarget (Nat.mul_mod_left _ _))
        (add_page htarget (Nat.mul_mod_left _ _)) (by omega) (by omega)
    have hin : (TableKind.lazily, lazyEntry (target + i * PGSIZE) flags .anonymous none 0) ∈ es :=
      List.mem_append_right _ (List.mem_map.mpr ⟨_, hmem, rfl⟩)
    have hget := get?_foldl_addTo_mem hdis hin removed
    rw [← htables] at hget
    exact hget
  · rw [div_mul_page hold] at hhi
    rw [div_mul_page hnew] at hout
    have hnone : ∀ l, entryAt (mm'.table l) a = none := by
      intro l
      cases hm : entryAt (mm'.table l) a with
      | none => rfl
      | some m =>
        obtain ⟨k, hk, hin⟩ := (hsound'.entryAt_iff l).mp hm
        rw [htables l] at hk
        by_cases hnewEntry : ∃ e ∈ es, e.1 = l ∧ e.2.vaddr = k
        · obtain ⟨e, he, rfl, rfl⟩ := hnewEntry
          rw [get?_foldl_addTo_mem hdis he] at hk
          obtain rfl := Option.some.inj hk
          obtain ⟨hlo', hhi', -⟩ := hat e he
          obtain ⟨hin₁, hin₂⟩ := hin
          omega
        · rw [get?_foldl_addTo_notMem fun e he hl hk' => hnewEntry ⟨e, he, hl, hk'⟩,
            get?_removePages] at hk
          split at hk
          · cases hk
          · rename_i hnot
            obtain ⟨l₀, k₀, m₀, hm₀, hin₀, hmem, -⟩ := hentry a hlo hhi
            obtain ⟨-, rfl⟩ := hsound.entry_unique hk hm₀ hin hin₀
            exact absurd hmem hnot
    exact ⟨hnone .mapped, hnone .lazily⟩
  · rw [div_mul_page hold] at hout
    rw [div_mul_page hnew] at hout'
    have hadded : mm'.viewAt v'.frames a = removed.viewAt v.frames a :=
      hsound₁.viewAt_added hsound' (hfree.within hw) hdis hat htables
        (fun k m _ => by rw [hframes]) hout'
    refine hadded.trans (hsound.viewAt_congr hsound₁ (fun l k m hin => ?_) fun _ _ _ _ => rfl)
    rw [get?_removePages]
    split
    · -- an entry at an old page is that page
      rename_i hmem
      refine ⟨fun hk => (by cases hk), ?_⟩
      intro hk
      obtain ⟨hlo, hhi, -⟩ := pageRange_le hold hmem
      have hpos : 0 < PGSIZE := by decide
      have hvaddr : m.vaddr = k := hsound.key l k m hk
      obtain ⟨l₀, k₀, m₀, hm₀, hin₀, -, hsize⟩ := hentry k hlo (by omega)
      have hin' : m.Contains k := by
        have hsize' : 0 < m.size := (hsound.paged l k m hk).2.2
        unfold MemoryMap.Contains
        omega
      obtain ⟨rfl, rfl⟩ := hsound.entry_unique hk hm₀ hin' hin₀
      rw [hk] at hm₀
      cases hm₀
      obtain ⟨hin₁, hin₂⟩ := hin
      omega
    · exact Iff.rfl

end Modes

/-! ### The call -/

section Call

variable {w₀ : World} {pid old target oldLen newLen : Nat} {mm : MmState}
  {states : List RemapPageState}

/-- What a way through `mremap` leaves behind. -/
def RemapPost (w₀ : World) (pid old oldLen newLen : Nat) (mm : MmState) (t : Nat)
    (w : World) : Prop :=
  ∃ mm', Remapped pid old t (oldLen / PGSIZE) (newLen / PGSIZE) w₀.mapView mm w.mapView mm' ∧
    mm'.Sound

/-- Whole pages are not rounded. -/
theorem alignUp_self {n : Nat} (hn : n % PGSIZE = 0) (hlt : n < usizeMod) : alignUp n = n := by
  unfold alignUp wAdd
  unfold PGSIZE usizeMod at *
  omega

/-- A change of the tables of a process whose tables are known. -/
theorem modifyMm_view {v : MapView} (f : MmState → MmState) (hmm : v.mms.get? pid = some mm) :
    Triple (fun w => w.mapView = v) (modifyMm pid f)
      (fun _ w => w.mapView.mms.get? pid = some (f mm) ∧
        (∀ q, q ≠ pid → w.mapView.mms.get? q = v.mms.get? q) ∧ w.mapView.frames = v.frames)
      (fun _ _ => True) := by
  refine Triple.modify fun w hw => ?_
  have hmms : (w.modifyMm pid f).mapView.mms = v.mms.modify pid f := by
    rw [← show w.mms = v.mms from congrArg MapView.mms hw]
    exact w.mms_modifyMm pid f
  refine ⟨?_, ?_, ?_⟩
  · rw [hmms, OrdMap.get?_modify, if_pos rfl, hmm]
    rfl
  · intro q hq
    rw [hmms, OrdMap.get?_modify, if_neg hq]
  · show w.frames = v.frames
    exact congrArg MapView.frames hw

/-- The range shrinks in place. -/
theorem shrink_view (hinv : FrameInv w₀) (hmm : w₀.mms.get? pid = some mm) (hsound : mm.Sound)
    (hold : oldLen % PGSIZE = 0) (hnew : newLen % PGSIZE = 0) (hlt : old + oldLen < usizeMod)
    (hle : newLen ≤ oldLen)
    (hstates : mm.collectRemapStates (pageRange old (old + oldLen)) = .ok states) :
    Triple (fun w => w = w₀)
      (do doMunmap pid (old + newLen) (oldLen - newLen)
          pure old)
      (RemapPost w₀ pid old oldLen newLen mm) (fun _ _ => True) := by
  have hdiff : (oldLen - newLen) % PGSIZE = 0 :=
    Nat.mod_eq_zero_of_dvd (Nat.dvd_sub (Nat.dvd_of_mod_eq_zero hold) (Nat.dvd_of_mod_eq_zero hnew))
  have hend : old + newLen + alignUp (oldLen - newLen) = old + oldLen := by
    rw [alignUp_self hdiff (by omega)]
    omega
  refine Triple.bind (doMunmap_view hinv hmm hsound) fun _ => Triple.pure fun w hw => ?_
  obtain ⟨-, -, mm', hremoved, hsound'⟩ := hw
  rw [hend] at hremoved
  exact ⟨mm', hremoved.remapped hsound hsound' hold hnew hle hstates, hsound'⟩

/-- The range grows in place. -/
theorem expandInPlace_view (hmm : w₀.mms.get? pid = some mm) (hsound : mm.Sound)
    (hpage : old % PGSIZE = 0) (hold : oldLen % PGSIZE = 0) (hnew : newLen % PGSIZE = 0)
    (hle : oldLen ≤ newLen) (hlt : old + newLen < usizeMod)
    (hstates : mm.collectRemapStates (pageRange old (old + oldLen)) = .ok states)
    (hfree : mm.rangeIsFreeExcluding old (old + newLen) old (old + oldLen) = true) :
    Triple (fun w => w = w₀)
      (do expandInPlace pid (old + oldLen) (old + newLen)
            ((states.head?.map RemapPageState.flags).getD Perms.RW)
          pure old)
      (RemapPost w₀ pid old oldLen newLen mm) (fun _ _ => True) := by
  have hpast := hsound.free_past (Nat.le_add_right old oldLen) hfree
  rw [show old + newLen - (old + oldLen) = newLen - oldLen by omega] at hpast
  unfold expandInPlace
  refine Triple.bind ?_ fun _ => Triple.pure fun w hw => hw
  refine Triple.bind (getProcess_known hmm) fun _ => ?_
  refine ((modifyMm_view (fun mm => _) hmm).pre (P := fun w => w = w₀ ∧ _) fun w hw => by
    rw [hw.1]).post fun _ w hw => ?_
  obtain ⟨hmms, hothers, hframes⟩ := hw
  exact ⟨_, addLazyRange_remapped hsound hpage hold hnew hle hlt hstates hpast hmms rfl
    hothers hframes⟩

/-- The range moves. -/
theorem remapMove_view (hmm : w₀.mms.get? pid = some mm) (hsound : mm.Sound)
    (hpage : old % PGSIZE = 0) (hold : oldLen % PGSIZE = 0) (hnew : newLen % PGSIZE = 0)
    (htarget : target % PGSIZE = 0)
    (hstates : mm.collectRemapStates (pageRange old (old + oldLen)) = .ok states) :
    Triple (fun w => w = w₀)
      (remapMove pid old oldLen newLen target states
        ((states.head?.map RemapPageState.flags).getD Perms.RW))
      (RemapPost w₀ pid old oldLen newLen mm) (fun _ _ => True) := by
  unfold remapMove
  refine Triple.bind (R := fun stop w => w = w₀ ∧ checkedAdd target newLen = some stop)
    (Triple.getSome (fun stop w hs hw => ⟨hw, hs⟩) fun _ _ _ => trivial) fun stop => ?_
  refine Triple.of_pre fun w h₁ => ?_
  obtain ⟨rfl, hstop⟩ := h₁
  obtain ⟨rfl, hlt⟩ := checkedAdd_some hstop
  -- a target that overlaps the old range is refused
  refine Triple.ite (fun _ => Triple.throw fun _ _ => trivial) fun _ => ?_
  refine Triple.bind (getProcess_known hmm) fun task => ?_
  refine Triple.of_pre fun w₁ h₁ => ?_
  obtain ⟨rfl, rfl⟩ := h₁
  -- and so is one that is not free
  refine Triple.ite (fun _ => Triple.throw fun _ _ => trivial) fun hrange => ?_
  have hrange' : task.mm.state.rangeIsFree target (target + newLen) = true := by simpa using hrange
  have hfree := (hsound.free_range hrange').2
  rw [Nat.add_sub_cancel_left] at hfree
  refine Triple.pre (K := fun w => w.mapView = w₁.mapView) ?_ fun w hw => by rw [hw]
  -- the frames are installed at the target, which the view does not see
  refine Triple.bind (blind_step (remapInstall_frames _ _ _ _)) fun _ => ?_
  refine Triple.bind (blind_step (by simp)) fun _ => ?_
  refine Triple.bind (R := fun _ w => RemapPost w₁ pid old oldLen newLen task.mm.state target w) ?_
    fun _ => ?_
  · refine (modifyMm_view _ hmm).post fun _ w hw => ?_
    obtain ⟨hmms, hothers, hframes⟩ := hw
    exact ⟨_, moveRange_remapped hsound hpage hold hnew htarget hlt hstates hfree hmms rfl hothers
      hframes⟩
  · -- the unmapping of the old pages is not seen
    have hunmap : Frames World.mapView (forEach states.zipIdx fun e =>
        match e.1 with
        | .mapped _ _ => ignore (unmapProcessPages pid (old + e.2 * PGSIZE) 1)
        | .lazyPage _ => pure ()) := by
      refine Frames.forEach fun e => ?_
      cases e.1 with
      | mapped c fl => simp
      | lazyPage fl => simp
    refine Triple.bind (R := fun _ w => RemapPost w₁ pid old oldLen newLen
      task.mm.state target w) ?_
      fun _ => Triple.pure fun _ h => h
    exact (hunmap.keeps fun v => ∃ mm', Remapped pid old target (oldLen / PGSIZE) (newLen / PGSIZE)
      w₁.mapView task.mm.state v mm' ∧ mm'.Sound).triple.errors fun _ _ _ => trivial

/-- `MREMAP_FIXED` with the old address as the target. -/
theorem remapSame_view (hinv : FrameInv w₀) (hmm : w₀.mms.get? pid = some mm) (hsound : mm.Sound)
    (hpage : old % PGSIZE = 0) (hold : oldLen % PGSIZE = 0) (hnew : newLen % PGSIZE = 0)
    (hlt : old + oldLen < usizeMod) (hlt' : old + newLen < usizeMod)
    (hstates : mm.collectRemapStates (pageRange old (old + oldLen)) = .ok states) :
    Triple (fun w => w = w₀)
      (remapSame pid old oldLen newLen ((states.head?.map RemapPageState.flags).getD Perms.RW))
      (RemapPost w₀ pid old oldLen newLen mm) (fun _ _ => True) := by
  unfold remapSame
  refine Triple.ite ?_ fun hge => Triple.ite ?_ ?_
  · intro hless
    exact shrink_view hinv hmm hsound hold hnew hlt hless.le hstates
  · intro hmore
    refine Triple.bind (getProcess_known hmm) fun task => ?_
    refine Triple.of_pre fun w h₁ => ?_
    obtain ⟨rfl, rfl⟩ := h₁
    refine Triple.ite (fun _ => Triple.throw fun _ _ => trivial) fun hfree => ?_
    exact expandInPlace_view hmm hsound hpage hold hnew hmore.le hlt' hstates (by simpa using hfree)
  · intro hle
    obtain rfl : newLen = oldLen := by omega
    refine Triple.pure fun w hw => ⟨mm, ?_, hsound⟩
    rw [hw]
    exact Remapped.same hmm hsound hold hstates

/-- A range that goes to a target has its pages there, in the view of memory. -/
theorem remapTo_view (hinv : FrameInv w₀) (hmm : w₀.mms.get? pid = some mm) (hsound : mm.Sound)
    (hpage : old % PGSIZE = 0) (hold : oldLen % PGSIZE = 0) (hnew : newLen % PGSIZE = 0)
    (htarget : target % PGSIZE = 0) (hlt : old + oldLen < usizeMod) (hlt' : old + newLen < usizeMod)
    (hstates : mm.collectRemapStates (pageRange old (old + oldLen)) = .ok states) :
    Triple (fun w => w = w₀)
      (remapTo pid old oldLen newLen target states
        ((states.head?.map RemapPageState.flags).getD Perms.RW))
      (RemapPost w₀ pid old oldLen newLen mm) (fun _ _ => True) := by
  unfold remapTo
  refine Triple.bind (R := fun _ w => w = w₀) (Triple.getSome (fun _ _ _ hw => hw)
    fun _ _ _ => trivial) fun _ => ?_
  refine Triple.ite (fun _ => ?_) fun _ => ?_
  · exact remapSame_view hinv hmm hsound hpage hold hnew hlt hlt' hstates
  · exact remapMove_view hmm hsound hpage hold hnew htarget hstates

/-- `mremap` without `MREMAP_FIXED`. -/
theorem remapAnywhere_view (hinv : FrameInv w₀) (hmm : w₀.mms.get? pid = some mm)
    (hsound : mm.Sound)
    (mayMove : Bool) (hpage : old % PGSIZE = 0) (hold : oldLen % PGSIZE = 0)
    (hnew : newLen % PGSIZE = 0) (hlt : old + oldLen < usizeMod) (hlt' : old + newLen < usizeMod)
    (hstates : mm.collectRemapStates (pageRange old (old + oldLen)) = .ok states) :
    Triple (fun w => w = w₀)
      (remapAnywhere pid old oldLen newLen mayMove states
        ((states.head?.map RemapPageState.flags).getD Perms.RW))
      (RemapPost w₀ pid old oldLen newLen mm) (fun _ _ => True) := by
  unfold remapAnywhere
  -- shorter, as long as before, and longer
  refine Triple.ite (fun hle => Triple.ite (fun _ => ?_) ?_) ?_
  · exact shrink_view hinv hmm hsound hold hnew hlt hle hstates
  · intro hnless
    obtain rfl : newLen = oldLen := by omega
    refine Triple.pure fun w hw => ⟨mm, ?_, hsound⟩
    rw [hw]
    exact Remapped.same hmm hsound hold hstates
  · intro hmore
    refine Triple.bind (getProcess_known hmm) fun task => ?_
    refine Triple.of_pre fun w h₁ => ?_
    obtain ⟨rfl, rfl⟩ := h₁
    -- there is room behind the range, or another place is looked for if the flags allow it
    refine Triple.ite ?_ fun _ => ?_
    · intro hfree
      exact expandInPlace_view hmm hsound hpage hold hnew (by omega) hlt' hstates hfree
    refine Triple.ite (fun _ => Triple.throw fun _ _ => trivial) fun _ => ?_
    refine Triple.bind (R := fun target w' => w' = w ∧
        task.mm.state.findFreeRemapTarget newLen = some target)
      (Triple.getSome (fun target w' hs hw => ⟨hw, hs⟩) fun _ _ _ => trivial) fun target => ?_
    refine Triple.of_pre fun w₁ h₁ => ?_
    obtain ⟨rfl, hfound⟩ := h₁
    obtain ⟨htarget, -, -⟩ := findFree_some _ _ (.inl hsound.aligned.searchStart) hfound
    exact remapTo_view hinv hmm hsound hpage hold hnew htarget hlt hlt' hstates

/-- What `mremap` does to the view of memory. -/
theorem doMremap_view {oldSize newSize flags newAddr : Nat} (hinv : FrameInv w₀)
    (hmm : w₀.mms.get? pid = some mm) (hsound : mm.Sound) :
    Triple (fun w => w = w₀) (doMremap pid old oldSize newSize flags newAddr)
      (RemapPost w₀ pid old (alignUp oldSize) (alignUp newSize) mm) (fun _ _ => True) := by
  unfold doMremap
  -- the checks on sizes, flags and alignment, and the two checked ends
  refine Triple.ite (fun _ => Triple.throw fun _ _ => trivial) fun hargs => ?_
  refine Triple.ite (fun _ => Triple.throw fun _ _ => trivial) fun _ => ?_
  rw [not_or, not_or, not_not] at hargs
  have hpage : old % PGSIZE = 0 := hargs.2.2
  refine Triple.bind (R := fun stop w' => w' = w₀ ∧
      checkedAdd old (alignUp oldSize) = some stop)
    (Triple.getSome (fun _ _ hs hw => ⟨hw, hs⟩) fun _ _ _ => trivial) fun stop => ?_
  refine Triple.of_pre fun w₁ h₁ => ?_
  obtain ⟨rfl, hstop⟩ := h₁
  obtain ⟨rfl, hlt⟩ := checkedAdd_some hstop
  refine Triple.bind (R := fun stop w' => w' = w₁ ∧
      checkedAdd old (alignUp newSize) = some stop)
    (Triple.getSome (fun _ _ hs hw => ⟨hw, hs⟩) fun _ _ _ => trivial) fun stop => ?_
  refine Triple.of_pre fun w₂ h₂ => ?_
  obtain ⟨rfl, hstop'⟩ := h₂
  obtain ⟨rfl, hlt'⟩ := checkedAdd_some hstop'
  refine Triple.bind (getProcess_known hmm) fun task => ?_
  refine Triple.of_pre fun w₃ h₃ => ?_
  obtain ⟨rfl, rfl⟩ := h₃
  refine Triple.bind (R := fun states w' => w' = w₃ ∧ task.mm.state.collectRemapStates
      (pageRange old (old + alignUp oldSize)) = .ok states)
    (Triple.ofExcept (fun _ _ hr hw => ⟨hw, hr⟩) fun _ _ _ _ => trivial) fun states => ?_
  refine Triple.of_pre fun w₄ h₄ => ?_
  obtain ⟨rfl, hstates⟩ := h₄
  -- without `MREMAP_FIXED` the place is chosen; with it the target has to be aligned
  refine Triple.ite (fun _ => ?_) fun _ => Triple.ite (fun _ => Triple.throw fun _ _ => trivial) ?_
  · exact remapAnywhere_view hinv hmm hsound _ hpage (alignUp_page _) (alignUp_page _) hlt hlt'
      hstates
  · intro htarget
    exact remapTo_view hinv hmm hsound hpage (alignUp_page _) (alignUp_page _) (not_not.mp htarget)
      hlt hlt' hstates

end Call

/-- `mremap` moves pages faithfully in every mode. Whether the call shrank the range, grew it in
place or moved it, with or without `MREMAP_FIXED`, what it leaves behind is `Remapped`, and the
tables are sound. -/
theorem mremap_moves_pages {w : World} {pid oldAddr oldSize newSize flags newAddr target : Nat}
    {mm : MmState} (hinv : FrameInv w) (hmm : w.mms.get? pid = some mm) (hsound : mm.Sound)
    (hok : ((doMremap pid oldAddr oldSize newSize flags newAddr).run w).1 = .ok target) :
    ∃ mm', Remapped pid oldAddr target (alignUp oldSize / PGSIZE) (alignUp newSize / PGSIZE)
      w.mapView mm ((doMremap pid oldAddr oldSize newSize flags newAddr).run w).2.mapView mm' ∧
      mm'.Sound :=
  (doMremap_view hinv hmm hsound w rfl).1 target hok

/-- `init` moves its two pages, and asks for a third one. -/
theorem mremap_moves_pages_sampleMapped :
    ∃ mm mm', sampleMapped.mms.get? 1 = some mm ∧
      Remapped 1 0x20000000 0x20400000 2 3 sampleMapped.mapView mm
        ((doMremap 1 0x20000000 8192 12288 3 0x20400000).run sampleMapped).2.mapView mm' ∧
      mm'.lookupMemoryMap 0x20001000 = none := by
  obtain ⟨mm, hmm, hsound⟩ := @World.sound_of_check sampleMapped 1 (by decide +kernel)
  obtain ⟨mm', hmoved, -⟩ := @mremap_moves_pages sampleMapped 1 0x20000000 8192 12288 3 0x20400000
    0x20400000 mm sampleMapped_reachable.frameInv hmm hsound (by decide +kernel)
  rw [show alignUp 8192 / PGSIZE = 2 by decide, show alignUp 12288 / PGSIZE = 3 by decide] at hmoved
  exact ⟨mm, mm', hmm, hmoved, (hmoved.gone 0x20001000 (by decide) (by decide) (by decide)).1⟩

end Ape
