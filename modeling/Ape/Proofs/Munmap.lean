import Ape.Proofs.AddrViews
import Ape.Proofs.TableRuns

/-!
# `Ape.Proofs.Munmap`: a range that is taken out of the tables

`munmap`, and a fixed `mmap` before it maps anything, split the entries that stick out of the
range and then remove what the pages of the range name. After the split these are the entries
that the range meets, so the removal is exact: `RangeRemoved`.
-/

set_option autoImplicit false

namespace Ape

open Ape.Lib Cmd

/-! ### The release of several frames -/

namespace MapView

/-- The view after the frames in these slots were released. -/
def releaseAll (v : MapView) (caps : List Nat) : MapView := caps.foldl release v

/-- Frames that are released are in no table. -/
theorem releaseAll_mms (caps : List Nat) : ∀ v : MapView, (v.releaseAll caps).mms = v.mms := by
  induction caps with
  | nil => exact fun _ => rfl
  | cons c rest ih => exact fun v => (ih (v.release c)).trans (v.release_mms c)

/-- The other frames are left alone. -/
theorem releaseAll_frames (caps : List Nat) {s : Nat} :
    ∀ v : MapView, s ∉ caps → (v.releaseAll caps).frames s = v.frames s := by
  induction caps with
  | nil => exact fun _ _ => rfl
  | cons c rest ih =>
    intro v hs
    rw [List.mem_cons, not_or] at hs
    exact (ih (v.release c) hs.2).trans (v.release_frames_ne hs.1)

/-- Frames that are released keep the accounts of the others. -/
theorem Accounted.releaseAll {s : Nat} (caps : List Nat) :
    ∀ {v : MapView}, v.Accounted s → (v.releaseAll caps).Accounted s := by
  induction caps with
  | nil => exact fun h => h
  | cons c rest ih => exact fun h => ih (h.release c)

/-- Each of the frames is held once less. -/
theorem releaseAll_holders (caps : List Nat) (s : Nat) :
    ∀ v : MapView, caps.Nodup →
      (∀ c ∈ caps, (v.frames c).isSome ∧ ∀ n, v.refs c = some n → 1 ≤ n) →
      (v.releaseAll caps).holders s + caps.count s = v.holders s := by
  induction caps with
  | nil => exact fun _ _ _ => rfl
  | cons c rest ih =>
    intro v hnd hcaps
    obtain ⟨hnot, hrest⟩ := List.nodup_cons.mp hnd
    obtain ⟨hlive, hstored⟩ := hcaps c List.mem_cons_self
    -- the later frames are as they were
    have hcaps' : ∀ c' ∈ rest, ((v.release c).frames c').isSome ∧
        ∀ n, (v.release c).refs c' = some n → 1 ≤ n := by
      intro c' hc'
      have hne : c' ≠ c := fun heq => hnot (heq ▸ hc')
      rw [v.release_frames_ne hne, v.release_refs_ne hne]
      exact hcaps c' (List.mem_cons_of_mem _ hc')
    have hstep := ih (v.release c) hrest hcaps'
    show ((v.release c).releaseAll rest).holders s + (c :: rest).count s = v.holders s
    by_cases heq : s = c
    · subst heq
      have hself := v.release_holders_self hlive hstored
      rw [List.count_eq_zero_of_not_mem hnot] at hstep
      rw [List.count_cons_self, List.count_eq_zero_of_not_mem hnot]
      omega
    · rw [List.count_cons_of_ne (Ne.symm heq), hstep, v.release_holders_ne heq]

end MapView

/-- The unmapping of ranges releases their frames. -/
theorem unmapRanges_view {v : MapView} (pid : Nat) {ranges : OrdMap Nat (Nat × Nat)}
    (hcaps : ∀ e ∈ ranges.entries, e.2.1 ≠ 0) :
    Triple (fun w => w.mapView = v) (unmapRanges pid ranges)
      (fun _ w => w.mapView = v.releaseAll (ranges.entries.map (·.2.1))) (fun _ _ => True) := by
  have hloop : ∀ (l : List (Nat × (Nat × Nat))) (v : MapView), (∀ e ∈ l, e.2.1 ≠ 0) →
      Triple (fun w => w.mapView = v) (forEach l fun e => do
          unmapProcessPages pid e.1 e.2.2
          when (e.2.1 ≠ 0) (releaseProcessFrameSlot pid e.2.1))
        (fun _ w => w.mapView = v.releaseAll (l.map (·.2.1))) (fun _ _ => True) := by
    intro l
    induction l with
    | nil => exact fun v _ => Triple.pure fun _ h => h
    | cons e rest ih =>
      intro v hl
      refine Triple.bind (R := fun _ w => w.mapView = v.release e.2.1) ?_ fun _ =>
        ih (v.release e.2.1) fun e' he' => hl e' (List.mem_cons_of_mem _ he')
      refine Triple.bind (blind_step (by simp)) fun _ => ?_
      rw [when_pos (hl e List.mem_cons_self)]
      rintro w rfl
      exact ⟨fun _ _ => releaseProcessFrameSlot_view pid e.2.1 w, fun _ _ => trivial⟩
  exact hloop ranges.entries v hcaps

/-! ### What the pages of a range name -/

namespace MmState

variable {mm : MmState} {start n : Nat}

/-- The range that a page names: the frame and the page count of a remappable entry. -/
def rangeAt (mm : MmState) (page : Nat) : Option (Nat × Nat) :=
  (mm.memoryMaps.get? page).bind fun m =>
    if isRemappableUserMapping m.memType then some (m.frameCap, m.pages) else none

/-- One page's range is added to those that are found already. -/
def addRange (mm : MmState) (acc : OrdMap Nat (Nat × Nat)) (page : Nat) :
    OrdMap Nat (Nat × Nat) :=
  (mm.rangeAt page).elim acc (acc.orInsert page)

/-- The ranges of some pages are collected page by page. -/
theorem mappedRanges_eq (hkey : ∀ k m, mm.memoryMaps.get? k = some m → m.vaddr = k)
    (pages : List Nat) : mm.mappedRanges pages = pages.foldl mm.addRange OrdMap.empty := by
  rw [mappedRanges]
  apply List.foldl_ext
  intro acc page _
  cases hm : mm.memoryMaps.get? page with
  | none => simp [addRange, rangeAt, hm]
  | some m =>
    have hvaddr := hkey page m hm
    by_cases hty : isRemappableUserMapping m.memType = true <;>
      simp [addRange, rangeAt, hm, hty, hvaddr]

/-- A page adds the range that starts there. -/
theorem get?_addRange (acc : OrdMap Nat (Nat × Nat)) (page k : Nat) :
    (mm.addRange acc page).get? k
      = (acc.get? k).or (if k = page then mm.rangeAt k else none) := by
  rw [addRange]
  cases hrange : mm.rangeAt page with
  | none =>
    by_cases heq : k = page
    · subst heq
      simp [hrange]
    · simp [heq]
  | some r =>
    show (acc.orInsert page r).get? k = _
    rw [OrdMap.get?_orInsert]
    by_cases heq : k = page
    · subst heq
      cases hacc : acc.get? k <;> simp [hrange]
    · simp [heq]

/-- The ranges that are collected are those that start at the pages. -/
theorem get?_mappedRanges (hkey : ∀ k m, mm.memoryMaps.get? k = some m → m.vaddr = k)
    (pages : List Nat) (k : Nat) :
    (mm.mappedRanges pages).get? k = if k ∈ pages then mm.rangeAt k else none := by
  have hfold : ∀ (pages : List Nat) (acc : OrdMap Nat (Nat × Nat)),
      (pages.foldl mm.addRange acc).get? k
        = (acc.get? k).or (if k ∈ pages then mm.rangeAt k else none) := by
    intro pages
    induction pages with
    | nil => exact fun acc => by simp
    | cons page rest ih =>
      intro acc
      rw [List.foldl_cons, ih, get?_addRange, Option.or_assoc]
      by_cases heq : k = page
      · subst heq
        by_cases hrest : k ∈ rest <;> simp [hrest]
      · simp [List.mem_cons, heq]
  have hall := hfold pages OrdMap.empty
  rw [OrdMap.get?_empty, Option.none_or] at hall
  rw [mappedRanges_eq hkey]
  exact hall

/-- The entries after the removal: those that no page of the range names. -/
theorem Sound.get?_removeRanges (h : mm.Sound) (pages : List Nat) {l : TableKind} {k : Nat}
    {m : MemoryMap} :
    ((mm.removeRanges pages (mm.mappedRanges pages)).table l).get? k = some m ↔
      (mm.table l).get? k = some m ∧
        ¬ (k ∈ pages ∧ (l = .mapped → isRemappableUserMapping m.memType = true)) := by
  -- a lazy entry goes with its page, and a mapped one only when it may be remapped
  cases l with
  | lazily =>
    show (mm.removeRanges pages (mm.mappedRanges pages)).lazyMemoryMaps.get? k = some m ↔ _
    rw [removeRanges, lazy_foldl_removeMaps, lazy_foldl_remove, OrdMap.get?_foldl_erase]
    show _ ↔ mm.lazyMemoryMaps.get? k = some m ∧ _
    by_cases hmem : k ∈ pages <;> simp [hmem]
  | mapped =>
    show (mm.removeRanges pages (mm.mappedRanges pages)).memoryMaps.get? k = some m ↔ _
    have hkeys : k ∈ (mm.mappedRanges pages).keys ↔
        k ∈ pages ∧ ∃ m', mm.memoryMaps.get? k = some m' ∧
          isRemappableUserMapping m'.memType = true := by
      rw [OrdMap.mem_keys, get?_mappedRanges (h.key .mapped), rangeAt]
      by_cases hmem : k ∈ pages
      · cases hm : mm.memoryMaps.get? k with
        | none => simp
        | some m' => by_cases hty : isRemappableUserMapping m'.memType = true <;> simp [hmem, hty]
      · simp [hmem]
    rw [removeRanges, maps_foldl_remove, OrdMap.get?_foldl_erase, memoryMaps_foldl_removeLazy]
    show _ ↔ mm.memoryMaps.get? k = some m ∧ _
    -- an entry at a page of the range is gone exactly when it was recorded for it
    by_cases hgone : k ∈ (mm.mappedRanges pages).keys
    · obtain ⟨hmem, m', hm', hty⟩ := hkeys.mp hgone
      rw [if_pos hgone, hm']
      refine ⟨fun hm => (by cases hm), fun hm => absurd ⟨hmem, fun _ => ?_⟩ hm.2⟩
      rw [← Option.some.inj hm.1]
      exact hty
    · rw [if_neg hgone]
      refine ⟨fun hm => ⟨hm, ?_⟩, fun hm => hm.1⟩
      intro hbad
      exact hgone (hkeys.mpr ⟨hbad.1, m, hm, hbad.2 rfl⟩)

/-- When no entry sticks out of a range of pages, an entry that can be removed and has an address
of the range is at one of its pages. -/
theorem Sound.page_of_meets (h : mm.Sound) (hstart : start % PGSIZE = 0)
    (ht : Targets start (start + n) [] mm) {l : TableKind} {k a : Nat} {m : MemoryMap}
    (hk : (mm.table l).get? k = some m)
    (hty : l = .mapped → isRemappableUserMapping m.memType = true) (hin : m.Contains a)
    (hlo : start ≤ a) (hhi : a < start + n) : k ∈ pageRange start (start + n) := by
  have hkey := h.key l k m hk
  have hpaged := h.paged l k m hk
  have hbelow := h.below l k m hk
  have hpage : k % PGSIZE = 0 := by
    have hstart' : m.vaddr % PGSIZE = 0 := hpaged.1
    rwa [hkey] at hstart'
  obtain ⟨hin₁, hin₂⟩ := hin
  rw [hkey] at hin₁ hin₂
  refine mem_pageRange_of_le hstart hpage ?_ (by omega)
  -- an entry that starts below the range and reaches into it would have been split
  by_contra hlt
  cases l with
  | lazily =>
    have hsize := h.lazyPage k m hk
    unfold PGSIZE at *
    omega
  | mapped =>
    have hpages := h.pages_eq hk
    have hcut : m.CutBy start (start + n) := by
      refine ⟨hty rfl, h.frame k m hk, ?_, ?_, .inl (by omega)⟩
      · unfold PGSIZE at *
        omega
      · rw [hpages, hasOverlap, satAdd_eq hbelow]
        simp only [Bool.and_eq_true, decide_eq_true_eq]
        omega
    have hmem := ht m.vaddr (mem_splitTargets.mpr ⟨k, m, hk, hcut, rfl⟩)
    cases hmem

/-- And an entry at one of its pages is inside the range. -/
theorem Sound.within_of_page (h : mm.Sound) (hstart : start % PGSIZE = 0) (hn : n % PGSIZE = 0)
    (ht : Targets start (start + n) [] mm) {l : TableKind} {k a : Nat} {m : MemoryMap}
    (hk : (mm.table l).get? k = some m)
    (hty : l = .mapped → isRemappableUserMapping m.memType = true)
    (hmem : k ∈ pageRange start (start + n)) (hin : m.Contains a) : start ≤ a ∧ a < start + n := by
  have hkey := h.key l k m hk
  have hbelow := h.below l k m hk
  have hpos : 0 < PGSIZE := by decide
  obtain ⟨hlo, hhi, -⟩ := pageRange_le hn hmem
  obtain ⟨hin₁, hin₂⟩ := hin
  rw [hkey] at hin₁ hin₂
  refine ⟨by omega, ?_⟩
  -- and so would one that starts in the range and reaches out of it
  by_contra hge
  cases l with
  | lazily =>
    have hsize := h.lazyPage k m hk
    omega
  | mapped =>
    have hpages := h.pages_eq hk
    have hsize : m.size % PGSIZE = 0 := (h.paged .mapped k m hk).2.1
    have hcut : m.CutBy start (start + n) := by
      refine ⟨hty rfl, h.frame k m hk, ?_, ?_, .inr ?_⟩
      · unfold PGSIZE at *
        omega
      · rw [hpages, hasOverlap, satAdd_eq hbelow]
        simp only [Bool.and_eq_true, decide_eq_true_eq]
        omega
      · rw [hpages, satAdd_eq hbelow]
        omega
    have hmem := ht m.vaddr (mem_splitTargets.mpr ⟨k, m, hk, hcut, rfl⟩)
    cases hmem

/-- The address is in an entry of the image, the heap or the stack. -/
def FixedAt (mm : MmState) (a : Nat) : Prop :=
  ∃ m, mm.lookupMemoryMap a = some m ∧ isRemappableUserMapping m.memType = false

end MmState

/-! ### A removed range -/

/-- The range was taken out of the tables of a process. No lazy entry and no entry of an `mmap`
has an address of it, every other address and every address of the image, the heap and the stack
has what it had, and each frame is held as often less as the table uses it less. -/
structure RangeRemoved (pid start stop : Nat) (v : MapView) (mm : MmState) (v' : MapView)
    (mm' : MmState) : Prop where
  mms : v'.mms.get? pid = some mm'
  others : ∀ q, q ≠ pid → v'.mms.get? q = v.mms.get? q
  lazies : ∀ a, start ≤ a → a < stop → mm'.lookupLazyMemoryMap a = none
  mapped : ∀ a m, start ≤ a → a < stop → mm'.lookupMemoryMap a = some m →
    isRemappableUserMapping m.memType = false
  kept : ∀ a, a < start ∨ stop ≤ a ∨ mm.FixedAt a → mm'.viewAt v'.frames a = mm.viewAt v.frames a
  fixed : ∀ k m, isRemappableUserMapping m.memType = false →
    (mm'.memoryMaps.get? k = some m ↔ mm.memoryMaps.get? k = some m)
  rest : ∃ A B, mm' = { mm with memoryMaps := A, lazyMemoryMaps := B }
  balance : ∀ s, v.Accounted s →
    v'.Accounted s ∧ v'.holders s + mm.uses s = v.holders s + mm'.uses s

/-- A removal after a split. -/
theorem SplitOf.removed {pid start stop : Nat} {v v' v'' : MapView} {mm mm' mm'' : MmState}
    (h : SplitOf pid v mm v' mm') (hsound : mm.Sound) (hsound' : mm'.Sound)
    (h' : RangeRemoved pid start stop v' mm' v'' mm'') :
    RangeRemoved pid start stop v mm v'' mm'' := by
  -- the split leaves the entries of the image, the heap and the stack
  have hfixed : ∀ a, mm.FixedAt a → mm'.FixedAt a := by
    rintro a ⟨m, hm, hty⟩
    obtain ⟨k, hk, hin⟩ := (hsound.lookups a m).1.mp hm
    exact ⟨m, (hsound'.lookups a m).1.mpr ⟨k, (h.fixed k m hty).mpr hk, hin⟩, hty⟩
  refine
    { mms := h'.mms
      others := fun q hq => (h'.others q hq).trans (h.others q hq)
      lazies := h'.lazies
      mapped := h'.mapped
      kept := fun a ha => (h'.kept a ?_).trans (h.views a)
      fixed := fun k m hm => (h'.fixed k m hm).trans (h.fixed k m hm)
      rest := ?_
      balance := fun s hs => ?_ }
  · rcases ha with hlo | hhi | hfix
    · exact .inl hlo
    · exact .inr (.inl hhi)
    · exact .inr (.inr (hfixed a hfix))
  · obtain ⟨A, hA⟩ := h.rest
    obtain ⟨B, C, hB⟩ := h'.rest
    exact ⟨B, C, by rw [hB, hA]⟩
  · obtain ⟨hs', heq⟩ := h.balance s hs
    obtain ⟨hs'', heq'⟩ := h'.balance s hs'
    exact ⟨hs'', by omega⟩

section Removal

variable {w₀ : World} {pid start n : Nat} {mm : MmState}

/-- The frames of the removed entries are all different, and there. -/
theorem FrameInv.removed_caps (h : FrameInv w₀) (hmm : w₀.mms.get? pid = some mm)
    (hsound : mm.Sound) (pages : List Nat) :
    (∀ e ∈ (mm.mappedRanges pages).entries, e.2.1 ≠ 0) ∧
    ((mm.mappedRanges pages).entries.map (·.2.1)).Nodup ∧
    ∀ c ∈ (mm.mappedRanges pages).entries.map (·.2.1),
      (w₀.frames c).isSome ∧ ∀ n, w₀.frameCapRefs c = some n → 1 ≤ n := by
  have hranges : RangesOf mm (mm.mappedRanges pages) := (h.shaped pid mm hmm).mappedRanges pages
  have hentry : ∀ e ∈ (mm.mappedRanges pages).entries,
      ∃ m, mm.memoryMaps.get? e.1 = some m ∧ m.frameCap = e.2.1 := by
    intro e he
    obtain ⟨m, hm, hcap, -⟩ := hranges e.1 e.2.1 e.2.2 (OrdMap.mem_entries.mp he)
    exact ⟨m, hm, hcap⟩
  -- no null cap, no cap twice, and every cap is that of a live frame
  refine ⟨?_, ?_, ?_⟩
  · intro e he
    obtain ⟨m, hm, hcap⟩ := hentry e he
    rw [← hcap]
    exact hsound.frame _ m hm
  -- a cap in two entries would be used twice in the table
  · refine List.nodup_iff_count_le_one.mpr fun s => ?_
    have huses := hranges.uses_removeRanges pages s
    have honce := h.uses_le_one hmm s
    omega
  · intro c hc
    obtain ⟨e, he, rfl⟩ := List.mem_map.mp hc
    obtain ⟨m, hm, hcap⟩ := hentry e he
    refine ⟨?_, h.stored e.2.1⟩
    rw [← hcap]
    exact h.live_frame hmm hm

/-- What is left of the tables when the pages of a range that cuts no entry are removed. -/
theorem FrameInv.removeRanges_view (h : FrameInv w₀) (hmm : w₀.mms.get? pid = some mm)
    (hsound : mm.Sound) (hstart : start % PGSIZE = 0) (hn : n % PGSIZE = 0)
    (ht : Targets start (start + n) [] mm) {v' : MapView}
    (hmms : v'.mms = w₀.mms.modify pid (·.removeRanges (pageRange start (start + n))
      (mm.mappedRanges (pageRange start (start + n)))))
    (hv' : v' = MapView.releaseAll ⟨v'.mms, w₀.frames, w₀.frameCapRefs⟩
      ((mm.mappedRanges (pageRange start (start + n))).entries.map (·.2.1))) :
    RangeRemoved pid start (start + n) w₀.mapView mm v'
      (mm.removeRanges (pageRange start (start + n))
        (mm.mappedRanges (pageRange start (start + n)))) := by
  let pages := pageRange start (start + n)
  let ranges := mm.mappedRanges pages
  let caps := ranges.entries.map (·.2.1)
  let u : MapView := ⟨v'.mms, w₀.frames, w₀.frameCapRefs⟩
  obtain ⟨-, hnodup, hcaps⟩ := h.removed_caps hmm hsound pages
  have hranges : RangesOf mm ranges := (h.shaped pid mm hmm).mappedRanges pages
  have hsound' : (mm.removeRanges pages ranges).Sound :=
    hsound.within (MmState.within_removeRanges mm pages ranges)
  have hget : ∀ {l k m}, ((mm.removeRanges pages ranges).table l).get? k = some m ↔
      (mm.table l).get? k = some m ∧
        ¬ (k ∈ pages ∧ (l = .mapped → isRemappableUserMapping m.memType = true)) :=
    hsound.get?_removeRanges pages
  -- an entry that is left meets no address of the range, unless it is a fixed one
  have hleft : ∀ {l k m a}, ((mm.removeRanges pages ranges).table l).get? k = some m →
      m.Contains a → start ≤ a → a < start + n →
      ¬ (l = .mapped → isRemappableUserMapping m.memType = true) := by
    intro l k m a hk hin hlo hhi hty
    obtain ⟨hk', hno⟩ := hget.mp hk
    exact hno ⟨hsound.page_of_meets hstart ht hk' hty hin hlo hhi, hty⟩
  refine
    { mms := ?_
      others := fun q hq => ?_
      lazies := fun a hlo hhi => ?_
      mapped := fun a m hlo hhi hm => ?_
      kept := fun a ha => ?_
      fixed := fun k m hty => ?_
      rest := (MmState.within_removeRanges mm pages ranges).regions
      balance := fun s hs => ?_ }
  · rw [hmms, OrdMap.get?_modify, if_pos rfl, hmm]
    rfl
  · rw [hmms, OrdMap.get?_modify, if_neg hq]
    rfl
  · cases hm : (mm.removeRanges pages ranges).lookupLazyMemoryMap a with
    | none => rfl
    | some m =>
      obtain ⟨k, hk, hin⟩ := (hsound'.lookups a m).2.mp hm
      exact absurd (fun hl => by cases hl) (hleft (l := .lazily) hk hin hlo hhi)
  · obtain ⟨k, hk, hin⟩ := (hsound'.lookups a m).1.mp hm
    by_contra hty
    exact hleft (l := .mapped) hk hin hlo hhi fun _ => by simpa using hty
  · -- an entry of the address is not removed, and its frame is not released
    have hstay : ∀ l k m, (mm.table l).get? k = some m → m.Contains a →
        ¬ (k ∈ pages ∧ (l = .mapped → isRemappableUserMapping m.memType = true)) := by
      rintro l k m hk hin ⟨hmem, hty⟩
      obtain ⟨hlo, hhi⟩ := hsound.within_of_page hstart hn ht hk hty hmem hin
      rcases ha with hlt | hge | ⟨m₀, hm₀, hfix⟩
      · omega
      · omega
      · obtain ⟨k₀, hk₀, hin₀⟩ := (hsound.lookups a m₀).1.mp hm₀
        obtain ⟨rfl, rfl⟩ := hsound.entry_unique (j := .mapped) hk hk₀ hin hin₀
        rw [show (mm.table .mapped).get? k = some m₀ from hk₀] at hk
        cases hk
        rw [hty rfl] at hfix
        cases hfix
    refine hsound.viewAt_congr hsound' ?_ ?_
    · intro l k m hin
      rw [hget]
      exact ⟨fun hk => hk.1, fun hk => ⟨hk, hstay l k m hk hin⟩⟩
    · intro k m hk hin
      have hnot : m.frameCap ∉ caps := by
        intro hmem
        obtain ⟨e, he, heq⟩ := List.mem_map.mp hmem
        obtain ⟨m', hm', hcap, -⟩ := hranges e.1 e.2.1 e.2.2 (OrdMap.mem_entries.mp he)
        have hkk := MmState.entry_of_frame (h.uses_le_one hmm) hm' hk (heq.symm.trans hcap.symm)
        have hin' : (ranges.get? k).isSome := by
          rw [hkk, show ranges.get? e.1 = some e.2 from OrdMap.mem_entries.mp he]
          rfl
        rw [MmState.get?_mappedRanges (hsound.key .mapped)] at hin'
        split at hin'
        · rename_i hpage
          rw [MmState.rangeAt, hk] at hin'
          refine hstay .mapped k m hk hin ⟨hpage, fun _ => ?_⟩
          by_contra hty
          simp [hty] at hin'
        · cases hin'
      rw [hv']
      exact MapView.releaseAll_frames caps u hnot
  · have hiff := hget (l := .mapped) (k := k) (m := m)
    rw [show (mm.removeRanges pages ranges).memoryMaps
      = (mm.removeRanges pages ranges).table .mapped from rfl, hiff]
    refine ⟨fun hk => hk.1, fun hk => ⟨hk, ?_⟩⟩
    intro hbad
    rw [hbad.2 rfl] at hty
    cases hty
  · have huses : (mm.removeRanges pages ranges).uses s + caps.count s = mm.uses s :=
      hranges.uses_removeRanges pages s
    have hholders := MapView.releaseAll_holders caps s u hnodup hcaps
    have hsame : u.holders s = w₀.mapView.holders s := rfl
    rw [hv']
    refine ⟨MapView.Accounted.releaseAll caps (show u.Accounted s from hs), ?_⟩
    show (u.releaseAll caps).holders s + mm.uses s
      = w₀.mapView.holders s + (mm.removeRanges pages ranges).uses s
    omega

/-- The entries of a range are out of the tables, and their frames are not released yet. -/
structure TakenOut (w₀ : World) (pid : Nat) (mm : MmState) (pages : List Nat) (w : World) :
    Prop where
  acct : Acct id (some pid) ((mm.mappedRanges pages).entries.map (·.2.1)) w
  view : w.mapView = ⟨w₀.mms.modify pid (·.removeRanges pages (mm.mappedRanges pages)), w₀.frames,
    w₀.frameCapRefs⟩

/-- The entries of the range are taken out of the tables. -/
theorem modifyMm_takenOut (h : FrameInv w₀) (hmm : w₀.mms.get? pid = some mm) (pages : List Nat) :
    Triple (fun w => w = w₀) (modifyMm pid (·.removeRanges pages (mm.mappedRanges pages)))
      (fun _ => TakenOut w₀ pid mm pages) (fun _ _ => True) := by
  rintro w rfl
  refine ⟨?_, fun _ _ => trivial⟩
  intro a ha
  have hacct := (@removeRanges_acct pid mm pages _ (fun _ _ => True)
    (fun hshaped => hshaped.mappedRanges pages) w ⟨h, hmm⟩).1 a ha
  refine ⟨hacct.1, ?_⟩
  show MapView.mk _ _ _ = _
  rw [show ((modifyMm pid _).run w).2.mms = _ from w.mms_modifyMm pid _]
  rfl

/-- The removal of a range that cuts no entry. -/
theorem unmapRanges_removed (h : FrameInv w₀) (hmm : w₀.mms.get? pid = some mm) (hsound : mm.Sound)
    (hstart : start % PGSIZE = 0) (hn : n % PGSIZE = 0) (ht : Targets start (start + n) [] mm) :
    Triple (TakenOut w₀ pid mm (pageRange start (start + n)))
      (unmapRanges pid (mm.mappedRanges (pageRange start (start + n))))
      (fun _ w => FrameInv w ∧ RangeRemoved pid start (start + n) w₀.mapView mm w.mapView
        (mm.removeRanges (pageRange start (start + n))
          (mm.mappedRanges (pageRange start (start + n))))) (fun _ _ => True) := by
  let pages := pageRange start (start + n)
  obtain ⟨hcaps, -, -⟩ := h.removed_caps hmm hsound pages
  intro w hw
  refine ⟨?_, fun _ _ => trivial⟩
  intro a ha
  have hinv := ((unmapRanges_acct pid (mm.mappedRanges pages) fun _ => True) w
    ⟨hw.acct, trivial⟩).1 a ha
  have hview := (unmapRanges_view pid hcaps w hw.view).1 a ha
  refine ⟨hinv.1, h.removeRanges_view hmm hsound hstart hn ht ?_ ?_⟩
  · rw [hview, MapView.releaseAll_mms]
  · have hmms : ((unmapRanges pid (mm.mappedRanges pages)).run w).2.mapView.mms
        = w₀.mms.modify pid (·.removeRanges pages (mm.mappedRanges pages)) := by
      rw [hview, MapView.releaseAll_mms]
    rw [hmms]
    exact hview

end Removal

/-! ### `munmap` -/

/-- The removal of a range, with the split before it. -/
theorem splitRemove_view {w₀ : World} {pid start n : Nat} {mm : MmState} (h : FrameInv w₀)
    (hmm : w₀.mms.get? pid = some mm) (hsound : mm.Sound) (hstart : start % PGSIZE = 0)
    (hn : n % PGSIZE = 0) :
    Triple (fun w => w = w₀)
      (do ensurePartialMultiPageRangesSplit pid start (start + n)
          let task ← getProcess pid
          modifyMm pid (·.removeRanges (pageRange start (start + n))
            (task.mm.state.mappedRanges (pageRange start (start + n))))
          unmapRanges pid (task.mm.state.mappedRanges (pageRange start (start + n))))
      (fun _ w => FrameInv w ∧ ∃ mm', RangeRemoved pid start (start + n) w₀.mapView mm w.mapView mm'
        ∧ mm'.Sound) (fun _ _ => True) := by
  refine Triple.bind (ensurePartialMultiPageRangesSplit_view h hmm hsound start (start + n))
    fun _ => ?_
  refine Triple.of_pre fun w₁ h₁ => ?_
  obtain ⟨hinv, mm₁, hsplit, hsound₁, ht⟩ := h₁
  refine Triple.bind (getProcess_known hsplit.mms) fun task => ?_
  refine Triple.of_pre fun w₂ h₂ => ?_
  obtain ⟨rfl, rfl⟩ := h₂
  refine Triple.bind (modifyMm_takenOut hinv hsplit.mms _) fun _ => ?_
  refine (unmapRanges_removed hinv hsplit.mms hsound₁ hstart hn ht).post fun _ w hw => ?_
  exact ⟨hw.1, _, hsplit.removed hsound hsound₁ hw.2,
    hsound₁.within (MmState.within_removeRanges task.mm.state _ _)⟩

/-- `do_munmap`, when it succeeds. -/
theorem doMunmap_view {w₀ : World} {pid addr len : Nat} {mm : MmState} (h : FrameInv w₀)
    (hmm : w₀.mms.get? pid = some mm) (hsound : mm.Sound) :
    Triple (fun w => w = w₀) (doMunmap pid addr len)
      (fun _ w => addr % PGSIZE = 0 ∧ FrameInv w ∧ ∃ mm',
        RangeRemoved pid addr (addr + alignUp len) w₀.mapView mm w.mapView mm' ∧ mm'.Sound)
      (fun _ _ => True) := by
  unfold doMunmap
  refine Triple.ite (fun _ => Triple.throw fun _ _ => trivial) fun hok => ?_
  rw [not_or, not_not] at hok
  refine Triple.bind (R := fun stop w => w = w₀ ∧ checkedAdd addr (alignUp len) = some stop)
    (Triple.getSome (fun stop w hs hw => ⟨hw, hs⟩) fun _ _ _ => trivial) fun stop => ?_
  refine Triple.of_pre fun w₁ h₁ => ?_
  obtain ⟨rfl, hstop⟩ := h₁
  obtain ⟨rfl, -⟩ := checkedAdd_some hstop
  exact (splitRemove_view h hmm hsound hok.2 (alignUp_page len)).post fun _ _ hw => ⟨hok.2, hw⟩

/-- `munmap` removes exactly its range: when it succeeds, no page of the range is covered by a
lazy entry or by an entry that an `mmap` made, every other page has the type, the permissions,
the file and the bytes that it had, and each frame is released as often as the table gives it up.
A slot may be given out again after its frame was freed, so the frames are counted. -/
theorem munmap_removes_range {w : World} {pid addr len : Nat} {mm : MmState} (hinv : FrameInv w)
    (hmm : w.mms.get? pid = some mm) (hsound : mm.Sound)
    (hok : ((doMunmap pid addr len).run w).1 = .ok ()) :
    ∃ mm', RangeRemoved pid addr (addr + alignUp len) w.mapView mm
      ((doMunmap pid addr len).run w).2.mapView mm' ∧ mm'.Sound :=
  ((doMunmap_view hinv hmm hsound w rfl).1 () hok).2.2

/-- `init` maps two pages. -/
def sampleMapped : World := sampleBoot.after (.syscall 1 (.mmap 0x20000000 8192 3 50 0 0))

/-- The sample with a mapping is reachable. -/
theorem sampleMapped_reachable : Reachable sampleMapped :=
  sampleBoot_reachable.after (by decide +kernel)

/-- `init` unmaps the second of its pages. The first one stays, and the frame of the other is
freed. -/
theorem munmap_removes_range_sampleMapped :
    ∃ mm mm', sampleMapped.mms.get? 1 = some mm ∧ (mm.lookupMemoryMap 0x20001000).isSome ∧
      RangeRemoved 1 0x20001000 (0x20001000 + alignUp PGSIZE) sampleMapped.mapView mm
        ((doMunmap 1 0x20001000 PGSIZE).run sampleMapped).2.mapView mm' ∧
      mm'.lookupMemoryMap 0x20001000 = none := by
  obtain ⟨mm, hmm, hsound⟩ := @World.sound_of_check sampleMapped 1 (by decide +kernel)
  obtain ⟨mm', hremoved, -⟩ := @munmap_removes_range sampleMapped 1 0x20001000 PGSIZE mm
    sampleMapped_reachable.frameInv hmm hsound (by decide +kernel)
  have hthere : (sampleMapped.mms.get? 1).map
      (fun mm => (mm.lookupMemoryMap 0x20001000).isSome) = some true := by decide +kernel
  have hgone : (((doMunmap 1 0x20001000 PGSIZE).run sampleMapped).2.mms.get? 1).map
      (fun mm => (mm.lookupMemoryMap 0x20001000).isNone) = some true := by decide +kernel
  rw [hmm] at hthere
  rw [show ((doMunmap 1 0x20001000 PGSIZE).run sampleMapped).2.mms.get? 1 = some mm' from
    hremoved.mms] at hgone
  exact ⟨mm, mm', hmm, Option.some.inj hthere, hremoved,
    Option.isNone_iff_eq_none.mp (Option.some.inj hgone)⟩

end Ape
