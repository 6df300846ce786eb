import Ape.Proofs.TableOps

/-!
# `Ape.Proofs.TableCalls`: `brk`, `mmap`, `munmap`, `mprotect`, `mremap` and the page fault

The calls of `mm/mod.rs` and `page_fault` as a whole, over the steps of `Ape.Proofs.TableOps`.

A fixed mapping relies on the split before it: when the split has gone through, no entry of
several pages sticks out of the range, so what the range overlaps is what its pages name.
`Targets` follows the loop of the split. The entries that still stick out are among those the
loop has not reached.
-/

set_option autoImplicit false

namespace Ape

open Ape.Lib Cmd MmState

/-! ### The entries that a range cuts -/

/-- The test of `split_partial_multi_page_targets` on one entry. -/
def MemoryMap.CutBy (start stop : Nat) (m : MemoryMap) : Prop :=
  isRemappableUserMapping m.memType = true ∧ m.frameCap ≠ 0 ∧ 1 < m.pages ∧
    hasOverlap start stop m.vaddr (m.pages * PGSIZE) = true ∧
    (m.vaddr < start ∨ stop < satAdd m.vaddr (m.pages * PGSIZE))

/-- The entries that have to be split are those that the range cuts. -/
theorem MmState.mem_splitTargets {mm : MmState} {start stop v : Nat} :
    v ∈ mm.splitPartialMultiPageTargets start stop ↔
      ∃ k m, mm.memoryMaps.get? k = some m ∧ m.CutBy start stop ∧ m.vaddr = v := by
  unfold splitPartialMultiPageTargets
  rw [List.mem_filterMap]
  -- the filters of the source, one after the other
  constructor
  · rintro ⟨m, hm, hv⟩
    obtain ⟨k, hk⟩ := OrdMap.mem_values.mp hm
    refine ⟨k, m, hk, ?_⟩
    split at hv
    · cases hv
    split at hv
    · cases hv
    split at hv
    · cases hv
    split at hv
    · rename_i hty hpages hover hcut
      simp only [Bool.or_eq_true, Bool.not_eq_true', decide_eq_true_eq, not_or,
        Bool.not_eq_false] at hty hover hcut
      exact ⟨⟨hty.1, hty.2, by omega, hover, hcut⟩, Option.some.inj hv⟩
    · cases hv
  · rintro ⟨k, m, hk, ⟨hty, hcap, hpages, hover, hcut⟩, hv⟩
    refine ⟨m, OrdMap.mem_values.mpr ⟨k, hk⟩, ?_⟩
    have hle : ¬ m.pages ≤ 1 := by omega
    subst hv
    simp [hty, hcap, hle, hover, hcut]

/-- The entries of a split: the pages of the split entry, and the others. -/
theorem MmState.get?_insertSplit {mm : MmState} {m m' : MemoryMap} {slots : List Nat} {k : Nat}
    (h : (mm.insertSplit m slots).memoryMaps.get? k = some m') :
    (∃ slot idx, m' = splitEntry m slot idx) ∨ (k ≠ m.vaddr ∧ mm.memoryMaps.get? k = some m') := by
  -- the fold inserts the pieces one by one
  have hfold : ∀ (l : List MemoryMap) (mm₀ : MmState),
      (l.foldl addMemoryMap mm₀).memoryMaps.get? k = some m' →
        m' ∈ l ∨ mm₀.memoryMaps.get? k = some m' := by
    intro l
    induction l with
    | nil => exact fun mm₀ h => .inr h
    | cons e rest ih =>
      intro mm₀ h
      rcases ih _ h with hrest | hadd
      · exact .inl (List.mem_cons_of_mem _ hrest)
      · rw [addMemoryMap, OrdMap.get?_insert] at hadd
        split at hadd
        · exact .inl (by rw [← Option.some.inj hadd]; exact List.mem_cons_self)
        · exact .inr hadd
  rw [insertSplit_eq] at h
  rcases hfold _ _ h with hnew | hold
  · obtain ⟨e, -, rfl⟩ := List.mem_map.mp hnew
    exact .inl ⟨e.1, e.2, rfl⟩
  · rw [removeMemoryMap, OrdMap.get?_erase] at hold
    split at hold
    · cases hold
    · rename_i hne
      exact .inr ⟨hne, hold⟩

/-- What the split of a range still has to do is among the entries of `l`. -/
def Targets (start stop : Nat) (l : List Nat) (mm : MmState) : Prop :=
  ∀ v ∈ mm.splitPartialMultiPageTargets start stop, v ∈ l

/-- An entry that the split leaves alone is not one that the range cuts. -/
theorem Targets.skip {start stop k : Nat} {l : List Nat} {mm : MmState} {m : MemoryMap}
    (h : Targets start stop (k :: l) mm) (hkey : ∀ k m, mm.memoryMaps.get? k = some m → m.vaddr = k)
    (hk : mm.memoryMaps.get? k = some m) (hcut : ¬ m.CutBy start stop) :
    Targets start stop l mm := by
  intro v hv
  refine (List.mem_cons.mp (h v hv)).resolve_left fun heq => ?_
  obtain ⟨k', m', hk', hcut', hv'⟩ := mem_splitTargets.mp hv
  have hkk : k' = k := by rw [← hkey k' m' hk', hv', heq]
  rw [hkk, hk] at hk'
  cases hk'
  exact hcut hcut'

/-- The pages of a split entry are not cut again. -/
theorem Targets.split {start stop : Nat} {l slots : List Nat} {mm : MmState} {m : MemoryMap}
    (h : Targets start stop (m.vaddr :: l) mm)
    (hkey : ∀ k m, mm.memoryMaps.get? k = some m → m.vaddr = k) :
    Targets start stop l (mm.insertSplit m slots) := by
  intro v hv
  obtain ⟨k, m', hk, hcut, hv'⟩ := mem_splitTargets.mp hv
  rcases get?_insertSplit hk with ⟨slot, idx, rfl⟩ | ⟨hne, hold⟩
  · have hone : (splitEntry m slot idx).pages = 1 := show alignUp PGSIZE / PGSIZE = 1 by decide
    have := hcut.2.2.1
    omega
  · have hmem := h v (mem_splitTargets.mpr ⟨k, m', hold, hcut, hv'⟩)
    refine (List.mem_cons.mp hmem).resolve_left fun heq => hne ?_
    rw [← hkey k m' hold, hv', heq]

section Calls

variable {O : OrdMap Nat MmState → Prop} {pid : Nat} {whole : Prop} {R : MmState → Prop}

/-- One round of the split. -/
theorem splitLargeMappingIntoBasePages_tabs [Others O pid] (start stop k : Nat) (l : List Nat) :
    Triple (Tabs O pid whole (Targets start stop (k :: l))) (splitLargeMappingIntoBasePages pid k)
      (fun _ => Tabs O pid whole (Targets start stop l)) fun _ => TabInv O pid whole := by
  unfold splitLargeMappingIntoBasePages
  refine tabs_get fun t htidy htargets => ?_
  have hkey : ∀ k m, t.mm.state.memoryMaps.get? k = some m → m.vaddr = k :=
    fun k m hk => (htidy.1.key k m hk).1
  refine Triple.bind (R := fun m w => Tabs O pid whole (fun mm => mm = t.mm.state) w ∧
      t.mm.state.memoryMaps.get? k = some m)
    (Triple.getSome (fun m w hm h => ⟨h, hm⟩) fun w _ h => h.inv) fun m => ?_
  refine Triple.of_pre fun w₀ h₀ => ?_
  have hk := h₀.2
  obtain rfl : m.vaddr = k := hkey k m hk
  refine Triple.pre (K := Tabs O pid whole fun mm => mm = t.mm.state) ?_ fun w hw => hw ▸ h₀.1
  -- the entry is left alone when the range cannot cut it
  refine Triple.ite (fun hskip => Triple.pure fun w h => h.imp ?_) ?_
  · intro mm _ heq
    subst heq
    refine htargets.skip hkey hk fun hcut => ?_
    simp [hcut.1, hcut.2.1] at hskip
  intro hty
  refine Triple.ite (fun hone => Triple.pure fun w h => h.imp ?_) ?_
  · intro mm _ heq
    subst heq
    exact htargets.skip hkey hk fun hcut => absurd hcut.2.2.1 (by omega)
  intro hpages
  refine Triple.bind (tabs_step (by simp)) fun src => ?_
  refine tabs_slot (splitCopyPages_frames _ _ _ _)
    (splitCopyPages_slots pid src (List.range m.pages) [] (by simp)) fun slots hslots => ?_
  refine Triple.bind (tabs_step (by simp)) fun _ => Triple.bind (tabs_step (by simp)) fun _ => ?_
  refine Triple.bind (tabs_step (splitMapPages_frames _ _ _ _)) fun _ => ?_
  refine Triple.bind (tabs_step (by simp)) fun _ => ?_
  refine Triple.bind (tabs_edit fun mm h heq => ?_) fun _ => tabs_step (by simp)
  subst heq
  have hlen : slots.length = m.pages := by simpa using hslots.1
  exact ⟨h.insertSplit hk hlen hslots.2, htargets.split hkey⟩

/-- After the split no entry of several pages sticks out of the range. -/
theorem ensurePartialMultiPageRangesSplit_tabs [Others O pid] (start stop : Nat) :
    Triple (TabInv O pid whole) (ensurePartialMultiPageRangesSplit pid start stop)
      (fun _ => Tabs O pid whole (Targets start stop [])) fun _ => TabInv O pid whole := by
  unfold ensurePartialMultiPageRangesSplit
  refine tabs_get fun t _ _ => ?_
  refine (Triple.forEach (fun l => Tabs O pid whole (Targets start stop l))
    (fun k l => splitLargeMappingIntoBasePages_tabs start stop k l) _).pre
    fun w h => h.imp fun mm _ heq v hv => ?_
  rwa [heq] at hv

/-- The splits at the ends of a range keep the tables. -/
theorem ensurePartialMultiPageRangesSplit_keepsTabs [Others O pid] (start stop : Nat) :
    Keeps (TabInv O pid whole) (ensurePartialMultiPageRangesSplit pid start stop) :=
  Triple.keeps ((ensurePartialMultiPageRangesSplit_tabs start stop).post fun _ _ h => h.inv)

/-! ### `brk` -/

/-- `brk` keeps the tables. -/
theorem doBrk_tabs [Others O pid] (addr : Nat) : Keeps (TabInv O pid whole) (doBrk pid addr) := by
  refine Triple.keeps ?_
  unfold doBrk
  refine tabs_get fun t _ _ => ?_
  refine Triple.ite (fun _ => Triple.pure fun _ h => h.inv) fun _ => ?_
  refine Triple.ite (fun _ => Triple.pure fun _ h => h.inv) fun hin => ?_
  refine Triple.bind (tabs_edit_last fun mm h heq => h.setBrk ?_) fun _ => Triple.pure fun _ h => h
  subst heq
  omega

/-! ### New mappings -/

/-- The pages are page boundaries, and with `whole` there is room for them. -/
def RoomAt (whole : Prop) (pages : List Nat) (mm : MmState) : Prop := whole → mm.RoomFor pages

/-- After a page was put in, there is room for the rest. -/
theorem RoomAt.tail {page : Nat} {pages : List Nat} {mm : MmState} {m : MemoryMap}
    (h : RoomAt whole (page :: pages) mm) (l : TableKind) (hm : m.vaddr = page)
    (hsize : m.size = PGSIZE) : RoomAt whole pages (mm.addTo l m) :=
  fun hd => (h hd).tail l hm hsize

/-- An `mmap` that is undone keeps the tables. -/
theorem rollbackEager_tabs [Others O pid] (mapped : List (Nat × Nat)) :
    Keeps (TabInv O pid whole) (rollbackEager pid mapped) := by
  refine Keeps.forEach fun e => Keeps.bind (tabInv_keeps (by simp)) fun _ => ?_
  refine Keeps.bind (tabInv_edit fun mm h => h.within (within_remove mm e.1)) fun _ => ?_
  exact tabInv_keeps (by simp)

/-- The cleanup of a failed step of a call. -/
theorem tabs_onError {α : Type} {c : M α} {k : Err → M Unit} (hc : Frames World.mms c)
    (hk : ∀ e, Keeps (TabInv O pid whole) (k e)) :
    Triple (Tabs O pid whole R) (onError c k) (fun _ => Tabs O pid whole R)
      fun _ => TabInv O pid whole :=
  Triple.onError (tabs_step hc) fun e => (hk e).triple

/-- The pages of an `mmap` go where there is room for them. -/
theorem mapAnonymousPages_tabs [Others O pid] (perms : Perms) :
    ∀ (pages : List Nat) (mapped : List (Nat × Nat)), (∀ p ∈ pages, p % PGSIZE = 0) →
      Triple (Tabs O pid whole (RoomAt whole pages)) (mapAnonymousPages pid perms pages mapped)
        (fun _ => TabInv O pid whole) fun _ => TabInv O pid whole := by
  intro pages
  induction pages with
  | nil => exact fun _ _ => Triple.pure fun _ h => h.inv
  | cons page rest ih =>
    intro mapped hpages
    have hpage := hpages page List.mem_cons_self
    unfold mapAnonymousPages
    refine tabs_slot (by simp) cspaceAlloc_ne_zero fun slot hslot => ?_
    refine Triple.bind (tabs_onError (by simp) fun _ =>
      Keeps.bind (tabInv_keeps (by simp)) fun _ => rollbackEager_tabs mapped) fun _ => ?_
    refine Triple.bind (tabs_step (by simp)) fun _ => ?_
    refine Triple.bind (tabs_onError (by simp) fun _ =>
      Keeps.bind (tabInv_keeps (by simp)) fun _ => rollbackEager_tabs mapped) fun _ => ?_
    refine Triple.bind (tabs_edit fun mm h hroom => ⟨?_, hroom.tail .mapped rfl rfl⟩) fun _ =>
      ih _ fun p hp => hpages p (List.mem_cons_of_mem _ hp)
    refine h.addTo (l := .mapped) hpage fun hd => ?_
    obtain ⟨-, hlt, hfree⟩ := (hroom hd).free page List.mem_cons_self
    exact ⟨Entry.page hpage hslot hlt perms .anonymous, hfree⟩

/-- The lazy pages of a file mapping go where there is room for them. -/
theorem mapFileRangeLazy_tabs [Others O pid] {start stop : Nat} (perms : Perms) (fd offset : Nat)
    (hpages : ∀ p ∈ pageRange start stop, p % PGSIZE = 0) :
    -- the room of the pages that are still to come
    Triple (Tabs O pid whole (RoomAt whole (pageRange start stop)))
      (mapFileRangeLazy pid start stop perms fd offset) (fun _ => TabInv O pid whole)
      fun _ => TabInv O pid whole := by
  unfold mapFileRangeLazy
  refine Triple.bind (tabs_step (by simp)) fun _ => ?_
  have hloop := Triple.forEach (E := fun _ => TabInv O pid whole)
    (f := fun page => do
      let backing ← getSome (checkedAdd offset (page - start)) .outOfMemory
      modifyMm pid (·.addLazyMemoryMap (lazyEntry page perms .fileBacked (some fd) backing)))
    (fun l w => Tabs O pid whole (RoomAt whole l) w ∧ ∀ p ∈ l, p % PGSIZE = 0) ?_
    (pageRange start stop)
  · exact hloop.imp (fun _ h => ⟨h, hpages⟩) (fun _ _ h => h.1.inv) fun _ _ h => h
  · intro page rest
    refine Triple.of_pre fun w₀ h₀ => ?_
    have hpage := h₀.2 page List.mem_cons_self
    have hrest : ∀ p ∈ rest, p % PGSIZE = 0 := fun p hp => h₀.2 p (List.mem_cons_of_mem _ hp)
    refine Triple.pre (K := Tabs O pid whole (RoomAt whole (page :: rest))) ?_ fun w hw => hw ▸ h₀.1
    refine Triple.bind (tabs_step (by simp)) fun backing => ?_
    refine (tabs_edit (T := RoomAt whole rest) fun mm h hroom =>
      ⟨?_, hroom.tail .lazily rfl rfl⟩).post fun _ _ h => ⟨h, hrest⟩
    refine h.addTo (l := .lazily) hpage fun hd => ?_
    obtain ⟨-, hlt, hfree⟩ := (hroom hd).free page List.mem_cons_self
    exact ⟨Entry.lazy hpage hlt perms .fileBacked (some fd) backing, hfree⟩

/-- A new range goes where there is room for it. -/
theorem mapNewRange_tabs [Others O pid] {start stop : Nat} (perms : Perms)
    (fileBacking : Option (Nat × Nat)) (hpages : ∀ p ∈ pageRange start stop, p % PGSIZE = 0) :
    Triple (Tabs O pid whole (RoomAt whole (pageRange start stop)))
      (mapNewRange pid start stop perms fileBacking) (fun _ => TabInv O pid whole)
      fun _ => TabInv O pid whole := by
  unfold mapNewRange
  split
  · exact Triple.bind (tabs_step (logFileMap_frames _)) fun _ =>
      mapFileRangeLazy_tabs perms _ _ hpages
  · exact mapAnonymousPages_tabs perms _ [] hpages

/-- A rounded length is a number of pages. -/
theorem alignUp_page (len : Nat) : alignUp len % PGSIZE = 0 := Nat.mul_mod_left _ _

/-- A checked sum that succeeds is the sum, and fits in the word. -/
theorem checkedAdd_some {a b c : Nat} (h : checkedAdd a b = some c) :
    c = a + b ∧ a + b < usizeMod := by
  unfold checkedAdd at h
  split at h
  · rename_i hlt
    exact ⟨(Option.some.inj h).symm, hlt⟩
  · cases h

/-- The pages of a range of whole pages are page boundaries. -/
theorem pageRange_pages {start n : Nat} (hstart : start % PGSIZE = 0) (hn : n % PGSIZE = 0) :
    ∀ p ∈ pageRange start (start + n), p % PGSIZE = 0 :=
  fun _ hp => (pageRange_le hn hp).2.2 hstart

/-- Whole pages after a page boundary end at one. -/
theorem add_page {a n : Nat} (ha : a % PGSIZE = 0) (hn : n % PGSIZE = 0) :
    (a + n) % PGSIZE = 0 := by
  rw [Nat.add_mod, ha, hn]
  rfl

/-- The value of a pure step, for the rest of a call. -/
theorem tabs_some {α β : Type} {o : Option α} {e : Err} {k : α → M β} {Q : β → World → Prop}
    (hk : ∀ a, o = some a → Triple (Tabs O pid whole R) (k a) Q fun _ => TabInv O pid whole) :
    Triple (Tabs O pid whole R) (getSome o e >>= k) Q fun _ => TabInv O pid whole := by
  cases ho : o with
  | none =>
    exact Triple.bind (R := fun _ _ => False) (Triple.throw fun _ h => h.inv) fun _ _ h => h.elim
  | some a => exact hk a ho

/-- The rule of a check of the tables. -/
theorem tabs_ofExcept {α β : Type} {r : Except Err α} {k : α → M β} {Q : β → World → Prop}
    (hk : ∀ a, r = .ok a → Triple (Tabs O pid whole R) (k a) Q fun _ => TabInv O pid whole) :
    Triple (Tabs O pid whole R) (ofExcept r >>= k) Q fun _ => TabInv O pid whole := by
  cases hr : r with
  | error e =>
    exact Triple.bind (R := fun _ _ => False) (Triple.throw fun _ h => h.inv) fun _ _ h => h.elim
  | ok a => exact hk a hr

/-- `mmap` at a fixed address clears the range first. -/
theorem mmapFixed_tabs [Others O pid] {addr len : Nat} (hlen : len % PGSIZE = 0) (perms : Perms)
    (fileBacking : Option (Nat × Nat)) :
    Keeps (TabInv O pid whole) (mmapFixed pid addr len perms fileBacking) := by
  unfold mmapFixed
  by_cases hpage : addr % PGSIZE ≠ 0
  · rw [if_pos hpage]
    exact Keeps.throw _
  rw [if_neg hpage]
  have haddr : addr % PGSIZE = 0 := not_not.mp hpage
  refine Triple.keeps (tabs_some fun stop hstop => ?_)
  obtain ⟨rfl, hlt⟩ := checkedAdd_some hstop
  refine Triple.bind (ensurePartialMultiPageRangesSplit_tabs _ _) fun _ => ?_
  refine tabs_get fun t htidy hsplit => tabs_ofExcept fun _ hcheck => ?_
  have hpages := pageRange_pages haddr hlen
  -- the range is free once what its pages name is taken out
  refine Triple.bind (tabs_edit (T := RoomAt whole (pageRange addr (addr + len)))
    fun mm h heq => ⟨h.within (within_removeRanges mm _ _), ?_⟩) fun _ => ?_
  · intro hd
    subst heq
    have hnone : t.mm.state.splitPartialMultiPageTargets addr (addr + len) = [] :=
      List.eq_nil_iff_forall_not_mem.mpr fun v hv => List.not_mem_nil (hsplit v hv)
    exact ((h.2 hd).free_fixed haddr hnone hcheck).roomFor haddr hlen hlt
  refine Triple.bind (tabs_step (unmapRanges_frames _ _)) fun _ => ?_
  refine Triple.bind (mapNewRange_tabs perms fileBacking hpages) fun _ => ?_
  refine Triple.bind (tabs_edit_last fun mm h _ => ?_) fun _ => Triple.pure fun _ h => h
  exact h.setNext (h.1.max_next (add_page haddr hlen))

/-- A search from a page boundary returns one, with a free range there. -/
theorem MmState.findFree_some {mm : MmState} {len : Nat} :
    ∀ (rounds first : Nat) {start : Nat}, (first % PGSIZE = 0 ∨ first = usizeMax) →
      mm.findFree len rounds first = some start →
      start % PGSIZE = 0 ∧ start + len < usizeMod ∧ mm.rangeIsFree start (start + len) = true := by
  intro rounds
  induction rounds with
  | zero => exact fun first start _ h => by cases h
  | succ rounds ih =>
    intro first start hfirst h
    unfold findFree at h
    split at h
    · cases h
    rename_i stop hstop
    obtain ⟨rfl, hlt⟩ := checkedAdd_some hstop
    split at h
    · cases h
    split at h
    · rename_i hfree
      cases h
      refine ⟨?_, hlt, hfree⟩
      -- the candidate is a page, or the search went past the last one
      rcases hfirst with hfirst | rfl
      · exact hfirst
      · -- at the end of the word there is no room
        have hpos : usizeMax < usizeMax + len := by
          unfold rangeIsFree at hfree
          simp only [Bool.and_eq_true, Bool.not_eq_true', Bool.or_eq_false_iff,
            decide_eq_false_iff_not, not_le] at hfree
          exact hfree.1.1.1.2
        unfold usizeMax usizeMod at hlt hpos
        omega
    · refine ih _ ?_ h
      -- the sum saturates at the end of the word
      rcases hfirst with hfirst | rfl
      · unfold satAdd usizeMax usizeMod PGSIZE at *
        omega
      · right
        unfold satAdd
        exact Nat.min_eq_right (Nat.le_add_right _ _)

/-- `mmap` without a fixed address takes free pages. -/
theorem mmapAnywhere_tabs [Others O pid] {addr len : Nat} (hlen : len % PGSIZE = 0) (perms : Perms)
    (fileBacking : Option (Nat × Nat)) :
    Keeps (TabInv O pid whole) (mmapAnywhere pid addr len perms fileBacking) := by
  refine Triple.keeps ?_
  unfold mmapAnywhere
  -- the search starts at a page, with the hint rounded down
  refine tabs_get fun t htidy _ => tabs_some fun start hstart => ?_
  have hfirst : max (if addr ≠ 0 then alignDown addr else t.mm.state.mmapNext) t.mm.state.mmapBase
      % PGSIZE = 0 := by
    have hhint : (if addr ≠ 0 then alignDown addr else t.mm.state.mmapNext) % PGSIZE = 0 := by
      split
      · exact alignDown_page addr
      · exact htidy.1.mmapNext
    rcases max_choice (if addr ≠ 0 then alignDown addr else t.mm.state.mmapNext)
      t.mm.state.mmapBase with heq | heq <;> rw [heq]
    · exact hhint
    · exact htidy.1.mmapBase
  obtain ⟨hpage, hlt, hfree⟩ := findFree_some _ _ (.inl hfirst) hstart
  refine Triple.bind ((mapNewRange_tabs perms fileBacking (pageRange_pages hpage hlen)).pre
    fun w h => h.imp ?_) fun _ => ?_
  · intro mm hmm heq hd
    subst heq
    -- the range that was found is free
    have hroom := ((hmm.2 hd).free_range hfree).2
    rw [Nat.add_sub_cancel_left] at hroom
    exact hroom.roomFor hpage hlen hlt
  · refine Triple.bind (tabs_step (by simp)) fun _ => ?_
    refine Triple.bind (tabs_edit_last fun mm h _ => ?_) fun _ => Triple.pure fun _ h => h
    exact h.setNext (h.1.max_next (add_page hpage hlen))

/-- `mmap` keeps the tables. -/
theorem doMmap_tabs [Others O pid] (addr len prot flags fd offset : Nat) :
    Keeps (TabInv O pid whole) (doMmap pid addr len prot flags fd offset) := by
  unfold doMmap
  refine Keeps.ite (Keeps.throw _) (Keeps.ite (Keeps.throw _) (Keeps.bind ?_ ?_))
  · unfold mmapFileBacking
    refine Keeps.ite (Keeps.pure _) (Keeps.ite (Keeps.throw _) ?_)
    exact Keeps.bind (tabInv_keeps (by simp)) fun _ => by simp
  · intro fileBacking
    exact Keeps.ite (mmapFixed_tabs (alignUp_page len) _ _)
      (mmapAnywhere_tabs (alignUp_page len) _ _)

/-- `munmap` keeps the tables. -/
theorem doMunmap_tabs [Others O pid] (addr len : Nat) :
    Keeps (TabInv O pid whole) (doMunmap pid addr len) := by
  unfold doMunmap
  refine Keeps.ite (Keeps.throw _) (Keeps.bind (Keeps.getSome _ _) fun stop => ?_)
  refine Keeps.bind (ensurePartialMultiPageRangesSplit_keepsTabs _ _) fun _ => ?_
  refine Keeps.bind (tabInv_keeps (by simp)) fun t => ?_
  refine Keeps.bind (tabInv_edit fun mm h => h.within (within_removeRanges mm _ _)) fun _ => ?_
  exact tabInv_keeps (unmapRanges_frames _ _)

/-! ### `mprotect` and `mremap` -/

/-- `mprotect` keeps the tables. -/
theorem doMprotect_tabs [Others O pid] (addr len prot : Nat) :
    Keeps (TabInv O pid whole) (doMprotect pid addr len prot) := by
  unfold doMprotect
  refine Keeps.ite (Keeps.pure _) (Keeps.bind (Keeps.getSome _ _) fun last => ?_)
  refine Keeps.bind (ensurePartialMultiPageRangesSplit_keepsTabs _ _) fun _ => ?_
  refine Keeps.bind (tabInv_keeps (by simp)) fun t => Keeps.bind (Keeps.ofExcept _) fun ranges => ?_
  refine Keeps.bind (Keeps.forEach fun e => ?_) fun _ =>
    tabInv_edit fun mm h => h.within (within_setFlags mm _ _ _)
  exact Keeps.bind (tabInv_keeps (by simp)) fun _ => tabInv_keeps (by simp)

/-- A mapping grows where there is room for its pages. -/
theorem expandInPlace_tabs [Others O pid] {oldEnd n : Nat} (hold : oldEnd % PGSIZE = 0)
    (hn : n % PGSIZE = 0) (flags : Perms) :
    Triple (Tabs O pid whole (RoomAt whole (pageRange oldEnd (oldEnd + n))))
      (expandInPlace pid oldEnd (oldEnd + n) flags) (fun _ => TabInv O pid whole)
      fun _ => TabInv O pid whole := by
  unfold expandInPlace
  refine Triple.bind (tabs_step (by simp)) fun _ => tabs_edit_last fun mm h hroom => ?_
  have hadd := h.addLazyRange flags (pageRange_pages hold hn) hroom
  exact hadd.setNext (h.1.max_next (add_page hold hn))

/-- The room past an entry range that grows in place. -/
theorem MmState.Tidy.room_past {mm : MmState} (h : mm.Tidy whole) {addr oldLen newLen : Nat}
    (haddr : addr % PGSIZE = 0) (hold : oldLen % PGSIZE = 0) (hnew : newLen % PGSIZE = 0)
    (hle : oldLen ≤ newLen) (hlt : addr + newLen < usizeMod)
    (hfree : mm.rangeIsFreeExcluding addr (addr + newLen) addr (addr + oldLen) = true) :
    RoomAt whole (pageRange (addr + oldLen) (addr + oldLen + (newLen - oldLen))) mm := by
  intro hd
  have hpast := (h.2 hd).free_past (Nat.le_add_right addr oldLen) hfree
  have hn : (newLen - oldLen) % PGSIZE = 0 :=
    Nat.mod_eq_zero_of_dvd (Nat.dvd_sub (Nat.dvd_of_mod_eq_zero hnew) (Nat.dvd_of_mod_eq_zero hold))
  rw [show addr + newLen - (addr + oldLen) = newLen - oldLen by omega] at hpast
  exact hpast.roomFor (add_page haddr hold) hn (by omega)

/-- The growth of a range in place. -/
theorem growInPlace_tabs [Others O pid] {addr oldLen newLen : Nat} {mm₀ : MmState}
    (haddr : addr % PGSIZE = 0) (hold : oldLen % PGSIZE = 0) (hnew : newLen % PGSIZE = 0)
    (hle : oldLen ≤ newLen) (hlt : addr + newLen < usizeMod) (flags : Perms)
    (hfree : mm₀.rangeIsFreeExcluding addr (addr + newLen) addr (addr + oldLen) = true) :
    Triple (Tabs O pid whole fun mm => mm = mm₀)
      (do expandInPlace pid (addr + oldLen) (addr + newLen) flags; pure addr)
      (fun _ => TabInv O pid whole) fun _ => TabInv O pid whole := by
  have hn : (newLen - oldLen) % PGSIZE = 0 :=
    Nat.mod_eq_zero_of_dvd (Nat.dvd_sub (Nat.dvd_of_mod_eq_zero hnew) (Nat.dvd_of_mod_eq_zero hold))
  rw [show addr + newLen = addr + oldLen + (newLen - oldLen) by omega] at hfree ⊢
  refine Triple.bind ((expandInPlace_tabs (add_page haddr hold) hn flags).pre fun w h =>
    h.imp fun mm hmm heq => ?_) fun _ => Triple.pure fun _ h => h
  subst heq
  refine hmm.room_past haddr hold hnew hle hlt ?_
  rwa [show addr + newLen = addr + oldLen + (newLen - oldLen) by omega]

/-- The moved frames of a `mremap` are not null. -/
def Framed (whole : Prop) (states : List RemapPageState) : Prop :=
  whole → ∀ c fl, RemapPageState.mapped c fl ∈ states → c ≠ 0

/-- A range moves to free pages. -/
theorem remapMove_tabs [Others O pid] {oldAddr oldLen newLen target : Nat}
    {states : List RemapPageState} (flags : Perms) (htarget : target % PGSIZE = 0)
    (hnew : newLen % PGSIZE = 0) (hframes : Framed whole states) :
    Keeps (TabInv O pid whole) (remapMove pid oldAddr oldLen newLen target states flags) := by
  refine Triple.keeps ?_
  unfold remapMove
  refine tabs_some fun stop hstop => ?_
  obtain ⟨rfl, hlt⟩ := checkedAdd_some hstop
  refine Triple.ite (fun _ => Triple.throw fun _ h => h.inv) fun _ => tabs_get fun t htidy _ => ?_
  refine Triple.ite (fun _ => Triple.throw fun _ h => h.inv) fun hfree => ?_
  have hfree : t.mm.state.rangeIsFree target (target + newLen) = true := by simpa using hfree
  refine Triple.bind (tabs_step (remapInstall_frames _ _ _ _)) fun _ => ?_
  refine Triple.bind (tabs_step (by simp)) fun _ => ?_
  have hpages : newLen / PGSIZE * PGSIZE = newLen :=
    Nat.div_mul_cancel (Nat.dvd_of_mod_eq_zero hnew)
  refine Triple.bind (tabs_edit_last ?_) fun _ => Keeps.triple ?_
  · intro mm h heq
    subst heq
    -- the window at the target is free, so the entries fit there
    refine h.moveRange flags htarget (by rwa [hpages]) (fun hd => ?_) hframes
    have hroom := ((h.2 hd).free_range hfree).2
    rw [Nat.add_sub_cancel_left] at hroom
    rwa [hpages]
  · refine Keeps.bind (Keeps.forEach fun e => ?_) fun _ => Keeps.pure _
    split
    · exact tabInv_keeps (by simp)
    · exact Keeps.pure _

/-- A range that goes to a target keeps the tables. -/
theorem remapTo_tabs [Others O pid] {oldAddr oldLen newLen target : Nat}
    {states : List RemapPageState} (flags : Perms) (hold : oldAddr % PGSIZE = 0)
    (hlen : oldLen % PGSIZE = 0) (hnew : newLen % PGSIZE = 0) (hlt : oldAddr + newLen < usizeMod)
    (htarget : target % PGSIZE = 0) (hframes : Framed whole states) :
    Keeps (TabInv O pid whole) (remapTo pid oldAddr oldLen newLen target states flags) := by
  unfold remapTo
  refine Keeps.bind (Keeps.getSome _ _) fun _ =>
    Keeps.ite ?_ (remapMove_tabs flags htarget hnew hframes)
  unfold remapSame
  refine Keeps.ite (Keeps.bind (doMunmap_tabs _ _) fun _ => Keeps.pure _) (Triple.keeps ?_)
  refine Triple.ite (fun hgt => tabs_get fun t htidy _ => ?_) fun _ => Triple.pure fun _ h => h
  refine Triple.ite (fun _ => Triple.throw fun _ h => h.inv) fun hfree => ?_
  exact growInPlace_tabs hold hlen hnew hgt.le hlt flags (by simpa using hfree)

/-- A range that goes where there is room keeps the tables. -/
theorem remapAnywhere_tabs [Others O pid] {oldAddr oldLen newLen : Nat}
    {states : List RemapPageState} (flags : Perms) (mayMove : Bool) (hold : oldAddr % PGSIZE = 0)
    (hlen : oldLen % PGSIZE = 0) (hnew : newLen % PGSIZE = 0) (hlt : oldAddr + newLen < usizeMod)
    (hframes : Framed whole states) :
    Keeps (TabInv O pid whole)
      (remapAnywhere pid oldAddr oldLen newLen mayMove states flags) := by
  unfold remapAnywhere
  by_cases hle : newLen ≤ oldLen
  · rw [if_pos hle]
    exact Keeps.ite (Keeps.bind (doMunmap_tabs _ _) fun _ => Keeps.pure _) (Keeps.pure _)
  rw [if_neg hle]
  refine Triple.keeps (tabs_get fun t htidy _ => ?_)
  refine Triple.ite ?_ fun _ => ?_
  · intro hfree
    exact growInPlace_tabs hold hlen hnew (by omega) hlt flags hfree
  refine Triple.ite (fun _ => Triple.throw fun _ h => h.inv) fun _ =>
    tabs_some fun target hfind => ?_
  have hfirst : max t.mm.state.mmapNext t.mm.state.mmapBase % PGSIZE = 0 :=
    htidy.1.max_next htidy.1.mmapBase
  obtain ⟨htarget, -, -⟩ := findFree_some _ _ (.inl hfirst) hfind
  exact (remapTo_tabs flags hold hlen hnew hlt htarget hframes).triple.pre fun _ h => h.inv

/-- `mremap` keeps the tables. -/
theorem doMremap_tabs [Others O pid] (oldAddr oldSize newSize flags newAddr : Nat) :
    Keeps (TabInv O pid whole) (doMremap pid oldAddr oldSize newSize flags newAddr) := by
  unfold doMremap
  by_cases hargs : oldSize = 0 ∨ newSize = 0 ∨ oldAddr % PGSIZE ≠ 0
  · rw [if_pos hargs]
    exact Keeps.throw _
  rw [if_neg hargs]
  -- the old address is a page after the checks
  have hold : oldAddr % PGSIZE = 0 := by
    simp only [not_or, not_not] at hargs
    exact hargs.2.2
  refine Keeps.ite (Keeps.throw _) (Triple.keeps
    (tabs_some fun _ _ => tabs_some fun stop hstop => ?_))
  obtain ⟨rfl, hlt⟩ := checkedAdd_some hstop
  refine tabs_get fun t htidy _ => tabs_ofExcept fun states hstates => ?_
  have hframes : Framed whole states := fun hd => (htidy.2 hd).collect_frames _ hstates
  refine Triple.pre (K := TabInv O pid whole) ?_ fun _ h => h.inv
  refine Triple.ite (fun _ => ?_) fun _ => Triple.ite (fun _ => Triple.throw fun _ h => h) ?_
  · exact (remapAnywhere_tabs _ _ hold (alignUp_page _) (alignUp_page _) hlt hframes).triple
  · intro hnew
    exact (remapTo_tabs _ hold (alignUp_page _) (alignUp_page _) hlt
      (not_not.mp hnew) hframes).triple

/-! ### Page faults -/

/-- The page of an address in the heap that no entry has. -/
theorem MmState.Tidy.heap_room {mm : MmState} (h : mm.Tidy whole) {addr : Nat}
    (hmap : mm.lookupMemoryMap addr = none) (hlazy : mm.lookupLazyMemoryMap addr = none)
    (hr : ¬ mm.Reserved addr) (hbrk : addr < mm.heapBrk) : HasRoom whole (alignDown addr) mm := by
  intro hd
  have hs := h.2 hd
  refine ⟨hs.free_page hmap hlazy hr, ?_⟩
  have hle := hs.heapBrk
  have hlimit := hs.heapLimit
  have hbelow := hs.heapBelow
  unfold alignDown PGSIZE at *
  omega

/-- The page of a lazy entry, once the entry is taken out. -/
theorem MmState.Tidy.lazy_room {mm : MmState} (h : mm.Tidy whole) {addr : Nat} {m : MemoryMap}
    (hm : mm.lookupLazyMemoryMap addr = some m) :
    HasRoom whole (alignDown addr) (mm.removeLazyMemoryMap (alignDown addr)) := by
  intro hd
  have hs := h.2 hd
  obtain ⟨hget, hvaddr, hsize⟩ := hs.lazy_page hm
  have hspan : m.span = ⟨alignDown addr, PGSIZE⟩ := by rw [MemoryMap.span, hvaddr, hsize]
  refine ⟨hs.free_dropped (within_removeLazy mm _) ?_, ?_⟩
  · intro x hlo hhi
    exact ⟨.lazily, alignDown addr, m, hget, by rw [hspan]; exact ⟨hlo, hhi⟩,
      OrdMap.get?_erase_self ..⟩
  · have hbelow := hs.below .lazily _ m hget
    rwa [hvaddr, hsize] at hbelow

/-- The four classes of a fault outside the entries. -/
theorem classifyFault_cases (mm : MmState) (addr : Nat) :
    (∃ m, mm.lookupLazyMemoryMap addr = some m ∧
      classifyFault mm addr (alignDown addr) = .lazyMmap m) ∨
    (mm.lookupLazyMemoryMap addr = none ∧ mm.Reserved addr ∧
      classifyFault mm addr (alignDown addr) = .stackGrowth (mm.stackBottom - mm.stackSize)
        ((mm.stackBottom - mm.stackSize - alignDown addr) / PGSIZE)) ∨
    (mm.lookupLazyMemoryMap addr = none ∧ ¬ mm.Reserved addr ∧
      (mm.heapStart ≤ addr ∧ addr < mm.heapBrk) ∧
      classifyFault mm addr (alignDown addr) = .heapLazy) ∨
    (mm.lookupLazyMemoryMap addr = none ∧ ¬ mm.Reserved addr ∧
      ¬ (mm.heapStart ≤ addr ∧ addr < mm.heapBrk) ∧
      classifyFault mm addr (alignDown addr) = .unmanaged) := by
  unfold classifyFault
  cases mm.lookupLazyMemoryMap addr with
  | some m => exact .inl ⟨m, rfl, rfl⟩
  | none =>
    by_cases hr : mm.Reserved addr
    · exact .inr (.inl ⟨rfl, hr, if_pos hr⟩)
    · by_cases hh : mm.heapStart ≤ addr ∧ addr < mm.heapBrk
      · exact .inr (.inr (.inl ⟨rfl, hr, hh, (if_neg hr).trans (if_pos hh)⟩))
      · exact .inr (.inr (.inr ⟨rfl, hr, hh, (if_neg hr).trans (if_neg hh)⟩))

section Fault

variable (hterm : ∀ code, Keeps (TabInv O pid whole) (terminateProcess pid code))

include hterm

/-- A fault inside an entry keeps the tables. -/
theorem faultInEntry_tabs [Others O pid] (cause : FaultCause) (m : MemoryMap) :
    Keeps (TabInv O pid whole) (faultInEntry pid cause m) := by
  unfold faultInEntry
  refine Keeps.ite (Keeps.ite (hterm _) (resolveCowFault_tabs _ _ _)) ?_
  refine Keeps.ite ?_ (remapExistingPage_tabs _ _ _ _)
  split
  · exact remapExistingPage_tabs _ _ _ _
  · exact hterm _

/-- A fault in a lazy entry. -/
theorem faultLazyMmap_tabs [Others O pid] {mm₀ : MmState} {addr : Nat} {m : MemoryMap}
    (hm : mm₀.lookupLazyMemoryMap addr = some m) :
    Triple (Tabs O pid whole fun mm => mm = mm₀) (faultLazyMmap pid (alignDown addr) m)
      (fun _ => TabInv O pid whole) fun _ => TabInv O pid whole := by
  unfold faultLazyMmap
  refine Triple.ite (fun _ => ?_) fun _ => ?_
  · refine Triple.bind (R := fun _ => TabInv O pid whole)
      (Triple.attempt (mapFileBackedFaultPage_tabs hm)) fun r => ?_
    split
    · exact Triple.pure fun _ h => h
    · exact (hterm _).triple
  · refine Triple.bind (tabs_edit (T := HasRoom whole (alignDown addr)) fun mm h heq => ?_) fun _ =>
      mapFaultPage_tabs (alignDown_page addr) _ _
    subst heq
    exact ⟨h.within (within_removeLazy mm _), h.lazy_room hm⟩

/-- A fault outside of all entries puts its page where no entry was. -/
theorem faultOutside_tabs [Others O pid] (cause : FaultCause) {mm₀ : MmState} {addr : Nat}
    (htidy : mm₀.Tidy whole) (hmap : mm₀.lookupMemoryMap addr = none) :
    Triple (Tabs O pid whole fun mm => mm = mm₀) (faultOutside pid cause mm₀ addr)
      (fun _ => TabInv O pid whole) fun _ => TabInv O pid whole := by
  have hsegv : Triple (Tabs O pid whole fun mm => mm = mm₀) (terminateBySignal pid SIGSEGV)
      (fun _ => TabInv O pid whole) fun _ => TabInv O pid whole :=
    (hterm _).triple.pre fun _ h => h.inv
  unfold faultOutside
  rcases classifyFault_cases mm₀ addr with ⟨m, hm, hcls⟩ | ⟨_, hr, hcls⟩ | ⟨hlazy, hr,
    hheap, hcls⟩ |
      ⟨_, _, _, hcls⟩ <;> rw [hcls] <;> dsimp only
  · exact Triple.ite (fun _ => hsegv) fun _ => faultLazyMmap_tabs hterm hm
  · exact Triple.ite (fun _ => hsegv) fun _ => faultStackGrowth_tabs htidy addr hr.1
  · refine Triple.ite (fun _ => hsegv) fun _ => ?_
    refine (mapFaultPage_tabs (alignDown_page addr) _ _).pre fun w h => h.imp fun mm _ heq => ?_
    subst heq
    exact htidy.heap_room hmap hlazy hr hheap.2
  · exact hsegv

/-- A fault keeps the tables. -/
theorem pageFault_tabs [Others O pid] (addr : Nat) (cause : FaultCause) :
    Keeps (TabInv O pid whole) (pageFault pid addr cause) := by
  refine Triple.keeps ?_
  unfold pageFault
  refine tabs_get fun t htidy _ => ?_
  cases hm : t.mm.state.lookupMemoryMap addr with
  | some m => exact (faultInEntry_tabs hterm cause m).triple.pre fun _ h => h.inv
  | none => exact faultOutside_tabs hterm cause htidy hm

end Fault

end Calls

end Ape
