import Ape.Proofs.TableRuns

/-!
# `Ape.Proofs.Search`: the search for a free range

`do_mmap` without `MAP_FIXED` and `do_mremap` look for a free range page by page, from
`mmap_next` on. `findFree` finds the lowest free range from there: `findFree_none_iff` and
`findFree_lowest` follow the loop.

The calls that map only raise `mmap_next`, and `execve` puts it back to the first address for
mappings. So until then the search does not come back to address space that `munmap` gave back.
`mmap_search_complete` says what the search does find, in every reachable state.
-/

set_option autoImplicit false

namespace Ape

open Ape.Lib Cmd

namespace MmState

/-- The `len` addresses from `c` on are a range of whole pages at or above `first`, and they
are free. -/
structure FreeFrom (mm : MmState) (first len c : Nat) : Prop where
  page : c % PGSIZE = 0
  above : first ≤ c
  fits : c + len < usizeMod
  free : mm.rangeIsFree c (c + len) = true

/-! ### The loop -/

section Loop

variable {mm : MmState} {len : Nat}

/-- A range past the limit is not free. -/
theorem rangeIsFree_limit {start stop : Nat} (h : mm.mmapLimit < stop) :
    mm.rangeIsFree start stop = false := by
  simp [rangeIsFree, h]

/-- An empty range is not free. -/
theorem rangeIsFree_empty (start : Nat) : mm.rangeIsFree start start = false := by
  simp [rangeIsFree]

/-- The next candidate. A range of a page or more fits in the word only when its second page
does. -/
theorem satAdd_page {c : Nat} (hlen : PGSIZE ≤ len) (hfits : c + len < usizeMod) :
    satAdd c PGSIZE = c + PGSIZE := satAdd_eq (by omega)

/-- What one round of the search decides: the candidate is out of range, or free, or passed
over. -/
theorem findFree_succ (hlen : PGSIZE ≤ len) (rounds c : Nat) :
    mm.findFree len (rounds + 1) c =
      if c + len < usizeMod ∧ c + len ≤ mm.mmapLimit then
        if mm.rangeIsFree c (c + len) then some c else mm.findFree len rounds (c + PGSIZE)
      else none := by
  rw [findFree, checkedAdd]
  by_cases hfits : c + len < usizeMod
  · rw [if_pos hfits]
    dsimp only
    by_cases hlimit : mm.mmapLimit < c + len
    · rw [if_pos hlimit, if_neg fun h => absurd h.2 (not_le.mpr hlimit)]
    · have hin : c + len < usizeMod ∧ c + len ≤ mm.mmapLimit := ⟨hfits, not_lt.mp hlimit⟩
      rw [if_neg hlimit, if_pos hin, satAdd_page hlen hfits]
  · rw [if_neg hfits, if_neg fun h => hfits h.1]

/-- The search fails when no candidate of its rounds is free. -/
theorem findFree_none_iff (hlen : PGSIZE ≤ len) (rounds c : Nat) :
    mm.findFree len rounds c = none ↔ ∀ k, k < rounds → c + k * PGSIZE + len < usizeMod →
      mm.rangeIsFree (c + k * PGSIZE) (c + k * PGSIZE + len) = false := by
  induction rounds generalizing c with
  | zero => exact iff_of_true rfl fun k hk => absurd hk (Nat.not_lt_zero k)
  | succ rounds ih =>
    rw [findFree_succ hlen]
    have hnext : ∀ k, c + PGSIZE + k * PGSIZE = c + (k + 1) * PGSIZE := by
      intro k
      rw [Nat.add_mul, Nat.one_mul]
      omega
    split
    · rename_i hin
      split
      · rename_i hfree
        refine iff_of_false (by simp) fun hall => ?_
        have hno := hall 0 (Nat.succ_pos _)
        rw [Nat.zero_mul, Nat.add_zero] at hno
        rw [hno hin.1] at hfree
        cases hfree
      · rename_i hbusy
        rw [ih]
        constructor
        · intro hall k hk hfits
          -- the first candidate is busy, and the others are those of the next round
          cases k with
          | zero =>
            rw [Nat.zero_mul, Nat.add_zero]
            simpa using hbusy
          | succ k =>
            rw [← hnext] at hfits ⊢
            exact hall k (Nat.lt_of_succ_lt_succ hk) hfits
        · intro hall k hk hfits
          rw [hnext] at hfits ⊢
          exact hall (k + 1) (Nat.succ_lt_succ hk) hfits
    · rename_i hout
      refine iff_of_true rfl fun k _ hfits => rangeIsFree_limit ?_
      by_contra hle
      exact hout ⟨by omega, by omega⟩

/-- What the search finds is free, and no candidate below it is. -/
theorem findFree_lowest (hlen : PGSIZE ≤ len) (rounds c : Nat) {start : Nat}
    (h : mm.findFree len rounds c = some start) :
    ∃ k, start = c + k * PGSIZE ∧ start + len < usizeMod ∧
      mm.rangeIsFree start (start + len) = true ∧
      ∀ j, j < k → mm.rangeIsFree (c + j * PGSIZE) (c + j * PGSIZE + len) = false := by
  induction rounds generalizing c with
  | zero => cases h
  -- the rounds of the search: one candidate is looked at, a page is gone up
  | succ rounds ih =>
    rw [findFree_succ hlen] at h
    split at h
    · rename_i hin
      split at h
      · rename_i hfree
        cases h
        refine ⟨0, by omega, hin.1, hfree, ?_⟩
        intro j hj
        exact absurd hj (Nat.not_lt_zero j)
      · rename_i hbusy
        obtain ⟨k, hstart, hfits, hfree, hlow⟩ := ih _ h
        refine ⟨k + 1, ?_, hfits, hfree, fun j hj => ?_⟩
        · rw [hstart, Nat.add_mul, Nat.one_mul]
          omega
        -- the candidates below the one found: the one of this round, and those of the induction
        · cases j with
          | zero =>
            rw [Nat.zero_mul, Nat.add_zero]
            simpa using hbusy
          | succ j =>
            have := hlow j (Nat.lt_of_succ_lt_succ hj)
            rwa [show c + (j + 1) * PGSIZE = c + PGSIZE + j * PGSIZE by
              rw [Nat.add_mul, Nat.one_mul]; omega]
    · cases h

/-- A search for no bytes fails. -/
theorem findFree_empty (rounds c : Nat) : mm.findFree 0 rounds c = none := by
  induction rounds generalizing c with
  | zero => rfl
  | succ rounds ih =>
    rw [findFree, checkedAdd]
    split
    · rfl
    · rename_i stop hstop
      split at hstop
      · cases hstop
        split
        · rfl
        · rw [Nat.add_zero, rangeIsFree_empty]
          exact ih _
      · cases hstop

end Loop

/-! ### The whole search -/

section Whole

variable {mm : MmState} {first len : Nat}

/-- The rounds of the search reach every candidate below the limit. -/
theorem FreeFrom.round {c : Nat} (h : mm.FreeFrom first len c) (hfirst : first % PGSIZE = 0) :
    ∃ k, k < mm.searchRounds ∧ c = first + k * PGSIZE := by
  have hlimit : c + len ≤ mm.mmapLimit := by
    by_contra hlt
    have hno := @rangeIsFree_limit mm c (c + len) (not_le.mp hlt)
    rw [h.free] at hno
    cases hno
  have habove := h.above
  have hpage := h.page
  refine ⟨(c - first) / PGSIZE, ?_, ?_⟩
  · have hle : (c - first) / PGSIZE ≤ mm.mmapLimit / PGSIZE :=
      Nat.div_le_div_right (by omega)
    unfold searchRounds
    omega
  · unfold PGSIZE at *
    omega

/-- The search from a page boundary fails exactly when no range above it is free. -/
theorem search_none_iff (hfirst : first % PGSIZE = 0) (hlen : len % PGSIZE = 0) :
    mm.findFree len mm.searchRounds first = none ↔ ∀ c, ¬ mm.FreeFrom first len c := by
  rcases Nat.eq_zero_or_pos len with rfl | hpos
  · -- a wrapped length is empty, and nothing empty is free
    refine iff_of_true (findFree_empty _ _) fun c hc => ?_
    have hfree := hc.free
    rw [Nat.add_zero, rangeIsFree_empty] at hfree
    cases hfree
  · have hpage : PGSIZE ≤ len := Nat.le_of_dvd hpos (Nat.dvd_of_mod_eq_zero hlen)
    rw [findFree_none_iff hpage]
    constructor
    · intro hall c hc
      obtain ⟨k, hk, rfl⟩ := hc.round hfirst
      have hno := hall k hk hc.fits
      rw [hc.free] at hno
      cases hno
    · intro hnone k _ hfits
      by_contra hfree
      refine hnone (first + k * PGSIZE) ⟨?_, by omega, hfits, by simpa using hfree⟩
      rw [Nat.add_mul_mod_self_right]
      exact hfirst

/-- What the search from a page boundary finds is the lowest free range above it. -/
theorem search_some (hfirst : first % PGSIZE = 0) (hlen : len % PGSIZE = 0) {start : Nat}
    (h : mm.findFree len mm.searchRounds first = some start) :
    mm.FreeFrom first len start ∧ ∀ c, mm.FreeFrom first len c → start ≤ c := by
  rcases Nat.eq_zero_or_pos len with rfl | hpos
  · rw [findFree_empty] at h
    cases h
  · have hpage : PGSIZE ≤ len := Nat.le_of_dvd hpos (Nat.dvd_of_mod_eq_zero hlen)
    obtain ⟨k, rfl, hfits, hfree, hlow⟩ := findFree_lowest hpage _ _ h
    refine ⟨⟨?_, by omega, hfits, hfree⟩, ?_⟩
    · rw [Nat.add_mul_mod_self_right]
      exact hfirst
    · intro c hc
      obtain ⟨j, -, rfl⟩ := hc.round hfirst
      by_contra hlt
      have hjk : j < k := by
        unfold PGSIZE at hlt
        omega
      have hno := hlow j hjk
      rw [hc.free] at hno
      cases hno

end Whole

end MmState

/-! ### `mmap` -/

/-- `do_mmap` up to its search: what is left is `mmapAnywhere`. -/
theorem run_doMmap_anywhere {w : World} {pid len prot flags fd offset : Nat}
    {backing : Option (Nat × Nat)} (addr : Nat) (hlen : len ≠ 0)
    (hprivate : flags &&& MAP_PRIVATE ≠ 0) (hanywhere : flags &&& MAP_FIXED = 0)
    (hfile : (mmapFileBacking pid flags fd offset).run w = (.ok backing, w)) :
    (doMmap pid addr len prot flags fd offset).run w
      = (mmapAnywhere pid addr (alignUp len) (protToPerms prot) backing).run w := by
  rw [doMmap, if_neg hlen, if_neg hprivate, run_bind_ok hfile, if_neg fun h => h hanywhere]

/-- The start of the search of `do_mmap` with address 0, and of `find_free_remap_target`. -/
def MmState.searchStart (mm : MmState) : Nat := max mm.mmapNext mm.mmapBase

/-- The search starts at a page boundary. -/
theorem MmState.Aligned.searchStart {mm : MmState} (h : mm.Aligned) :
    mm.searchStart % PGSIZE = 0 := by
  rw [MmState.searchStart]
  rcases max_choice mm.mmapNext mm.mmapBase with heq | heq <;> rw [heq]
  · exact h.mmapNext
  · exact h.mmapBase

/-- `do_mmap` with address 0 searches as `find_free_remap_target` does. -/
theorem run_doMmap_search {w : World} {pid : Nat} {t : TaskStruct} (ht : w.task? pid = some t)
    {len flags fd offset : Nat} (prot : Nat) {backing : Option (Nat × Nat)} (hlen : len ≠ 0)
    (hprivate : flags &&& MAP_PRIVATE ≠ 0) (hanywhere : flags &&& MAP_FIXED = 0)
    (hfile : (mmapFileBacking pid flags fd offset).run w = (.ok backing, w)) :
    (doMmap pid 0 len prot flags fd offset).run w = (do
      let start ← getSome (t.mm.state.findFreeRemapTarget (alignUp len)) .outOfMemory
      mapNewRange pid start (start + alignUp len) (protToPerms prot) backing
      let _ ← getProcess pid
      modifyMm pid fun mm => { mm with mmapNext := max mm.mmapNext (start + alignUp len) }
      pure start : M Nat).run w := by
  rw [run_doMmap_anywhere 0 hlen hprivate hanywhere hfile, mmapAnywhere,
    run_bind_ok (run_getProcess ht)]
  rfl

/-- The search of `do_mmap` with address 0, which is `find_free_remap_target`, in a reachable
state: it fails exactly when no range at or above `mmap_next` is free, and `do_mmap` then fails
and changes nothing. Else it finds the lowest of them, and `do_mmap` goes on with it. -/
theorem mmap_search_complete {w : World} (hw : Reachable w) {pid : Nat} {t : TaskStruct}
    (ht : w.task? pid = some t) {len prot flags fd offset : Nat} {backing : Option (Nat × Nat)}
    (hlen : len ≠ 0) (hprivate : flags &&& MAP_PRIVATE ≠ 0) (hanywhere : flags &&& MAP_FIXED = 0)
    (hfile : (mmapFileBacking pid flags fd offset).run w = (.ok backing, w)) :
    (t.mm.state.findFreeRemapTarget (alignUp len) = none ↔
      ∀ c, ¬ t.mm.state.FreeFrom t.mm.state.searchStart (alignUp len) c) ∧
    (t.mm.state.findFreeRemapTarget (alignUp len) = none →
      (doMmap pid 0 len prot flags fd offset).run w = (.error .outOfMemory, w)) ∧
    ∀ start, t.mm.state.findFreeRemapTarget (alignUp len) = some start →
      t.mm.state.FreeFrom t.mm.state.searchStart (alignUp len) start ∧
      (∀ c, t.mm.state.FreeFrom t.mm.state.searchStart (alignUp len) c → start ≤ c) ∧
      (doMmap pid 0 len prot flags fd offset).run w = (do
        mapNewRange pid start (start + alignUp len) (protToPerms prot) backing
        let _ ← getProcess pid
        modifyMm pid fun mm => { mm with mmapNext := max mm.mmapNext (start + alignUp len) }
        pure start : M Nat).run w := by
  have hstart := (hw.aligned ht).searchStart
  have hpage : alignUp len % PGSIZE = 0 := alignUp_page len
  have hrun := run_doMmap_search ht prot hlen hprivate hanywhere hfile
  refine ⟨MmState.search_none_iff hstart hpage, ?_, ?_⟩
  · intro hnone
    rw [hrun, hnone]
    rfl
  · intro start hsome
    obtain ⟨hfree, hlow⟩ := MmState.search_some hstart hpage hsome
    refine ⟨hfree, hlow, ?_⟩
    rw [hrun, hsome]
    rfl

/-- `init` asks for a page, and the search finds the first one. -/
theorem mmap_search_complete_sampleBoot :
    ∃ t, sampleBoot.task? 1 = some t ∧ t.mm.state.findFreeRemapTarget PGSIZE = some 0x10010000 ∧
      t.mm.state.FreeFrom t.mm.state.searchStart PGSIZE 0x10010000 := by
  obtain ⟨t, ht⟩ := Option.isSome_iff_exists.mp
    (show (sampleBoot.task? 1).isSome by decide +kernel)
  have hfound : (sampleBoot.task? 1).map (·.mm.state.findFreeRemapTarget PGSIZE)
      = some (some 0x10010000) := by decide +kernel
  rw [ht] at hfound
  have hsome : t.mm.state.findFreeRemapTarget PGSIZE = some 0x10010000 := Option.some.inj hfound
  have hfile : (mmapFileBacking 1 34 0 0).run sampleBoot = (.ok none, sampleBoot) := rfl
  have hall := @mmap_search_complete sampleBoot sampleBoot_reachable 1 t ht 4096 3 34 0 0 none
    (by decide) (by decide) (by decide) hfile
  exact ⟨t, ht, hsome, (hall.2.2 _ hsome).1⟩

/-- `init` maps the last page below the limit and unmaps it again. -/
def sampleTopped : World :=
  (sampleBoot.after (.syscall 1 (.mmap 0x2ffef000 4096 3 50 0 0))).after
    (.syscall 1 (.munmap 0x2ffef000 4096))

/-- The sample with a mapping at the top is reachable. -/
theorem sampleTopped_reachable : Reachable sampleTopped :=
  (sampleBoot_reachable.after (by decide +kernel)).after (by decide +kernel)

/-- The page is free again, and every page below it is, but no search finds one. -/
theorem search_skips_released :
    ¬ ∀ w, Reachable w → ∀ pid t, w.task? pid = some t → ∀ len,
      (doMmap pid 0 len 3 (MAP_PRIVATE ||| MAP_ANONYMOUS) 0 0).run w = (.error .outOfMemory, w) →
      t.mm.state.findFreeRemapTarget (alignUp len) = none →
      ∀ c, c % PGSIZE = 0 → t.mm.state.mmapBase ≤ c → c + alignUp len ≤ t.mm.state.mmapLimit →
        t.mm.state.rangeIsFree c (c + alignUp len) = false := by
  intro h
  obtain ⟨t, ht⟩ := Option.isSome_iff_exists.mp
    (show (sampleTopped.task? 1).isSome by decide +kernel)
  have hall : (sampleTopped.task? 1).map (fun t => decide
      (t.mm.state.findFreeRemapTarget 4096 = none ∧ t.mm.state.mmapBase = 0x10010000 ∧
        t.mm.state.mmapLimit = 0x2fff0000 ∧
        t.mm.state.rangeIsFree 0x10010000 0x10011000 = true)) = some true := by decide +kernel
  rw [ht] at hall
  obtain ⟨hnone, hbase, hlimit, hfree⟩ := of_decide_eq_true (Option.some.inj hall)
  have hfile : (mmapFileBacking 1 (MAP_PRIVATE ||| MAP_ANONYMOUS) 0 0).run sampleTopped
      = (.ok none, sampleTopped) := rfl
  have hrun := run_doMmap_search ht 3 (show (4096 : Nat) ≠ 0 by decide)
    (show (MAP_PRIVATE ||| MAP_ANONYMOUS) &&& MAP_PRIVATE ≠ 0 by decide) (by decide) hfile
  have hpage : alignUp 4096 = 4096 := by decide
  rw [hpage, hnone] at hrun
  have hbusy := h sampleTopped sampleTopped_reachable 1 t ht 4096 hrun hnone 0x10010000 (by decide)
    (le_of_eq hbase) (by rw [hlimit]; decide)
  rw [show (0x10010000 : Nat) + alignUp 4096 = 0x10011000 by decide, hfree] at hbusy
  cases hbusy

end Ape
