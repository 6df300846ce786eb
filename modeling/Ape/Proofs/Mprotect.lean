import Ape.Proofs.Forks
import Ape.Proofs.Munmap

/-!
# `Ape.Proofs.Mprotect`: what `mprotect` protects

`do_mprotect` splits the entries that its range cuts, looks every page of the range up in
`memory_maps`, maps the entries that it found with the new permissions, and records them in both
tables. A page that only `lazy_memory_maps` has an entry for ends the call with `InvalidAddress`,
although the last loop would have changed the entry.

`World.Protects` is what the call is for, in the three cases of a range: covered by the two tables,
not covered, and past the end of the word. It holds exactly if `MmState.ProtectFits` does.
-/

set_option autoImplicit false

namespace Ape

open Ape.Lib Cmd

/-! ### The range -/

/-- The pages of `[addr, addr + len)`. -/
def protectedPages (addr len : Nat) : List Nat :=
  if len = 0 then [] else pageRange (alignDown addr) (addr + len)

/-- The pages of a range that starts at a page boundary. -/
theorem mem_pageRange_iff {start stop p : Nat} (hstart : start % PGSIZE = 0) :
    p ∈ pageRange start stop ↔ p % PGSIZE = 0 ∧ start ≤ p ∧ p < stop := by
  simp only [pageRange, List.mem_map, List.mem_range, PGSIZE] at hstart ⊢
  constructor
  · rintro ⟨i, hi, rfl⟩
    omega
  · rintro ⟨hpage, hlo, hhi⟩
    exact ⟨(p - start) / 4096, by omega, by omega⟩

/-- The page of an address is in the range. -/
theorem mem_protectedPages {addr len a : Nat} (hlen : len ≠ 0) :
    alignDown a ∈ protectedPages addr len ↔ alignDown addr ≤ a ∧ alignDown a < addr + len := by
  have hstart : alignDown addr % PGSIZE = 0 := Nat.mul_mod_left _ _
  rw [protectedPages, if_neg hlen, mem_pageRange_iff hstart]
  simp only [alignDown, PGSIZE]
  omega

/-- Rounding the end of a range up adds no page. -/
theorem pageRange_alignUp {addr len : Nat} (hlen : len ≠ 0)
    (hfits : addr + len + (PGSIZE - 1) < usizeMod) :
    pageRange (alignDown addr) (alignUp (addr + len)) = protectedPages addr len := by
  have hup : alignUp (addr + len) = (addr + len + (PGSIZE - 1)) / PGSIZE * PGSIZE := by
    rw [alignUp, wAdd, Nat.mod_eq_of_lt hfits]
  have hcount : (alignUp (addr + len) - alignDown addr + (PGSIZE - 1)) / PGSIZE
      = (addr + len - alignDown addr + (PGSIZE - 1)) / PGSIZE := by
    rw [hup]
    simp only [alignDown, PGSIZE]
    omega
  rw [protectedPages, if_neg hlen, pageRange, pageRange, hcount]

/-! ### What `mprotect` is for -/

namespace MmState

/-- One of the tables has an entry for the address. -/
def Covered (mm : MmState) (a : Nat) : Prop := ∃ l, (mm.recordAt l a).isSome

/-- The permissions that a table records of an address. -/
def flagsAt (mm : MmState) (l : TableKind) (a : Nat) : Option Perms :=
    (mm.recordAt l a).map (·.flags)

/-- The calls that `mprotect` serves: a range that can be rounded within the word, and when both
tables together cover it, `memory_maps` alone covers it, and no entry that is not split sticks out
of it, unless it has the permissions. -/
def ProtectFits (mm : MmState) (addr len : Nat) (perms : Perms) : Prop :=
  (len = 0 ∨ addr + len + (PGSIZE - 1) < usizeMod) ∧
  ((∀ p ∈ protectedPages addr len, mm.Covered p) →
    (∀ p ∈ protectedPages addr len, (mm.recordAt .mapped p).isSome) ∧
    ∀ k m, mm.memoryMaps.get? k = some m → isRemappableUserMapping m.memType = false →
      (∃ p ∈ protectedPages addr len, m.Contains p) →
      (∃ a, m.Contains a ∧ alignDown a ∉ protectedPages addr len) → m.flags = perms)

/-- No entry that is not split sticks out of the pages, unless it has the permissions. -/
def KeepsWithin (mm : MmState) (pages : List Nat) (perms : Perms) : Prop :=
  ∀ k m, mm.memoryMaps.get? k = some m → isRemappableUserMapping m.memType = false →
    (∃ p ∈ pages, m.Contains p) → (∃ a, m.Contains a ∧ alignDown a ∉ pages) → m.flags = perms

end MmState

/-- What `mprotect` is for. When the tables cover every page of the range, it succeeds, the pages of
the range have the new permissions, and every other page is as it was. When they do not, it fails
with `InvalidAddress`, and no permission has changed. -/
def World.Protects (w : World) (pid addr len prot : Nat) (mm : MmState) : Prop :=
  let r := (doMprotect pid addr len prot).run w
  ∃ mm', r.2.mms.get? pid = some mm' ∧
    ((∀ p ∈ protectedPages addr len, mm.Covered p) → r.1 = .ok () ∧
      (∀ a l, alignDown a ∈ protectedPages addr len →
        mm'.flagsAt l a = (mm.flagsAt l a).map fun _ => protToPerms prot) ∧
      ∀ a, alignDown a ∉ protectedPages addr len →
        mm'.viewAt r.2.frames a = mm.viewAt w.frames a) ∧
    (¬ (∀ p ∈ protectedPages addr len, mm.Covered p) → r.1 = .error .invalidAddress ∧
      ∀ a l, mm'.flagsAt l a = mm.flagsAt l a)

namespace MmState

variable {mm : MmState}

/-! ### The new permissions in the tables -/

/-- An entry with the new permissions, if its key is listed. -/
def reflag (perms : Perms) (keys : List Nat) (m : MemoryMap) : MemoryMap :=
  if m.vaddr ∈ keys then { m with flags := perms } else m

/-- New permissions leave an entry where it is. -/
@[simp] theorem reflag_vaddr (perms : Perms) (keys : List Nat) (m : MemoryMap) :
    (reflag perms keys m).vaddr = m.vaddr := by
  unfold reflag
  split <;> rfl

/-- New permissions leave an entry its addresses. -/
theorem reflag_contains (perms : Perms) (keys : List Nat) (m : MemoryMap) (a : Nat) :
    (reflag perms keys m).Contains a ↔ m.Contains a := by
  unfold reflag
  split <;> exact Iff.rfl

/-- An entry of the list has the new permissions, and no other. -/
theorem reflag_flags (perms : Perms) (keys : List Nat) (m : MemoryMap) :
    (reflag perms keys m).flags = if m.vaddr ∈ keys then perms else m.flags := by
  unfold reflag
  split <;> rfl

/-- The keys that are listed for a table. -/
def listed (vaddrs pages : List Nat) : TableKind → List Nat
  | .mapped => vaddrs
  | .lazily => pages

/-- The tables after new permissions, entry by entry. -/
theorem Sound.table_setFlags (h : mm.Sound) (perms : Perms) (vaddrs pages : List Nat)
    (l : TableKind)
    (k : Nat) : ((mm.setFlags perms vaddrs pages).table l).get? k
      = ((mm.table l).get? k).map (reflag perms (listed vaddrs pages l)) := by
  have hone : ∀ (keys : List Nat) (maps : OrdMap Nat MemoryMap),
      (∀ m, maps.get? k = some m → m.vaddr = k) →
      (keys.foldl (fun maps v => maps.modify v fun m => { m with flags := perms }) maps).get? k
        = (maps.get? k).map (reflag perms keys) := by
    intro keys maps hkey
    rw [OrdMap.get?_foldl_modify (f := fun m : MemoryMap => { m with flags := perms }) fun _ => rfl]
    cases hm : maps.get? k with
    | none => simp
    | some m =>
      have hvaddr := hkey m hm
      by_cases hin : k ∈ keys <;> simp [reflag, hvaddr, hin]
  cases l with
  | mapped => exact hone vaddrs mm.memoryMaps (h.key .mapped k)
  | lazily => exact hone pages mm.lazyMemoryMaps (h.key .lazily k)

/-- A lookup after the change finds the changed entry. -/
theorem Sound.entryAt_setFlags (h : mm.Sound) (perms : Perms) (vaddrs pages : List Nat)
    (l : TableKind) (a : Nat) : entryAt ((mm.setFlags perms vaddrs pages).table l) a
      = (entryAt (mm.table l) a).map (reflag perms (listed vaddrs pages l)) := by
  have h' : (mm.setFlags perms vaddrs pages).Sound :=
    h.within (within_setFlags mm perms vaddrs pages)
  cases hm : entryAt (mm.table l) a with
  | none =>
    rw [Option.map_none]
    by_contra hsome
    obtain ⟨m', hm'⟩ := Option.ne_none_iff_exists'.mp hsome
    obtain ⟨k, hk, hin⟩ := (h'.entryAt_iff l).mp hm'
    rw [h.table_setFlags] at hk
    obtain ⟨m, hm₀, rfl⟩ := Option.map_eq_some_iff.mp hk
    exact h.miss hm hm₀ ((reflag_contains perms _ m a).mp hin)
  | some m =>
    obtain ⟨k, hk, hin⟩ := (h.entryAt_iff l).mp hm
    refine (h'.entryAt_iff l).mpr ⟨k, ?_, (reflag_contains perms _ m a).mpr hin⟩
    rw [h.table_setFlags, hk]
    rfl

/-- The permissions at an address after new permissions. -/
theorem Sound.flagsAt_setFlags (h : mm.Sound) (perms : Perms) (vaddrs pages : List Nat)
    (l : TableKind) (a : Nat) : (mm.setFlags perms vaddrs pages).flagsAt l a
      = (entryAt (mm.table l) a).map fun m =>
          if m.vaddr ∈ listed vaddrs pages l then perms else m.flags := by
  rw [flagsAt, recordAt, h.entryAt_setFlags, Option.map_map, Option.map_map]
  refine congrArg (Option.map · _) (funext fun m => ?_)
  exact reflag_flags perms _ m

/-- The permissions at an address are those of the entry there. -/
theorem flagsAt_eq (mm : MmState) (l : TableKind) (a : Nat) :
    mm.flagsAt l a = (entryAt (mm.table l) a).map (·.flags) := by
  rw [flagsAt, recordAt, Option.map_map]
  rfl

/-! ### The entries of the range -/

/-- The ranges of `mprotect`: an error, if `memory_maps` has no entry for one of the pages, and else
the entries of the pages. -/
theorem foldlM_protect {f : OrdMap Nat (Nat × Nat) → Nat → Except Err (OrdMap Nat (Nat × Nat))}
    (hsome : ∀ acc p m, mm.lookupMemoryMap p = some m →
      f acc p = .ok (acc.orInsert m.vaddr (m.frameCap, m.pages)))
    (hnone : ∀ acc p, mm.lookupMemoryMap p = none → f acc p = .error .invalidAddress) :
    ∀ (pages : List Nat) (acc : OrdMap Nat (Nat × Nat)),
      ((∀ p ∈ pages, (mm.lookupMemoryMap p).isSome) → ∃ r, pages.foldlM f acc = .ok r ∧
        ∀ k, k ∈ r.keys ↔ k ∈ acc.keys ∨ ∃ p ∈ pages, ∃ m, mm.lookupMemoryMap p = some m ∧
          m.vaddr = k) ∧
      (¬ (∀ p ∈ pages, (mm.lookupMemoryMap p).isSome) →
        pages.foldlM f acc = .error .invalidAddress) := by
  -- induction over the pages: a page without an entry ends the fold, an entry is recorded once
  intro pages
  induction pages with
  | nil => exact fun acc => ⟨fun _ => ⟨acc, rfl, fun k => by simp⟩, fun hno => absurd (by simp) hno⟩
  | cons page rest ih =>
    intro acc
    cases hm : mm.lookupMemoryMap page with
    | none =>
      have herr : (page :: rest).foldlM f acc = .error .invalidAddress := by
        rw [List.foldlM_cons, hnone acc page hm]
        rfl
      refine ⟨?_, fun _ => herr⟩
      intro hall
      have hpage := hall page List.mem_cons_self
      rw [hm] at hpage
      cases hpage
    | some m =>
      have hstep : (page :: rest).foldlM f acc
          = rest.foldlM f (acc.orInsert m.vaddr (m.frameCap, m.pages)) := by
        rw [List.foldlM_cons, hsome acc page m hm]
        rfl
      have hkeys : ∀ k, k ∈ (acc.orInsert m.vaddr (m.frameCap, m.pages)).keys ↔
          k ∈ acc.keys ∨ m.vaddr = k := by
        intro k
        rw [OrdMap.mem_keys, OrdMap.mem_keys, OrdMap.get?_orInsert]
        by_cases heq : k = m.vaddr
        · subst heq
          simp
        · simp [heq, Ne.symm heq]
      obtain ⟨hok, herr⟩ := ih (acc.orInsert m.vaddr (m.frameCap, m.pages))
      rw [hstep]
      -- all pages have entries, or one of the rest has none
      refine ⟨?_, fun hno => herr fun hrest => hno ?_⟩
      · intro hall
        obtain ⟨r, hr, hmem⟩ := hok fun p hp => hall p (List.mem_cons_of_mem page hp)
        refine ⟨r, hr, fun k => (hmem k).trans ?_⟩
        rw [hkeys, or_assoc]
        simp [hm]
      · intro p hp
        rcases List.mem_cons.mp hp with rfl | hp
        · rw [hm]
          rfl
        · exact hrest p hp

/-- The ranges to protect are the entries of the pages, if each page has one. -/
theorem Sound.protectRanges (h : mm.Sound) (pages : List Nat) :
    ((∀ p ∈ pages, (mm.lookupMemoryMap p).isSome) → ∃ r, mm.protectRanges pages = .ok r ∧
      ∀ k, k ∈ r.keys ↔ ∃ p ∈ pages, ∃ m, mm.lookupMemoryMap p = some m ∧ m.vaddr = k) ∧
    (¬ (∀ p ∈ pages, (mm.lookupMemoryMap p).isSome) →
      mm.protectRanges pages = .error .invalidAddress) := by
  obtain ⟨f, hf, hsome, hnone⟩ : ∃ f, mm.protectRanges pages = pages.foldlM f OrdMap.empty ∧
      (∀ acc p m, mm.lookupMemoryMap p = some m →
        f acc p = .ok (acc.orInsert m.vaddr (m.frameCap, m.pages))) ∧
      ∀ acc p, mm.lookupMemoryMap p = none → f acc p = .error .invalidAddress := by
    refine ⟨_, rfl, ?_, ?_⟩
    · -- the second check of the source never fails
      intro acc p m hm
      obtain ⟨k, hk, hin⟩ := (h.lookups p m).1.mp hm
      have hend : satAdd m.vaddr m.size = m.vaddr + m.size := satAdd_eq (h.below .mapped k m hk)
      simp only [hm, hend]
      rw [if_neg]
      rintro (hlt | hge)
      · exact absurd hin.1 (by omega)
      · exact absurd hin.2 (by omega)
    · intro acc p hm
      simp only [hm]
  -- the fold of the source is the one of the lemma, from the empty map
  obtain ⟨hok, herr⟩ := foldlM_protect hsome hnone pages OrdMap.empty
  rw [hf]
  refine ⟨?_, herr⟩
  intro hall
  obtain ⟨r, hr, hkeys⟩ := hok hall
  refine ⟨r, hr, fun k => (hkeys k).trans ?_⟩
  rw [OrdMap.mem_keys, OrdMap.get?_empty]
  simp

/-! ### Pages and entries -/

/-- An entry has the whole page of each of its addresses. -/
theorem Sound.contains_page (h : mm.Sound) {l : TableKind} {k a : Nat} {m : MemoryMap}
    (hk : (mm.table l).get? k = some m) (hin : m.Contains a) : m.Contains (alignDown a) := by
  obtain ⟨hstart, hsize, -⟩ := h.paged l k m hk
  obtain ⟨hlo, hhi⟩ := hin
  simp only [MemoryMap.span, PGSIZE] at hstart hsize
  simp only [MemoryMap.Contains, alignDown, PGSIZE]
  omega

/-- The last page of the word has no entry, so no table covers a range that ends there. -/
theorem Sound.uncovered_end (h : mm.Sound) {addr len : Nat} (hlen : len ≠ 0)
    (hover : usizeMod ≤ addr + len + (PGSIZE - 1)) :
    ¬ ∀ p ∈ protectedPages addr len, mm.Covered p := by
  intro hall
  have hmem : alignDown (addr + len - 1) ∈ protectedPages addr len := by
    rw [mem_protectedPages hlen]
    simp only [alignDown, PGSIZE]
    omega
  obtain ⟨l, hsome⟩ := hall _ hmem
  rw [recordAt, Option.isSome_map] at hsome
  obtain ⟨m, hm⟩ := Option.isSome_iff_exists.mp hsome
  obtain ⟨k, hk, hlo, hhi⟩ := (h.entryAt_iff l).mp hm
  obtain ⟨hstart, hsize, -⟩ := h.paged l k m hk
  have hbelow := h.below l k m hk
  simp only [MemoryMap.span, alignDown, PGSIZE, usizeMod] at *
  omega

/-- What is at an address depends on the entries there. -/
theorem viewAt_of_entryAt {mm' : MmState} {frames : Nat → Option Frame} {a : Nat}
    (h : ∀ l, entryAt (mm'.table l) a = entryAt (mm.table l) a) :
    mm'.viewAt frames a = mm.viewAt frames a := by
  have hlook : mm'.lookupMemoryMap a = mm.lookupMemoryMap a := h .mapped
  rw [viewAt, viewAt, recordAt, recordAt, recordAt, recordAt, h, h, byteAt, byteAt, hlook]

/-- A lookup finds an entry where there is one. -/
theorem lookup_isSome (mm : MmState) (a : Nat) :
    (mm.lookupMemoryMap a).isSome ↔ (mm.recordAt .mapped a).isSome := by
  rw [recordAt, Option.isSome_map]
  exact Iff.rfl

section Reflag

variable {pages : List Nat} {perms : Perms} {ranges : OrdMap Nat (Nat × Nat)}

/-- An address on a page of the range has the new permissions. -/
theorem Sound.reflag_inside (h : mm.Sound)
    (hkeys : ∀ k, k ∈ ranges.keys ↔ ∃ p ∈ pages, ∃ m, mm.lookupMemoryMap p = some m ∧ m.vaddr = k)
    {a : Nat} (ha : alignDown a ∈ pages) (l : TableKind) :
    (mm.setFlags perms ranges.keys pages).flagsAt l a = (mm.flagsAt l a).map fun _ => perms := by
  rw [h.flagsAt_setFlags, flagsAt_eq, Option.map_map]
  cases hm : entryAt (mm.table l) a with
  | none => rfl
  | some m =>
    obtain ⟨k, hk, hin⟩ := (h.entryAt_iff l).mp hm
    have hlisted : m.vaddr ∈ listed ranges.keys pages l := by
      cases l with
      | mapped =>
        have hpage : mm.lookupMemoryMap (alignDown a) = some m :=
          (h.lookups _ m).1.mpr ⟨k, hk, h.contains_page hk hin⟩
        exact (hkeys _).mpr ⟨_, ha, m, hpage, rfl⟩
      | lazily => exact (h.lazy_page hm).2.1.symm ▸ ha
    show some (if m.vaddr ∈ listed ranges.keys pages l then perms else m.flags) = some perms
    rw [if_pos hlisted]

/-- The other addresses have what they had exactly if every entry that is changed and sticks out of
the range has the permissions already. -/
theorem Sound.reflag_outside (h : mm.Sound)
    (hkeys : ∀ k, k ∈ ranges.keys ↔ ∃ p ∈ pages, ∃ m, mm.lookupMemoryMap p = some m ∧ m.vaddr = k)
    (frames : Nat → Option Frame) :
    (∀ a, alignDown a ∉ pages →
      (mm.setFlags perms ranges.keys pages).viewAt frames a = mm.viewAt frames a) ↔
    ∀ k m, mm.memoryMaps.get? k = some m → (∃ p ∈ pages, m.Contains p) →
      (∃ a, m.Contains a ∧ alignDown a ∉ pages) → m.flags = perms := by
  constructor
  · rintro hout k m hk ⟨p, hp, hinp⟩ ⟨a, hin, ha⟩
    have hlook : mm.lookupMemoryMap p = some m := (h.lookups p m).1.mpr ⟨k, hk, hinp⟩
    have hlisted : m.vaddr ∈ ranges.keys := (hkeys _).mpr ⟨p, hp, m, hlook, rfl⟩
    have hrecord : (mm.setFlags perms ranges.keys pages).recordAt .mapped a
      = mm.recordAt .mapped a :=
      congrArg AddrView.mapped (hout a ha)
    have hentry : entryAt (mm.table .mapped) a = some m := h.entryAt_eq (l := .mapped) hk hin
    have hflags := congrArg (Option.map PageRecord.flags) hrecord
    rw [← flagsAt, h.flagsAt_setFlags, ← flagsAt, flagsAt_eq, hentry] at hflags
    have hflags' : (if m.vaddr ∈ ranges.keys then perms else m.flags) = m.flags :=
      Option.some.inj hflags
    rw [if_pos hlisted] at hflags'
    exact hflags'.symm
  · intro hstick a ha
    refine viewAt_of_entryAt fun l => ?_
    rw [h.entryAt_setFlags]
    cases hm : entryAt (mm.table l) a with
    | none => rfl
    | some m =>
      obtain ⟨k, hk, hin⟩ := (h.entryAt_iff l).mp hm
      rw [Option.map_some, reflag]
      by_cases hlisted : m.vaddr ∈ listed ranges.keys pages l
      · cases l with
        | lazily => exact absurd ((h.lazy_page hm).2.1 ▸ hlisted) ha
        | mapped =>
          -- the entry that is listed is this one
          obtain ⟨p, hp, m', hlook, hvaddr⟩ := (hkeys _).mp hlisted
          obtain ⟨k', hk', hin'⟩ := (h.lookups p m').1.mp hlook
          have hkey := h.key .mapped k m hk
          have hkey' := h.key .mapped k' m' hk'
          have heq : k' = k := by omega
          subst heq
          cases (show mm.memoryMaps.get? k' = some m from hk).symm.trans hk'
          rw [if_pos hlisted, ← hstick k' m hk ⟨p, hp, hin'⟩ ⟨a, hin, ha⟩]
      · rw [if_neg hlisted]

end Reflag

end MmState

section Split

variable {pid : Nat} {v v' : MapView} {mm mm' : MmState}

/-- A split changes no record. -/
theorem SplitOf.recordAt (h : SplitOf pid v mm v' mm') (l : TableKind) (a : Nat) :
    mm'.recordAt l a = mm.recordAt l a := by
  cases l with
  | mapped => exact congrArg AddrView.mapped (h.views a)
  | lazily => exact congrArg AddrView.lazily (h.views a)

/-- After the split only entries that are not split stick out of the range. -/
theorem SplitOf.sticking (h : SplitOf pid v mm v' mm') (hsound' : mm'.Sound) {addr len : Nat}
    {perms : Perms} (hlen : len ≠ 0) (hfits : addr + len + (PGSIZE - 1) < usizeMod)
    (ht : Targets (alignDown addr) (alignUp (addr + len)) [] mm') :
    (∀ k m, mm'.memoryMaps.get? k = some m → (∃ p ∈ protectedPages addr len, m.Contains p) →
      (∃ a, m.Contains a ∧ alignDown a ∉ protectedPages addr len) → m.flags = perms) ↔
    ∀ k m, mm.memoryMaps.get? k = some m → isRemappableUserMapping m.memType = false →
      (∃ p ∈ protectedPages addr len, m.Contains p) →
      (∃ a, m.Contains a ∧ alignDown a ∉ protectedPages addr len) → m.flags = perms := by
  -- the entries that may not be split are the old ones, and the others lie within the range
  constructor
  · exact fun hall k m hk hty => hall k m ((h.fixed k m hty).mpr hk)
  · rintro hall k m hk ⟨p, hp, hinp⟩ ⟨a, hin, ha⟩
    by_cases hty : isRemappableUserMapping m.memType = true
    · -- an entry that is split does not stick out
      obtain ⟨n, hn, hstop⟩ : ∃ n, n % PGSIZE = 0 ∧ alignUp (addr + len) = alignDown addr + n := by
        refine ⟨alignUp (addr + len) - alignDown addr, ?_, ?_⟩ <;>
          simp only [alignUp, alignDown, wAdd, Nat.mod_eq_of_lt hfits] <;>
          simp only [PGSIZE] <;> omega
      have hstart : alignDown addr % PGSIZE = 0 := Nat.mul_mod_left _ _
      rw [← pageRange_alignUp hlen hfits, hstop] at hp ha
      rw [hstop] at ht
      obtain ⟨-, hlo, hhi⟩ := (mem_pageRange_iff hstart).mp hp
      have hmem := hsound'.page_of_meets hstart ht (l := .mapped) hk (fun _ => hty) hinp hlo hhi
      obtain ⟨hlo', hhi'⟩ := hsound'.within_of_page hstart hn ht (l := .mapped) hk
        (fun _ => hty) hmem hin
      refine absurd ((mem_pageRange_iff hstart).mpr ⟨Nat.mul_mod_left _ _, ?_, ?_⟩) ha
      · simp only [alignDown, PGSIZE] at hlo' ⊢
        omega
      · exact lt_of_le_of_lt (Nat.div_mul_le_self a PGSIZE) hhi'
    -- a fixed entry is the same before and after the splits
    · have hfix := (h.fixed k m (by simpa using hty)).mp hk
      exact hall k m hfix (by simpa using hty) ⟨p, hp, hinp⟩ ⟨a, hin, ha⟩

end Split

/-! ### The call -/

section Call

variable {w₀ : World} {pid addr len prot : Nat} {mm : MmState}

/-- What `mprotect` leaves when its last loop is over. -/
def Reflagged (w₀ : World) (pid : Nat) (mm : MmState) (start stop : Nat)
    (perms : Perms) (w : World) :
    Prop :=
  ∃ mm₁ v₁ ranges, SplitOf pid w₀.mapView mm v₁ mm₁ ∧ mm₁.Sound ∧ Targets start stop [] mm₁ ∧
    mm₁.protectRanges (pageRange start stop) = .ok ranges ∧
    w.mapView = { v₁ with
      mms := v₁.mms.modify pid (·.setFlags perms ranges.keys (pageRange start stop)) }

/-- What it leaves when a page has no entry. -/
def Unprotected (w₀ : World) (pid : Nat) (mm : MmState) (start stop : Nat) (e : Err) (w : World) :
    Prop :=
  ∃ mm₁, SplitOf pid w₀.mapView mm w.mapView mm₁ ∧ mm₁.Sound ∧
    mm₁.protectRanges (pageRange start stop) = .error e

/-- It says `InvalidAddress`, and a page of the range has no entry. -/
theorem Unprotected.missing {start stop : Nat} {e : Err} {w : World}
    (h : Unprotected w₀ pid mm start stop e w) :
    e = .invalidAddress ∧ ¬ ∀ p ∈ pageRange start stop, (mm.recordAt .mapped p).isSome := by
  obtain ⟨mm₁, hsplit, hsound₁, hranges⟩ := h
  have hiff : (∀ p ∈ pageRange start stop, (mm₁.lookupMemoryMap p).isSome) ↔
      ∀ p ∈ pageRange start stop, (mm.recordAt .mapped p).isSome := by
    simp only [MmState.lookup_isSome, hsplit.recordAt]
  obtain ⟨hok, herr⟩ := hsound₁.protectRanges (pageRange start stop)
  have hno : ¬ ∀ p ∈ pageRange start stop, (mm.recordAt .mapped p).isSome := by
    intro hall
    obtain ⟨r, hr, -⟩ := hok (hiff.mpr hall)
    rw [hr] at hranges
    cases hranges
  refine ⟨?_, hno⟩
  rw [herr fun hall => hno (hiff.mp hall)] at hranges
  exact (Except.error.inj hranges).symm

/-- The pages of the range had entries and have the new permissions, and the other pages are as they
were exactly if no entry that is not split sticks out. -/
theorem Reflagged.effect {perms : Perms} {w : World} (hlen : len ≠ 0)
    (hfits : addr + len + (PGSIZE - 1) < usizeMod)
    (h : Reflagged w₀ pid mm (alignDown addr) (alignUp (addr + len)) perms w) :
    ∃ mm', w.mms.get? pid = some mm' ∧
      (∀ p ∈ protectedPages addr len, (mm.recordAt .mapped p).isSome) ∧
      (∀ a l, alignDown a ∈ protectedPages addr len →
        mm'.flagsAt l a = (mm.flagsAt l a).map fun _ => perms) ∧
      ((∀ a, alignDown a ∉ protectedPages addr len →
        mm'.viewAt w.frames a = mm.viewAt w₀.frames a) ↔
        mm.KeepsWithin (protectedPages addr len) perms) := by
  obtain ⟨mm₁, v₁, ranges, hsplit, hsound₁, ht, hranges, hview⟩ := h
  rw [pageRange_alignUp hlen hfits] at hranges hview
  -- a page without an entry would have failed the call
  have hmapped : ∀ p ∈ protectedPages addr len, (mm₁.lookupMemoryMap p).isSome := by
    by_contra hno
    rw [(hsound₁.protectRanges _).2 hno] at hranges
    cases hranges
  obtain ⟨r, hr, hkeys⟩ := (hsound₁.protectRanges _).1 hmapped
  cases hranges.symm.trans hr
  have hframes : w.frames = v₁.frames := congrArg MapView.frames hview
  refine ⟨mm₁.setFlags perms ranges.keys (protectedPages addr len), ?_, ?_, ?_, ?_⟩
  -- the table, the pages of the range, the flags inside, and the view outside
  · have hmms : w.mms = _ := congrArg MapView.mms hview
    rw [hmms, OrdMap.get?_modify, if_pos rfl, hsplit.mms]
    rfl
  · intro p hp
    rw [← hsplit.recordAt, ← MmState.lookup_isSome]
    exact hmapped p hp
  · intro a l ha
    rw [hsound₁.reflag_inside hkeys ha l, MmState.flagsAt, hsplit.recordAt, MmState.flagsAt]
  · have hviews : ∀ a, mm₁.viewAt v₁.frames a = mm.viewAt w₀.frames a := hsplit.views
    have houtside := @MmState.Sound.reflag_outside mm₁ _ perms ranges hsound₁ hkeys v₁.frames
    rw [hsplit.sticking hsound₁ hlen hfits ht] at houtside
    simp only [hviews] at houtside
    rw [hframes]
    exact houtside

/-- The entries are mapped again unless a service refuses a call. -/
theorem reprotect_serves (perms : Perms) (es : List (Nat × (Nat × Nat))) :
    Serves pid (forEach es fun e => do
      ignore (unmapProcessPages pid e.1 e.2.2)
      mapProcessFrame pid e.2.1 e.1 perms e.2.2) :=
  Succeeds.forEach_const fun _ _ => Succeeds.bind (ignore_serves (unmapProcessPages_serves _ _))
    fun _ => mapProcessFrame_serves _ _ _ _

/-- The loop changes page tables only. -/
theorem reprotect_frames (perms : Perms) (es : List (Nat × (Nat × Nat))) :
    Frames World.mapView (forEach es fun e => do
      ignore (unmapProcessPages pid e.1 e.2.2)
      mapProcessFrame pid e.2.1 e.1 perms e.2.2) :=
  Frames.forEach fun _ => Frames.bind (by simp) fun _ => by simp

/-- `do_mprotect`, when it succeeds. -/
theorem doMprotect_view (hinv : FrameInv w₀) (hmm : w₀.mms.get? pid = some mm)
    (hsound : mm.Sound) (hlen : len ≠ 0) (hlast : addr + len < usizeMod) :
    Triple (fun w => w = w₀) (doMprotect pid addr len prot)
      (fun _ => Reflagged w₀ pid mm (alignDown addr) (alignUp (addr + len)) (protToPerms prot))
      (fun _ _ => True) := by
  have hadd : checkedAdd addr len = some (addr + len) := if_pos hlast
  unfold doMprotect
  rw [if_neg hlen, hadd, getSome_bind]
  refine Triple.bind (ensurePartialMultiPageRangesSplit_view hinv hmm hsound _ _) fun _ => ?_
  refine Triple.of_pre fun w₁ h₁ => ?_
  obtain ⟨-, mm₁, hsplit, hsound₁, ht⟩ := h₁
  refine Triple.bind (getProcess_known hsplit.mms) fun task => Triple.of_pre fun w₂ h₂ => ?_
  obtain ⟨rfl, rfl⟩ := h₂
  refine Triple.bind (R := fun ranges w => w = w₂ ∧ task.mm.state.protectRanges
    (pageRange (alignDown addr) (alignUp (addr + len))) = .ok ranges)
    (Triple.ofExcept (fun ranges w hr hw => ⟨hw, hr⟩) fun _ _ _ _ => trivial) fun ranges => ?_
  refine Triple.of_pre fun w₃ h₃ => ?_
  obtain ⟨rfl, hranges⟩ := h₃
  refine Triple.pre (K := fun w => w.mapView = w₃.mapView) ?_ fun w hw => by rw [hw]
  refine Triple.bind (blind_step (reprotect_frames (protToPerms prot) ranges.entries)) fun _ => ?_
  refine Triple.modify fun w hw => ⟨_, w₃.mapView, ranges, hsplit, hsound₁, ht, hranges, ?_⟩
  have hmms : w.mms = w₃.mapView.mms := congrArg MapView.mms hw
  rw [World.mapView_modifyMm, hw, hmms]

/-- When no service refuses a call, it fails only because a page has no entry. -/
theorem doMprotect_error (hinv : FrameInv w₀) (hmm : w₀.mms.get? pid = some mm)
    (hsound : mm.Sound) (hlen : len ≠ 0) (hlast : addr + len < usizeMod) :
    Triple (fun w => w = w₀) (doMprotect pid addr len prot)
      (fun _ => Unless World.Marked fun _ => True)
      (fun e => Unless World.Marked
        (Unprotected w₀ pid mm (alignDown addr) (alignUp (addr + len)) e)) := by
  have hadd : checkedAdd addr len = some (addr + len) := if_pos hlast
  unfold doMprotect
  -- neither the zero length nor the wrapped end is at issue here, so the splits come next
  rw [if_neg hlen, hadd, getSome_bind]
  refine Succeeds.bind_triple (ensurePartialMultiPageRangesSplit_serve hinv hmm hsound _ _)
    (fun _ => ?_) fun _ => ?_
  -- once a call was refused, the rest keeps it so
  · refine Keeps.bind (@getProcess_serves pid).stays fun task =>
      Keeps.bind (Keeps.ofExcept _) fun r => ?_
    exact Keeps.bind (@reprotect_serves pid _ _).stays fun _ => (@modifyMm_serves pid pid _).stays
  refine Triple.of_pre fun w₁ h₁ => ?_
  obtain ⟨hinv₁, mm₁, hsplit, hsound₁, ht⟩ := h₁
  refine Triple.bind (getProcess_known hsplit.mms) fun task => Triple.of_pre fun w₂ h₂ => ?_
  obtain ⟨rfl, rfl⟩ := h₂
  refine Triple.bind (R := fun ranges w => w = w₂ ∧ task.mm.state.protectRanges
    (pageRange (alignDown addr) (alignUp (addr + len))) = .ok ranges)
    (Triple.ofExcept (fun ranges w hr hw => ⟨hw, hr⟩) ?_) ?_
  -- a page without an entry is the one way to fail that is left
  · intro e w he hw _
    rw [hw]
    exact ⟨task.mm.state, hsplit, hsound₁, he⟩
  intro ranges
  refine Triple.of_pre fun w₃ h₃ => ?_
  obtain ⟨rfl, hranges⟩ := h₃
  have hlive : w₃.live pid = true := World.live_of_mms hsplit.mms
  have hend := Succeeds.bind (@reprotect_serves pid (protToPerms prot) ranges.entries) fun _ =>
    @modifyMm_serves pid pid (·.setFlags (protToPerms prot) ranges.keys
      (pageRange (alignDown addr) (alignUp (addr + len))))
  exact hend.good.imp (fun w hw => hw ▸ hlive) (fun _ _ _ _ => trivial)
    fun _ _ hbad hn => absurd hbad hn

end Call

/-! ### The result -/

/-- When no service refuses a call, `mprotect` does what it is for exactly if the range can be
rounded within the word, and, when the two tables cover it, `memory_maps` alone covers it and no
entry of another kind that sticks out of it has other permissions. -/
theorem mprotect_protects_iff {w : World} {pid addr len prot : Nat} {mm : MmState}
    (hinv : FrameInv w) (hmm : w.mms.get? pid = some mm) (hsound : mm.Sound)
    (hserved : ((doMprotect pid addr len prot).run w).2.refused = false) :
    w.Protects pid addr len prot mm ↔ mm.ProtectFits addr len (protToPerms prot) := by
  by_cases hlen : len = 0
  · -- no page
    subst hlen
    have hrun : (doMprotect pid addr 0 prot).run w = (.ok (), w) := rfl
    refine ⟨fun _ => ⟨.inl rfl, fun _ => ⟨fun p hp => (by cases hp), ?_⟩⟩, fun _ => ?_⟩
    · rintro k m - - ⟨p, hp, -⟩
      cases hp
    · rw [World.Protects, hrun]
      refine ⟨mm, hmm, fun _ => ⟨rfl, fun a l ha => (by cases ha), fun a _ => rfl⟩, ?_⟩
      intro hno
      exact absurd (fun p hp => (by cases hp)) hno
  have hnot : ¬ ((doMprotect pid addr len prot).run w).2.Marked := by
    rw [World.Marked, hserved]
    decide
  by_cases hfits : addr + len + (PGSIZE - 1) < usizeMod
  swap
  · -- the end wraps: the pages at the end of the word have no entry, and the call does not say so
    have hover := hsound.uncovered_end hlen (not_lt.mp hfits)
    refine ⟨?_, fun hfit => absurd hfit.1 (not_or.mpr ⟨hlen, hfits⟩)⟩
    intro hprot
    obtain ⟨mm', -, -, huncovered⟩ := hprot
    obtain ⟨herr, -⟩ := huncovered hover
    by_cases hlast : addr + len < usizeMod
    · have hmissing := ((doMprotect_error hinv hmm hsound hlen hlast w rfl).2 _ herr hnot).missing.2
      have hzero : alignUp (addr + len) = 0 := by
        simp only [alignUp, wAdd, PGSIZE, usizeMod] at hfits hlast ⊢
        omega
      rw [hzero, pageRange, Nat.zero_sub] at hmissing
      exact absurd (fun p hp => by cases hp) hmissing
    · have hadd : checkedAdd addr len = none := if_neg hlast
      have hrun : (doMprotect pid addr len prot).run w = (.error .outOfMemory, w) := by
        rw [doMprotect, if_neg hlen, hadd]
        rfl
      rw [hrun] at herr
      cases herr
  have hlast : addr + len < usizeMod := by omega
  cases hr : ((doMprotect pid addr len prot).run w).1 with
  | error e =>
    -- a page has no entry in `memory_maps`
    have hun := (doMprotect_error hinv hmm hsound hlen hlast w rfl).2 e hr hnot
    obtain ⟨he, hmissing⟩ := hun.missing
    rw [pageRange_alignUp hlen hfits] at hmissing
    obtain ⟨mm₁, hsplit, -, -⟩ := hun
    constructor
    · rintro ⟨mm', -, hcovered, -⟩
      refine ⟨.inr hfits, ?_⟩
      intro hall
      rw [hr] at hcovered
      cases (hcovered hall).1
    · intro hfit
      refine ⟨mm₁, hsplit.mms, fun hall => absurd (hfit.2 hall).1 hmissing, fun _ => ⟨?_, ?_⟩⟩
      · rw [hr, he]
      · exact fun a l => congrArg (Option.map PageRecord.flags) (hsplit.recordAt l a)
  | ok u =>
    obtain ⟨mm', hmm', hmapped, hinside, houtside⟩ :=
      ((doMprotect_view hinv hmm hsound hlen hlast w rfl).1 u hr).effect hlen hfits
    have hcovered : ∀ p ∈ protectedPages addr len, mm.Covered p :=
      fun p hp => ⟨.mapped, hmapped p hp⟩
    constructor
    · rintro ⟨mm'', hget, hprot, -⟩
      cases hmm'.symm.trans hget
      exact ⟨.inr hfits, fun _ => ⟨hmapped, houtside.mp (hprot hcovered).2.2⟩⟩
    · intro hfit
      refine ⟨mm', hmm', fun _ => ⟨hr, hinside, houtside.mpr (hfit.2 hcovered).2⟩, ?_⟩
      intro hno
      exact absurd hcovered hno

/-- `init` makes the second of its pages read-only. -/
theorem mprotect_protects_iff_sampleMapped :
    ∃ mm, sampleMapped.mms.get? 1 = some mm ∧ sampleMapped.Protects 1 0x20001000 PGSIZE 1 mm := by
  obtain ⟨mm, hmm, hsound⟩ := @World.sound_of_check sampleMapped 1 (by decide +kernel)
  have hpages : protectedPages 0x20001000 PGSIZE = [0x20001000] := by decide +kernel
  have hentry : (sampleMapped.mms.get? 1).bind (fun mm =>
      (mm.lookupMemoryMap 0x20001000).map (·.memType)) = some .anonymous := by decide +kernel
  rw [hmm, Option.bind_some] at hentry
  obtain ⟨m, hm, hty⟩ := Option.map_eq_some_iff.mp hentry
  refine ⟨mm, hmm, (mprotect_protects_iff sampleMapped_reachable.frameInv hmm hsound
    (by decide +kernel)).mpr ⟨.inr (by decide), fun _ => ⟨fun p hp => ?_, ?_⟩⟩⟩
  · rw [hpages, List.mem_singleton] at hp
    rw [hp, ← MmState.lookup_isSome, hm]
    rfl
  · -- the only entry on the page is one of an `mmap`
    rintro k m' hk hno ⟨p, hp, hin⟩ -
    rw [hpages, List.mem_singleton] at hp
    subst hp
    cases hm.symm.trans ((hsound.lookups _ m').1.mpr ⟨k, hk, hin⟩)
    rw [hty] at hno
    cases hno

/-- `init` maps a page of a file, which is not read yet, and makes it read-only: the page has an
entry, and the call fails with `InvalidAddress`. -/
theorem mprotect_refuses_lazy_page :
    ∃ mm, sampleLazy.mms.get? 1 = some mm ∧ mm.Sound ∧ FrameInv sampleLazy ∧
      (∀ p ∈ protectedPages 0x20000000 PGSIZE, mm.Covered p) ∧
      ((doMprotect 1 0x20000000 PGSIZE 1).run sampleLazy).2.refused = false ∧
      ((doMprotect 1 0x20000000 PGSIZE 1).run sampleLazy).1 = .error .invalidAddress ∧
      ¬ sampleLazy.Protects 1 0x20000000 PGSIZE 1 mm := by
  obtain ⟨mm, hmm, hsound⟩ := @World.sound_of_check sampleLazy 1 (by decide +kernel)
  have hpages : protectedPages 0x20000000 PGSIZE = [0x20000000] := by decide +kernel
  have hentry : (sampleLazy.mms.get? 1).map (fun mm =>
      (mm.recordAt .lazily 0x20000000).isSome) = some true := by decide +kernel
  rw [hmm] at hentry
  have hcovered : ∀ p ∈ protectedPages 0x20000000 PGSIZE, mm.Covered p := by
    intro p hp
    rw [hpages, List.mem_singleton] at hp
    rw [hp]
    exact ⟨.lazily, Option.some.inj hentry⟩
  have hrun : ((doMprotect 1 0x20000000 PGSIZE 1).run sampleLazy).1 = .error .invalidAddress := by
    decide +kernel
  refine ⟨mm, hmm, hsound, sampleLazy_reachable.frameInv, hcovered, by decide +kernel, hrun, ?_⟩
  rintro ⟨mm', -, hprot, -⟩
  have hok := (hprot hcovered).1
  rw [hrun] at hok
  cases hok

end Ape
