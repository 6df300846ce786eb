import Ape.Lib.Spans
import Ape.Proofs.MemViews

/-!
# `Ape.Proofs.Tables`: the shape of the two tables of an address space

`memory_maps` and `lazy_memory_maps` are two families of address ranges. `TableInv` says what
the lookups rely on: an entry is filed under its address, it is made of whole pages, the ranges
of both tables are apart, and none of them is in the part of the stack reservation that has
not grown yet.

`Sound` adds what the calls need to keep this: an entry of `memory_maps` has a frame, an entry
ends inside the word, and the regions of the address space are page-aligned.

An edit of the tables is one of two kinds. It keeps the ranges or drops some of them, or it
adds a range that is free.
-/

set_option autoImplicit false

namespace Ape

open Ape.Lib Cmd

/-- A sum of page boundaries is one, also when it wraps around. -/
theorem wAdd_page {a b : Nat} (ha : a % PGSIZE = 0) (hb : b % PGSIZE = 0) :
    wAdd a b % PGSIZE = 0 := by
  unfold wAdd usizeMod PGSIZE at *
  omega

/-! ### The invariant -/

/-- The two tables of an address space. -/
inductive TableKind where
  | mapped | lazily
  deriving DecidableEq

namespace MmState

/-- The table of a kind. -/
def table (mm : MmState) : TableKind → OrdMap Nat MemoryMap
  | .mapped => mm.memoryMaps
  | .lazily => mm.lazyMemoryMaps

end MmState

/-- The addresses of an entry. -/
def MemoryMap.span (m : MemoryMap) : Span := ⟨m.vaddr, m.size⟩

namespace MmState

/-- The ranges of both tables, by table and key. -/
def spans (mm : MmState) (i : TableKind × Nat) : Option Span :=
  ((mm.table i.1).get? i.2).map MemoryMap.span

/-- The address is in the part of the stack reservation that has not grown yet. -/
def Reserved (mm : MmState) (x : Nat) : Prop :=
  mm.stackBottom - mm.maxStackSize ≤ x ∧ x < mm.stackBottom - mm.stackSize

/-- The invariant of the two tables. -/
structure TableInv (mm : MmState) : Prop where
  key : ∀ l k m, (mm.table l).get? k = some m → m.vaddr = k
  paged : ∀ l k m, (mm.table l).get? k = some m → m.span.Paged PGSIZE
  lazyPage : ∀ k m, mm.lazyMemoryMaps.get? k = some m → m.size = PGSIZE
  apart : Apart mm.spans
  unreserved : ∀ l k m x, (mm.table l).get? k = some m → m.span.Has x → ¬ mm.Reserved x

/-- The regions as `execve` sets them. -/
structure Regions (mm : MmState) : Prop where
  heapStart : mm.heapStart % PGSIZE = 0
  stackBottom : mm.stackBottom % PGSIZE = 0
  stackSize : mm.stackSize % PGSIZE = 0
  maxStackSize : mm.maxStackSize % PGSIZE = 0
  grown : mm.stackSize ≤ mm.maxStackSize
  fits : mm.maxStackSize ≤ mm.stackBottom

/-- The invariant of the tables with what the calls need to keep it. -/
structure Sound (mm : MmState) : Prop extends mm.TableInv, mm.Regions where
  frame : ∀ k m, mm.memoryMaps.get? k = some m → m.frameCap ≠ 0
  below : ∀ l k m, (mm.table l).get? k = some m → m.vaddr + m.size < usizeMod
  stackBelow : mm.stackBottom < usizeMod
  heapLimit : mm.heapLimit % PGSIZE = 0
  heapBelow : mm.heapLimit < usizeMod
  heapBrk : mm.heapBrk ≤ mm.heapLimit
  mmapBase : mm.mmapBase % PGSIZE = 0
  mmapNext : mm.mmapNext % PGSIZE = 0

/-- A range that an entry may be put at. -/
structure Free (mm : MmState) (v n : Nat) : Prop where
  clear : Clear mm.spans v n
  unreserved : ∀ x, v ≤ x → x < v + n → ¬ mm.Reserved x

/-- An interval of a table is that of an entry. -/
theorem get_table_of_spans {mm : MmState} {i : TableKind × Nat} {s : Span}
    (h : mm.spans i = some s) : ∃ m, (mm.table i.1).get? i.2 = some m ∧ m.span = s :=
  Option.map_eq_some_iff.mp h

/-! ### The lookups -/

section Lookups

variable {mm : MmState}

/-- A lookup in a table finds an entry exactly when an entry has the address. -/
theorem Sound.entryAt_iff (h : mm.Sound) (l : TableKind) {a : Nat} {m : MemoryMap} :
    entryAt (mm.table l) a = some m ↔ ∃ k, (mm.table l).get? k = some m ∧ m.Contains a := by
  have hend : ∀ k m, (mm.table l).get? k = some m → wAdd m.vaddr m.size = m.vaddr + m.size :=
    fun k m hk => Nat.mod_eq_of_lt (h.below l k m hk)
  -- the entry at the floor of the address, when it reaches that far
  constructor
  · intro hfind
    unfold entryAt at hfind
    split at hfind
    · rename_i k v hfloor
      obtain ⟨hk, hle, -⟩ := OrdMap.floor?_eq_some.mp hfloor
      split at hfind
      · rename_i hlt
        cases hfind
        rw [hend k m hk] at hlt
        exact ⟨k, hk, by rw [h.key l k m hk]; exact hle, hlt⟩
      · cases hfind
    · cases hfind
  -- an entry with the address is the one at its floor, as the entries are apart
  · rintro ⟨k, hk, hin⟩
    have hkey : ∀ k m, (mm.table l).get? k = some m → m.span.start = k ∧ 0 < m.span.len :=
      fun k m hk => ⟨h.key l k m hk, (h.paged l k m hk).2.2⟩
    have hapart : Apart fun k => ((mm.table l).get? k).map MemoryMap.span :=
      fun i j s t x hs ht hxs hxt => congrArg Prod.snd (h.apart (l, i) (l, j) s t x hs ht hxs hxt)
    have hfloor := OrdMap.floor?_of_has hkey hapart hk hin
    unfold entryAt
    rw [hfloor]
    dsimp only
    rw [hend k m hk, if_pos hin.2]

/-- The two lookups of the source. -/
theorem Sound.lookups (h : mm.Sound) (a : Nat) (m : MemoryMap) :
    (mm.lookupMemoryMap a = some m ↔ ∃ k, mm.memoryMaps.get? k = some m ∧ m.Contains a) ∧
    (mm.lookupLazyMemoryMap a = some m ↔ ∃ k, mm.lazyMemoryMaps.get? k = some m ∧ m.Contains a) :=
  ⟨h.entryAt_iff .mapped, h.entryAt_iff .lazily⟩

/-- A lookup that misses: no entry of the table has an address of the page. -/
theorem Sound.miss (h : mm.Sound) {l : TableKind} {a : Nat} (hmiss : entryAt (mm.table l) a = none)
    {k : Nat} {m : MemoryMap} (hk : (mm.table l).get? k = some m) : ¬ m.span.Has a := by
  intro hin
  rw [(h.entryAt_iff l).mpr ⟨k, hk, hin⟩] at hmiss
  cases hmiss

end Lookups

/-! ### Edits -/

/-- Add an entry to a table. -/
def addTo (mm : MmState) : TableKind → MemoryMap → MmState
  | .mapped, m => mm.addMemoryMap m
  | .lazily, m => mm.addLazyMemoryMap m

/-- An entry that a table may hold. -/
structure Entry (l : TableKind) (m : MemoryMap) : Prop where
  paged : m.span.Paged PGSIZE
  lazyPage : l = .lazily → m.size = PGSIZE
  frame : l = .mapped → m.frameCap ≠ 0
  below : m.vaddr + m.size < usizeMod

section Edits

variable {mm : MmState} {l : TableKind} {m : MemoryMap}

/-- What a lookup finds after an entry was added to a table. -/
theorem get?_addTo (mm : MmState) (l l' : TableKind) (m : MemoryMap) (k : Nat) :
    ((mm.addTo l m).table l').get? k =
      if l' = l ∧ k = m.vaddr then some m else (mm.table l').get? k := by
  cases l <;> cases l' <;> simp [addTo, table, addMemoryMap, addLazyMemoryMap, OrdMap.get?_insert]

/-- An entry that is added adds its interval. -/
theorem spans_addTo (mm : MmState) (l : TableKind) (m : MemoryMap) :
    (mm.addTo l m).spans = Function.update mm.spans (l, m.vaddr) (some m.span) := by
  funext ⟨l', k⟩
  rw [spans, get?_addTo]
  by_cases heq : l' = l ∧ k = m.vaddr
  · rw [if_pos heq, heq.1, heq.2, Function.update_self]
    rfl
  · rw [if_neg heq, Function.update_of_ne fun h => heq (Prod.ext_iff.mp h)]
    rfl

/-- An entry that is added leaves the ungrown part of the stack as it is. -/
theorem reserved_addTo (mm : MmState) (l : TableKind) (m : MemoryMap) (x : Nat) :
    (mm.addTo l m).Reserved x ↔ mm.Reserved x := by
  cases l <;> exact Iff.rfl

/-- An entry in a free range keeps the tables sound. -/
theorem Sound.addTo (h : mm.Sound) (hm : Entry l m) (hfree : mm.Free m.vaddr m.size) :
    (mm.addTo l m).Sound := by
  -- the entry is the new one, or an old one
  have hcases : ∀ l' k m', ((mm.addTo l m).table l').get? k = some m' →
      (l' = l ∧ k = m.vaddr ∧ m' = m) ∨ (mm.table l').get? k = some m' := by
    intro l' k m' hk
    rw [get?_addTo] at hk
    split at hk
    · rename_i heq
      exact .inl ⟨heq.1, heq.2, (Option.some.inj hk).symm⟩
    · exact .inr hk
  have hregions : (mm.addTo l m).Regions := by
    cases l <;> exact ⟨h.heapStart, h.stackBottom, h.stackSize, h.maxStackSize, h.grown, h.fits⟩
  refine
    { toRegions := hregions
      key := fun l' k m' hk => ?_
      paged := fun l' k m' hk => ?_
      lazyPage := fun k m' hk => ?_
      apart := ?_
      unreserved := fun l' k m' x hk hx hr => ?_
      frame := fun k m' hk => ?_
      below := fun l' k m' hk => ?_
      stackBelow := by cases l <;> exact h.stackBelow
      heapLimit := by cases l <;> exact h.heapLimit
      heapBelow := by cases l <;> exact h.heapBelow
      heapBrk := by cases l <;> exact h.heapBrk
      mmapBase := by cases l <;> exact h.mmapBase
      mmapNext := by cases l <;> exact h.mmapNext }
  -- each field for the new entry and for the old ones
  · rcases hcases l' k m' hk with ⟨-, rfl, rfl⟩ | hk
    · rfl
    · exact h.key l' k m' hk
  · rcases hcases l' k m' hk with ⟨-, -, rfl⟩ | hk
    · exact hm.paged
    · exact h.paged l' k m' hk
  · rcases hcases .lazily k m' hk with ⟨hl, -, rfl⟩ | hk
    · exact hm.lazyPage hl.symm
    · exact h.lazyPage k m' hk
  · rw [spans_addTo]
    exact h.apart.insert hfree.clear
  · rw [reserved_addTo] at hr
    rcases hcases l' k m' hk with ⟨-, -, rfl⟩ | hk
    · exact hfree.unreserved x hx.1 hx.2 hr
    · exact h.unreserved l' k m' x hk hx hr
  · rcases hcases .mapped k m' hk with ⟨hl, -, rfl⟩ | hk
    · exact hm.frame hl.symm
    · exact h.frame k m' hk
  · rcases hcases l' k m' hk with ⟨-, -, rfl⟩ | hk
    · exact hm.below
    · exact h.below l' k m' hk

/-- What is free stays free when an entry beside it is added. -/
theorem Free.addTo {v n : Nat} (h : mm.Free v n) (l : TableKind)
    (hbeside : m.vaddr + m.size ≤ v ∨ v + n ≤ m.vaddr) : (mm.addTo l m).Free v n where
  clear := by
    rw [spans_addTo]
    exact h.clear.insert hbeside
  unreserved x hlo hhi hr := h.unreserved x hlo hhi ((reserved_addTo mm l m x).mp hr)

/-- A part of free addresses is free. -/
theorem Free.sub {v n v' n' : Nat} (h : mm.Free v n) (hlo : v ≤ v') (hhi : v' + n' ≤ v + n) :
    mm.Free v' n' where
  clear := h.clear.sub hlo hhi
  unreserved x hx hx' := h.unreserved x (hlo.trans hx) (hx'.trans_le hhi)

/-- `mm'` has the regions of `mm`, and of its entries no more ranges than `mm`. -/
structure Within (mm' mm : MmState) : Prop where
  entry : ∀ l k m', (mm'.table l).get? k = some m' →
    ∃ m, (mm.table l).get? k = some m ∧ m'.span = m.span ∧ (m.frameCap ≠ 0 → m'.frameCap ≠ 0)
  regions : ∃ A B, mm' = { mm with memoryMaps := A, lazyMemoryMaps := B }

/-- Tables have no more in them than themselves. -/
theorem Within.refl (mm : MmState) : Within mm mm :=
  ⟨fun _ _ m hm => ⟨m, hm, rfl, id⟩, _, _, rfl⟩

/-- To have no more entries is transitive. -/
theorem Within.trans {mm mm' mm'' : MmState} (h : Within mm'' mm') (h' : Within mm' mm) :
    Within mm'' mm := by
  constructor
  · intro l k m'' hm''
    obtain ⟨m', hm', hspan, hframe⟩ := h.entry l k m'' hm''
    obtain ⟨m, hm, hspan', hframe'⟩ := h'.entry l k m' hm'
    exact ⟨m, hm, hspan.trans hspan', fun hne => hframe (hframe' hne)⟩
  · obtain ⟨A, B, rfl⟩ := h'.regions
    obtain ⟨A', B', rfl⟩ := h.regions
    exact ⟨A', B', rfl⟩

/-- The intervals of fewer entries are among the intervals. -/
theorem Within.spans {mm' : MmState} (h : Within mm' mm) (i : TableKind × Nat) (s : Span)
    (hs : mm'.spans i = some s) : mm.spans i = some s := by
  obtain ⟨m', hm', rfl⟩ := get_table_of_spans hs
  obtain ⟨m, hm, hspan, -⟩ := h.entry i.1 i.2 m' hm'
  rw [MmState.spans, hm, hspan]
  rfl

/-- Tables with fewer entries have the same ungrown stack. -/
theorem Within.reserved {mm' : MmState} (h : Within mm' mm) (x : Nat) :
    mm'.Reserved x ↔ mm.Reserved x := by
  obtain ⟨A, B, rfl⟩ := h.regions
  exact Iff.rfl

/-- Fewer ranges are sound when more are. -/
theorem Sound.within {mm' : MmState} (h : mm.Sound) (hw : Within mm' mm) : mm'.Sound := by
  -- an entry keeps its place when its flags change
  have hvaddr : ∀ {m m' : MemoryMap}, m'.span = m.span → m'.vaddr = m.vaddr ∧ m'.size = m.size :=
    fun heq => ⟨congrArg Span.start heq, congrArg Span.len heq⟩
  have hreserved := hw.reserved
  have hspans := hw.spans
  obtain ⟨hentry, A, B, rfl⟩ := hw
  refine
    { toRegions := ⟨h.heapStart, h.stackBottom, h.stackSize, h.maxStackSize, h.grown, h.fits⟩
      key := fun l k m' hk => ?_
      paged := fun l k m' hk => ?_
      lazyPage := fun k m' hk => ?_
      apart := h.apart.mono hspans
      unreserved := fun l k m' x hk hx hr => ?_
      frame := fun k m' hk => ?_
      below := fun l k m' hk => ?_
      stackBelow := h.stackBelow
      heapLimit := h.heapLimit
      heapBelow := h.heapBelow
      heapBrk := h.heapBrk
      mmapBase := h.mmapBase
      mmapNext := h.mmapNext }
  · obtain ⟨m, hm, hspan, -⟩ := hentry l k m' hk
    exact (hvaddr hspan).1.trans (h.key l k m hm)
  · obtain ⟨m, hm, hspan, -⟩ := hentry l k m' hk
    rw [hspan]
    exact h.paged l k m hm
  · obtain ⟨m, hm, hspan, -⟩ := hentry .lazily k m' hk
    exact (hvaddr hspan).2.trans (h.lazyPage k m hm)
  · obtain ⟨m, hm, hspan, -⟩ := hentry l k m' hk
    exact h.unreserved l k m x hm (hspan ▸ hx) ((hreserved x).mp hr)
  · obtain ⟨m, hm, -, hframe⟩ := hentry .mapped k m' hk
    exact hframe (h.frame k m hm)
  · obtain ⟨m, hm, hspan, -⟩ := hentry l k m' hk
    rw [(hvaddr hspan).1, (hvaddr hspan).2]
    exact h.below l k m hm

/-- Addresses that are free stay free when entries go. -/
theorem Free.within {mm' : MmState} {v n : Nat} (h : mm.Free v n) (hw : Within mm' mm) :
    mm'.Free v n where
  clear := h.clear.mono hw.spans
  unreserved x hlo hhi hr := h.unreserved x hlo hhi ((hw.reserved x).mp hr)

/-- Entries one after the other in free ranges. -/
theorem Sound.foldl_addTo (es : List (TableKind × MemoryMap)) :
    ∀ {mm : MmState}, mm.Sound → (∀ e ∈ es, Entry e.1 e.2 ∧ mm.Free e.2.vaddr e.2.size) →
      (es.Pairwise fun e e' => e.2.vaddr + e.2.size ≤ e'.2.vaddr) →
      (es.foldl (fun mm e => mm.addTo e.1 e.2) mm).Sound := by
  induction es with
  | nil => exact fun h _ _ => h
  | cons e rest ih =>
    intro mm h hes hpair
    obtain ⟨hfirst, hrest⟩ := List.pairwise_cons.mp hpair
    obtain ⟨hentry, hfree⟩ := hes e (List.mem_cons_self ..)
    refine ih (h.addTo hentry hfree) (fun e' he' => ?_) hrest
    obtain ⟨hentry', hfree'⟩ := hes e' (List.mem_cons_of_mem _ he')
    exact ⟨hentry', hfree'.addTo e.1 (.inl (hfirst e' he'))⟩

/-- A page with a frame. -/
theorem Entry.page {v slot : Nat} (hv : v % PGSIZE = 0) (hslot : slot ≠ 0)
    (hlt : v + PGSIZE < usizeMod) (flags : Perms) (ty : MemoryType) :
    Entry .mapped (pageEntry v flags ty slot) :=
  ⟨⟨hv, by simp [MemoryMap.span, pageEntry], by simp [MemoryMap.span, pageEntry, PGSIZE]⟩,
    fun h => (by cases h), fun _ => hslot, hlt⟩

/-- A lazy page. -/
theorem Entry.lazy {v : Nat} (hv : v % PGSIZE = 0) (hlt : v + PGSIZE < usizeMod) (flags : Perms)
    (ty : MemoryType) (fd : Option Nat) (offset : Nat) :
    Entry .lazily (lazyEntry v flags ty fd offset) :=
  ⟨⟨hv, by simp [MemoryMap.span, lazyEntry], by simp [MemoryMap.span, lazyEntry, PGSIZE]⟩,
    fun _ => rfl, fun h => (by cases h), hlt⟩

/-! ### Edits that keep or drop ranges -/

/-- The removal of a mapping leaves no more than there was. -/
theorem within_remove (mm : MmState) (k : Nat) : Within (mm.removeMemoryMap k) mm := by
  refine ⟨fun l j m hj => ?_, _, _, rfl⟩
  cases l with
  | mapped =>
    have hget : (mm.memoryMaps.erase k).get? j = some m := hj
    rw [OrdMap.get?_erase] at hget
    split at hget
    · cases hget
    · exact ⟨m, hget, rfl, id⟩
  | lazily => exact ⟨m, hj, rfl, id⟩

/-- The removal of a lazy mapping leaves no more than there was. -/
theorem within_removeLazy (mm : MmState) (k : Nat) : Within (mm.removeLazyMemoryMap k) mm := by
  refine ⟨fun l j m hj => ?_, _, _, rfl⟩
  cases l with
  | mapped => exact ⟨m, hj, rfl, id⟩
  | lazily =>
    have hget : (mm.lazyMemoryMaps.erase k).get? j = some m := hj
    rw [OrdMap.get?_erase] at hget
    split at hget
    · cases hget
    · exact ⟨m, hget, rfl, id⟩

/-- A change of entries that keeps their ranges. -/
theorem within_modify (mm : MmState) (k : Nat) {f : MemoryMap → MemoryMap}
    (hf : ∀ m, (f m).span = m.span ∧ (m.frameCap ≠ 0 → (f m).frameCap ≠ 0)) :
    Within { mm with memoryMaps := mm.memoryMaps.modify k f } mm := by
  refine ⟨fun l j m hj => ?_, _, _, rfl⟩
  cases l with
  | mapped =>
    have hget : (mm.memoryMaps.modify k f).get? j = some m := hj
    rw [OrdMap.get?_modify] at hget
    split at hget
    · obtain ⟨m₀, hm₀, rfl⟩ := Option.map_eq_some_iff.mp hget
      exact ⟨m₀, hm₀, (hf m₀).1, (hf m₀).2⟩
    · exact ⟨m, hget, rfl, id⟩
  | lazily => exact ⟨m, hj, rfl, id⟩

/-- A lazy entry that keeps its interval adds nothing. -/
theorem within_modifyLazy (mm : MmState) (k : Nat) {f : MemoryMap → MemoryMap}
    (hf : ∀ m, (f m).span = m.span ∧ (m.frameCap ≠ 0 → (f m).frameCap ≠ 0)) :
    Within { mm with lazyMemoryMaps := mm.lazyMemoryMaps.modify k f } mm := by
  refine ⟨fun l j m hj => ?_, _, _, rfl⟩
  cases l with
  | mapped => exact ⟨m, hj, rfl, id⟩
  | lazily =>
    have hget : (mm.lazyMemoryMaps.modify k f).get? j = some m := hj
    rw [OrdMap.get?_modify] at hget
    split at hget
    · obtain ⟨m₀, hm₀, rfl⟩ := Option.map_eq_some_iff.mp hget
      exact ⟨m₀, hm₀, (hf m₀).1, (hf m₀).2⟩
    · exact ⟨m, hget, rfl, id⟩

/-- A loop of such edits. -/
theorem within_foldl {β : Type} {f : MmState → β → MmState} (hf : ∀ mm b, Within (f mm b) mm)
    (bs : List β) (mm : MmState) : Within (bs.foldl f mm) mm := by
  induction bs generalizing mm with
  | nil => exact Within.refl mm
  | cons b rest ih => exact (ih (f mm b)).trans (hf mm b)

/-- The removal of a range leaves no more than there was. -/
theorem within_removeRanges (mm : MmState) (pages : List Nat) (ranges : OrdMap Nat (Nat × Nat)) :
    Within (mm.removeRanges pages ranges) mm :=
  (within_foldl within_remove _ _).trans (within_foldl within_removeLazy _ _)

/-- The new permissions of `mprotect` leave the ranges alone. -/
theorem within_setFlags (mm : MmState) (perms : Perms) (vaddrs pages : List Nat) :
    Within (mm.setFlags perms vaddrs pages) mm := by
  -- first the entries with a frame, then the lazy ones
  have hmaps : ∀ (vs : List Nat) (mm : MmState), Within { mm with
      memoryMaps := vs.foldl (fun maps v => maps.modify v fun m => { m with flags := perms })
        mm.memoryMaps } mm := by
    intro vs
    induction vs with
    | nil => exact fun mm => Within.refl mm
    | cons v rest ih =>
      intro mm
      exact (ih _).trans (within_modify (f := fun m => { m with flags := perms }) mm v
        fun _ => ⟨rfl, id⟩)
  have hlazy : ∀ (ps : List Nat) (mm : MmState), Within { mm with
      lazyMemoryMaps := ps.foldl (fun maps p => maps.modify p fun m => { m with flags := perms })
        mm.lazyMemoryMaps } mm := by
    intro ps
    induction ps with
    | nil => exact fun mm => Within.refl mm
    | cons p rest ih =>
      intro mm
      exact (ih _).trans (within_modifyLazy (f := fun m => { m with flags := perms }) mm p
        fun _ => ⟨rfl, id⟩)
  exact (hlazy pages _).trans (hmaps vaddrs mm)

end Edits

/-! ### Free ranges -/

section FreeRanges

variable {mm : MmState}

/-- In sound tables the intervals are made of whole pages. -/
theorem Sound.spans_paged (h : mm.Sound) (i : TableKind × Nat) (s : Span)
    (hs : mm.spans i = some s) : s.Paged PGSIZE := by
  obtain ⟨m, hm, rfl⟩ := get_table_of_spans hs
  exact h.paged i.1 i.2 m hm

/-- The bounds of the reservation are page boundaries. -/
theorem Sound.reserved_page (h : mm.Sound) {x y : Nat} (hxy : x / PGSIZE = y / PGSIZE)
    (hx : mm.Reserved x) : mm.Reserved y := by
  have hlow : (mm.stackBottom - mm.maxStackSize) % PGSIZE = 0 :=
    (Nat.mod_eq_zero_of_dvd (Nat.dvd_sub (Nat.dvd_of_mod_eq_zero h.stackBottom)
      (Nat.dvd_of_mod_eq_zero h.maxStackSize)))
  have hgrown : (mm.stackBottom - mm.stackSize) % PGSIZE = 0 :=
    (Nat.mod_eq_zero_of_dvd (Nat.dvd_sub (Nat.dvd_of_mod_eq_zero h.stackBottom)
      (Nat.dvd_of_mod_eq_zero h.stackSize)))
  refine ⟨Span.le_of_page hlow hxy hx.1, ?_⟩
  by_contra hge
  exact absurd (Span.le_of_page hgrown hxy.symm (not_lt.mp hge)) (not_le.mpr hx.2)

/-- The page of an address that both lookups miss. -/
theorem Sound.free_page (h : mm.Sound) {a : Nat} (hmap : mm.lookupMemoryMap a = none)
    (hlazy : mm.lookupLazyMemoryMap a = none) (hr : ¬ mm.Reserved a) :
    mm.Free (alignDown a) PGSIZE where
  clear := by
    refine Clear.of_page h.spans_paged (by decide) fun i s hs => ?_
    obtain ⟨m, hm, rfl⟩ := get_table_of_spans hs
    obtain ⟨l, k⟩ := i
    cases l with
    | mapped => exact h.miss (l := .mapped) hmap hm
    | lazily => exact h.miss (l := .lazily) hlazy hm
  unreserved x hlo hhi hx := hr (h.reserved_page (div_eq_of_page (by decide) hlo hhi) hx)

/-- The range of dropped entries. -/
theorem Sound.free_dropped {mm' : MmState} (h : mm.Sound) (hw : Within mm' mm) {v n : Nat}
    (hdrop : ∀ x, v ≤ x → x < v + n → ∃ l k m, (mm.table l).get? k = some m ∧ m.span.Has x ∧
      (mm'.table l).get? k = none) : mm'.Free v n where
  clear := by
    refine Clear.of_dropped h.apart hw.spans fun x hlo hhi => ?_
    obtain ⟨l, k, m, hm, hx, hnone⟩ := hdrop x hlo hhi
    exact ⟨(l, k), m.span, by rw [spans, hm]; rfl, hx, by rw [spans, hnone]; rfl⟩
  unreserved x hlo hhi hr := by
    obtain ⟨l, k, m, hm, hx, -⟩ := hdrop x hlo hhi
    exact h.unreserved l k m x hm hx ((hw.reserved x).mp hr)

/-- The lazy page that a lookup finds is the page of the address. -/
theorem Sound.lazy_page (h : mm.Sound) {a : Nat} {m : MemoryMap}
    (hm : mm.lookupLazyMemoryMap a = some m) :
    mm.lazyMemoryMaps.get? (alignDown a) = some m ∧ m.vaddr = alignDown a ∧ m.size = PGSIZE := by
  obtain ⟨k, hk, hlo, hhi⟩ := (h.lookups a m).2.mp hm
  have hkey : m.vaddr = k := h.key .lazily k m hk
  have hsize := h.lazyPage k m hk
  have hpage : k % PGSIZE = 0 := by
    have := (h.paged .lazily k m hk).1
    rwa [MemoryMap.span, hkey] at this
  have heq : k = alignDown a := by
    unfold alignDown PGSIZE at *
    omega
  exact ⟨heq ▸ hk, hkey.trans heq, hsize⟩

/-- A saturating sum that fits is the sum. -/
theorem satAdd_eq {a b : Nat} (h : a + b < usizeMod) : satAdd a b = a + b := by
  unfold satAdd usizeMax
  omega

/-- An entry that does not overlap a range has no address of it. -/
theorem not_has_of_overlap {start stop x : Nat} {m : MemoryMap} (hend : m.vaddr + m.size < usizeMod)
    (h : hasOverlap start stop m.vaddr m.size = false) (hlo : start ≤ x) (hhi : x < stop) :
    ¬ m.span.Has x := by
  rintro ⟨hx, hx'⟩
  rw [hasOverlap, satAdd_eq hend] at h
  simp only [Bool.and_eq_false_iff, decide_eq_false_iff_not, not_lt] at h
  simp only [MemoryMap.span] at hx hx'
  omega

/-- The fixed regions are checked against the whole reservation of the stack. -/
theorem Sound.not_reserved (h : mm.Sound) {start stop x : Nat}
    (hout : mm.outsideFixedRegions start stop = true) (hlo : start ≤ x) (hhi : x < stop) :
    ¬ mm.Reserved x := by
  rintro ⟨hx, hx'⟩
  unfold outsideFixedRegions stackLow at hout
  have hfits := h.fits
  have hbelow := h.stackBelow
  have hsat : satAdd (mm.stackBottom - mm.maxStackSize) mm.maxStackSize = mm.stackBottom := by
    rw [satAdd_eq (by omega)]
    omega
  rw [Bool.and_eq_true] at hout
  have hstack := hout.2
  simp only [hasOverlap, hsat, Bool.not_eq_true', Bool.and_eq_false_iff, decide_eq_false_iff_not,
    not_lt] at hstack
  omega

/-- `range_is_free`. -/
theorem Sound.free_range (h : mm.Sound) {start stop : Nat}
    (hfree : mm.rangeIsFree start stop = true) :
    start < stop ∧ mm.Free start (stop - start) := by
  unfold rangeIsFree at hfree
  simp only [Bool.and_eq_true, Bool.not_eq_true', Bool.or_eq_false_iff, decide_eq_false_iff_not,
    not_le, not_lt, List.all_eq_true] at hfree
  obtain ⟨⟨⟨⟨-, hlt⟩, hout⟩, hmaps⟩, hlazy⟩ := hfree
  refine ⟨hlt, ?_, fun x hlo hhi => h.not_reserved hout hlo (by omega)⟩
  rintro ⟨l, k⟩ s x hs hlo hhi
  obtain ⟨m, hm, rfl⟩ := get_table_of_spans hs
  have hover : hasOverlap start stop m.vaddr m.size = false := by
    cases l with
    | mapped => exact hmaps m (OrdMap.mem_values.mpr ⟨k, hm⟩)
    | lazily => exact hlazy m (OrdMap.mem_values.mpr ⟨k, hm⟩)
  exact not_has_of_overlap (h.below l k m hm) hover hlo (by omega)

/-- `range_is_free_excluding`: past the excepted range there is nothing. -/
theorem Sound.free_past (h : mm.Sound) {start stop mid : Nat} (hmid : start ≤ mid)
    (hfree : mm.rangeIsFreeExcluding start stop start mid = true) : mm.Free mid (stop - mid) := by
  unfold rangeIsFreeExcluding at hfree
  simp only [Bool.and_eq_true, List.all_eq_true] at hfree
  obtain ⟨⟨⟨-, hout⟩, hmaps⟩, hlazy⟩ := hfree
  refine ⟨?_, fun x hlo hhi => h.not_reserved hout (hmid.trans hlo) (by omega)⟩
  rintro ⟨l, k⟩ s x hs hlo hhi hx
  obtain ⟨m, hm, rfl⟩ := get_table_of_spans hs
  have hclear : clearOrExcepted start stop start mid m = true := by
    -- the entry is clear of the range, or it ends below `mid`
    cases l with
    | mapped => exact hmaps m (OrdMap.mem_values.mpr ⟨k, hm⟩)
    | lazily => exact hlazy m (OrdMap.mem_values.mpr ⟨k, hm⟩)
  have hend := h.below l k m hm
  unfold clearOrExcepted at hclear
  rw [Bool.or_eq_true, Bool.and_eq_true, decide_eq_true_eq, decide_eq_true_eq, satAdd_eq hend]
    at hclear
  rcases hclear with hno | ⟨-, hle⟩
  · exact not_has_of_overlap hend (by simpa using hno) (hmid.trans hlo) (by omega) hx
  · have hx' := hx.2
    simp only [MemoryMap.span] at hx'
    omega

end FreeRanges

/-! ### Pages one after the other -/

/-- Pages that entries may be put at, in order. -/
structure RoomFor (mm : MmState) (pages : List Nat) : Prop where
  ordered : pages.Pairwise fun p q => p + PGSIZE ≤ q
  free : ∀ p ∈ pages, p % PGSIZE = 0 ∧ p + PGSIZE < usizeMod ∧ mm.Free p PGSIZE

/-- The pages of a range, by their number. -/
theorem mem_pageRange {start stop page : Nat} :
    page ∈ pageRange start stop ↔
      ∃ i, i < (stop - start + (PGSIZE - 1)) / PGSIZE ∧ page = start + i * PGSIZE := by
  simp [pageRange, eq_comm]

/-- The pages of a range of whole pages are inside it. -/
theorem pageRange_le {start n page : Nat} (hn : n % PGSIZE = 0)
    (h : page ∈ pageRange start (start + n)) :
    start ≤ page ∧ page + PGSIZE ≤ start + n ∧ (start % PGSIZE = 0 → page % PGSIZE = 0) := by
  obtain ⟨i, hi, rfl⟩ := mem_pageRange.mp h
  unfold PGSIZE at *
  omega

/-- A page boundary inside a range is one of its pages. -/
theorem mem_pageRange_of_le {start stop page : Nat} (hs : start % PGSIZE = 0)
    (hp : page % PGSIZE = 0) (hlo : start ≤ page) (hhi : page < stop) :
    page ∈ pageRange start stop := by
  refine mem_pageRange.mpr ⟨(page - start) / PGSIZE, ?_, ?_⟩ <;> unfold PGSIZE at * <;> omega

/-- The pages of a range come in order and do not overlap. -/
theorem pageRange_ordered (start stop : Nat) :
    (pageRange start stop).Pairwise fun p q => p + PGSIZE ≤ q := by
  refine List.Pairwise.map _ (fun i j (hij : i < j) => ?_) List.pairwise_lt_range
  unfold PGSIZE
  omega

section Pages

variable {mm : MmState}

/-- A free range of whole pages has room for them. -/
theorem Free.roomFor {v n : Nat} (h : mm.Free v n) (hv : v % PGSIZE = 0) (hn : n % PGSIZE = 0)
    (hlt : v + n < usizeMod) : mm.RoomFor (pageRange v (v + n)) where
  ordered := pageRange_ordered _ _
  free p hp := by
    obtain ⟨hlo, hhi, hpage⟩ := pageRange_le hn hp
    exact ⟨hpage hv, lt_of_le_of_lt hhi hlt, h.sub hlo hhi⟩

/-- The first page is taken, the others are still free. -/
theorem RoomFor.tail {page : Nat} {pages : List Nat} (h : mm.RoomFor (page :: pages))
    (l : TableKind) {m : MemoryMap} (hm : m.vaddr = page) (hsize : m.size = PGSIZE) :
    (mm.addTo l m).RoomFor pages where
  ordered := (List.pairwise_cons.mp h.ordered).2
  free p hp := by
    obtain ⟨hpage, hlt, hfree⟩ := h.free p (List.mem_cons_of_mem _ hp)
    refine ⟨hpage, hlt, hfree.addTo l (.inl ?_)⟩
    rw [hm, hsize]
    exact (List.pairwise_cons.mp h.ordered).1 p hp

/-- Entries of one page, at pages that have room. -/
theorem Sound.addPages (h : mm.Sound) (es : List (TableKind × MemoryMap))
    (hroom : mm.RoomFor (es.map (·.2.vaddr)))
    (hes : ∀ e ∈ es, e.2.size = PGSIZE ∧ (e.1 = .mapped → e.2.frameCap ≠ 0)) :
    (es.foldl (fun mm e => mm.addTo e.1 e.2) mm).Sound := by
  refine h.foldl_addTo es ?_ ?_
  · intro e he
    obtain ⟨hpage, hlt, hfree⟩ := hroom.free _ (List.mem_map_of_mem he)
    obtain ⟨hsize, hframe⟩ := hes e he
    refine ⟨⟨⟨hpage, ?_, ?_⟩, fun _ => hsize, hframe, by rwa [hsize]⟩, by rwa [hsize]⟩
    · simp [MemoryMap.span, hsize]
    · simp [MemoryMap.span, hsize, PGSIZE]
  · have hord := List.pairwise_map.mp hroom.ordered
    refine hord.imp_of_mem fun {e e'} he _ hle => ?_
    rw [(hes e he).1]
    exact hle

/-- In sound tables an entry is made of whole pages. -/
theorem Sound.pages_eq (h : mm.Sound) {k : Nat} {m : MemoryMap}
    (hm : mm.memoryMaps.get? k = some m) : m.pages * PGSIZE = m.size := by
  have hlt := h.below .mapped k m hm
  have hsize : m.size % PGSIZE = 0 := (h.paged .mapped k m hm).2.1
  unfold MemoryMap.pages alignUp wAdd
  unfold PGSIZE usizeMod at *
  omega

/-- The addresses of the pages of an entry do not wrap around. -/
theorem Sound.wAdd_vaddr (h : mm.Sound) {k i : Nat} {m : MemoryMap}
    (hm : mm.memoryMaps.get? k = some m) (hi : i < m.pages) :
    wAdd m.vaddr (i * PGSIZE) = m.vaddr + i * PGSIZE := by
  have hlt := h.below .mapped k m hm
  have hpages := h.pages_eq hm
  have hpg : PGSIZE = 4096 := rfl
  refine Nat.mod_eq_of_lt ?_
  rw [hpg] at hpages ⊢
  omega

/-- The pages of a split entry take its place. -/
theorem Sound.insertSplit (h : mm.Sound) {m : MemoryMap} {slots : List Nat}
    (hm : mm.memoryMaps.get? m.vaddr = some m) (hlen : slots.length = m.pages)
    (hslots : ∀ s ∈ slots, s ≠ 0) : (mm.insertSplit m slots).Sound := by
  have hpaged := h.paged .mapped _ m hm
  -- the room is that of the entry which goes
  have hfree : (mm.removeMemoryMap m.vaddr).Free m.vaddr m.size :=
    h.free_dropped (within_remove mm m.vaddr) fun x hlo hhi =>
      ⟨.mapped, m.vaddr, m, hm, ⟨hlo, hhi⟩, OrdMap.get?_erase_self ..⟩
  have hroom := hfree.roomFor hpaged.1 hpaged.2.1 (h.below .mapped _ m hm)
  have hadd := (h.within (within_remove mm m.vaddr)).addPages
    (slots.zipIdx.map fun e => (TableKind.mapped, splitEntry m e.1 e.2)) ?_ ?_
  · rwa [List.foldl_map] at hadd
  -- the pieces lie on the pages of the old entry, one each
  · have hpages : (slots.zipIdx.map fun e =>
      (TableKind.mapped, splitEntry m e.1 e.2)).map (·.2.vaddr)
        = pageRange m.vaddr (m.vaddr + m.size) := by
      have hcount : (m.vaddr + m.size - m.vaddr + (PGSIZE - 1)) / PGSIZE = slots.length := by
        have := h.pages_eq hm
        rw [← hlen] at this
        unfold PGSIZE at *
        omega
      rw [pageRange, hcount, List.map_map]
      refine List.ext_getElem (by simp) fun i hi hi' => ?_
      have hpage : i < m.pages := by simpa [hlen] using hi
      simp [splitEntry, h.wAdd_vaddr hm hpage]
    rw [hpages]
    exact hroom
  · intro e he
    obtain ⟨e', he', rfl⟩ := List.mem_map.mp he
    exact ⟨rfl, fun _ => hslots _ (List.fst_mem_of_mem_zipIdx he')⟩

/-- The lazy pages of an expansion. -/
theorem Sound.addLazyRange (h : mm.Sound) (flags : Perms) {pages : List Nat}
    (hroom : mm.RoomFor pages) : (mm.addLazyRange flags pages).Sound := by
  have hadd := h.addPages (pages.map fun p =>
    (TableKind.lazily, lazyEntry p flags .anonymous none 0))
    (by rw [List.map_map]; simpa [Function.comp_def, lazyEntry] using hroom) ?_
  · rwa [List.foldl_map] at hadd
  · intro e he
    obtain ⟨p, -, rfl⟩ := List.mem_map.mp he
    exact ⟨rfl, fun hl => by cases hl⟩

/-! ### Regions -/

/-- The break may be anywhere up to the limit of the heap. -/
theorem Sound.setBrk (h : mm.Sound) {addr : Nat} (hle : addr ≤ mm.heapLimit) :
    ({ mm with heapBrk := addr } : MmState).Sound :=
  { key := h.key, paged := h.paged, lazyPage := h.lazyPage, apart := h.apart
    unreserved := h.unreserved, heapStart := h.heapStart, stackBottom := h.stackBottom
    stackSize := h.stackSize, maxStackSize := h.maxStackSize, grown := h.grown, fits := h.fits
    frame := h.frame, below := h.below, stackBelow := h.stackBelow, heapLimit := h.heapLimit
    heapBelow := h.heapBelow, heapBrk := hle, mmapBase := h.mmapBase, mmapNext := h.mmapNext }

/-- The address where the search starts may be any page. -/
theorem Sound.setNext (h : mm.Sound) {next : Nat} (hnext : next % PGSIZE = 0) :
    ({ mm with mmapNext := next } : MmState).Sound :=
  { key := h.key, paged := h.paged, lazyPage := h.lazyPage, apart := h.apart
    unreserved := h.unreserved, heapStart := h.heapStart, stackBottom := h.stackBottom
    stackSize := h.stackSize, maxStackSize := h.maxStackSize, grown := h.grown, fits := h.fits
    frame := h.frame, below := h.below, stackBelow := h.stackBelow, heapLimit := h.heapLimit
    heapBelow := h.heapBelow, heapBrk := h.heapBrk, mmapBase := h.mmapBase, mmapNext := hnext }

/-- The page below the stack becomes part of it. -/
theorem Sound.growStack (h : mm.Sound) {v slot : Nat} (hslot : slot ≠ 0)
    (hv : v + PGSIZE = mm.stackBottom - mm.stackSize)
    (hlow : mm.stackBottom - mm.maxStackSize ≤ v) :
    ({ mm.addMemoryMap (pageEntry v Perms.RW .stack slot) with
      stackSize := mm.stackSize + PGSIZE } : MmState).Sound := by
  have hbottom := h.stackBottom
  have hsize := h.stackSize
  have hfits := h.fits
  have hbelow := h.stackBelow
  have hpos : 0 < PGSIZE := by decide
  -- the reservation gives up the page
  let mm₁ : MmState := { mm with stackSize := mm.stackSize + PGSIZE }
  have hreserved : ∀ x, mm₁.Reserved x → mm.Reserved x := by
    rintro x ⟨hlo, hhi⟩
    have hhi' : x < mm.stackBottom - (mm.stackSize + PGSIZE) := hhi
    exact ⟨hlo, by omega⟩
  have hgrown : mm₁.Sound :=
    { key := h.key, paged := h.paged, lazyPage := h.lazyPage, apart := h.apart
      unreserved := fun l k m x hk hx hr => h.unreserved l k m x hk hx (hreserved x hr)
      heapStart := h.heapStart, stackBottom := h.stackBottom
      stackSize := by
        show (mm.stackSize + PGSIZE) % PGSIZE = 0
        rw [Nat.add_mod_right]
        exact hsize
      maxStackSize := h.maxStackSize
      grown := by
        show mm.stackSize + PGSIZE ≤ mm.maxStackSize
        omega
      fits := h.fits
      frame := h.frame, below := h.below, stackBelow := h.stackBelow, heapLimit := h.heapLimit
      heapBelow := h.heapBelow, heapBrk := h.heapBrk, mmapBase := h.mmapBase
      mmapNext := h.mmapNext }
  have hfree : mm₁.Free v PGSIZE := by
    constructor
    · intro i s x hs hlo hhi hx
      obtain ⟨m, hm, rfl⟩ := get_table_of_spans hs
      exact h.unreserved i.1 i.2 m x hm hx ⟨by omega, by omega⟩
    · intro x hlo hhi hr
      have hr' : x < mm.stackBottom - (mm.stackSize + PGSIZE) := hr.2
      omega
  have hpage : v % PGSIZE = 0 := by
    unfold PGSIZE at *
    omega
  exact hgrown.addTo (l := .mapped) (Entry.page hpage hslot (by omega) _ _) hfree

/-! ### Removed keys -/

/-- Lazy mappings that are removed one after the other. -/
theorem lazy_foldl_remove (keys : List Nat) (mm : MmState) :
    (keys.foldl removeLazyMemoryMap mm).lazyMemoryMaps
      = keys.foldl OrdMap.erase mm.lazyMemoryMaps := by
  induction keys generalizing mm with
  | nil => rfl
  | cons k rest ih => exact ih _

/-- Mappings that are removed one after the other. -/
theorem maps_foldl_remove (keys : List Nat) (mm : MmState) :
    (keys.foldl removeMemoryMap mm).memoryMaps = keys.foldl OrdMap.erase mm.memoryMaps := by
  induction keys generalizing mm with
  | nil => rfl
  | cons k rest ih => exact ih _

/-- The removal of mappings leaves the lazy ones alone. -/
theorem lazy_foldl_removeMaps (keys : List Nat) (mm : MmState) :
    (keys.foldl removeMemoryMap mm).lazyMemoryMaps = mm.lazyMemoryMaps := by
  induction keys generalizing mm with
  | nil => rfl
  | cons k rest ih => exact ih _

/-! ### File-backed spans -/

/-- The lazy pages of a span are there. -/
def Spanned (mm : MmState) (v n : Nat) : Prop :=
  ∀ idx < n, (mm.lazyMemoryMaps.get? (v + idx * PGSIZE)).isSome

/-- A span takes the place of its lazy pages. -/
theorem Sound.installSpan (h : mm.Sound) {m : MemoryMap} {v n slot : Nat} (hv : v % PGSIZE = 0)
    (hn : 0 < n) (hspan : mm.Spanned v n) (hslot : slot ≠ 0) :
    (mm.installSpan m v n slot).Sound := by
  let keys := (List.range n).map fun idx => v + idx * PGSIZE
  have hfold : (List.range n).foldl (fun mm idx => mm.removeLazyMemoryMap (v + idx * PGSIZE)) mm
      = keys.foldl removeLazyMemoryMap mm := by rw [List.foldl_map]
  have hw : Within (keys.foldl removeLazyMemoryMap mm) mm := within_foldl within_removeLazy _ _
  -- the last page of the span ends inside the word
  have hend : v + n * PGSIZE < usizeMod := by
    obtain ⟨c, hc⟩ := Option.isSome_iff_exists.mp (hspan (n - 1) (by omega))
    have hbelow := h.below .lazily _ c hc
    rw [h.key .lazily _ c hc, h.lazyPage _ c hc] at hbelow
    have hmul : n * PGSIZE = (n - 1) * PGSIZE + PGSIZE := by
      rw [← Nat.succ_mul]
      congr 1
      omega
    omega
  have hfree : (keys.foldl removeLazyMemoryMap mm).Free v (n * PGSIZE) := by
    refine h.free_dropped hw fun x hlo hhi => ?_
    have hidx : (x - v) / PGSIZE < n := by
      rw [Nat.div_lt_iff_lt_mul (by decide)]
      omega
    obtain ⟨c, hc⟩ := Option.isSome_iff_exists.mp (hspan _ hidx)
    refine ⟨.lazily, v + (x - v) / PGSIZE * PGSIZE, c, hc, ?_, ?_⟩
    · have hkey := h.key .lazily _ c hc
      have hsize := h.lazyPage _ c hc
      unfold MemoryMap.span Span.Has
      dsimp only
      rw [hkey, hsize]
      unfold PGSIZE
      omega
    · show (keys.foldl removeLazyMemoryMap mm).lazyMemoryMaps.get? _ = none
      rw [lazy_foldl_remove, OrdMap.get?_foldl_erase, if_pos]
      exact List.mem_map.mpr ⟨_, List.mem_range.mpr hidx, rfl⟩
  unfold MmState.installSpan
  rw [hfold]
  refine (h.within hw).addTo (l := .mapped) ⟨⟨hv, ?_, ?_⟩, fun hl => (by cases hl),
    fun _ => hslot, ?_⟩ ?_
  · exact Nat.mul_mod_left _ _
  · exact Nat.mul_pos hn (by decide)
  · exact hend
  · exact hfree

/-! ### Moves -/

/-- The table and the entry of a moved page. -/
def remapEntry (v : Nat) : RemapPageState → TableKind × MemoryMap
  | .mapped frameCap flags => (.mapped, pageEntry v flags .anonymous frameCap)
  | .lazyPage flags => (.lazily, lazyEntry v flags .anonymous none 0)

/-- A page at its new place is an entry that is added to one of the tables. -/
theorem addRemapped_eq (mm : MmState) (v : Nat) (st : RemapPageState) :
    mm.addRemapped v st = mm.addTo (remapEntry v st).1 (remapEntry v st).2 := by
  cases st <;> rfl

/-- The entry of a page at its new place starts there. -/
theorem remapEntry_vaddr (v : Nat) (st : RemapPageState) : (remapEntry v st).2.vaddr = v := by
  cases st <;> rfl

/-- The frame of a page in `collect_remap_states` is that of its entry. -/
theorem Sound.collect_frames (h : mm.Sound) (pages : List Nat) :
    ∀ {states : List RemapPageState}, mm.collectRemapStates pages = .ok states →
      ∀ c fl, .mapped c fl ∈ states → c ≠ 0 := by
  induction pages with
  | nil =>
    intro states hs c fl hc
    cases hs
    cases hc
  | cons page rest ih =>
    intro states hs c fl hc
    unfold collectRemapStates at hs
    cases hst : mm.remapState page with
    | error e => rw [hst] at hs; cases hs
    | ok st =>
      cases hrest : mm.collectRemapStates rest with
      | error e => rw [hst, hrest] at hs; cases hs
      | ok sts =>
        rw [hst, hrest] at hs
        cases hs
        rcases List.mem_cons.mp hc with rfl | hc
        -- a mapped page of the request has a frame of the table
        · unfold remapState at hst
          split at hst
          · rename_i m hm
            split at hst
            · cases hst
            · cases hst
              exact h.frame page m hm
          · split at hst
            · split at hst <;> cases hst
            · cases hst
        · exact ih hrest c fl hc

/-- The entries that a move puts at the new range: the moved pages, and lazy ones after them. -/
def moveEntries (target : Nat) (states : List RemapPageState) (flags : Perms) (newPages : Nat) :
    List (TableKind × MemoryMap) :=
  ((states.take newPages).zipIdx.map fun e => remapEntry (target + e.2 * PGSIZE) e.1) ++
    (pageRange (target + min states.length newPages * PGSIZE) (target + newPages * PGSIZE)).map
      fun p => (TableKind.lazily, lazyEntry p flags .anonymous none 0)

/-- Both parts together are at the pages of the new range. -/
theorem moveEntries_vaddrs (target : Nat) (states : List RemapPageState) (flags : Perms)
    (newPages : Nat) : (moveEntries target states flags newPages).map (·.2.vaddr)
      = pageRange target (target + newPages * PGSIZE) := by
  -- the entries are one for each page, whatever part of them has a frame
  have hcount : ∀ a b : Nat, (target + b * PGSIZE - (target + a * PGSIZE) + (PGSIZE - 1)) / PGSIZE
      = b - a := by
    intro a b
    unfold PGSIZE
    omega
  have hall := hcount 0 newPages
  rw [Nat.zero_mul, Nat.add_zero] at hall
  let moved := (states.take newPages).zipIdx.map fun e => remapEntry (target + e.2 * PGSIZE) e.1
  have hlen : moved.length = min states.length newPages := by
    simp [moved, Nat.min_comm]
  refine List.ext_getElem ?_ ?_
  · simp only [moveEntries, pageRange, List.length_map, List.length_append, List.length_zipIdx,
      List.length_take, List.length_range, hcount, hall]
    omega
  · intro i hi hi'
    rw [List.getElem_map]
    unfold moveEntries
    by_cases hlt : i < moved.length
    · rw [List.getElem_append_left hlt]
      simp [moved, remapEntry_vaddr, pageRange]
    · rw [List.getElem_append_right (not_lt.mp hlt)]
      simp only [pageRange, List.getElem_map, List.getElem_range, lazyEntry]
      rw [show ((states.take newPages).zipIdx.map
        fun e => remapEntry (target + e.2 * PGSIZE) e.1).length = _ from hlen]
      rw [hlen] at hlt
      unfold PGSIZE
      omega

/-- The tables of a move: the old pages are removed, and the entries of the new range added. -/
theorem moveRange_eq (mm : MmState) (oldPages : List Nat) (target : Nat)
    (states : List RemapPageState) (flags : Perms) (newPages : Nat) :
    mm.moveRange oldPages target states flags newPages
      = { (moveEntries target states flags newPages).foldl (fun mm e => mm.addTo e.1 e.2)
            (oldPages.foldl (fun mm p => (mm.removeMemoryMap p).removeLazyMemoryMap p) mm) with
          mmapNext := max mm.mmapNext (target + newPages * PGSIZE) } := by
  rw [moveEntries, List.foldl_append, List.foldl_map, List.foldl_map]
  unfold MmState.moveRange
  simp only [addRemapped_eq]
  rfl

/-- A move to a free range. -/
theorem Sound.moveRange (h : mm.Sound) {oldPages : List Nat} {target newPages : Nat}
    {states : List RemapPageState} (flags : Perms) (htarget : target % PGSIZE = 0)
    (hend : target + newPages * PGSIZE < usizeMod) (hfree : mm.Free target (newPages * PGSIZE))
    (hframes : ∀ c fl, .mapped c fl ∈ states → c ≠ 0) :
    (mm.moveRange oldPages target states flags newPages).Sound := by
  -- the old pages go first, so the target is free of them too
  let removed := oldPages.foldl (fun mm p => (mm.removeMemoryMap p).removeLazyMemoryMap p) mm
  have hw : Within removed mm :=
    within_foldl (fun mm p => (within_removeLazy _ p).trans (within_remove mm p)) _ _
  have hroom : removed.RoomFor (pageRange target (target + newPages * PGSIZE)) :=
    (hfree.within hw).roomFor htarget (Nat.mul_mod_left _ _) hend
  rw [← moveEntries_vaddrs target states flags newPages] at hroom
  -- the new entries have a frame where the old pages had one
  have hadd := (h.within hw).addPages (moveEntries target states flags newPages) hroom ?_
  · have hnext : max mm.mmapNext (target + newPages * PGSIZE) % PGSIZE = 0 := by
      rcases max_choice mm.mmapNext (target + newPages * PGSIZE) with heq | heq <;> rw [heq]
      · exact h.mmapNext
      · rw [Nat.add_mul_mod_self_right]
        exact htarget
    rw [moveRange_eq]
    exact hadd.setNext hnext
  · intro e he
    rcases List.mem_append.mp he with he | he
    · obtain ⟨⟨st, i⟩, hst, rfl⟩ := List.mem_map.mp he
      have hmem : st ∈ states := List.mem_of_mem_take (List.fst_mem_of_mem_zipIdx hst)
      cases st with
      | mapped c fl => exact ⟨rfl, fun _ => hframes c fl hmem⟩
      | lazyPage fl => exact ⟨rfl, fun hl => by cases hl⟩
    · obtain ⟨p, -, rfl⟩ := List.mem_map.mp he
      exact ⟨rfl, fun hl => by cases hl⟩

/-! ### Fixed mappings -/

/-- The keys that a fixed mapping takes out. -/
theorem mem_mappedRanges {k : Nat} {m : MemoryMap} {pages : List Nat} (hk : k ∈ pages)
    (hm : mm.memoryMaps.get? k = some m) (hkey : m.vaddr = k)
    (hty : isRemappableUserMapping m.memType = true) : k ∈ (mm.mappedRanges pages).keys := by
  obtain ⟨before, after, rfl⟩ := List.append_of_mem hk
  rw [OrdMap.mem_keys, mappedRanges, List.foldl_append, List.foldl_cons]
  refine List.foldlRecOn after _
    (motive := fun acc : OrdMap Nat (Nat × Nat) => (acc.get? k).isSome) ?_ ?_
  · simp only [hm, hty, if_true, hkey, OrdMap.get?_orInsert]
    simp
  · intro acc hacc page _
    split
    · split
      · rw [OrdMap.get?_orInsert]
        split
        · simp
        · exact hacc
      · exact hacc
    · exact hacc

/-- After the checks and removals of a fixed mapping its range is free. -/
theorem Sound.free_fixed (h : mm.Sound) {start n : Nat} (hstart : start % PGSIZE = 0)
    (hsplit : mm.splitPartialMultiPageTargets start (start + n) = [])
    (hcheck : mm.checkFixed start (start + n) = .ok ()) :
    (mm.removeRanges (pageRange start (start + n))
      (mm.mappedRanges (pageRange start (start + n)))).Free start n := by
  have hw := within_removeRanges mm (pageRange start (start + n))
    (mm.mappedRanges (pageRange start (start + n)))
  unfold checkFixed at hcheck
  split at hcheck
  · cases hcheck
  split at hcheck
  · cases hcheck
  rename_i hout
  split at hcheck
  · cases hcheck
  rename_i htypes
  have hout' : mm.outsideFixedRegions start (start + n) = true := by simpa using hout
  refine ⟨?_, fun x hlo hhi hr => h.not_reserved hout' hlo hhi ((hw.reserved x).mp hr)⟩
  rintro ⟨l, k⟩ s x hs hlo hhi hx
  obtain ⟨m', hm', rfl⟩ := get_table_of_spans hs
  obtain ⟨m, hm, hspan, -⟩ := hw.entry l k m' hm'
  rw [hspan] at hx
  have hkey := h.key l k m hm
  have hpaged := h.paged l k m hm
  have hk : k % PGSIZE = 0 := by
    have := hpaged.1
    rwa [MemoryMap.span, hkey] at this
  obtain ⟨hx₁, hx₂⟩ := hx
  simp only [MemoryMap.span, hkey] at hx₁ hx₂
  cases l with
  | lazily =>
    have hsize := h.lazyPage k m hm
    have hin : k ∈ pageRange start (start + n) := by
      refine mem_pageRange_of_le hstart hk ?_ (by omega)
      unfold PGSIZE at *
      omega
    have hget : (mm.removeRanges (pageRange start (start + n)) (mm.mappedRanges
        (pageRange start (start + n)))).lazyMemoryMaps.get? k = none := by
      rw [removeRanges, lazy_foldl_removeMaps, lazy_foldl_remove,
        OrdMap.get?_foldl_erase, if_pos hin]
    have hm'' : _ = some m' := hm'
    rw [table, hget] at hm''
    cases hm''
  | mapped =>
    -- the entry overlaps, so it can be replaced and was not cut by the range
    have hpages := h.pages_eq hm
    have hbelow := h.below .mapped k m hm
    rw [hkey] at hbelow
    have hover : hasOverlap start (start + n) m.vaddr m.size = true := by
      rw [hasOverlap, hkey, satAdd_eq hbelow]
      simp only [Bool.and_eq_true, decide_eq_true_eq]
      omega
    have hty : isRemappableUserMapping m.memType = true := by
      by_contra hne
      rw [Bool.not_eq_true] at hne
      refine htypes (List.any_eq_true.mpr ⟨m, OrdMap.mem_values.mpr ⟨k, hm⟩, ?_⟩)
      simp [hover, hne]
    have hle : start ≤ k := by
      by_contra hlt
      have hmany : ¬ m.pages ≤ 1 := by
        intro hone
        have hsize : 0 < m.size := hpaged.2.2
        unfold PGSIZE at *
        omega
      have htarget : m.vaddr ∈ mm.splitPartialMultiPageTargets start (start + n) := by
        refine List.mem_filterMap.mpr ⟨m, OrdMap.mem_values.mpr ⟨k, hm⟩, ?_⟩
        rw [if_neg (by simp [hty, h.frame k m hm]), if_neg hmany, hpages, if_neg (by simp [hover]),
          if_pos (by simp [hkey]; omega)]
      rw [hsplit] at htarget
      cases htarget
    have hin : k ∈ pageRange start (start + n) := mem_pageRange_of_le hstart hk hle (by omega)
    have hget : (mm.removeRanges (pageRange start (start + n)) (mm.mappedRanges
        (pageRange start (start + n)))).memoryMaps.get? k = none := by
      rw [removeRanges, maps_foldl_remove, OrdMap.get?_foldl_erase,
        if_pos (mem_mappedRanges hin hm hkey hty)]
    have hm'' : _ = some m' := hm'
    rw [table, hget] at hm''
    cases hm''

end Pages

/-! ### Alignment

The part of the invariant that the loader keeps too. An image may put its segments anywhere, so
`execve` does not keep the ranges apart. It does file every entry under a page boundary. -/

/-- Entries at page boundaries, and regions that keep them there. -/
structure Aligned (mm : MmState) : Prop where
  key : ∀ k m, mm.memoryMaps.get? k = some m → m.vaddr = k ∧ k % PGSIZE = 0
  stackBottom : mm.stackBottom % PGSIZE = 0
  stackBelow : mm.stackBottom < usizeMod
  stackSize : mm.stackSize % PGSIZE = 0
  mmapBase : mm.mmapBase % PGSIZE = 0
  mmapNext : mm.mmapNext % PGSIZE = 0

/-- Sound tables are aligned. -/
theorem Sound.aligned {mm : MmState} (h : mm.Sound) : mm.Aligned where
  key k m hk := by
    have hkey := h.key .mapped k m hk
    have hpage := (h.paged .mapped k m hk).1
    exact ⟨hkey, by rwa [MemoryMap.span, hkey] at hpage⟩
  stackBottom := h.stackBottom
  stackBelow := h.stackBelow
  stackSize := h.stackSize
  mmapBase := h.mmapBase
  mmapNext := h.mmapNext

/-- Alignment, and with `whole` the invariant of both tables. -/
def Tidy (whole : Prop) (mm : MmState) : Prop := mm.Aligned ∧ (whole → mm.Sound)

section Tidy

variable {mm : MmState} {whole : Prop} {l : TableKind} {m : MemoryMap}

/-- Fewer entries are still aligned. -/
theorem Aligned.within {mm' : MmState} (h : mm.Aligned) (hw : Within mm' mm) : mm'.Aligned := by
  have hkey : ∀ k m', mm'.memoryMaps.get? k = some m' → m'.vaddr = k ∧ k % PGSIZE = 0 := by
    intro k m' hk
    obtain ⟨m, hm, hspan, -⟩ := hw.entry .mapped k m' hk
    have hvaddr : m'.vaddr = m.vaddr := congrArg Span.start hspan
    rw [hvaddr]
    exact h.key k m hm
  obtain ⟨-, A, B, rfl⟩ := hw
  exact ⟨hkey, h.stackBottom, h.stackBelow, h.stackSize, h.mmapBase, h.mmapNext⟩

/-- An aligned entry keeps the tables aligned. -/
theorem Aligned.addTo (h : mm.Aligned) (hm : m.vaddr % PGSIZE = 0) : (mm.addTo l m).Aligned := by
  have hkey : ∀ k m', (mm.addTo l m).memoryMaps.get? k = some m' → m'.vaddr = k ∧
    k % PGSIZE = 0 := by
    intro k m' hk
    have hget := get?_addTo mm l .mapped m k
    rw [show (mm.addTo l m).table .mapped = (mm.addTo l m).memoryMaps from rfl, hk] at hget
    split at hget
    · rename_i heq
      cases hget
      exact ⟨heq.2.symm, heq.2 ▸ hm⟩
    · exact h.key k m' hget.symm
  cases l <;> exact ⟨hkey, h.stackBottom, h.stackBelow, h.stackSize, h.mmapBase, h.mmapNext⟩

/-- Aligned entries keep the tables aligned. -/
theorem Aligned.foldl_addTo (es : List (TableKind × MemoryMap)) :
    ∀ {mm : MmState}, mm.Aligned → (∀ e ∈ es, e.2.vaddr % PGSIZE = 0) →
      (es.foldl (fun mm e => mm.addTo e.1 e.2) mm).Aligned := by
  induction es with
  | nil => exact fun h _ => h
  | cons e rest ih =>
    intro mm h hes
    exact ih (h.addTo (hes e (List.mem_cons_self ..))) fun e' he' =>
      hes e' (List.mem_cons_of_mem _ he')

/-- The address where the search starts may be any page. -/
theorem Aligned.setNext (h : mm.Aligned) {next : Nat} (hnext : next % PGSIZE = 0) :
    ({ mm with mmapNext := next } : MmState).Aligned :=
  ⟨h.key, h.stackBottom, h.stackBelow, h.stackSize, h.mmapBase, hnext⟩

/-- Fewer entries are still tidy. -/
theorem Tidy.within {mm' : MmState} (h : mm.Tidy whole) (hw : Within mm' mm) : mm'.Tidy whole :=
  ⟨h.1.within hw, fun hd => (h.2 hd).within hw⟩

/-- An entry at free addresses keeps the tables tidy. -/
theorem Tidy.addTo (h : mm.Tidy whole) (hm : m.vaddr % PGSIZE = 0)
    (hfree : whole → Entry l m ∧ mm.Free m.vaddr m.size) : (mm.addTo l m).Tidy whole :=
  ⟨h.1.addTo hm, fun hd => (h.2 hd).addTo (hfree hd).1 (hfree hd).2⟩

/-- A break below the limit keeps the tables tidy. -/
theorem Tidy.setBrk (h : mm.Tidy whole) {addr : Nat} (hle : addr ≤ mm.heapLimit) :
    ({ mm with heapBrk := addr } : MmState).Tidy whole :=
  ⟨⟨h.1.key, h.1.stackBottom, h.1.stackBelow, h.1.stackSize, h.1.mmapBase, h.1.mmapNext⟩,
    fun hd => (h.2 hd).setBrk hle⟩

/-- A new start of the search keeps the tables tidy. -/
theorem Tidy.setNext (h : mm.Tidy whole) {next : Nat} (hnext : next % PGSIZE = 0) :
    ({ mm with mmapNext := next } : MmState).Tidy whole :=
  ⟨h.1.setNext hnext, fun hd => (h.2 hd).setNext hnext⟩

/-- The next address of a search stays a page boundary. -/
theorem Aligned.max_next (h : mm.Aligned) {stop : Nat} (hstop : stop % PGSIZE = 0) :
    max mm.mmapNext stop % PGSIZE = 0 := by
  rcases max_choice mm.mmapNext stop with heq | heq <;> rw [heq]
  · exact h.mmapNext
  · exact hstop

/-- The growth does not leave the word. -/
theorem Aligned.stack_room (h : mm.Aligned) {v : Nat}
    (hv : v + PGSIZE = mm.stackBottom - mm.stackSize) :
    satAdd mm.stackSize PGSIZE = mm.stackSize + PGSIZE ∧
      mm.stackBottom - (mm.stackSize + PGSIZE) = v ∧ v % PGSIZE = 0 := by
  have hbelow := h.stackBelow
  have hbottom := h.stackBottom
  have hsize := h.stackSize
  have hpos : 0 < PGSIZE := by decide
  refine ⟨satAdd_eq (by omega), by omega, ?_⟩
  unfold PGSIZE at *
  omega

/-- A stack that grows by one page keeps the tables tidy. -/
theorem Tidy.growStack (h : mm.Tidy whole) {v slot : Nat} (hslot : slot ≠ 0)
    (hv : v + PGSIZE = mm.stackBottom - mm.stackSize)
    (hlow : whole → mm.stackBottom - mm.maxStackSize ≤ v) :
    ({ mm.addMemoryMap (pageEntry v Perms.RW .stack slot) with
      stackSize := mm.stackSize + PGSIZE } : MmState).Tidy whole := by
  have hpage := (h.1.stack_room hv).2.2
  refine ⟨?_, fun hd => (h.2 hd).growStack hslot hv (hlow hd)⟩
  have hadd := h.1.addTo (l := .mapped) (m := pageEntry v Perms.RW .stack slot) hpage
  refine ⟨hadd.key, h.1.stackBottom, h.1.stackBelow, ?_, h.1.mmapBase, h.1.mmapNext⟩
  show (mm.stackSize + PGSIZE) % PGSIZE = 0
  rw [Nat.add_mod_right]
  exact h.1.stackSize

/-- The pages of a split keep the tables tidy, since they lie where the entry lay. -/
theorem Tidy.insertSplit (h : mm.Tidy whole) {slots : List Nat}
    (hm : mm.memoryMaps.get? m.vaddr = some m) (hlen : slots.length = m.pages)
    (hslots : ∀ s ∈ slots, s ≠ 0) : (mm.insertSplit m slots).Tidy whole := by
  refine ⟨?_, fun hd => (h.2 hd).insertSplit hm hlen hslots⟩
  have hadd := (h.1.within (within_remove mm m.vaddr)).foldl_addTo
    (slots.zipIdx.map fun e => (TableKind.mapped, splitEntry m e.1 e.2)) ?_
  · rwa [List.foldl_map] at hadd
  · intro e he
    obtain ⟨e', -, rfl⟩ := List.mem_map.mp he
    show wAdd m.vaddr (e'.2 * PGSIZE) % PGSIZE = 0
    exact wAdd_page (h.1.key _ m hm).2 (Nat.mul_mod_left _ _)

/-- The mapping of a whole span keeps the tables tidy. -/
theorem Tidy.installSpan (h : mm.Tidy whole) {v n slot : Nat} (hv : v % PGSIZE = 0) (hn : 0 < n)
    (hspan : whole → mm.Spanned v n) (hslot : slot ≠ 0) :
    (mm.installSpan m v n slot).Tidy whole := by
  refine ⟨?_, fun hd => (h.2 hd).installSpan hv hn (hspan hd) hslot⟩
  refine (h.1.within ?_).addTo (l := .mapped) hv
  exact within_foldl (fun mm idx => within_removeLazy mm _) _ _

/-- Lazy pages where there is room keep the tables tidy. -/
theorem Tidy.addLazyRange (h : mm.Tidy whole) (flags : Perms) {pages : List Nat}
    (hpages : ∀ p ∈ pages, p % PGSIZE = 0) (hroom : whole → mm.RoomFor pages) :
    (mm.addLazyRange flags pages).Tidy whole := by
  refine ⟨?_, fun hd => (h.2 hd).addLazyRange flags (hroom hd)⟩
  have hadd := h.1.foldl_addTo
    (pages.map fun p => (TableKind.lazily, lazyEntry p flags .anonymous none 0)) ?_
  · rwa [List.foldl_map] at hadd
  · intro e he
    obtain ⟨p, hp, rfl⟩ := List.mem_map.mp he
    exact hpages p hp

/-- A range that is moved to free addresses keeps the tables tidy. -/
theorem Tidy.moveRange (h : mm.Tidy whole) {oldPages : List Nat} {target newPages : Nat}
    {states : List RemapPageState} (flags : Perms) (htarget : target % PGSIZE = 0)
    (hend : target + newPages * PGSIZE < usizeMod)
    (hfree : whole → mm.Free target (newPages * PGSIZE))
    (hframes : whole → ∀ c fl, .mapped c fl ∈ states → c ≠ 0) :
    (mm.moveRange oldPages target states flags newPages).Tidy whole := by
  refine ⟨?_, fun hd => (h.2 hd).moveRange flags htarget hend (hfree hd) (hframes hd)⟩
  have hw : Within (oldPages.foldl (fun mm p =>
    (mm.removeMemoryMap p).removeLazyMemoryMap p) mm) mm :=
    within_foldl (fun mm p => (within_removeLazy _ p).trans (within_remove mm p)) _ _
  have hpages : ∀ e ∈ moveEntries target states flags newPages, e.2.vaddr % PGSIZE = 0 := by
    intro e he
    have hmem : e.2.vaddr ∈ pageRange target (target + newPages * PGSIZE) := by
      rw [← moveEntries_vaddrs target states flags newPages]
      exact List.mem_map_of_mem he
    exact (pageRange_le (Nat.mul_mod_left _ _) hmem).2.2 htarget
  have hadd := (h.1.within hw).foldl_addTo (moveEntries target states flags newPages) hpages
  have hstop : (target + newPages * PGSIZE) % PGSIZE = 0 := by
    rw [Nat.add_mul_mod_self_right]
    exact htarget
  rw [moveRange_eq]
  exact hadd.setNext (h.1.max_next hstop)

end Tidy

end MmState

end Ape
