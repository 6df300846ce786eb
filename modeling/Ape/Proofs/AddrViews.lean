import Ape.Proofs.Answered
import Ape.Proofs.MapView

/-!
# `Ape.Proofs.AddrViews`: what a process has at an address

`AddrView` is what one address of a process amounts to: what each of the two tables records of
it, and the byte behind it. The memory calls are stated by it: a call says what the addresses of
its range have afterwards, and that every other address has what it had.

The first result is about the split of an entry. Every address has what it had, the copies are
held as often as the table uses them, and the old frame is held once less.
-/

set_option autoImplicit false

namespace Ape

open Ape.Lib Cmd

/-! ### Addresses -/

/-- What a process has at an address: what each table records of it, and the byte. -/
structure AddrView where
  mapped : Option PageRecord
  lazily : Option PageRecord
  byte : Option UInt8

/-- A lookup in a table whose entries were changed in place. -/
theorem entryAt_mapValues {g : MemoryMap → MemoryMap} (hvaddr : ∀ m, (g m).vaddr = m.vaddr)
    (hsize : ∀ m, (g m).size = m.size) (maps : OrdMap Nat MemoryMap) (a : Nat) :
    entryAt (maps.mapValues g) a = (entryAt maps a).map g := by
  rw [entryAt, entryAt, OrdMap.floor?_mapValues]
  cases maps.floor? a with
  | none => rfl
  | some e =>
    show (if a < wAdd (g e.2).vaddr (g e.2).size then some (g e.2) else none) = _
    rw [hvaddr, hsize]
    by_cases hin : a < wAdd e.2.vaddr e.2.size <;> simp [hin]

namespace MmState

/-- What a process with these tables has at an address. -/
def viewAt (mm : MmState) (frames : Nat → Option Frame) (a : Nat) : AddrView :=
  ⟨mm.recordAt .mapped a, mm.recordAt .lazily a, mm.byteAt frames a⟩

variable {mm mm' : MmState} {l : TableKind} {a : Nat} {m : MemoryMap}

/-- An entry of a table that has the address is the one that is looked up. -/
theorem Sound.entryAt_eq (h : mm.Sound) {k : Nat} (hk : (mm.table l).get? k = some m)
    (hin : m.Contains a) : entryAt (mm.table l) a = some m :=
  (h.entryAt_iff l).mpr ⟨k, hk, hin⟩

/-- A lookup is the same in a table with the same entries at the address. -/
theorem Sound.entryAt_congr (h : mm.Sound) (h' : mm'.Sound)
    (hiff : ∀ k m, m.Contains a →
      ((mm'.table l).get? k = some m ↔ (mm.table l).get? k = some m)) :
    entryAt (mm'.table l) a = entryAt (mm.table l) a := by
  refine Option.ext fun m => ?_
  rw [h.entryAt_iff l, h'.entryAt_iff l]
  constructor
  · rintro ⟨k, hk, hin⟩
    exact ⟨k, (hiff k m hin).mp hk, hin⟩
  · rintro ⟨k, hk, hin⟩
    exact ⟨k, (hiff k m hin).mpr hk, hin⟩

/-- An address has the same in tables with the same entries at it, when the frame behind it is
left alone. -/
theorem Sound.viewAt_congr {frames frames' : Nat → Option Frame} (h : mm.Sound) (h' : mm'.Sound)
    (hiff : ∀ l k m, m.Contains a →
      ((mm'.table l).get? k = some m ↔ (mm.table l).get? k = some m))
    (hframes : ∀ k m, mm.memoryMaps.get? k = some m → m.Contains a →
      frames' m.frameCap = frames m.frameCap) :
    mm'.viewAt frames' a = mm.viewAt frames a := by
  have hentry : ∀ l, entryAt (mm'.table l) a = entryAt (mm.table l) a :=
    fun l => h.entryAt_congr h' (hiff l)
  have hrecord : ∀ l, mm'.recordAt l a = mm.recordAt l a := by
    intro l
    rw [recordAt, hentry l, recordAt]
  have hbyte : mm'.byteAt frames' a = mm.byteAt frames a := by
    have hlook : mm'.lookupMemoryMap a = mm.lookupMemoryMap a := hentry .mapped
    rw [byteAt, byteAt, hlook]
    cases hm : mm.lookupMemoryMap a with
    | none => rfl
    | some m =>
      obtain ⟨k, hk, hin⟩ := (h.lookups a m).1.mp hm
      show (frames' m.frameCap).map _ = (frames m.frameCap).map _
      rw [hframes k m hk hin]
  rw [viewAt, viewAt, hrecord .mapped, hrecord .lazily, hbyte]

/-- Two entries of one table with a common address are one. -/
theorem Sound.entry_unique (h : mm.Sound) {j : TableKind} {k k' : Nat} {m' : MemoryMap}
    (hk : (mm.table l).get? k = some m) (hk' : (mm.table j).get? k' = some m') (hin : m.Contains a)
    (hin' : m'.Contains a) : l = j ∧ k = k' := by
  have heq := h.apart (l, k) (j, k') m.span m'.span a (by rw [spans, hk]; rfl)
    (by rw [spans, hk']; rfl) hin hin'
  exact ⟨congrArg Prod.fst heq, congrArg Prod.snd heq⟩

/-! ### Entries that are added one after the other -/

/-- Of entries at different addresses, each is found. -/
theorem get?_foldl_addTo_mem {es : List (TableKind × MemoryMap)} {e : TableKind × MemoryMap}
    (hdis : es.Pairwise fun e e' => e.2.vaddr ≠ e'.2.vaddr) (he : e ∈ es) (mm : MmState) :
    ((es.foldl (fun mm e => mm.addTo e.1 e.2) mm).table e.1).get? e.2.vaddr = some e.2 := by
  -- induction over the entries that are added: one at the address, and the others elsewhere
  induction es generalizing mm with
  | nil => cases he
  | cons e₀ rest ih =>
    obtain ⟨hfirst, hrest⟩ := List.pairwise_cons.mp hdis
    rcases List.mem_cons.mp he with rfl | hmem
    · -- the later entries are at other addresses
      have hlater : ∀ (es : List (TableKind × MemoryMap)) (mm : MmState),
          (∀ e' ∈ es, e.2.vaddr ≠ e'.2.vaddr) →
          ((es.foldl (fun mm e => mm.addTo e.1 e.2) mm).table e.1).get? e.2.vaddr
            = (mm.table e.1).get? e.2.vaddr := by
        intro es
        induction es with
        | nil => exact fun _ _ => rfl
        | cons e' rest ih' =>
          intro mm hne
          rw [List.foldl_cons, ih' _ fun d hd => hne d (List.mem_cons_of_mem _ hd), get?_addTo,
            if_neg fun heq => hne e' List.mem_cons_self heq.2]
      rw [List.foldl_cons, hlater rest _ hfirst, get?_addTo, if_pos ⟨rfl, rfl⟩]
    · exact ih hrest hmem _

/-- At the other addresses nothing changes. -/
theorem get?_foldl_addTo_notMem {es : List (TableKind × MemoryMap)} {l : TableKind} {k : Nat}
    (hne : ∀ e ∈ es, e.1 = l → e.2.vaddr ≠ k) (mm : MmState) :
    ((es.foldl (fun mm e => mm.addTo e.1 e.2) mm).table l).get? k = (mm.table l).get? k := by
  induction es generalizing mm with
  | nil => rfl
  | cons e rest ih =>
    rw [List.foldl_cons, ih (fun d hd => hne d (List.mem_cons_of_mem _ hd)), get?_addTo,
      if_neg fun heq => hne e List.mem_cons_self heq.1.symm heq.2.symm]

end MmState

/-! ### The pages of a split entry -/

/-- The entries that a split puts in the place of `m`. -/
def splitEntries (m : MemoryMap) (slots : List Nat) : List (TableKind × MemoryMap) :=
  slots.zipIdx.map fun e => (TableKind.mapped, splitEntry m e.1 e.2)

/-- The entries of a split, by the number of their page. -/
theorem mem_splitEntries {m : MemoryMap} {slots : List Nat} {e : TableKind × MemoryMap} :
    e ∈ splitEntries m slots ↔
      ∃ j slot, slots[j]? = some slot ∧ e = (TableKind.mapped, splitEntry m slot j) := by
  unfold splitEntries
  rw [List.mem_map]
  constructor
  · rintro ⟨⟨slot, j⟩, hmem, rfl⟩
    exact ⟨j, slot, List.mem_zipIdx_iff_getElem?.mp hmem, rfl⟩
  · rintro ⟨j, slot, hj, rfl⟩
    exact ⟨(slot, j), List.mem_zipIdx_iff_getElem?.mpr hj, rfl⟩

/-- The pages of an entry have different addresses, also when they wrap around. -/
theorem MemoryMap.wAdd_page_inj (m : MemoryMap) {i j : Nat} (hi : i < m.pages) (hj : j < m.pages)
    (heq : wAdd m.vaddr (i * PGSIZE) = wAdd m.vaddr (j * PGSIZE)) : i = j := by
  have hmod : usizeMod = 2 ^ 64 := rfl
  have hpg : PGSIZE = 2 ^ 12 := rfl
  -- an entry has fewer pages than the address space
  have hpages : m.pages ≤ 2 ^ 52 := by
    rw [MemoryMap.pages, alignUp, wAdd, hmod, hpg]
    omega
  rw [wAdd, wAdd, hmod, hpg] at heq
  omega

/-- The entries of a split are at different addresses. -/
theorem splitEntries_distinct {m : MemoryMap} {slots : List Nat} (hlen : slots.length = m.pages) :
    (splitEntries m slots).Pairwise fun e e' => e.2.vaddr ≠ e'.2.vaddr := by
  unfold splitEntries
  refine List.pairwise_map.mpr (List.pairwise_iff_getElem.mpr fun i j hi hj hij heq => ?_)
  rw [List.length_zipIdx, hlen] at hi hj
  simp only [List.getElem_zipIdx, Nat.zero_add] at heq
  have hsame : i = j := m.wAdd_page_inj hi hj heq
  omega

namespace MmState

variable {mm : MmState} {m : MemoryMap} {slots : List Nat} {a : Nat}

/-- A split removes an entry and adds its pages. -/
theorem insertSplit_addTo (mm : MmState) (m : MemoryMap) (slots : List Nat) :
    mm.insertSplit m slots
      = (splitEntries m slots).foldl (fun mm e => mm.addTo e.1 e.2)
        (mm.removeMemoryMap m.vaddr) := by
  rw [MmState.insertSplit, splitEntries, List.foldl_map]
  rfl

/-- The entry of a page of the split entry. -/
theorem insertSplit_page (mm : MmState) (hlen : slots.length = m.pages) {j slot : Nat}
    (hj : slots[j]? = some slot) :
    (mm.insertSplit m slots).memoryMaps.get? (wAdd m.vaddr (j * PGSIZE))
      = some (splitEntry m slot j) := by
  have hmem : (TableKind.mapped, splitEntry m slot j) ∈ splitEntries m slots :=
    mem_splitEntries.mpr ⟨j, slot, hj, rfl⟩
  rw [insertSplit_addTo]
  exact get?_foldl_addTo_mem (splitEntries_distinct hlen) hmem _

/-- The entries at other addresses stay. -/
theorem insertSplit_other {l : TableKind} {k : Nat}
    (hk : l = .mapped → k ≠ m.vaddr ∧ ∀ j < slots.length, k ≠ wAdd m.vaddr (j * PGSIZE)) :
    ((mm.insertSplit m slots).table l).get? k = (mm.table l).get? k := by
  rw [insertSplit_addTo, get?_foldl_addTo_notMem]
  · cases l with
    | mapped =>
      show (mm.memoryMaps.erase m.vaddr).get? k = _
      rw [OrdMap.get?_erase, if_neg (hk rfl).1]
      rfl
    | lazily => rfl
  · intro e he hl
    obtain ⟨j, slot, hj, rfl⟩ := mem_splitEntries.mp he
    have hlt : j < slots.length := (List.getElem?_eq_some_iff.mp hj).1
    exact fun heq => (hk hl.symm).2 j hlt heq.symm

/-- Only the table of mapped entries changes. -/
theorem insertSplit_rest (mm : MmState) (m : MemoryMap) (slots : List Nat) :
    mm.insertSplit m slots = { mm with memoryMaps := (mm.insertSplit m slots).memoryMaps } := by
  have hadd : ∀ (es : List MemoryMap) (mm₀ : MmState), es.foldl addMemoryMap mm₀ =
      { mm₀ with memoryMaps := (es.foldl addMemoryMap mm₀).memoryMaps } := by
    intro es
    induction es with
    | nil => exact fun mm₀ => rfl
    | cons e rest ih => exact fun mm₀ => ih (mm₀.addMemoryMap e)
  rw [insertSplit_eq]
  exact hadd _ (mm.removeMemoryMap m.vaddr)

/-- An entry of the table that is not the split one is at another address. -/
theorem Sound.split_apart (h : mm.Sound) (hm : mm.memoryMaps.get? m.vaddr = some m)
    (hlen : slots.length = m.pages) {k : Nat} {m' : MemoryMap} {l : TableKind}
    (hk : (mm.table l).get? k = some m') (hne : ¬ (l = .mapped ∧ k = m.vaddr)) :
    l = .mapped → k ≠ m.vaddr ∧ ∀ j < slots.length, k ≠ wAdd m.vaddr (j * PGSIZE) := by
  rintro rfl
  refine ⟨fun heq => hne ⟨rfl, heq⟩, fun j hj heq => hne ⟨rfl, ?_⟩⟩
  rw [h.wAdd_vaddr hm (hlen ▸ hj)] at heq
  -- the address of a page of the split entry is in that entry
  have hpages := h.pages_eq hm
  have hpos : 0 < m'.size := (h.paged .mapped k m' hk).2.2
  have hkey : m'.vaddr = k := h.key .mapped k m' hk
  have hmul : (j + 1) * PGSIZE ≤ m.pages * PGSIZE := Nat.mul_le_mul_right _ (by omega)
  have hin : m.Contains k := by
    unfold MemoryMap.Contains
    unfold PGSIZE at *
    omega
  have hin' : m'.Contains k := by
    unfold MemoryMap.Contains
    omega
  exact (h.entry_unique (l := .mapped) (j := .mapped) hk hm hin' hin).2

/-- The page of an address inside the split entry. -/
theorem Sound.split_index (h : mm.Sound) (hm : mm.memoryMaps.get? m.vaddr = some m)
    (hlen : slots.length = m.pages) (hin : m.Contains a) :
    ∃ j slot, slots[j]? = some slot ∧ (splitEntry m slot j).Contains a ∧
      a - m.vaddr = j * PGSIZE + (a - (m.vaddr + j * PGSIZE)) := by
  have hpages := h.pages_eq hm
  obtain ⟨hlo, hhi⟩ := hin
  have hj : (a - m.vaddr) / PGSIZE < slots.length := by
    unfold PGSIZE at *
    omega
  refine ⟨(a - m.vaddr) / PGSIZE, slots[(a - m.vaddr) / PGSIZE],
    List.getElem?_eq_getElem hj, ?_, ?_⟩
  · show wAdd m.vaddr ((a - m.vaddr) / PGSIZE * PGSIZE) ≤ a
      ∧ a < wAdd m.vaddr ((a - m.vaddr) / PGSIZE * PGSIZE) + PGSIZE
    rw [h.wAdd_vaddr hm (hlen ▸ hj)]
    unfold PGSIZE
    omega
  · unfold PGSIZE
    omega

/-- An address of a page of the split entry is one of the entry. -/
theorem Sound.page_within (h : mm.Sound) (hm : mm.memoryMaps.get? m.vaddr = some m)
    (hlen : slots.length = m.pages) {j slot : Nat} (hj : slots[j]? = some slot)
    (hin : (splitEntry m slot j).Contains a) : m.Contains a := by
  have hpages := h.pages_eq hm
  have hlt : j < slots.length := (List.getElem?_eq_some_iff.mp hj).1
  have hmul : (j + 1) * PGSIZE ≤ m.pages * PGSIZE := Nat.mul_le_mul_right _ (by omega)
  have hvaddr : wAdd m.vaddr (j * PGSIZE) = m.vaddr + j * PGSIZE := h.wAdd_vaddr hm (hlen ▸ hlt)
  have hlo : wAdd m.vaddr (j * PGSIZE) ≤ a := hin.1
  have hhi : a < wAdd m.vaddr (j * PGSIZE) + PGSIZE := hin.2
  rw [hvaddr] at hlo hhi
  rw [Nat.add_mul, Nat.one_mul] at hmul
  show m.vaddr ≤ a ∧ a < m.vaddr + m.size
  omega

/-- The entries after a split: the pages of the entry, and the other entries. -/
theorem Sound.get?_split (h : mm.Sound) (hm : mm.memoryMaps.get? m.vaddr = some m)
    (hlen : slots.length = m.pages) {l : TableKind} {k : Nat} {e : MemoryMap} :
    ((mm.insertSplit m slots).table l).get? k = some e ↔
      (l = .mapped ∧ ∃ j slot, slots[j]? = some slot ∧ k = m.vaddr + j * PGSIZE ∧
        e = splitEntry m slot j) ∨
      (¬ (l = .mapped ∧ k = m.vaddr) ∧ (mm.table l).get? k = some e) := by
  by_cases hat : l = .mapped ∧ ∃ j < slots.length, k = m.vaddr + j * PGSIZE
  · -- at a page of the entry there is no other one
    obtain ⟨rfl, j, hj, rfl⟩ := hat
    have hget := List.getElem?_eq_getElem hj
    have hpage := insertSplit_page mm hlen hget
    rw [h.wAdd_vaddr hm (hlen ▸ hj)] at hpage
    rw [show (mm.insertSplit m slots).table .mapped = (mm.insertSplit m slots).memoryMaps from rfl,
      hpage]
    -- the split puts the page of this index here, and any other entry would overlap it
    constructor
    · intro heq
      exact .inl ⟨rfl, j, slots[j], hget, rfl, (Option.some.inj heq).symm⟩
    · rintro (⟨-, j', slot, hj', heq, rfl⟩ | ⟨hne, hk⟩)
      · have hjj : j' = j := by
          unfold PGSIZE at heq
          omega
        rw [hjj, hget] at hj'
        rw [hjj, Option.some.inj hj']
      · have hapart := (h.split_apart hm hlen hk hne rfl).2 j hj
        rw [h.wAdd_vaddr hm (hlen ▸ hj)] at hapart
        exact absurd rfl hapart
  · have hpos : 0 < slots.length := by
      have hsize : 0 < m.size := (h.paged .mapped _ m hm).2.2
      have hpages := h.pages_eq hm
      unfold PGSIZE at *
      omega
    -- elsewhere the split added nothing and removed nothing
    have hne : ¬ (l = .mapped ∧ k = m.vaddr) :=
      fun heq => hat ⟨heq.1, 0, hpos, by rw [heq.2, Nat.zero_mul, Nat.add_zero]⟩
    rw [insertSplit_other fun hl => ⟨fun heq => hne ⟨hl, heq⟩, fun j hj heq => hat ⟨hl, j, hj, by
      rw [heq, h.wAdd_vaddr hm (hlen ▸ hj)]⟩⟩]
    constructor
    · exact fun hk => .inr ⟨hne, hk⟩
    · rintro (⟨hl, j, slot, hj, heq, -⟩ | ⟨-, hk⟩)
      · exact absurd ⟨hl, j, (List.getElem?_eq_some_iff.mp hj).1, heq⟩ hat
      · exact hk

end MmState

/-- The record of an address is the same in its page of the split entry. -/
theorem recordAt_splitEntry {m : MemoryMap} {slot j a : Nat}
    (hvaddr : wAdd m.vaddr (j * PGSIZE) = m.vaddr + j * PGSIZE)
    (ha : a - m.vaddr = j * PGSIZE + (a - (m.vaddr + j * PGSIZE))) :
    (splitEntry m slot j).recordAt a = m.recordAt a := by
  have hsat : satAdd (satAdd m.fileBackingOffset (j * PGSIZE)) (a - (m.vaddr + j * PGSIZE))
      = satAdd m.fileBackingOffset (a - m.vaddr) := by
    unfold satAdd
    omega
  show PageRecord.mk m.flags m.memType m.fileBackingFd
    (satAdd (satAdd m.fileBackingOffset (j * PGSIZE)) (a - wAdd m.vaddr (j * PGSIZE)))
      = PageRecord.mk _ _ _ _
  rw [hvaddr, hsat]

namespace MmState

variable {mm : MmState} {m : MemoryMap} {slots : List Nat} {a : Nat}

/-! ### The frames of a table -/

/-- A new entry uses its frame. -/
theorem uses_add (h : mm.memoryMaps.get? m.vaddr = none) (s : Nat) :
    (mm.addMemoryMap m).uses s = mm.uses s + [m.frameCap].count s := by
  have hadd := OrdMap.total_insert (fun e : MemoryMap => if e.frameCap = s then 1 else 0)
    mm.memoryMaps m.vaddr m
  rw [OrdMap.erase_of_get?_none _ h] at hadd
  rw [uses, addMemoryMap, hadd, uses, List.count_singleton]
  simp only [beq_iff_eq]
  omega

/-- Entries at different addresses, where there was none, use their frames. -/
theorem uses_foldl_new (es : List MemoryMap) :
    ∀ {mm : MmState}, (es.Pairwise fun e e' => e.vaddr ≠ e'.vaddr) →
      (∀ e ∈ es, mm.memoryMaps.get? e.vaddr = none) → ∀ s,
      (es.foldl addMemoryMap mm).uses s = mm.uses s + (es.map (·.frameCap)).count s := by
  induction es with
  | nil => exact fun _ _ s => (Nat.add_zero _).symm
  | cons e rest ih =>
    intro mm hdis hnone s
    obtain ⟨hfirst, hrest⟩ := List.pairwise_cons.mp hdis
    have hnone' : ∀ e' ∈ rest, (mm.addMemoryMap e).memoryMaps.get? e'.vaddr = none := by
      intro e' he'
      rw [addMemoryMap, OrdMap.get?_insert, if_neg (Ne.symm (hfirst e' he'))]
      exact hnone e' (List.mem_cons_of_mem _ he')
    have hcount : (e.frameCap :: rest.map (·.frameCap)).count s
        = [e.frameCap].count s + (rest.map (·.frameCap)).count s := by
      rw [List.count_cons, List.count_singleton, Nat.add_comm]
    rw [List.foldl_cons, ih hrest hnone' s, uses_add (hnone e List.mem_cons_self), List.map_cons,
      hcount, Nat.add_assoc]

/-- A table that uses every frame once has one entry for a frame. -/
theorem entry_of_frame (honce : ∀ s, mm.uses s ≤ 1) {k k' : Nat} {m' : MemoryMap}
    (hk : mm.memoryMaps.get? k = some m) (hk' : mm.memoryMaps.get? k' = some m')
    (heq : m'.frameCap = m.frameCap) : k' = k := by
  by_contra hne
  have hrem : (mm.removeMemoryMap k).memoryMaps.get? k' = some m' := by
    rw [removeMemoryMap, OrdMap.get?_erase, if_neg hne]
    exact hk'
  have hleft : 0 < (mm.removeMemoryMap k).uses m'.frameCap := uses_pos hrem
  have hall := uses_remove hk m.frameCap
  rw [heq] at hleft
  rw [List.count_singleton_self] at hall
  have := honce m.frameCap
  omega

/-- The pages of a split take the place of the entry in the count. -/
theorem Sound.uses_split (h : mm.Sound) (hm : mm.memoryMaps.get? m.vaddr = some m)
    (hlen : slots.length = m.pages) (s : Nat) :
    (mm.insertSplit m slots).uses s + [m.frameCap].count s = mm.uses s + slots.count s := by
  have hcaps : ((splitEntries m slots).map Prod.snd).map (·.frameCap) = slots := by
    unfold splitEntries
    simp only [List.map_map]
    exact List.zipIdx_map_fst 0 slots
  have hdis : ((splitEntries m slots).map Prod.snd).Pairwise fun e e' => e.vaddr ≠ e'.vaddr :=
    List.pairwise_map.mpr (splitEntries_distinct hlen)
  -- no entry is at the pages once the entry is gone
  have hnone : ∀ e ∈ (splitEntries m slots).map Prod.snd,
      (mm.removeMemoryMap m.vaddr).memoryMaps.get? e.vaddr = none := by
    intro e he
    obtain ⟨e', he', rfl⟩ := List.mem_map.mp he
    obtain ⟨j, slot, hj, rfl⟩ := mem_splitEntries.mp he'
    have hlt : j < slots.length := (List.getElem?_eq_some_iff.mp hj).1
    show (mm.memoryMaps.erase m.vaddr).get? (wAdd m.vaddr (j * PGSIZE)) = none
    rw [OrdMap.get?_erase]
    split
    · rfl
    · rename_i hne
      cases hk : mm.memoryMaps.get? (wAdd m.vaddr (j * PGSIZE)) with
      | none => rfl
      | some m' =>
        have hapart := h.split_apart (l := .mapped) hm hlen hk fun hb => hne hb.2
        exact absurd rfl ((hapart rfl).2 j hlt)
  have hfold : mm.insertSplit m slots = ((splitEntries m slots).map Prod.snd).foldl addMemoryMap
      (mm.removeMemoryMap m.vaddr) := by
    rw [MmState.insertSplit, splitEntries, List.map_map, List.foldl_map]
    rfl
  have hnew := uses_foldl_new ((splitEntries m slots).map Prod.snd) hdis hnone s
  have hrem := uses_remove hm s
  rw [hfold, hnew, hcaps]
  omega

/-! ### A split loses nothing -/

/-- After the split every address has what it had. -/
theorem Sound.viewAt_split {frames frames' frames'' : Nat → Option Frame} (h : mm.Sound)
    (honce : ∀ s, mm.uses s ≤ 1)
    (hlive : ∀ k e, mm.memoryMaps.get? k = some e → (frames e.frameCap).isSome)
    (hm : mm.memoryMaps.get? m.vaddr = some m) (hlen : slots.length = m.pages)
    (hcopied : Copied frames m.frameCap slots frames')
    (hothers : ∀ s, s ≠ m.frameCap → frames'' s = frames' s) (a : Nat) :
    (mm.insertSplit m slots).viewAt frames'' a = mm.viewAt frames a := by
  have hsound : (mm.insertSplit m slots).Sound :=
    h.insertSplit hm hlen fun s hs => (hcopied.fresh s hs).1
  -- a frame of the table is not one of the copies
  have hold : ∀ k e, mm.memoryMaps.get? k = some e → e.frameCap ∉ slots := by
    intro k e hk hmem
    have hl := hlive k e hk
    rw [(hcopied.fresh _ hmem).2] at hl
    cases hl
  by_cases hin : m.Contains a
  · -- inside, the page has the record of the entry and a copy of its bytes
    obtain ⟨j, slot, hj, hcontains, hoff⟩ := h.split_index hm hlen hin
    have hvaddr := h.wAdd_vaddr hm (hlen ▸ (List.getElem?_eq_some_iff.mp hj).1)
    have hnew : (mm.insertSplit m slots).lookupMemoryMap a = some (splitEntry m slot j) :=
      hsound.entryAt_eq (l := .mapped) (insertSplit_page mm hlen hj) hcontains
    have hwas : mm.lookupMemoryMap a = some m := h.entryAt_eq (l := .mapped) hm hin
    have hmapped : (mm.insertSplit m slots).recordAt .mapped a = mm.recordAt .mapped a := by
      show (((mm.insertSplit m slots).lookupMemoryMap a).map (·.recordAt a))
        = (mm.lookupMemoryMap a).map (·.recordAt a)
      rw [hnew, hwas, Option.map_some, Option.map_some, recordAt_splitEntry hvaddr hoff]
    have hlazily : (mm.insertSplit m slots).recordAt .lazily a = mm.recordAt .lazily a := by
      have hentry := h.entryAt_congr (l := .lazily) (a := a) hsound fun k m' _ => by
        rw [insertSplit_other fun hl => by cases hl]
      rw [recordAt, hentry, recordAt]
    have hbyte : (mm.insertSplit m slots).byteAt frames'' a = mm.byteAt frames a := by
      obtain ⟨f, hf, -, hdata⟩ := hcopied.bytes j slot hj
      have hne : slot ≠ m.frameCap := by
        rintro rfl
        exact hold _ m hm (List.mem_of_getElem? hj)
      have hlt : a - (m.vaddr + j * PGSIZE) < PGSIZE := by
        have hhi : a < wAdd m.vaddr (j * PGSIZE) + PGSIZE := hcontains.2
        rw [hvaddr] at hhi
        have hpos : 0 < PGSIZE := by decide
        omega
      rw [byteAt, byteAt, hnew, hwas]
      show (frames'' slot).map (fun fr => fr.data (a - wAdd m.vaddr (j * PGSIZE)))
        = (frames m.frameCap).map fun fr => fr.data (a - m.vaddr)
      rw [hvaddr, hothers slot hne, hf, hoff]
      exact hdata _ hlt
    rw [viewAt, viewAt, hmapped, hlazily, hbyte]
  · -- outside, the entries stay and none of them has the old frame
    refine h.viewAt_congr hsound ?_ ?_
    · intro l k m' hin'
      rw [h.get?_split hm hlen]
      constructor
      · rintro (⟨-, j, slot, hj, -, rfl⟩ | ⟨-, hk⟩)
        · exact absurd (h.page_within hm hlen hj hin') hin
        · exact hk
      · intro hk
        refine .inr ⟨?_, hk⟩
        rintro ⟨rfl, rfl⟩
        rw [show (mm.table .mapped).get? m.vaddr = some m from hm] at hk
        cases hk
        exact hin hin'
    · intro k m' hk hin'
      have hne : m'.frameCap ≠ m.frameCap := by
        intro heq
        have hkk := entry_of_frame honce hm hk heq
        rw [hkk, hm] at hk
        cases hk
        exact hin hin'
      rw [hothers _ hne, hcopied.others _ (hold k m' hk)]

end MmState

/-! ### The split of a range -/

namespace MapView

/-- The frame in the slot is there, or no counter was left behind for it. -/
def Accounted (v : MapView) (s : Nat) : Prop := (v.frames s).isSome ∨ v.refs s = none

/-- A release leaves no counter behind. -/
theorem Accounted.release {v : MapView} {s : Nat} (h : v.Accounted s) (slot : Nat) :
    (v.release slot).Accounted s := by
  by_cases heq : s = slot
  · subst heq
    unfold MapView.release
    split
    · rename_i n hn
      split
      · exact .inl (h.resolve_right fun hnone => by rw [hnone] at hn; cases hn)
      · exact .inr (if_pos rfl)
    · rename_i hn
      exact .inr hn
  · unfold Accounted
    rw [release_frames_ne v heq, release_refs_ne v heq]
    exact h

end MapView

/-- The entries of a process were split into pages. Every address has what it had, and a frame
is held by the table as often more, or less, as the table uses it more, or less. -/
structure SplitOf (pid : Nat) (v : MapView) (mm : MmState) (v' : MapView) (mm' : MmState) :
    Prop where
  mms : v'.mms.get? pid = some mm'
  others : ∀ q, q ≠ pid → v'.mms.get? q = v.mms.get? q
  views : ∀ a, mm'.viewAt v'.frames a = mm.viewAt v.frames a
  fixed : ∀ k m, isRemappableUserMapping m.memType = false →
    (mm'.memoryMaps.get? k = some m ↔ mm.memoryMaps.get? k = some m)
  rest : ∃ A, mm' = { mm with memoryMaps := A }
  keys : ∀ k, (mm.memoryMaps.get? k).isSome → (mm'.memoryMaps.get? k).isSome
  balance : ∀ s, v.Accounted s →
    v'.Accounted s ∧ v'.holders s + mm.uses s = v.holders s + mm'.uses s

namespace SplitOf

variable {pid : Nat} {v v' v'' : MapView} {mm mm' mm'' : MmState}

/-- No split. -/
theorem refl (hmm : v.mms.get? pid = some mm) : SplitOf pid v mm v mm where
  mms := hmm
  others _ _ := rfl
  views _ := rfl
  fixed _ _ _ := Iff.rfl
  rest := ⟨_, rfl⟩
  keys _ h := h
  balance _ h := ⟨h, rfl⟩

/-- Splits one after the other. -/
theorem trans (h : SplitOf pid v mm v' mm') (h' : SplitOf pid v' mm' v'' mm'') :
    SplitOf pid v mm v'' mm'' where
  mms := h'.mms
  others q hq := (h'.others q hq).trans (h.others q hq)
  views a := (h'.views a).trans (h.views a)
  fixed k m hm := (h'.fixed k m hm).trans (h.fixed k m hm)
  rest := by
    obtain ⟨A, hA⟩ := h.rest
    obtain ⟨B, hB⟩ := h'.rest
    exact ⟨B, by rw [hB, hA]⟩
  keys k hk := h'.keys k (h.keys k hk)
  balance s hs := by
    obtain ⟨hs', heq⟩ := h.balance s hs
    obtain ⟨hs'', heq'⟩ := h'.balance s hs'
    exact ⟨hs'', by omega⟩

end SplitOf

section FrameFacts

variable {w : World} {pid : Nat} {mm : MmState}

/-- What the accounting says of the frames of one process. -/
theorem FrameInv.uses_le_one (h : FrameInv w) (hmm : w.mms.get? pid = some mm) (s : Nat) :
    mm.uses s ≤ 1 :=
  h.once pid mm s hmm

/-- The frame of an entry is there. -/
theorem FrameInv.live_frame (h : FrameInv w) (hmm : w.mms.get? pid = some mm) {k : Nat}
    {m : MemoryMap} (hk : mm.memoryMaps.get? k = some m) : (w.frames m.frameCap).isSome :=
  h.live_entry hmm hk

/-- A slot without a frame is used by no entry. -/
theorem FrameInv.unused_slot (h : FrameInv w) (hmm : w.mms.get? pid = some mm) {s : Nat}
    (hs : w.frames s = none) : mm.uses s = 0 := by
  have hdead : w.frameView.live s = false := by
    show (w.frames s).isSome = false
    rw [hs]
    rfl
  have hle : mm.uses s ≤ w.mms.total (MmState.uses s) := OrdMap.le_total (MmState.uses s) _ hmm
  have htotal : w.mms.total (MmState.uses s) = 0 := (h.unused hdead).1
  omega

/-- A split entry is held once less, and its copies once. -/
theorem FrameInv.split_balance (h : FrameInv w) (hmm : w.mms.get? pid = some mm) (hsound : mm.Sound)
    {m : MemoryMap} {slots : List Nat} {frames : Nat → Option Frame}
    (hm : mm.memoryMaps.get? m.vaddr = some m) (hlen : slots.length = m.pages)
    (hcopied : Copied w.frames m.frameCap slots frames) {s : Nat} (hs : w.mapView.Accounted s) :
    (w.mapView.split pid m slots frames).Accounted s ∧
      (w.mapView.split pid m slots frames).holders s + mm.uses s
        = w.mapView.holders s + (mm.insertSplit m slots).uses s := by
  let u : MapView := ⟨w.mapView.mms.modify pid (·.insertSplit m slots), frames, w.mapView.refs⟩
  have hlive : (w.frames m.frameCap).isSome := h.live_frame hmm hm
  have huses := hsound.uses_split hm hlen s
  rw [List.count_singleton] at huses
  -- a slot of a copy has a frame now, and the other slots have what they had
  have hacc : u.Accounted s := by
    by_cases hmem : s ∈ slots
    · obtain ⟨j, hj⟩ := List.getElem?_of_mem hmem
      obtain ⟨f, hf, -⟩ := hcopied.bytes j s hj
      exact .inl (by rw [show u.frames s = some f from hf]; rfl)
    · unfold MapView.Accounted
      rw [show u.frames s = w.frames s from hcopied.others s hmem]
      exact hs
  refine ⟨hacc.release m.frameCap, ?_⟩
  show (u.release m.frameCap).holders s + mm.uses s = _
  by_cases hold : s = m.frameCap
  · -- the old frame is in none of the new entries
    subst hold
    have hnot : m.frameCap ∉ slots := by
      intro hmem
      rw [(hcopied.fresh _ hmem).2] at hlive
      cases hlive
    have hself : (u.release m.frameCap).holders m.frameCap + 1 = u.holders m.frameCap := by
      refine u.release_holders_self ?_ fun n hn => h.stored _ n hn
      rw [show u.frames m.frameCap = w.frames m.frameCap from hcopied.others _ hnot]
      exact hlive
    have hsame : u.holders m.frameCap = w.mapView.holders m.frameCap := by
      unfold MapView.holders
      rw [show u.frames m.frameCap = w.mapView.frames m.frameCap from hcopied.others _ hnot]
    rw [List.count_eq_zero_of_not_mem hnot, if_pos (beq_self_eq_true _)] at huses
    omega
  · rw [MapView.release_holders_ne u hold]
    rw [if_neg (by simpa using Ne.symm hold)] at huses
    by_cases hmem : s ∈ slots
    · -- a copy was not there, so it has no counter
      have hnone : w.frames s = none := (hcopied.fresh s hmem).2
      have hrefs : w.mapView.refs s = none := hs.resolve_left fun hsome => by
        rw [show w.mapView.frames s = none from hnone] at hsome
        cases hsome
      obtain ⟨j, hj⟩ := List.getElem?_of_mem hmem
      obtain ⟨f, hf, -⟩ := hcopied.bytes j s hj
      have hnew : u.holders s = 1 := by
        unfold MapView.holders
        rw [show u.frames s = some f from hf, show u.refs s = none from hrefs]
        rfl
      have hwas : w.mapView.holders s = 0 := by
        unfold MapView.holders
        rw [show w.mapView.frames s = none from hnone]
        rfl
      rw [List.count_eq_one_of_mem hcopied.nodup hmem, h.unused_slot hmm hnone] at huses
      rw [h.unused_slot hmm hnone]
      omega
    · have hsame : u.holders s = w.mapView.holders s := by
        unfold MapView.holders
        rw [show u.frames s = w.mapView.frames s from hcopied.others s hmem]
      rw [List.count_eq_zero_of_not_mem hmem] at huses
      omega

/-- One round of the loop. -/
theorem SplitStep.splitOf {k : Nat} {m : MemoryMap} {v' : MapView} (h : FrameInv w)
    (hmm : w.mms.get? pid = some mm) (hsound : mm.Sound) (hk : mm.memoryMaps.get? k = some m)
    (hstep : SplitStep pid k w.mapView mm m v') :
    ∃ mm', SplitOf pid w.mapView mm v' mm' ∧ mm'.Sound ∧
      ∀ start stop l, Targets start stop (k :: l) mm → Targets start stop l mm' := by
  have hkey : ∀ k m, mm.memoryMaps.get? k = some m → m.vaddr = k := hsound.key .mapped
  cases hstep with
  -- nothing to split here, so a page of the range that was cut would contradict `hno`
  | kept hno =>
    refine ⟨mm, SplitOf.refl hmm, hsound, fun start stop l ht => ht.skip hkey hk ?_⟩
    intro hcut
    exact hno ⟨hcut.1, hcut.2.1, hcut.2.2.1⟩
  | split slots frames hty hlen hcopied =>
    obtain rfl : m.vaddr = k := hkey k m hk
    have hframes : ∀ s, s ≠ m.frameCap → (w.mapView.split pid m slots frames).frames s = frames s :=
      fun s hs => MapView.release_frames_ne _ hs
    have hmms : (w.mapView.split pid m slots frames).mms
        = w.mms.modify pid (·.insertSplit m slots) := MapView.release_mms _ _
    refine ⟨mm.insertSplit m slots, ?_, hsound.insertSplit hk hlen fun s hs =>
      (hcopied.fresh s hs).1, fun start stop l ht => ht.split hkey⟩
    refine
      { mms := ?_
        others := fun q hq => ?_
        views := fun a => ?_
        fixed := fun k' m' hfix => ?_
        rest := ?_
        keys := fun k' hk' => ?_
        balance := fun s hs => h.split_balance hmm hsound hk hlen hcopied hs }
    · rw [hmms, OrdMap.get?_modify, if_pos rfl, hmm]
      rfl
    · rw [hmms, OrdMap.get?_modify, if_neg hq]
      rfl
    -- an address reads the same through the new entries, which have the pages of the old frame
    · exact hsound.viewAt_split (h.uses_le_one hmm) (fun _ _ hk => h.live_frame hmm hk) hk hlen
        hcopied hframes a
    · have hget := hsound.get?_split hk hlen (l := .mapped) (k := k') (e := m')
      rw [show (mm.insertSplit m slots).memoryMaps
        = (mm.insertSplit m slots).table .mapped from rfl,
        hget]
      constructor
      -- an entry that may not be remapped is none of the new ones, and not the one that is gone
      · rintro (⟨-, j, slot, -, -, rfl⟩ | ⟨-, hk'⟩)
        · have hsame : (splitEntry m slot j).memType = m.memType := rfl
          exact absurd hfix (by rw [hsame, hty]; simp)
        · exact hk'
      · intro hk'
        refine .inr ⟨?_, hk'⟩
        rintro ⟨-, rfl⟩
        rw [hk] at hk'
        cases hk'
        rw [hty] at hfix
        cases hfix
    · exact ⟨_, MmState.insertSplit_rest mm m slots⟩
    -- the first of the new entries is at the start of the old one
    · have hpos : 0 < slots.length := by
        have hsize : 0 < m.size := (hsound.paged .mapped _ m hk).2.2
        have hpages := hsound.pages_eq hk
        unfold PGSIZE at *
        omega
      obtain ⟨e, he⟩ := Option.isSome_iff_exists.mp hk'
      have hget := hsound.get?_split hk hlen (l := .mapped) (k := k') (e := e)
      by_cases heq : k' = m.vaddr
      · have hpage := MmState.insertSplit_page mm hlen (List.getElem?_eq_getElem hpos)
        rw [hsound.wAdd_vaddr hk (hlen ▸ hpos), Nat.zero_mul, Nat.add_zero] at hpage
        rw [heq, hpage]
        rfl
      · have hstay := hget.mpr (.inr ⟨fun hb => heq hb.2, he⟩)
        rw [show (mm.insertSplit m slots).memoryMaps.get? k' = some e from hstay]
        rfl

end FrameFacts

/-- The record of a process whose tables are known. -/
theorem run_getProcess_known {w₀ : World} {pid : Nat} {mm : MmState}
    (hmm : w₀.mms.get? pid = some mm) :
    ∃ t, (getProcess pid).run w₀ = (.ok t, w₀) ∧ t.mm.state = mm := by
  rw [World.get?_mms] at hmm
  obtain ⟨t, ht, heq⟩ := Option.map_eq_some_iff.mp hmm
  exact ⟨t, run_getProcess ht, heq⟩

/-- The record of the process has the memory state that is known. -/
theorem getProcess_known {w₀ : World} {pid : Nat} {mm : MmState} (hmm : w₀.mms.get? pid = some mm)
    {E : Err → World → Prop} :
    Triple (fun w => w = w₀) (getProcess pid) (fun t w => w = w₀ ∧ t.mm.state = mm) E := by
  obtain ⟨t, hrun, rfl⟩ := run_getProcess_known hmm
  rintro w rfl
  rw [hrun]
  refine ⟨fun a ha => ?_, fun _ he => by cases he⟩
  cases ha
  exact ⟨rfl, rfl⟩

/-- A process with tables is there. -/
theorem World.live_of_mms {w : World} {pid : Nat} {mm : MmState} (hmm : w.mms.get? pid = some mm) :
    w.live pid = true := by
  rw [World.get?_mms] at hmm
  obtain ⟨t, ht, -⟩ := Option.map_eq_some_iff.mp hmm
  rw [World.live, ht]
  rfl

/-- The record of a process that is there is found, with the memory state that is known. -/
theorem getProcess_known_serve {w₀ : World} {pid : Nat} {mm : MmState}
    (hmm : w₀.mms.get? pid = some mm) :
    Serve (fun w => w = w₀) (getProcess pid) fun t w => w = w₀ ∧ t.mm.state = mm :=
  Succeeds.of_triple getProcess_serves.stays (getProcess_known hmm (E := fun _ _ => False))
    fun _ _ hno => hno.elim

/-- A split of no entry fails. -/
theorem splitLargeMappingIntoBasePages_missing {v : MapView} {pid k : Nat} {mm : MmState}
    (hmm : v.mms.get? pid = some mm) (hk : mm.memoryMaps.get? k = none) :
    Triple (fun w => w.mapView = v) (splitLargeMappingIntoBasePages pid k) (fun _ _ => False)
      (fun _ _ => True) := by
  rintro w rfl
  obtain ⟨t, ht, rfl⟩ : ∃ t, w.task? pid = some t ∧ t.mm.state = mm := by
    rw [World.mapView, World.get?_mms] at hmm
    exact Option.map_eq_some_iff.mp hmm
  unfold splitLargeMappingIntoBasePages
  rw [run_bind_ok (run_getProcess ht), hk]
  refine ⟨fun _ hok => ?_, fun _ _ => trivial⟩
  cases hok

/-- The split of a range has the entries `l` to go. So far no address has changed. -/
def Splitting (w₀ : World) (pid : Nat) (mm : MmState) (start stop : Nat)
    (l : List Nat) (w : World) :
    Prop :=
  FrameInv w ∧ ∃ mm', SplitOf pid w₀.mapView mm w.mapView mm' ∧ mm'.Sound ∧ Targets start stop l mm'

section SplitRange

variable {w₀ : World} {pid start stop : Nat} {mm : MmState}

/-- One round of the split of a range. -/
theorem splitLargeMappingIntoBasePages_splitting (k : Nat) (rest : List Nat) :
    Triple (Splitting w₀ pid mm start stop (k :: rest)) (splitLargeMappingIntoBasePages pid k)
      (fun _ => Splitting w₀ pid mm start stop rest) (fun _ _ => True) := by
  intro w hw
  obtain ⟨hfinv, mm', hsplit, hsound', htargets⟩ := hw
  refine ⟨?_, fun _ _ => trivial⟩
  intro a ha
  have hkeep := splitLargeMappingIntoBasePages_keeps pid k w hfinv
  cases hk : mm'.memoryMaps.get? k with
  | none =>
    exact ((splitLargeMappingIntoBasePages_missing hsplit.mms hk w rfl).1 a ha).elim
  | some m =>
    have hrun := (splitLargeMappingIntoBasePages_view hsplit.mms hk
      (hfinv.live_frame hsplit.mms hk) w rfl).1 a ha
    obtain ⟨mm'', hsplit', hsound'', htargets'⟩ := hrun.splitOf hfinv hsplit.mms hsound' hk
    exact ⟨hkeep, mm'', hsplit.trans hsplit', hsound'', htargets' _ _ _ htargets⟩

/-- Before the first split the targets are as they were found. -/
theorem Splitting.first (hinv : FrameInv w₀) (hmm : w₀.mms.get? pid = some mm) (hsound : mm.Sound) :
    Splitting w₀ pid mm start stop (mm.splitPartialMultiPageTargets start stop) w₀ :=
  ⟨hinv, mm, SplitOf.refl hmm, hsound, fun _ hv => hv⟩

/-- An entry that was there is still there. -/
theorem Splitting.entryAt {l : List Nat} {w : World}
    (h : Splitting w₀ pid mm start stop l w) {k : Nat}
    (hk : (mm.memoryMaps.get? k).isSome) : w.EntryAt pid k := by
  obtain ⟨-, mm', hsplit, -⟩ := h
  obtain ⟨m, hm⟩ := Option.isSome_iff_exists.mp (hsplit.keys k hk)
  have hmms : w.mms.get? pid = some mm' := hsplit.mms
  rw [World.get?_mms] at hmms
  obtain ⟨t, ht, rfl⟩ := Option.map_eq_some_iff.mp hmms
  exact ⟨t, m, ht, hm⟩

/-- The split of a range changes no address, and leaves no entry of several pages that sticks
out of the range. -/
theorem ensurePartialMultiPageRangesSplit_view (hinv : FrameInv w₀)
    (hmm : w₀.mms.get? pid = some mm) (hsound : mm.Sound) (start stop : Nat) :
    Triple (fun w => w = w₀) (ensurePartialMultiPageRangesSplit pid start stop)
      (fun _ w => FrameInv w ∧ ∃ mm', SplitOf pid w₀.mapView mm w.mapView mm' ∧ mm'.Sound ∧
        Targets start stop [] mm')
      (fun _ _ => True) := by
  refine Triple.bind (getProcess_known hmm) fun task => Triple.of_pre fun w₁ h₁ => ?_
  obtain ⟨rfl, rfl⟩ := h₁
  refine (Triple.forEach (Splitting w₁ pid task.mm.state start stop)
    splitLargeMappingIntoBasePages_splitting _).pre fun w hw => ?_
  rw [hw]
  exact Splitting.first hinv hmm hsound

/-- It fails only when a service refuses a call. -/
theorem ensurePartialMultiPageRangesSplit_serve (hinv : FrameInv w₀)
    (hmm : w₀.mms.get? pid = some mm) (hsound : mm.Sound) (start stop : Nat) :
    Serve (fun w => w = w₀) (ensurePartialMultiPageRangesSplit pid start stop)
      fun _ w => FrameInv w ∧ ∃ mm', SplitOf pid w₀.mapView mm w.mapView mm' ∧ mm'.Sound ∧
        Targets start stop [] mm' := by
  have hlive : w₀.live pid = true := World.live_of_mms hmm
  -- what is left to split is there
  let I (l : List Nat) (w : World) : Prop := w.Live pid ∧ Splitting w₀ pid mm start stop l w ∧
    ∀ k ∈ l, (mm.memoryMaps.get? k).isSome
  refine Succeeds.bind (getProcess_known_serve hmm) fun task => ?_
  refine Succeeds.of_pre ?_ ?_
  · exact Keeps.forEach fun k => (splitLargeMappingIntoBasePages_serve k).stays
  intro w₁ h₁
  obtain ⟨rfl, rfl⟩ := h₁
  have htargets : ∀ k ∈ task.mm.state.splitPartialMultiPageTargets start stop,
      (task.mm.state.memoryMaps.get? k).isSome := by
    intro k hk
    obtain ⟨k', m, hm, -, hkey⟩ := MmState.mem_splitTargets.mp hk
    rw [← hkey, hsound.key .mapped k' m hm, hm]
    rfl
  refine (Succeeds.forEach I _ ?_).imp ?_ fun _ w hw => hw.2.1
  · intro k rest _
    have hsplit : Triple (Splitting w₁ pid task.mm.state start stop (k :: rest))
        (splitLargeMappingIntoBasePages pid k)
        (fun _ => Splitting w₁ pid task.mm.state start stop rest) (fun _ _ => True) :=
      splitLargeMappingIntoBasePages_splitting k rest
    have hround := ((@splitLargeMappingIntoBasePages_serve pid k).and_triple hsplit).frame
      (I := fun _ => ∀ j ∈ rest, (task.mm.state.memoryMaps.get? j).isSome) fun _ h => h
    exact hround.imp (fun w hw => ⟨⟨hw.2.1.entryAt (hw.2.2 k List.mem_cons_self), hw.2.1⟩,
      fun j hj => hw.2.2 j (List.mem_cons_of_mem k hj)⟩) fun _ w hw => ⟨hw.1.1, hw.1.2, hw.2⟩
  · intro w hw
    rw [hw]
    exact ⟨hlive, Splitting.first hinv hmm hsound, htargets⟩

end SplitRange

end Ape
