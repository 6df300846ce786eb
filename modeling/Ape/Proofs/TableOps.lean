import Ape.Proofs.FrameOps
import Ape.Proofs.Tables
import Mathlib.Data.List.TakeWhile

/-!
# `Ape.Proofs.TableOps`: the memory calls keep the tables in shape

Every call that edits the tables of a process, with the invariant of `Ape.Proofs.Tables`. The
calls are followed once, for alignment alone and for the whole invariant: `whole` says which.

`Tabs O pid whole R` is the assertion about one process. `O` is about the tables of the other
processes, which a call for `pid` leaves alone, and `R` is what is known about the table of
`pid` at this point of the call.
-/

set_option autoImplicit false

namespace Ape

open Ape.Lib Cmd MmState

/-- The table of `pid` has `P`, and the tables of the others have `O`. -/
def TabAt (O : OrdMap Nat MmState → Prop) (pid : Nat) (P : MmState → Prop) (w : World) : Prop :=
  O w.mms ∧ ∀ mm, w.mms.get? pid = some mm → P mm

/-- The table of `pid` is tidy and has `R`. -/
def Tabs (O : OrdMap Nat MmState → Prop) (pid : Nat) (whole : Prop) (R : MmState → Prop) :
    World → Prop :=
  TabAt O pid fun mm => mm.Tidy whole ∧ R mm

/-- The table of `pid` is tidy. -/
def TabInv (O : OrdMap Nat MmState → Prop) (pid : Nat) (whole : Prop) : World → Prop :=
  Tabs O pid whole fun _ => True

/-- A fact about the other processes, that a change of the table of `pid` keeps. -/
class Others (O : OrdMap Nat MmState → Prop) (pid : Nat) : Prop where
  modify : ∀ mms f, O mms → O (mms.modify pid f)

section Rules

variable {O : OrdMap Nat MmState → Prop} {pid : Nat} {whole : Prop} {R T : MmState → Prop}
variable {α : Type} {E : Err → World → Prop}

/-- What is known of the tables can be weakened. -/
theorem Tabs.imp {w : World} (h : Tabs O pid whole R w)
    (hR : ∀ mm : MmState, mm.Tidy whole → R mm → T mm) : Tabs O pid whole T w :=
  ⟨h.1, fun mm hmm => ⟨(h.2 mm hmm).1, hR mm (h.2 mm hmm).1 (h.2 mm hmm).2⟩⟩

/-- Tidy tables with something more known of them are tidy. -/
theorem Tabs.inv {w : World} (h : Tabs O pid whole R w) : TabInv O pid whole w :=
  h.imp fun _ _ _ => trivial

/-- A command that leaves the tables alone. -/
theorem tabs_step {c : M α} (hc : Frames World.mms c) :
    Triple (Tabs O pid whole R) c (fun _ => Tabs O pid whole R) (fun _ => TabInv O pid whole) := by
  have hk : Keeps (Tabs O pid whole R) c := hc.keeps fun mms =>
    O mms ∧ ∀ mm, mms.get? pid = some mm → mm.Tidy whole ∧ R mm
  exact hk.triple.errors fun _ _ h => h.inv

/-- The same, with what is known about the value. -/
theorem tabs_step_val {c : M α} {V : α → Prop} (hc : Frames World.mms c)
    (hv : Triple (fun _ => True) c (fun a _ => V a) fun _ _ => True) :
    Triple (Tabs O pid whole R) c (fun a w => Tabs O pid whole R w ∧ V a)
      (fun _ => TabInv O pid whole) :=
  ((tabs_step hc).and hv).imp (fun _ h => ⟨h, trivial⟩) (fun _ _ h => h) fun _ _ h => h.1

/-- A command that leaves the memory states keeps the tables tidy. -/
theorem tabInv_keeps {c : M α} (hc : Frames World.mms c) : Keeps (TabInv O pid whole) c :=
  Triple.keeps ((tabs_step hc).errors fun _ _ h => h)

/-- The rule of a change of the tables. -/
theorem tabAt_edit [hO : Others O pid] {P Q : MmState → Prop} {f : MmState → MmState}
    (hf : ∀ mm, P mm → Q (f mm)) :
    Triple (TabAt O pid P) (modifyMm pid f) (fun _ => TabAt O pid Q) E := by
  refine Triple.modify fun w h => ?_
  rw [TabAt, World.mms_modifyMm]
  refine ⟨hO.modify _ f h.1, ?_⟩
  intro mm hmm
  rw [OrdMap.get?_modify, if_pos rfl] at hmm
  obtain ⟨mm₀, hmm₀, rfl⟩ := Option.map_eq_some_iff.mp hmm
  exact hf mm₀ (h.2 mm₀ hmm₀)

/-- An edit of the table. -/
theorem tabs_edit [Others O pid] {f : MmState → MmState}
    (hf : ∀ mm : MmState, mm.Tidy whole → R mm → (f mm).Tidy whole ∧ T (f mm)) :
    Triple (Tabs O pid whole R) (modifyMm pid f) (fun _ => Tabs O pid whole T) E :=
  tabAt_edit fun mm h => hf mm h.1 h.2

/-- The last edit of a call. -/
theorem tabs_edit_last [Others O pid] {f : MmState → MmState}
    (hf : ∀ mm : MmState, mm.Tidy whole → R mm → (f mm).Tidy whole) :
    Triple (Tabs O pid whole R) (modifyMm pid f) (fun _ => TabInv O pid whole) E :=
  tabs_edit fun mm h hR => ⟨hf mm h hR, trivial⟩

/-- A change that keeps tables tidy keeps those of the process tidy. -/
theorem tabInv_edit [Others O pid] {f : MmState → MmState}
    (hf : ∀ mm : MmState, mm.Tidy whole → (f mm).Tidy whole) :
    Keeps (TabInv O pid whole) (modifyMm pid f) :=
  Triple.keeps (tabs_edit_last fun mm h _ => hf mm h)

/-- The process that a lookup returns has the table of this point. -/
theorem tabs_get {β : Type} {k : TaskStruct → M β} {Q : β → World → Prop}
    (hk : ∀ t : TaskStruct, t.mm.state.Tidy whole → R t.mm.state →
      Triple (Tabs O pid whole fun mm => mm = t.mm.state) (k t) Q fun _ => TabInv O pid whole) :
    Triple (Tabs O pid whole R) (getProcess pid >>= k) Q fun _ => TabInv O pid whole := by
  refine Triple.bind (R := fun t w => Tabs O pid whole R w ∧ w.mms.get? pid = some t.mm.state)
    ((getProcess_at pid).errors fun _ _ h => h.inv) fun t => ?_
  refine Triple.of_pre fun w h => ?_
  obtain ⟨htidy, hR⟩ := h.1.2 _ h.2
  refine (hk t htidy hR).pre fun w' hw => ?_
  subst hw
  refine ⟨h.1.1, ?_⟩
  intro mm hmm
  rw [h.2] at hmm
  cases hmm
  exact ⟨htidy, rfl⟩

end Rules

/-! ### New slots -/

/-- A new slot is not null. -/
theorem cspaceAlloc_ne_zero :
    Triple (fun _ => True) cspaceAlloc (fun slot _ => slot ≠ 0) fun _ _ => True := by
  unfold cspaceAlloc
  refine Triple.bind (R := fun _ _ => True) (Triple.imp (Keeps.triple (I := fun _ => True)
    fun _ _ => trivial) (fun _ h => h) (fun _ _ h => h) fun _ _ h => h) fun a => ?_
  refine Triple.bind (R := fun free w => free = decide (w.SlotFree a.val))
    (Triple.gets fun _ _ => rfl) fun free => ?_
  refine Triple.ite (fun hfree => ?_) fun _ => refuse_triple fun _ _ => trivial
  subst hfree
  refine Triple.bind (R := fun _ _ => a.val ≠ 0) (Triple.modify fun w h => ?_) fun _ =>
    Triple.pure fun _ h => h
  exact (of_decide_eq_true h.symm).1

/-- The rest of an allocation does not change the slot. -/
theorem slot_ne_zero {α : Type} {k : Nat → M α} {V : α → Prop}
    (hk : ∀ slot, slot ≠ 0 → Triple (fun _ => True) (k slot) (fun a _ => V a) fun _ _ => True) :
    Triple (fun _ => True) (cspaceAlloc >>= k) (fun a _ => V a) fun _ _ => True :=
  Triple.bind cspaceAlloc_ne_zero fun slot => Triple.of_pre fun _ hslot =>
    (hk slot hslot).pre fun _ _ => trivial

/-- New page frames are in a slot that is not the null one. -/
theorem allocPageFrameNoCleanup_ne_zero (pages : Nat) :
    Triple (fun _ => True) (allocPageFrameNoCleanup pages) (fun slot _ => slot ≠ 0)
      fun _ _ => True :=
  slot_ne_zero fun _ hslot => Triple.bind (triple_true _) fun _ => Triple.pure fun _ _ => hslot

/-- A new page frame is in a slot that is not the null one. -/
theorem allocPageFrame_ne_zero :
    Triple (fun _ => True) allocPageFrame (fun slot _ => slot ≠ 0) fun _ _ => True :=
  slot_ne_zero fun _ hslot => Triple.bind (triple_true _) fun _ => Triple.pure fun _ _ => hslot

/-- The slots of a split: one for each page, none of them null. -/
theorem splitCopyPages_slots (pid src : Nat) : ∀ (l slots : List Nat), (∀ s ∈ slots, s ≠ 0) →
    Triple (fun _ => True) (splitCopyPages pid src l slots)
      (fun r _ => r.length = slots.length + l.length ∧ ∀ s ∈ r, s ≠ 0) fun _ _ => True := by
  -- the slots so far are not the null capability, and each round adds one more
  intro l
  induction l with
  | nil => exact fun slots h => Triple.pure fun _ _ => ⟨rfl, h⟩
  | cons idx rest ih =>
    intro slots h
    unfold splitCopyPages
    refine Triple.bind (R := fun slot _ => slot ≠ 0)
      (Triple.onError cspaceAlloc_ne_zero fun _ => triple_true _) fun slot => ?_
    refine Triple.of_pre fun _ hslot => Triple.pre ?_ fun _ _ => trivial
    refine Triple.bind (triple_true _) fun _ => Triple.bind (triple_true _) fun _ => ?_
    refine Triple.bind (triple_true _) fun _ => Triple.bind (triple_true _) fun _ => ?_
    refine Triple.bind (triple_true _) fun _ => ?_
    refine (ih (slots ++ [slot]) ?_).post fun r _ h => ⟨?_, h.2⟩
    · intro s hs
      rcases List.mem_append.mp hs with hs | hs
      · exact h s hs
      · rw [List.mem_singleton.mp hs]
        exact hslot
    · rw [h.1, List.length_append, List.length_singleton, List.length_cons]
      omega

section Calls

variable {O : OrdMap Nat MmState → Prop} {pid : Nat} {whole : Prop} {R : MmState → Prop}

/-- A new slot, for the rest of a call. -/
theorem tabs_slot {α β : Type} {c : M α} {k : α → M β} {V : α → Prop} {Q : β → World → Prop}
    (hc : Frames World.mms c) (hv : Triple (fun _ => True) c (fun a _ => V a) fun _ _ => True)
    (hk : ∀ a, V a → Triple (Tabs O pid whole R) (k a) Q fun _ => TabInv O pid whole) :
    Triple (Tabs O pid whole R) (c >>= k) Q fun _ => TabInv O pid whole := by
  refine Triple.bind (tabs_step_val hc hv) fun a => Triple.of_pre fun w h => ?_
  exact (hk a h.2).pre fun w' hw => hw ▸ h.1

/-! ### The stack -/

/-- The growth has reached the page `idx` below `low`. -/
def Grown (bottom limit low idx : Nat) (mm : MmState) : Prop :=
  mm.stackBottom = bottom ∧ mm.maxStackSize = limit ∧ bottom - mm.stackSize + idx * PGSIZE = low

/-- The next page of a growth is the one below the stack. -/
theorem Grown.next {bottom limit low idx v : Nat} {mm : MmState} (h : Grown bottom limit low idx mm)
    (hv : v + (idx + 1) * PGSIZE = low) : v + PGSIZE = mm.stackBottom - mm.stackSize := by
  obtain ⟨hb, -, hlow⟩ := h
  rw [hb]
  rw [Nat.succ_mul] at hv
  omega

/-- The stack with one more page. -/
def MmState.grow (mm : MmState) (v slot : Nat) : MmState :=
  { mm.addMemoryMap (pageEntry v Perms.RW .stack slot) with stackSize := mm.stackSize + PGSIZE }

/-- A stack that grew by some pages grows by one more. -/
theorem Grown.grow {bottom limit low idx v slot : Nat} {mm : MmState}
    (htidy : mm.Tidy whole) (h : Grown bottom limit low idx mm) (hslot : slot ≠ 0)
    (hv : v + (idx + 1) * PGSIZE = low) (hlow : whole → bottom - limit ≤ v) :
    (mm.grow v slot).Tidy whole ∧ Grown bottom limit low (idx + 1) (mm.grow v slot) := by
  have hnext := h.next hv
  obtain ⟨hb, hl, -⟩ := h
  refine ⟨htidy.growStack hslot hnext fun hd => by rw [hb, hl]; exact hlow hd, hb, hl, ?_⟩
  have hroom := (htidy.1.stack_room hnext).2.1
  show bottom - (mm.stackSize + PGSIZE) + (idx + 1) * PGSIZE = low
  rw [← hb, hroom]
  exact hv

/-- A page of the stack goes below those that are there. -/
theorem growStackPage_tabs [Others O pid] {bottom limit low idx v : Nat}
    (hv : v + (idx + 1) * PGSIZE = low)
    (hlow : whole → bottom - limit ≤ v) :
    Triple (Tabs O pid whole (Grown bottom limit low idx)) (growStackPage pid v)
      (fun _ => Tabs O pid whole (Grown bottom limit low (idx + 1))) fun _ =>
        TabInv O pid whole := by
  refine tabs_slot (by simp) (allocPageFrameNoCleanup_ne_zero 1) fun slot hslot => ?_
  refine Triple.bind (tabs_step (by simp)) fun _ => Triple.bind (tabs_step (by simp)) fun _ => ?_
  refine Triple.bind (tabs_step (by simp)) fun _ => tabs_edit fun mm htidy h => ?_
  rw [(htidy.1.stack_room (h.next hv)).1]
  exact h.grow htidy hslot hv hlow

/-- A loop that grows the stack page by page. -/
theorem growth_tabs (bottom limit low : Nat) {body : Nat → M Unit} :
    ∀ (n idx : Nat), (∀ i, idx ≤ i → i < idx + n →
      Triple (Tabs O pid whole (Grown bottom limit low i)) (body i)
        (fun _ => Tabs O pid whole (Grown bottom limit low (i + 1))) fun _ => TabInv O pid whole) →
    Triple (Tabs O pid whole (Grown bottom limit low idx)) (forEach (List.range' idx n) body)
      (fun _ => TabInv O pid whole) fun _ => TabInv O pid whole := by
  intro n
  induction n with
  | zero => exact fun idx _ => Triple.pure fun w h => h.inv
  | succ n ih =>
    intro idx hbody
    refine Triple.bind (hbody idx le_rfl (by omega)) fun _ => ?_
    exact ih (idx + 1) fun i hlo hhi => hbody i (by omega) (by omega)

/-- The pages of a growth down to the page of an address are in the reservation. -/
theorem growth_page {mm : MmState} (h : mm.Tidy whole) (addr : Nat) {i : Nat}
    (hlow : mm.stackBottom - mm.maxStackSize ≤ addr)
    (hi : i < (mm.stackBottom - mm.stackSize - alignDown addr) / PGSIZE) :
    mm.stackBottom - mm.stackSize - (i + 1) * PGSIZE + (i + 1) * PGSIZE
        = mm.stackBottom - mm.stackSize ∧
      (whole → mm.stackBottom - mm.maxStackSize
        ≤ mm.stackBottom - mm.stackSize - (i + 1) * PGSIZE) := by
  have hle : (i + 1) * PGSIZE ≤ mm.stackBottom - mm.stackSize - alignDown addr :=
    (Nat.le_div_iff_mul_le (by decide)).mp hi
  have hpos : 0 < (i + 1) * PGSIZE := Nat.mul_pos i.succ_pos (by decide)
  refine ⟨by omega, ?_⟩
  intro hd
  have hb := (h.2 hd).stackBottom
  have hm := (h.2 hd).maxStackSize
  have hfits := (h.2 hd).fits
  have halign : mm.stackBottom - mm.maxStackSize ≤ alignDown addr := by
    unfold alignDown PGSIZE at *
    omega
  omega

/-- The growth of a stack keeps the tables tidy. -/
theorem tryGrowStackForUserAddr_tabs [Others O pid] (userAddr : Nat) :
    Keeps (TabInv O pid whole) (tryGrowStackForUserAddr pid userAddr) := by
  refine Triple.keeps ?_
  unfold tryGrowStackForUserAddr
  refine tabs_get fun t htidy _ => ?_
  refine Triple.ite (fun _ => Triple.pure fun _ h => h.inv) fun hin => ?_
  refine Triple.ite (fun _ => Triple.pure fun _ h => h.inv) fun _ => ?_
  refine Triple.ite (fun _ => Triple.pure fun _ h => h.inv) fun _ => ?_
  refine Triple.bind (R := fun _ => TabInv O pid whole) ?_ fun _ => Triple.pure fun _ h => h
  rw [List.range_eq_range']
  refine (growth_tabs t.mm.state.stackBottom t.mm.state.maxStackSize
    (t.mm.state.stackBottom - t.mm.state.stackSize) _ 0 ?_).pre fun w h => h.imp ?_
  · intro i _ hi
    rw [Nat.zero_add] at hi
    obtain ⟨hpage, hlow⟩ := growth_page htidy userAddr (not_not.mp hin).2 hi
    exact growStackPage_tabs hpage hlow
  · intro mm _ heq
    subst heq
    exact ⟨rfl, rfl, by omega⟩

/-! ### Pages of a fault -/

/-- A page may be put at `v`. -/
def HasRoom (whole : Prop) (v : Nat) (mm : MmState) : Prop :=
  whole → mm.Free v PGSIZE ∧ v + PGSIZE < usizeMod

/-- A page after a fault goes where no entry is. -/
theorem mapFaultPage_tabs [Others O pid] {v : Nat} (hv : v % PGSIZE = 0) (perms : Perms)
    (ty : MemoryType) :
    Triple (Tabs O pid whole (HasRoom whole v)) (mapFaultPage pid v perms ty)
      (fun _ => TabInv O pid whole) fun _ => TabInv O pid whole := by
  refine tabs_slot (by simp) (allocPageFrameNoCleanup_ne_zero 1) fun slot hslot => ?_
  refine Triple.bind (tabs_step (by simp)) fun _ => Triple.bind (tabs_step (by simp)) fun _ => ?_
  refine Triple.bind (tabs_step (by simp)) fun _ => tabs_edit_last fun mm htidy hroom => ?_
  refine htidy.addTo (l := .mapped) hv fun hd => ⟨?_, (hroom hd).1⟩
  exact Entry.page hv hslot (hroom hd).2 perms ty

/-- The growth of the stack by a fault: the page comes first and the size of the stack after
it, with nothing that fails between them. -/
theorem faultStackPage_tabs [Others O pid] {bottom limit low idx v : Nat}
    (hv : v + (idx + 1) * PGSIZE = low) (hlow : whole → bottom - limit ≤ v) :
    Triple (Tabs O pid whole (Grown bottom limit low idx))
      (do mapFaultPage pid v Perms.RW .stack
          modifyMm pid fun mm => { mm with stackSize := mm.stackSize + PGSIZE })
      (fun _ => Tabs O pid whole (Grown bottom limit low (idx + 1))) fun _ =>
        TabInv O pid whole := by
  refine Triple.bind (R := fun _ => TabAt O pid fun mm => ∃ mm₀ : MmState, ∃ slot,
    (mm₀.Tidy whole ∧ Grown bottom limit low idx mm₀) ∧ slot ≠ 0 ∧
      mm = mm₀.addMemoryMap (pageEntry v Perms.RW .stack slot)) ?_ fun _ => ?_
  · refine tabs_slot (by simp) (allocPageFrameNoCleanup_ne_zero 1) fun slot hslot => ?_
    refine Triple.bind (tabs_step (by simp)) fun _ => Triple.bind (tabs_step (by simp)) fun _ => ?_
    exact Triple.bind (tabs_step (by simp)) fun _ => tabAt_edit fun mm h =>
      ⟨mm, slot, h, hslot, rfl⟩
  · refine tabAt_edit fun mm h => ?_
    obtain ⟨mm₀, slot, ⟨htidy, hgrown⟩, hslot, rfl⟩ := h
    exact hgrown.grow htidy hslot hv hlow

/-- A fault below the stack lets it grow to the page of the fault. -/
theorem faultStackGrowth_tabs [Others O pid] {mm₀ : MmState} (htidy : mm₀.Tidy whole) (addr : Nat)
    (hlow : mm₀.stackBottom - mm₀.maxStackSize ≤ addr) :
    Triple (Tabs O pid whole fun mm => mm = mm₀)
      (faultStackGrowth pid (mm₀.stackBottom - mm₀.stackSize)
        ((mm₀.stackBottom - mm₀.stackSize - alignDown addr) / PGSIZE))
      (fun _ => TabInv O pid whole) fun _ => TabInv O pid whole := by
  unfold faultStackGrowth
  rw [List.range_eq_range']
  refine (growth_tabs mm₀.stackBottom mm₀.maxStackSize (mm₀.stackBottom - mm₀.stackSize) _ 0
    ?_).pre fun w h => h.imp ?_
  · intro i _ hi
    rw [Nat.zero_add] at hi
    obtain ⟨hpage, hlow'⟩ := growth_page htidy addr hlow hi
    exact faultStackPage_tabs hpage hlow'
  · intro mm _ heq
    subst heq
    exact ⟨rfl, rfl, by omega⟩

/-! ### Faults in an entry -/

/-- A page that is mapped again keeps the tables tidy. -/
theorem remapExistingPage_tabs [Others O pid] (v frameCap : Nat) (perms : Perms) (pages : Nat) :
    Keeps (TabInv O pid whole) (remapExistingPage pid v frameCap perms pages) := by
  unfold remapExistingPage
  refine Keeps.bind (tabInv_keeps (by simp)) fun _ =>
    Keeps.bind (tabInv_keeps (by simp)) fun _ => ?_
  exact tabInv_edit fun mm h => h.within (within_modify mm v fun _ => ⟨rfl, id⟩)

/-- A page that gets a frame of its own keeps the tables tidy. -/
theorem resolveCowFault_tabs [Others O pid] (v oldFrame : Nat) (perms : Perms) :
    Keeps (TabInv O pid whole) (resolveCowFault pid v oldFrame perms) := by
  unfold resolveCowFault
  refine Keeps.ite (Keeps.throw _) (Triple.keeps ?_)
  refine tabs_slot (by simp) (allocPageFrameNoCleanup_ne_zero 1) fun slot hslot => ?_
  refine Triple.bind (tabs_step (by simp)) fun _ => ?_
  refine Triple.bind (tabs_step (copyFramePage_frames _ _)) fun _ => ?_
  refine Triple.bind (tabs_step (by simp)) fun _ => Triple.bind (tabs_step (by simp)) fun _ => ?_
  refine Triple.bind (tabs_edit_last fun mm h _ => h.within (within_modify mm v fun _ =>
    ⟨rfl, fun _ => hslot⟩)) fun _ => (tabInv_keeps (by simp)).triple

/-! ### Faults in a lazy entry -/

/-- The span of a fault is made of lazy pages that are there. -/
theorem MmState.Sound.spanned {mm : MmState} (h : mm.Sound) {addr : Nat} {m : MemoryMap}
    (hm : mm.lookupLazyMemoryMap addr = some m) (n : Nat) :
    mm.Spanned (alignDown addr) (spanPages mm m (alignDown addr) n) := by
  intro idx hidx
  obtain ⟨hfirst, -, -⟩ := h.lazy_page hm
  rcases Nat.eq_zero_or_pos idx with rfl | hpos
  · simp [hfirst]
  · -- the page was looked at before the span ended
    let l := (List.range' 1 (max n 1 - 1)).takeWhile (continuesSpan mm m (alignDown addr))
    have hlt : idx - 1 < l.length := by
      unfold spanPages at hidx
      simp only [l]
      omega
    have hat : l[idx - 1] = idx := by
      have htaken := List.takeWhile_prefix (continuesSpan mm m (alignDown addr))
        (l := List.range' 1 (max n 1 - 1))
      rw [htaken.getElem hlt, List.getElem_range']
      omega
    have hcont : continuesSpan mm m (alignDown addr) idx = true := by
      have hmem : l[idx - 1] ∈ l := List.getElem_mem hlt
      rw [hat] at hmem
      exact List.mem_takeWhile_imp hmem
    unfold continuesSpan at hcont
    split at hcont
    · rename_i c hc
      -- a key of the table is a page boundary, so the sum did not saturate
      have hkey := h.key .lazily _ c hc
      have hpage := (h.paged .lazily _ c hc).1
      rw [MemoryMap.span, hkey] at hpage
      dsimp only at hpage
      have hsat : satAdd (alignDown addr) (idx * PGSIZE) = alignDown addr + idx * PGSIZE := by
        unfold satAdd usizeMax usizeMod alignDown PGSIZE at *
        omega
      rw [← hsat, hc]
      rfl
    · cases hcont

/-- The pages from a lazy page on, as far as its span goes, are lazy pages of one file. -/
theorem MmState.Tidy.spanned {mm : MmState} (h : mm.Tidy whole) {addr : Nat} {m : MemoryMap}
    (hm : mm.lookupLazyMemoryMap addr = some m) (n : Nat) :
    whole → mm.Spanned (alignDown addr) (spanPages mm m (alignDown addr) n) :=
  fun hd => (h.2 hd).spanned hm n

/-- A rounded address is a page boundary. -/
theorem alignDown_page (addr : Nat) : alignDown addr % PGSIZE = 0 := Nat.mul_mod_left _ _

/-- The frames of a file service replace the lazy pages of the span. -/
theorem tryZeroCopy_tabs [Others O pid] {fd v n : Nat} {m : MemoryMap} (hv : v % PGSIZE = 0)
    (hn : 0 < n) :
    Triple (Tabs O pid whole fun mm => whole → mm.Spanned v n) (tryZeroCopy pid fd v m n)
      (fun r => Tabs O pid whole fun mm => r = 0 → whole → mm.Spanned v n)
      fun _ => TabInv O pid whole := by
  unfold tryZeroCopy
  refine Triple.bind (tabs_step (by simp [backingHandle])) fun _ => ?_
  refine tabs_slot (by simp) cspaceAlloc_ne_zero fun slot hslot => ?_
  have hmap : Frames World.mms (fsMapPages n slot) :=
    Frames.bind ext_frames fun _ => Frames.bind (fun _ => rfl) fun _ => Frames.pure _
  refine Triple.bind (tabs_step (Frames.attempt hmap)) fun r => ?_
  cases r with
  -- a mapping of no pages is undone and refused
  | ok k =>
    cases k with
    | zero => exact Triple.bind (tabs_step (by simp)) fun _ => Triple.throw fun _ h => h.inv
    | succ k =>
      refine Triple.bind (tabs_step ?_) fun _ => Triple.bind (tabs_step (by simp)) fun _ => ?_
      · exact Frames.onError (by simp) fun _ => by simp
      · refine Triple.bind (tabs_edit fun mm h hspan => ⟨h.installSpan hv hn hspan hslot, ?_⟩)
          fun _ => Triple.bind (tabs_step (emit_frames _)) fun _ => Triple.pure fun _ h => h
        omega
  | error e =>
    cases e with
    -- the backend maps no pages here, so nothing was entered
    | notSupported =>
      exact Triple.bind (tabs_step (by simp)) fun _ => Triple.pure fun _ h =>
        h.imp fun _ _ hspan _ => hspan
    | _ => exact Triple.bind (tabs_step (by simp)) fun _ => Triple.throw fun _ h => h.inv

/-- A page with the bytes of a file replaces its lazy page. -/
theorem copyFilePage_tabs [Others O pid] {fd v : Nat} {m : MemoryMap} (hv : v % PGSIZE = 0) :
    Triple (Tabs O pid whole fun mm => whole → mm.Spanned v 1) (copyFilePage pid fd v m)
      (fun _ => TabInv O pid whole) fun _ => TabInv O pid whole := by
  unfold copyFilePage
  refine Triple.bind (tabs_step (by simp [backingHandle])) fun _ => ?_
  refine tabs_slot (by simp) allocPageFrame_ne_zero fun slot hslot => ?_
  refine Triple.bind (tabs_step (by simp)) fun _ => ?_
  refine Triple.bind (tabs_step (Frames.onError (by simp) fun _ => by simp)) fun _ => ?_
  refine Triple.bind (tabs_step (Frames.onError (by simp) fun _ =>
    Frames.bind (by simp) fun _ => by simp)) fun scratch => ?_
  refine Triple.bind (tabs_step (Frames.attempt (fillFromFile_frames scratch))) fun r => ?_
  refine Triple.bind (tabs_step (by simp)) fun _ => ?_
  refine Triple.bind (tabs_step (Frames.onError (by simp) fun _ =>
    Frames.bind (by simp) fun _ => by simp)) fun _ => ?_
  refine Triple.bind (tabs_step (by simp)) fun _ => ?_
  exact Triple.bind (tabs_edit_last fun mm h hspan =>
    h.installSpan hv (by decide) hspan hslot) fun _ =>
      Triple.bind (tabs_step (emit_frames _)) fun _ => Triple.pure fun _ h => h

/-- A fault in a file mapping replaces lazy pages by mapped ones. -/
theorem mapFileBackedFaultPage_tabs [Others O pid] {mm₀ : MmState} {addr n : Nat} {m : MemoryMap}
    (hm : mm₀.lookupLazyMemoryMap addr = some m) :
    Triple (Tabs O pid whole fun mm => mm = mm₀)
      (mapFileBackedFaultPage pid (alignDown addr) m n) (fun _ => TabInv O pid whole)
      fun _ => TabInv O pid whole := by
  unfold mapFileBackedFaultPage
  refine Triple.bind (tabs_step (by simp)) fun fd => tabs_get fun t htidy heq => ?_
  subst heq
  have hspan : ∀ k, whole → t.mm.state.Spanned (alignDown addr)
      (spanPages t.mm.state m (alignDown addr) k) := fun k => htidy.spanned hm k
  refine Triple.bind (R := fun r => Tabs O pid whole fun mm => r = 0 → whole →
    mm.Spanned (alignDown addr) (spanPages t.mm.state m (alignDown addr) n)) ?_ ?_
  · exact (tryZeroCopy_tabs (alignDown_page addr) (spanPages_pos _ _ _ _)).pre fun w h =>
      h.imp fun mm _ heq hd => heq ▸ hspan n hd
  · intro r
    refine Triple.ite (fun _ => Triple.pure fun _ h => h.inv) fun hr => ?_
    refine (copyFilePage_tabs (alignDown_page addr)).pre fun w h =>
      h.imp fun mm _ hzero hd idx hidx => ?_
    exact hzero (by omega) hd idx (by have := spanPages_pos t.mm.state m (alignDown addr) n; omega)

end Calls

end Ape
