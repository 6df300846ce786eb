import Ape.Proofs.FrameRuns
import Ape.Proofs.TableCalls

/-!
# `Ape.Proofs.TableRuns`: the tables of all processes through whole requests

A call for one process leaves the tables of the others alone, but its end may not: the exit of a
process stores the status in the memory of the parent, which can grow the parent's stack. So the
invariant is about a set of processes. `AllTabs S whole` says that the tables of the processes of
`S` are tidy.

`table_calls_keep_sound` takes `S` to be the caller. `Reachable.aligned` takes every process, and
only alignment, which the loader keeps as well.
-/

set_option autoImplicit false

namespace Ape

open Ape.Lib Cmd MmState

/-- The tables of the processes of `S` are tidy. -/
def AllTabs (S : Nat → Prop) (whole : Prop) (w : World) : Prop :=
  ∀ q mm, S q → w.mms.get? q = some mm → mm.Tidy whole

/-- The tables of the processes of `S` other than `pid` are tidy. -/
def OtherTabs (S : Nat → Prop) (whole : Prop) (pid : Nat) (mms : OrdMap Nat MmState) : Prop :=
  ∀ q mm, S q → q ≠ pid → mms.get? q = some mm → mm.Tidy whole

instance (S : Nat → Prop) (whole : Prop) (pid : Nat) : Others (OtherTabs S whole pid) pid where
  modify mms f h q mm hS hne hq := by
    rw [OrdMap.get?_modify, if_neg hne] at hq
    exact h q mm hS hne hq

section AllTabs

variable {S : Nat → Prop} {whole : Prop} {pid : Nat}

/-- The tables of all processes are those of one process and those of the others. -/
theorem allTabs_iff (hS : S pid) (w : World) :
    AllTabs S whole w ↔ TabInv (OtherTabs S whole pid) pid whole w := by
  constructor
  · intro h
    constructor
    · intro q mm hq _ hmm
      exact h q mm hq hmm
    · intro mm hmm
      exact ⟨h pid mm hS hmm, trivial⟩
  · intro h q mm hq hmm
    by_cases heq : q = pid
    · subst heq
      exact (h.2 mm hmm).1
    · exact h.1 q mm hq heq hmm

/-- A call for a process of the set. -/
theorem allTabs_keeps {α : Type} {c : M α} (hS : S pid)
    (h : Keeps (TabInv (OtherTabs S whole pid) pid whole) c) : Keeps (AllTabs S whole) c :=
  fun w hw => (allTabs_iff hS _).mpr (h w ((allTabs_iff hS w).mp hw))

instance : BlindControl (AllTabs S whole) :=
  BlindControl.comp (fun mms : OrdMap Nat MmState => ∀ q mm, S q → mms.get? q = some mm →
    mm.Tidy whole) (inferInstance : BlindControl World.mms)

instance : BlindFiles (AllTabs S whole) :=
  BlindFiles.comp (fun mms : OrdMap Nat MmState => ∀ q mm, S q → mms.get? q = some mm →
    mm.Tidy whole) (inferInstance : BlindFiles World.mms)

instance : BlindSlots (AllTabs S whole) :=
  BlindSlots.comp (fun mms : OrdMap Nat MmState => ∀ q mm, S q → mms.get? q = some mm →
    mm.Tidy whole) (inferInstance : BlindSlots World.mms)

instance : BlindTables (AllTabs S whole) :=
  BlindTables.comp (fun mms : OrdMap Nat MmState => ∀ q mm, S q → mms.get? q = some mm →
    mm.Tidy whole) (inferInstance : BlindTables World.mms)

instance : BlindBytes (AllTabs S whole) :=
  BlindBytes.comp (fun mms : OrdMap Nat MmState => ∀ q mm, S q → mms.get? q = some mm →
    mm.Tidy whole) (inferInstance : BlindBytes World.mms)

instance : BlindFrames (AllTabs S whole) :=
  BlindFrames.comp (fun mms : OrdMap Nat MmState => ∀ q mm, S q → mms.get? q = some mm →
    mm.Tidy whole) (inferInstance : BlindFrames World.mms)

/-- A change of the table of a process outside the set. -/
theorem modifyMm_allTabs (hS : ¬ S pid) (f : MmState → MmState) :
    Keeps (AllTabs S whole) (modifyMm pid f) := by
  intro w h q mm hq hmm
  have hget : (w.modifyMm pid f).mms.get? q = some mm := hmm
  have hne : q ≠ pid := fun heq => hS (heq ▸ hq)
  rw [World.mms_modifyMm, OrdMap.get?_modify, if_neg hne] at hget
  exact h q mm hq hget

instance : GrowKeeps (AllTabs S whole) where
  grow q a := by
    by_cases hS : S q
    · exact allTabs_keeps hS (tryGrowStackForUserAddr_tabs a)
    · refine tryGrow_keeps_of (fun v => ?_) a
      refine Keeps.bind (allocPageFrameNoCleanup_frames 1).keepsProp fun slot => ?_
      refine Keeps.bind (Frames.keepsProp (by simp)) fun _ => ?_
      refine Keeps.bind (mapProcessFrame_frames _ _ _ _ _).keepsProp fun _ => ?_
      exact Keeps.bind (getProcess_keeps q) fun _ => modifyMm_allTabs hS _

instance : EraseKeeps (AllTabs S whole) where
  erase w p h _ q mm hq hmm := by
    have hget : (w.tasks.erase p).get? q = (w.task? q) ∨ (w.tasks.erase p).get? q = none := by
      rw [OrdMap.get?_erase]
      split
      · exact .inr rfl
      · exact .inl rfl
    rw [World.get?_mms] at hmm
    change ((w.tasks.erase p).get? q).map _ = some mm at hmm
    rcases hget with hget | hget <;> rw [hget] at hmm
    · exact h q mm hq (by rw [World.get?_mms]; exact hmm)
    · cases hmm
  panicked _ _ h := h

/-- The end of a process keeps the tables of the others. -/
theorem terminateProcess_allTabs (q code : Nat) :
    Keeps (AllTabs S whole) (terminateProcess q code) := terminateProcess_keeps_blind q code


/-- The tables of all processes are those of one process and those of the others. -/
theorem allTabs_eq (hS : S pid) :
    AllTabs S whole = TabInv (OtherTabs S whole pid) pid whole :=
  funext fun w => propext (allTabs_iff hS w)

/-- A fault keeps the tables of all processes. -/
theorem pageFault_allTabs (hS : S pid) (addr : Nat) (cause : FaultCause) :
    Keeps (AllTabs S whole) (pageFault pid addr cause) := by
  refine allTabs_keeps hS (pageFault_tabs (fun code => ?_) addr cause)
  rw [← allTabs_eq hS]
  exact terminateProcess_allTabs pid code

end AllTabs

/-! ### The calls on sound tables -/

/-- The calls that edit the tables of their process. -/
inductive TableCall where
  | brk (addr : Nat)
  | mmap (addr len prot flags fd offset : Nat)
  | munmap (addr len : Nat)
  | mprotect (addr len prot : Nat)
  | mremap (oldAddr oldSize newSize flags newAddr : Nat)
  | pageFault (addr : Nat) (cause : FaultCause)
  | copyFromUser (userSrc len : Nat)
  | copyToUser (userDst : Nat) (src : List UInt8)

/-- The function of the server behind a call. -/
def TableCall.command (pid : Nat) : TableCall → M Unit
  | .brk addr => do let _ ← doBrk pid addr
  | .mmap addr len prot flags fd offset => do let _ ← doMmap pid addr len prot flags fd offset
  | .munmap addr len => doMunmap pid addr len
  | .mprotect addr len prot => doMprotect pid addr len prot
  | .mremap oldAddr oldSize newSize flags newAddr => do
    let _ ← doMremap pid oldAddr oldSize newSize flags newAddr
  | .pageFault addr cause => Ape.pageFault pid addr cause
  | .copyFromUser userSrc len => do let _ ← Ape.copyFromUser pid userSrc len
  | .copyToUser userDst src => Ape.copyToUser pid userDst src

/-- A call on the tables keeps the tables of all processes. -/
theorem TableCall.command_allTabs {S : Nat → Prop} {whole : Prop} {pid : Nat} (hS : S pid)
    (c : TableCall) : Keeps (AllTabs S whole) (c.command pid) := by
  have hdrop : ∀ {α : Type} {d : M α}, Keeps (AllTabs S whole) d →
      Keeps (AllTabs S whole) (do let _ ← d) := fun h => Keeps.bind h fun _ => Keeps.pure _
  cases c with
  | brk addr => exact hdrop (allTabs_keeps hS (doBrk_tabs addr))
  | mmap => exact hdrop (allTabs_keeps hS (doMmap_tabs _ _ _ _ _ _))
  | munmap addr len => exact allTabs_keeps hS (doMunmap_tabs addr len)
  | mprotect addr len prot => exact allTabs_keeps hS (doMprotect_tabs addr len prot)
  | mremap => exact hdrop (allTabs_keeps hS (doMremap_tabs _ _ _ _ _))
  | pageFault addr cause => exact pageFault_allTabs hS addr cause
  | copyFromUser userSrc len => exact hdrop (copyFromUser_keeps _ _ _)
  | copyToUser userDst src => exact copyToUser_keeps _ _ _

/-- Every call ends with sound tables when it starts with sound tables, whatever its arguments are
and whatever the services answer. The two lookups of the source are then exact. -/
theorem table_calls_keep_sound (w : World) (pid : Nat) (t t' : TaskStruct) (c : TableCall)
    (ht : w.task? pid = some t) (hsound : t.mm.state.Sound)
    (ht' : ((c.command pid).run w).2.task? pid = some t') :
    t'.mm.state.Sound ∧ ∀ a m,
      (t'.mm.state.lookupMemoryMap a = some m ↔
        ∃ k, t'.mm.state.memoryMaps.get? k = some m ∧ m.Contains a) ∧
      (t'.mm.state.lookupLazyMemoryMap a = some m ↔
        ∃ k, t'.mm.state.lazyMemoryMaps.get? k = some m ∧ m.Contains a) := by
  have hmms : ∀ (w : World) (t : TaskStruct), w.task? pid = some t →
      w.mms.get? pid = some t.mm.state := fun w t ht => by rw [World.get?_mms, ht]; rfl
  have hall : AllTabs (fun q => q = pid) True w := by
    rintro q mm rfl hq
    rw [hmms w t ht] at hq
    cases hq
    exact ⟨hsound.aligned, fun _ => hsound⟩
  have hend := c.command_allTabs (S := fun q => q = pid) rfl w hall
  have hs := (hend pid _ rfl (hmms _ t' ht')).2 trivial
  exact ⟨hs, fun a m => hs.lookups a m⟩

/-! ### A check of the invariant -/

namespace MmState

/-- The entries of both tables, by table and key. -/
def tagged (mm : MmState) : List ((TableKind × Nat) × MemoryMap) :=
  (mm.memoryMaps.entries.map fun e => ((.mapped, e.1), e.2)) ++
    mm.lazyMemoryMaps.entries.map fun e => ((.lazily, e.1), e.2)

/-- The tagged entries are those that lookups find. -/
theorem mem_tagged {mm : MmState} {l : TableKind} {k : Nat} {m : MemoryMap} :
    ((l, k), m) ∈ mm.tagged ↔ (mm.table l).get? k = some m := by
  cases l <;> simp [tagged, table, OrdMap.mem_entries]

/-- The part of the invariant that is about one entry. -/
def EntryOk (mm : MmState) (e : (TableKind × Nat) × MemoryMap) : Prop :=
  e.2.vaddr = e.1.2 ∧ (e.2.vaddr % PGSIZE = 0 ∧ e.2.size % PGSIZE = 0 ∧ 0 < e.2.size) ∧
    (e.1.1 = .lazily → e.2.size = PGSIZE) ∧
    (e.2.vaddr + e.2.size ≤ mm.stackBottom - mm.maxStackSize ∨
      mm.stackBottom - mm.stackSize ≤ e.2.vaddr)

instance (mm : MmState) (e : (TableKind × Nat) × MemoryMap) : Decidable (mm.EntryOk e) :=
  inferInstanceAs (Decidable (_ ∧ _ ∧ _ ∧ _))

/-- The part of the invariant that is about two entries. -/
def EntriesApart (e e' : (TableKind × Nat) × MemoryMap) : Prop :=
  e.1 = e'.1 ∨ e.2.vaddr + e.2.size ≤ e'.2.vaddr ∨ e'.2.vaddr + e'.2.size ≤ e.2.vaddr

instance (e e' : (TableKind × Nat) × MemoryMap) : Decidable (EntriesApart e e') :=
  inferInstanceAs (Decidable (_ ∨ _ ∨ _))

/-- The invariant can be checked entry by entry. -/
theorem TableInv.of_tagged {mm : MmState} (hone : ∀ e ∈ mm.tagged, mm.EntryOk e)
    (htwo : ∀ e ∈ mm.tagged, ∀ e' ∈ mm.tagged, EntriesApart e e') : mm.TableInv where
  key l k m h := (hone _ (mem_tagged.mpr h)).1
  paged l k m h := (hone _ (mem_tagged.mpr h)).2.1
  lazyPage k m h := (hone _ (mem_tagged (l := .lazily).mpr h)).2.2.1 rfl
  apart i j s t x hs ht hx hx' := by
    obtain ⟨m, hm, rfl⟩ := get_table_of_spans hs
    obtain ⟨m', hm', rfl⟩ := get_table_of_spans ht
    rcases htwo _ (mem_tagged.mpr hm) _ (mem_tagged.mpr hm') with heq | hbeside
    · exact heq
    · -- entries beside one another have no address in common
      have hlo : m.vaddr ≤ x ∧ x < m.vaddr + m.size := hx
      have hlo' : m'.vaddr ≤ x ∧ x < m'.vaddr + m'.size := hx'
      simp only at hbeside
      omega
  unreserved l k m x h hx hr := by
    have hcheck := (hone _ (mem_tagged.mpr h)).2.2.2
    have hlo : m.vaddr ≤ x ∧ x < m.vaddr + m.size := hx
    have hlow : mm.stackBottom - mm.maxStackSize ≤ x ∧ x < mm.stackBottom - mm.stackSize := hr
    simp only at hcheck
    omega

/-- The whole invariant, as a check. -/
def soundCheck (mm : MmState) : Bool :=
  decide ((∀ e ∈ mm.tagged, mm.EntryOk e) ∧
    (∀ e ∈ mm.tagged, ∀ e' ∈ mm.tagged, EntriesApart e e') ∧
    (∀ e ∈ mm.tagged, (e.1.1 = .mapped → e.2.frameCap ≠ 0) ∧ e.2.vaddr + e.2.size < usizeMod) ∧
    (mm.heapStart % PGSIZE = 0 ∧ mm.stackBottom % PGSIZE = 0 ∧ mm.stackSize % PGSIZE = 0 ∧
      mm.maxStackSize % PGSIZE = 0 ∧ mm.stackSize ≤ mm.maxStackSize ∧
      mm.maxStackSize ≤ mm.stackBottom) ∧
    mm.stackBottom < usizeMod ∧ mm.heapLimit % PGSIZE = 0 ∧ mm.heapLimit < usizeMod ∧
    mm.heapBrk ≤ mm.heapLimit ∧ mm.mmapBase % PGSIZE = 0 ∧ mm.mmapNext % PGSIZE = 0)

/-- Tables that pass the check are sound. -/
theorem Sound.of_check {mm : MmState} (h : mm.soundCheck = true) : mm.Sound := by
  obtain ⟨hone, htwo, hentry, ⟨h₁, h₂, h₃, h₄, h₅, h₆⟩, h₇, h₈, h₉, h₁₀, h₁₁, h₁₂⟩ :=
    of_decide_eq_true h
  have hinv : mm.TableInv := TableInv.of_tagged hone htwo
  exact { hinv with
    heapStart := h₁
    stackBottom := h₂
    stackSize := h₃
    maxStackSize := h₄
    grown := h₅
    fits := h₆
    frame := fun k m hk => (hentry _ (mem_tagged (l := .mapped).mpr hk)).1 rfl
    below := fun l k m hk => (hentry _ (mem_tagged.mpr hk)).2
    stackBelow := h₇
    heapLimit := h₈
    heapBelow := h₉
    heapBrk := h₁₀
    mmapBase := h₁₁
    mmapNext := h₁₂ }

end MmState

/-- The tables of a process that pass the check. -/
theorem World.sound_of_check {w : World} {pid : Nat}
    (h : (w.mms.get? pid).map MmState.soundCheck = some true) :
    ∃ mm, w.mms.get? pid = some mm ∧ mm.Sound := by
  obtain ⟨mm, hmm, hcheck⟩ := Option.map_eq_some_iff.mp h
  exact ⟨mm, hmm, MmState.Sound.of_check hcheck⟩

/-- The tables of `init` when it starts. -/
def sampleTables : MmState := ((sampleBoot.task? 1).map (·.mm.state)).getD
    (MmStruct.new sampleLayout).state

/-- The sample tables are sound. -/
theorem sampleTables_sound : sampleTables.Sound := Sound.of_check (by decide +kernel)

/-- `init` maps two pages: the tables are sound before and after the call. -/
theorem table_calls_keep_sound_sampleBoot :
    ∃ t t', sampleBoot.task? 1 = some t ∧ t.mm.state.Sound ∧
      (((TableCall.mmap 0 (2 * PGSIZE) 3 34 0 0).command 1).run sampleBoot).2.task? 1 = some t' ∧
      t'.mm.state.memoryMaps.keys.length = 4 ∧ t'.mm.state.Sound := by
  obtain ⟨t, ht⟩ := Option.isSome_iff_exists.mp
    (show (sampleBoot.task? 1).isSome by decide +kernel)
  have hsound : t.mm.state.Sound := by
    have := sampleTables_sound
    rwa [sampleTables, ht] at this
  let w' := (((TableCall.mmap 0 (2 * PGSIZE) 3 34 0 0).command 1).run sampleBoot).2
  have hlen : (w'.task? 1).map (fun t => t.mm.state.memoryMaps.keys.length) = some 4 := by
    decide +kernel
  obtain ⟨t', ht', hlen'⟩ := Option.map_eq_some_iff.mp hlen
  exact ⟨t, t', ht, hsound, ht', hlen', (table_calls_keep_sound _ _ _ _ _ ht hsound ht').1⟩

/-- `init` with one anonymous entry of two pages that has no frame. -/
def sampleCapless : World := sampleBoot.modifyMm 1 fun mm => { mm with
  memoryMaps := OrdMap.empty.insert 0x10020000
    ⟨0x10020000, 0, 2 * PGSIZE, Perms.RW, .anonymous, false, 0, none, 0⟩ }

/-- The split skips an entry without a frame, so a fixed mapping over its second page overlaps
it. -/
theorem fixed_mmap_overlaps_capless_entry :
    ∃ t t', sampleCapless.task? 1 = some t ∧ t.mm.state.TableInv ∧ t.mm.state.Regions ∧
      (((TableCall.mmap 0x10021000 PGSIZE 3 50 0 0).command 1).run sampleCapless).2.task? 1
        = some t' ∧ ¬ t'.mm.state.TableInv := by
  obtain ⟨t, ht⟩ := Option.isSome_iff_exists.mp
    (show (sampleCapless.task? 1).isSome by decide +kernel)
  let tables := ((sampleCapless.task? 1).map (·.mm.state)).getD (MmStruct.new sampleLayout).state
  have htables : tables = t.mm.state := by simp only [tables, ht, Option.map_some, Option.getD_some]
  have hinv : tables.TableInv := TableInv.of_tagged (by decide +kernel) (by decide +kernel)
  have hregions : tables.Regions := by constructor <;> decide +kernel
  rw [htables] at hinv hregions
  -- both the old entry and the new page are in the table
  let w' := (((TableCall.mmap 0x10021000 PGSIZE 3 50 0 0).command 1).run sampleCapless).2
  have hspans : (w'.task? 1).map (fun t => (t.mm.state.spans (.mapped, 0x10020000),
      t.mm.state.spans (.mapped, 0x10021000)))
      = some (some ⟨0x10020000, 2 * PGSIZE⟩, some ⟨0x10021000, PGSIZE⟩) := by decide +kernel
  obtain ⟨t', ht', hspans'⟩ := Option.map_eq_some_iff.mp hspans
  refine ⟨t, t', ht, hinv, hregions, ht', ?_⟩
  intro hinv'
  have heq := hinv'.apart (.mapped, 0x10020000) (.mapped, 0x10021000) _ _ 0x10021000
    (congrArg Prod.fst hspans') (congrArg Prod.snd hspans') (by decide) (by decide)
  cases heq

/-! ### Alignment along runs

The loader puts the segments of an image where the image says, so it keeps only alignment. -/

section Loader

variable {O : OrdMap Nat MmState → Prop} {pid : Nat}

/-- A change of the table that keeps the entries at page boundaries. -/
theorem aligned_edit [Others O pid] {f : MmState → MmState}
    (hf : ∀ mm : MmState, mm.Aligned → (f mm).Aligned) :
    Keeps (TabInv O pid False) (modifyMm pid f) :=
  tabInv_edit fun mm h => ⟨hf mm h.1, False.elim⟩

/-- The pages of a segment are page boundaries. -/
theorem segmentPages_page {segStart memsz page : Nat} (h : page ∈ segmentPages segStart memsz) :
    page % PGSIZE = 0 := by
  obtain ⟨i, -, rfl⟩ := List.mem_map.mp h
  exact wAdd_page (alignDown_page segStart) (Nat.mul_mod_left _ _)

/-- A page of a segment is an aligned entry. -/
theorem loadSegmentPage_aligned [Others O pid] (d : ElfImage) (ph : Phdr) (segStart : Nat)
    {page : Nat} (hpage : page % PGSIZE = 0) :
    Keeps (TabInv O pid False) (loadSegmentPage pid d ph segStart page) := by
  unfold loadSegmentPage
  refine Keeps.bind (tabInv_keeps (by simp)) fun slot =>
    Keeps.bind (tabInv_keeps (by simp)) fun _ => ?_
  refine Keeps.bind (tabInv_keeps (by simp)) fun _ =>
    Keeps.bind (tabInv_keeps (by simp)) fun _ => ?_
  refine Keeps.bind (aligned_edit fun mm h => h.addTo (l := .mapped) hpage) fun _ => ?_
  refine Keeps.bind (tabInv_keeps (by simp)) fun scratch => ?_
  exact Keeps.bind (tabInv_keeps (by simp)) fun _ => tabInv_keeps (by simp)

/-- The segments of an image are aligned entries. -/
theorem loadElfIntoProcess_aligned [Others O pid] (d : ElfImage) (loadBias : Nat) :
    Keeps (TabInv O pid False) (loadElfIntoProcess pid d loadBias) := by
  have hseg : ∀ ph, Keeps (TabInv O pid False) (loadSegment pid d loadBias ph) := by
    intro ph
    unfold loadSegment
    refine Keeps.ite (Keeps.pure _) ?_
    -- the loop keeps the invariant on the pages it is given
    have hpages : ∀ p ∈ segmentPages (wAdd loadBias ph.pVaddr) ph.pMemsz, p % PGSIZE = 0 :=
      fun p hp => segmentPages_page hp
    generalize segmentPages (wAdd loadBias ph.pVaddr) ph.pMemsz = pages at hpages
    induction pages with
    | nil => exact Keeps.pure _
    | cons page rest ih =>
      refine Keeps.bind (loadSegmentPage_aligned d ph _
        (hpages page List.mem_cons_self)) fun _ => ?_
      exact ih fun p hp => hpages p (List.mem_cons_of_mem _ hp)
  exact Keeps.ite (Keeps.throw _) (Keeps.bind (Keeps.forEach hseg) fun _ => Keeps.pure _)

/-- Emptied tables are aligned. -/
theorem replaceImage_aligned [Others O pid] : Keeps (TabInv O pid False) (replaceImage pid) := by
  unfold replaceImage
  refine Keeps.bind (tabInv_keeps (by simp)) fun t =>
    Keeps.bind (tabInv_keeps (by simp)) fun _ => ?_
  refine Keeps.bind (tabInv_keeps (by simp)) fun _ =>
    Keeps.bind (tabInv_keeps (by simp)) fun _ => ?_
  refine aligned_edit fun mm h => ⟨fun k m hk => (by cases hk), h.stackBottom, h.stackBelow, rfl,
    h.mmapBase, h.mmapNext⟩

/-- Whole pages before a page boundary start at one. -/
theorem sub_page {a b : Nat} (ha : a % PGSIZE = 0) (hb : b % PGSIZE = 0) : (a - b) % PGSIZE = 0 :=
  Nat.mod_eq_zero_of_dvd (Nat.dvd_sub (Nat.dvd_of_mod_eq_zero ha) (Nat.dvd_of_mod_eq_zero hb))

/-- The first stack is an aligned entry. -/
theorem setupInitialStack_aligned [Others O pid] (arg0 : String) (argv envp : List String)
    (auxv : List (Nat × Nat)) :
    Keeps (TabInv O pid False) (setupInitialStack pid arg0 argv envp auxv) := by
  unfold setupInitialStack
  refine Keeps.bind (Keeps.gets _) fun l => Keeps.bind (tabInv_keeps (by simp)) fun slot => ?_
  refine Keeps.bind (tabInv_keeps (by simp)) fun _ =>
    Keeps.bind (tabInv_keeps (by simp)) fun _ => ?_
  refine Keeps.bind (tabInv_keeps (by simp)) fun _ =>
    Keeps.bind (tabInv_keeps (by simp)) fun _ => ?_
  refine Keeps.bind (Keeps.getSome _ _) fun e => Keeps.bind (tabInv_keeps (by simp)) fun _ => ?_
  refine Keeps.bind (tabInv_keeps (by simp)) fun _ =>
    Keeps.bind (tabInv_keeps (by simp)) fun _ => ?_
  refine Keeps.bind (aligned_edit fun mm h => ?_) fun _ => Keeps.pure _
  have hadd := h.addTo (l := .mapped) (m := pageEntry (l.stackBase - PGSIZE) Perms.RW .stack slot)
    (sub_page l.stackBase_aligned (by decide))
  exact ⟨hadd.key, hadd.stackBottom, hadd.stackBelow, Nat.mod_self PGSIZE, hadd.mmapBase,
    hadd.mmapNext⟩

/-- The thread-local storage is an aligned entry. -/
theorem setupInitialTls_aligned [Others O pid] :
    Keeps (TabInv O pid False) (setupInitialTls pid) := by
  unfold setupInitialTls
  refine Keeps.bind (Keeps.gets _) fun l => Keeps.bind (tabInv_keeps (by simp)) fun slot => ?_
  refine Keeps.bind (tabInv_keeps (by simp)) fun _ =>
    Keeps.bind (tabInv_keeps (by simp)) fun _ => ?_
  refine Keeps.bind (tabInv_keeps (by simp)) fun _ =>
    Keeps.bind (tabInv_keeps (by simp)) fun _ => ?_
  refine Keeps.bind (tabInv_keeps (by simp)) fun _ =>
    Keeps.bind (tabInv_keeps (by simp)) fun _ => ?_
  refine Keeps.bind (aligned_edit fun mm h => h.addTo (l := .mapped) ?_) fun _ => Keeps.pure _
  exact sub_page (sub_page l.utcbVa_aligned (by decide)) (by decide)

end Loader

/-- The entries of every process are at page boundaries. -/
def AllAligned : World → Prop := AllTabs (fun _ => True) False

instance : BlindControl AllAligned := inferInstanceAs (BlindControl (AllTabs (fun _ => True) False))
instance : BlindFiles AllAligned := inferInstanceAs (BlindFiles (AllTabs (fun _ => True) False))
instance : BlindSlots AllAligned := inferInstanceAs (BlindSlots (AllTabs (fun _ => True) False))
instance : BlindTables AllAligned := inferInstanceAs (BlindTables (AllTabs (fun _ => True) False))
instance : BlindFrames AllAligned := inferInstanceAs (BlindFrames (AllTabs (fun _ => True) False))
instance : GrowKeeps AllAligned := inferInstanceAs (GrowKeeps (AllTabs (fun _ => True) False))
instance : EraseKeeps AllAligned := inferInstanceAs (EraseKeeps (AllTabs (fun _ => True) False))

/-- A command that keeps the tables of one process aligned, and those of the others, keeps all
aligned. -/
theorem allAligned_keeps {α : Type} {c : M α} (pid : Nat)
    (h : Keeps (TabInv (OtherTabs (fun _ => True) False pid) pid False) c) : Keeps AllAligned c :=
  allTabs_keeps trivial h

/-- `execve` keeps the tables aligned. -/
theorem doExecve_aligned (pid : Nat) (path : String) (argv envp : List String) :
    Keeps AllAligned (doExecve pid path argv envp) := by
  unfold doExecve
  refine Keeps.bind readExecImageFromFs_frames.keepsProp fun d => Keeps.ite (by simp) ?_
  refine Keeps.ite (by simp) (Keeps.bind (allAligned_keeps pid replaceImage_aligned) fun _ => ?_)
  refine Keeps.bind (allAligned_keeps pid (loadElfIntoProcess_aligned _ _)) fun main => ?_
  refine Keeps.bind ?_ fun interp => Keeps.bind (by simp) fun _ => Keeps.bind (by simp) fun l => ?_
  · unfold loadInterpreter
    split
    · exact Keeps.pure _
    · exact Keeps.bind readExecImageFromFs_frames.keepsProp fun d' => Keeps.bind
        (allAligned_keeps pid (loadElfIntoProcess_aligned _ _)) fun _ => Keeps.pure _
  refine Keeps.bind (allAligned_keeps pid (aligned_edit ?_)) fun _ => ?_
  · intro mm h
    exact ⟨h.key, l.stackBase_aligned, l.stack_below, rfl, h.mmapBase, h.mmapBase⟩
  refine Keeps.bind (allAligned_keeps pid (setupInitialStack_aligned _ _ _ _)) fun _ => ?_
  refine Keeps.bind (allAligned_keeps pid setupInitialTls_aligned) fun _ =>
    Keeps.bind (by simp) fun _ => ?_
  refine Keeps.bind (by simp) fun _ => Keeps.bind (by simp) fun _ => ?_
  exact Keeps.bind (by simp) fun _ => Keeps.forEach fun fd => FilesKeeps.close _ _

/-- The tables of a new process are aligned. -/
theorem MmStruct.new_aligned (l : Layout) : (MmStruct.new l).state.Aligned where
  key _ _ hk := by cases hk
  stackBottom := l.stackBase_aligned
  stackBelow := l.stack_below
  stackSize := rfl
  mmapBase := add_page l.heapVa_aligned (by decide)
  mmapNext := add_page l.heapVa_aligned (by decide)

/-- A process that is registered starts with aligned tables. -/
theorem registerProcess_aligned (parentPid hostPid cnode : Nat) :
    Keeps AllAligned (registerProcess parentPid hostPid cnode) := by
  intro w h q mm _ hq
  rw [World.get?_mms] at hq
  change ((w.tasks.insert w.nextPid _).get? q).map _ = some mm at hq
  rw [OrdMap.get?_insert] at hq
  split at hq
  · cases hq
    exact ⟨MmStruct.new_aligned w.layout, False.elim⟩
  · exact h q mm trivial (by rw [World.get?_mms]; exact hq)

/-- The marks that `fork` puts on entries keep the tables aligned. -/
theorem forkMaps_aligned (pid childPid : Nat) (maps : List MemoryMap) (retained : List Nat) :
    Keeps AllAligned (forkMaps pid childPid maps retained) := by
  induction maps generalizing retained with
  | nil => exact Keeps.pure _
  | cons m rest ih =>
    unfold forkMaps
    refine Keeps.ite (ih _) (Keeps.bind (Frames.keepsProp (by simp)) fun _ => ?_)
    refine Keeps.bind (Keeps.when (Keeps.bind (Frames.keepsProp (by simp)) fun _ => ?_)) fun _ => ?_
    · exact Keeps.onError (Frames.keepsProp (by simp)) fun _ => Frames.keepsProp (by simp)
    refine Keeps.bind (Keeps.when (Frames.keepsProp (by simp))) fun _ => ?_
    refine Keeps.bind (Keeps.when (allAligned_keeps pid
      (aligned_edit fun mm h => ?_))) fun _ => ih _
    exact h.within (within_modify mm m.vaddr fun _ => ⟨rfl, id⟩)

/-- The entries of a child are filed as those of the parent. -/
theorem MmState.Aligned.forked {mm : MmState} (h : mm.Aligned) : mm.forked.Aligned := by
  refine ⟨?_, h.stackBottom, h.stackBelow, h.stackSize, h.mmapBase, h.mmapNext⟩
  intro k m hk
  have hmaps : mm.forked.memoryMaps = mm.memoryMaps.mapValues forkedEntry :=
    OrdMap.foldl_insert_values forkedEntry fun j e he => (h.key j e he).1
  rw [hmaps, OrdMap.get?_mapValues] at hk
  obtain ⟨e, he, rfl⟩ := Option.map_eq_some_iff.mp hk
  rw [forkedEntry_vaddr]
  exact h.key k e he

/-- `fork` keeps the tables aligned. -/
theorem doFork_aligned (pid : Nat) : Keeps AllAligned (doFork pid) := by
  unfold doFork
  refine Keeps.bind (by simp) fun host => Keeps.bind (by simp) fun cnode => ?_
  refine Keeps.bind (by simp) fun _ => Keeps.bind (registerProcess_aligned _ _ _) fun childPid => ?_
  refine Triple.keeps (Triple.bind (getProcess_at pid) fun parent => ?_)
  refine Triple.of_pre fun w₀ h₀ => ?_
  have hparent : parent.mm.state.Aligned := (h₀.1 pid _ trivial h₀.2).1
  refine Triple.pre (K := AllAligned) (Keeps.triple ?_) fun w hw => hw ▸ h₀.1
  refine Keeps.bind (forkMaps_aligned _ _ _ _) fun _ => Keeps.bind (by simp) fun _ => ?_
  refine Keeps.bind ?_ fun _ => ?_
  -- the child takes over the tables of its parent
  · intro w h q mm hS hq
    have hmms : (w.modifyTask childPid (·.inherit parent)).mms
        = w.mms.modify childPid fun _ => parent.mm.state.forked :=
      OrdMap.mapValues_modify (fun t : TaskStruct => t.mm.state) w.tasks childPid fun t =>
        t.inherit_state parent
    change (w.modifyTask childPid (·.inherit parent)).mms.get? q = some mm at hq
    rw [hmms, OrdMap.get?_modify] at hq
    split at hq
    · obtain ⟨_, _, rfl⟩ := Option.map_eq_some_iff.mp hq
      exact ⟨hparent.forked, False.elim⟩
    · exact h q mm hS hq
  · refine Keeps.bind (by simp) fun _ => Keeps.bind (by simp) fun _ => ?_
    exact Keeps.bind (by simp) fun _ => Keeps.bind (by simp) fun _ => by simp

/-- Every request keeps the tables aligned. -/
theorem dispatch_aligned (r : Request) : Keeps AllAligned (dispatch r) := by
  have hmap : ∀ {α : Type} {c : M α} {f : α → Int}, Keeps AllAligned c →
      Keeps AllAligned (do return f (← c)) := fun h => Keeps.bind h fun _ => Keeps.pure _
  intro w hw
  have hcaller : ∀ c, AllAligned { w with activeCallerPid := c } :=
    fun c => (BlindCaller.caller w c).mpr hw
  refine dispatch_keeps_at terminateProcess_allTabs r hw (fun pid sys _ hsys => ?_)
    fun _ addr cause _ => pageFault_allTabs trivial addr cause _ (hcaller _)
  have hcall : ∀ {α : Type} {c : M α},
      Keeps (TabInv (OtherTabs (fun _ => True) False pid) pid False) c → Keeps AllAligned c :=
    allAligned_keeps pid
  -- the calls that edit the tables, each with its own lemma
  cases sys with
  | clone =>
    refine Keeps.ite (by simp) (Keeps.bind (doFork_aligned _) fun childPid => ?_) _ (hcaller _)
    exact Keeps.bind (by simp) fun _ => Keeps.bind (by simp) fun _ => by simp
  | brk => exact hmap (hcall (doBrk_tabs _)) _ (hcaller _)
  | mmap => exact hmap (hcall (doMmap_tabs _ _ _ _ _ _)) _ (hcaller _)
  | munmap => exact hmap (f := fun _ => 0) (hcall (doMunmap_tabs _ _)) _ (hcaller _)
  | mprotect => exact hmap (f := fun _ => 0) (hcall (doMprotect_tabs _ _ _)) _ (hcaller _)
  | mremap => exact hmap (hcall (doMremap_tabs _ _ _ _ _)) _ (hcaller _)
  | execve filename argv envp =>
    refine hmap (f := fun _ => 0) (Keeps.bind ?_ fun _ => doExecve_aligned _ _ _ _) _ (hcaller _)
    exact parseExecveUserInput_keeps (GrowKeeps.grow _) _ _ _
  | _ => cases hsys

/-- The start of `init` keeps the tables aligned. -/
theorem loadInit_aligned (path : String) : Keeps AllAligned (loadInit path) := by
  refine Keeps.bind (by simp) fun host => Keeps.bind (by simp) fun cnode => ?_
  refine Keeps.bind (by simp) fun _ => Keeps.bind (registerProcess_aligned _ _ _) fun pid => ?_
  refine Keeps.bind (Keeps.gets _) fun term => Keeps.bind ?_ fun _ => ?_
  · exact Keeps.whenSome fun term => openStdio_keeps pid term
  · exact Keeps.bind (doExecve_aligned _ _ _ _) fun _ => Keeps.bind (by simp) fun _ => by simp

/-- At a request boundary the entries of every process are at page boundaries. -/
theorem Reachable.aligned {w : World} (h : Reachable w) {pid : Nat} {t : TaskStruct}
    (ht : w.task? pid = some t) : t.mm.state.Aligned := by
  have hall : AllAligned w := by
    refine Reachable.invariant ?_ ?_ w h
    · intro w w' path hi hr
      have hinit : AllAligned w := by
        intro q mm _ hq
        rw [World.get?_mms, World.task?, hi.noTasks] at hq
        cases hq
      have := loadInit_aligned path w hinit
      rwa [hr] at this
    · intro w r w' _ hw hs
      rw [← hs.2]
      exact dispatch_aligned r w hw
  exact (hall pid _ trivial (by rw [World.get?_mms, ht]; rfl)).1

end Ape
