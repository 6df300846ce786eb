import Ape.Proofs.Faults

/-!
# `Ape.Proofs.Cow`: what a copy-on-write fault leaves behind

`resolve_cow_fault` allocates one page, copies one page, maps one page at the address of the
entry and puts the new frame in the entry. The entry keeps its size. `cowFault_resolved_iff`
says that the fault does what it is for exactly when the entry is one page long: the bytes are
those from before, the frame covers the entry, and the page of the address is mapped writable
on a frame of its own.
-/

set_option autoImplicit false

namespace Ape

open Ape.Lib Cmd

/-! ### The copy of a page -/

/-- The frames after the first page of one was copied to another. -/
def copiedFrames (fr : Nat → Option Frame) (old new : Nat) : Nat → Option Frame := fun s =>
  if s = new then (fr s).map fun f =>
    { f with
      data := fun o => if o < PGSIZE then ((fr old).map fun g => g.data o).getD 0 else f.data o }
  else fr s

/-- The frames and the tables are these. -/
abbrev Reads (mms : OrdMap Nat MmState) (fr : Nat → Option Frame) (w : World) : Prop :=
  w.readView = (mms, fr)

section Copy

variable {mms : OrdMap Nat MmState} {fr : Nat → Option Frame}

/-- A command that leaves tables and frames leaves what processes read. -/
theorem reads_step {α : Type} {c : M α} (h : Frames World.readView c) :
    Triple (Reads mms fr) c (fun _ => Reads mms fr) (fun _ _ => True) :=
  (Frames.keeps h (· = (mms, fr))).triple.errors fun _ _ _ => trivial

/-- The bytes behind the scratch address of a frame are those of the frame. -/
theorem copyFramePage_reads (old new : Nat) :
    Triple (Reads mms fr) (copyFramePage old new)
      (fun _ => Reads mms (copiedFrames fr old new)) (fun _ _ => True) := by
  unfold copyFramePage
  -- both scratch addresses map their frame, and the second is not the first
  refine Triple.bind (R := fun src w => Reads mms fr w ∧ w.scratch src = some ⟨old, 1, Perms.R⟩)
    ?_ ?_
  · intro w hw
    rcases mapScratch_run old Perms.R 1 w with ⟨e, hrun⟩ | ⟨a, -, hrun⟩ <;> rw [hrun]
    · exact ⟨fun _ hok => (by cases hok), fun _ _ => trivial⟩
    · refine ⟨fun a' ha' => ?_, fun _ _ => trivial⟩
      cases ha'
      exact ⟨hw, if_pos rfl⟩
  intro src
  refine Triple.bind (R := fun dst w => Reads mms fr w ∧ w.scratch src = some ⟨old, 1, Perms.R⟩ ∧
    w.scratch dst = some ⟨new, 1, Perms.RW⟩) (Triple.onError (F := fun _ _ => True)
      ?_ fun e => triple_true _) ?_
  · intro w hw
    rcases mapScratch_run new Perms.RW 1 w with ⟨e, hrun⟩ | ⟨a, hfree, hrun⟩ <;> rw [hrun]
    · exact ⟨fun _ hok => (by cases hok), fun _ _ => trivial⟩
    · refine ⟨fun a' ha' => ?_, fun _ _ => trivial⟩
      cases ha'
      have hne : src ≠ a := by
        intro heq
        rw [heq, hfree] at hw
        cases hw.2
      exact ⟨hw.1, (if_neg hne).trans hw.2, if_pos rfl⟩
  intro dst
  refine Triple.bind (R := fun _ => Reads mms (copiedFrames fr old new)) ?_ fun _ => ?_
  · intro w hw
    obtain ⟨hreads, hsrc, hdst⟩ := hw
    have hframes : w.frames = fr := congrArg Prod.snd hreads
    have hmms : w.mms = mms := congrArg Prod.fst hreads
    have hrun : (copyScratch src 0 dst PGSIZE).run w = (.ok (), w.writeFrame new fun o b =>
        if o < PGSIZE then w.scratchByte src (0 + o) else b) := by
      rw [copyScratch, run_gets_bind, writeScratch, run_modify, hdst]
    rw [hrun]
    refine ⟨fun _ _ => ?_, fun _ he => by cases he⟩
    refine Prod.ext hmms ?_
    show (w.writeFrame new _).frames = _
    rw [World.writeFrame, hframes]
    funext s
    simp only [copiedFrames, World.scratchByte, hsrc, hframes, Nat.zero_add]
  · exact Triple.bind (reads_step (by simp)) fun _ => reads_step (by simp)

/-- A new frame is at a slot that had none. -/
theorem allocPageFrameNoCleanup_reads (pages : Nat) :
    Triple (Reads mms fr) (allocPageFrameNoCleanup pages)
      (fun slot w => fr slot = none ∧ ∃ data, Reads mms
        (fun s => if s = slot then some ⟨pages, data⟩ else fr s) w) (fun _ _ => True) := by
  unfold allocPageFrameNoCleanup
  refine Triple.bind (R := fun slot w => fr slot = none ∧ Reads mms fr w) ?_ ?_
  -- a slot that the kernel grants is new, so it has no frame yet
  · intro w hw
    have hkeep := cspaceAlloc_frames (V := World.readView) w
    have hframes : w.frames = fr := congrArg Prod.snd hw
    refine ⟨fun slot hslot => ⟨?_, hkeep.trans hw⟩, fun _ _ => trivial⟩
    by_cases hgood : (w.env w.tick).err = none ∧ w.SlotFree (w.env w.tick).val
    · rw [run_cspaceAlloc_ok hgood.1 hgood.2] at hslot
      cases hslot
      rw [← hframes]
      simpa using hgood.2.2.2.1
    · obtain ⟨e, he⟩ := run_cspaceAlloc_error (w := w) (by tauto)
      rw [he] at hslot
      cases hslot
  · intro slot
    refine Triple.bind (R := fun _ w => fr slot = none ∧ ∃ data, Reads mms
      (fun s => if s = slot then some ⟨pages, data⟩ else fr s) w) ?_ fun _ =>
        Triple.pure fun w h => h
    -- the contents of the new frame are what the kernel answers
    refine Triple.bind (R := fun _ w => fr slot = none ∧ Reads mms fr w) ?_ ?_
    · exact ((Frames.keeps (ext_frames (V := World.readView)) fun v => fr slot = none ∧
        v = (mms, fr)).triple).errors fun _ _ _ => trivial
    · intro a
      refine Triple.modify fun w h => ⟨h.1, a.bytes, ?_⟩
      have hframes : w.frames = fr := congrArg Prod.snd h.2
      have hmms : w.mms = mms := congrArg Prod.fst h.2
      exact Prod.ext hmms (by rw [← hframes]; rfl)

/-- The release of a frame leaves the other frames alone. -/
theorem releaseProcessFrameSlot_other (pid : Nat) {old slot : Nat} (hne : slot ≠ old) :
    Frames (fun w => w.frames slot) (releaseProcessFrameSlot pid old) := by
  have hfree : Frames (fun w => w.frames slot) (freeFrame old) := fun w => if_neg hne
  have hcap : Frames (fun w => w.frames slot) (releaseFrameCap old) := by
    refine Frames.bind (Frames.gets _) fun count => ?_
    split
    · exact Frames.pure _
    · exact Frames.ite (Frames.bind (fun _ => rfl) fun _ => Frames.pure _)
        (Frames.bind (fun _ => rfl) fun _ => Frames.pure _)
  exact Frames.bind hcap fun last => Frames.when (Frames.bind hfree fun _ => fun _ => rfl)

end Copy

/-! ### The resolution of a fault -/

/-- The entry at `v` after its copy. -/
def MmState.setCopied (mm : MmState) (v slot : Nat) (perms : Perms) : MmState :=
  { mm with memoryMaps := mm.memoryMaps.modify v fun m =>
    { m with frameCap := slot, cow := false, flags := perms } }

/-- What a resolved fault leaves behind: a new frame of one page in the entry, with the first
page of the old frame, and mapped at the address of the entry. -/
structure CowCopied (w₀ : World) (pid v old slot : Nat) (perms : Perms) (w : World) : Prop where
  fresh : w₀.frames slot = none
  tables : w.mms = w₀.mms.modify pid (·.setCopied v slot perms)
  frame : ∃ fr, w.frames slot = some fr ∧ fr.pages = 1 ∧
    ∀ o, o < PGSIZE → some (fr.data o) = (w₀.frames old).map fun g => g.data o
  installed : w.Installed pid (v / PGSIZE) slot perms

/-- A resolved fault has copied one page. -/
theorem resolveCowFault_copies {w₀ : World} {pid v old : Nat} {perms : Perms}
    (hlive : w₀.live pid = true) (hold : (w₀.frames old).isSome) :
    Triple (fun w => w = w₀) (resolveCowFault pid v old perms)
      (fun _ w => ∃ slot, CowCopied w₀ pid v old slot perms w) (fun _ _ => True) := by
  let Has (slot : Nat) (data : Nat → UInt8) : Nat → Option Frame := fun s =>
    if s = slot then some ⟨1, data⟩ else w₀.frames s
  have hstep : ∀ {α : Type} {c : M α} {mms fr}, Frames World.readView c →
    Frames (World.live pid) c →
      Triple (fun w => Reads mms fr w ∧ w.live pid = true) c
        (fun _ w => Reads mms fr w ∧ w.live pid = true) (fun _ _ => True) := fun hr hl =>
    ((reads_step hr).and (live_step hl)).errors fun _ _ _ => trivial
  unfold resolveCowFault
  refine Triple.ite (fun _ => Triple.throw fun _ _ => trivial) fun _ => ?_
  refine Triple.bind (R := fun slot w => (w₀.frames slot = none ∧ ∃ data,
    Reads w₀.mms (Has slot data) w) ∧ w.live pid = true) ?_ ?_
  · have hstays : Frames (World.live pid) (allocPageFrameNoCleanup 1) := by simp
    have hcopy : Triple (Reads w₀.mms w₀.frames) (allocPageFrameNoCleanup 1) _ _ :=
      allocPageFrameNoCleanup_reads 1
    refine (hcopy.and (live_step hstays)).imp (fun w h => ?_) (fun _ _ h => h) fun _ _ _ => trivial
    rw [h]
    exact ⟨rfl, hlive⟩
  intro slot
  refine Triple.of_pre fun w₁ h₁ => ?_
  obtain ⟨⟨hfresh, data, hdata⟩, hlive₁⟩ := h₁
  refine Triple.pre (K := fun w => Reads w₀.mms (Has slot data) w ∧ w.live pid = true) ?_
    fun w hw => hw ▸ ⟨hdata, hlive₁⟩
  refine Triple.bind (hstep (by simp) (by simp)) fun _ => ?_
  refine Triple.bind (R := fun _ w => Reads w₀.mms (copiedFrames (Has slot data) old slot) w ∧
    w.live pid = true) ?_ fun _ => ?_
  · exact ((copyFramePage_reads old slot).and (live_step (by simp))).errors fun _ _ _ => trivial
  refine Triple.bind (hstep (by simp) (by simp)) fun _ => ?_
  refine Triple.bind (R := fun _ w => Reads w₀.mms (copiedFrames (Has slot data) old slot) w ∧
    w.Installed pid (v / PGSIZE) slot perms) ?_ fun _ => ?_
  · refine ((reads_step (by simp)).and (mapProcessFrame_installs pid slot v perms 1)).imp
      (fun _ h => h) (fun _ w h => ⟨h.1, h.2 _ le_rfl (Nat.lt_succ_self _)⟩) fun _ _ _ => trivial
  -- the entry gets the frame, and the old frame is released
  have hne : slot ≠ old := by
    rintro rfl
    rw [hfresh] at hold
    cases hold
  let fr : Frame := ⟨1, fun o => if o < PGSIZE then ((w₀.frames old).map fun g => g.data o).getD 0
    else data o⟩
  have hfr : copiedFrames (Has slot data) old slot slot = some fr := by
    simp [copiedFrames, Has, fr, Ne.symm hne]
  refine Triple.bind (R := fun _ => CowCopied w₀ pid v old slot perms)
    (Triple.modify ?_) fun _ => ?_
  · intro w h
    obtain ⟨hreads, vs, i, hvs, hpage⟩ := h
    have hframes : w.frames = copiedFrames (Has slot data) old slot := congrArg Prod.snd hreads
    have hmms : w.mms = w₀.mms := congrArg Prod.fst hreads
    have hvs' : ∀ f, (w.modifyMm pid f).vspaceOf pid = some vs := by
      intro f
      rw [BlindMm.mm (V := World.vspaceOf) w pid f, hvs]
    refine ⟨hfresh, ?_, ⟨fr, ?_, rfl, ?_⟩, vs, i, hvs' _, hpage⟩
    · rw [World.mms_modifyMm, hmms]
      rfl
    · show w.frames slot = some fr
      rw [hframes, hfr]
    · intro o ho
      obtain ⟨g, hg⟩ := Option.isSome_iff_exists.mp hold
      simp [fr, ho, hg]
  · refine fun w h => ⟨fun _ _ => ⟨slot, h.fresh, ?_, ?_, ?_⟩, fun _ _ => trivial⟩
    · rw [releaseProcessFrameSlot_frames (V := World.mms) pid old w]
      exact h.tables
    · obtain ⟨fr, hfr, hrest⟩ := h.frame
      exact ⟨fr, (releaseProcessFrameSlot_other pid hne w).trans hfr, hrest⟩
    · obtain ⟨vs, i, hvs, hpage⟩ := h.installed
      exact ⟨vs, i, by rw [releaseProcessFrameSlot_frames (V := World.vspaceOf) pid old
        w, hvs], hpage⟩

/-! ### What the fault is for -/

/-- The fault did what it is for: every byte of the entry reads as before, the frame in the
entry covers the entry, and the page of the address is mapped writable on a frame that no
other process names. -/
structure CowResolved (w : World) (pid addr : Nat) (m : MemoryMap) (w' : World) : Prop where
  bytes : ∀ b, m.Contains b → w'.userByte pid b = w.userByte pid b
  covered : ∃ m' fr, w'.lookup pid addr = some m' ∧ w'.frames m'.frameCap = some fr ∧
    m'.size ≤ fr.pages * PGSIZE
  writable : ∃ slot perms, w'.Installed pid (addr / PGSIZE) slot perms ∧ perms.write = true ∧
    ∀ q mm, q ≠ pid → w'.mms.get? q = some mm → mm.uses slot = 0

/-- A lookup in a table whose entry at `v` was copied. -/
theorem entryAt_setCopied {maps : OrdMap Nat MemoryMap} {a k : Nat} {m : MemoryMap} (slot : Nat)
    (perms : Perms) (h : maps.floor? a = some (k, m)) (hlt : a < wAdd m.vaddr m.size) :
    entryAt (maps.modify k fun m => { m with frameCap := slot, cow := false, flags := perms }) a
      = some { m with frameCap := slot, cow := false, flags := perms } := by
  rw [entryAt, OrdMap.floor?_modify k _ h, if_pos rfl]
  exact if_pos hlt

/-- A lookup that finds an entry finds the floor, and the address is below its end. -/
theorem entryAt_floor {maps : OrdMap Nat MemoryMap} {a : Nat} {m : MemoryMap}
    (h : entryAt maps a = some m) : ∃ k, maps.floor? a = some (k, m) ∧ a < wAdd m.vaddr m.size := by
  unfold entryAt at h
  split at h
  · rename_i k v hfloor
    split at h
    · cases h
      exact ⟨k, hfloor, by assumption⟩
    · cases h
  · cases h

/-- The end of an entry that a lookup finds does not leave the word. -/
theorem wAdd_of_below {v n a : Nat} (hv : v ≤ a) (ha : a < wAdd v n) (hn : n ≤ L1_HUGE_SIZE) :
    wAdd v n = v + n ∧ v + n < usizeMod := by
  have hmod : 0 < usizeMod := by decide
  have hsmall : L1_HUGE_SIZE < usizeMod := by decide
  unfold wAdd at *
  by_cases hlt : v + n < usizeMod
  · exact ⟨Nat.mod_eq_of_lt hlt, hlt⟩
  · exfalso
    have hle : v < usizeMod := lt_of_le_of_lt hv (lt_trans ha (Nat.mod_lt _ hmod))
    have : (v + n) % usizeMod = v + n - usizeMod := by
      rw [Nat.mod_eq_sub_mod (by omega), Nat.mod_eq_of_lt (by omega)]
    omega

/-- The run of a store fault in a shared, writable entry. -/
theorem run_pageFault_cow {w : World} {pid addr : Nat} {m : MemoryMap}
    (hm : w.lookup pid addr = some m) (hcow : m.cow = true) (hwrite : m.flags.write = true) :
    (pageFault pid addr .store).run w = (resolveCowFault pid m.vaddr m.frameCap m.flags).run w := by
  obtain ⟨mm, hmm, hlook⟩ := Option.bind_eq_some_iff.mp hm
  rw [World.get?_mms] at hmm
  obtain ⟨t, ht, rfl⟩ := Option.map_eq_some_iff.mp hmm
  have hwrites : (!m.flags.contains Perms.W) = false := by simp [Perms.contains, Perms.W, hwrite]
  rw [pageFault, run_bind_ok (run_getProcess ht), hlook]
  show (faultInEntry pid .store m).run w = _
  rw [faultInEntry, if_pos ⟨rfl, hcow⟩, hwrites]
  rfl

/-- An entry of one page is found for every address of the page. -/
theorem MmState.Aligned.lookup_page {mm : MmState} (h : mm.Aligned) {m : MemoryMap} {b : Nat}
    (hk : mm.memoryMaps.get? m.vaddr = some m) (hb : m.vaddr ≤ b) (hb' : b < m.vaddr + PGSIZE) :
    mm.memoryMaps.floor? b = some (m.vaddr, m) := by
  refine OrdMap.floor?_eq_some.mpr ⟨hk, hb, fun j u hj hjb => ?_⟩
  have hpage := (h.key m.vaddr m hk).2
  have hpage' := (h.key j u hj).2
  unfold PGSIZE at *
  omega

/-- A store fault in a shared, writable entry that returns has done what it is for, if and only
if the entry is one page long. -/
theorem cowFault_resolved_iff {w : World} (hw : Reachable w) {pid addr : Nat} {m : MemoryMap}
    (hm : w.lookup pid addr = some m) (hcow : m.cow = true) (hwrite : m.flags.write = true)
    {env : Nat → Ext} {w' : World}
    (hrun : (pageFault pid addr .store).run (w.withEnv env) = (.ok (), w')) :
    CowResolved w pid addr m w' ↔ m.size = PGSIZE := by
  have hinv : FrameInv w := hw.frameInv
  obtain ⟨fr₀, hfr₀⟩ := Option.isSome_iff_exists.mp (hinv.live_lookup hm)
  obtain ⟨mm, hmm, hlook⟩ := Option.bind_eq_some_iff.mp hm
  obtain ⟨t, ht, rfl⟩ : ∃ t, w.task? pid = some t ∧ t.mm.state = mm := by
    rw [World.get?_mms] at hmm
    exact Option.map_eq_some_iff.mp hmm
  obtain ⟨k, hfloor, hlt⟩ := entryAt_floor hlook
  obtain ⟨hget, hle, -⟩ := OrdMap.floor?_eq_some.mp hfloor
  obtain ⟨rfl, hpos, hhuge, hpages⟩ := Counted.shaped hinv pid _ hmm k m hget
  obtain ⟨hend, -⟩ := wAdd_of_below hle hlt hhuge
  have halign := hw.aligned ht
  -- the one run that returns has copied a page
  have hlive : (w.withEnv env).live pid = true := by
    show (w.task? pid).isSome = true
    rw [ht]
    rfl
  have hold : ((w.withEnv env).frames m.frameCap).isSome := hinv.live_lookup hm
  have hcopies : Triple (fun w' => w' = w.withEnv env)
      (resolveCowFault pid m.vaddr m.frameCap m.flags)
      (fun _ w' => ∃ slot, CowCopied (w.withEnv env) pid m.vaddr m.frameCap slot m.flags w')
      (fun _ _ => True) := resolveCowFault_copies hlive hold
  replace hcopies := (hcopies _ rfl).1 ()
  have hsame := run_pageFault_cow (w := w.withEnv env) hm hcow hwrite
  rw [← hsame, hrun] at hcopies
  obtain ⟨slot, hfresh, htables, ⟨fr, hfr, hone, hdata⟩, hinst⟩ := hcopies rfl
  let m' : MemoryMap := { m with frameCap := slot, cow := false, flags := m.flags }
  have hmm' : w'.mms.get? pid = some (t.mm.state.setCopied m.vaddr slot m.flags) := by
    rw [htables, OrdMap.get?_modify, if_pos rfl]
    show (w.mms.get? pid).map _ = _
    rw [hmm]
    rfl
  have hlook' : ∀ b, t.mm.state.memoryMaps.floor? b = some (m.vaddr, m) → b < wAdd m.vaddr m.size →
      w'.lookup pid b = some m' := by
    intro b hb hb'
    rw [World.lookup, hmm']
    exact entryAt_setCopied slot m.flags hb hb'
  constructor
  · rintro ⟨-, ⟨m'', fr', hm'', hfr', hsize⟩, -⟩
    rw [hlook' addr hfloor hlt] at hm''
    cases hm''
    rw [show w'.frames m'.frameCap = some fr from hfr] at hfr'
    cases hfr'
    rw [hone] at hsize
    have hsize' : m.size ≤ 1 * PGSIZE := hsize
    unfold PGSIZE at *
    omega
  · intro hsize
    rw [hsize] at hend
    refine ⟨?_, ⟨m', fr, hlook' addr hfloor hlt, hfr, ?_⟩, slot, m.flags, ?_, hwrite, ?_⟩
    · intro b hb
      obtain ⟨hlo, hhi⟩ := hb
      rw [hsize] at hhi
      have hb := halign.lookup_page hget hlo hhi
      have hb' : b < wAdd m.vaddr m.size := by rw [hsize, hend]; exact hhi
      have hold : w.lookup pid b = some m := by
        rw [World.lookup, hmm]
        show entryAt t.mm.state.memoryMaps b = some m
        rw [entryAt, hb]
        exact if_pos hb'
      rw [World.userByte, hlook' b hb hb', World.userByte, hold]
      show (w'.frames slot).map _ = (w.frames m.frameCap).map _
      rw [hfr, ← show _ = (w.frames m.frameCap).map _ from hdata (b - m.vaddr) (by omega)]
      rfl
    · show m.size ≤ fr.pages * PGSIZE
      rw [hone, hsize, Nat.one_mul]
    · have hpage : addr / PGSIZE = m.vaddr / PGSIZE := by
        have hvaddr := (halign.key m.vaddr m hget).2
        rw [hsize, hend] at hlt
        unfold PGSIZE at *
        omega
      rw [hpage]
      exact hinst
    · intro q mmq hq hget
      rw [htables, OrdMap.get?_modify, if_neg hq] at hget
      have hdead : (w.frames slot).isSome = false := by
        rw [show w.frames slot = none from hfresh]
        rfl
      have htotal := (Counted.unused hinv hdead).1
      exact Nat.le_zero.mp (htotal ▸ OrdMap.le_total (MmState.uses slot) _ hget)

/-- The entry of an address of the child, in the sample run. -/
def sampleEntry (a : Nat) : MemoryMap := (sampleFork.lookup 2 a).getD (pageEntry 0 Perms.R .stack 0)

/-- The state after a store fault of the child. -/
def sampleStore (a : Nat) : World := ((pageFault 2 a .store).run (sampleFork.withEnv sampleEnv)).2

/-- An address of the child lies in the one entry it has. -/
theorem sampleEntry_lookup {a : Nat} (h : (sampleFork.lookup 2 a).isSome) :
    sampleFork.lookup 2 a = some (sampleEntry a) := by
  obtain ⟨m, hm⟩ := Option.isSome_iff_exists.mp h
  rw [sampleEntry, hm]
  rfl

/-- The state after the fault of a store that succeeds. -/
theorem sampleStore_run {a : Nat}
    (h : ((pageFault 2 a .store).run (sampleFork.withEnv sampleEnv)).1 = .ok ()) :
    (pageFault 2 a .store).run (sampleFork.withEnv sampleEnv) = (.ok (), sampleStore a) :=
  Prod.ext h rfl

/-- The stack page of the child is shared with its parent and one page long. -/
theorem cowFault_resolved_iff_sampleFork :
    CowResolved sampleFork 2 0x3ffff000 (sampleEntry 0x3ffff000) (sampleStore 0x3ffff000) := by
  have hm := sampleEntry_lookup (a := 0x3ffff000) (by decide +kernel)
  refine (cowFault_resolved_iff sampleFork_reachable hm (by decide +kernel) (by decide +kernel)
    (sampleStore_run ?_)).mpr (by decide +kernel)
  decide +kernel

/-- The TLS block of the child has four pages. After a store in it, the entry has four pages
on a frame of one. -/
theorem tls_store_leaves_short_frame :
    ¬ ∀ w, Reachable w → ∀ pid addr m, w.lookup pid addr = some m → m.cow = true →
      m.flags.write = true → ∀ env w',
      (pageFault pid addr .store).run (w.withEnv env) = (.ok (), w') →
        CowResolved w pid addr m w' := by
  intro h
  have hm := sampleEntry_lookup (a := 0x4fff4000) (by decide +kernel)
  obtain ⟨-, ⟨m', fr, hm', hfr, hsize⟩, -⟩ := h sampleFork sampleFork_reachable 2 0x4fff4000 _ hm
    (by decide +kernel) (by decide +kernel) sampleEnv _ (sampleStore_run (by decide +kernel))
  have hshort : ((sampleStore 0x4fff4000).lookup 2 0x4fff4000).bind (fun m =>
      ((sampleStore 0x4fff4000).frames m.frameCap).map fun fr =>
        decide (m.size ≤ fr.pages * PGSIZE)) = some false := by decide +kernel
  rw [hm', Option.bind_some, hfr, Option.map_some, decide_eq_true hsize] at hshort
  cases hshort

end Ape
