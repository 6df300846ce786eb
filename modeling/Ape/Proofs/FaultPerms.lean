import Ape.Proofs.Cow

/-!
# `Ape.Proofs.FaultPerms`: what a permitted fault records

A fault in an entry of `memory_maps` whose recorded permissions allow the access is resolved
in one of two ways. A store in a copy-on-write entry gets a frame of its own. Every other
access has the frame installed again by `remap_existing_page`, without `WRITE` while the entry
is copy-on-write.

`remap_existing_page` also writes the permissions it installs back into the entry. For a
copy-on-write entry these are not the recorded ones: the entry loses `WRITE`, and the next
store in it ends the process. `permitted_fault_keeps_flags_iff` says that this is the one case
in which a permitted fault changes the record.
-/

set_option autoImplicit false

namespace Ape

open Ape.Lib Cmd

/-- The entries of `pid` are filed under their addresses, as `add_memory_map` files them. -/
def World.Filed (w : World) (pid : Nat) : Prop :=
  ∀ mm k m, w.mms.get? pid = some mm → mm.memoryMaps.get? k = some m → m.vaddr = k

/-- What a permitted fault at an address of `m` promises: the entry there has the permissions
of `m`, so it allows what `m` allowed, and a store does not end the process when `m` is
writable. -/
structure FlagsKept (w : World) (pid addr : Nat) (m : MemoryMap) : Prop where
  flags : ∃ m', w.lookup pid addr = some m' ∧ m'.flags = m.flags
  access : ∀ cause, faultAccessAllowed cause m.flags = true →
    ∃ m', w.lookup pid addr = some m' ∧ faultAccessAllowed cause m'.flags = true
  store : m.flags.write = true →
    ∀ env, ((pageFault pid addr .store).run (w.withEnv env)).2.live pid = true

/-! ### The two ways to resolve a permitted fault -/

/-- The table after `remap_existing_page`. -/
def MmState.setEntryFlags (mm : MmState) (v : Nat) (perms : Perms) : MmState :=
  { mm with memoryMaps := mm.memoryMaps.modify v fun m => { m with flags := perms } }

section Records

variable {mms : OrdMap Nat MmState}

/-- A command that leaves the tables alone. -/
theorem mms_step {α : Type} {c : M α} (h : Frames World.mms c) :
    Triple (fun w => w.mms = mms) c (fun _ w => w.mms = mms) (fun _ _ => True) :=
  (Frames.keeps h (· = mms)).triple.errors fun _ _ _ => trivial

/-- An edit of one table. -/
theorem mms_edit (pid : Nat) (f : MmState → MmState) :
    Triple (fun w => w.mms = mms) (modifyMm pid f) (fun _ w => w.mms = mms.modify pid f)
      (fun _ _ => True) := by
  refine Triple.modify fun w hw => ?_
  rw [World.mms_modifyMm, hw]

/-- The permissions that are installed are the ones that are recorded. -/
theorem remapExistingPage_records (pid v frameCap : Nat) (perms : Perms) (pages : Nat) :
    Triple (fun w => w.mms = mms) (remapExistingPage pid v frameCap perms pages)
      (fun _ w => w.mms = mms.modify pid (·.setEntryFlags v perms)) (fun _ _ => True) := by
  unfold remapExistingPage
  refine Triple.bind (mms_step (by simp)) fun _ => ?_
  refine Triple.bind (mms_step (by simp)) fun _ => ?_
  exact mms_edit pid (·.setEntryFlags v perms)

/-- The copy is recorded with the permissions it was asked for. -/
theorem resolveCowFault_records (pid v oldFrame : Nat) (perms : Perms) :
    Triple (fun w => w.mms = mms) (resolveCowFault pid v oldFrame perms)
      (fun _ w => ∃ slot, w.mms = mms.modify pid (·.setCopied v slot perms))
      (fun _ _ => True) := by
  unfold resolveCowFault
  refine Triple.ite (fun _ => Triple.throw fun _ _ => trivial) fun _ => ?_
  refine Triple.bind (mms_step (by simp)) fun slot => ?_
  refine Triple.bind (mms_step (by simp)) fun _ => ?_
  refine Triple.bind (mms_step (copyFramePage_frames _ _)) fun _ => ?_
  refine Triple.bind (mms_step (by simp)) fun _ => ?_
  refine Triple.bind (mms_step (by simp)) fun _ => ?_
  refine Triple.bind (mms_edit pid (·.setCopied v slot perms)) fun _ => ?_
  exact (mms_step (by simp)).post fun _ _ h => ⟨slot, h⟩

end Records

/-- The permissions that a permitted fault installs. -/
def faultPerms (m : MemoryMap) : Perms := if m.cow then m.flags.removeWrite else m.flags

section Faults

variable {w : World} {pid addr : Nat} {m : MemoryMap} {cause : FaultCause}

/-- The run of a permitted access that is not a store in a shared entry. -/
theorem run_pageFault_remap (hm : w.lookup pid addr = some m)
    (hallow : faultAccessAllowed cause m.flags = true) (hcow : ¬ (cause = .store ∧ m.cow = true)) :
    (pageFault pid addr cause).run w
      = (remapExistingPage pid m.vaddr m.frameCap (faultPerms m) m.pages).run w := by
  obtain ⟨mm, hmm, hlook⟩ := Option.bind_eq_some_iff.mp hm
  rw [World.get?_mms] at hmm
  obtain ⟨t, ht, rfl⟩ := Option.map_eq_some_iff.mp hmm
  rw [pageFault, run_bind_ok (run_getProcess ht), hlook]
  show (faultInEntry pid cause m).run w = _
  rw [faultInEntry, if_neg hcow, hallow]
  rfl

/-- A store in a writable entry does not end the process. -/
theorem store_lives (hm : w.lookup pid addr = some m) (hwrite : m.flags.write = true) :
    ((pageFault pid addr .store).run w).2.live pid = true := by
  have hlive : w.live pid = true := by
    obtain ⟨mm, hmm, -⟩ := Option.bind_eq_some_iff.mp hm
    rw [World.get?_mms] at hmm
    obtain ⟨t, ht, -⟩ := Option.map_eq_some_iff.mp hmm
    rw [World.live, ht]
    rfl
  -- the two ways out are a copy and new permissions, and neither ends the process
  by_cases hcow : m.cow = true
  · rw [run_pageFault_cow hm hcow hwrite]
    have hstays : Frames (World.live pid)
      (resolveCowFault pid m.vaddr m.frameCap m.flags) := by simp
    rw [hstays w]
    exact hlive
  · have hallow : faultAccessAllowed .store m.flags = true := by
      simp [faultAccessAllowed, Perms.contains, Perms.W, hwrite]
    rw [run_pageFault_remap hm hallow fun h => hcow h.2]
    have hstays : Frames (World.live pid)
        (remapExistingPage pid m.vaddr m.frameCap (faultPerms m) m.pages) := by simp
    rw [hstays w]
    exact hlive

/-- An entry with the permissions of `m` allows all that `m` did. -/
theorem FlagsKept.of_flags {m' : MemoryMap} (hm' : w.lookup pid addr = some m')
    (hflags : m'.flags = m.flags) : FlagsKept w pid addr m where
  flags := ⟨m', hm', hflags⟩
  access cause hallow := ⟨m', hm', by rw [hflags]; exact hallow⟩
  store hwrite env := by
    have hm'' : (w.withEnv env).lookup pid addr = some m' := hm'
    exact store_lives hm'' (by rw [hflags]; exact hwrite)

end Faults

/-! ### The record after a permitted fault -/

/-- A lookup in a table in which the entry it finds was changed in place. -/
theorem lookup_modified {w w' : World} {pid addr : Nat} {mm : MmState} {m : MemoryMap}
    {g : MemoryMap → MemoryMap} {f : MmState → MmState}
    (hmm : w.mms.get? pid = some mm) (hkey : ∀ k m, mm.memoryMaps.get? k = some m → m.vaddr = k)
    (hlook : mm.lookupMemoryMap addr = some m)
    (hf : (f mm).memoryMaps = mm.memoryMaps.modify m.vaddr g)
    (hg : (g m).vaddr = m.vaddr ∧ (g m).size = m.size)
    (hmms : w'.mms = w.mms.modify pid f) : w'.lookup pid addr = some (g m) := by
  obtain ⟨k, hfloor, hlt⟩ := entryAt_floor hlook
  have hk : m.vaddr = k := hkey k m (OrdMap.floor?_eq_some.mp hfloor).1
  subst hk
  rw [World.lookup, hmms, OrdMap.get?_modify, if_pos rfl, hmm]
  show entryAt (f mm).memoryMaps addr = some (g m)
  rw [hf, entryAt, OrdMap.floor?_modify _ _ hfloor, if_pos rfl]
  show (if addr < wAdd (g m).vaddr (g m).size then some (g m) else none) = _
  rw [hg.1, hg.2, if_pos hlt]

/-- A permitted fault that returns keeps what the entry records, unless the entry is a writable
one that is copy-on-write and the access is not a store. -/
theorem permitted_fault_keeps_flags_iff {w w' : World} {pid addr : Nat} {m : MemoryMap}
    {cause : FaultCause} (hfiled : w.Filed pid) (hm : w.lookup pid addr = some m)
    (hallow : faultAccessAllowed cause m.flags = true)
    (hrun : (pageFault pid addr cause).run w = (.ok (), w')) :
    FlagsKept w' pid addr m ↔ ¬ (m.cow = true ∧ m.flags.write = true ∧ cause ≠ .store) := by
  obtain ⟨mm, hmm, hlook⟩ := Option.bind_eq_some_iff.mp hm
  have hkey : ∀ k m, mm.memoryMaps.get? k = some m → m.vaddr = k := fun k m => hfiled mm k m hmm
  by_cases hstore : cause = .store ∧ m.cow = true
  · -- a store in a shared entry: the copy has the permissions of the entry
    obtain ⟨rfl, hcow⟩ := hstore
    have hwrite : m.flags.write = true := by
      simpa [faultAccessAllowed, Perms.contains, Perms.W] using hallow
    refine iff_of_true ?_ fun h => h.2.2 rfl
    rw [run_pageFault_cow hm hcow hwrite] at hrun
    have hafter := (resolveCowFault_records pid m.vaddr m.frameCap m.flags w rfl).1 ()
    rw [hrun] at hafter
    obtain ⟨slot, hmms⟩ := hafter rfl
    have hfound : w'.lookup pid addr
        = some { m with frameCap := slot, cow := false, flags := m.flags } :=
      lookup_modified (g := fun m' => { m' with frameCap := slot, cow := false, flags := m.flags })
        hmm hkey hlook rfl ⟨rfl, rfl⟩ hmms
    exact FlagsKept.of_flags hfound rfl
  · -- any other access: what is installed is recorded
    rw [run_pageFault_remap hm hallow hstore] at hrun
    have hafter := (remapExistingPage_records pid m.vaddr m.frameCap
      (faultPerms m) m.pages w rfl).1 ()
    rw [hrun] at hafter
    have hfound : w'.lookup pid addr = some { m with flags := faultPerms m } :=
      lookup_modified (g := fun m' => { m' with flags := faultPerms m })
        hmm hkey hlook rfl ⟨rfl, rfl⟩ (hafter rfl)
    constructor
    · rintro ⟨⟨m', hm', hflags⟩, -, -⟩ ⟨hcow, hwrite, -⟩
      rw [hfound] at hm'
      cases hm'
      have hperms : faultPerms m = m.flags := hflags
      rw [faultPerms, if_pos hcow] at hperms
      have hlost : m.flags.removeWrite.write = false := rfl
      rw [hperms, hwrite] at hlost
      cases hlost
    · intro hno
      refine FlagsKept.of_flags hfound ?_
      show faultPerms m = m.flags
      rw [faultPerms]
      split
      · rename_i hcow
        -- a shared entry that is not writable has no `WRITE` to lose
        have hread : m.flags.write = false := by
          by_contra hwrite
          refine hno ⟨hcow, by simpa using hwrite, fun hcause => hstore ⟨hcause, hcow⟩⟩
        show { m.flags with write := false } = m.flags
        rw [← hread]
      · rfl

/-- The state after a load of the child at `a`, in the sample run. -/
def sampleLoad (a : Nat) : World := ((pageFault 2 a .load).run (sampleFork.withEnv sampleEnv)).2

/-- A store of the child in its stack page keeps what the entry records. -/
theorem permitted_fault_keeps_flags_iff_sampleFork :
    FlagsKept (sampleStore 0x3ffff000) 2 0x3ffff000 (sampleEntry 0x3ffff000) := by
  have hm := sampleEntry_lookup (a := 0x3ffff000) (by decide +kernel)
  have hfiled : (sampleFork.withEnv sampleEnv).Filed 2 := fun mm k m hmm hk =>
    (Counted.shaped sampleFork_reachable.frameInv 2 mm hmm k m hk).1
  refine (permitted_fault_keeps_flags_iff hfiled hm (by decide +kernel)
    (sampleStore_run (by decide +kernel))).mpr fun h => ?_
  exact h.2.2 rfl

/-- The child reads its stack page before it writes it: the entry loses `WRITE`, and the store
that follows ends the child. -/
theorem load_drops_write :
    ¬ ∀ w, Reachable w → ∀ pid addr cause m, w.lookup pid addr = some m → m.memType ≠ .image →
      faultAccessAllowed cause m.flags = true → ∀ env w',
      (pageFault pid addr cause).run (w.withEnv env) = (.ok (), w') → FlagsKept w' pid addr m := by
  intro h
  have hm := sampleEntry_lookup (a := 0x3ffff000) (by decide +kernel)
  have hrun : (pageFault 2 0x3ffff000 .load).run (sampleFork.withEnv sampleEnv)
      = (.ok (), sampleLoad 0x3ffff000) := Prod.ext (by decide +kernel) rfl
  have hkept := h sampleFork sampleFork_reachable 2 0x3ffff000 .load _ hm (by decide +kernel)
    (by decide +kernel) sampleEnv _ hrun
  have hkilled : ((pageFault 2 0x3ffff000 .store).run
      ((sampleLoad 0x3ffff000).withEnv sampleEnv)).2.live 2 = false := by decide +kernel
  rw [hkept.store (by decide +kernel) sampleEnv] at hkilled
  cases hkilled

end Ape
