import Ape.Proofs.ProcessTable
import Ape.Proofs.TableRuns

/-!
# `Ape.Proofs.Hardware`: the page tables of the processes

`vspaceOf` is the page table of each process. Only two primitives change it, `vspace.map` and
`vspace.unmap`, and each has one rule here, for the call that succeeds and for the call that is
refused. `map_process_frame` may unmap and map a second time. An unmapping that the mapping
covers leaves no mark, so a successful call is one mapping.

`Installed` reads one page: it is mapped, with the frame and the permissions given.
-/

set_option autoImplicit false

namespace Ape

open Ape.Lib Cmd

/-! ### The view -/

/-- The page tables of the processes. -/
abbrev PageTables := Nat → Option VSpace

/-- The page table of a process. -/
def World.vspaceOf (w : World) : PageTables := fun pid => (w.task? pid).map (·.mm.vspace)

/-- Change the page table of one process. -/
def PageTables.edit (v : PageTables) (pid : Nat) (f : VSpace → VSpace) : PageTables := fun q =>
  if q = pid then (v q).map f else v q

/-- A change of a record that keeps the page table of every process. -/
theorem World.vspaceOf_modifyTask (w : World) (pid : Nat) {f : TaskStruct → TaskStruct}
    (hf : ∀ t, (f t).mm.vspace = t.mm.vspace) : (w.modifyTask pid f).vspaceOf = w.vspaceOf := by
  funext q
  rw [World.vspaceOf, World.vspaceOf, World.task?, World.modifyTask, OrdMap.get?_modify]
  by_cases h : q = pid
  · subst h
    rw [if_pos rfl, Option.map_map]
    exact congrArg (Option.map · _) (funext hf)
  · rw [if_neg h]
    rfl

/-- A change of one page table. -/
theorem World.vspaceOf_modifyVspace (w : World) (pid : Nat) (f : VSpace → VSpace) :
    (w.modifyVspace pid f).vspaceOf = w.vspaceOf.edit pid f := by
  funext q
  rw [World.vspaceOf, PageTables.edit, World.task?, World.modifyVspace, World.modifyTask,
    OrdMap.get?_modify]
  by_cases h : q = pid
  · subst h
    rw [if_pos rfl, if_pos rfl, Option.map_map, World.vspaceOf, Option.map_map]
    rfl
  · rw [if_neg h, if_neg h]
    rfl

instance : BlindControl World.vspaceOf where
  tick _ _ := rfl
  slots _ _ := rfl
  trace _ _ := rfl
  signal w pid _ := w.vspaceOf_modifyTask pid fun _ => rfl
  dropped _ _ := rfl
  missedIntr _ _ := rfl
  record w pid _ hf := w.vspaceOf_modifyTask pid fun t => by rw [(hf t).1]
  hostPidMap _ _ := rfl
  stale _ _ := rfl
  stopLog _ _ := rfl
  stopSkewed _ _ := rfl
  childEvents _ _ := rfl
  pendingWaits _ _ := rfl
  lifecycle _ _ := rfl
  missedWake _ _ := rfl
  waited _ _ := rfl
  leftEvents _ _ := rfl
  pendingSleeps _ _ := rfl
  requestId _ _ := rfl
  idSaturated _ _ := rfl
  sleepLog _ _ := rfl
  caller _ _ := rfl

instance : BlindFiles World.vspaceOf where
  files w pid _ := w.vspaceOf_modifyTask pid fun _ => rfl
  cloexecLog _ _ := rfl
  positionSplit _ _ := rfl
  endpoints _ _ := rfl
  doubleClose _ _ := rfl
  asyncFree _ _ := rfl
  asyncRegions _ _ := rfl
  asyncVaddr _ _ := rfl
  iouring _ _ := rfl
  fdOverflow _ _ := rfl
  earlyRecycle _ _ := rfl

instance : BlindSlots World.vspaceOf where
  ledger _ _ := rfl

instance : BlindPaths World.vspaceOf where
  tables w pid _ := w.vspaceOf_modifyTask pid fun _ => rfl

instance : BlindBytes World.vspaceOf where
  scratch _ _ _ := rfl
  writeFrame _ _ _ := rfl

instance : BlindFrames World.vspaceOf where
  frames _ _ _ := rfl
  refs _ _ := rfl
  doubleFree _ _ := rfl

instance : BlindMm World.vspaceOf where
  mm w pid _ := w.vspaceOf_modifyTask pid fun _ => rfl
  fileMapLog _ _ := rfl

/-! ### Mapping and unmapping -/

/-- Two changes of the page tables of a process are one. -/
theorem PageTables.edit_edit (v : PageTables) (pid : Nat) (f g : VSpace → VSpace) :
    (v.edit pid f).edit pid g = v.edit pid fun vs => g (f vs) := by
  funext q
  unfold PageTables.edit
  split
  · rw [Option.map_map]
    rfl
  · rfl

/-- A mapping covers an unmapping of the same pages. -/
theorem VSpace.map_unmap (vs : VSpace) (slot vaddr : Nat) (perms : Perms) (pages : Nat) :
    (vs.unmap vaddr (pages * PGSIZE)).map slot vaddr perms pages
      = vs.map slot vaddr perms pages := by
  funext v
  unfold VSpace.map VSpace.unmap
  rw [Nat.mul_div_cancel pages (by decide : 0 < PGSIZE)]
  split <;> rfl

section Calls

variable {v : PageTables}

/-- The state has these page tables. -/
abbrev HasTables (v : PageTables) (w : World) : Prop := w.vspaceOf = v

/-- A command that changes no page table. -/
theorem vspace_step {α : Type} {c : M α} (h : Frames World.vspaceOf c) :
    Triple (HasTables v) c (fun _ => HasTables v) (fun _ => HasTables v) :=
  (Frames.keeps h (· = v)).triple

/-- A page is in the tables when its mapping was not refused. -/
theorem vspaceMap_tables (pid slot vaddr : Nat) (perms : Perms) (pages : Nat) :
    Triple (HasTables v) (vspaceMap pid slot vaddr perms pages)
      (fun _ => HasTables (v.edit pid fun vs => vs.map slot vaddr perms pages))
      (fun _ => HasTables v) := by
  refine Triple.bind (vspace_step ext_frames) fun _ => Triple.modify fun w h => ?_
  rw [HasTables, World.vspaceOf_modifyVspace, h]

/-- A range is out of the tables when its end was not refused. -/
theorem vspaceUnmap_tables (pid vaddr bytes : Nat) :
    Triple (HasTables v) (vspaceUnmap pid vaddr bytes)
      (fun _ => HasTables (v.edit pid fun vs => vs.unmap vaddr bytes)) (fun _ => HasTables v) := by
  refine Triple.bind (vspace_step ext_frames) fun _ => Triple.modify fun w h => ?_
  rw [HasTables, World.vspaceOf_modifyVspace, h]

/-- `map_process_frame` maps the pages. When it fails the pages are as they were, or are not
mapped. -/
theorem mapProcessFrame_tables (pid slot vaddr : Nat) (perms : Perms) (pages : Nat) :
    Triple (HasTables v) (mapProcessFrame pid slot vaddr perms pages)
      (fun _ => HasTables (v.edit pid fun vs => vs.map slot vaddr perms pages))
      (fun _ w => HasTables v w ∨
        HasTables (v.edit pid fun vs => vs.unmap vaddr (pages * PGSIZE)) w) := by
  have hstep : ∀ {α : Type} {c : M α}, Frames World.vspaceOf c →
      Triple (HasTables v) c (fun _ => HasTables v) (fun _ w => HasTables v w ∨
        HasTables (v.edit pid fun vs => vs.unmap vaddr (pages * PGSIZE)) w) := fun h =>
    (vspace_step h).errors fun _ _ h => .inl h
  unfold mapProcessFrame
  refine Triple.bind (hstep (by simp)) fun _ => Triple.bind (hstep (by simp)) fun _ => ?_
  refine Triple.bind (R := Triple.onOutcome
    (fun _ => HasTables (v.edit pid fun vs => vs.map slot vaddr perms pages)) fun _ => HasTables v)
    (Triple.attempt (vspaceMap_tables pid slot vaddr perms pages)) fun r => ?_
  -- the first try succeeds, or it is refused and the kernel says why
  rcases r with e | _
  swap
  · exact Triple.pure fun w h => h
  split
  · contradiction
  · -- the second try, after an unmapping that may fail
    refine Triple.bind (R := fun _ w => HasTables v w ∨
      HasTables (v.edit pid fun vs => vs.unmap vaddr (pages * PGSIZE)) w) ?_ fun _ => ?_
    · exact Triple.ignore ((vspaceUnmap_tables pid vaddr _).imp (fun _ h => h)
        (fun _ _ h => .inr h) fun _ _ h => .inl h)
    refine Triple.bind (R := fun _ w => HasTables v w ∨
      HasTables (v.edit pid fun vs => vs.unmap vaddr (pages * PGSIZE)) w) ?_ fun _ => ?_
    -- the tables in between go away or stay, and the map is the same on both
    · exact (Frames.keeps (f := World.vspaceOf) (by simp) fun u => u = v ∨
        u = v.edit pid fun vs => vs.unmap vaddr (pages * PGSIZE)).triple
    · refine Triple.of_pre fun w₀ h₀ => ?_
      have hmap := vspaceMap_tables (v := w₀.vspaceOf) pid slot vaddr perms pages
      refine hmap.imp (fun w hw => by rw [hw]) ?_ ?_
      · intro _ w hw
        unfold HasTables at hw h₀ ⊢
        rcases h₀ with h | h
        · rw [hw, h]
        · rw [hw, h, PageTables.edit_edit]
          simp only [VSpace.map_unmap]
      · intro _ w hw
        rw [HasTables, HasTables, hw]
        exact h₀
  · exact Triple.throw fun w h => .inl h

end Calls

/-! ### One page -/

/-- Page `v` of the process is mapped to the frame in `slot`, with these permissions. -/
def World.Installed (w : World) (pid v slot : Nat) (perms : Perms) : Prop :=
  ∃ vs i, w.vspaceOf pid = some vs ∧ vs v = some ⟨slot, i, perms⟩

/-- A process has page tables as long as it is there. -/
theorem World.vspaceOf_isSome (w : World) (pid : Nat) : (w.vspaceOf pid).isSome = w.live pid :=
  Option.isSome_map

/-- A page that a mapping covers is installed. -/
theorem World.Installed.of_map {w : World} {u : PageTables} {pid slot vaddr pages v : Nat}
    {perms : Perms} (h : HasTables (u.edit pid fun vs => vs.map slot vaddr perms pages) w)
    (hu : (u pid).isSome) (hlo : vaddr / PGSIZE ≤ v) (hhi : v < vaddr / PGSIZE + pages) :
    w.Installed pid v slot perms := by
  obtain ⟨vs, hvs⟩ := Option.isSome_iff_exists.mp hu
  refine ⟨vs.map slot vaddr perms pages, v - vaddr / PGSIZE, ?_, ?_⟩
  · rw [show w.vspaceOf = _ from h, PageTables.edit, if_pos rfl, hvs]
    rfl
  · rw [VSpace.map, if_pos ⟨hlo, hhi⟩]

/-- A successful `map_process_frame` of a live process installs every page. -/
theorem mapProcessFrame_installs (pid slot vaddr : Nat) (perms : Perms) (pages : Nat) :
    Triple (fun w => w.live pid = true) (mapProcessFrame pid slot vaddr perms pages)
      (fun _ w => ∀ v, vaddr / PGSIZE ≤ v → v < vaddr / PGSIZE + pages →
        w.Installed pid v slot perms) (fun _ w => w.live pid = true) := by
  refine Triple.of_pre fun w₀ h₀ => ?_
  have hmap := (mapProcessFrame_tables (v := w₀.vspaceOf) pid slot vaddr perms pages).and
    (Frames.keeps (mapProcessFrame_frames (V := World.live pid) pid slot vaddr perms pages)
      (· = true)).triple
  refine hmap.imp ?_ ?_ fun _ w hw => hw.2
  · intro w hw
    rw [hw]
    exact ⟨rfl, h₀⟩
  · intro _ w hw v hlo hhi
    exact World.Installed.of_map hw.1 (by rw [World.vspaceOf_isSome, h₀]) hlo hhi

end Ape
