import Ape.Proofs.DescriptorRuns
import Ape.Proofs.FrameRuns

/-!
# `Ape.Proofs.Endpoints`: what runs guarantee about open files

Three results about descriptors, each for every run.

* `endpoint_lifetime`: a table has only open endpoints, no endpoint is closed twice, and
  `do_close` closes the endpoint exactly when the descriptor was the last one that had it.
* `regions_have_one_owner`: as long as no region is given back too early, a region is in the pool
  or belongs to one endpoint. `fork` copies a handle with its region, and a `close` in one of the
  two processes gives the region back while the other still has it.
* `open_does_not_clobber`: a call that opens a descriptor takes one that was not open and leaves
  the others alone. `openat` does so until `next_fd` is `u32::MAX`.
-/

set_option autoImplicit false

namespace Ape

open Ape.Lib Cmd

/-! ### Endpoints -/

/-- No other descriptor, of any process, has the endpoint in `slot`. -/
def World.LastDescriptor (w : World) (pid fd slot : Nat) : Prop :=
  ∀ q t fd' h, w.task? q = some t → t.files.fds.get? fd' = some h → h.fsEpSlot = slot →
    q = pid ∧ fd' = fd

/-- The end of an endpoint is recorded once. -/
theorem closeEndpoint_trace (slot : Nat) (l : List Event) :
    Triple (fun w => w.trace = l) (closeEndpoint slot)
      (fun _ w => w.trace = l ++ [.fileClosed slot]) (fun _ _ => False) := by
  have hcall : Frames World.trace (ignore (do let _ ← ext) : M Unit) := by simp
  have htotal : Total (ignore (do let _ ← ext) : M Unit) := Total.ignore _
  refine Triple.bind (R := fun _ w => w.trace = l)
    (htotal.triple (hcall.keeps (· = l)).triple) fun _ => ?_
  refine Triple.bind (R := fun _ w => w.trace = l) (Triple.modify fun w h => h) fun _ => ?_
  refine Triple.bind (R := fun _ w => w.trace = l ++ [.fileClosed slot])
    (Triple.modify fun w h => by rw [h]) fun _ => ?_
  exact Triple.when (fun _ => Triple.modify fun w h => h) fun w _ h => h

/-- The region of a closed descriptor leaves no trace. -/
theorem recycleClosed_trace (io : AsyncIoState) (shared : Bool) (l : List Event) :
    Triple (fun w => w.trace = l) (recycleClosed io shared) (fun _ w => w.trace = l)
      (fun _ _ => False) := by
  refine Triple.bind (R := fun _ w => w.trace = l) (Triple.modify fun w h => h) fun _ => ?_
  refine Triple.modify fun w h => ?_
  split <;> exact h

section Close

variable {w : World} {pid fd : Nat} {t : TaskStruct} {h : FileHandle}

/-- The state when `do_close` has taken the descriptor out of the table. -/
def World.withoutFd (w : World) (pid fd : Nat) : World :=
  w.modifyTask pid fun t => { t with files := t.files.closeFd fd }

/-- The part of `do_close` after the descriptor is out of the table. -/
def afterClose (h : FileHandle) : M Unit := do
  let shared ← gets (·.endpointShared h.fsEpSlot)
  when (¬ shared) (closeEndpoint h.fsEpSlot)
  whenSome h.asyncIo fun io => recycleClosed io shared

/-- `close` of an open descriptor takes it out and ends its handle. -/
theorem doClose_run (ht : w.task? pid = some t) (hget : t.files.fds.get? fd = some h)
    (hfd : fd < 2 ^ 32) : (doClose pid fd).run w = (afterClose h).run (w.withoutFd pid fd) := by
  have hproc : (getProcess pid).run w = (.ok t, w) := by
    rw [getProcess, run_gets_bind, ht]
    rfl
  rw [doClose, if_neg (by omega), run_bind_ok hproc, modifyFiles, modifyTask, run_modify_bind,
    hget, getSome_bind]
  rfl

/-- The scan runs over the tables without the removed descriptor. -/
theorem World.withoutFd_shared (ht : w.task? pid = some t) (fd slot : Nat) :
    (w.withoutFd pid fd).endpointShared slot = false ↔ w.LastDescriptor pid fd slot := by
  have hfiles : ∀ {q t'}, w.task? q = some t' → w.fileView.files q = some t'.files := by
    intro q t' hq
    show (w.task? q).map _ = _
    rw [hq]
    rfl
  have hview : (w.withoutFd pid fd).fileView =
      w.fileView.set pid (some (t.files.closeFd fd)) := by
    rw [World.withoutFd, w.fileView_modifyFiles pid (·.closeFd fd),
      FileView.modify_eq_set, hfiles ht]
    rfl
  -- the table without `fd` refers to the slot exactly when another descriptor does
  rw [← Bool.not_eq_true, World.endpointShared_iff, hview]
  constructor
  · intro hno q t' fd' h' hq hfd' hslot
    by_contra hne
    refine hno (FileView.exists_set.mpr ?_)
    by_cases hpid : q = pid
    · subst hpid
      rw [ht] at hq
      cases hq
      refine .inl ⟨_, rfl, fd', h', ?_, hslot⟩
      rw [FilesState.closeFd, OrdMap.get?_erase, if_neg fun heq => hne ⟨rfl, heq⟩]
      exact hfd'
    · exact .inr ⟨q, t'.files, hpid, hfiles hq, fd', h', hfd', hslot⟩
  · intro hlast hrefers
    rcases FileView.exists_set.mp hrefers with ⟨fs, heq, fd', h', hget', hslot⟩ |
      ⟨q, fs, hne, hq, fd', h', hget', hslot⟩
    · cases heq
      rw [FilesState.closeFd, OrdMap.get?_erase] at hget'
      split at hget'
      · cases hget'
      · rename_i hne
        exact hne (hlast pid t fd' h' ht hget' hslot).2
    · obtain ⟨t', ht', rfl⟩ := Option.map_eq_some_iff.mp hq
      exact hne (hlast q t' fd' h' ht' hget' hslot).1

/-- A descriptor that is taken out has its endpoint closed when no other has it. -/
theorem afterClose_trace (h : FileHandle) (w : World) :
    ((afterClose h).run w).1 = .ok () ∧
    ((afterClose h).run w).2.trace = if w.endpointShared h.fsEpSlot then w.trace
      else w.trace ++ [.fileClosed h.fsEpSlot] := by
  -- the region of the handle is recycled after the close, which logs nothing
  have hrest : ∀ (shared : Bool) (l : List Event), Triple (fun v : World => v.trace = l)
      (whenSome h.asyncIo fun io => recycleClosed io shared) (fun _ v => v.trace = l)
      (fun _ _ => False) := fun shared l =>
    Triple.whenSome (fun io _ => recycleClosed_trace io shared l) fun v _ hv => hv
  have hend : Triple (fun v : World => v = w) (afterClose h)
      (fun _ v => v.trace = if w.endpointShared h.fsEpSlot then w.trace
        else w.trace ++ [.fileClosed h.fsEpSlot]) (fun _ _ => False) := by
    -- the endpoint is shared or not in the state where the call looks, which is `w`
    refine Triple.bind (R := fun shared v => v.trace = w.trace ∧
      shared = w.endpointShared h.fsEpSlot) (Triple.gets fun v hv => by rw [hv]; exact ⟨rfl, rfl⟩)
      fun shared => Triple.of_pre fun v₀ h₀ => ?_
    obtain ⟨htrace, rfl⟩ := h₀
    refine Triple.bind (Triple.when ?_ ?_) fun _ => hrest _ _
    · intro hc
      rw [if_neg hc]
      exact (closeEndpoint_trace _ _).pre fun v hv => by rw [hv, htrace]
    · intro v hc hv
      rw [if_pos (not_not.mp hc), hv, htrace]
  obtain ⟨hok, herr⟩ := hend w rfl
  cases hr : ((afterClose h).run w).1 with
  | error e => exact (herr e hr).elim
  | ok a => exact ⟨rfl, hok a hr⟩

/-- `do_close` closes the endpoint of the removed descriptor exactly when no other descriptor
has it. -/
theorem doClose_trace (ht : w.task? pid = some t) (hget : t.files.fds.get? fd = some h)
    (hfd : fd < 2 ^ 32) :
    ((doClose pid fd).run w).1 = .ok () ∧
    (w.LastDescriptor pid fd h.fsEpSlot →
      ((doClose pid fd).run w).2.trace = w.trace ++ [.fileClosed h.fsEpSlot]) ∧
    (¬ w.LastDescriptor pid fd h.fsEpSlot → ((doClose pid fd).run w).2.trace = w.trace) := by
  rw [doClose_run ht hget hfd]
  obtain ⟨hok, htrace⟩ := afterClose_trace h (w.withoutFd pid fd)
  refine ⟨hok, ?_, ?_⟩
  · intro hl
    rw [htrace, (World.withoutFd_shared ht _ _).mpr hl]
    rfl
  · intro hl
    have hshared : (w.withoutFd pid fd).endpointShared h.fsEpSlot = true := by
      by_contra hc
      exact hl ((World.withoutFd_shared ht _ _).mp (by simpa using hc))
    rw [htrace, hshared]
    rfl

end Close

/-- At a request boundary each endpoint in a table is open and no endpoint was closed twice, and
`do_close` closes the endpoint exactly when the descriptor is the last one that has it. -/
theorem endpoint_lifetime (w : World) (hw : Reachable w) :
    (∀ pid t fd h, w.task? pid = some t → t.files.fds.get? fd = some h →
      h.fsEpSlot ∈ w.openEndpoints) ∧
    w.doubleClose = false ∧
    ∀ env pid t fd h, w.task? pid = some t → t.files.fds.get? fd = some h →
      ((doClose pid fd).run (w.withEnv env)).1 = .ok () ∧
      (w.LastDescriptor pid fd h.fsEpSlot →
        ((doClose pid fd).run (w.withEnv env)).2.trace = w.trace ++ [.fileClosed h.fsEpSlot]) ∧
      (¬ w.LastDescriptor pid fd h.fsEpSlot →
        ((doClose pid fd).run (w.withEnv env)).2.trace = w.trace) := by
  have hok := hw.filesOk
  have hfiles : ∀ pid t, w.task? pid = some t → w.fileView.files pid = some t.files := by
    intro pid t ht
    show (w.task? pid).map _ = _
    rw [ht]
    rfl
  refine ⟨?_, hok.noDoubleClose, ?_⟩
  · intro pid t fd h ht hget
    exact hok.opened _ ⟨pid, t.files, hfiles pid t ht, fd, h, hget, rfl⟩
  · intro env pid t fd h ht hget
    have hfd := (hok.fds pid t.files (hfiles pid t ht)).bound fd h hget
    exact doClose_trace (w := w.withEnv env) ht hget hfd

/-- The standard descriptors of `init` are three names of one endpoint, and a `close` of the
first leaves it open. -/
theorem endpoint_lifetime_stdio :
    ((sampleBoot.task? 1).map fun t => t.files.fds.values.map (·.fsEpSlot)) =
      some [1003, 1003, 1003] ∧
    1003 ∈ sampleBoot.openEndpoints ∧ sampleBoot.doubleClose = false ∧
    ((doClose 1 0).run (sampleBoot.withEnv sampleEnv)).2.trace = sampleBoot.trace := by
  obtain ⟨t, ht⟩ := Option.isSome_iff_exists.mp
    (by decide +kernel : (sampleBoot.task? 1).isSome = true)
  have hfds : ∀ fd < 3, (sampleBoot.task? 1).bind (fun t => t.files.fds.get? fd) =
      some ⟨1003, 0, none⟩ := by decide +kernel
  rw [ht] at hfds
  obtain ⟨hopen, hdouble, hclose⟩ := endpoint_lifetime sampleBoot sampleBoot_reachable
  refine ⟨by decide +kernel, hopen 1 t 0 _ ht (hfds 0 (by decide)), hdouble, ?_⟩
  refine (hclose sampleEnv 1 t 0 _ ht (hfds 0 (by decide))).2.2 fun hlast => ?_
  exact absurd (hlast 1 t 1 _ ht (hfds 1 (by decide)) rfl).2 (by decide)

/-! ### Regions -/

/-- Some descriptor, of some process, has the region `id`, for the endpoint in `slot`. -/
def World.RegionHolder (w : World) (id slot : Nat) : Prop :=
  ∃ pid t fd h io, w.task? pid = some t ∧ t.files.fds.get? fd = some h ∧ h.asyncIo = some io ∧
    io.regionId = id ∧ h.fsEpSlot = slot

/-- Who holds a region, in the state and in its view. -/
theorem World.regionHolder_iff (w : World) (id slot : Nat) :
    w.RegionHolder id slot ↔ w.fileView.HeldBy id slot := by
  constructor
  · rintro ⟨pid, t, fd, h, io, ht, hrest⟩
    exact ⟨pid, t.files, by show (w.task? pid).map _ = _; rw [ht]; rfl, fd, h, io, hrest⟩
  · rintro ⟨pid, fs, hfs, fd, h, io, hrest⟩
    obtain ⟨t, ht, rfl⟩ := Option.map_eq_some_iff.mp hfs
    exact ⟨pid, t, fd, h, io, ht, hrest⟩

/-- Each region is in the pool, once, or it belongs to one open endpoint, and not both. -/
structure World.RegionsOwned (w : World) : Prop where
  once : w.asyncFree.Nodup
  region : ∀ id, id < w.asyncRegions.length ↔ id ∈ w.asyncFree ∨ ∃ slot, w.RegionHolder id slot
  notBoth : ∀ id ∈ w.asyncFree, ∀ slot, ¬ w.RegionHolder id slot
  one : ∀ id slot slot', w.RegionHolder id slot → w.RegionHolder id slot' → slot = slot'
  opened : ∀ id slot, w.RegionHolder id slot → slot ∈ w.openEndpoints

/-- The regions of a state, as long as no region was given back too early and no `next_fd`
overflowed. -/
theorem World.FilesOk.regionsOwned {w : World} (hok : w.FilesOk) (hover : w.fdOverflow = false)
    (hearly : w.earlyRecycle = false) : w.RegionsOwned := by
  have ho := hok.owned hover hearly
  have hiff := w.regionHolder_iff
  refine ⟨ho.nodup, fun id => ⟨?_, ?_⟩, ?_, ?_, ?_⟩
  · intro hlt
    exact (ho.all id hlt).imp_right fun ⟨slot, hs⟩ => ⟨slot, (hiff id slot).mpr hs⟩
  · intro hid
    rcases hid with hmem | ⟨slot, hs⟩
    · exact (ho.pooled id hmem).1
    · exact ho.held id slot ((hiff id slot).mp hs)
  · intro id hid slot hs
    exact (ho.pooled id hid).2 slot ((hiff id slot).mp hs)
  · intro id slot slot' hs hs'
    exact ho.one id slot slot' ((hiff _ _).mp hs) ((hiff _ _).mp hs')
  · intro id slot hs
    obtain ⟨pid, t, fd, h, io, ht, hget, -, -, hslot⟩ := hs
    exact hok.opened slot ⟨pid, t.files, by show (w.task? pid).map _ = _; rw [ht]; rfl, fd, h, hget,
      hslot⟩

/-- The pool after a descriptor was taken out. -/
theorem afterClose_pool (h : FileHandle) (w : World) :
    ((afterClose h).run w).2.fdOverflow = w.fdOverflow ∧
    ((afterClose h).run w).2.earlyRecycle =
      (w.earlyRecycle || (h.asyncIo.isSome && w.endpointShared h.fsEpSlot)) ∧
    ∀ io, h.asyncIo = some io → ((afterClose h).run w).2.asyncFree =
      if io.regionId < w.asyncRegions.length ∧ io.regionId ∉ w.asyncFree then
        w.asyncFree ++ [io.regionId] else w.asyncFree := by
  -- the close of the endpoint sees none of the four fields that the recycling reads
  let pool (v : World) := (v.fdOverflow, v.earlyRecycle, v.asyncFree, v.asyncRegions)
  have hblind : BlindSlots pool :=
    { tick := fun _ _ => rfl, slots := fun _ _ => rfl, ledger := fun _ _ => rfl }
  have hclose : Frames pool (closeEndpoint h.fsEpSlot) := by
    unfold closeEndpoint
    exact Frames.bind (by simp) fun _ => Frames.bind (fun _ => rfl) fun _ =>
      Frames.bind (fun _ => rfl) fun _ => by simp
  have hwhen : ∀ shared : Bool, Frames pool (when (¬ shared) (closeEndpoint h.fsEpSlot)) :=
    fun shared => Frames.when hclose
  obtain ⟨v, hv, hrun⟩ : ∃ v, pool v = pool w ∧ (afterClose h).run w =
      (whenSome h.asyncIo fun io => recycleClosed io (w.endpointShared h.fsEpSlot)).run v := by
    have hok : ((when (¬ w.endpointShared h.fsEpSlot = true) (closeEndpoint h.fsEpSlot)).run w).1 =
        .ok () := by
      have htotal : Total (when (¬ w.endpointShared h.fsEpSlot = true)
          (closeEndpoint h.fsEpSlot)) := Total.when (closeEndpoint_total _)
      cases hr : ((when (¬ w.endpointShared h.fsEpSlot = true)
        (closeEndpoint h.fsEpSlot)).run w).1 with
      | ok a => rfl
      | error e => exact absurd hr (htotal w e)
    refine ⟨_, hwhen (w.endpointShared h.fsEpSlot) w, ?_⟩
    rw [afterClose, run_gets_bind, run_bind_ok (Prod.ext hok rfl)]
  simp only [pool, Prod.mk.injEq] at hv
  obtain ⟨h1, h2, h3, h4⟩ := hv
  rw [hrun]
  cases hio : h.asyncIo with
  | none =>
    refine ⟨h1, ?_, fun io hsome => by cases hsome⟩
    show v.earlyRecycle = _
    rw [h2]
    simp
  | some io =>
    -- what the recycling writes, in the terms of the state before the close
    have hfree : ((recycleClosed io (w.endpointShared h.fsEpSlot)).run v).2 =
        (if io.regionId < w.asyncRegions.length ∧ io.regionId ∉ w.asyncFree then
          { v with earlyRecycle := v.earlyRecycle || w.endpointShared h.fsEpSlot,
                   asyncFree := w.asyncFree ++ [io.regionId] }
        else { v with earlyRecycle := v.earlyRecycle || w.endpointShared h.fsEpSlot }) := by
      rw [← h3, ← h4]
      rfl
    show _ ∧ _ ∧ _
    refine ⟨?_, ?_, fun io' hsome => ?_⟩
    · show ((recycleClosed io _).run v).2.fdOverflow = _
      rw [hfree]
      split <;> exact h1
    · show ((recycleClosed io _).run v).2.earlyRecycle = _
      rw [hfree, ← h2]
      split <;> simp
    · cases hsome
      show ((recycleClosed io _).run v).2.asyncFree = _
      rw [hfree]
      split
      · rfl
      · exact h3

/-- A region that is handed out belongs to no open file. -/
theorem World.FilesOk.allocated {w w' : World} {size : Nat} {r : AsyncIoRegion} (hok : w.FilesOk)
    (hover : w.fdOverflow = false) (hearly : w.earlyRecycle = false)
    (hrun : (allocateFsAsyncRegion size).run w = (.ok r, w')) (slot : Nat) :
    ¬ w.RegionHolder r.id slot := by
  let S (_ : Finset Nat) (files : Nat → Option FilesState) : Prop := files = w.fileView.files
  -- neither the pool nor a new region touches the two marks
  have hflags : Frames (fun v : World => (v.fdOverflow, v.earlyRecycle))
      (allocateFsAsyncRegion size) := by
    let flags (v : World) := (v.fdOverflow, v.earlyRecycle)
    have hblind : BlindFrames flags :=
      { tick := fun _ _ => rfl, slots := fun _ _ => rfl,
        frames := fun _ _ _ => rfl, refs := fun _ _ => rfl, doubleFree := fun _ _ => rfl }
    have hreuse : Frames flags tryReuseRegion := by
      unfold tryReuseRegion
      refine Frames.bind (Frames.gets _) fun free => ?_
      split
      · exact Frames.pure _
      · exact Frames.bind (fun _ => rfl) fun _ => Frames.gets _
    have hreserve : ∀ n, Frames flags (reserveAsyncVaddr n) := fun n =>
      Frames.bind (Frames.gets _) fun vaddr => Frames.bind (Frames.getSome _ _) fun next =>
        Frames.bind (fun _ => rfl) fun _ => Frames.pure _
    have hnew : ∀ n, Frames flags (newAsyncRegion n) := fun n =>
      Frames.bind (by simp) fun slot => Frames.bind (hreserve _) fun vaddr =>
        Frames.bind (by simp) fun _ => Frames.bind (Frames.gets _) fun id =>
          Frames.bind (fun _ => rfl) fun _ => Frames.pure _
    unfold allocateFsAsyncRegion
    refine Frames.bind hreuse fun reused => ?_
    split
    · exact Frames.pure _
    · exact Frames.bind (Frames.gets _) fun count => Frames.ite (Frames.throw _) (hnew _)
  have hopening := (allocateFsAsyncRegion_opening (S := S) size w ⟨hok, rfl⟩).1 r (by rw [hrun])
  have hf := hflags w
  rw [hrun] at hopening hf
  obtain ⟨h1, h2⟩ := Prod.mk.inj hf
  -- the region is in hand, so no descriptor holds it
  have ho := hopening.1.owned (h1.trans hover) (h2.trans hearly)
  intro hholder
  obtain ⟨pid, fs, hfs, hh⟩ := (w.regionHolder_iff r.id slot).mp hholder
  have hfs' : w'.fileView.files pid = some fs := by
    rw [show w'.fileView.files = w.fileView.files from hopening.2]
    exact hfs
  exact (ho.pooled r.id (by simp)).2 slot ⟨pid, fs, hfs', hh⟩

/-- A `close` leaves each region with one owner, and gives back the region of an endpoint only
with its last descriptor. -/
def World.CloseKeepsOwner (w : World) (pid fd : Nat) (h : FileHandle) (w' : World) : Prop :=
  w'.RegionsOwned ∧
  ∀ io, h.asyncIo = some io → io.regionId ∈ w'.asyncFree → w.LastDescriptor pid fd h.fsEpSlot

/-- When `close` leaves each endpoint with its owner. -/
theorem doClose_owner_iff {w : World} {pid fd : Nat} {t : TaskStruct} {h : FileHandle}
    (hok : w.FilesOk) (hover : w.fdOverflow = false) (hearly : w.earlyRecycle = false)
    (ht : w.task? pid = some t) (hget : t.files.fds.get? fd = some h) :
    w.CloseKeepsOwner pid fd h ((doClose pid fd).run w).2 ↔
      (h.asyncIo = none ∨ w.LastDescriptor pid fd h.fsEpSlot) := by
  have hfiles : w.fileView.files pid = some t.files := by
    show (w.task? pid).map _ = _
    rw [ht]
    rfl
  have hfd := (hok.fds pid t.files hfiles).bound fd h hget
  have hokAfter : ((doClose pid fd).run w).2.FilesOk := doClose_filesOk pid fd w hok
  obtain ⟨hover', hearly', hfree⟩ := afterClose_pool h (w.withoutFd pid fd)
  have hshared := World.withoutFd_shared ht fd h.fsEpSlot
  rw [World.CloseKeepsOwner, doClose_run ht hget hfd]
  rw [doClose_run ht hget hfd] at hokAfter
  constructor
  · rintro ⟨-, hlast⟩
    cases hio : h.asyncIo with
    | none => exact .inl rfl
    | some io =>
      -- the region of an open descriptor is not in the pool, so it is given back
      have ho := hok.owned hover hearly
      have hheld : w.fileView.HeldBy io.regionId h.fsEpSlot :=
        ⟨pid, t.files, hfiles, fd, h, io, hget, hio, rfl, rfl⟩
      have hlt : io.regionId < w.asyncRegions.length := ho.held _ _ hheld
      have hnot : io.regionId ∉ w.asyncFree := fun hmem => (ho.pooled _ hmem).2 _ hheld
      refine .inr (hlast io hio ?_)
      rw [hfree io hio]
      show io.regionId ∈ if io.regionId < w.asyncRegions.length ∧ io.regionId ∉ w.asyncFree then
        w.asyncFree ++ [io.regionId] else w.asyncFree
      rw [if_pos ⟨hlt, hnot⟩]
      exact List.mem_append_right _ (List.mem_singleton_self _)
  · intro hcond
    have hflag : ((afterClose h).run (w.withoutFd pid fd)).2.earlyRecycle = false := by
      rw [hearly']
      rcases hcond with hnone | hlast
      · rw [hnone]
        exact (Bool.or_false _).trans hearly
      · rw [hshared.mpr hlast, Bool.and_false]
        exact (Bool.or_false _).trans hearly
    refine ⟨hokAfter.regionsOwned (hover'.trans hover) hflag, ?_⟩
    intro io hio _
    rcases hcond with hnone | hlast
    · rw [hnone] at hio
      cases hio
    · exact hlast

/-- As long as no region was given back while another descriptor had its endpoint, and no
`next_fd` overflowed, each region has one owner: what is handed out belongs to no open file. The
next `close` keeps that exactly when its descriptor has no region or is the last one of its
endpoint. -/
theorem regions_have_one_owner (w : World) (hw : Reachable w) (hover : w.fdOverflow = false)
    (hearly : w.earlyRecycle = false) :
    w.RegionsOwned ∧
    (∀ env size r w', (allocateFsAsyncRegion size).run (w.withEnv env) = (.ok r, w') →
      ∀ slot, ¬ w.RegionHolder r.id slot) ∧
    ∀ env pid t fd h, w.task? pid = some t → t.files.fds.get? fd = some h →
      (w.CloseKeepsOwner pid fd h ((doClose pid fd).run (w.withEnv env)).2 ↔
        (h.asyncIo = none ∨ w.LastDescriptor pid fd h.fsEpSlot)) := by
  have hok := hw.filesOk
  refine ⟨hok.regionsOwned hover hearly, ?_, ?_⟩
  · intro env size r w' hrun slot
    exact World.FilesOk.allocated (w := w.withEnv env) hok hover hearly hrun slot
  · intro env pid t fd h ht hget
    exact doClose_owner_iff (w := w.withEnv env) hok hover hearly ht hget

/-- `init` has opened a file that takes a region. -/
def sampleOpened : World := sampleBoot.after (.syscall 1 (.openat 0x3ffff000 0))

/-- The sample with an open file is reachable. -/
theorem sampleOpened_reachable : Reachable sampleOpened :=
  sampleBoot_reachable.after (by decide +kernel)

/-- The file of `init` has the only region, and the pool is empty. -/
theorem regions_have_one_owner_opened :
    sampleOpened.fdOverflow = false ∧ sampleOpened.earlyRecycle = false ∧
    sampleOpened.asyncRegions.length = 1 ∧ sampleOpened.asyncFree = [] ∧
    sampleOpened.RegionsOwned ∧ ∃ slot, sampleOpened.RegionHolder 0 slot := by
  have hover : sampleOpened.fdOverflow = false := by decide +kernel
  have hearly : sampleOpened.earlyRecycle = false := by decide +kernel
  have howned := (regions_have_one_owner _ sampleOpened_reachable hover hearly).1
  have hlen : sampleOpened.asyncRegions.length = 1 := by decide +kernel
  have hfree : sampleOpened.asyncFree = [] := by decide +kernel
  refine ⟨hover, hearly, hlen, hfree, howned, ?_⟩
  have hregion := (howned.region 0).mp (by rw [hlen]; exact Nat.one_pos)
  rw [hfree] at hregion
  exact hregion.resolve_left List.not_mem_nil

/-- `init` opens a file, forks and closes its descriptor. -/
def sampleForkClose : World :=
  (sampleOpened.after (.syscall 1 (.clone 17 0 0))).after (.syscall 1 (.close 3))

/-- The region of the file is in the pool and belongs to the descriptor of the child. -/
theorem region_recycled_while_child_holds_it :
    Reachable sampleForkClose ∧ ¬ sampleForkClose.RegionsOwned := by
  have hfork : Reachable (sampleOpened.after (.syscall 1 (.clone 17 0 0))) :=
    sampleOpened_reachable.after (by decide +kernel)
  refine ⟨hfork.after (by decide +kernel), ?_⟩
  intro howned
  have hfree : sampleForkClose.asyncFree = [0] := by decide +kernel
  have hchild : ((sampleForkClose.task? 2).bind fun t => t.files.fds.get? 3).bind
      (fun h => h.asyncIo.map (·.regionId)) = some 0 := by decide +kernel
  obtain ⟨h, hget, hio⟩ := Option.bind_eq_some_iff.mp hchild
  obtain ⟨t, ht, hfd⟩ := Option.bind_eq_some_iff.mp hget
  obtain ⟨io, hsome, hid⟩ := Option.map_eq_some_iff.mp hio
  refine howned.notBoth 0 (by rw [hfree]; exact List.mem_singleton_self _) h.fsEpSlot ?_
  exact ⟨2, t, 3, h, io, ht, hfd, hsome, hid, rfl⟩

/-! ### Descriptor numbers -/

/-- The call opened the descriptors `new` and left the others alone. -/
structure FilesState.Opened (fs fs' : FilesState) (new : List Nat) : Prop where
  fresh : ∀ fd ∈ new, fs.fds.get? fd = none
  opened : ∀ fd ∈ new, fs'.fds.get? fd ≠ none
  handles : ∀ fd, fd ∉ new → fs'.fds.get? fd = fs.fds.get? fd
  paths : ∀ fd, fd ∉ new → fs'.fdPaths.get? fd = fs.fdPaths.get? fd
  cloexec : ∀ fd, fd ∉ new → fs'.fdCloexec.get? fd = fs.fdCloexec.get? fd
  bound : fs'.nextFd < 2 ^ 32

/-- A file that is opened is one new descriptor. -/
theorem FilesState.opened_openNext {fs : FilesState} {h : FileHandle} {path : String}
    (hnone : fs.fds.get? fs.nextFd = none) : fs.Opened (fs.openNext h path) [fs.nextFd] := by
  refine ⟨?_, ?_, ?_, ?_, fun _ _ => rfl, Nat.mod_lt _ (by decide)⟩
  · intro fd hfd
    rw [List.mem_singleton.mp hfd]
    exact hnone
  · intro fd hfd
    rw [List.mem_singleton.mp hfd, FilesState.openNext, OrdMap.get?_insert_self]
    exact Option.some_ne_none _
  · intro fd hfd
    rw [FilesState.openNext, OrdMap.get?_insert, if_neg (mt List.mem_singleton.mpr hfd)]
  · intro fd hfd
    rw [FilesState.openNext, OrdMap.get?_insert, if_neg (mt List.mem_singleton.mpr hfd)]

/-- A handle that is duplicated is one new descriptor. -/
theorem FilesState.opened_duplicate {fs : FilesState} {h : FileHandle} {fd arg new : Nat}
    {cloexec : Bool} (hnext : fs.nextFd < 2 ^ 32) (hfree : fs.freeFd arg = some new) :
    fs.Opened (fs.duplicate fd new h cloexec) [new] := by
  obtain ⟨hnone, -, hlt⟩ := FilesState.freeFd_some hfree
  refine ⟨?_, ?_, ?_, ?_, ?_, ?_⟩
  · intro f hf
    rw [List.mem_singleton.mp hf]
    exact hnone
  · intro f hf
    rw [List.mem_singleton.mp hf, FilesState.duplicate, OrdMap.get?_insert_self]
    exact Option.some_ne_none _
  · intro f hf
    rw [FilesState.duplicate, OrdMap.get?_insert, if_neg (mt List.mem_singleton.mpr hf)]
  · intro f hf
    unfold FilesState.duplicate
    simp only
    split
    · rw [OrdMap.get?_insert, if_neg (mt List.mem_singleton.mpr hf)]
    · rfl
  · intro f hf
    rw [FilesState.duplicate, OrdMap.get?_insert, if_neg (mt List.mem_singleton.mpr hf)]
  · show fs.raisedNextFd new < 2 ^ 32
    unfold FilesState.raisedNextFd
    split <;> omega

/-- A pipe is two new descriptors. -/
theorem FilesState.opened_addPipe {fs : FilesState} {readFd writeFd readSlot writeSlot : Nat}
    {cloexec : Bool} (hread : fs.freeFd fs.nextFd = some readFd)
    (hwrite : fs.freeFd (readFd + 1) = some writeFd) :
    fs.Opened (fs.addPipe readFd writeFd readSlot writeSlot cloexec) [readFd, writeFd] := by
  obtain ⟨hrnone, -, hrlt⟩ := FilesState.freeFd_some hread
  obtain ⟨hwnone, hle, hwlt⟩ := FilesState.freeFd_some hwrite
  have hout : ∀ f, f ∉ [readFd, writeFd] → f ≠ readFd ∧ f ≠ writeFd := by
    intro f hf
    simpa using hf
  -- both numbers are free, and the later one was looked for behind the first
  refine ⟨?_, ?_, ?_, fun f hf => rfl, ?_, ?_⟩
  · intro f hf
    rcases List.mem_pair.mp hf with rfl | rfl
    · exact hrnone
    · exact hwnone
  · intro f hf
    rw [FilesState.addPipe, OrdMap.get?_insert, OrdMap.get?_insert]
    rcases List.mem_pair.mp hf with rfl | rfl
    · rw [if_neg (by omega), if_pos rfl]
      exact Option.some_ne_none _
    · rw [if_pos rfl]
      exact Option.some_ne_none _
  · intro f hf
    rw [FilesState.addPipe, OrdMap.get?_insert, OrdMap.get?_insert, if_neg (hout f hf).2,
      if_neg (hout f hf).1]
  · intro f hf
    rw [FilesState.addPipe, OrdMap.get?_insert, OrdMap.get?_insert, if_neg (hout f hf).2,
      if_neg (hout f hf).1]
  · show min (writeFd + 1) (2 ^ 32 - 1) < 2 ^ 32
    omega

/-- The descriptor tables of all processes. -/
def World.tables (w : World) (pid : Nat) : Option FilesState := w.filesOf pid

/-- A change of a record that keeps the descriptors keeps the tables. -/
theorem World.tables_modifyTask (w : World) (pid : Nat) {f : TaskStruct → TaskStruct}
    (hf : ∀ t, (f t).files = t.files) : (w.modifyTask pid f).tables = w.tables :=
  funext fun q => w.filesOf_modifyTask pid q hf

instance : BlindMemory World.tables where
  tick _ _ := rfl
  slots _ _ := rfl
  ledger _ _ := rfl
  vspace w pid _ := w.tables_modifyTask pid fun _ => rfl
  tables w pid _ := w.tables_modifyTask pid fun _ => rfl
  scratch _ _ _ := rfl
  writeFrame _ _ _ := rfl
  frames _ _ _ := rfl
  refs _ _ := rfl
  doubleFree _ _ := rfl
  mm w pid _ := w.tables_modifyTask pid fun _ => rfl
  fileMapLog _ _ := rfl

instance : BlindEndpoints World.tables where
  endpoints _ _ := rfl
  doubleClose _ _ := rfl
  asyncFree _ _ := rfl
  asyncRegions _ _ := rfl
  asyncVaddr _ _ := rfl
  iouring _ _ := rfl
  fdOverflow _ _ := rfl
  earlyRecycle _ _ := rfl

instance : BlindMarks World.tables where
  cloexecLog _ _ := rfl
  positionSplit _ _ := rfl

section Tables

variable {T : Nat → Option FilesState} {pid : Nat} {fs : FilesState}

/-- A command that leaves the tables alone. -/
theorem tables_step {α : Type} {c : M α} (h : Keeps (fun w => w.tables = T) c) :
    Triple (fun w => w.tables = T) c (fun _ w => w.tables = T) (fun _ _ => True) :=
  h.triple.errors fun _ _ _ => trivial

/-- A change of a table is seen in the tables. -/
theorem modifyFiles_tables (f : FilesState → FilesState) (hfs : T pid = some fs) :
    Triple (fun w => w.tables = T) (modifyFiles pid f)
      (fun _ w => w.tables = Function.update T pid (some (f fs))) (fun _ _ => True) := by
  refine Triple.modify fun w hw => ?_
  have hview := congrArg FileView.files (w.fileView_modifyFiles pid f)
  have hold : w.fileView.files pid = some fs := by
    show w.tables pid = some fs
    rw [hw, hfs]
  rw [FileView.modify_eq_set, hold] at hview
  refine hview.trans (funext fun q => ?_)
  by_cases h : q = pid
  · subst h
    rw [Function.update_self]
    exact FileView.set_files _
  · rw [Function.update_of_ne h, ← hw]
    exact if_neg h

/-- The record of a process has its table. -/
theorem getProcess_tables (hfs : T pid = some fs) :
    Triple (fun w => w.tables = T) (getProcess pid)
      (fun t w => t.files = fs ∧ w.tables = T) (fun _ _ => True) :=
  (getProcess_live (P := fun w => w.tables = T) (E := fun _ _ => True) pid fs).imp
    (fun w hw => ⟨hw, show w.tables pid = some fs by rw [hw, hfs]⟩) (fun _ _ h => ⟨h.1, h.2.1⟩)
    fun _ _ _ => trivial

/-- `openat` returns `next_fd` and stores a handle there. -/
theorem doOpenat_tables (pathname flags : Nat) (hfs : T pid = some fs) :
    Triple (fun w => w.tables = T) (doOpenat pid pathname flags)
      (fun n w => n = fs.nextFd ∧
        ∃ h path, w.tables = Function.update T pid (some (fs.openNext h path)))
      (fun _ _ => True) := by
  unfold doOpenat openViaNexusFs
  refine Triple.bind (tables_step (UserKeeps.readString _ _ _)) fun raw => ?_
  refine Triple.bind (tables_step (getProcess_keeps pid)) fun task => ?_
  refine Triple.bind (tables_step (Keeps.gets _)) fun resolve => ?_
  refine Triple.bind (tables_step cspaceAlloc_keeps) fun slot => ?_
  refine Triple.bind (tables_step (Keeps.onError (fsOpen_keeps _) fun _ => cspaceFree_keeps _))
    fun _ => ?_
  refine Triple.bind (tables_step openAsyncIo_keeps) fun asyncIo => ?_
  refine Triple.bind (getProcess_tables hfs) fun task' => Triple.of_pre fun w₀ h₀ => ?_
  obtain ⟨htask, hw₀⟩ := h₀
  refine Triple.bind (R := fun _ w => w.tables = T) (Triple.modify ?_) fun _ => ?_
  · intro w hw
    rw [hw]
    exact hw₀
  refine Triple.bind (modifyFiles_tables _ hfs) fun _ =>
    Triple.bind (tables_step (logCloexec_keeps _)) fun _ => Triple.pure fun w hw => ?_
  exact ⟨by rw [htask], _, _, hw⟩

/-- The duplications return the lowest free number from the minimum on. -/
theorem dupFd_tables (fd arg : Nat) (cloexec : Bool) (hfs : T pid = some fs) :
    Triple (fun w => w.tables = T) (dupFd pid fd arg cloexec)
      (fun n w => fs.freeFd arg = some n ∧
        ∃ h, w.tables = Function.update T pid (some (fs.duplicate fd n h cloexec)))
      (fun _ _ => True) := by
  unfold dupFd
  refine Triple.bind (getProcess_tables hfs) fun task => Triple.of_pre fun w₀ h₀ => ?_
  obtain ⟨htask, hw₀⟩ := h₀
  subst htask
  refine Triple.bind (R := fun _ w => w.tables = T)
    (Triple.getSome (fun h w _ hw => hw ▸ hw₀) fun _ _ _ => trivial) fun handle => ?_
  refine Triple.ite (fun _ => Triple.throw fun _ _ => trivial) fun _ => ?_
  refine Triple.bind (R := fun n w => w.tables = T ∧ task.files.freeFd arg = some n)
    (Triple.getSome (fun n w hn hw => ⟨hw, hn⟩) fun _ _ _ => trivial) fun n => ?_
  refine Triple.of_pre fun w₁ h₁ => ?_
  refine Triple.bind ((modifyFiles_tables _ hfs).pre fun w hw => by rw [hw]; exact h₁.1) fun _ =>
    Triple.bind (tables_step (logCloexec_keeps _)) fun _ => Triple.pure fun w hw => ⟨h₁.2, _, hw⟩

/-- A duplication by `fcntl` is one new descriptor in the table. -/
theorem doFcntl_tables {cmd : Nat} (fd arg : Nat) (hcmd : cmd = F_DUPFD ∨ cmd = F_DUPFD_CLOEXEC)
    (hfs : T pid = some fs) :
    Triple (fun w => w.tables = T) (doFcntl pid fd cmd arg)
      (fun n w => fs.freeFd arg = some n ∧ ∃ h, w.tables =
        Function.update T pid (some (fs.duplicate fd n h (cmd = F_DUPFD_CLOEXEC))))
      (fun _ _ => True) := by
  unfold doFcntl
  refine Triple.ite (fun _ => Triple.throw fun _ _ => trivial) fun _ => ?_
  refine Triple.ite (fun _ => Triple.throw fun _ _ => trivial) fun _ => ?_
  exact Triple.ite (fun _ => dupFd_tables _ _ _ hfs) fun h => absurd hcmd h

/-- `pipe2` takes the two lowest free numbers from `next_fd` on, and copies them out. -/
theorem doPipe2_tables (pipefd flags : Nat) (hfs : T pid = some fs) :
    Triple (fun w => w.tables = T) (doPipe2 pid pipefd flags)
      (fun _ w => ∃ readFd writeFd readSlot writeSlot cloexec v,
        fs.freeFd fs.nextFd = some readFd ∧ fs.freeFd (readFd + 1) = some writeFd ∧
        (copyToUser pid pipefd (leBytes 4 readFd ++ leBytes 4 writeFd)).run v = (.ok (), w) ∧
        w.tables = Function.update T pid
          (some (fs.addPipe readFd writeFd readSlot writeSlot cloexec)))
      (fun _ _ => True) := by
  have hopen : Keeps (fun w => w.tables = T) openPipeEndViaPipefs := by
    unfold openPipeEndViaPipefs
    exact Keeps.bind (Keeps.gets _) fun endpoint => Keeps.ite (by simp)
      (Keeps.bind (by simp) fun slot => Keeps.bind (by simp) fun _ => Keeps.pure _)
  have hcreate : Frames World.tables createPipe := by
    unfold createPipe
    refine Frames.bind (Frames.gets _) fun endpoint => Frames.ite (by simp) ?_
    exact Frames.bind (by simp) fun r => by split <;> simp
  -- every step before the pair is written leaves the tables, and so does the copy after it
  unfold doPipe2 installPipe
  refine Triple.ite (fun _ => Triple.throw fun _ _ => trivial) fun _ => ?_
  refine Triple.ite (fun _ => Triple.throw fun _ _ => trivial) fun _ => ?_
  refine Triple.bind (tables_step (hcreate.keeps (· = T))) fun pipeId => ?_
  refine Triple.ite (fun _ => Triple.throw fun _ _ => trivial) fun _ => ?_
  refine Triple.bind (tables_step hopen) fun readSlot => ?_
  refine Triple.bind (R := fun _ w => w.tables = T) ?_ ?_
  · refine Triple.onError (F := fun _ _ => True) (tables_step hopen) fun _ => ?_
    exact fun _ _ => ⟨fun _ _ => trivial, fun _ _ => trivial⟩
  intro writeSlot
  refine Triple.bind (getProcess_tables hfs) fun task => Triple.of_pre fun w₀ h₀ => ?_
  obtain ⟨htask, hw₀⟩ := h₀
  subst htask
  refine Triple.bind (R := fun n w => w.tables = T ∧ task.files.freeFd task.files.nextFd = some n)
    (Triple.getSome (fun n w hn hw => ⟨hw ▸ hw₀, hn⟩) fun _ _ _ => trivial) fun readFd => ?_
  refine Triple.bind (R := fun n w => (w.tables = T ∧
    task.files.freeFd task.files.nextFd = some readFd) ∧ task.files.freeFd (readFd + 1) = some n)
    (Triple.getSome (fun n w hn hw => ⟨hw, hn⟩) fun _ _ _ => trivial) fun writeFd => ?_
  refine Triple.of_pre fun w₁ h₁ => ?_
  obtain ⟨⟨hw₁, hread⟩, hwrite⟩ := h₁
  refine Triple.bind ((modifyFiles_tables _ hfs).pre fun w hw => by rw [hw]; exact hw₁) fun _ => ?_
  refine Triple.bind (tables_step (logCloexec_keeps _)) fun _ =>
    Triple.bind (tables_step (logCloexec_keeps _)) fun _ => ?_
  refine Triple.ite (fun _ => Triple.throw fun _ _ => trivial) fun _ => ?_
  -- the undo of a failed copy is not this lemma's: it says what a call that returns has done
  refine Triple.onError (F := fun _ _ => True) (fun v hv => ⟨?_, fun _ _ => trivial⟩)
    fun _ _ _ => ⟨fun _ _ => trivial, fun _ _ => trivial⟩
  intro a ha
  refine ⟨readFd, writeFd, readSlot, writeSlot, flags &&& O_CLOEXEC != 0, v, hread, hwrite,
    Prod.ext ha rfl, ?_⟩
  exact (copyToUser_frames (V := World.tables) pid pipefd _ v).trans hv

end Tables

/-- What a successful call that opens `new` has done to the tables: `new` was not open, and
every other descriptor is as it was, in every process. -/
def World.OpensOnly (w w' : World) (pid : Nat) (new : List Nat) : Prop :=
  ∃ fs fs', w.filesOf pid = some fs ∧ w'.filesOf pid = some fs' ∧ fs.Opened fs' new ∧
    ∀ q, q ≠ pid → w'.filesOf q = w.filesOf q

/-- Only the process whose table was changed has new descriptors. -/
theorem World.opensOnly_of_update {w w' : World} {pid : Nat} {fs fs' : FilesState} {new : List Nat}
    (hfs : w.filesOf pid = some fs) (hw' : w'.tables = Function.update w.tables pid (some fs'))
    (hopened : fs.Opened fs' new) : w.OpensOnly w' pid new := by
  refine ⟨fs, fs', hfs, ?_, hopened, ?_⟩
  · show w'.tables pid = some fs'
    rw [hw', Function.update_self]
  · intro q hq
    show w'.tables q = w.tables q
    rw [hw', Function.update_of_ne hq]

/-- As long as no `next_fd += 1` has overflowed, `dup`, `F_DUPFD` and `pipe2` open descriptors
that were not open and leave the others alone, and `openat` does so, without an overflow, exactly
when `next_fd` is not `u32::MAX`. -/
theorem open_does_not_clobber (w : World) (hw : Reachable w) (hover : w.fdOverflow = false)
    (env : Nat → Ext) (pid : Nat) (fs : FilesState) (hfs : w.filesOf pid = some fs) :
    (∀ pathname flags n w', (doOpenat pid pathname flags).run (w.withEnv env) = (.ok n, w') →
      ((w.OpensOnly w' pid [n] ∧ fs.nextFd + 1 < 2 ^ 32) ↔ fs.nextFd ≠ 2 ^ 32 - 1)) ∧
    (∀ fd n w', (doDup pid fd).run (w.withEnv env) = (.ok n, w') → w.OpensOnly w' pid [n]) ∧
    (∀ fd cmd arg n w', cmd = F_DUPFD ∨ cmd = F_DUPFD_CLOEXEC →
      (doFcntl pid fd cmd arg).run (w.withEnv env) = (.ok n, w') → w.OpensOnly w' pid [n]) ∧
    ∀ pipefd flags w', (doPipe2 pid pipefd flags).run (w.withEnv env) = (.ok (), w') →
      ∃ readFd writeFd v,
        (copyToUser pid pipefd (leBytes 4 readFd ++ leBytes 4 writeFd)).run v = (.ok (), w') ∧
        readFd < writeFd ∧ w.OpensOnly w' pid [readFd, writeFd] := by
  have hfds := hw.filesOk.fds pid fs hfs
  have hnext := hfds.next
  have hT : (w.withEnv env).tables pid = some fs := hfs
  have hdup : ∀ fd cmd arg n w', cmd = F_DUPFD ∨ cmd = F_DUPFD_CLOEXEC →
      (doFcntl pid fd cmd arg).run (w.withEnv env) = (.ok n, w') → w.OpensOnly w' pid [n] := by
    intro fd cmd arg n w' hcmd hrun
    obtain ⟨hfree, h, htables⟩ := (doFcntl_tables fd arg hcmd hT (w.withEnv env) rfl).1 n
      (by rw [hrun])
    rw [hrun] at htables
    exact World.opensOnly_of_update hfs htables (FilesState.opened_duplicate hnext hfree)
  refine ⟨?_, fun fd n w' hrun => hdup fd F_DUPFD 0 n w' (.inl rfl) hrun, hdup, ?_⟩
  · intro pathname flags n w' hrun
    obtain ⟨hn, h, path, htables⟩ := (doOpenat_tables pathname flags hT (w.withEnv env) rfl).1 n
      (by rw [hrun])
    rw [hrun] at htables
    refine ⟨fun hgood => by omega, fun hne => ⟨?_, by omega⟩⟩
    -- an open descriptor is below `next_fd`, which is not the last number
    have hnone : fs.fds.get? fs.nextFd = none := by
      cases hget : fs.fds.get? fs.nextFd with
      | none => rfl
      | some h => rcases hfds.below hover _ h hget with h1 | h1 <;> omega
    rw [hn]
    exact World.opensOnly_of_update hfs htables (FilesState.opened_openNext hnone)
  · intro pipefd flags w' hrun
    obtain ⟨readFd, writeFd, readSlot, writeSlot, cloexec, v, hread, hwrite, hcopy, htables⟩ :=
      (doPipe2_tables pipefd flags hT (w.withEnv env) rfl).1 () (by rw [hrun])
    rw [hrun] at htables hcopy
    have hlt := (FilesState.freeFd_some hwrite).2.1
    exact ⟨readFd, writeFd, v, hcopy, by omega,
      World.opensOnly_of_update hfs htables (FilesState.opened_addPipe hread hwrite)⟩

/-- The first `openat` of `init` takes the descriptor 3. -/
theorem open_does_not_clobber_init :
    sampleBoot.fdOverflow = false ∧
    ((doOpenat 1 0x3ffff000 0).run (sampleBoot.withEnv sampleEnv)).1 = .ok 3 ∧
    sampleBoot.OpensOnly ((doOpenat 1 0x3ffff000 0).run
      (sampleBoot.withEnv sampleEnv)).2 1 [3] := by
  have hover : sampleBoot.fdOverflow = false := by decide +kernel
  have hrun : ((doOpenat 1 0x3ffff000 0).run (sampleBoot.withEnv sampleEnv)).1 = .ok 3 := by
    decide +kernel
  have hnext : (sampleBoot.filesOf 1).map (·.nextFd) = some 3 := by decide +kernel
  obtain ⟨fs, hfs, hthree⟩ := Option.map_eq_some_iff.mp hnext
  refine ⟨hover, hrun, ?_⟩
  have hmain := (open_does_not_clobber sampleBoot sampleBoot_reachable hover sampleEnv 1 fs hfs).1
    0x3ffff000 0 3 _ (Prod.ext hrun rfl)
  exact (hmain.mpr (by rw [hthree]; decide)).1

/-- `init` has duplicated its first descriptor to the last number. -/
def sampleLastFd : World := sampleBoot.after (.syscall 1 (.fcntl 0 F_DUPFD 0xffffffff))

/-- `openat` then returns the descriptor `u32::MAX`, which is open, and `next_fd` overflows. -/
theorem openat_clobbers_last_fd :
    Reachable sampleLastFd ∧
    ((doOpenat 1 0x3ffff000 0).run (sampleLastFd.withEnv sampleEnv)).1 = .ok 0xffffffff ∧
    ((sampleLastFd.filesOf 1).map fun fs => (fs.fds.contains 0xffffffff, fs.nextFd)) =
      some (true, 0xffffffff) ∧
    ¬ sampleLastFd.OpensOnly ((doOpenat 1 0x3ffff000 0).run (sampleLastFd.withEnv sampleEnv)).2 1
      [0xffffffff] := by
  have hopen : ((sampleLastFd.filesOf 1).map fun fs => (fs.fds.contains 0xffffffff, fs.nextFd)) =
      some (true, 0xffffffff) := by decide +kernel
  refine ⟨sampleBoot_reachable.after (by decide +kernel), by decide +kernel, hopen, ?_⟩
  rintro ⟨fs, fs', hfs, -, hopened, -⟩
  rw [hfs] at hopen
  simp only [Option.map_some, Option.some.injEq, Prod.mk.injEq] at hopen
  have hnone := hopened.fresh 0xffffffff (List.mem_singleton_self _)
  have hcontains := hopen.1
  rw [OrdMap.contains, hnone] at hcontains
  cases hcontains

end Ape
