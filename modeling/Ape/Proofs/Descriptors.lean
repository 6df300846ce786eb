import Ape.Proofs.ProcessTable

/-!
# `Ape.Proofs.Descriptors`: endpoints, regions and descriptor numbers

A handle is copied by value: `fork`, `dup` and their kin copy it, and `do_close` finds out by a
scan of all tables whether the endpoint is still in use. `FileView` is the part of the state
that this is about. `FileView.Ok` is the invariant of the runs, in three groups.

* Endpoints: a slot in a table is the slot of an open endpoint, and no endpoint is closed twice.
* Numbers: a descriptor is a `u32`, and as long as no `next_fd += 1` has overflowed it is below
  `next_fd`, or both are `u32::MAX`.
* Regions: as long as no region was given back too early, a region is in the pool or belongs to
  one endpoint. The list `hand` has the regions that a call took out of the pool and has not
  stored yet.

The view does not have the offsets of a handle in a special place: a read takes the handle out
of the table and puts it back with another offset, so the invariant speaks only of the endpoint
and the region of a handle.
-/

set_option autoImplicit false

namespace Ape

open Ape.Lib Cmd

/-! ### The view -/

/-- The descriptor tables, the endpoints and the pool of regions. -/
structure FileView where
  files : Nat → Option FilesState
  openEndpoints : Finset Nat
  doubleClose : Bool
  asyncRegions : List AsyncIoRegion
  asyncFree : List Nat
  fdOverflow : Bool
  earlyRecycle : Bool
  nextPid : Nat

/-- The view of a state. -/
def World.fileView (w : World) : FileView where
  files pid := w.filesOf pid
  openEndpoints := w.openEndpoints
  doubleClose := w.doubleClose
  asyncRegions := w.asyncRegions
  asyncFree := w.asyncFree
  fdOverflow := w.fdOverflow
  earlyRecycle := w.earlyRecycle
  nextPid := w.nextPid

/-- Some descriptor of the table has the endpoint in `slot`. -/
def FilesState.Refers (fs : FilesState) (slot : Nat) : Prop :=
  ∃ fd h, fs.fds.get? fd = some h ∧ h.fsEpSlot = slot

/-- Some descriptor of the table has the region `id`, for the endpoint in `slot`. -/
def FilesState.HeldBy (fs : FilesState) (id slot : Nat) : Prop :=
  ∃ fd h io, fs.fds.get? fd = some h ∧ h.asyncIo = some io ∧ io.regionId = id ∧ h.fsEpSlot = slot

/-- The numbers of a table. -/
structure FilesState.FdsOk (overflow : Bool) (fs : FilesState) : Prop where
  next : fs.nextFd < 2 ^ 32
  bound : ∀ fd h, fs.fds.get? fd = some h → fd < 2 ^ 32
  below : overflow = false → ∀ fd h, fs.fds.get? fd = some h →
    fd < fs.nextFd ∨ fd = 2 ^ 32 - 1 ∧ fs.nextFd = 2 ^ 32 - 1

namespace FileView

variable {v : FileView} {hand : List Nat} {pid : Nat} {fs : FilesState}

/-- Some descriptor has the endpoint in `slot`. -/
def Refers (v : FileView) (slot : Nat) : Prop := ∃ pid fs, v.files pid = some fs ∧ fs.Refers slot

/-- Some descriptor has the region `id`, for the endpoint in `slot`. -/
def HeldBy (v : FileView) (id slot : Nat) : Prop :=
  ∃ pid fs, v.files pid = some fs ∧ fs.HeldBy id slot

/-- Each region is in the pool or in hand, once, or it belongs to one endpoint. -/
structure Owned (hand : List Nat) (v : FileView) : Prop where
  nodup : (hand ++ v.asyncFree).Nodup
  ids : ∀ (id : Nat) (r : AsyncIoRegion), v.asyncRegions[id]? = some r → r.id = id
  pooled : ∀ id ∈ hand ++ v.asyncFree, id < v.asyncRegions.length ∧ ∀ slot, ¬ v.HeldBy id slot
  held : ∀ id slot, v.HeldBy id slot → id < v.asyncRegions.length
  one : ∀ id slot slot', v.HeldBy id slot → v.HeldBy id slot' → slot = slot'
  all : ∀ id < v.asyncRegions.length, id ∈ hand ++ v.asyncFree ∨ ∃ slot, v.HeldBy id slot

/-- The invariant of descriptors, endpoints and regions. -/
structure Ok (hand : List Nat) (v : FileView) : Prop where
  pids : ∀ pid fs, v.files pid = some fs → pid < v.nextPid
  noDoubleClose : v.doubleClose = false
  opened : ∀ slot, v.Refers slot → slot ∈ v.openEndpoints
  fds : ∀ pid fs, v.files pid = some fs → fs.FdsOk v.fdOverflow
  owned : v.fdOverflow = false → v.earlyRecycle = false → v.Owned hand

/-- The view with a change of the table of one process. -/
def modify (v : FileView) (pid : Nat) (f : FilesState → FilesState) : FileView :=
  { v with files := fun q => if q = pid then (v.files q).map f else v.files q }

/-- The view with the table of one process. -/
def set (v : FileView) (pid : Nat) (o : Option FilesState) : FileView :=
  { v with files := fun q => if q = pid then o else v.files q }

/-- The view without the endpoint in `slot`. -/
def closed (v : FileView) (slot : Nat) : FileView :=
  { v with
    doubleClose := v.doubleClose || !decide (slot ∈ v.openEndpoints)
    openEndpoints := v.openEndpoints.erase slot }

/-- The table that was set is there. -/
@[simp] theorem set_files (o : Option FilesState) : (v.set pid o).files pid = o := by simp [set]

/-- Of two tables that are set the last one stays. -/
@[simp] theorem set_set (o o' : Option FilesState) : (v.set pid o).set pid o' = v.set pid o' := by
  unfold set
  congr 1
  funext q
  by_cases h : q = pid
  · rw [if_pos h, if_pos h]
  · rw [if_neg h, if_neg h]
    exact if_neg h

/-- To change a table is to set the changed one. -/
theorem modify_eq_set (f : FilesState → FilesState) :
    v.modify pid f = v.set pid ((v.files pid).map f) := by
  unfold modify set
  congr 1
  funext q
  by_cases h : q = pid
  · rw [if_pos h, if_pos h, h]
  · rw [if_neg h, if_neg h]

/-- A fact of some table of the changed view is one of the new table or of another process. -/
theorem exists_set {o : Option FilesState} {P : FilesState → Prop} :
    (∃ q fs, (v.set pid o).files q = some fs ∧ P fs) ↔
      (∃ fs, o = some fs ∧ P fs) ∨ ∃ q fs, q ≠ pid ∧ v.files q = some fs ∧ P fs := by
  constructor
  · rintro ⟨q, fs, hq, hP⟩
    by_cases h : q = pid
    · exact .inl ⟨fs, by simpa [set, h] using hq, hP⟩
    · exact .inr ⟨q, fs, h, by simpa [set, h] using hq, hP⟩
  · rintro (⟨fs, ho, hP⟩ | ⟨q, fs, hne, hq, hP⟩)
    · exact ⟨pid, fs, by simp [set, ho], hP⟩
    · exact ⟨q, fs, by simp [set, hne, hq], hP⟩

/-- The facts of some table, with the table of `pid` apart. -/
theorem exists_split {P : FilesState → Prop} (hfs : v.files pid = some fs) :
    (∃ q fs, v.files q = some fs ∧ P fs) ↔
      P fs ∨ ∃ q fs, q ≠ pid ∧ v.files q = some fs ∧ P fs := by
  constructor
  · rintro ⟨q, fs', hq, hP⟩
    by_cases h : q = pid
    · subst h
      rw [hfs] at hq
      cases hq
      exact .inl hP
    · exact .inr ⟨q, fs', h, hq, hP⟩
  · rintro (hP | ⟨q, fs', -, hq, hP⟩)
    · exact ⟨pid, fs, hfs, hP⟩
    · exact ⟨q, fs', hq, hP⟩

/-- The regions of a view, when only one table changes and it keeps its regions. -/
theorem heldBy_set {fs' : FilesState} (hfs : v.files pid = some fs)
    (h : ∀ id slot, fs'.HeldBy id slot ↔ fs.HeldBy id slot) (id slot : Nat) :
    (v.set pid (some fs')).HeldBy id slot ↔ v.HeldBy id slot := by
  unfold HeldBy
  rw [exists_set, exists_split hfs]
  simp only [Option.some.injEq, exists_eq_left', h]

/-- What is owned depends on the pool and on who has which region. -/
theorem Owned.congr {v' : FileView} {hand' : List Nat} (h : v.Owned hand)
    (hregions : v'.asyncRegions = v.asyncRegions)
    (hpool : hand' ++ v'.asyncFree = hand ++ v.asyncFree)
    (hheld : ∀ id slot, v'.HeldBy id slot ↔ v.HeldBy id slot) : v'.Owned hand' where
  nodup := hpool ▸ h.nodup
  ids := hregions ▸ h.ids
  pooled id hid := by
    rw [hpool] at hid
    rw [hregions]
    refine ⟨(h.pooled id hid).1, ?_⟩
    intro slot hs
    exact (h.pooled id hid).2 slot ((hheld id slot).mp hs)
  held id slot hs := hregions ▸ h.held id slot ((hheld id slot).mp hs)
  one id slot slot' hs hs' := h.one id slot slot' ((hheld _ _).mp hs) ((hheld _ _).mp hs')
  all id hid := by
    rw [hpool]
    rw [hregions] at hid
    exact (h.all id hid).imp_right fun ⟨slot, hs⟩ => ⟨slot, (hheld id slot).mpr hs⟩

/-- A change of one table that adds no endpoint and keeps the regions. -/
theorem Ok.edit {fs' : FilesState} (h : v.Ok hand) (hfs : v.files pid = some fs)
    (hfds : fs'.FdsOk v.fdOverflow) (hrefers : ∀ slot, fs'.Refers slot → slot ∈ v.openEndpoints)
    (hheld : ∀ id slot, fs'.HeldBy id slot ↔ fs.HeldBy id slot) :
    (v.set pid (some fs')).Ok hand where
  pids q fs₁ hq := by
    by_cases hpid : q = pid
    · exact hpid ▸ h.pids pid fs hfs
    · exact h.pids q fs₁ (by simpa [set, hpid] using hq)
  noDoubleClose := h.noDoubleClose
  opened slot hslot := by
    rcases exists_set.mp hslot with ⟨fs₁, ho, hr⟩ | ⟨q, fs₁, -, hq, hr⟩
    · cases ho
      exact hrefers slot hr
    · exact h.opened slot ⟨q, fs₁, hq, hr⟩
  fds q fs₁ hq := by
    by_cases hpid : q = pid
    · have : fs' = fs₁ := by simpa [set, hpid] using hq
      exact this ▸ hfds
    · exact h.fds q fs₁ (by simpa [set, hpid] using hq)
  owned hover hearly := (h.owned hover hearly).congr rfl rfl (heldBy_set hfs hheld)

/-! ### Endpoints -/

/-- A new endpoint is open. -/
theorem Ok.openEndpoint (h : v.Ok hand) (slot : Nat) :
    ({ v with openEndpoints := insert slot v.openEndpoints } : FileView).Ok hand where
  pids := h.pids
  noDoubleClose := h.noDoubleClose
  opened s hs := Finset.mem_insert_of_mem (h.opened s hs)
  fds := h.fds
  owned hover hearly := (h.owned hover hearly).congr rfl rfl fun _ _ => Iff.rfl

/-- An open endpoint that no descriptor has can be closed. -/
theorem Ok.closeEndpoint (h : v.Ok hand) {slot : Nat} (hopen : slot ∈ v.openEndpoints)
    (hfree : ¬ v.Refers slot) :
    (v.closed slot).Ok hand where
  pids := h.pids
  noDoubleClose := by simp [closed, h.noDoubleClose, hopen]
  opened s hs := Finset.mem_erase.mpr ⟨fun heq => hfree (heq ▸ hs), h.opened s hs⟩
  fds := h.fds
  owned hover hearly := (h.owned hover hearly).congr rfl rfl fun _ _ => Iff.rfl

/-! ### The pool -/

/-- A region in hand goes back to the pool. -/
theorem Ok.giveBack {id : Nat} (h : v.Ok (id :: hand)) :
    ({ v with asyncFree :=
        if id < v.asyncRegions.length ∧ id ∉ v.asyncFree then v.asyncFree ++ [id]
        else v.asyncFree } : FileView).Ok hand where
  pids := h.pids
  noDoubleClose := h.noDoubleClose
  opened := h.opened
  fds := h.fds
  owned hover hearly := by
    have ho := h.owned hover hearly
    have hlt := (ho.pooled id (by simp)).1
    have hnot : id ∉ v.asyncFree := fun hmem =>
      (List.nodup_cons.mp ho.nodup).1 (List.mem_append_right _ hmem)
    have hperm : (hand ++ (v.asyncFree ++ [id])).Perm (id :: hand ++ v.asyncFree) := by
      rw [← List.append_assoc]
      exact List.perm_append_singleton _ _
    -- the region is known and not pooled, so it goes to the pool
    rw [if_pos ⟨hlt, hnot⟩]
    exact
      { nodup := hperm.nodup_iff.mpr ho.nodup
        ids := ho.ids
        pooled := fun i hi => ho.pooled i (hperm.mem_iff.mp hi)
        held := ho.held
        one := ho.one
        all := fun i hi => (ho.all i hi).imp_left hperm.mem_iff.mpr }

/-- After a region was given back too early nothing is known of the pool. -/
theorem Ok.early (h : v.Ok hand) (hand' free : List Nat) :
    ({ v with earlyRecycle := true, asyncFree := free } : FileView).Ok hand' where
  pids := h.pids
  noDoubleClose := h.noDoubleClose
  opened := h.opened
  fds := h.fds
  owned _ hearly := by cases hearly

/-- The region that was freed last is taken out of the pool. -/
theorem Ok.take {free : List Nat} {id : Nat} (h : v.Ok []) (hfree : v.asyncFree = free ++ [id]) :
    ({ v with asyncFree := free } : FileView).Ok [id] where
  pids := h.pids
  noDoubleClose := h.noDoubleClose
  opened := h.opened
  fds := h.fds
  owned hover hearly := by
    have ho := h.owned hover hearly
    have hperm : ([id] ++ free).Perm ([] ++ v.asyncFree) := by
      rw [hfree, List.nil_append]
      exact (List.perm_append_singleton id free).symm
    exact
      { nodup := hperm.nodup_iff.mpr ho.nodup
        ids := ho.ids
        pooled := fun i hi => ho.pooled i (hperm.mem_iff.mp hi)
        held := ho.held
        one := ho.one
        all := fun i hi => (ho.all i hi).imp_left hperm.mem_iff.mpr }

/-- A new region is in hand. -/
theorem Ok.newRegion {r : AsyncIoRegion} (h : v.Ok []) (hr : r.id = v.asyncRegions.length) :
    ({ v with asyncRegions := v.asyncRegions ++ [r] } : FileView).Ok [r.id] where
  pids := h.pids
  noDoubleClose := h.noDoubleClose
  opened := h.opened
  fds := h.fds
  owned hover hearly := by
    have ho := h.owned hover hearly
    have hlen : (v.asyncRegions ++ [r]).length = v.asyncRegions.length + 1 := by simp
    have hpool : ∀ i ∈ v.asyncFree, i < v.asyncRegions.length := fun i hi => (ho.pooled i hi).1
    refine ⟨?_, ?_, ?_, ?_, ho.one, ?_⟩
    -- the identifier is the number of regions so far, so it is not used yet
    · refine List.nodup_cons.mpr ⟨?_, ho.nodup⟩
      intro hmem
      have := hpool _ hmem
      omega
    · intro id r' hget
      rcases Nat.lt_or_ge id v.asyncRegions.length with hlt | hge
      · rw [List.getElem?_append_left hlt] at hget
        exact ho.ids id r' hget
      · rw [List.getElem?_append_right hge] at hget
        have hid : id - v.asyncRegions.length = 0 := by
          by_contra hne
          rw [List.getElem?_eq_none (by simp; omega)] at hget
          cases hget
        rw [hid] at hget
        cases hget
        omega
    · intro i hi
      rcases List.mem_cons.mp hi with rfl | hmem
      · refine ⟨by rw [hlen]; omega, fun slot hs => ?_⟩
        have := ho.held _ slot hs
        omega
      · refine ⟨?_, (ho.pooled i hmem).2⟩
        have := hpool i hmem
        rw [hlen]
        omega
    · intro i slot hs
      have := ho.held i slot hs
      rw [hlen]
      omega
    -- every region but the new one is held or pooled as before
    · intro i hi
      rcases Nat.lt_or_ge i v.asyncRegions.length with hlt | hge
      · exact (ho.all i hlt).imp_left (List.mem_cons_of_mem _)
      · rw [hlen] at hi
        exact .inl (List.mem_cons.mpr (.inl (by omega)))

end FileView

/-! ### One table -/

namespace FilesState

variable {fs : FilesState} {fd : Nat} {h : FileHandle}

/-- The table without the descriptor `fd`, its path and its flag. -/
def closeFd (fs : FilesState) (fd : Nat) : FilesState :=
  { fs with
    fds := fs.fds.erase fd, fdPaths := fs.fdPaths.erase fd, fdCloexec := fs.fdCloexec.erase fd }

/-- The table after `fd` was removed refers to less. -/
theorem Refers.of_erase {slot : Nat} (hr : (fs.closeFd fd).Refers slot) : fs.Refers slot := by
  obtain ⟨fd', h', hget, hslot⟩ := hr
  rw [closeFd, OrdMap.get?_erase] at hget
  split at hget
  · cases hget
  · exact ⟨fd', h', hget, hslot⟩

/-- Who holds a region after a descriptor was closed held it before. -/
theorem HeldBy.of_erase {id slot : Nat} (hh : (fs.closeFd fd).HeldBy id slot) :
    fs.HeldBy id slot := by
  obtain ⟨fd', h', io, hget, rest⟩ := hh
  rw [closeFd, OrdMap.get?_erase] at hget
  split at hget
  · cases hget
  · exact ⟨fd', h', io, hget, rest⟩

/-- What a table has is what `fd` has and what the other descriptors have. -/
theorem HeldBy.cases {id slot : Nat} (hget : fs.fds.get? fd = some h) (hh : fs.HeldBy id slot) :
    (∃ io, h.asyncIo = some io ∧ io.regionId = id ∧ h.fsEpSlot = slot) ∨
      (fs.closeFd fd).HeldBy id slot := by
  obtain ⟨fd', h', io, hget', hio, hid, hslot⟩ := hh
  by_cases heq : fd' = fd
  · subst heq
    rw [hget] at hget'
    cases hget'
    exact .inl ⟨io, hio, hid, hslot⟩
  · exact .inr ⟨fd', h', io, by rw [closeFd, OrdMap.get?_erase, if_neg heq]; exact hget',
      hio, hid, hslot⟩

/-- A removal keeps the numbers in order. -/
theorem FdsOk.closeFd {b : Bool} (hok : fs.FdsOk b) (fd : Nat) : (fs.closeFd fd).FdsOk b := by
  have hsub : ∀ f h, (fs.fds.erase fd).get? f = some h → fs.fds.get? f = some h := by
    intro f h hget
    rw [OrdMap.get?_erase] at hget
    split at hget
    · cases hget
    · exact hget
  refine ⟨hok.next, ?_, ?_⟩
  · intro f h hget
    exact hok.bound f h (hsub f h hget)
  · intro hb f h hget
    exact hok.below hb f h (hsub f h hget)

/-- The search finds a descriptor that is not open, at or above the start. -/
theorem searchFd_some {n start : Nat} (hs : fs.searchFd n start = some fd) :
    fs.fds.get? fd = none ∧ start ≤ fd ∧ fd < start + n := by
  induction n generalizing start with
  | zero => cases hs
  | succ n ih =>
    unfold searchFd at hs
    split at hs
    · obtain ⟨hnone, hle, hlt⟩ := ih hs
      exact ⟨hnone, by omega, by omega⟩
    · rename_i hnot
      cases hs
      exact ⟨by simpa [OrdMap.contains] using hnot, le_refl _, by omega⟩

/-- A free number has no handle, is at or above the start and fits. -/
theorem freeFd_some {start : Nat} (hs : fs.freeFd start = some fd) :
    fs.fds.get? fd = none ∧ start ≤ fd ∧ fd < 2 ^ 32 := by
  obtain ⟨hnone, hle, hlt⟩ := searchFd_some hs
  exact ⟨hnone, hle, by omega⟩

/-- What a table refers to after a handle was stored. -/
theorem Refers.of_insert {fs' : FilesState} {slot : Nat} (hfds : fs'.fds = fs.fds.insert fd h)
    (hr : fs'.Refers slot) : slot = h.fsEpSlot ∨ fs.Refers slot := by
  obtain ⟨fd', h', hget, hslot⟩ := hr
  rw [hfds, OrdMap.get?_insert] at hget
  split at hget
  · cases hget
    exact .inl hslot.symm
  · exact .inr ⟨fd', h', hget, hslot⟩

/-- What a table has after a handle was stored at a number that was not open. -/
theorem heldBy_insert {fs' : FilesState} (hfds : fs'.fds = fs.fds.insert fd h)
    (hnone : fs.fds.get? fd = none) (id slot : Nat) :
    fs'.HeldBy id slot ↔
      (∃ io, h.asyncIo = some io ∧ io.regionId = id ∧ h.fsEpSlot = slot) ∨ fs.HeldBy id slot := by
  constructor
  · rintro ⟨fd', h', io, hget, hrest⟩
    rw [hfds, OrdMap.get?_insert] at hget
    split at hget
    · cases hget
      exact .inl ⟨io, hrest⟩
    · exact .inr ⟨fd', h', io, hget, hrest⟩
  · rintro (⟨io, hrest⟩ | ⟨fd', h', io, hget, hrest⟩)
    · exact ⟨fd, h, io, by rw [hfds, OrdMap.get?_insert_self], hrest⟩
    · refine ⟨fd', h', io, ?_, hrest⟩
      rw [hfds, OrdMap.get?_insert, if_neg]
      · exact hget
      · rintro rfl
        rw [hnone] at hget
        cases hget

/-- A handle without a region adds no region. -/
theorem heldBy_insert_none {fs' : FilesState} (hfds : fs'.fds = fs.fds.insert fd h)
    (hnone : fs.fds.get? fd = none) (hio : h.asyncIo = none) (id slot : Nat) :
    fs'.HeldBy id slot ↔ fs.HeldBy id slot := by
  rw [heldBy_insert hfds hnone]
  simp [hio]

/-- The numbers of a table after a handle was stored below the new `next_fd`. -/
theorem FdsOk.insert {b b' : Bool} {fs' : FilesState} (hok : fs.FdsOk b)
    (hfds : fs'.fds = fs.fds.insert fd h) (hfd : fd < 2 ^ 32) (hnext : fs'.nextFd < 2 ^ 32)
    (hb : b' = false → b = false)
    (hbelow : b' = false → fd < fs'.nextFd ∨ fd = 2 ^ 32 - 1 ∧ fs'.nextFd = 2 ^ 32 - 1)
    (hup : b' = false → fs.nextFd ≤ fs'.nextFd) : fs'.FdsOk b' := by
  refine ⟨hnext, ?_, ?_⟩
  · intro f h' hget
    rw [hfds, OrdMap.get?_insert] at hget
    split at hget
    · rename_i heq
      exact heq ▸ hfd
    · exact hok.bound f h' hget
  · intro hfalse f h' hget
    rw [hfds, OrdMap.get?_insert] at hget
    split at hget
    · rename_i heq
      exact heq ▸ hbelow hfalse
    · rcases hok.below (hb hfalse) f h' hget with hlt | ⟨hmax, hnmax⟩
      · have := hup hfalse
        omega
      · have := hup hfalse
        omega

section Offset

variable {fs' : FilesState} {h' : FileHandle} (hget : fs.fds.get? fd = some h)
  (hnew : ∀ f, fs'.fds.get? f = if f = fd then some h' else fs.fds.get? f)

include hget hnew

/-- A table in which one handle changed its offset has the same numbers. -/
theorem FdsOk.offset {b : Bool} (hok : fs.FdsOk b) (hnext : fs'.nextFd = fs.nextFd) :
    fs'.FdsOk b := by
  have hopen : ∀ f h₁, fs'.fds.get? f = some h₁ → ∃ h₂, fs.fds.get? f = some h₂ := by
    intro f h₁ hf
    rw [hnew] at hf
    split at hf
    · rename_i heq
      exact ⟨h, heq ▸ hget⟩
    · exact ⟨h₁, hf⟩
  refine ⟨hnext ▸ hok.next, ?_, ?_⟩
  · intro f h₁ hf
    obtain ⟨h₂, hf'⟩ := hopen f h₁ hf
    exact hok.bound f h₂ hf'
  · intro hb f h₁ hf
    obtain ⟨h₂, hf'⟩ := hopen f h₁ hf
    exact hnext ▸ hok.below hb f h₂ hf'

/-- Another offset of a handle makes it refer to nothing new. -/
theorem Refers.offset {slot : Nat} (hslot : h'.fsEpSlot = h.fsEpSlot) (hr : fs'.Refers slot) :
    fs.Refers slot := by
  obtain ⟨f, h₁, hf, hs⟩ := hr
  rw [hnew] at hf
  split at hf
  · cases hf
    exact ⟨fd, h, hget, hslot ▸ hs⟩
  · exact ⟨f, h₁, hf, hs⟩

/-- Another offset of a handle leaves who holds regions. -/
theorem heldBy_offset (hslot : h'.fsEpSlot = h.fsEpSlot) (hio : h'.asyncIo = h.asyncIo)
    (id slot : Nat) : fs'.HeldBy id slot ↔ fs.HeldBy id slot := by
  constructor
  · rintro ⟨f, h₁, io, hf, h1, h2, h3⟩
    rw [hnew] at hf
    split at hf
    · cases hf
      exact ⟨fd, h, io, hget, hio ▸ h1, h2, hslot ▸ h3⟩
    · exact ⟨f, h₁, io, hf, h1, h2, h3⟩
  · rintro ⟨f, h₁, io, hf, h1, h2, h3⟩
    by_cases heq : f = fd
    · subst heq
      rw [hget] at hf
      cases hf
      exact ⟨f, h', io, by rw [hnew, if_pos rfl], hio ▸ h1, h2, hslot ▸ h3⟩
    · exact ⟨f, h₁, io, by rw [hnew, if_neg heq]; exact hf, h1, h2, h3⟩

end Offset

end FilesState

namespace FileView

variable {v : FileView} {hand : List Nat} {pid fd slot : Nat} {fs : FilesState} {h : FileHandle}

/-- The invariant of the regions apart from the rest. -/
theorem Ok.of_early {hand' : List Nat} (hok : ({ v with earlyRecycle := true } : FileView).Ok hand)
    (ho : v.fdOverflow = false → v.earlyRecycle = false → v.Owned hand') : v.Ok hand' :=
  ⟨hok.pids, hok.noDoubleClose, hok.opened, hok.fds, ho⟩

/-- The regions in hand can be named in another way. -/
theorem Ok.reown {hand' : List Nat} (hok : v.Ok hand) (ho : v.Owned hand → v.Owned hand') :
    v.Ok hand' :=
  ⟨hok.pids, hok.noDoubleClose, hok.opened, hok.fds, fun h1 h2 => ho (hok.owned h1 h2)⟩

/-- A removed descriptor, when nothing is asked of the regions. -/
theorem Ok.remove_early (hok : v.Ok hand) (hfs : v.files pid = some fs) (fd : Nat) :
    ({ v.set pid (some (fs.closeFd fd)) with earlyRecycle := true } : FileView).Ok hand where
  pids q fs' hq := by
    by_cases hpid : q = pid
    · exact hpid ▸ hok.pids pid fs hfs
    · exact hok.pids q fs' (by simpa [set, hpid] using hq)
  noDoubleClose := hok.noDoubleClose
  opened s hs := by
    rcases exists_set.mp hs with ⟨fs', ho, hr⟩ | ⟨q, fs', -, hq, hr⟩
    · cases ho
      exact hok.opened s ⟨pid, fs, hfs, hr.of_erase⟩
    · exact hok.opened s ⟨q, fs', hq, hr⟩
  fds q fs' hq := by
    by_cases hpid : q = pid
    · have heq : fs.closeFd fd = fs' := by simpa [set, hpid] using hq
      exact heq ▸ (hok.fds pid fs hfs).closeFd fd
    · exact hok.fds q fs' (by simpa [set, hpid] using hq)
  owned _ hearly := by cases hearly

/-- The removal of a descriptor without a region. -/
theorem Ok.remove_none (hok : v.Ok hand) (hfs : v.files pid = some fs)
    (hio : ∀ h, fs.fds.get? fd = some h → h.asyncIo = none) :
    (v.set pid (some (fs.closeFd fd))).Ok hand := by
  refine hok.edit hfs ((hok.fds pid fs hfs).closeFd fd)
    (fun s hs => hok.opened s ⟨pid, fs, hfs, hs.of_erase⟩) fun id s => ⟨fun hh => hh.of_erase, ?_⟩
  rintro ⟨fd', h', io, hget, hsome, hrest⟩
  refine ⟨fd', h', io, ?_, hsome, hrest⟩
  rw [FilesState.closeFd, OrdMap.get?_erase, if_neg]
  · exact hget
  · rintro rfl
    rw [hio h' hget] at hsome
    cases hsome

/-- The removal of the last descriptor of an endpoint leaves its region in hand. -/
theorem Ok.remove_last {io : AsyncIoState} (hok : v.Ok []) (hfs : v.files pid = some fs)
    (hget : fs.fds.get? fd = some h) (hio : h.asyncIo = some io)
    (hlast : ¬ (v.set pid (some (fs.closeFd fd))).Refers h.fsEpSlot) :
    (v.set pid (some (fs.closeFd fd))).Ok [io.regionId] := by
  refine (hok.remove_early hfs fd).of_early fun hover hearly => ?_
  have ho := hok.owned hover hearly
  have hheld : v.HeldBy io.regionId h.fsEpSlot := ⟨pid, fs, hfs, fd, h, io, hget, hio, rfl, rfl⟩
  have hsub : ∀ id s, (v.set pid (some (fs.closeFd fd))).HeldBy id s → v.HeldBy id s := by
    intro id s hs
    rcases exists_set.mp hs with ⟨fs', heq, hr⟩ | ⟨q, fs', -, hq, hr⟩
    · cases heq
      exact ⟨pid, fs, hfs, hr.of_erase⟩
    · exact ⟨q, fs', hq, hr⟩
  -- another holder of the region would have the same endpoint
  have hgone : ∀ s, ¬ (v.set pid (some (fs.closeFd fd))).HeldBy io.regionId s := by
    intro s hs
    have hslot := ho.one _ _ _ (hsub _ _ hs) hheld
    obtain ⟨q, fs', hq, fd', h', io', hget', -, -, hs'⟩ := hs
    exact hlast ⟨q, fs', hq, fd', h', hget', hs'.trans hslot⟩
  have hrest : ∀ id s, v.HeldBy id s → id = io.regionId ∨
      (v.set pid (some (fs.closeFd fd))).HeldBy id s := by
    intro id s hs
    rcases (exists_split hfs).mp hs with hr | ⟨q, fs', hne, hq, hr⟩
    · rcases hr.cases hget with ⟨io', hio', hid, -⟩ | hr'
      · rw [hio] at hio'
        cases hio'
        exact .inl hid.symm
      · exact .inr (exists_set.mpr (.inl ⟨_, rfl, hr'⟩))
    · exact .inr (exists_set.mpr (.inr ⟨q, fs', hne, hq, hr⟩))
  refine ⟨List.nodup_cons.mpr ⟨?_, ho.nodup⟩, ho.ids, ?_,
    fun id s hs => ho.held id s (hsub id s hs),
    fun id s s' hs hs' => ho.one id s s' (hsub _ _ hs) (hsub _ _ hs'), ?_⟩
  · intro hmem
    exact (ho.pooled _ hmem).2 _ hheld
  · intro id hid
    rcases List.mem_cons.mp hid with rfl | hmem
    · exact ⟨ho.held _ _ hheld, hgone⟩
    · refine ⟨(ho.pooled id hmem).1, ?_⟩
      intro s hs
      exact (ho.pooled id hmem).2 s (hsub id s hs)
  · intro id hid
    rcases ho.all id hid with hmem | ⟨s, hs⟩
    · exact .inl (List.mem_cons_of_mem _ hmem)
    · rcases hrest id s hs with rfl | hs'
      · exact .inl List.mem_cons_self
      · exact .inr ⟨s, hs'⟩

/-- The region ids of a handle. -/
def handOf (asyncIo : Option AsyncIoState) : List Nat := asyncIo.toList.map (·.regionId)

/-- A new file is stored at `next_fd`, with the region in hand. -/
theorem Ok.store {asyncIo : Option AsyncIoState} (hok : v.Ok (handOf asyncIo))
    (hfs : v.files pid = some fs) (hopen : slot ∈ v.openEndpoints) (path : String) :
    ({ v.set pid (some (fs.openNext ⟨slot, 0, asyncIo⟩ path)) with
        fdOverflow := v.fdOverflow || decide (2 ^ 32 ≤ fs.nextFd + 1) } : FileView).Ok [] := by
  have hfds := hok.fds pid fs hfs
  have hnext := hfds.next
  have hnoflow : ∀ {b}, (b || decide (2 ^ 32 ≤ fs.nextFd + 1)) = false →
      b = false ∧ fs.nextFd + 1 < 2 ^ 32 := by
    intro b hb
    rw [Bool.or_eq_false_iff, decide_eq_false_iff_not] at hb
    exact ⟨hb.1, by omega⟩
  refine ⟨?_, hok.noDoubleClose, ?_, ?_, ?_⟩
  · intro q fs' hq
    by_cases hpid : q = pid
    · exact hpid ▸ hok.pids pid fs hfs
    · exact hok.pids q fs' (by simpa [set, hpid] using hq)
  · intro s hs
    rcases exists_set.mp hs with ⟨fs', heq, hr⟩ | ⟨q, fs', -, hq, hr⟩
    · cases heq
      rcases FilesState.Refers.of_insert rfl hr with rfl | hr'
      · exact hopen
      · exact hok.opened s ⟨pid, fs, hfs, hr'⟩
    · exact hok.opened s ⟨q, fs', hq, hr⟩
  · intro q fs' hq
    by_cases hpid : q = pid
    · have heq : fs.openNext ⟨slot, 0, asyncIo⟩ path = fs' := by simpa [set, hpid] using hq
      subst heq
      refine hfds.insert rfl hnext (Nat.mod_lt _ (by decide)) (fun hb => (hnoflow hb).1)
        (fun hb => .inl ?_) ?_
      · show fs.nextFd < (fs.nextFd + 1) % 2 ^ 32
        rw [Nat.mod_eq_of_lt (hnoflow hb).2]
        omega
      · intro hb
        show fs.nextFd ≤ (fs.nextFd + 1) % 2 ^ 32
        rw [Nat.mod_eq_of_lt (hnoflow hb).2]
        omega
    · have hold := hok.fds q fs' (by simpa [set, hpid] using hq)
      exact ⟨hold.next, hold.bound, fun hb => hold.below (hnoflow hb).1⟩
  · intro hover hearly
    obtain ⟨hover', hlt⟩ := hnoflow hover
    have ho := hok.owned hover' hearly
    -- the number is not open, so the new handle replaces none
    have hnone : fs.fds.get? fs.nextFd = none := by
      cases hget : fs.fds.get? fs.nextFd with
      | none => rfl
      | some h =>
        rcases hfds.below hover' _ h hget with h1 | h1 <;> omega
    have hheld : ∀ id s, (v.set pid (some (fs.openNext ⟨slot, 0, asyncIo⟩ path))).HeldBy id s ↔
        (id ∈ handOf asyncIo ∧ s = slot) ∨ v.HeldBy id s := by
      intro id s
      unfold HeldBy
      rw [exists_set, exists_split hfs]
      simp only [Option.some.injEq, exists_eq_left', FilesState.heldBy_insert
        (show (fs.openNext ⟨slot, 0, asyncIo⟩ path).fds = fs.fds.insert fs.nextFd _ from rfl) hnone]
      cases asyncIo <;> simp [handOf, or_assoc, eq_comm]
    refine ⟨(List.nodup_append.mp ho.nodup).2.1, ho.ids, ?_, ?_, ?_, ?_⟩
    · intro id hid
      have hold := ho.pooled id (List.mem_append_right _ hid)
      refine ⟨hold.1, ?_⟩
      intro s hs
      rcases (hheld id s).mp hs with ⟨hmem, -⟩ | hs'
      · exact (List.nodup_append.mp ho.nodup).2.2 id hmem id hid rfl
      · exact hold.2 s hs'
    · intro id s hs
      rcases (hheld id s).mp hs with ⟨hmem, -⟩ | hs'
      · exact (ho.pooled id (List.mem_append_left _ hmem)).1
      · exact ho.held id s hs'
    · intro id s s' hs hs'
      rcases (hheld id s).mp hs with ⟨hmem, hslot⟩ | hold <;>
        rcases (hheld id s').mp hs' with ⟨hmem', hslot'⟩ | hold'
      · rw [hslot, hslot']
      · exact absurd hold' ((ho.pooled id (List.mem_append_left _ hmem)).2 s')
      · exact absurd hold ((ho.pooled id (List.mem_append_left _ hmem')).2 s)
      · exact ho.one id s s' hold hold'
    · intro id hid
      rcases ho.all id hid with hmem | ⟨s, hs⟩
      · rcases List.mem_append.mp hmem with hhand | hfree
        · exact .inr ⟨slot, (hheld id slot).mpr (.inl ⟨hhand, rfl⟩)⟩
        · exact .inl hfree
      · exact .inr ⟨s, (hheld id s).mpr (.inr hs)⟩

/-- A handle without a region is stored at a number that is not open. -/
theorem Ok.add {fs' : FilesState} (hok : v.Ok hand) (hfs : v.files pid = some fs)
    (hfds : fs'.fds = fs.fds.insert fd h) (hnone : fs.fds.get? fd = none) (hfd : fd < 2 ^ 32)
    (hnext : fs'.nextFd = fs.raisedNextFd fd) (hio : h.asyncIo = none)
    (hopen : h.fsEpSlot ∈ v.openEndpoints) : (v.set pid (some fs')).Ok hand := by
  have hold := hok.fds pid fs hfs
  have hlt := hold.next
  have hup : fs.nextFd ≤ fs'.nextFd ∧ fs'.nextFd < 2 ^ 32 ∧
      (fd < fs'.nextFd ∨ fd = 2 ^ 32 - 1 ∧ fs'.nextFd = 2 ^ 32 - 1) := by
    rw [hnext, FilesState.raisedNextFd]
    split
    · omega
    · omega
  refine hok.edit hfs (hold.insert hfds hfd hup.2.1 id (fun _ => hup.2.2) fun _ => hup.1)
    (fun s hs => ?_) (FilesState.heldBy_insert_none hfds hnone hio)
  rcases hs.of_insert hfds with rfl | hr
  · exact hopen
  · exact hok.opened s ⟨pid, fs, hfs, hr⟩

/-- A table is replaced by one with the same handles. -/
theorem Ok.same {fs' : FilesState} (hok : v.Ok hand) (hfs : v.files pid = some fs)
    (hfds : ∀ f, fs'.fds.get? f = fs.fds.get? f) (hnext : fs.nextFd ≤ fs'.nextFd)
    (hlt : fs'.nextFd < 2 ^ 32) : (v.set pid (some fs')).Ok hand := by
  have hold := hok.fds pid fs hfs
  refine hok.edit hfs ⟨hlt, fun f h hf => hold.bound f h (hfds f ▸ hf), ?_⟩ ?_ ?_
  · intro hb f h hf
    have := hold.below hb f h (hfds f ▸ hf)
    omega
  · intro s hs
    obtain ⟨f, h, hf, hs⟩ := hs
    exact hok.opened s ⟨pid, fs, hfs, f, h, hfds f ▸ hf, hs⟩
  · intro id s
    unfold FilesState.HeldBy
    simp only [hfds]

end FileView

end Ape
