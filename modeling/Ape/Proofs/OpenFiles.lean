import Ape.Proofs.DescriptorRuns

/-!
# `Ape.Proofs.OpenFiles`: positions and flags of descriptors

A descriptor has three parts beside its handle: the position in its file, which the handle
stores by value, its path, and its close-on-exec flag, which the table stores in two more maps.
`FdView` is the part of the state that this is about, with what the model logs of it.

`FdView.Ok` is the invariant of the runs. A path or a flag is that of an open descriptor, and
the flag of an open descriptor is the one that the log says was kept. As long as no call moved
the position of one handle of an open file that another descriptor refers to, the descriptors of
an open file have one position (`FdView.OnePosition`).

A new open file comes in a slot that no descriptor refers to, and this is a fact of `FileView.Ok`:
the two invariants go through the runs together, as `World.FdsOk`.
-/

set_option autoImplicit false

namespace Ape

open Ape.Lib Cmd

/-! ### The flag that the log gives a descriptor -/

/-- What was established last for the descriptor `fd` of `pid`, from a log with the last event
first: the flag that was asked for, and the flag that was kept. -/
def flagOf : List CloexecEvent → Nat → Nat → Bool × Bool
  | [], _, _ => (false, false)
  | .opened p f asked kept :: log, pid, fd =>
    if p = pid ∧ f = fd then (asked, kept) else flagOf log pid fd
  | .set p f cloexec :: log, pid, fd =>
    if p = pid ∧ f = fd then (cloexec, cloexec) else flagOf log pid fd
  | .inherited child parent :: log, pid, fd => flagOf log (if child = pid then parent else pid) fd

/-- The flag that was asked for. -/
def askedCloexec (log : List CloexecEvent) (pid fd : Nat) : Bool := (flagOf log pid fd).1

/-- The flag that was kept. -/
def keptCloexec (log : List CloexecEvent) (pid fd : Nat) : Bool := (flagOf log pid fd).2

section Log

variable (log : List CloexecEvent) (pid : Nat)

/-- The flag that is kept after a descriptor was opened. -/
theorem keptCloexec_opened (p f fd : Nat) (asked kept : Bool) :
    keptCloexec (.opened p f asked kept :: log) pid fd =
      if p = pid ∧ f = fd then kept else keptCloexec log pid fd :=
  apply_ite Prod.snd (p = pid ∧ f = fd) (asked, kept) (flagOf log pid fd)

/-- The flag that is kept after it was set. -/
theorem keptCloexec_set (p f fd : Nat) (cloexec : Bool) :
    keptCloexec (.set p f cloexec :: log) pid fd =
      if p = pid ∧ f = fd then cloexec else keptCloexec log pid fd :=
  apply_ite Prod.snd (p = pid ∧ f = fd) (cloexec, cloexec) (flagOf log pid fd)

/-- A child starts with the flags of its parent. -/
theorem keptCloexec_inherited (child parent fd : Nat) :
    keptCloexec (.inherited child parent :: log) pid fd =
      keptCloexec log (if child = pid then parent else pid) fd := rfl

end Log

/-! ### One table -/

namespace FilesState

variable {fs fs' : FilesState} {kept kept' : Nat → Bool} {fd : Nat}

/-- Some descriptor of the table has the endpoint in `slot`, with its position at `n`. -/
def Sees (fs : FilesState) (slot n : Nat) : Prop :=
  ∃ fd h, fs.fds.get? fd = some h ∧ h.fsEpSlot = slot ∧ h.offset = n

/-- Paths and flags are those of open descriptors, and an open descriptor has the flag that was
kept. -/
structure FlagsOk (fs : FilesState) (kept : Nat → Bool) : Prop where
  flagged : ∀ fd, fs.fdCloexec.get? fd ≠ none → fs.fds.get? fd ≠ none
  named : ∀ fd, fs.fdPaths.get? fd ≠ none → fs.fds.get? fd ≠ none
  flag : ∀ fd, fs.fds.get? fd ≠ none → fs.cloexec fd = kept fd

/-- A table with no entry has nothing to keep. -/
theorem FlagsOk.of_bare (h : ∀ fd, fs.fds.get? fd = none)
    (hcloexec : ∀ fd, fs.fdCloexec.get? fd = none)
    (hpaths : ∀ fd, fs.fdPaths.get? fd = none) : fs.FlagsOk kept :=
  ⟨fun fd hfd => absurd (hcloexec fd) hfd, fun fd hfd => absurd (hpaths fd) hfd,
    fun fd hfd => absurd (h fd) hfd⟩

/-- A closed descriptor loses its path and its flag. -/
theorem FlagsOk.closeFd (h : fs.FlagsOk kept) (fd : Nat) : (fs.closeFd fd).FlagsOk kept := by
  obtain ⟨h1, h2, h3⟩ := h
  refine ⟨fun f hf => ?_, fun f hf => ?_, fun f hf => ?_⟩ <;>
    simp only [FilesState.closeFd, cloexec, OrdMap.get?_erase] at * <;>
    grind

/-- A new file keeps the flag that its number had. -/
theorem FlagsOk.openNext (h : fs.FlagsOk kept) (handle : FileHandle) (path : String)
    (hkept : ∀ fd, kept' fd = if fs.nextFd = fd then fs.cloexec fs.nextFd else kept fd) :
    (fs.openNext handle path).FlagsOk kept' := by
  obtain ⟨h1, h2, h3⟩ := h
  refine ⟨fun f hf => ?_, fun f hf => ?_, fun f hf => ?_⟩ <;>
    simp only [FilesState.openNext, cloexec, OrdMap.get?_insert] at * <;>
    grind

/-- A duplicate gets the path of its source and the flag that was asked for. -/
theorem FlagsOk.duplicate (h : fs.FlagsOk kept) (oldFd newFd : Nat) (handle : FileHandle)
    (cloexec : Bool) (hkept : ∀ fd, kept' fd = if newFd = fd then cloexec else kept fd) :
    (fs.duplicate oldFd newFd handle cloexec).FlagsOk kept' := by
  obtain ⟨h1, h2, h3⟩ := h
  refine ⟨?_, ?_, ?_⟩
  · intro f hf
    simp only [FilesState.duplicate, OrdMap.get?_insert] at *
    grind
  · intro f hf
    simp only [FilesState.duplicate, OrdMap.get?_insert] at *
    split at hf <;> grind [OrdMap.get?_insert]
  · intro f hf
    simp only [FilesState.duplicate, FilesState.cloexec, OrdMap.get?_insert] at *
    grind

/-- `F_SETFD` on an open descriptor. -/
theorem FlagsOk.setFlag (h : fs.FlagsOk kept) (hopen : fs.fds.get? fd ≠ none) (cloexec : Bool)
    (hkept : ∀ f, kept' f = if fd = f then cloexec else kept f) :
    ({ fs with fdCloexec := fs.fdCloexec.insert fd cloexec } : FilesState).FlagsOk kept' := by
  obtain ⟨h1, h2, h3⟩ := h
  refine ⟨fun f hf => ?_, h2, fun f hf => ?_⟩ <;>
    simp only [FilesState.cloexec, OrdMap.get?_insert] at * <;>
    grind

/-- The two ends of a pipe. -/
theorem FlagsOk.addPipe (h : fs.FlagsOk kept) (readFd writeFd readSlot writeSlot : Nat)
    (cloexec : Bool)
    (hkept : ∀ fd, kept' fd = if readFd = fd ∨ writeFd = fd then cloexec else kept fd) :
    (fs.addPipe readFd writeFd readSlot writeSlot cloexec).FlagsOk kept' := by
  obtain ⟨h1, h2, h3⟩ := h
  refine ⟨fun f hf => ?_, fun f hf => ?_, fun f hf => ?_⟩ <;>
    simp only [FilesState.addPipe, FilesState.cloexec, OrdMap.get?_insert] at * <;>
    grind

/-- A pipe that is taken back leaves the rest of the table. -/
theorem FlagsOk.removePipe (h : fs.FlagsOk kept) {readFd writeFd : Nat} (readSlot writeSlot : Nat)
    (cloexec : Bool) (hr : fs.fds.get? readFd = none) (hw : fs.fds.get? writeFd = none)
    (hkept : ∀ fd, kept' fd = if readFd = fd ∨ writeFd = fd then cloexec else kept fd)
    {pipe : FilesState} (hpipe : pipe = fs.addPipe readFd writeFd readSlot writeSlot cloexec) :
    ({ pipe with
      fds := (pipe.fds.erase readFd).erase writeFd
      fdCloexec := (pipe.fdCloexec.erase readFd).erase writeFd } : FilesState).FlagsOk kept' := by
  obtain ⟨h1, h2, h3⟩ := h
  subst hpipe
  refine ⟨fun f hf => ?_, fun f hf => ?_, fun f hf => ?_⟩ <;>
    simp only [FilesState.addPipe, FilesState.cloexec, OrdMap.get?_insert,
      OrdMap.get?_erase] at * <;>
    grind

/-- A change of handles alone. -/
theorem FlagsOk.handles (h : fs.FlagsOk kept) (hcloexec : fs'.fdCloexec = fs.fdCloexec)
    (hpaths : fs'.fdPaths = fs.fdPaths)
    (hopen : ∀ fd, fs'.fds.get? fd = none ↔ fs.fds.get? fd = none) : fs'.FlagsOk kept := by
  refine ⟨?_, ?_, ?_⟩
  · intro fd hfd
    rw [Ne, hopen]
    exact h.flagged fd (hcloexec ▸ hfd)
  · intro fd hfd
    rw [Ne, hopen]
    exact h.named fd (hpaths ▸ hfd)
  · intro fd hfd
    rw [cloexec, hcloexec]
    exact h.flag fd fun hnone => hfd ((hopen fd).mpr hnone)

/-- The standard descriptors have no flag. -/
theorem FlagsOk.stdio (slot : Nat) (hkept : ∀ fd < 3, kept fd = false) :
    (stdioFiles slot).FlagsOk kept := by
  have hfds : ∀ fd, (stdioFiles slot).fds.get? fd ≠ none ↔ fd < 3 := by
    intro fd
    simp only [stdioFiles, List.foldl_cons, List.foldl_nil, OrdMap.get?_insert, OrdMap.get?_empty]
    grind
  refine ⟨fun fd hfd => absurd rfl hfd, ?_, ?_⟩
  · intro fd hfd
    rw [hfds]
    simp only [stdioFiles, List.foldl_cons, List.foldl_nil, OrdMap.get?_insert,
      OrdMap.get?_empty] at hfd
    grind
  · intro fd hfd
    exact (hkept fd ((hfds fd).mp hfd)).symm

/-! What a table sees after a change of one handle. -/

/-- A handle that is left after a removal was there before. -/
theorem Sees.of_erase {slot n : Nat} (hfds : fs'.fds = fs.fds.erase fd) (hs : fs'.Sees slot n) :
    fs.Sees slot n := by
  obtain ⟨f, h, hget, hrest⟩ := hs
  rw [hfds, OrdMap.get?_erase] at hget
  split at hget
  · cases hget
  · exact ⟨f, h, hget, hrest⟩

/-- A handle after an insertion is the new one or was there before. -/
theorem Sees.of_insert {slot n : Nat} {handle : FileHandle}
    (hfds : fs'.fds = fs.fds.insert fd handle) (hs : fs'.Sees slot n) :
    (handle.fsEpSlot = slot ∧ handle.offset = n) ∨ fs.Sees slot n := by
  obtain ⟨f, h, hget, hrest⟩ := hs
  rw [hfds, OrdMap.get?_insert] at hget
  split at hget
  · cases hget
    exact .inl hrest
  · exact .inr ⟨f, h, hget, hrest⟩

end FilesState

/-! ### The view -/

/-- The descriptor tables, whether a position was moved apart, and the log of the flags. -/
structure FdView where
  tables : Nat → Option FilesState
  split : Bool
  log : List CloexecEvent

/-- The view of a state. -/
def World.fdView (w : World) : FdView where
  tables pid := w.filesOf pid
  split := w.positionSplit
  log := w.cloexecLog

namespace FdView

variable {v v' : FdView} {pid : Nat} {fs fs' : FilesState}

/-- Some descriptor has the endpoint in `slot`, with its position at `n`. -/
def Sees (v : FdView) (slot n : Nat) : Prop := ∃ pid fs, v.tables pid = some fs ∧ fs.Sees slot n

/-- Some descriptor has the endpoint in `slot`. -/
def Referred (v : FdView) (slot : Nat) : Prop := ∃ n, v.Sees slot n

/-- The descriptors of an open file have one position. -/
def OnePosition (v : FdView) : Prop := ∀ slot m n, v.Sees slot m → v.Sees slot n → m = n

/-- The invariant of paths, flags and positions. -/
structure Ok (v : FdView) : Prop where
  flags : ∀ pid fs, v.tables pid = some fs → fs.FlagsOk (keptCloexec v.log pid)
  position : v.split = false → v.OnePosition

/-- The view with the table of one process. -/
def set (v : FdView) (pid : Nat) (o : Option FilesState) : FdView :=
  { v with tables := fun q => if q = pid then o else v.tables q }

/-- The view with one more event in the log. -/
def logged (v : FdView) (e : CloexecEvent) : FdView := { v with log := e :: v.log }

/-- The table that was set is there. -/
@[simp] theorem set_tables (o : Option FilesState) : (v.set pid o).tables pid = o := by simp [set]

/-- Of two tables that are set the last one stays. -/
@[simp] theorem set_set (o o' : Option FilesState) : (v.set pid o).set pid o' = v.set pid o' := by
  unfold set
  congr 1
  funext q
  by_cases h : q = pid
  · rw [if_pos h, if_pos h]
  · rw [if_neg h, if_neg h]
    exact if_neg h

/-- What is seen after one table changed is seen in the new table, or it was seen before. -/
theorem Sees.of_change {slot n : Nat} {o : Option FilesState} (hs : (v.set pid o).Sees slot n) :
    (∃ fs', o = some fs' ∧ fs'.Sees slot n) ∨ v.Sees slot n := by
  obtain ⟨q, fs, hq, hsees⟩ := hs
  by_cases h : q = pid
  · exact .inl ⟨fs, by simpa [set, h] using hq, hsees⟩
  · exact .inr ⟨q, fs, by simpa [set, h] using hq, hsees⟩

/-- A handle that is seen after a table was set is in that table or was seen before. -/
theorem Sees.of_set {slot n : Nat} (hs : (v.set pid (some fs')).Sees slot n) :
    fs'.Sees slot n ∨ v.Sees slot n := by
  rcases hs.of_change with ⟨fs, heq, h⟩ | h
  · cases heq
    exact .inl h
  · exact .inr h

/-- Descriptors go, and new ones come at one position of an open file that no descriptor had. -/
theorem OnePosition.extend (h : v.OnePosition) {g : Nat → Nat}
    (hnew : ∀ slot n, v'.Sees slot n → v.Sees slot n ∨ (¬ v.Referred slot ∧ n = g slot)) :
    v'.OnePosition := by
  intro slot m n hm hn
  rcases hnew slot m hm with hm | ⟨hfree, rfl⟩ <;> rcases hnew slot n hn with hn | ⟨hfree', rfl⟩
  · exact h slot m n hm hn
  · exact absurd ⟨m, hm⟩ hfree'
  · exact absurd ⟨n, hn⟩ hfree
  · rfl

/-- Descriptors go, and no new position comes. -/
theorem OnePosition.mono (h : v.OnePosition) (hold : ∀ slot n, v'.Sees slot n → v.Sees slot n) :
    v'.OnePosition := fun slot m n hm hn => h slot m n (hold slot m hm) (hold slot n hn)

/-- A table comes, goes or changes, with the flags of the other processes as they were. -/
theorem Ok.change {o : Option FilesState} (log : List CloexecEvent) (split : Bool) (hok : v.Ok)
    (hother : ∀ q ≠ pid, ∀ fd, keptCloexec log q fd = keptCloexec v.log q fd)
    (hflags : ∀ fs', o = some fs' → fs'.FlagsOk (keptCloexec log pid))
    (hpos : split = false → (v.set pid o).OnePosition) :
    ({ v.set pid o with log := log, split := split } : FdView).Ok := by
  refine ⟨?_, hpos⟩
  intro q fs hq
  by_cases h : q = pid
  · exact h ▸ hflags fs (by simpa [set, h] using hq)
  · have hold := hok.flags q fs (by simpa [set, h] using hq)
    have hkept : keptCloexec log q = keptCloexec v.log q := funext (hother q h)
    show fs.FlagsOk (keptCloexec log q)
    rw [hkept]
    exact hold

/-- A new table of one process keeps the view in order, if its flags are those of the log and its
positions agree with the others. -/
theorem Ok.edit (log : List CloexecEvent) (split : Bool) (hok : v.Ok)
    (hother : ∀ q ≠ pid, ∀ fd, keptCloexec log q fd = keptCloexec v.log q fd)
    (hflags : fs'.FlagsOk (keptCloexec log pid))
    (hpos : split = false → (v.set pid (some fs')).OnePosition) :
    ({ v.set pid (some fs') with log := log, split := split } : FdView).Ok :=
  hok.change log split hother (fun _ heq => by cases heq; exact hflags) hpos

/-- A change of one table that brings no new position and no event. -/
theorem Ok.shrink (hok : v.Ok) (hfs : v.tables pid = some fs)
    (hflags : fs'.FlagsOk (keptCloexec v.log pid)) (hsees : ∀ s n, fs'.Sees s n → fs.Sees s n) :
    (v.set pid (some fs')).Ok := by
  refine hok.edit v.log v.split (fun _ _ _ => rfl) hflags fun hsplit =>
    (hok.position hsplit).mono fun s n hs => ?_
  exact hs.of_set.elim (fun h => ⟨pid, fs, hfs, hsees s n h⟩) id

end FdView

/-! ### The state of the descriptors -/

/-- All that the two invariants of descriptors are about. -/
structure FdState where
  files : FileView
  split : Bool
  log : List CloexecEvent

/-- The view of a state. -/
def World.fdState (w : World) : FdState := ⟨w.fileView, w.positionSplit, w.cloexecLog⟩

/-- The part that the invariant of flags and positions is about. -/
def FdState.fdView (s : FdState) : FdView := ⟨s.files.files, s.split, s.log⟩

/-- A change of a process record that keeps the descriptors. -/
theorem World.fdState_modifyTask (w : World) (pid : Nat) {f : TaskStruct → TaskStruct}
    (hf : ∀ t, (f t).files = t.files) : (w.modifyTask pid f).fdState = w.fdState :=
  congrArg (FdState.mk · w.positionSplit w.cloexecLog) (w.fileView_modifyTask pid hf)

instance : BlindControl World.fdState where
  tick _ _ := rfl
  slots _ _ := rfl
  trace _ _ := rfl
  signal w pid _ := w.fdState_modifyTask pid fun _ => rfl
  dropped _ _ := rfl
  missedIntr _ _ := rfl
  record w pid _ hf := w.fdState_modifyTask pid fun t => (hf t).2.2
  hostPidMap _ _ := rfl
  stale _ _ := rfl
  stopLog _ _ := rfl
  stopSkewed _ _ := rfl
  childEvents _ _ := rfl
  pendingWaits _ _ := rfl
  lifecycle _ _ := rfl
  missedWake _ _ := rfl
  waited _ _ := rfl
  leftEvents _ _ := rfl
  pendingSleeps _ _ := rfl
  requestId _ _ := rfl
  idSaturated _ _ := rfl
  sleepLog _ _ := rfl
  caller _ _ := rfl

instance : BlindMemory World.fdState where
  ledger _ _ := rfl
  vspace w pid _ := w.fdState_modifyTask pid fun _ => rfl
  tables w pid _ := w.fdState_modifyTask pid fun _ => rfl
  scratch _ _ _ := rfl
  writeFrame _ _ _ := rfl
  frames _ _ _ := rfl
  refs _ _ := rfl
  doubleFree _ _ := rfl
  mm w pid _ := w.fdState_modifyTask pid fun _ => rfl
  fileMapLog _ _ := rfl

instance : BlindControl World.fdView :=
  BlindControl.comp (V := World.fdState) FdState.fdView inferInstance

instance : BlindMemory World.fdView :=
  BlindMemory.comp (V := World.fdState) FdState.fdView inferInstance

instance : BlindEndpoints World.fdView where
  endpoints _ _ := rfl
  doubleClose _ _ := rfl
  asyncFree _ _ := rfl
  asyncRegions _ _ := rfl
  asyncVaddr _ _ := rfl
  iouring _ _ := rfl
  fdOverflow _ _ := rfl
  earlyRecycle _ _ := rfl

instance : BlindSlots World.openEndpoints where
  tick _ _ := rfl
  slots _ _ := rfl
  ledger _ _ := rfl

/-- Both invariants of descriptors, at a request boundary. -/
def World.FdsOk (w : World) : Prop := w.FilesOk ∧ w.fdView.Ok

instance : BlindControl World.FdsOk :=
  BlindControl.comp (V := World.fdState) (fun s => s.files.Ok [] ∧ s.fdView.Ok) inferInstance

instance : BlindMemory World.FdsOk :=
  BlindMemory.comp (V := World.fdState) (fun s => s.files.Ok [] ∧ s.fdView.Ok) inferInstance

/-- A call keeps both invariants when it keeps the one and ends with the other. -/
theorem Keeps.fdsOk {α : Type} {c : M α} (hfiles : Keeps World.FilesOk c)
    (h : Triple World.FdsOk c (fun _ w => w.fdView.Ok) fun _ w => w.fdView.Ok) :
    Keeps World.FdsOk c :=
  Triple.keeps <| ((hfiles.triple.pre fun _ hw => hw.1).and h).imp (fun _ hw => ⟨hw, hw⟩)
    (fun _ _ hw => hw) fun _ _ hw => hw

/-- The view is `v`, and a slot that some descriptor refers to is that of an open endpoint. -/
def World.Backed (v : FdView) (w : World) : Prop :=
  w.fdView = v ∧ ∀ slot, v.Referred slot → slot ∈ w.openEndpoints

/-- In a state in order every slot that a handle refers to is open. -/
theorem World.FdsOk.backed {w : World} (h : w.FdsOk) : w.Backed w.fdView :=
  ⟨rfl, fun slot ⟨_, pid, fs, hfs, fd, handle, hget, hslot, _⟩ =>
    h.1.opened slot ⟨pid, fs, hfs, fd, handle, hget, hslot⟩⟩

/-! ### Commands -/

section Rules

variable {v : FdView} {E : Err → World → Prop}

/-- A command that leaves the view alone keeps what holds of it. -/
theorem fdView_step {α : Type} {c : M α} (h : Frames World.fdView c) :
    Triple (fun w => w.fdView = v) c (fun _ w => w.fdView = v) (fun _ w => w.fdView = v) :=
  (h.keeps (· = v)).triple

/-- A change of the descriptors of a process. -/
theorem World.fdView_modifyFiles (w : World) (pid : Nat) (f : FilesState → FilesState) :
    (w.modifyTask pid fun t => { t with files := f t.files }).fdView =
      w.fdView.set pid ((w.fdView.tables pid).map f) := by
  have hview := congrArg FileView.files (w.fileView_modifyFiles pid f)
  rw [FileView.modify_eq_set] at hview
  exact congrArg (FdView.mk · w.positionSplit w.cloexecLog) hview

/-- A change of the table of a process that is there. -/
theorem modifyFiles_fdView (pid : Nat) (f : FilesState → FilesState) {fs : FilesState}
    (hfs : v.tables pid = some fs) :
    Triple (fun w => w.fdView = v) (modifyFiles pid f)
      (fun _ w => w.fdView = v.set pid (some (f fs))) E :=
  Triple.modify fun w hw => by
    rw [w.fdView_modifyFiles, hw, hfs]
    rfl

/-- What is logged of close-on-exec flags shows in the log. -/
theorem logCloexec_fdView (e : CloexecEvent) :
    Triple (fun w => w.fdView = v) (logCloexec e) (fun _ w => w.fdView = v.logged e) E :=
  Triple.modify fun w hw => by subst hw; rfl

/-- A call that starts with the record of a process, from the view that the record is read in. -/
theorem getProcess_fds {α : Type} (pid : Nat) {k : TaskStruct → M α}
    (hk : ∀ (v : FdView) (task : TaskStruct), v.Ok → v.tables pid = some task.files →
      Triple (World.Backed v) (k task) (fun _ w => w.fdView.Ok) fun _ w => w.fdView.Ok) :
    Triple World.FdsOk (getProcess pid >>= k) (fun _ w => w.fdView.Ok) fun _ w => w.fdView.Ok := by
  refine Triple.bind ((getProcess_task (P := World.FdsOk) pid).errors
    fun _ _ h => h.2) fun task => Triple.of_pre fun w₀ h₀ => ?_
  have hfs : w₀.fdView.tables pid = some task.files := by
    show w₀.filesOf pid = _
    rw [World.filesOf, h₀.2]
    rfl
  refine (hk w₀.fdView task h₀.1.2 hfs).pre fun w hw => ?_
  subst hw
  exact h₀.1.backed

/-- The record of a process is read, and the view is left alone. -/
theorem getProcess_fdView (pid : Nat) {fs : FilesState} (hfs : v.tables pid = some fs) :
    Triple (fun w => w.fdView = v) (getProcess pid)
      (fun t w => t.files = fs ∧ w.fdView = v) E :=
  ((getProcess_live (P := fun w => w.fdView = v) pid fs).imp
    (fun _ h => ⟨h, (congrArg (FdView.tables · pid) h).trans hfs⟩) (fun _ _ h => ⟨h.1, h.2.1⟩)
    fun _ _ h => h)

end Rules

/-! ### `close` -/

/-- What `do_close` does after it has read the record of the process. -/
theorem closeRest_fdView {v : FdView} {pid fd : Nat} {fs : FilesState} {h : Option FileHandle}
    (hok : v.Ok) (hfs : v.tables pid = some fs) :
    Triple (fun w => w.fdView = v) (do
      modifyFiles pid (·.closeFd fd)
      let handle ← getSome h .invalidSlot
      let shared ← gets (·.endpointShared handle.fsEpSlot)
      when (¬ shared) (closeEndpoint handle.fsEpSlot)
      whenSome handle.asyncIo fun io => recycleClosed io shared : M Unit)
      (fun _ w => w.fdView = v.set pid (some (fs.closeFd fd)) ∧ w.fdView.Ok)
      (fun _ w => w.fdView.Ok) := by
  let v₁ := v.set pid (some (fs.closeFd fd))
  have hok₁ : v₁.Ok :=
    hok.shrink hfs ((hok.flags pid fs hfs).closeFd fd) fun _ _ hs => hs.of_erase rfl
  refine Triple.bind (modifyFiles_fdView pid (·.closeFd fd) hfs) fun _ => ?_
  have hrest : Keeps (fun w => w.fdView = v₁) (do
      let handle ← getSome h .invalidSlot
      let shared ← gets (·.endpointShared handle.fsEpSlot)
      when (¬ shared) (closeEndpoint handle.fsEpSlot)
      whenSome handle.asyncIo fun io => recycleClosed io shared : M Unit) :=
    Keeps.bind (Keeps.getSome _ _) fun handle => afterClose_keeps handle
  exact hrest.triple.imp (fun _ hw => hw) (fun _ w hw => ⟨hw, by rw [hw]; exact hok₁⟩)
    fun _ w hw => by rw [hw]; exact hok₁

/-- `close` removes the descriptor, its path and its flag. -/
theorem doClose_fdView {v : FdView} {pid fd : Nat} {fs : FilesState} (hok : v.Ok)
    (hfs : v.tables pid = some fs) :
    Triple (fun w => w.fdView = v) (doClose pid fd)
      (fun _ w => w.fdView = v.set pid (some (fs.closeFd fd)) ∧ w.fdView.Ok)
      (fun _ w => w.fdView.Ok) := by
  unfold doClose
  refine Triple.ite (fun _ => Triple.throw fun w hw => by rw [hw]; exact hok) fun _ => ?_
  refine Triple.bind (getProcess_fdView pid hfs) fun task => ?_
  exact (closeRest_fdView hok hfs).pre fun _ hw => hw.2

/-- `close` keeps flags and positions in order. -/
theorem doClose_fdsOk (pid fd : Nat) : Keeps World.FdsOk (doClose pid fd) := by
  refine Keeps.fdsOk (doClose_filesOk pid fd) ?_
  unfold doClose
  refine Triple.ite (fun _ => Triple.throw fun _ hw => hw.2) fun _ => ?_
  refine getProcess_fds pid fun v task hok hfs => ?_
  exact (closeRest_fdView hok hfs).imp (fun _ hw => hw.1) (fun _ _ hw => hw.2) fun _ _ hw => hw

/-! ### `read`, `write` and `lseek` -/

/-- A handle that is out of the table, and whose position moved apart from that of no other
descriptor as long as the view says so. -/
def Taken (v : FdView) (handle : FileHandle) (s : World × FileHandle) : Prop :=
  s.1.fdView.tables = v.tables ∧ s.1.fdView.log = v.log ∧ s.2.fsEpSlot = handle.fsEpSlot ∧
    (s.1.fdView.split = false → v.split = false ∧
      (s.2.offset = handle.offset ∨ ¬ v.Referred handle.fsEpSlot))

/-- A handle that was just taken out of the table. -/
theorem Taken.start {v : FdView} {s : World × FileHandle} (h : s.1.fdView = v) : Taken v s.2 s :=
  ⟨congrArg FdView.tables h, congrArg FdView.log h, rfl,
    fun hfalse => ⟨(congrArg FdView.split h).symm.trans hfalse, .inl rfl⟩⟩

/-- The scan finds a descriptor exactly when the view has one. -/
theorem World.endpointShared_iff_referred (w : World) (slot : Nat) :
    w.endpointShared slot = true ↔ w.fdView.Referred slot := by
  rw [w.endpointShared_iff]
  constructor
  · rintro ⟨pid, fs, hfs, fd, h, hget, hslot⟩
    exact ⟨h.offset, pid, fs, hfs, fd, h, hget, hslot, rfl⟩
  · rintro ⟨n, pid, fs, hfs, fd, h, hget, hslot, -⟩
    exact ⟨pid, fs, hfs, fd, h, hget, hslot⟩

/-- A move of the handle is noted when another descriptor has its file. -/
theorem Taken.move {v : FdView} {handle : FileHandle} {s : World × FileHandle}
    (h : Taken v handle s) (n : Nat) : Taken v handle (moveTo n s) := by
  obtain ⟨htables, hlog, hslot, hsplit⟩ := h
  refine ⟨htables, hlog, hslot, ?_⟩
  intro hfalse
  obtain ⟨hold, hmoved⟩ := Bool.or_eq_false_iff.mp hfalse
  obtain ⟨hv, hpos⟩ := hsplit hold
  refine ⟨hv, ?_⟩
  have hshared : s.1.fdView.Referred s.2.fsEpSlot ↔ v.Referred handle.fsEpSlot := by
    unfold FdView.Referred FdView.Sees
    rw [htables, hslot]
  rcases Bool.and_eq_false_iff.mp hmoved with hsame | hfree
  · have heq : n = s.2.offset := by simpa using hsame
    exact hpos.imp_left heq.trans
  · refine .inr fun hr => ?_
    rw [(s.1.endpointShared_iff_referred _).mpr (hshared.mpr hr)] at hfree
    cases hfree

/-- A command of the server that leaves the view alone leaves the handle as it is. -/
theorem Taken.frame {α : Type} {v : FdView} {handle : FileHandle} {c : M α}
    (h : Frames World.fdView c) : Keeps (Taken v handle) (inFst c) := by
  intro s hs
  obtain ⟨w, handle'⟩ := s
  have hview := h w
  unfold Taken at hs ⊢
  rw [run_inFst]
  simp only at hs ⊢
  rw [hview]
  exact hs

/-- The table gets its handle back. -/
theorem Taken.restore {v : FdView} {pid fd : Nat} {fs : FilesState}
    {handle : FileHandle} (hok : v.Ok)
    (hfs : v.tables pid = some fs) (hget : fs.fds.get? fd = some handle) {s : World × FileHandle}
    (h : Taken (v.set pid (some (fs.removeFd fd))) handle s) :
    (s.1.fdView.set pid (some ((fs.removeFd fd).insertFd fd s.2))).Ok := by
  obtain ⟨htables, hlog, hslot, hsplit⟩ := h
  let fs' := (fs.removeFd fd).insertFd fd s.2
  -- the handle goes back under its number, so only its own entry differs
  have hview : s.1.fdView.set pid (some fs') =
      { v.set pid (some fs') with log := v.log, split := s.1.fdView.split } := by
    have hset : s.1.fdView.set pid (some fs') =
        { (v.set pid (some (fs.removeFd fd))).set pid (some fs') with
          log := s.1.fdView.log, split := s.1.fdView.split } := by
      unfold FdView.set at htables ⊢
      rw [htables]
    rw [hset, FdView.set_set, hlog]
    rfl
  have hopen : ∀ f, fs'.fds.get? f = none ↔ fs.fds.get? f = none := by
    intro f
    show ((fs.fds.erase fd).insert fd s.2).get? f = none ↔ _
    rw [OrdMap.get?_insert, OrdMap.get?_erase]
    grind
  rw [hview]
  refine hok.edit _ _ (fun _ _ _ => rfl) ((hok.flags pid fs hfs).handles rfl rfl hopen)
    fun hfalse => ?_
  obtain ⟨hv, hpos⟩ := hsplit hfalse
  -- the calls on the handle kept the position, or the descriptor is the last of its file
  have hone := hok.position hv
  rcases hpos with hsame | hfree
  · -- the position is the old one
    refine hone.mono fun slot n hs => hs.of_set.elim (fun hs' => ?_) id
    rcases hs'.of_insert rfl with ⟨h1, h2⟩ | hs'
    · exact ⟨pid, fs, hfs, fd, handle, hget, hslot.symm.trans h1, hsame.symm.trans h2⟩
    · exact ⟨pid, fs, hfs, hs'.of_erase rfl⟩
  · -- the file has no other descriptor
    let v₁ := v.set pid (some (fs.removeFd fd))
    have hone₁ : v₁.OnePosition := hone.mono fun slot n hs =>
      hs.of_set.elim (fun hs' => ⟨pid, fs, hfs, hs'.of_erase rfl⟩) id
    have hlast : (v₁.set pid (some fs')).OnePosition := by
      refine hone₁.extend (g := fun _ => s.2.offset) fun slot n hs => ?_
      rcases hs.of_set with hs' | hs'
      · rcases hs'.of_insert rfl with ⟨h1, h2⟩ | hs'
        · exact .inr ⟨hslot.symm.trans h1 ▸ hfree, h2.symm⟩
        · exact .inl ⟨pid, _, FdView.set_tables _, hs'⟩
      · exact .inl hs'
    rwa [FdView.set_set] at hlast

/-- A call on a handle that moves the position, and does nothing else to descriptors. -/
theorem withFdHandleMut_fdsOk {α : Type} (pid fd : Nat) {f : H α}
    (h : ∀ K : World × FileHandle → Prop, (∀ {β : Type} (c : M β), Frames World.fdState c →
      Keeps K (inFst c)) → (∀ n s, K s → K (moveTo n s)) → Keeps K f) :
    Keeps World.FdsOk (withFdHandleMut pid fd f) := by
  -- the invariant of the endpoints is the other module's, and only the positions are left
  refine Keeps.fdsOk (withFdHandleMut_moves_filesOk pid fd fun K hin hmove =>
    h K (fun c hc => hin c (hc.comp FdState.files)) hmove) ?_
  unfold withFdHandleMut
  refine Triple.ite (fun _ => Triple.throw fun _ hw => hw.2) fun _ => ?_
  refine getProcess_fds pid fun v task hok hfs => ?_
  refine Triple.pre (K := fun w => w.fdView = v) ?_ fun _ hw => hw.1
  have hE : ∀ w : World, w.fdView = v → w.fdView.Ok := fun w hw => by rw [hw]; exact hok
  refine Triple.bind (R := fun h w => w.fdView = v ∧ task.files.fds.get? fd = some h)
    (Triple.getSome (fun h w hs hw => ⟨hw, hs⟩) fun w _ hw => hE w hw) fun handle => ?_
  refine Triple.of_pre fun w₀ h₀ => ?_
  obtain ⟨hv, hget⟩ := h₀
  let v₁ := v.set pid (some (task.files.removeFd fd))
  refine Triple.bind ((modifyFiles_fdView pid (·.removeFd fd) hfs).pre fun w hw => hw ▸ hv)
    fun _ => ?_
  -- the body runs on the handle alone, with the table as `v₁`
  refine Triple.bind (R := fun r w => Taken v₁ handle (w, r.2)) ?_ ?_
  · have hrun : Keeps (Taken v₁ handle) f :=
      h _ (fun c hc => Taken.frame (hc.comp FdState.fdView)) fun n s hs => hs.move n
    refine Triple.runWith (hrun.triple.pre fun s hs => ?_) (fun _ _ _ hs => hs) fun _ _ _ hs => hs
    exact hs.2 ▸ Taken.start hs.1
  · intro r
    refine Triple.of_pre fun w₁ h₁ => ?_
    have hfs₁ : w₁.fdView.tables pid = some (task.files.removeFd fd) := by
      rw [h₁.1]
      exact FdView.set_tables _
    refine Triple.bind ((modifyFiles_fdView pid (·.insertFd fd r.2) hfs₁).pre
      fun w hw => by rw [hw])
      fun _ => Triple.pre (Keeps.ofExcept _).triple fun w hw => ?_
    rw [hw]
    exact h₁.restore hok hfs hget

/-- `read` keeps flags and positions in order. -/
theorem doRead_fdsOk (pid fd bufPtr len : Nat) : Keeps World.FdsOk (doRead pid fd bufPtr len) :=
  Keeps.ite (Keeps.pure _) (withFdHandleMut_fdsOk pid fd fun _ hin hmove =>
    readLoop_keeps_of (fun _ s => hmove _ s) (fun _ _ _ => hin _ (by simp [fsRead]))
      (fun _ _ => hin _ (copyToUser_frames _ _ _)) _ _)

/-- `write` keeps flags and positions in order. -/
theorem doWrite_fdsOk (pid fd bufPtr len : Nat) : Keeps World.FdsOk (doWrite pid fd bufPtr len) :=
  Keeps.ite (Keeps.pure _) (withFdHandleMut_fdsOk pid fd fun _ hin hmove =>
    writeLoop_keeps_of (fun _ s => hmove _ s) (fun _ _ _ => hin _ (by simp [fsWrite]))
      (fun _ _ => hin _ (copyFromUser_frames _ _ _)) _ _)

/-- `lseek` keeps flags and positions in order. -/
theorem doLseek_fdsOk (pid fd : Nat) (offset : Int) (whence : Nat) :
    Keeps World.FdsOk (doLseek pid fd offset whence) :=
  withFdHandleMut_fdsOk pid fd fun _ hin hmove =>
    seekHandle_keeps_of hmove (hin _ ext_frames) _ _

/-! ### `openat` -/

section Fresh

variable {v : FdView} {pid : Nat} {fs fs' : FilesState} {E : Err → World → Prop}

/-- A call leaves descriptors and endpoints. -/
theorem ext_backed : Triple (World.Backed v) ext
    (fun _ => World.Backed v) fun _ => World.Backed v :=
  Keeps.triple fun w hw => ⟨(ext_frames (V := World.fdView) w).trans hw.1, fun slot hs => by
    rw [ext_frames (V := World.openEndpoints) w]
    exact hw.2 slot hs⟩

/-- A new slot is that of no descriptor. -/
theorem cspaceAlloc_fresh :
    Triple (World.Backed v) cspaceAlloc (fun slot w => w.Backed v ∧ ¬ v.Referred slot)
      (fun _ w => w.fdView = v) := by
  unfold cspaceAlloc
  refine Triple.bind (ext_backed.errors fun _ _ h => h.1) fun a => ?_
  refine Triple.bind (R := fun free w => w.Backed v ∧ free = decide (w.SlotFree a.val))
    (Triple.gets fun w h => ⟨h, rfl⟩) fun free => ?_
  refine Triple.ite (fun hfree => ?_) fun _ => refuse_triple fun w h => h.1.1
  subst hfree
  refine Triple.bind (R := fun _ w => w.Backed v ∧ ¬ v.Referred a.val)
    (Triple.modify fun w h => ⟨h.1, ?_⟩) fun _ => Triple.pure fun w h => h
  intro hr
  obtain ⟨-, -, -, hnot⟩ := of_decide_eq_true h.2.symm
  exact hnot (h.1.2 _ hr)

/-- A refused `open` leaves the view alone, and a good one adds an open endpoint. -/
theorem fsOpen_backed (slot : Nat) :
    Triple (World.Backed v) (onError (fsOpen slot) fun _ => cspaceFree slot)
      (fun _ => World.Backed v) (fun _ w => w.fdView = v) := by
  refine Triple.onError (F := fun _ w => w.fdView = v) ?_ fun _ => fdView_step (by simp)
  refine Triple.bind (ext_backed.errors fun _ _ h => h.1) fun _ => ?_
  exact Triple.modify fun w h => ⟨h.1, fun s hs => Finset.mem_insert_of_mem (h.2 s hs)⟩

/-- New descriptors of files that no descriptor had, with their position at the start. -/
theorem FdView.Ok.fresh (log : List CloexecEvent) (hok : v.Ok) (hfs : v.tables pid = some fs)
    (hother : ∀ q ≠ pid, ∀ fd, keptCloexec log q fd = keptCloexec v.log q fd)
    (hflags : fs'.FlagsOk (keptCloexec log pid))
    (hsees : ∀ s n, fs'.Sees s n → fs.Sees s n ∨ (¬ v.Referred s ∧ n = 0)) :
    ({ v.set pid (some fs') with log := log } : FdView).Ok := by
  refine hok.edit log v.split hother hflags fun hsplit => ?_
  refine (hok.position hsplit).extend (g := fun _ => 0) fun s n hs => ?_
  rcases hs.of_set with hs' | hs'
  · exact (hsees s n hs').imp_left fun h => ⟨pid, fs, hfs, h⟩
  · exact .inl hs'

end Fresh

/-- `openat` keeps flags and positions in order. -/
theorem doOpenat_fdsOk (pid pathname flags : Nat) :
    Keeps World.FdsOk (doOpenat pid pathname flags) := by
  refine Keeps.fdsOk (doOpenat_filesOk pid pathname flags) ?_
  unfold doOpenat
  refine Triple.bind (((UserKeeps.readString (I := World.FdsOk) _ _ _).triple).errors
    fun _ _ h => h.2) fun raw => ?_
  refine getProcess_fds pid fun v task hok hfs => ?_
  have hE : ∀ w : World, w.fdView = v → w.fdView.Ok := fun w hw => by rw [hw]; exact hok
  refine Triple.bind (R := fun _ => World.Backed v) (Triple.gets fun _ h => h) fun resolve => ?_
  unfold openViaNexusFs
  -- the slot is new, so no descriptor refers to it yet
  refine Triple.bind (cspaceAlloc_fresh.errors fun _ w h => hE w h)
    fun slot => Triple.of_pre fun w₀ h₀ => ?_
  obtain ⟨hbacked, hfree⟩ := h₀
  refine Triple.bind ((fsOpen_backed (v := v) slot).imp (fun w hw => hw ▸ hbacked) (fun _ _ h => h)
    fun _ w h => hE w h) fun _ => ?_
  have hio : Keeps (fun w => w.fdView = v) openAsyncIo := openAsyncIo_keeps
  refine Triple.bind (hio.triple.imp (fun _ h => h.1) (fun _ _ h => h) fun _ w h => hE w h)
    fun asyncIo => ?_
  refine Triple.bind (getProcess_fdView pid hfs) fun task' => ?_
  refine Triple.of_pre fun w₁ h₁ => ?_
  obtain ⟨htask, hv⟩ := h₁
  refine Triple.bind (R := fun _ w => w.fdView = v) (Triple.modify fun w hw => hw ▸ hv) fun _ => ?_
  refine Triple.bind (modifyFiles_fdView pid _ hfs) fun _ =>
    Triple.bind (logCloexec_fdView _) fun _ => Triple.pure fun w hw => ?_
  rw [hw, htask]
  refine hok.fresh (_ :: v.log) hfs ?_ ?_ ?_
  -- the new file starts at zero, with the flag that was asked for
  · intro q hq fd
    rw [keptCloexec_opened, if_neg fun h => hq h.1.symm]
  · refine (hok.flags pid _ hfs).openNext _ _ fun fd => ?_
    rw [keptCloexec_opened]
    simp
  · intro s n hs
    rcases hs.of_insert rfl with ⟨rfl, rfl⟩ | hs'
    · exact .inr ⟨hfree, rfl⟩
    · exact .inl hs'

/-! ### `fcntl`, `dup` and `dup3` -/

/-- A descriptor becomes one more name of an open file, with its position. -/
theorem FdView.Ok.duplicate {v : FdView} {pid oldFd newFd : Nat} {fs : FilesState} {h : FileHandle}
    (hok : v.Ok) (hfs : v.tables pid = some fs) (hget : fs.fds.get? oldFd = some h)
    (cloexec : Bool) :
    ((v.set pid (some (fs.duplicate oldFd newFd (duplicateNormalHandle h) cloexec))).logged
      (.set pid newFd cloexec)).Ok := by
  refine hok.edit (_ :: v.log) v.split ?_ ((hok.flags pid fs hfs).duplicate _ _ _ _ ?_)
    fun hsplit => (hok.position hsplit).mono ?_
  · intro q hq fd
    rw [keptCloexec_set, if_neg fun h => hq h.1.symm]
  · intro fd
    rw [keptCloexec_set]
    simp
  · intro s n hs
    rcases hs.of_set with hs' | hs'
    · rcases hs'.of_insert rfl with hnew | hold
      · exact ⟨pid, fs, hfs, oldFd, h, hget, hnew⟩
      · exact ⟨pid, fs, hfs, hold⟩
    · exact hs'

/-- `fcntl` keeps flags and positions in order. -/
theorem doFcntl_fdsOk (pid fd cmd arg : Nat) : Keeps World.FdsOk (doFcntl pid fd cmd arg) := by
  have hdup : ∀ cloexec, Triple World.FdsOk (dupFd pid fd arg cloexec) (fun _ w => w.fdView.Ok)
      fun _ w => w.fdView.Ok := by
    refine fun cloexec => getProcess_fds pid fun v task hok hfs => ?_
    have hE : ∀ w : World, w.fdView = v → w.fdView.Ok := fun w hw => by rw [hw]; exact hok
    -- both numbers of the duplicates are taken from the table that the call reads
    refine Triple.pre (K := fun w => w.fdView = v) ?_ fun _ hw => hw.1
    refine Triple.bind (R := fun h w => w.fdView = v ∧ task.files.fds.get? fd = some h)
      (Triple.getSome (fun h w hs hw => ⟨hw, hs⟩) fun w _ hw => hE w hw) fun handle => ?_
    refine Triple.ite (fun _ => Triple.throw fun w h => hE w h.1) fun _ => ?_
    refine Triple.bind (R := fun _ w => w.fdView = v ∧ task.files.fds.get? fd = some handle)
      (Triple.getSome (fun _ _ _ hw => hw) fun w _ hw => hE w hw.1) fun newFd => ?_
    refine Triple.of_pre fun w₀ h₀ => ?_
    refine Triple.bind ((modifyFiles_fdView pid _ hfs).pre fun w hw => hw ▸ h₀.1) fun _ =>
      Triple.bind (logCloexec_fdView _) fun _ => Triple.pure fun w hw => ?_
    rw [hw]
    exact hok.duplicate hfs h₀.2 cloexec
  refine Keeps.fdsOk (doFcntl_filesOk pid fd cmd arg) ?_
  unfold doFcntl
  -- `F_DUPFD` and its variant, an unknown command, and the three that stay
  refine Triple.ite (fun _ => Triple.throw fun _ h => h.2) fun _ =>
    Triple.ite (fun _ => Triple.throw fun _ h => h.2) fun _ => Triple.ite (fun _ => hdup _) fun _ =>
      Triple.ite (fun _ => Triple.throw fun _ h => h.2) fun _ => ?_
  refine getProcess_fds pid fun v task hok hfs => ?_
  have hE : ∀ w : World, w.fdView = v → w.fdView.Ok := fun w hw => by rw [hw]; exact hok
  refine Triple.pre (K := fun w => w.fdView = v) ?_ fun _ hw => hw.1
  refine Triple.bind (R := fun h w => w.fdView = v ∧ task.files.fds.get? fd = some h)
    (Triple.getSome (fun h w hs hw => ⟨hw, hs⟩) fun w _ hw => hE w hw) fun handle => ?_
  refine Triple.ite (fun _ => Triple.pure fun w hw => hE w hw.1) fun _ => ?_
  refine Triple.ite (fun _ => ?_) fun _ => Triple.pure fun w hw => hE w hw.1
  refine Triple.of_pre fun w₀ h₀ => ?_
  refine Triple.bind ((modifyFiles_fdView pid _ hfs).pre fun w hw => hw ▸ h₀.1) fun _ =>
    Triple.bind (logCloexec_fdView _) fun _ => Triple.pure fun w hw => ?_
  rw [hw]
  refine hok.edit (_ :: v.log) v.split ?_ ((hok.flags pid _ hfs).setFlag ?_ _ ?_) fun hsplit =>
    (hok.position hsplit).mono fun s n hs => hs.of_set.elim (fun h => ⟨pid, _, hfs, h⟩) id
  -- only the flag of this descriptor changes, and no position does
  · intro q hq f
    rw [keptCloexec_set, if_neg fun h => hq h.1.symm]
  · rw [h₀.2]
    exact Option.some_ne_none _
  · intro f
    rw [keptCloexec_set]
    simp

/-- `dup3` keeps flags and positions in order. -/
theorem doDup3_fdsOk (pid oldfd newfd flags : Nat) :
    Keeps World.FdsOk (doDup3 pid oldfd newfd flags) := by
  refine Keeps.fdsOk (doDup3_filesOk pid oldfd newfd flags) ?_
  unfold doDup3
  refine Triple.ite (fun _ => Triple.throw fun _ h => h.2) fun hsmall => ?_
  refine Triple.ite (fun _ => Triple.throw fun _ h => h.2) fun hne => ?_
  refine Triple.ite (fun _ => Triple.throw fun _ h => h.2) fun _ => ?_
  refine getProcess_fds pid fun v task hok hfs => ?_
  have hE : ∀ w : World, w.fdView = v → w.fdView.Ok := fun w hw => by rw [hw]; exact hok
  refine Triple.pre (K := fun w => w.fdView = v) ?_ fun _ hw => hw.1
  refine Triple.bind (R := fun h w => w.fdView = v ∧ task.files.fds.get? oldfd = some h)
    (Triple.getSome (fun h w hs hw => ⟨hw, hs⟩) fun w _ hw => hE w hw) fun handle => ?_
  -- `oldfd` is still open when `newfd` has been closed
  let Ready (w : World) : Prop := w.fdView.Ok ∧ ∃ fs, w.fdView.tables pid = some fs ∧
    fs.fds.get? oldfd = some handle
  refine Triple.bind (R := fun _ => Ready) ?_ fun _ => ?_
  · refine Triple.of_pre fun w₀ h₀ => ?_
    obtain ⟨hv, hget⟩ := h₀
    refine Triple.when (fun _ => ?_) ?_
    · refine (doClose_fdView hok hfs).imp (fun w hw => hw ▸ hv) (fun _ w h =>
        ⟨h.2, task.files.closeFd newfd, ?_, ?_⟩) fun _ _ h => h
      · rw [h.1, FdView.set_tables]
      · show (task.files.fds.erase newfd).get? oldfd = some handle
        rw [OrdMap.get?_erase, if_neg hne]
        exact hget
    · intro w _ hw
      have hw' : w.fdView = v := hw ▸ hv
      exact ⟨hE w hw', _, by rw [hw']; exact hfs, hget⟩
  · refine Triple.bind (R := fun _ => Ready) ((getProcess_keeps pid).triple.errors
      fun _ _ h => h.1) fun _ => Triple.of_pre fun w₀ h₀ => ?_
    obtain ⟨hok₁, fs, hfs₁, hget⟩ := h₀
    refine Triple.bind ((modifyFiles_fdView pid _ hfs₁).pre fun w hw => by rw [hw]) fun _ =>
      Triple.bind (logCloexec_fdView _) fun _ => Triple.pure fun w hw => ?_
    rw [hw]
    exact hok₁.duplicate hfs₁ hget _

/-! ### `pipe2` -/

/-- One end of a pipe comes in a slot that no descriptor refers to. -/
theorem openPipeEnd_fresh {v : FdView} :
    Triple (World.Backed v) openPipeEndViaPipefs (fun slot w => w.Backed v ∧ ¬ v.Referred slot)
      fun _ w => w.fdView = v := by
  unfold openPipeEndViaPipefs
  refine Triple.bind (R := fun _ => World.Backed v) (Triple.gets fun _ h => h) fun endpoint => ?_
  refine Triple.ite (fun _ => Triple.throw fun _ h => h.1) fun _ => ?_
  refine Triple.bind cspaceAlloc_fresh fun slot => Triple.of_pre fun w₀ h₀ => ?_
  refine Triple.bind ((fsOpen_backed slot).pre fun w hw => hw ▸ h₀.1) fun _ => ?_
  exact Triple.pure fun _ h => ⟨h, h₀.2⟩

section Pipe

variable {v : FdView} {pid readFd writeFd readSlot writeSlot : Nat} {fs fs' : FilesState}
  {cloexec : Bool}

/-- The log with the flags of both ends of a pipe. -/
def pipeLog (log : List CloexecEvent) (pid readFd writeFd : Nat) (cloexec : Bool) :
    List CloexecEvent :=
  .set pid writeFd cloexec :: .set pid readFd cloexec :: log

/-- What the log says of the two ends, and of the other descriptors. -/
theorem keptCloexec_pipeLog (log : List CloexecEvent) (fd : Nat) :
    keptCloexec (pipeLog log pid readFd writeFd cloexec) pid fd =
      if readFd = fd ∨ writeFd = fd then cloexec else keptCloexec log pid fd := by
  rw [pipeLog, keptCloexec_set, keptCloexec_set]
  grind

/-- The view with both ends of a pipe. -/
def FdView.piped (v : FdView) (pid readFd writeFd : Nat) (cloexec : Bool)
    (fs : FilesState) : FdView :=
  { v.set pid (some fs) with log := pipeLog v.log pid readFd writeFd cloexec }

variable (hok : v.Ok) (hfs : v.tables pid = some fs)

include hok hfs

/-- The two ends of a pipe keep the view in order, in any table that sees only them and what was
there. -/
theorem FdView.Ok.piped
    (hflags : fs'.FlagsOk (keptCloexec (pipeLog v.log pid readFd writeFd cloexec) pid))
    (hsees : ∀ s n, fs'.Sees s n → fs.Sees s n ∨ (¬ v.Referred s ∧ n = 0)) :
    (v.piped pid readFd writeFd cloexec fs').Ok := by
  refine hok.fresh _ hfs (fun q hq fd => ?_) hflags hsees
  rw [pipeLog, keptCloexec_set, keptCloexec_set, if_neg fun h => hq h.1.symm,
    if_neg fun h => hq h.1.symm]

/-- The two ends of a pipe on new endpoints keep the view in order. -/
theorem FdView.Ok.addPipe (hr : ¬ v.Referred readSlot) (hw : ¬ v.Referred writeSlot) :
    (v.piped pid readFd writeFd cloexec
      (fs.addPipe readFd writeFd readSlot writeSlot cloexec)).Ok := by
  refine hok.piped hfs ((hok.flags pid fs hfs).addPipe _ _ _ _ _ (keptCloexec_pipeLog v.log))
    fun s n hs => ?_
  let fs₁ : FilesState := { fs with fds := fs.fds.insert readFd ⟨readSlot, 0, none⟩ }
  have hinsert : (fs.addPipe readFd writeFd readSlot writeSlot cloexec).fds
      = fs₁.fds.insert writeFd ⟨writeSlot, 0, none⟩ := rfl
  rcases hs.of_insert hinsert with ⟨rfl, rfl⟩ | hs₁
  · exact .inr ⟨hw, rfl⟩
  · rcases hs₁.of_insert rfl with ⟨rfl, rfl⟩ | hold
    · exact .inr ⟨hr, rfl⟩
    · exact .inl hold

/-- The numbers of a pipe can be taken back. -/
theorem removePipe_fdView (hread : fs.fds.get? readFd = none)
    (hwrite : fs.fds.get? writeFd = none) :
    Triple (fun w => w.fdView = v.piped pid readFd writeFd cloexec
        (fs.addPipe readFd writeFd readSlot writeSlot cloexec))
      (removePipe pid readFd writeFd) (fun _ w => w.fdView.Ok) fun _ w => w.fdView.Ok := by
  let pipe := fs.addPipe readFd writeFd readSlot writeSlot cloexec
  -- without the two descriptors the table is that of before
  let fs₂ : FilesState := { pipe with
    fds := (pipe.fds.erase readFd).erase writeFd
    fdCloexec := (pipe.fdCloexec.erase readFd).erase writeFd }
  let v₁ := v.piped pid readFd writeFd cloexec pipe
  have hok₂ : (v.piped pid readFd writeFd cloexec fs₂).Ok := by
    refine hok.piped hfs ((hok.flags pid fs hfs).removePipe readSlot writeSlot cloexec hread hwrite
      (keptCloexec_pipeLog v.log) rfl) fun s n hs => ?_
    obtain ⟨f, h, hget, hrest⟩ := hs
    refine .inl ⟨f, h, ?_, hrest⟩
    simp only [fs₂, pipe, FilesState.addPipe, OrdMap.get?_insert, OrdMap.get?_erase] at hget
    grind
  have hfs₁ : v₁.tables pid = some pipe := FdView.set_tables _
  have hset : v₁.set pid (some fs₂) = v.piped pid readFd writeFd cloexec fs₂ :=
    congrArg (fun u : FdView => { u with log := v₁.log }) (FdView.set_set _ _)
  unfold removePipe
  refine Triple.bind (getProcess_fdView pid hfs₁) fun task => Triple.of_pre fun w₀ h₀ => ?_
  refine Triple.bind ((modifyFiles_fdView pid _ hfs₁).pre fun w hw => hw ▸ h₀.2) fun _ => ?_
  -- the endpoints are closed last, which no descriptor is affected by
  have hclose : ∀ o : Option FileHandle, Keeps (fun w => w.fdView = v₁.set pid (some fs₂))
      (whenSome o fun h => closeEndpoint h.fsEpSlot : M Unit) :=
    fun o => Keeps.whenSome fun h => closeEndpoint_keeps h.fsEpSlot
  refine (Keeps.bind (hclose _) fun _ => hclose _).triple.imp (fun _ hw => hw) ?_ ?_
  · intro _ w hw
    rw [hw, hset]
    exact hok₂
  · intro _ w hw
    rw [hw, hset]
    exact hok₂

end Pipe

/-- The end of `do_pipe2`, with two ends that no descriptor refers to. -/
theorem installPipe_fdView {v : FdView} {readSlot writeSlot : Nat} (hok : v.Ok)
    (hr : ¬ v.Referred readSlot) (hw : ¬ v.Referred writeSlot) (pid pipefd : Nat) (cloexec : Bool) :
    Triple (fun w => w.fdView = v) (installPipe pid pipefd readSlot writeSlot cloexec)
      (fun _ w => w.fdView.Ok) fun _ w => w.fdView.Ok := by
  have hE : ∀ w : World, w.fdView = v → w.fdView.Ok := fun w h => by rw [h]; exact hok
  unfold installPipe
  refine Triple.bind ((getProcess_task (P := fun w => w.fdView = v) pid).errors
    fun _ w h => hE w h) fun task => Triple.of_pre fun w₀ h₀ => ?_
  obtain ⟨hv, htask⟩ := h₀
  have hfs : v.tables pid = some task.files := by
    rw [← hv]
    show w₀.filesOf pid = _
    rw [World.filesOf, htask]
    rfl
  -- both numbers are free in the table that is read, the second one behind the first
  refine Triple.bind (R := fun n w => w = w₀ ∧ task.files.freeFd task.files.nextFd = some n)
    (Triple.getSome (fun n w hs h => ⟨h, hs⟩) fun w _ h => hE w (h ▸ hv)) fun readFd => ?_
  refine Triple.bind (R := fun n w => (w = w₀ ∧ task.files.freeFd task.files.nextFd = some readFd) ∧
    task.files.freeFd (readFd + 1) = some n)
    (Triple.getSome (fun n w hs h => ⟨h, hs⟩) fun w _ h => hE w (h.1 ▸ hv)) fun writeFd => ?_
  refine Triple.of_pre fun w₁ h₁ => ?_
  obtain ⟨⟨rfl, hread⟩, hwrite⟩ := h₁
  let pipe := task.files.addPipe readFd writeFd readSlot writeSlot cloexec
  let v₁ := v.piped pid readFd writeFd cloexec pipe
  have hok₁ : v₁.Ok := hok.addPipe hfs hr hw
  refine Triple.bind ((modifyFiles_fdView pid _ hfs).pre fun w h => h ▸ hv) fun _ => ?_
  refine Triple.bind (logCloexec_fdView _) fun _ => Triple.bind (logCloexec_fdView _) fun _ => ?_
  refine Triple.pre (K := fun w => w.fdView = v₁) ?_ fun _ h => h
  -- without a service the pipe stays; otherwise a refused copy takes it out again
  refine Triple.ite (fun _ => Triple.throw fun w h => by rw [h]; exact hok₁) fun _ => ?_
  refine Triple.onError ((fdView_step (copyToUser_frames pid pipefd _)).post
    fun _ w h => by rw [h]; exact hok₁) fun _ => ?_
  exact removePipe_fdView hok hfs (FilesState.freeFd_some hread).1 (FilesState.freeFd_some hwrite).1

/-- `pipe2` keeps flags and positions in order. -/
theorem doPipe2_fdsOk (pid pipefd flags : Nat) : Keeps World.FdsOk (doPipe2 pid pipefd flags) := by
  -- nothing up to the ends of the pipe touches a table
  have hcreate : Keeps World.FdsOk createPipe := by
    unfold createPipe
    refine Keeps.bind (Keeps.gets _) fun endpoint => Keeps.ite (Keeps.pure _) ?_
    exact Keeps.bind (Keeps.attempt ext_keeps) fun r => by split <;> exact Keeps.pure _
  refine Keeps.fdsOk (doPipe2_filesOk pid pipefd flags) ?_
  unfold doPipe2
  refine Triple.ite (fun _ => Triple.throw fun _ h => h.2) fun _ => ?_
  refine Triple.ite (fun _ => Triple.throw fun _ h => h.2) fun _ => ?_
  refine Triple.bind (hcreate.triple.errors fun _ _ h => h.2)
    fun pipeId => Triple.ite (fun _ => Triple.throw fun _ h => h.2) fun _ => ?_
  refine Triple.of_pre fun w₀ h₀ => ?_
  let v := w₀.fdView
  have hE : ∀ w : World, w.fdView = v → w.fdView.Ok := fun w h => by rw [h]; exact h₀.2
  refine Triple.bind ((openPipeEnd_fresh (v := v)).imp (fun w h => by rw [h]; exact h₀.backed)
    (fun _ _ h => h) fun _ w h => hE w h) fun readSlot => Triple.of_pre fun w₁ h₁ => ?_
  refine Triple.bind (R := fun writeSlot w => w.Backed v ∧ ¬ v.Referred writeSlot) ?_
    fun writeSlot => Triple.of_pre ?_
  -- a second end that is refused closes the first one
  · refine Triple.onError (openPipeEnd_fresh.pre fun w h => h ▸ h₁.1) fun _ => ?_
    have hclose : Keeps (fun w => w.fdView = v) (closeEndpoint readSlot) := closeEndpoint_keeps _
    exact hclose.triple.imp (fun _ h => h) (fun _ w h => hE w h) fun _ w h => hE w h
  · intro w₂ h₂
    exact (installPipe_fdView h₀.2 h₁.2 h₂.2 pid pipefd _).pre fun w h => h ▸ h₂.1.1

/-! ### The start of `init` -/

/-- The standard descriptors of a process without descriptors keep flags and positions in order. -/
theorem openStdio_fdsOk (pid term : Nat) (w : World) (hok : w.FdsOk) (hclosed : w.Closed pid) :
    ((openStdio pid term).run w).2.FdsOk := by
  refine ⟨openStdio_filesOk pid term w hok.1 hclosed, ?_⟩
  let v := w.fdView
  have hE : ∀ w : World, w.fdView = v → w.fdView.Ok := fun w h => by rw [h]; exact hok.2
  have hmain : Triple (World.Backed v) (openStdio pid term) (fun _ w => w.fdView.Ok)
      fun _ w => w.fdView.Ok := by
    unfold openStdio
    refine Triple.bind (cspaceAlloc_fresh.errors fun _ w h => hE w h)
      fun slot => Triple.of_pre fun w₀ h₀ => ?_
    refine Triple.bind ((fsOpen_backed (v := v) slot).imp (fun w hw => hw ▸ h₀.1) (fun _ _ h => h)
      fun _ w h => hE w h) fun _ => ?_
    have htty : Frames World.fdView (modifyTask pid fun t => { t with controllingTty := term }) :=
      fun w => congrArg FdState.fdView (w.fdState_modifyTask pid
        (f := fun t => { t with controllingTty := term }) fun _ => rfl)
    refine Triple.bind (R := fun _ w => w.fdView = v) ((fdView_step htty).imp (fun _ h => h.1)
      (fun _ _ h => h) fun _ w h => hE w h) fun _ => ?_
    refine Triple.bind
      (R := fun _ w => w.fdView = v.set pid ((v.tables pid).map fun _ => stdioFiles slot))
      (Triple.modify fun w h => by
        rw [← h]
        exact w.fdView_modifyFiles pid fun _ => stdioFiles slot)
      fun _ => Triple.bind (logCloexec_fdView _) fun _ => Triple.bind (logCloexec_fdView _) fun _ =>
        Triple.bind (logCloexec_fdView _) fun _ => Triple.pure fun w h => ?_
    rw [h]
    -- three flags are logged, all of them false, and all three share one position
    refine hok.2.change (_ :: _ :: _ :: v.log) v.split ?_ ?_ ?_
    · intro q hq fd
      rw [keptCloexec_set, keptCloexec_set, keptCloexec_set, if_neg fun h => hq h.1.symm,
        if_neg fun h => hq h.1.symm, if_neg fun h => hq h.1.symm]
    · intro fs' heq
      obtain ⟨fs, -, rfl⟩ := Option.map_eq_some_iff.mp heq
      refine FilesState.FlagsOk.stdio slot fun fd hfd => ?_
      rw [keptCloexec_set, keptCloexec_set, keptCloexec_set]
      grind
    · intro hsplit
      refine (hok.2.position hsplit).extend (g := fun _ => 0) fun s n hs => ?_
      rcases hs.of_change with ⟨fs', heq, fd, h, hget, hrest⟩ | hold
      · obtain ⟨fs, -, rfl⟩ := Option.map_eq_some_iff.mp heq
        rw [(stdioFiles_get? hget).2] at hrest
        exact .inr ⟨hrest.1 ▸ h₀.2, hrest.2.symm⟩
      · exact .inl hold
  exact hmain.ends hok.backed

/-! ### Runs -/

instance : FilesKeeps World.FdsOk where
  read := doRead_fdsOk
  write := doWrite_fdsOk
  lseek := doLseek_fdsOk
  close := doClose_fdsOk
  openat := doOpenat_fdsOk
  fcntl := doFcntl_fdsOk
  dup3 := doDup3_fdsOk
  pipe2 := doPipe2_fdsOk
  openStdio := openStdio_fdsOk

/-- The view after one process was added to the table, or removed from it. -/
theorem World.fdView_tasks (w : World) (tasks : OrdMap Nat TaskStruct) (pid : Nat)
    (o : Option FilesState)
    (h : ∀ q, (tasks.get? q).map (·.files) = if q = pid then o else w.filesOf q) :
    ({ w with tasks := tasks } : World).fdView = w.fdView.set pid o :=
  congrArg (FdView.mk · w.positionSplit w.cloexecLog) (funext h)

instance : ProcessKeeps World.FdsOk where
  erase w pid h hclosed := by
    -- an erased process has no table, and the others keep theirs
    refine ⟨EraseKeeps.erase w pid h.1 hclosed, ?_⟩
    rw [w.fdView_tasks (w.tasks.erase pid) pid none fun q => by
      rw [OrdMap.get?_erase]
      split <;> rfl]
    refine h.2.change _ _ (fun _ _ _ => rfl) (fun _ heq => by cases heq) fun hsplit =>
      (h.2.position hsplit).mono fun s n hs => ?_
    rcases hs.of_change with ⟨_, heq, -⟩ | hold
    · cases heq
    · exact hold
  register w parentPid cnode h := by
    -- a process that is registered has no descriptors and no flags
    refine ⟨ProcessKeeps.register w parentPid cnode h.1, ?_⟩
    let t := seedInitialPagetablePaths w.layout (TaskStruct.new w.layout w.nextPid parentPid cnode)
    have hview : (w.registered parentPid cnode).fdView = w.fdView.set w.nextPid (some t.files) :=
      w.fdView_tasks (w.tasks.insert w.nextPid t) w.nextPid (some t.files) fun q => by
        rw [OrdMap.get?_insert]
        split <;> rfl
    rw [hview]
    have hbare : ∀ fd, t.files.fds.get? fd = none := fun _ => rfl
    refine h.2.edit _ _ (fun _ _ _ => rfl)
      (FilesState.FlagsOk.of_bare hbare (fun _ => rfl) fun _ => rfl)
      fun hsplit => (h.2.position hsplit).mono fun s n hs => ?_
    rcases hs.of_set with ⟨fd, h, hget, -⟩ | hold
    · rw [hbare fd] at hget
      cases hget
    · exact hold
  inherit w child parent pid h hfork := by
    -- the child has the table of its parent, and the log says where its flags come from
    refine ⟨ProcessKeeps.inherit w child parent pid h.1 hfork, ?_⟩
    have hfs : w.fdView.tables pid = some parent.files := hfork.files
    have hview : (w.inherited child parent pid).fdView =
        { w.fdView.set child ((w.fdView.tables child).map fun _ => parent.files) with
          log := .inherited child pid :: w.cloexecLog } := by
      have hmod : (w.modifyTask child (·.inherit parent)).fdView =
          w.fdView.set child ((w.fdView.tables child).map fun _ => parent.files) := by
        refine w.fdView_tasks _ child _ fun q => ?_
        rw [OrdMap.get?_modify]
        split
        · rename_i heq
          subst heq
          show _ = ((w.task? q).map _).map _
          rw [Option.map_map, Option.map_map]
          congr 1
          funext c
          show (TaskStruct.inherit c parent).files = parent.files
          unfold TaskStruct.inherit
          split <;> rfl
        · rfl
      exact congrArg (fun u : FdView => { u with log := .inherited child pid :: w.cloexecLog }) hmod
    rw [hview]
    refine h.2.change _ _ ?_ ?_ fun hsplit => (h.2.position hsplit).mono ?_
    · intro q hq fd
      rw [keptCloexec_inherited, if_neg hq.symm]
      rfl
    · intro fs' heq
      obtain ⟨-, -, rfl⟩ := Option.map_eq_some_iff.mp heq
      have hkept : keptCloexec (.inherited child pid :: w.cloexecLog) child =
          keptCloexec w.cloexecLog pid := by
        funext fd
        rw [keptCloexec_inherited, if_pos rfl]
      rw [hkept]
      exact h.2.flags pid _ hfs
    · intro s n hs
      rcases hs.of_change with ⟨fs', heq, hnew⟩ | hold
      · obtain ⟨-, -, rfl⟩ := Option.map_eq_some_iff.mp heq
        exact ⟨pid, _, hfs, hnew⟩
      · exact hold
  panicked _ _ h := h

/-- The invariants of descriptors hold in every run. -/
theorem Reachable.fdsOk {w : World} (h : Reachable w) : w.FdsOk := by
  refine Reachable.invariant ?_ ?_ w h
  · intro w w' path hi hr
    have hnone : ∀ pid, w.fdView.tables pid = none := by
      intro pid
      show w.filesOf pid = none
      rw [World.filesOf, World.task?, hi.noTasks]
      rfl
    have hview : w.fdView.Ok := by
      constructor
      · intro pid fs hfs
        rw [hnone] at hfs
        cases hfs
      · rintro _ slot m n ⟨pid, fs, hfs, _⟩ _
        rw [hnone] at hfs
        cases hfs
    have hinit : w.FdsOk := ⟨hi.filesOk, hview⟩
    have hboot := loadInit_keeps_blind (I := World.FdsOk) path w hinit
    rwa [hr] at hboot
  · intro w r w' _ hw hs
    rw [← hs.2]
    exact dispatch_keeps_blind r w hw

end Ape
