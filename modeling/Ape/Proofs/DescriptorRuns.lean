import Ape.Proofs.Descriptors

/-!
# `Ape.Proofs.DescriptorRuns`: descriptors over whole runs

Each call of `fs/fd.rs` keeps `FileView.Ok`. Everything else leaves the view alone or changes
the process table: a new process has no descriptors, a child gets the table of its parent, and a
process that ends has closed its descriptors.

The results about runs follow from the invariant: the endpoints of the tables are open and are
closed once, each region has one owner, and a call that opens a descriptor does not replace one.
-/

set_option autoImplicit false

namespace Ape

open Ape.Lib Cmd

/-- The invariant of descriptors, endpoints and regions at a request boundary. -/
def World.FilesOk (w : World) : Prop := w.fileView.Ok []

/-- A change of a process record that keeps the descriptors. -/
theorem World.fileView_modifyTask (w : World) (pid : Nat) {f : TaskStruct → TaskStruct}
    (hf : ∀ t, (f t).files = t.files) : (w.modifyTask pid f).fileView = w.fileView := by
  have hfiles : (fun q => (w.modifyTask pid f).filesOf q) = fun q => w.filesOf q :=
    funext fun q => w.filesOf_modifyTask pid q hf
  unfold World.fileView
  rw [hfiles]
  rfl

/-- A change of the descriptors of a process. -/
theorem World.fileView_modifyFiles (w : World) (pid : Nat) (f : FilesState → FilesState) :
    (w.modifyTask pid fun t => { t with files := f t.files }).fileView
      = w.fileView.modify pid f := by
  have hfiles : (fun q => (w.modifyTask pid fun t => { t with files := f t.files }).filesOf q)
      = fun q => if q = pid then (w.filesOf q).map f else w.filesOf q := by
    funext q
    rw [World.filesOf, World.task?, World.modifyTask, OrdMap.get?_modify]
    by_cases h : q = pid
    · rw [if_pos h, if_pos h, World.filesOf, Option.map_map, Option.map_map]
      rfl
    · rw [if_neg h, if_neg h]
      rfl
  unfold World.fileView FileView.modify
  rw [hfiles]
  rfl

instance : BlindControl World.fileView where
  tick _ _ := rfl
  slots _ _ := rfl
  trace _ _ := rfl
  signal w pid _ := w.fileView_modifyTask pid fun _ => rfl
  dropped _ _ := rfl
  missedIntr _ _ := rfl
  record w pid _ hf := w.fileView_modifyTask pid fun t => (hf t).2.2
  hostPidMap _ _ := rfl
  stale _ _ := rfl
  stopLog _ _ := rfl
  stopSkewed _ _ := rfl
  childEvents _ _ := rfl
  pendingWaits _ _ := rfl
  lifecycle _ _ := rfl
  missedWake _ _ := rfl
  waited _ _ := rfl
  leftEvents _ _ := rfl
  pendingSleeps _ _ := rfl
  requestId _ _ := rfl
  idSaturated _ _ := rfl
  sleepLog _ _ := rfl
  caller _ _ := rfl

instance : BlindMemory World.fileView where
  ledger _ _ := rfl
  vspace w pid _ := w.fileView_modifyTask pid fun _ => rfl
  tables w pid _ := w.fileView_modifyTask pid fun _ => rfl
  scratch _ _ _ := rfl
  writeFrame _ _ _ := rfl
  frames _ _ _ := rfl
  refs _ _ := rfl
  doubleFree _ _ := rfl
  mm w pid _ := w.fileView_modifyTask pid fun _ => rfl
  fileMapLog _ _ := rfl

instance : BlindControl World.FilesOk :=
  BlindControl.comp (V := World.fileView) (FileView.Ok []) inferInstance

instance : BlindMemory World.FilesOk :=
  BlindMemory.comp (V := World.fileView) (FileView.Ok []) inferInstance

/-! ### `close` -/

section Rules

variable {P : FileView → Prop} {E : Err → World → Prop}

/-- A command that leaves the view alone keeps what holds of it. -/
theorem view_step {α : Type} {c : M α} (h : Frames World.fileView c) :
    Triple (fun w => P w.fileView) c (fun _ w => P w.fileView) (fun _ w => P w.fileView) :=
  (h.keeps P).triple

/-- The view when the record of a process is read. -/
theorem getProcess_view (pid : Nat) :
    Triple (fun w => P w.fileView) (getProcess pid)
      (fun t w => P w.fileView ∧ w.fileView.files pid = some t.files) (fun _ w => P w.fileView) :=
  (getProcess_task pid).post
    fun t w h => ⟨h.1, by show w.filesOf pid = _; rw [World.filesOf, h.2]; rfl⟩

/-- A process that has descriptors is there. -/
theorem getProcess_live {P : World → Prop} (pid : Nat) (fs : FilesState) :
    Triple (fun w => P w ∧ w.filesOf pid = some fs) (getProcess pid)
      (fun t w => t.files = fs ∧ P w ∧ w.filesOf pid = some fs) E := by
  intro w hw
  obtain ⟨t, ht, rfl⟩ := Option.map_eq_some_iff.mp hw.2
  have hrun : (getProcess pid).run w = (.ok t, w) := by
    rw [getProcess, run_gets_bind, ht]
    rfl
  rw [hrun]
  refine ⟨fun t' ht' => ?_, fun e he => by cases he⟩
  cases ht'
  exact ⟨rfl, hw⟩

/-- A log of the flags leaves the view alone. -/
theorem logCloexec_view (e : CloexecEvent) {v : FileView} :
    Triple (fun w => w.fileView = v) (logCloexec e) (fun _ w => w.fileView = v) E :=
  Triple.modify fun _ h => h

/-- A change of the table of a process that is there. -/
theorem modifyFiles_view (pid : Nat) (f : FilesState → FilesState) {fs : FilesState} {v : FileView}
    (hfs : v.files pid = some fs) :
    Triple (fun w => w.fileView = v) (modifyFiles pid f)
      (fun _ w => w.fileView = v.set pid (some (f fs))) E :=
  Triple.modify fun w hw => by
    rw [World.fileView_modifyFiles, hw, FileView.modify_eq_set, hfs]
    rfl

end Rules

/-- The scan of `do_close` finds a descriptor exactly when there is one. -/
theorem World.endpointShared_iff (w : World) (slot : Nat) :
    w.endpointShared slot = true ↔ w.fileView.Refers slot := by
  unfold World.endpointShared
  simp only [List.any_eq_true, OrdMap.mem_values, decide_eq_true_eq]
  constructor
  · rintro ⟨t, ⟨pid, ht⟩, h, ⟨fd, hfd⟩, hslot⟩
    exact ⟨pid, t.files, by show (w.task? pid).map _ = _; rw [World.task?, ht]; rfl, fd,
      h, hfd, hslot⟩
  · rintro ⟨pid, fs, hfs, fd, h, hfd, hslot⟩
    obtain ⟨t, ht, rfl⟩ := Option.map_eq_some_iff.mp hfs
    exact ⟨t, ⟨pid, ht⟩, h, ⟨fd, hfd⟩, hslot⟩

section Close

variable {hand : List Nat}

/-- To close an endpoint cannot fail. -/
theorem closeEndpoint_total (slot : Nat) : Total (closeEndpoint slot) :=
  Total.bind (Total.ignore _) fun _ => Total.bind (Total.modify _) fun _ =>
    Total.bind (Total.modify _) fun _ => Total.when (Total.modify _)

/-- The end of an endpoint. -/
theorem closeEndpoint_view (slot : Nat) {v : FileView} {E : Err → World → Prop} :
    Triple (fun w => w.fileView = v) (closeEndpoint slot)
      (fun _ w => w.fileView = v.closed slot) E := by
  have hframe : Frames World.fileView (ignore (do let _ ← ext) : M Unit) := by simp
  refine (closeEndpoint_total slot).triple (E := fun _ _ => True) ?_
  have hstep : ∀ {α : Type} {c : M α} (u : FileView), Frames World.fileView c →
      Triple (fun w => w.fileView = u) c (fun _ w => w.fileView = u) (fun _ _ => True) :=
    fun u h => (view_step (P := (· = u)) h).errors fun _ _ _ => trivial
  refine Triple.bind (hstep v hframe) fun _ => ?_
  refine Triple.bind (R := fun _ w => w.fileView = v.closed slot)
    (Triple.modify fun w h => by rw [← h]; rfl) fun _ => ?_
  exact Triple.bind (hstep _ (by simp)) fun _ => hstep _ (by simp)

/-- A region in hand goes back to the pool. -/
theorem recycleRegion_ok (id : Nat) {E : Err → World → Prop} :
    Triple (fun w => w.fileView.Ok (id :: hand)) (recycleRegion id)
      (fun _ w => w.fileView.Ok hand) E := by
  refine Triple.modify fun w h => ?_
  have hback : ({ w.fileView with asyncFree :=
      if id < w.asyncRegions.length ∧ id ∉ w.asyncFree then w.asyncFree ++ [id]
      else w.asyncFree } : FileView).Ok hand := h.giveBack
  split
  · rename_i hc
    rwa [if_pos hc] at hback
  · rename_i hc
    rwa [if_neg hc] at hback

/-- A region that is given back too early ends what is known of the pool. -/
theorem recycleClosed_early (io : AsyncIoState) {E : Err → World → Prop} :
    Triple (fun w => ({ w.fileView with earlyRecycle := true } : FileView).Ok [])
      (recycleClosed io true) (fun _ w => w.fileView.Ok []) E := by
  refine Triple.bind (R := fun _ w => w.fileView.Ok [] ∧ w.earlyRecycle = true)
    (Triple.modify ?_) fun _ => Triple.modify ?_
  · intro w h
    simp only [Bool.or_true]
    exact ⟨h, trivial⟩
  · intro w h
    obtain ⟨hok, hearly⟩ := h
    split
    · have hearly' := hok.early [] (w.asyncFree ++ [io.regionId])
      rw [← hearly] at hearly'
      exact hearly'
    · exact hok

/-- The region of a closed handle goes back to the pool. -/
theorem recycleClosed_ok (io : AsyncIoState) {E : Err → World → Prop} :
    Triple (fun w => w.fileView.Ok [io.regionId]) (recycleClosed io false)
      (fun _ w => w.fileView.Ok []) E := by
  refine Triple.bind (R := fun _ w => w.fileView.Ok [io.regionId]) (Triple.modify fun w h => ?_)
    fun _ => recycleRegion_ok _
  simp only [Bool.or_false]
  exact h

end Close

/-- What `do_close` does when the descriptor is out of the table. -/
theorem afterClose_ok {v : FileView} {pid fd : Nat} {fs : FilesState} {handle : FileHandle}
    (hok : v.Ok []) (hfs : v.files pid = some fs) (hget : fs.fds.get? fd = some handle) :
    Triple (fun w => w.fileView = v.set pid (some (fs.closeFd fd))) (do
      let shared ← gets (·.endpointShared handle.fsEpSlot)
      when (¬ shared) (closeEndpoint handle.fsEpSlot)
      whenSome handle.asyncIo fun io => recycleClosed io shared : M Unit)
      (fun _ w => w.fileView.Ok []) (fun _ w => w.fileView.Ok []) := by
  let v₁ := v.set pid (some (fs.closeFd fd))
  have hopen : handle.fsEpSlot ∈ v₁.openEndpoints :=
    hok.opened _ ⟨pid, fs, hfs, fd, handle, hget, rfl⟩
  refine Triple.bind (R := fun shared w => w.fileView = v₁ ∧
    (shared = true ↔ v₁.Refers handle.fsEpSlot))
    (Triple.gets fun w hw => ⟨hw, by rw [World.endpointShared_iff, hw]⟩) fun shared => ?_
  cases hshared : shared with
  | true =>
    -- the endpoint stays open
    refine Triple.bind (R := fun _ w => w.fileView = v₁) (Triple.when (fun h => absurd rfl h)
      fun w _ h => h.1) fun _ => Triple.whenSome ?_ ?_
    · intro io _
      exact (recycleClosed_early io).pre fun w hw => by rw [hw]; exact hok.remove_early hfs fd
    · intro w hnone hw
      rw [hw]
      refine hok.remove_none hfs fun h hh => ?_
      rw [hget] at hh
      cases hh
      exact hnone
  | false =>
    refine Triple.bind (R := fun _ w => w.fileView.Ok (FileView.handOf handle.asyncIo))
      ?_ fun _ => ?_
    · refine Triple.when (fun _ => Triple.of_pre fun w₀ h₀ => ?_) fun w hn => absurd (by simp) hn
      obtain ⟨hv, hiff⟩ := h₀
      have hlast : ¬ v₁.Refers handle.fsEpSlot := fun h => absurd (hiff.mpr h) (by simp)
      have hrest : v₁.Ok (FileView.handOf handle.asyncIo) := by
        cases hio : handle.asyncIo with
        | none =>
          refine hok.remove_none hfs fun h hh => ?_
          rw [hget] at hh
          cases hh
          exact hio
        | some io => exact hok.remove_last hfs hget hio hlast
      refine (closeEndpoint_view _ (v := v₁)).imp (fun w hw => by rw [hw, hv]) (fun _ w hw => ?_)
        fun _ _ h => h
      rw [hw]
      exact hrest.closeEndpoint hopen hlast
    · refine Triple.whenSome ?_ ?_
      · intro io hio
        exact (recycleClosed_ok io).pre fun w hw => by rw [hio] at hw; exact hw
      · intro w hnone hw
        rw [hnone] at hw
        exact hw

/-- A command that starts with the record of a process keeps the invariant, when the rest does
so from the view that the record is read in. -/
theorem getProcess_filesOk {α : Type} (pid : Nat) {k : TaskStruct → M α}
    (hk : ∀ (v : FileView) (task : TaskStruct), v.Ok [] → v.files pid = some task.files →
      Triple (fun w => w.fileView = v) (k task) (fun _ => World.FilesOk) fun _ => World.FilesOk) :
    Keeps World.FilesOk (getProcess pid >>= k) := by
  refine Triple.keeps (Triple.of_pre fun w₀ hok => ?_)
  refine Triple.pre (K := fun w => w.fileView = w₀.fileView) ?_ fun w hw => by rw [hw]
  refine Triple.bind ((getProcess_view (P := (· = w₀.fileView)) pid).imp (fun _ h => h)
    (fun t w h => (⟨h.1, h.1 ▸ h.2⟩ : w.fileView = w₀.fileView ∧
      w₀.fileView.files pid = some t.files))
    fun _ w h => by rw [World.FilesOk, h]; exact hok) fun task => ?_
  exact fun w h => hk w₀.fileView task hok h.2 w h.1

/-- `close` keeps handles, endpoints and regions in order. -/
theorem doClose_filesOk (pid fd : Nat) : Keeps World.FilesOk (doClose pid fd) := by
  unfold doClose
  refine Keeps.ite (Keeps.throw _) (getProcess_filesOk pid fun v task hok hfs => ?_)
  refine Triple.bind (modifyFiles_view pid _ hfs) fun _ => ?_
  cases hget : task.files.fds.get? fd with
  | none =>
    refine Triple.bind (R := fun _ _ => False) (Triple.throw fun w hw => ?_) fun _ w h => h.elim
    rw [World.FilesOk, hw]
    exact hok.remove_none hfs fun h hh => by rw [hget] at hh; cases hh
  | some handle => exact afterClose_ok hok hfs hget

/-! ### `read` and `write` -/

/-- A call that takes a handle out of the table puts it back for the same endpoint. -/
theorem withFdHandleMut_filesOk {α : Type} (pid fd : Nat) {f : H α}
    (hview : Frames (fun s : World × FileHandle => s.1.fileView) f)
    (hslot : Frames (fun s : World × FileHandle => s.2.fsEpSlot) f)
    (hio : Frames (fun s : World × FileHandle => s.2.asyncIo) f) :
    Keeps World.FilesOk (withFdHandleMut pid fd f) := by
  unfold withFdHandleMut
  refine Keeps.ite (Keeps.throw _) (getProcess_filesOk pid fun v task hok hfs => ?_)
  have hE : ∀ w : World, w.fileView = v → w.FilesOk :=
    fun w hw => by rw [World.FilesOk, hw]; exact hok
  refine Triple.bind (R := fun h w => w.fileView = v ∧ task.files.fds.get? fd = some h)
    (Triple.getSome (fun h w hs hw => ⟨hw, hs⟩) fun w _ hw => hE w hw) fun handle => ?_
  refine Triple.of_pre fun w₀ h₀ => ?_
  obtain ⟨hv, hget⟩ := h₀
  -- the handle is out of the table while the body works on it
  let v₁ := v.set pid (some (task.files.removeFd fd))
  refine Triple.bind ((modifyFiles_view pid (·.removeFd fd) hfs).pre fun w hw => by rw [hw, hv])
    fun _ => ?_
  refine Triple.bind (R := fun r w => w.fileView = v₁ ∧ r.2.fsEpSlot = handle.fsEpSlot ∧
    r.2.asyncIo = handle.asyncIo) ?_ ?_
  -- the body changes neither the endpoint nor the region of the handle
  · have hrun : Keeps (fun s : World × FileHandle => s.1.fileView = v₁ ∧
        s.2.fsEpSlot = handle.fsEpSlot ∧ s.2.asyncIo = handle.asyncIo) f := by
      intro s hs
      exact ⟨(hview s).trans hs.1, (hslot s).trans hs.2.1, (hio s).trans hs.2.2⟩
    refine Triple.runWith (hrun.triple.pre fun s hs => ?_) (fun _ _ _ h => h) fun _ _ _ h => h
    exact ⟨hs.1, by rw [hs.2], by rw [hs.2]⟩
  · intro r
    refine Triple.of_pre fun w₁ h₁ => ?_
    obtain ⟨hv₁, hsl, has⟩ := h₁
    have hfs₁ : v₁.files pid = some (task.files.removeFd fd) := FileView.set_files _
    refine Triple.bind ((modifyFiles_view pid (·.insertFd fd r.2) hfs₁).pre fun w hw => by
      rw [hw, hv₁]) fun _ => Triple.pre (Keeps.ofExcept _).triple fun w hw => ?_
    -- put back, the table differs from the first one at most in the offset of this handle
    have hnew : ∀ f, ((task.files.removeFd fd).insertFd fd r.2).fds.get? f =
        if f = fd then some r.2 else task.files.fds.get? f := by
      intro f
      show ((task.files.fds.erase fd).insert fd r.2).get? f = _
      rw [OrdMap.get?_insert]
      split
      · rfl
      · rename_i hne
        rw [OrdMap.get?_erase, if_neg hne]
    rw [World.FilesOk, hw, FileView.set_set]
    exact hok.edit hfs ((hok.fds pid _ hfs).offset hget hnew rfl)
      (fun s hs => hok.opened s ⟨pid, _, hfs, hs.offset hget hnew hsl⟩)
      (FilesState.heldBy_offset hget hnew hsl has)

/-- A call on a handle changes nothing of it but the offset. -/
theorem withFdHandleMut_moves_filesOk {α : Type} (pid fd : Nat) {f : H α}
    (h : ∀ K : World × FileHandle → Prop, (∀ {β : Type} (c : M β), Frames World.fileView c →
      Keeps K (inFst c)) → (∀ n s, K s → K (moveTo n s)) → Keeps K f) :
    Keeps World.FilesOk (withFdHandleMut pid fd f) := by
  refine withFdHandleMut_filesOk pid fd (Frames.of_keeps ?_) (Frames.of_keeps ?_)
    (Frames.of_keeps ?_)
  · intro v
    exact h _ (fun c hc => Keeps.inFst (hc.keeps (· = v))) fun n s hs => hs
  · intro v
    exact h _ (fun c _ s hs => hs) fun n s hs => hs
  · intro v
    exact h _ (fun c _ s hs => hs) fun n s hs => hs

/-- `read` keeps handles, endpoints and regions in order. -/
theorem doRead_filesOk (pid fd bufPtr len : Nat) : Keeps World.FilesOk (doRead pid fd bufPtr len) :=
  Keeps.ite (Keeps.pure _) (withFdHandleMut_moves_filesOk pid fd fun _ hin hmove =>
    readLoop_keeps_of (fun _ s => hmove _ s) (fun _ _ _ => hin _ (by simp [fsRead]))
      (fun _ _ => hin _ (copyToUser_frames _ _ _)) _ _)

/-- `write` keeps handles, endpoints and regions in order. -/
theorem doWrite_filesOk (pid fd bufPtr len : Nat) :
    Keeps World.FilesOk (doWrite pid fd bufPtr len) :=
  Keeps.ite (Keeps.pure _) (withFdHandleMut_moves_filesOk pid fd fun _ hin hmove =>
    writeLoop_keeps_of (fun _ s => hmove _ s) (fun _ _ _ => hin _ (by simp [fsWrite]))
      (fun _ _ => hin _ (copyFromUser_frames _ _ _)) _ _)

/-- `lseek` keeps handles, endpoints and regions in order. -/
theorem doLseek_filesOk (pid fd : Nat) (offset : Int) (whence : Nat) :
    Keeps World.FilesOk (doLseek pid fd offset whence) :=
  withFdHandleMut_moves_filesOk pid fd fun _ hin hmove =>
    seekHandle_keeps_of hmove (hin _ ext_frames) _ _

/-! ### `openat` -/

/-- A new slot holds no open endpoint. -/
theorem cspaceAlloc_view {P : FileView → Prop} :
    Triple (fun w => P w.fileView) cspaceAlloc
      (fun slot w => P w.fileView ∧ slot ∉ w.openEndpoints) (fun _ w => P w.fileView) := by
  unfold cspaceAlloc
  refine Triple.bind (view_step ext_frames) fun a => ?_
  refine Triple.bind (R := fun free w => P w.fileView ∧ free = decide (w.SlotFree a.val))
    (Triple.gets fun w h => ⟨h, rfl⟩) fun free => ?_
  refine Triple.ite (fun hfree => ?_) fun _ => refuse_triple fun w h => h.1
  subst hfree
  refine Triple.bind (R := fun _ w => P w.fileView ∧ a.val ∉ w.openEndpoints)
    (Triple.modify fun w h => ⟨h.1, ?_⟩) fun _ => Triple.pure fun w h => h
  obtain ⟨-, -, -, hnot⟩ := of_decide_eq_true h.2.symm
  exact hnot

/-- A refused `open` leaves the view alone. -/
theorem fsOpen_view {P : FileView → Prop} (slot : Nat) :
    Triple (fun w => P w.fileView) (onError (fsOpen slot) fun _ => cspaceFree slot)
      (fun _ w => ∃ v : FileView, P v ∧
        w.fileView = { v with openEndpoints := insert slot v.openEndpoints })
      (fun _ w => P w.fileView) := by
  refine Triple.onError (F := fun _ w => P w.fileView) ?_ fun _ => view_step (by simp)
  exact Triple.bind (view_step ext_frames) fun _ => Triple.modify fun w h => ⟨w.fileView, h, rfl⟩

section Regions

/-- The regions `hand` are in hand, and `S` holds of the endpoints and the tables. -/
def Opening (S : Finset Nat → (Nat → Option FilesState) → Prop) (hand : List Nat) (w : World) :
    Prop :=
  w.fileView.Ok hand ∧ S w.fileView.openEndpoints w.fileView.files

variable {S : Finset Nat → (Nat → Option FilesState) → Prop} {hand : List Nat}
  {E : Err → World → Prop}

/-- A command that leaves the view alone. -/
theorem opening_step {α : Type} {c : M α} (h : Frames World.fileView c) :
    Triple (Opening S hand) c (fun _ => Opening S hand)
      (fun _ => Opening S hand) :=
  view_step (P := fun v => v.Ok hand ∧ S v.openEndpoints v.files) h

/-- A region from the pool is in hand afterwards. -/
theorem tryReuseRegion_opening :
    Triple (Opening S []) tryReuseRegion
      (fun r => Opening S (r.toList.map (·.id))) E := by
  unfold tryReuseRegion
  refine Triple.bind (R := fun free w => Opening S [] w ∧ free = w.asyncFree)
    (Triple.gets fun w h => ⟨h, rfl⟩) fun free => ?_
  cases hlast : free.getLast? with
  | none => exact Triple.pure fun w h => h.1
  | some id =>
    have hfree : free = free.dropLast ++ [id] := (List.dropLast_append_getLast? id hlast).symm
    refine Triple.bind (R := fun _ => Opening S [id]) (Triple.modify ?_) fun _ => Triple.gets ?_
    · intro w h
      exact ⟨h.1.1.take (h.2 ▸ hfree), h.1.2⟩
    · intro w h
      refine ⟨h.1.reown fun ho => ?_, h.2⟩
      cases hget : w.asyncRegions[id]? with
      | none =>
        -- an id of the pool is the id of a region
        have hlt : id < w.asyncRegions.length := (ho.pooled id (by simp)).1
        rw [List.getElem?_eq_getElem hlt] at hget
        cases hget
      | some r =>
        have hid : r.id = id := ho.ids id r hget
        simpa [hid] using ho

/-- A new region is in hand, or none was made. -/
theorem newAsyncRegion_opening (size : Nat) :
    Triple (Opening S []) (newAsyncRegion size) (fun r => Opening S [r.id])
      (fun _ => Opening S []) := by
  have hreserve : Frames World.fileView (reserveAsyncVaddr size) :=
    Frames.bind (Frames.gets _) fun vaddr => Frames.bind (Frames.getSome _ _) fun next =>
      Frames.bind (fun _ => rfl) fun _ => Frames.pure _
  unfold newAsyncRegion
  refine Triple.bind (opening_step (by simp)) fun frame => Triple.bind (opening_step hreserve)
    fun vaddr => Triple.bind (opening_step (by simp)) fun _ => ?_
  refine Triple.bind (R := fun id w => Opening S [] w ∧ id = w.asyncRegions.length)
    (Triple.gets fun w h => ⟨h, rfl⟩) fun id => ?_
  refine Triple.bind (R := fun _ => Opening S [id]) (Triple.modify fun w h => ?_)
    fun _ => Triple.pure fun w h => h
  exact ⟨h.1.1.newRegion (r := ⟨id, frame, vaddr, size⟩) h.2, h.1.2⟩

/-- A region is in hand, from the pool or new, or none is. -/
theorem allocateFsAsyncRegion_opening (size : Nat) :
    Triple (Opening S []) (allocateFsAsyncRegion size)
      (fun r => Opening S [r.id]) (fun _ => Opening S []) := by
  unfold allocateFsAsyncRegion
  refine Triple.bind tryReuseRegion_opening fun reused => ?_
  cases reused with
  | some region => exact Triple.pure fun w h => h
  | none =>
    refine Triple.bind (opening_step (Frames.gets _)) fun count => ?_
    exact Triple.ite (fun _ => Triple.throw fun w h => h) fun _ => newAsyncRegion_opening _

/-- A refused region goes back to the pool. -/
theorem recycleRegion_opening (id : Nat) :
    Triple (Opening S [id]) (recycleRegion id) (fun _ => Opening S []) E := by
  refine fun w h => ⟨fun _ _ => ⟨(recycleRegion_ok (E := E) id w h.1).1 () rfl, ?_⟩,
    fun e he => by cases he⟩
  show S ((recycleRegion id).run w).2.fileView.openEndpoints
    ((recycleRegion id).run w).2.fileView.files
  simp only [recycleRegion, run_modify]
  split <;> exact h.2

/-- A ring keeps its region in hand. -/
theorem setupIouring_opening (region : AsyncIoRegion) :
    Triple (Opening S [region.id]) (setupIouring region)
      (fun io => Opening S (FileView.handOf io)) E := by
  have hback : Triple (Opening S [region.id])
      (do recycleRegion region.id; pure none : M (Option AsyncIoState))
      (fun io => Opening S (FileView.handOf io)) E :=
    Triple.bind (recycleRegion_opening region.id) fun _ => Triple.pure fun w h => h
  have hmark : ∀ b, Triple (Opening S [region.id])
      (Cmd.modify fun w => { w with iouringSupported := b } : M Unit)
      (fun _ => Opening S [region.id]) E := fun b => Triple.modify fun w h => h
  unfold setupIouring
  refine Triple.bind (R := fun _ => Opening S [region.id])
    (Triple.attempt (opening_step ext_frames)) fun r => ?_
  split
  · refine Triple.bind (hmark _) fun _ =>
      Triple.ite (fun _ => Triple.pure fun w h => h) fun _ => hback
  · exact Triple.bind (hmark _) fun _ => hback
  · exact hback

/-- The asynchronous side of a new handle has its region in hand. -/
theorem openAsyncIo_opening :
    Triple (Opening S []) openAsyncIo
      (fun io => Opening S (FileView.handOf io)) E := by
  unfold openAsyncIo
  refine Triple.bind (R := fun _ => Opening S []) (Triple.gets fun w h => h) fun wanted => ?_
  refine Triple.ite (fun _ => Triple.pure fun w h => h) fun _ => ?_
  refine Triple.bind (R := Triple.onOutcome (fun region => Opening S [region.id])
    fun _ => Opening S []) ?_ fun r => ?_
  · exact Triple.attempt (allocateFsAsyncRegion_opening _)
  · cases r with
    | ok region => exact setupIouring_opening region
    | error e => exact Triple.pure fun w h => h

end Regions

/-- A file is opened at `next_fd`. -/
theorem openViaNexusFs_filesOk (pid : Nat) (path : String) (flags : Nat) (fs : FilesState) :
    Triple (fun w => w.FilesOk ∧ w.filesOf pid = some fs) (openViaNexusFs pid path flags)
      (fun _ => World.FilesOk) fun _ => World.FilesOk := by
  unfold openViaNexusFs
  have hE : ∀ w : World, w.fileView.Ok [] ∧ w.fileView.files pid = some fs → w.FilesOk :=
    fun w h => h.1
  refine Triple.bind ((cspaceAlloc_view (P := fun v => v.Ok [] ∧ v.files pid = some fs)).errors
    fun _ w h => hE w h) fun slot => ?_
  refine Triple.bind (((fsOpen_view (P := fun v => v.Ok [] ∧ v.files pid = some fs) slot).imp
    (fun _ h => h.1) (fun _ _ h => h) fun _ w h => hE w h)) fun _ => ?_
  -- the endpoint is open before a descriptor refers to it
  let S (e : Finset Nat) (files : Nat → Option FilesState) : Prop := slot ∈ e ∧ files pid = some fs
  refine Triple.bind (openAsyncIo_opening.pre (K := Opening S []) ?_) ?_
  · intro w h
    obtain ⟨v, hv, hw⟩ := h
    refine ⟨hw ▸ hv.1.openEndpoint slot, ?_⟩
    rw [hw]
    exact ⟨Finset.mem_insert_self _ _, hv.2⟩
  intro asyncIo
  refine Triple.bind ((getProcess_live (P := fun w => w.fileView.Ok (FileView.handOf asyncIo) ∧
    slot ∈ w.openEndpoints) pid fs).pre fun w h => ⟨⟨h.1, h.2.1⟩, h.2.2⟩) fun task => ?_
  refine Triple.of_pre fun w₀ h₀ => ?_
  obtain ⟨rfl, ⟨hok, hopen⟩, hfs⟩ := h₀
  refine Triple.bind (R := fun _ w => w.fileView = { w₀.fileView with
    fdOverflow := w₀.fdOverflow || decide (2 ^ 32 ≤ task.files.nextFd + 1) })
    (Triple.modify fun w hw => by rw [hw]; rfl) fun _ => ?_
  refine Triple.bind (modifyFiles_view pid _ hfs) fun _ =>
    Triple.bind (logCloexec_view _) fun _ => Triple.pure fun w hw => ?_
  -- the new descriptor is stored last, with the number that the table gives
  rw [World.FilesOk, hw]
  exact hok.store hfs hopen path

/-- `openat` keeps handles, endpoints and regions in order. -/
theorem doOpenat_filesOk (pid pathname flags : Nat) :
    Keeps World.FilesOk (doOpenat pid pathname flags) := by
  unfold doOpenat
  refine Keeps.bind (UserKeeps.readString _ _ _) fun raw => ?_
  refine getProcess_filesOk pid fun v task hok hfs => ?_
  refine Triple.bind (R := fun _ w => w.fileView = v) (Triple.gets fun w h => h) fun resolve => ?_
  refine (openViaNexusFs_filesOk pid _ flags task.files).pre fun w hw => ?_
  refine ⟨by rw [World.FilesOk, hw]; exact hok, ?_⟩
  have : w.fileView.files pid = some task.files := by rw [hw]; exact hfs
  exact this

/-! ### `fcntl`, `dup` and `dup3` -/

/-- A descriptor that is not open becomes one more name of an open file. -/
theorem FileView.Ok.duplicate {v : FileView} {pid oldFd newFd : Nat} {fs : FilesState}
    {h : FileHandle} (hok : v.Ok []) (hfs : v.files pid = some fs)
    (hopen : h.fsEpSlot ∈ v.openEndpoints)
    (hnone : fs.fds.get? newFd = none) (hlt : newFd < 2 ^ 32) (cloexec : Bool) :
    (v.set pid (some (fs.duplicate oldFd newFd (duplicateNormalHandle h) cloexec))).Ok [] :=
  hok.add hfs rfl hnone hlt rfl rfl hopen

/-- A duplicated handle keeps handles, endpoints and regions in order. -/
theorem dupFd_filesOk (pid fd arg : Nat) (cloexec : Bool) :
    Keeps World.FilesOk (dupFd pid fd arg cloexec) := by
  refine getProcess_filesOk pid fun v task hok hfs => ?_
  have hE : ∀ w : World, w.fileView = v → w.FilesOk :=
    fun w hw => by rw [World.FilesOk, hw]; exact hok
  refine Triple.bind (R := fun h w => w.fileView = v ∧ task.files.fds.get? fd = some h)
    (Triple.getSome (fun h w hs hw => ⟨hw, hs⟩) fun w _ hw => hE w hw) fun handle => ?_
  refine Triple.ite (fun _ => Triple.throw fun w h => hE w h.1) fun harg => ?_
  refine Triple.bind (R := fun n w => (w.fileView = v ∧ task.files.fds.get? fd = some handle) ∧
    task.files.freeFd arg = some n) (Triple.getSome (fun n w hs hw => ⟨hw, hs⟩)
      fun w _ hw => hE w hw.1) fun newFd => ?_
  refine Triple.of_pre fun w₀ h₀ => ?_
  obtain ⟨⟨hv, hget⟩, hfree⟩ := h₀
  obtain ⟨hnone, -, hlt⟩ := FilesState.freeFd_some hfree
  refine Triple.bind ((modifyFiles_view pid _ hfs).pre fun w hw => by rw [hw, hv]) fun _ =>
    Triple.bind (logCloexec_view _) fun _ => Triple.pure fun w hw => ?_
  rw [World.FilesOk, hw]
  exact hok.duplicate hfs (hok.opened _ ⟨pid, _, hfs, fd, handle, hget, rfl⟩) hnone hlt cloexec

/-- `fcntl` keeps handles, endpoints and regions in order. -/
theorem doFcntl_filesOk (pid fd cmd arg : Nat) : Keeps World.FilesOk (doFcntl pid fd cmd arg) := by
  unfold doFcntl
  refine Keeps.ite (by simp) (Keeps.ite (by simp) (Keeps.ite (dupFd_filesOk _ _ _ _)
    (Keeps.ite (by simp) ?_)))
  refine getProcess_filesOk pid fun v task hok hfs => ?_
  have hE : ∀ w : World, w.fileView = v → w.FilesOk :=
    fun w hw => by rw [World.FilesOk, hw]; exact hok
  refine Triple.bind (R := fun _ w => w.fileView = v)
    (Triple.getSome (fun h w _ hw => hw) fun w _ hw => hE w hw) fun _ => ?_
  refine Triple.ite (fun _ => Triple.pure fun w hw => hE w hw) fun _ => ?_
  refine Triple.ite (fun _ => ?_) fun _ => Triple.pure fun w hw => hE w hw
  refine Triple.bind (modifyFiles_view pid _ hfs) fun _ =>
    Triple.bind (logCloexec_view _) fun _ => Triple.pure fun w hw => ?_
  rw [World.FilesOk, hw]
  exact hok.same hfs (fun _ => rfl) (le_refl _) (hok.fds pid _ hfs).next

/-- `close` takes the descriptor out of the tables of its process. -/
theorem doClose_closes (pid fd : Nat) (fs : FilesState) :
    Triple (fun w => w.filesOf pid = some fs) (doClose pid fd)
      (fun _ w => w.filesOf pid = some (fs.closeFd fd)) (fun _ _ => True) := by
  unfold doClose
  refine Triple.ite (fun _ => Triple.throw fun _ _ => trivial) fun _ => ?_
  refine Triple.bind ((getProcess_live (P := fun _ => True) pid fs).pre
    fun w h => ⟨trivial, h⟩) fun task => ?_
  refine Triple.bind (R := fun _ w => w.filesOf pid = some (fs.closeFd fd))
    (Triple.modify ?_) fun _ => ?_
  · intro w h
    have hview := congrArg (·.files pid) (w.fileView_modifyFiles pid (·.closeFd fd))
    refine hview.trans ?_
    have hold : w.fileView.files pid = some fs := h.2.2
    rw [FileView.modify_eq_set, FileView.set_files, hold]
    rfl
  · have hE : ∀ {α : Type} {c : M α}, Keeps (fun w => w.filesOf pid = some (fs.closeFd fd)) c →
        Triple (fun w => w.filesOf pid = some (fs.closeFd fd)) c
          (fun _ w => w.filesOf pid = some (fs.closeFd fd)) (fun _ _ => True) :=
      fun h => h.triple.errors fun _ _ _ => trivial
    exact Triple.bind (hE (Keeps.getSome _ _)) fun handle => hE (afterClose_keeps handle)

/-- `close` removes the descriptor and nothing else of its process. -/
theorem doClose_files (pid fd : Nat) {fs : FilesState} :
    Triple (fun w => w.FilesOk ∧ w.filesOf pid = some fs) (doClose pid fd)
      (fun _ w => w.FilesOk ∧ w.filesOf pid = some (fs.closeFd fd)) (fun _ => World.FilesOk) :=
  ((doClose_filesOk pid fd).triple.and (doClose_closes pid fd fs)).errors fun _ _ h => h.1

/-- The table that `do_dup3` writes into: `newfd` is closed and `oldfd` is not. -/
def Dup3Ready (pid oldfd newfd : Nat) (handle : FileHandle) (w : World) : Prop :=
  w.FilesOk ∧ ∃ fs, w.filesOf pid = some fs ∧ fs.fds.get? newfd = none ∧
    fs.fds.get? oldfd = some handle

/-- `dup3` keeps handles, endpoints and regions in order. -/
theorem doDup3_filesOk (pid oldfd newfd flags : Nat) :
    Keeps World.FilesOk (doDup3 pid oldfd newfd flags) := by
  unfold doDup3
  refine Triple.keeps (Triple.ite (fun _ => Triple.throw fun w h => h) fun hsmall => ?_)
  refine Triple.ite (fun _ => Triple.throw fun w h => h) fun hne => ?_
  refine Triple.ite (fun _ => Triple.throw fun w h => h) fun _ => Keeps.triple ?_
  refine getProcess_filesOk pid fun v task hok hfs => ?_
  have hlt : newfd < 2 ^ 32 := by omega
  -- an error before the close leaves the descriptors as they were
  have hfilesOk : ∀ w : World, w.fileView = v → w.FilesOk ∧ w.filesOf pid = some task.files :=
    fun w hw => ⟨by rw [World.FilesOk, hw]; exact hok,
      show w.fileView.files pid = some task.files by rw [hw]; exact hfs⟩
  refine Triple.bind (R := fun h w => w.fileView = v ∧ task.files.fds.get? oldfd = some h)
    (Triple.getSome (fun h w hs hw => ⟨hw, hs⟩) fun w _ hw => (hfilesOk w hw).1) fun handle => ?_
  refine Triple.bind (R := fun _ => Dup3Ready pid oldfd newfd handle) ?_ fun _ => ?_
  · refine Triple.of_pre fun w₀ h₀ => ?_
    obtain ⟨hv, hget⟩ := h₀
    -- the target descriptor is closed if it is open, and the source is another one
    refine Triple.when (fun _ => ?_) ?_
    · refine (doClose_files pid newfd).imp (fun w hw => hfilesOk w (hw ▸ hv)) (fun _ w h => ?_)
        fun _ _ h => h
      refine ⟨h.1, _, h.2, OrdMap.get?_erase_self _ _, ?_⟩
      show (task.files.fds.erase newfd).get? oldfd = some handle
      rw [OrdMap.get?_erase, if_neg hne]
      exact hget
    · intro w hnot hw
      have h₁ := hfilesOk w (hw ▸ hv)
      exact ⟨h₁.1, _, h₁.2, by simpa [OrdMap.contains] using hnot, hget⟩
  · refine Triple.bind (R := fun _ => Dup3Ready pid oldfd newfd handle) ?_ fun _ => ?_
    · exact ((getProcess_keeps pid).triple).errors fun _ _ h => h.1
    · refine Triple.of_pre fun w₀ h₀ => ?_
      obtain ⟨hok₁, fs, hfs₁, hnone, hget⟩ := h₀
      refine Triple.bind ((modifyFiles_view pid _ (v := w₀.fileView) hfs₁).pre
        fun w hw => by rw [hw])
        fun _ => Triple.bind (logCloexec_view _) fun _ => Triple.pure fun w hw => ?_
      -- the copy refers to an endpoint that is open, under a number that is free
      rw [World.FilesOk, hw]
      exact FileView.Ok.duplicate hok₁ hfs₁
        (hok₁.opened _ ⟨pid, fs, hfs₁, oldfd, handle, hget, rfl⟩)
        hnone hlt _

/-! ### `pipe2` -/

/-- One end of a pipe: an open endpoint that no descriptor has. -/
def FileView.Spare (v : FileView) (slot : Nat) : Prop :=
  slot ∈ v.openEndpoints ∧ ¬ v.Refers slot

/-- The end of a pipe is opened on an endpoint that no handle has yet, or nothing is left of it. -/
theorem openPipeEnd_spare {P : FileView → Prop} (hP : ∀ v, P v → v.Ok []) :
    Triple (fun w => P w.fileView) openPipeEndViaPipefs
      (fun slot w => ∃ v : FileView, P v ∧ slot ∉ v.openEndpoints ∧
        w.fileView = { v with openEndpoints := insert slot v.openEndpoints } ∧
        w.fileView.Spare slot)
      (fun _ w => P w.fileView) := by
  unfold openPipeEndViaPipefs
  refine Triple.bind (view_step (Frames.gets _)) fun endpoint => ?_
  refine Triple.ite (fun _ => Triple.throw fun w h => h) fun _ => ?_
  refine Triple.bind cspaceAlloc_view fun slot => ?_
  refine Triple.bind ((fsOpen_view (P := fun v => P v ∧ slot ∉ v.openEndpoints) slot).errors
    fun _ _ h => h.1) fun _ => Triple.pure fun w h => ?_
  obtain ⟨v, ⟨hv, hnot⟩, hw⟩ := h
  refine ⟨v, hv, hnot, hw, ?_, ?_⟩
  · rw [hw]
    exact Finset.mem_insert_self _ _
  · rw [hw]
    exact fun hr => hnot ((hP v hv).opened slot hr)

/-- The table with both ends of a pipe. -/
theorem FileView.Ok.addPipe {v : FileView} {pid readFd writeFd readSlot writeSlot : Nat}
    {fs : FilesState} (hok : v.Ok []) (hfs : v.files pid = some fs)
    (hread : fs.freeFd fs.nextFd = some readFd) (hwrite : fs.freeFd (readFd + 1) = some writeFd)
    (hr : readSlot ∈ v.openEndpoints) (hw : writeSlot ∈ v.openEndpoints) (cloexec : Bool) :
    (v.set pid (some (fs.addPipe readFd writeFd readSlot writeSlot cloexec))).Ok [] := by
  obtain ⟨hrnone, hrle, hrlt⟩ := FilesState.freeFd_some hread
  obtain ⟨hwnone, hwle, hwlt⟩ := FilesState.freeFd_some hwrite
  -- the two handles are stored one after the other
  let fs₁ : FilesState := { fs with
    fds := fs.fds.insert readFd ⟨readSlot, 0, none⟩, nextFd := fs.raisedNextFd readFd }
  have hok₁ : (v.set pid (some fs₁)).Ok [] := hok.add hfs rfl hrnone hrlt rfl rfl hr
  have hnone₁ : fs₁.fds.get? writeFd = none := by
    show (fs.fds.insert readFd _).get? writeFd = none
    rw [OrdMap.get?_insert, if_neg (by omega)]
    exact hwnone
  have hnext : (fs.addPipe readFd writeFd readSlot writeSlot cloexec).nextFd =
      fs₁.raisedNextFd writeFd := by
    show min (writeFd + 1) (2 ^ 32 - 1) =
      if fs.raisedNextFd readFd ≤ writeFd then min (writeFd + 1) (2 ^ 32 - 1)
      else fs.raisedNextFd readFd
    have : fs.raisedNextFd readFd ≤ writeFd := by
      unfold FilesState.raisedNextFd
      split <;> omega
    rw [if_pos this]
  have hfds : (fs.addPipe readFd writeFd readSlot writeSlot cloexec).fds =
      fs₁.fds.insert writeFd ⟨writeSlot, 0, none⟩ := rfl
  have hok₂ := hok₁.add (FileView.set_files _) hfds hnone₁ hwlt hnext rfl hw
  rwa [FileView.set_set] at hok₂

/-- The table from which the two ends of a pipe were taken out again. -/
def FilesState.removePipe (fs : FilesState) (readFd writeFd : Nat) : FilesState :=
  { fs with
    fds := (fs.fds.erase readFd).erase writeFd
    fdCloexec := (fs.fdCloexec.erase readFd).erase writeFd }

/-- The ends of a pipe leave the table as they came. -/
theorem FilesState.removePipe_fds {fs : FilesState} {readFd writeFd readSlot writeSlot : Nat}
    {cloexec : Bool} (hread : fs.fds.get? readFd = none) (hwrite : fs.fds.get? writeFd = none) :
    ((fs.addPipe readFd writeFd readSlot writeSlot cloexec).removePipe readFd writeFd).fds =
      fs.fds :=
  OrdMap.erase_erase_insert_insert _ _ _ hread hwrite

/-- What the cleanup of `do_pipe2` does. -/
theorem removePipe_view {v : FileView} {pid readFd writeFd readSlot writeSlot : Nat}
    {fs : FilesState} {cloexec : Bool} {E : Err → World → Prop} (hlt : readFd < writeFd) :
    Triple (fun w => w.fileView =
        v.set pid (some (fs.addPipe readFd writeFd readSlot writeSlot cloexec)))
      (removePipe pid readFd writeFd)
      (fun _ w => w.fileView = ((v.set pid (some
        ((fs.addPipe readFd writeFd readSlot writeSlot cloexec).removePipe readFd writeFd))).closed
          readSlot).closed writeSlot) E := by
  let fs₁ := fs.addPipe readFd writeFd readSlot writeSlot cloexec
  have hread₁ : fs₁.fds.get? readFd = some ⟨readSlot, 0, none⟩ := by
    show ((fs.fds.insert readFd _).insert writeFd _).get? readFd = _
    rw [OrdMap.get?_insert, if_neg (by omega), OrdMap.get?_insert_self]
  have hwrite₁ : fs₁.fds.get? writeFd = some ⟨writeSlot, 0, none⟩ := OrdMap.get?_insert_self _ _ _
  unfold Ape.removePipe
  have hlive := getProcess_live (P := fun w => w.fileView = v.set pid (some fs₁)) (E := E) pid fs₁
  refine Triple.bind (hlive.pre fun w hw => ⟨hw, show w.fileView.files pid = some fs₁ by
    rw [hw, FileView.set_files]⟩) fun task => Triple.of_pre fun w₀ h₀ => ?_
  obtain ⟨htask, hv, -⟩ := h₀
  refine Triple.bind (R := fun _ w =>
    w.fileView = v.set pid (some (fs₁.removePipe readFd writeFd))) ?_ fun _ => ?_
  · refine (modifyFiles_view pid _ (v := v.set pid (some fs₁)) (FileView.set_files _)).imp
      (fun w hw => by rw [hw, hv]) (fun _ w hw => ?_) fun _ _ h => h
    rw [hw, FileView.set_set]
    rfl
  · rw [htask, hread₁, hwrite₁]
    exact Triple.bind (closeEndpoint_view readSlot) fun _ => closeEndpoint_view writeSlot

/-- The numbers of a pipe can be taken back. -/
theorem removePipe_filesOk {v : FileView} {pid readFd writeFd readSlot writeSlot : Nat}
    {fs : FilesState} {cloexec : Bool} (hok : v.Ok []) (hfs : v.files pid = some fs)
    (hread : fs.freeFd fs.nextFd = some readFd) (hwrite : fs.freeFd (readFd + 1) = some writeFd)
    (hr : v.Spare readSlot) (hw : v.Spare writeSlot) (hne : readSlot ≠ writeSlot) :
    Triple (fun w => w.fileView =
        v.set pid (some (fs.addPipe readFd writeFd readSlot writeSlot cloexec)))
      (removePipe pid readFd writeFd) (fun _ => World.FilesOk) (fun _ => World.FilesOk) := by
  obtain ⟨hrnone, hrle, hrlt⟩ := FilesState.freeFd_some hread
  obtain ⟨hwnone, hwle, hwlt⟩ := FilesState.freeFd_some hwrite
  let fs₂ := (fs.addPipe readFd writeFd readSlot writeSlot cloexec).removePipe readFd writeFd
  let v₂ := v.set pid (some fs₂)
  -- the two numbers were free before, so the table has its old entries again
  have hsame : ∀ f, fs₂.fds.get? f = fs.fds.get? f := by
    intro f
    rw [FilesState.removePipe_fds hrnone hwnone]
  have hok₂ : v₂.Ok [] :=
    hok.same hfs hsame (show fs.nextFd ≤ min (writeFd + 1) (2 ^ 32 - 1) by omega)
      (show min (writeFd + 1) (2 ^ 32 - 1) < 2 ^ 32 by omega)
  have hrefers : ∀ slot, v₂.Refers slot → v.Refers slot := by
    intro slot hslot
    rcases FileView.exists_set.mp hslot with ⟨fs', heq, fd, h, hget, hs⟩ | ⟨q, fs', -, hq, hrest⟩
    · cases heq
      exact ⟨pid, fs, hfs, fd, h, hsame fd ▸ hget, hs⟩
    · exact ⟨q, fs', hq, hrest⟩
  refine (removePipe_view (by omega)).post fun _ w hend => ?_
  have hok₃ := hok₂.closeEndpoint hr.1 fun h => hr.2 (hrefers _ h)
  rw [World.FilesOk, hend]
  exact hok₃.closeEndpoint (Finset.mem_erase.mpr ⟨hne.symm, hw.1⟩) fun h => hw.2 (hrefers _ h)

/-- The end of `do_pipe2`, with two ends that no descriptor has. -/
theorem installPipe_filesOk (pid pipefd readSlot writeSlot : Nat) (cloexec : Bool) :
    Triple (fun w => w.FilesOk ∧ w.fileView.Spare readSlot ∧ w.fileView.Spare writeSlot ∧
        readSlot ≠ writeSlot)
      (installPipe pid pipefd readSlot writeSlot cloexec) (fun _ => World.FilesOk)
      (fun _ => World.FilesOk) := by
  unfold installPipe
  refine Triple.of_pre fun w₀ h₀ => ?_
  obtain ⟨hok, hr, hw, hne⟩ := h₀
  have hE : ∀ w : World, w.fileView = w₀.fileView → w.FilesOk := by
    intro w h
    rw [World.FilesOk, h]
    exact hok
  refine Triple.bind ((getProcess_view (P := (· = w₀.fileView)) pid).imp (fun w h => by rw [h])
    (fun _ _ h => h) fun _ w h => hE w h) fun task => ?_
  refine Triple.of_pre fun w₁ h₁ => ?_
  obtain ⟨hv, hfs⟩ := h₁
  rw [hv] at hfs
  refine Triple.bind (R := fun n w => w = w₁ ∧ task.files.freeFd task.files.nextFd = some n)
    (Triple.getSome (fun n w hs h => ⟨h, hs⟩) fun w _ h => hE w (h ▸ hv)) fun readFd => ?_
  refine Triple.bind (R := fun n w => (w = w₁ ∧ task.files.freeFd task.files.nextFd = some readFd) ∧
    task.files.freeFd (readFd + 1) = some n)
    (Triple.getSome (fun n w hs h => ⟨h, hs⟩) fun w _ h => hE w (h.1 ▸ hv)) fun writeFd => ?_
  refine Triple.of_pre fun w₂ h₂ => ?_
  obtain ⟨⟨rfl, hread⟩, hwrite⟩ := h₂
  have hok₁ := FileView.Ok.addPipe hok hfs hread hwrite hr.1 hw.1 cloexec
  refine Triple.bind ((modifyFiles_view pid _ hfs).pre fun w h => by rw [h, hv]) fun _ => ?_
  refine Triple.bind (logCloexec_view _) fun _ => Triple.bind (logCloexec_view _) fun _ => ?_
  refine Triple.ite (fun _ => Triple.throw ?_) fun _ => ?_
  · intro w h
    rw [World.FilesOk, h]
    exact hok₁
  · let v₁ := w₀.fileView.set pid
      (some (task.files.addPipe readFd writeFd readSlot writeSlot cloexec))
    refine Triple.onError ((view_step (P := (· = v₁)) (copyToUser_frames pid pipefd _)).post
        fun _ w h => ?_) fun _ =>
        removePipe_filesOk hok hfs hread hwrite hr hw hne
    rw [World.FilesOk, h]
    exact hok₁

/-- `pipe2` keeps handles, endpoints and regions in order. -/
theorem doPipe2_filesOk (pid pipefd flags : Nat) :
    Keeps World.FilesOk (doPipe2 pid pipefd flags) := by
  have hcreate : Frames World.fileView createPipe := by
    unfold createPipe
    refine Frames.bind (Frames.gets _) fun endpoint => Frames.ite (by simp) ?_
    exact Frames.bind (by simp) fun r => by split <;> simp
  unfold doPipe2
  refine Keeps.ite (by simp) (Keeps.ite (by simp) ?_)
  refine Keeps.bind (hcreate.keeps (FileView.Ok [])) fun pipeId =>
    Keeps.ite (by simp) (Triple.keeps ?_)
  refine Triple.bind (openPipeEnd_spare (P := FileView.Ok []) fun _ h => h) fun readSlot => ?_
  -- the second end is opened beside the first, which stays spare
  let P (v : FileView) : Prop := v.Ok [] ∧ v.Spare readSlot
  refine Triple.bind (R := fun writeSlot w => w.FilesOk ∧ w.fileView.Spare readSlot ∧
    w.fileView.Spare writeSlot ∧ readSlot ≠ writeSlot) ?_ fun writeSlot =>
      installPipe_filesOk _ _ _ _ _
  refine Triple.onError ((openPipeEnd_spare (P := P) fun _ h => h.1).imp ?_
    ?_ fun _ _ h => h) fun _ => Triple.of_pre ?_
  · intro w h
    obtain ⟨v, hv, -, hw, hspare⟩ := h
    exact ⟨hw ▸ hv.openEndpoint readSlot, hspare⟩
  · intro writeSlot w h
    obtain ⟨v, ⟨hok, hopen, hfree⟩, hnot, hw, hspare⟩ := h
    refine ⟨?_, ⟨?_, ?_⟩, hspare, fun heq => hnot (heq ▸ hopen)⟩
    · rw [World.FilesOk, hw]
      exact hok.openEndpoint writeSlot
    · rw [hw]
      exact Finset.mem_insert_of_mem hopen
    · rw [hw]
      exact hfree
  · intro w₀ h₀
    refine (closeEndpoint_view readSlot).imp (fun w h => by rw [h]) (fun _ w h => ?_) fun _ _ h => h
    rw [World.FilesOk, h]
    exact h₀.1.closeEndpoint h₀.2.1 h₀.2.2

/-! ### The start of `init` -/

/-- The process has no descriptor. -/
def FileView.Bare (v : FileView) (pid : Nat) : Prop :=
  ∀ fs, v.files pid = some fs → ∀ fd, fs.fds.get? fd = none

/-- A process that has closed its descriptors has none. -/
theorem World.FilesOk.bare {w : World} {pid : Nat} (hok : w.FilesOk) (hclosed : w.Closed pid) :
    w.fileView.Bare pid := by
  intro fs hfs fd
  cases hget : fs.fds.get? fd with
  | none => rfl
  | some h =>
    have hlt := (hok.fds pid fs hfs).bound fd h hget
    have hmem := hclosed fs hfs fd hlt (by rw [hget]; exact Option.some_ne_none h)
    cases hmem

/-- The table of the standard descriptors. -/
def stdioFiles (slot : Nat) : FilesState where
  fds := [0, 1, 2].foldl (fun m fd => m.insert fd ⟨slot, 0, none⟩) OrdMap.empty
  fdPaths := [0, 1, 2].foldl (fun m fd => m.insert fd "/dev/tty") OrdMap.empty
  fdCloexec := OrdMap.empty
  nextFd := 3

/-- The standard descriptors are three names of one file. -/
theorem stdioFiles_get? {slot fd : Nat} {h : FileHandle}
    (hget : (stdioFiles slot).fds.get? fd = some h) : fd < 3 ∧ h = ⟨slot, 0, none⟩ := by
  have hfds : (stdioFiles slot).fds =
      ((OrdMap.empty.insert 0 ⟨slot, 0, none⟩).insert 1 ⟨slot, 0, none⟩).insert 2 ⟨slot, 0, none⟩ :=
    rfl
  rw [hfds, OrdMap.get?_insert, OrdMap.get?_insert, OrdMap.get?_insert] at hget
  split at hget
  · cases hget
    exact ⟨by omega, rfl⟩
  split at hget
  · cases hget
    exact ⟨by omega, rfl⟩
  split at hget
  · cases hget
    exact ⟨by omega, rfl⟩
  · cases hget

/-- The standard descriptors of a process that had none. -/
theorem FileView.Ok.stdio {v : FileView} {pid slot : Nat} (hok : v.Ok []) (hbare : v.Bare pid)
    (hopen : slot ∈ v.openEndpoints) : (v.modify pid fun _ => stdioFiles slot).Ok [] := by
  rw [FileView.modify_eq_set]
  cases hfs : v.files pid with
  | none =>
    have hsame : v.set pid none = v := by
      unfold FileView.set
      congr 1
      funext q
      by_cases h : q = pid
      · rw [if_pos h, h, hfs]
      · rw [if_neg h]
    rw [Option.map_none, hsame]
    exact hok
  | some fs =>
    refine hok.edit hfs ⟨show 3 < 2 ^ 32 by decide, ?_, fun _ fd h hget => .inl ?_⟩
      ?_ fun id s => ⟨?_, ?_⟩
    · intro fd h hget
      have := (stdioFiles_get? hget).1
      omega
    · exact (stdioFiles_get? hget).1
    · intro s hs
      obtain ⟨fd, h, hget, rfl⟩ := hs
      rw [(stdioFiles_get? hget).2]
      exact hopen
    · intro hh
      obtain ⟨fd, h, io, hget, hio, -⟩ := hh
      rw [(stdioFiles_get? hget).2] at hio
      cases hio
    · intro hh
      obtain ⟨fd, h, io, hget, -⟩ := hh
      rw [hbare fs hfs fd] at hget
      cases hget

/-- The standard descriptors of a process without descriptors keep handles, endpoints and regions in
order. -/
theorem openStdio_filesOk (pid term : Nat) (w : World) (hok : w.FilesOk) (hclosed : w.Closed pid) :
    ((openStdio pid term).run w).2.FilesOk := by
  -- the process has no descriptors yet, so the standard ones are all of them
  let P (v : FileView) : Prop := v.Ok [] ∧ v.Bare pid
  have hmain : Triple (fun w => P w.fileView) (openStdio pid term) (fun _ => World.FilesOk)
      (fun _ => World.FilesOk) := by
    unfold openStdio
    refine Triple.bind (cspaceAlloc_view.errors fun _ w h => h.1)
      fun slot => ?_
    refine Triple.bind ((fsOpen_view slot).imp (fun w h => h.1) (fun _ _ h => h) fun _ w h => h.1)
      fun _ => ?_
    let Q (v : FileView) : Prop := P v ∧ slot ∈ v.openEndpoints
    have htty : Frames World.fileView (modifyTask pid fun t => { t with controllingTty := term }) :=
      fun w => w.fileView_modifyTask pid fun _ => rfl
    refine Triple.bind (R := fun _ w => Q w.fileView) ?_ fun _ =>
      Triple.bind (R := fun _ => World.FilesOk) (Triple.modify ?_) fun _ => ?_
    · refine (view_step (P := Q) htty).imp (fun w h => ?_) (fun _ _ h => h) fun _ w h => h.1.1
      obtain ⟨v, ⟨hv, hbare⟩, hw⟩ := h
      rw [hw]
      exact ⟨⟨hv.openEndpoint slot, hbare⟩, Finset.mem_insert_self _ _⟩
    · intro w h
      have hview := w.fileView_modifyFiles pid fun _ => stdioFiles slot
      show (World.fileView _).Ok []
      exact (congrArg (FileView.Ok []) hview).mpr (h.1.1.stdio h.1.2 h.2)
    · exact (Keeps.forEach fun fd w h => h).triple
  obtain ⟨h1, h2⟩ := hmain w ⟨hok, hok.bare hclosed⟩
  cases hr : ((openStdio pid term).run w).1 with
  | ok a => exact h1 a hr
  | error e => exact h2 e hr

/-! ### Runs -/

instance : FilesKeeps World.FilesOk where
  read := doRead_filesOk
  write := doWrite_filesOk
  lseek := doLseek_filesOk
  close := doClose_filesOk
  openat := doOpenat_filesOk
  fcntl := doFcntl_filesOk
  dup3 := doDup3_filesOk
  pipe2 := doPipe2_filesOk
  openStdio := openStdio_filesOk

/-- A change of the process table that adds or removes only tables without descriptors. -/
theorem FileView.Ok.setBare {v : FileView} {pid : Nat} {o : Option FilesState} {next : Nat}
    (hok : v.Ok []) (hbare : v.Bare pid) (hle : v.nextPid ≤ next)
    (hnew : ∀ fs, o = some fs → pid < next ∧ fs.FdsOk v.fdOverflow ∧ ∀ fd, fs.fds.get? fd = none) :
    ({ v.set pid o with nextPid := next } : FileView).Ok [] := by
  -- no descriptor of the table, so it neither refers to an endpoint nor holds a region
  have hnone : ∀ {fs : FilesState}, (∀ fd, fs.fds.get? fd = none) →
      (∀ slot, ¬ fs.Refers slot) ∧ ∀ id slot, ¬ fs.HeldBy id slot := by
    intro fs hfs
    refine ⟨fun slot ⟨fd, h, hget, _⟩ => ?_, fun id slot ⟨fd, h, io, hget, _⟩ => ?_⟩ <;>
      · rw [hfs] at hget
        cases hget
  have hheld : ∀ id slot, (v.set pid o).HeldBy id slot ↔ v.HeldBy id slot := by
    intro id slot
    constructor
    · intro hh
      rcases FileView.exists_set.mp hh with ⟨fs, ho, hh'⟩ | ⟨q, fs, -, hq, hh'⟩
      · exact absurd hh' ((hnone (hnew fs ho).2.2).2 id slot)
      · exact ⟨q, fs, hq, hh'⟩
    · rintro ⟨q, fs, hq, hh⟩
      by_cases heq : q = pid
      · subst heq
        exact absurd hh ((hnone (hbare fs hq)).2 id slot)
      · exact FileView.exists_set.mpr (.inr ⟨q, fs, heq, hq, hh⟩)
  refine ⟨?_, hok.noDoubleClose, ?_, ?_, fun h1 h2 => (hok.owned h1 h2).congr rfl rfl hheld⟩
  -- the new record is the only one whose number is new
  · intro q fs hq
    by_cases heq : q = pid
    · exact heq ▸ (hnew fs (by simpa [FileView.set, heq] using hq)).1
    · exact lt_of_lt_of_le (hok.pids q fs (by simpa [FileView.set, heq] using hq)) hle
  · intro slot hs
    rcases FileView.exists_set.mp hs with ⟨fs, ho, hh⟩ | ⟨q, fs, -, hq, hh⟩
    · exact absurd hh ((hnone (hnew fs ho).2.2).1 slot)
    · exact hok.opened slot ⟨q, fs, hq, hh⟩
  · intro q fs hq
    by_cases heq : q = pid
    · exact (hnew fs (by simpa [FileView.set, heq] using hq)).2.1
    · exact hok.fds q fs (by simpa [FileView.set, heq] using hq)

/-- A child that had no descriptors gets the table of a process. -/
theorem FileView.Ok.inherit {v : FileView} {child pid : Nat} {fs : FilesState} (hok : v.Ok [])
    (hbare : v.Bare child) (hfs : v.files pid = some fs) :
    (v.modify child fun _ => fs).Ok [] := by
  -- a descriptor of the child is one of its parent
  have hfiles : ∀ q fs', (v.modify child fun _ => fs).files q = some fs' →
      v.files q ≠ none ∧ (fs' = fs ∨ v.files q = some fs') := by
    intro q fs' hq
    by_cases heq : q = child
    · rw [FileView.modify] at hq
      simp only [if_pos heq] at hq
      obtain ⟨fs₁, hfs₁, rfl⟩ := Option.map_eq_some_iff.mp hq
      exact ⟨by rw [hfs₁]; exact Option.some_ne_none _, .inl rfl⟩
    · rw [FileView.modify] at hq
      simp only [if_neg heq] at hq
      exact ⟨by rw [hq]; exact Option.some_ne_none _, .inr hq⟩
  have hsource : ∀ {P : FilesState → Prop},
      (∃ q fs', (v.modify child fun _ => fs).files q = some fs' ∧ P fs') →
        ∃ q fs', v.files q = some fs' ∧ P fs' := by
    rintro P ⟨q, fs', hq, hP⟩
    rcases (hfiles q fs' hq).2 with rfl | hold
    · exact ⟨pid, _, hfs, hP⟩
    · exact ⟨q, fs', hold, hP⟩
  have hheld : ∀ id slot, (v.modify child fun _ => fs).HeldBy id slot ↔ v.HeldBy id slot := by
    refine fun id slot => ⟨hsource, ?_⟩
    rintro ⟨q, fs', hq, hh⟩
    by_cases heq : q = child
    · subst heq
      obtain ⟨fd, h, io, hget, -⟩ := hh
      rw [hbare fs' hq fd] at hget
      cases hget
    · exact ⟨q, fs', by simp only [FileView.modify, if_neg heq]; exact hq, hh⟩
  refine ⟨?_, hok.noDoubleClose, fun slot hs => hok.opened slot (hsource hs),
    ?_, fun h1 h2 => (hok.owned h1 h2).congr rfl rfl hheld⟩
  · intro q fs' hq
    obtain ⟨fs₁, hfs₁⟩ := Option.ne_none_iff_exists'.mp (hfiles q fs' hq).1
    exact hok.pids q fs₁ hfs₁
  · intro q fs' hq
    rcases (hfiles q fs' hq).2 with rfl | hold
    · exact hok.fds pid _ hfs
    · exact hok.fds q fs' hold

/-- The view after one process was added to the table, or removed from it. -/
theorem World.fileView_tasks (w : World) (tasks : OrdMap Nat TaskStruct) (next pid : Nat)
    (o : Option FilesState)
    (h : ∀ q, (tasks.get? q).map (·.files) = if q = pid then o else w.filesOf q) :
    ({ w with tasks := tasks, nextPid := next } : World).fileView =
      { w.fileView.set pid o with nextPid := next } := by
  have hfiles : (fun q => ({ w with tasks := tasks, nextPid := next } : World).filesOf q) =
      (w.fileView.set pid o).files := funext h
  unfold World.fileView
  rw [hfiles]
  rfl

instance : ProcessKeeps World.FilesOk where
  erase w pid h hclosed := by
    have hview := w.fileView_tasks (w.tasks.erase pid) w.nextPid pid none fun q => by
        rw [OrdMap.get?_erase]
        split
        · rfl
        · rfl
    have hok : ({ w with tasks := w.tasks.erase pid, nextPid := w.nextPid } : World).FilesOk := by
      rw [World.FilesOk, hview]
      exact h.setBare (h.bare hclosed) (le_refl _) fun fs hfs => by cases hfs
    exact hok
  -- a process that is registered starts without descriptors
  register w parentPid cnode h := by
    let t := seedInitialPagetablePaths w.layout (TaskStruct.new w.layout w.nextPid parentPid cnode)
    have hview := w.fileView_tasks (w.tasks.insert w.nextPid t) (w.nextPid + 1) w.nextPid
      (some t.files) fun q => by
        rw [OrdMap.get?_insert]
        split
        · rfl
        · rfl
    have hbare : w.fileView.Bare w.nextPid := fun fs hfs => absurd (h.pids _ fs hfs) (lt_irrefl _)
    rw [World.FilesOk, World.registered, hview]
    refine h.setBare hbare (Nat.le_succ _) fun fs hfs => ?_
    cases hfs
    refine ⟨Nat.lt_succ_self _, ⟨?_, fun fd h hget => ?_, fun _ fd h hget => ?_⟩, fun _ => rfl⟩
    · show 0 < 2 ^ 32
      decide
    · cases hget
    · cases hget
  -- `fork` hands the table on, and what it refers to was open for the parent
  inherit w child parent pid h hfork := by
    have hfs : w.fileView.files pid = some parent.files := hfork.files
    have hview : (w.modifyTask child (·.inherit parent)).fileView =
        w.fileView.modify child fun _ => parent.files := by
      rw [← w.fileView_modifyFiles child fun _ => parent.files]
      unfold World.fileView
      congr 1
      funext q
      rw [World.filesOf, World.filesOf, World.task?, World.task?, World.modifyTask,
        World.modifyTask, OrdMap.get?_modify, OrdMap.get?_modify]
      split
      · rw [Option.map_map, Option.map_map]
        congr 1
        funext c
        show (TaskStruct.inherit c parent).files = parent.files
        unfold TaskStruct.inherit
        split <;> rfl
      · rfl
    change (w.modifyTask child (·.inherit parent)).FilesOk
    rw [World.FilesOk, hview]
    exact h.inherit (h.bare hfork.2.fresh.1) hfs
  panicked _ _ h := h

/-- Before `load_init` there is no descriptor. -/
theorem World.Initial.filesOk {w : World} (hi : w.Initial) : w.FilesOk := by
  have hnone : ∀ pid, w.filesOf pid = none := by
    intro pid
    rw [World.filesOf, World.task?, hi.noTasks]
    rfl
  -- without a process every clause is about nothing
  refine ⟨?_, hi.noDoubleClose, ?_, ?_, fun _ _ => ?_⟩
  · intro pid fs hfs
    exact absurd ((hnone pid).symm.trans hfs) (by simp)
  · rintro slot ⟨pid, fs, hfs, _⟩
    exact absurd ((hnone pid).symm.trans hfs) (by simp)
  · intro pid fs hfs
    exact absurd ((hnone pid).symm.trans hfs) (by simp)
  · have hheld : ∀ id slot, ¬ w.fileView.HeldBy id slot := fun id slot ⟨pid, fs, hfs, _⟩ =>
      absurd ((hnone pid).symm.trans hfs) (by simp)
    have hregions : w.fileView.asyncRegions = [] := hi.noRegions.1
    have hfree : w.fileView.asyncFree = [] := hi.noRegions.2
    refine ⟨by simp [hfree], ?_, ?_, ?_, fun id s s' hs => absurd hs (hheld _ _), ?_⟩
    · intro id r hr
      rw [hregions] at hr
      cases hr
    · intro id hid
      rw [hfree] at hid
      cases hid
    · intro id slot hs
      exact absurd hs (hheld _ _)
    · intro id hid
      rw [hregions] at hid
      cases hid

/-- In every reachable state handles, endpoints and regions are in order. -/
theorem Reachable.filesOk {w : World} (h : Reachable w) : w.FilesOk := by
  refine Reachable.invariant ?_ ?_ w h
  · intro w w' path hi hr
    have hboot := loadInit_keeps_blind (I := World.FilesOk) path w hi.filesOk
    rwa [hr] at hboot
  · intro w r w' _ hw hs
    rw [← hs.2]
    exact dispatch_keeps_blind r w hw

end Ape
