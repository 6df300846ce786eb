import Ape.Proofs.Endpoints
import Ape.Proofs.OpenFiles

/-!
# `Ape.Proofs.PipeUndo`: what a `pipe2` that fails leaves behind

`do_pipe2` opens both ends of a new pipe and then looks for two descriptors. Each of its error
paths has a cleanup of its own: a second end that does not open closes the first, and a copy-out
that fails takes both out of the table and closes them. The search for the descriptors and the
conversion of the numbers to `i32` have none.

`openPipeEnds` is the part of the call up to the search. `failed_pipe2_undone_iff` proves that a
failed call leaves no end behind exactly when the ends were not opened, or when there are two
numbers below `2 ^ 31` from `next_fd` on.
-/

set_option autoImplicit false

namespace Ape

open Ape.Lib Cmd

/-! ### The two parts of the call -/

/-- The part of `do_pipe2` that opens the two ends. -/
def openPipeEnds : M (Nat × Nat) := do
  let pipeId ← createPipe
  if pipeId = 0 then throw .notFound
  else do
    let readSlot ← openPipeEndViaPipefs
    let writeSlot ← onError openPipeEndViaPipefs fun _ => closeEndpoint readSlot
    pure (readSlot, writeSlot)

/-- The arguments that `do_pipe2` refuses. -/
def RefusedPipe2 (pipefd flags : Nat) : Prop :=
  pipefd = 0 ∨ 2 ^ 32 ≤ flags ∨ flags ||| PIPE2_ALLOWED_FLAGS ≠ PIPE2_ALLOWED_FLAGS

/-- There are two numbers for the ends of a pipe, and both fit in an `i32`. -/
def FilesState.HasPipeFds (fs : FilesState) : Prop :=
  ∃ readFd writeFd, fs.freeFd fs.nextFd = some readFd ∧ fs.freeFd (readFd + 1) = some writeFd ∧
    writeFd < 2 ^ 31

/-- `do_pipe2` opens the ends and installs them. -/
theorem doPipe2_run {pid pipefd flags : Nat} (h : ¬ RefusedPipe2 pipefd flags) (w : World) :
    (doPipe2 pid pipefd flags).run w = (openPipeEnds >>= fun ends =>
      installPipe pid pipefd ends.1 ends.2 (flags &&& O_CLOEXEC != 0)).run w := by
  obtain ⟨hptr, hflags⟩ := not_or.mp h
  unfold doPipe2
  rw [if_neg hptr, if_neg hflags]
  -- the two sides fail at the same step, or take the same slots
  rcases hpipe : createPipe.run w with ⟨e | pipeId, w₁⟩
  · have hends : openPipeEnds.run w = (.error e, w₁) := run_bind_error hpipe
    rw [run_bind_error hpipe, run_bind_error hends]
  rw [run_bind_ok hpipe]
  by_cases hzero : pipeId = 0
  · have hends : openPipeEnds.run w = (.error .notFound, w₁) := by
      unfold openPipeEnds
      rw [run_bind_ok hpipe, if_pos hzero]
      rfl
    rw [if_pos hzero, run_bind_error hends]
    rfl
  rw [if_neg hzero]
  rcases hread : openPipeEndViaPipefs.run w₁ with ⟨e | readSlot, w₂⟩
  · have hends : openPipeEnds.run w = (.error e, w₂) := by
      unfold openPipeEnds
      rw [run_bind_ok hpipe, if_neg hzero, run_bind_error hread]
    rw [run_bind_error hread, run_bind_error hends]
  rw [run_bind_ok hread]
  rcases hwrite : (onError openPipeEndViaPipefs fun _ => closeEndpoint readSlot).run w₂ with
    ⟨e | writeSlot, w₃⟩
  · have hends : openPipeEnds.run w = (.error e, w₃) := by
      unfold openPipeEnds
      rw [run_bind_ok hpipe, if_neg hzero, run_bind_ok hread, run_bind_error hwrite]
    rw [run_bind_error hwrite, run_bind_error hends]
  · have hends : openPipeEnds.run w = (.ok (readSlot, writeSlot), w₃) := by
      unfold openPipeEnds
      rw [run_bind_ok hpipe, if_neg hzero, run_bind_ok hread, run_bind_ok hwrite]
      rfl
    rw [run_bind_ok hwrite, run_bind_ok hends]

/-- Refused arguments change nothing. -/
theorem doPipe2_refused {pid pipefd flags : Nat} (h : RefusedPipe2 pipefd flags) (w : World) :
    ∃ e, (doPipe2 pid pipefd flags).run w = (.error e, w) := by
  unfold doPipe2
  by_cases hptr : pipefd = 0
  · exact ⟨.invalidAddress, by rw [if_pos hptr]; rfl⟩
  · exact ⟨.invalidArgs, by rw [if_neg hptr, if_pos (h.resolve_left hptr)]; rfl⟩

/-! ### The ends -/

/-- What a failed `pipe2` of `pid` has to leave: the descriptors of every process, their paths and
flags, and the open endpoints are as before, and the slots of the two ends are free. -/
structure World.PipeUndone (w w' : World) : Prop where
  descriptors : ∀ q fs, w.filesOf q = some fs → ∃ fs', w'.filesOf q = some fs' ∧
    fs'.fds = fs.fds ∧ fs'.fdPaths = fs.fdPaths ∧ fs'.fdCloexec = fs.fdCloexec
  endpoints : w'.openEndpoints = w.openEndpoints
  slots : (∀ ends v, openPipeEnds.run w ≠ (.ok ends, v)) → w'.slots = w.slots
  ends : ∀ ends v, openPipeEnds.run w = (.ok ends, v) → ends.1 ∉ w'.slots ∧ ends.2 ∉ w'.slots

/-- The descriptors, the endpoints and the slots. -/
def World.fileSlots (w : World) : FileView × Finset Nat := (w.fileView, w.slots)

/-- Two new endpoints are open beside those of `v`, in slots that were not in `S`. -/
structure BothOpen (v : FileView) (S : Finset Nat) (ends : Nat × Nat) (w : World) : Prop where
  view : w.fileView = { v with openEndpoints := insert ends.2 (insert ends.1 v.openEndpoints) }
  first : ends.1 ∉ v.openEndpoints
  second : ends.2 ∉ insert ends.1 v.openEndpoints
  notNull : ends.1 ≠ 0 ∧ ends.2 ≠ 0
  fresh : ends.1 ∉ S ∧ ends.2 ∉ S

section Ends

variable {v : FileView} {S : Finset Nat}

/-- A call opens no endpoint. -/
theorem ext_fileSlots : Frames World.fileSlots ext := by
  intro w
  unfold ext
  dsimp only
  split <;> rfl

/-- The creation of a pipe opens no endpoint. -/
theorem createPipe_fileSlots : Frames World.fileSlots createPipe := by
  unfold createPipe
  refine Frames.bind (Frames.gets _) fun endpoint => Frames.ite (Frames.pure _) ?_
  refine Frames.bind (Frames.attempt ext_fileSlots) fun r => ?_
  split
  · exact Frames.pure _
  · exact Frames.pure _

/-- The view with one more open endpoint. -/
def FileView.opened (v : FileView) (slot : Nat) : FileView :=
  { v with openEndpoints := insert slot v.openEndpoints }

/-- One end: a new endpoint in a slot that was free, or nothing. -/
theorem openPipeEnd_opens :
    Triple (fun w => w.fileSlots = (v, S)) openPipeEndViaPipefs
      (fun slot w => (slot ≠ 0 ∧ slot ∉ v.openEndpoints ∧ slot ∉ S) ∧
        w.fileSlots = (v.opened slot, insert slot S))
      (fun _ w => w.fileSlots = (v, S)) := by
  unfold openPipeEndViaPipefs
  refine Triple.bind (Keeps.gets _).triple fun endpoint => ?_
  refine Triple.ite (fun _ => Triple.throw fun w h => h) fun _ => ?_
  -- the slot that is handed out
  refine Triple.bind (R := fun slot w => (slot ≠ 0 ∧ slot ∉ v.openEndpoints ∧ slot ∉ S) ∧
    w.fileSlots = (v, insert slot S)) ?_ fun slot => Triple.of_pre ?_
  · unfold cspaceAlloc
    refine Triple.bind (ext_fileSlots.keeps (· = (v, S))).triple fun a => ?_
    refine Triple.bind (R := fun free w => w.fileSlots = (v, S) ∧
      free = decide (w.SlotFree a.val)) (Triple.gets fun w h => ⟨h, rfl⟩) fun free => ?_
    refine Triple.ite (fun hfree => ?_) fun _ => refuse_triple fun w h => h.1
    refine Triple.of_pre fun w₀ h₀ => ?_
    obtain ⟨hw₀, rfl⟩ := h₀
    obtain ⟨hne, hslots, -, hopen⟩ := of_decide_eq_true hfree
    obtain ⟨rfl, rfl⟩ := Prod.mk.inj hw₀
    refine Triple.bind (R := fun _ w => w.fileSlots = (w₀.fileView, insert a.val w₀.slots))
      (Triple.modify fun w hw => by rw [hw]; rfl) fun _ =>
        Triple.pure fun w hw => ⟨⟨hne, hopen, hslots⟩, hw⟩
  · intro w₀ h₀
    obtain ⟨hfresh, hw₀⟩ := h₀
    refine Triple.bind (R := fun _ w => w.fileSlots = (v.opened slot, insert slot S)) ?_ fun _ =>
      Triple.pure fun w h => ⟨hfresh, h⟩
    -- a file system that refuses gives the slot back
    refine Triple.onError (F := fun _ w => w.fileSlots = (v, insert slot S)) ?_ fun _ => ?_
    · refine Triple.bind ((ext_fileSlots.keeps (· = (v, insert slot S))).triple.pre
        fun w hw => hw ▸ hw₀) fun _ => Triple.modify fun w h => ?_
      obtain ⟨rfl, hslots⟩ := Prod.mk.inj h
      exact Prod.ext rfl hslots
    · refine Triple.modify fun w h => ?_
      obtain ⟨hview, hslots⟩ := Prod.mk.inj h
      refine Prod.ext hview ?_
      show w.slots.erase slot = S
      rw [hslots, Finset.erase_insert hfresh.2.2]

/-- The end of an endpoint that was opened last gives back what it took. -/
theorem closeEndpoint_undoes {slot : Nat} {E : Err → World → Prop} (hslot : slot ≠ 0)
    (hopen : slot ∉ v.openEndpoints) (hnot : slot ∉ S) :
    Triple (fun w => w.fileSlots = (v.opened slot, insert slot S)) (closeEndpoint slot)
      (fun _ w => w.fileSlots = (v, S)) E := by
  refine (closeEndpoint_total slot).triple (E := fun _ _ => True) ?_
  have hcall : Frames World.fileSlots (ignore (do let _ ← ext) : M Unit) :=
    Frames.ignore (Frames.bind ext_fileSlots fun _ => Frames.pure _)
  have hstep : ∀ {c : M Unit} (x : FileView × Finset Nat), Frames World.fileSlots c →
      Triple (fun w => w.fileSlots = x) c (fun _ w => w.fileSlots = x) (fun _ _ => True) :=
    fun x hc => (hc.keeps (· = x)).triple.errors fun _ _ _ => trivial
  unfold closeEndpoint
  refine Triple.bind (hstep _ hcall) fun _ => ?_
  refine Triple.bind (R := fun _ w => w.fileSlots = (v, insert slot S))
    (Triple.modify ?_) fun _ => ?_
  -- the endpoint was open once, so it leaves the set as it was
  · intro w h
    obtain ⟨hview, hslots⟩ := Prod.mk.inj h
    refine Prod.ext ?_ hslots
    show w.fileView.closed slot = v
    rw [hview]
    simp only [FileView.closed, FileView.opened, Finset.mem_insert_self, decide_true, Bool.not_true,
      Bool.or_false, Finset.erase_insert hopen]
  -- the slot is not null, so it is freed
  refine Triple.bind (hstep _ fun _ => rfl) fun _ => ?_
  refine Triple.when (fun _ => Triple.modify fun w h => ?_) fun w h => absurd hslot h
  obtain ⟨hview, hslots⟩ := Prod.mk.inj h
  refine Prod.ext hview ?_
  show w.slots.erase slot = S
  rw [hslots, Finset.erase_insert hnot]

/-- The two ends are open together, or neither is. -/
theorem openPipeEnds_opens :
    Triple (fun w => w.fileSlots = (v, S)) openPipeEnds (BothOpen v S)
      (fun _ w => w.fileSlots = (v, S)) := by
  unfold openPipeEnds
  refine Triple.bind (createPipe_fileSlots.keeps (· = (v, S))).triple fun pipeId => ?_
  refine Triple.ite (fun _ => Triple.throw fun w h => h) fun _ => ?_
  refine Triple.bind openPipeEnd_opens fun readSlot => Triple.of_pre fun w₀ h₀ => ?_
  obtain ⟨⟨hne, hopen, hnot⟩, hw₀⟩ := h₀
  refine Triple.bind (R := fun slot => BothOpen v S (readSlot, slot)) ?_ fun writeSlot =>
    Triple.pure fun w h => h
  refine Triple.onError (openPipeEnd_opens.imp (fun w hw => hw ▸ hw₀) (fun writeSlot w h => ?_)
    fun _ _ h => h) fun _ => closeEndpoint_undoes hne hopen hnot
  obtain ⟨⟨hne', hopen', hnot'⟩, hw⟩ := h
  refine ⟨(Prod.mk.inj hw).1, hopen, hopen', ⟨hne, hne'⟩, hnot, ?_⟩
  intro h
  exact hnot' (Finset.mem_insert_of_mem h)

end Ends

/-! ### The descriptors -/

/-- A closed endpoint has given up its slot. -/
theorem closeEndpoint_frees {slot : Nat} (hslot : slot ≠ 0) {E : Err → World → Prop} :
    Triple (fun _ => True) (closeEndpoint slot) (fun _ w => slot ∉ w.slots) E := by
  refine (closeEndpoint_total slot).triple (E := fun _ _ => True) ?_
  refine Triple.bind (triple_true _) fun _ => Triple.bind (triple_true _) fun _ =>
    Triple.bind (triple_true _) fun _ => ?_
  exact Triple.when (fun _ => Triple.modify fun w _ => Finset.notMem_erase slot w.slots)
    fun w h => absurd hslot h

/-- The end of an endpoint takes no slot. -/
theorem closeEndpoint_takes_none (slot s : Nat) :
    Keeps (fun w => s ∉ w.slots) (closeEndpoint slot) := by
  have hcall : Frames World.fileSlots (ignore (do let _ ← ext) : M Unit) :=
    Frames.ignore (Frames.bind ext_fileSlots fun _ => Frames.pure _)
  refine Keeps.bind ((hcall.comp Prod.snd).keeps (s ∉ ·)) fun _ => ?_
  refine Keeps.bind (fun w h => h) fun _ => Keeps.bind (fun w h => h) fun _ => ?_
  exact Keeps.when fun w h => mt Finset.mem_of_mem_erase h

/-- The two ends of a pipe that are taken back leave the table and the endpoints as they were. -/
theorem removePipe_frees {pid readFd writeFd readSlot writeSlot : Nat} {fs : FilesState}
    {cloexec : Bool} {E : Err → World → Prop} (hlt : readFd < writeFd) (hr : readSlot ≠ 0)
    (hw : writeSlot ≠ 0) :
    Triple (fun w => w.filesOf pid = some (fs.addPipe readFd writeFd readSlot writeSlot cloexec))
      (removePipe pid readFd writeFd) (fun _ w => readSlot ∉ w.slots ∧ writeSlot ∉ w.slots) E := by
  have hread : (fs.addPipe readFd writeFd readSlot writeSlot cloexec).fds.get? readFd =
      some ⟨readSlot, 0, none⟩ := by
    show ((fs.fds.insert readFd _).insert writeFd _).get? readFd = _
    rw [OrdMap.get?_insert, if_neg (by omega), OrdMap.get?_insert_self]
  have hwrite : (fs.addPipe readFd writeFd readSlot writeSlot cloexec).fds.get? writeFd =
      some ⟨writeSlot, 0, none⟩ := OrdMap.get?_insert_self _ _ _
  unfold removePipe
  refine Triple.bind ((getProcess_live (P := fun _ => True) pid _).pre fun w h => ⟨trivial, h⟩)
    fun task => Triple.of_pre fun w₀ h₀ => ?_
  rw [h₀.1, hread, hwrite]
  refine Triple.bind (R := fun _ _ => True) (Triple.modify fun _ _ => trivial) fun _ => ?_
  refine Triple.bind (closeEndpoint_frees hr) fun _ => ?_
  refine ((closeEndpoint_total writeSlot).triple (E := fun _ _ => True) ?_)
  refine ((closeEndpoint_takes_none writeSlot readSlot).triple.and
    (closeEndpoint_frees (E := fun _ _ => True) hw)).imp
    (fun w h => ⟨h, trivial⟩) (fun _ w h => h) fun _ _ _ => trivial

section Install

variable {v : FileView} {pid pipefd readSlot writeSlot : Nat} {fs : FilesState} {cloexec : Bool}

/-- With numbers for both ends, a copy-out that fails takes them out again. -/
theorem installPipe_undoes (hfs : v.files pid = some fs) (h : fs.HasPipeFds) (hr : readSlot ≠ 0)
    (hw : writeSlot ≠ 0) :
    Triple (fun w => w.fileView = v) (installPipe pid pipefd readSlot writeSlot cloexec)
      (fun _ _ => True)
      (fun _ w => (∃ fs' : FilesState, w.fileView =
          ((v.set pid (some fs')).closed readSlot).closed writeSlot ∧ fs'.fds = fs.fds ∧
          fs'.fdPaths = fs.fdPaths ∧ ((∀ fd, fs.fdCloexec.get? fd ≠ none → fs.fds.get? fd ≠ none) →
            fs'.fdCloexec = fs.fdCloexec)) ∧ readSlot ∉ w.slots ∧ writeSlot ∉ w.slots) := by
  obtain ⟨readFd, writeFd, hread, hwrite, hfit⟩ := h
  obtain ⟨hrnone, -, -⟩ := FilesState.freeFd_some hread
  obtain ⟨hwnone, hlt, -⟩ := FilesState.freeFd_some hwrite
  let fs₁ := fs.addPipe readFd writeFd readSlot writeSlot cloexec
  unfold installPipe
  refine Triple.bind ((getProcess_live (P := fun w => w.fileView = v) pid fs).pre fun w hw =>
    ⟨hw, show w.fileView.files pid = some fs by rw [hw, hfs]⟩) fun task =>
      Triple.of_pre fun w₀ h₀ => ?_
  obtain ⟨htask, hv, -⟩ := h₀
  rw [htask, hread, getSome_bind, hwrite, getSome_bind]
  refine Triple.bind ((modifyFiles_view pid _ hfs).pre fun w hw => by rw [hw, hv]) fun _ => ?_
  refine Triple.bind (logCloexec_view _) fun _ => Triple.bind (logCloexec_view _) fun _ => ?_
  refine Triple.ite (fun hbig => by omega) fun _ => ?_
  refine Triple.onError (F := fun _ w => w.fileView = v.set pid (some fs₁))
    ((view_step (P := (· = v.set pid (some fs₁))) (copyToUser_frames pid pipefd _)).post
        fun _ _ _ => trivial) fun _ => ?_
  have hundone : Triple (fun w => w.fileView = v.set pid (some fs₁)) (removePipe pid readFd writeFd)
      (fun _ w => w.fileView = ((v.set pid (some (fs₁.removePipe readFd writeFd))).closed
        readSlot).closed writeSlot ∧ readSlot ∉ w.slots ∧ writeSlot ∉ w.slots) (fun _ _ => False) :=
    ((removePipe_view (E := fun _ _ => False) (by omega)).and
      (removePipe_frees (E := fun _ _ => False) (by omega) hr hw)).imp
      (fun w h => ⟨h, show w.fileView.files pid = some fs₁ by rw [h, FileView.set_files]⟩)
      (fun _ _ h => h) fun _ _ h => h.1
  refine hundone.imp (fun _ h => h) (fun _ w h => ⟨⟨fs₁.removePipe readFd writeFd, h.1,
    FilesState.removePipe_fds hrnone hwnone, rfl, ?_⟩, h.2⟩) fun _ _ h => h.elim
  -- a number that is not open has no flag
  intro hflags
  have hnone : ∀ fd, fs.fds.get? fd = none → fs.fdCloexec.get? fd = none := by
    intro fd hfd
    by_contra hflag
    exact hflags fd hflag hfd
  exact OrdMap.erase_erase_insert_insert _ _ _ (hnone _ hrnone) (hnone _ hwnone)

/-- Without numbers for both ends the call fails, and no endpoint has been closed. -/
theorem installPipe_leaves (hfs : v.files pid = some fs) (h : ¬ fs.HasPipeFds) :
    Triple (fun w => w.fileView = v) (installPipe pid pipefd readSlot writeSlot cloexec)
      (fun _ _ => False) (fun _ w => w.openEndpoints = v.openEndpoints) := by
  have hends : ∀ w : World, w.fileView = v → w.openEndpoints = v.openEndpoints := by
    intro w hw
    rw [← hw]
    rfl
  unfold installPipe
  refine Triple.bind ((getProcess_live (P := fun w => w.fileView = v) pid fs).pre fun w hw =>
    ⟨hw, show w.fileView.files pid = some fs by rw [hw, hfs]⟩) fun task =>
      Triple.of_pre fun w₀ h₀ => ?_
  obtain ⟨htask, hv, -⟩ := h₀
  rw [htask]
  rcases hread : fs.freeFd fs.nextFd with _ | readFd
  · exact Triple.throw fun w hw => hends w (hw ▸ hv)
  rw [getSome_bind]
  rcases hwrite : fs.freeFd (readFd + 1) with _ | writeFd
  · exact Triple.throw fun w hw => hends w (hw ▸ hv)
  rw [getSome_bind]
  -- both numbers are there, and the second one does not fit
  have hbig : 2 ^ 31 ≤ writeFd := by
    by_contra hfit
    exact h ⟨readFd, writeFd, hread, hwrite, by omega⟩
  refine Triple.bind ((modifyFiles_view pid _ hfs).pre fun w hw => by rw [hw, hv]) fun _ => ?_
  refine Triple.bind (logCloexec_view _) fun _ => Triple.bind (logCloexec_view _) fun _ => ?_
  refine Triple.ite (fun _ => Triple.throw fun w hw => ?_) fun hfit => absurd (.inr hbig) hfit
  have hopen : w.fileView.openEndpoints = v.openEndpoints := by rw [hw]; rfl
  exact hopen

end Install

/-! ### The whole call -/

/-- A state with the descriptors, the endpoints and the slots of before the call. -/
theorem World.PipeUndone.of_fileSlots {w w' : World} (h : w'.fileSlots = w.fileSlots) :
    w.PipeUndone w' := by
  obtain ⟨hview, hslots⟩ := Prod.mk.inj h
  refine ⟨fun q fs hfs => ⟨fs, ?_, rfl, rfl, rfl⟩, congrArg FileView.openEndpoints hview,
    fun _ => hslots, ?_⟩
  · exact (congrFun (congrArg FileView.files hview) q).trans hfs
  · intro ends v hends
    have hboth := (openPipeEnds_opens w rfl).1 ends (by rw [hends])
    rw [show w'.slots = w.slots from hslots]
    exact hboth.fresh

/-- A search that fails, or numbers that do not fit, leave the two ends open. -/
theorem doPipe2_leaves_ends {pid pipefd flags : Nat} {w v : World} {ends : Nat × Nat}
    {fs : FilesState} (hargs : ¬ RefusedPipe2 pipefd flags)
    (hends : openPipeEnds.run w = (.ok ends, v))
    (hfs : w.filesOf pid = some fs) (h : ¬ fs.HasPipeFds) :
    ∃ e w', (doPipe2 pid pipefd flags).run w = (.error e, w') ∧ ends.1 ∈ w'.openEndpoints ∧
      ends.1 ∉ w.openEndpoints := by
  have hboth := (openPipeEnds_opens w rfl).1 ends (by rw [hends])
  rw [hends] at hboth
  have hview : v.fileView.files pid = some fs := by
    rw [hboth.view]
    exact hfs
  have hfail := @installPipe_leaves _ pid pipefd ends.1 ends.2 fs (flags &&& O_CLOEXEC != 0)
    hview h v rfl
  rw [doPipe2_run hargs, run_bind_ok hends]
  rcases hrun : (installPipe pid pipefd ends.1 ends.2 (flags &&& O_CLOEXEC != 0)).run v with
    ⟨e | a, w'⟩
  · rw [hrun] at hfail
    have hopen : w'.openEndpoints = insert ends.2 (insert ends.1 w.openEndpoints) :=
      (hfail.2 e rfl).trans (congrArg FileView.openEndpoints hboth.view)
    refine ⟨e, w', rfl, ?_, hboth.first⟩
    rw [hopen]
    exact Finset.mem_insert_of_mem (Finset.mem_insert_self _ _)
  · rw [hrun] at hfail
    exact (hfail.1 a rfl).elim

/-- With numbers for both ends, every failure of the call is undone. -/
theorem doPipe2_undoes {w : World} (hw : Reachable w) {pid pipefd flags : Nat} {fs : FilesState}
    (hfs : w.filesOf pid = some fs) (hargs : ¬ RefusedPipe2 pipefd flags)
    (h : (∀ ends v, openPipeEnds.run w ≠ (.ok ends, v)) ∨ fs.HasPipeFds) {e : Err} {w' : World}
    (hrun : (doPipe2 pid pipefd flags).run w = (.error e, w')) : w.PipeUndone w' := by
  rw [doPipe2_run hargs] at hrun
  -- the ends were not opened, and the states agree; or the installation undid them
  rcases hopened : openPipeEnds.run w with ⟨e₁ | ends, w₁⟩
  · rw [run_bind_error hopened] at hrun
    have hsame := (openPipeEnds_opens w rfl).2 e₁ (by rw [hopened])
    rw [hopened] at hsame
    exact .of_fileSlots ((Prod.mk.inj hrun).2 ▸ hsame)
  have hfds := h.resolve_left fun hno => hno ends w₁ hopened
  have hboth := (openPipeEnds_opens w rfl).1 ends (by rw [hopened])
  rw [run_bind_ok hopened] at hrun
  rw [hopened] at hboth
  have hview : w₁.fileView.files pid = some fs := by
    rw [hboth.view]
    exact hfs
  obtain ⟨⟨fs', hend, hsame, hpaths, hflags⟩, hslots⟩ :=
    (@installPipe_undoes _ pid pipefd _ _ _ (flags &&& O_CLOEXEC != 0) hview hfds hboth.notNull.1
      hboth.notNull.2 w₁ rfl).2 e (by rw [hrun])
  rw [hrun] at hend hslots
  have hend' : w'.fileView = ((w₁.fileView.set pid (some fs')).closed ends.1).closed ends.2 := hend
  -- the descriptors, the endpoints, and what becomes of the slots
  refine ⟨?_, ?_, fun hno => absurd hopened (hno ends w₁), ?_⟩
  · intro q fsq hq
    have htables : w'.filesOf q = if q = pid then some fs' else w.filesOf q := by
      have := congrFun (congrArg FileView.files hend') q
      rw [hboth.view] at this
      exact this
    by_cases hqp : q = pid
    · subst hqp
      obtain rfl := Option.some.inj (hfs.symm.trans hq)
      exact ⟨fs', by rw [htables, if_pos rfl], hsame, hpaths,
        hflags (hw.fdsOk.2.flags q fs hfs).flagged⟩
    · exact ⟨fsq, by rw [htables, if_neg hqp, hq], rfl, rfl, rfl⟩
  · have hset : w'.openEndpoints =
        ((insert ends.2 (insert ends.1 w.openEndpoints)).erase ends.1).erase ends.2 := by
      have := congrArg FileView.openEndpoints hend'
      rw [hboth.view] at this
      exact this
    have hsecond : ends.2 ∉ insert ends.1 w.openEndpoints := hboth.second
    have hfirst : ends.1 ∉ w.openEndpoints := hboth.first
    -- the two slots were not open before, so closing them leaves the set of before
    rw [hset, Finset.erase_right_comm, Finset.erase_insert hsecond, Finset.erase_insert hfirst]
  · intro ends' v hends
    obtain ⟨rfl, -⟩ : ends' = ends ∧ v = w₁ := by
      have := hends.symm.trans hopened
      simpa using this
    exact hslots

/-- A `pipe2` that fails leaves no end behind exactly when its arguments were refused, or an end
did not open, or there are two numbers below `2 ^ 31` for the ends from `next_fd` on. -/
theorem failed_pipe2_undone_iff (w : World) (hw : Reachable w) (pid : Nat) (fs : FilesState)
    (hfs : w.filesOf pid = some fs) (pipefd flags : Nat) :
    (∀ e w', (doPipe2 pid pipefd flags).run w = (.error e, w') → w.PipeUndone w') ↔
      RefusedPipe2 pipefd flags ∨ (∀ ends v, openPipeEnds.run w ≠ (.ok ends, v)) ∨
        fs.HasPipeFds := by
  constructor
  · intro hundone
    by_contra hno
    obtain ⟨hargs, hno⟩ := not_or.mp hno
    obtain ⟨hopened, hfds⟩ := not_or.mp hno
    simp only [not_forall, not_not] at hopened
    obtain ⟨ends, v, hends⟩ := hopened
    obtain ⟨e, w', hrun, hopen, hnot⟩ := doPipe2_leaves_ends hargs hends hfs hfds
    exact hnot ((hundone e w' hrun).endpoints ▸ hopen)
  · rintro h e w' hrun
    by_cases hargs : RefusedPipe2 pipefd flags
    · obtain ⟨e', hrefused⟩ := @doPipe2_refused pid _ _ hargs w
      obtain ⟨-, rfl⟩ := Prod.mk.inj (hrefused.symm.trans hrun)
      exact .of_fileSlots rfl
    · exact doPipe2_undoes hw hfs hargs (h.resolve_left hargs) hrun

/-- `init` asks for a pipe with a pointer to which it cannot write. Both ends are open by then, and
the numbers fit. -/
theorem failed_pipe2_undone_iff_init :
    ((doPipe2 1 8 0).run sampleBoot).1 = .error .invalidAddress ∧
    sampleBoot.PipeUndone ((doPipe2 1 8 0).run sampleBoot).2 := by
  have hrun : ((doPipe2 1 8 0).run sampleBoot).1 = .error .invalidAddress := by decide +kernel
  have htable : (sampleBoot.filesOf 1).map (fun fs => (fs.nextFd, fs.freeFd 3, fs.freeFd 4)) =
      some (3, some 3, some 4) := by decide +kernel
  obtain ⟨fs, hfs, hfields⟩ := Option.map_eq_some_iff.mp htable
  simp only [Prod.mk.injEq] at hfields
  obtain ⟨hnext, hread, hwrite⟩ := hfields
  have hfds : fs.HasPipeFds := ⟨3, 4, by rw [hnext, hread], hwrite, by decide⟩
  exact ⟨hrun, (failed_pipe2_undone_iff sampleBoot sampleBoot_reachable 1 fs hfs 8 0).mpr
    (.inr (.inr hfds)) .invalidAddress _ (Prod.ext hrun rfl)⟩

/-- With `u32::MAX` open and `next_fd` there, the search finds nothing and leaves both ends open. -/
theorem pipe2_leaves_ends_open :
    Reachable sampleLastFd ∧
    ((doPipe2 1 0x3ffff000 0).run sampleLastFd).1 = .error .outOfMemory ∧
    ¬ sampleLastFd.PipeUndone ((doPipe2 1 0x3ffff000 0).run sampleLastFd).2 := by
  have hopen : ((doPipe2 1 0x3ffff000 0).run sampleLastFd).2.openEndpoints.card ≠
      sampleLastFd.openEndpoints.card := by decide +kernel
  exact ⟨sampleBoot_reachable.after (by decide +kernel), by decide +kernel,
    fun h => hopen (congrArg Finset.card h.endpoints)⟩

end Ape
