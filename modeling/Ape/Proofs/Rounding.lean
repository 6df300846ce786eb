import Ape.Proofs.Mprotect
import Ape.Proofs.Mremap

/-!
# `Ape.Proofs.Rounding`: lengths that wrap when they are rounded

`align_up` adds `PGSIZE - 1` before it masks, and the addition wraps. A length in the last page of
the word becomes zero, and the checked additions after it find nothing wrong: `munmap` succeeds and
removes nothing, `mremap` takes the way of a range that shrinks and removes everything.

`RangeCall.Honest` is what the four calls promise: what a call reports as done was done to the pages
that meet the range it was given, and a range that does not fit in the word is refused. It holds
exactly if `RangeCall.Fits` does. The code's checks still refuse some of the lengths that wrap, so
`Fits` says which.
-/

set_option autoImplicit false

namespace Ape

open Ape.Lib Cmd

/-! ### Rounding -/

/-- A length in whole pages, without the end of the word. -/
def roundUp (n : Nat) : Nat := (n + (PGSIZE - 1)) / PGSIZE * PGSIZE

/-- A rounded length whose sum fits in the word fits itself. -/
theorem roundUp_lt {n : Nat} (h : n + (PGSIZE - 1) < usizeMod) : roundUp n < usizeMod :=
  lt_of_le_of_lt (Nat.div_mul_le_self _ _) h

/-- `align_up` rounds up where the addition does not wrap. -/
theorem alignUp_eq_roundUp {n : Nat} (h : n + (PGSIZE - 1) < usizeMod) : alignUp n = roundUp n := by
  rw [alignUp, wAdd, Nat.mod_eq_of_lt h, roundUp]

/-- Where it wraps, nothing is left. -/
theorem alignUp_eq_zero {n : Nat} (hn : n < usizeMod) (h : usizeMod ≤ n + (PGSIZE - 1)) :
    alignUp n = 0 := by
  simp only [alignUp, wAdd, PGSIZE, usizeMod] at *
  omega

/-- Where it wraps, the rounded length does not fit in the word. -/
theorem usizeMod_le_roundUp {n : Nat} (h : usizeMod ≤ n + (PGSIZE - 1)) : usizeMod ≤ roundUp n := by
  simp only [roundUp, PGSIZE, usizeMod] at *
  omega

/-- The pages of a range start at page boundaries. -/
theorem alignDown_of_mem {addr len p : Nat} (hp : p ∈ protectedPages addr len) :
    alignDown p = p := by
  rw [protectedPages] at hp
  split at hp
  · cases hp
  · have hpage := ((mem_pageRange_iff (Nat.mul_mod_left _ _)).mp hp).1
    exact div_mul_page hpage

/-! ### Room for a range that is resized -/

namespace MmState

/-- The range that starts at `old` can have the new length at `target`: in place, if it does not
grow or the pages after it are free, and elsewhere in a free range apart from the old one. -/
def roomAt (mm : MmState) (old oldLen newLen target : Nat) : Bool :=
  if target = old then
    newLen ≤ oldLen || mm.rangeIsFreeExcluding old (old + newLen) old (old + oldLen)
  else
    target + newLen < usizeMod && !hasOverlap target (target + newLen) old oldLen
      && mm.rangeIsFree target (target + newLen)

/-- There is room where the flags of `mremap` allow it to look. -/
def hasRoom (mm : MmState) (old oldLen newLen flags newAddr : Nat) : Bool :=
  if flags &&& MREMAP_FIXED ≠ 0 then
    newAddr % PGSIZE = 0 && mm.roomAt old oldLen newLen newAddr
  else
    mm.roomAt old oldLen newLen old
      || flags &&& MREMAP_MAYMOVE ≠ 0
        && (mm.findFreeRemapTarget newLen).any (mm.roomAt old oldLen newLen)

/-- The checks of `do_mremap`, with the lengths as it rounds them. -/
structure TakesRemap (mm : MmState) (oldAddr oldSize newSize flags newAddr : Nat) : Prop where
  sizes : oldSize ≠ 0 ∧ newSize ≠ 0
  page : oldAddr % PGSIZE = 0
  flagsOk : remapFlagsOk flags = true
  oldEnd : oldAddr + alignUp oldSize < usizeMod
  newEnd : oldAddr + alignUp newSize < usizeMod
  states : ∃ states, mm.collectRemapStates
    (pageRange oldAddr (oldAddr + alignUp oldSize)) = .ok states
  room : mm.hasRoom oldAddr (alignUp oldSize) (alignUp newSize) flags newAddr = true

end MmState

/-! ### The calls that succeed -/

section Serves

variable {w₀ : World} {pid addr len old oldLen newLen target : Nat} {mm : MmState}
  {states : List RemapPageState} {perms : Perms}

/-- Ranges are unmapped unless a service refuses a call. -/
theorem unmapRanges_serves (ranges : OrdMap Nat (Nat × Nat)) :
    Serves pid (unmapRanges pid ranges) :=
  Succeeds.forEach_const fun e _ => Succeeds.bind (unmapProcessPages_serves e.1 e.2.2) fun _ =>
    Succeeds.when (fun _ => releaseProcessFrameSlot_serves pid e.2.1) fun _ _ h => h

/-- The split of a range leaves the process there. -/
theorem ensurePartialMultiPageRangesSplit_serves (hinv : FrameInv w₀)
    (hmm : w₀.mms.get? pid = some mm) (hsound : mm.Sound) (start stop : Nat) :
    Serve (fun w => w = w₀) (ensurePartialMultiPageRangesSplit pid start stop)
      fun _ => World.Live pid :=
  (ensurePartialMultiPageRangesSplit_serve hinv hmm hsound start stop).post
    fun _ _ ⟨_, _, hsplit, _⟩ => World.live_of_mms hsplit.mms

/-- `munmap` of a range that fits succeeds unless a service refuses a call. -/
theorem doMunmap_serve (hinv : FrameInv w₀) (hmm : w₀.mms.get? pid = some mm) (hsound : mm.Sound)
    (hlen : len ≠ 0) (haddr : addr % PGSIZE = 0) (hlt : addr + alignUp len < usizeMod) :
    Serve (fun w => w = w₀) (doMunmap pid addr len) fun _ => World.Live pid := by
  have hargs : ¬ (len = 0 ∨ addr % PGSIZE ≠ 0) := by
    rw [not_or, not_not]
    exact ⟨hlen, haddr⟩
  rw [doMunmap, if_neg hargs, checkedAdd, if_pos hlt, getSome_bind]
  refine Succeeds.bind (ensurePartialMultiPageRangesSplit_serves hinv hmm hsound _ _) fun _ => ?_
  refine Succeeds.bind getProcess_serves fun task => ?_
  exact Succeeds.bind (modifyMm_serves pid _) fun _ => unmapRanges_serves _

/-- A mapping grows in place unless a service refuses a call. -/
theorem expandInPlace_serves (oldEnd newEnd : Nat) (perms : Perms) :
    Serves pid (expandInPlace pid oldEnd newEnd perms) :=
  Succeeds.bind getProcess_serves fun _ => modifyMm_serves pid _

/-- Pages are mapped at their new place unless a service refuses a call. -/
theorem remapInstall_serves (target : Nat) (l : List (RemapPageState × Nat)) :
    ∀ done, Serves pid (remapInstall pid target l done) := by
  induction l with
  | nil => exact fun _ => Succeeds.pure fun _ h => h
  | cons e rest ih =>
    intro done
    obtain ⟨st, i⟩ := e
    cases st with
    | mapped frameCap flags =>
      refine Succeeds.bind (Succeeds.onError (mapProcessFrame_serves _ _ _ _) fun _ => ?_)
        fun _ => ih _
      exact Keeps.forEach fun page => (ignore_serves (unmapProcessPages_serves page 1)).stays
    | lazyPage flags => exact ih done

/-- The end of a move. -/
theorem moved_serves (states : List RemapPageState) :
    Serves pid (do
      forEach states.zipIdx fun e =>
        match e.1 with
        | .mapped _ _ => ignore (unmapProcessPages pid (old + e.2 * PGSIZE) 1)
        | .lazyPage _ => pure ()
      pure target) := by
  refine Succeeds.bind (Succeeds.forEach_const fun e _ => ?_) fun _ => Succeeds.pure fun _ h => h
  cases e.1 with
  | mapped frameCap flags => exact ignore_serves (unmapProcessPages_serves _ _)
  | lazyPage flags => exact Succeeds.pure fun _ h => h

/-- A range moves to a place where there is room, unless a service refuses a call. -/
theorem remapMove_accepts (hmm : w₀.mms.get? pid = some mm) (hne : target ≠ old)
    (hroom : mm.roomAt old oldLen newLen target = true) :
    Accepts World.Marked (remapMove pid old oldLen newLen target states perms) w₀ := by
  rw [MmState.roomAt, if_neg hne, Bool.and_eq_true, Bool.and_eq_true, decide_eq_true_eq] at hroom
  obtain ⟨⟨hlt, hapart⟩, hfree⟩ := hroom
  have hno : ¬ hasOverlap target (target + newLen) old oldLen = true := by simpa using hapart
  obtain ⟨task, hrun, htask⟩ := run_getProcess_known hmm
  rw [remapMove, checkedAdd, if_pos hlt, getSome_bind, if_neg hno]
  refine Accepts.after hrun (Accepts.ite ?_ fun _ => ?_)
  · intro hbusy
    rw [htask, hfree] at hbusy
    cases hbusy
  · refine Accepts.of_succeeds (P := World.Live pid) (Q := fun _ => World.Live pid) ?_
      (World.live_of_mms hmm)
    refine Succeeds.bind (remapInstall_serves target _ _) fun _ => ?_
    refine Succeeds.bind getProcess_serves fun _ => ?_
    exact Succeeds.bind (modifyMm_serves pid _) fun _ => moved_serves states

/-- A mapping that can grow in place does, and is returned where it was. -/
theorem expand_accepts (hmm : w₀.mms.get? pid = some mm) (oldEnd newEnd : Nat) :
    Accepts World.Marked
      (do expandInPlace pid oldEnd newEnd perms
          pure old) w₀ :=
  Accepts.of_succeeds (Q := fun _ => World.Live pid)
    (Succeeds.bind (expandInPlace_serves oldEnd newEnd perms) fun _ => Succeeds.pure fun _ h => h)
    (World.live_of_mms hmm)

/-- Where there is room to grow in place, the pages after the range are free. -/
theorem roomAt_self (h : mm.roomAt old oldLen newLen old = true) (hmore : oldLen < newLen) :
    mm.rangeIsFreeExcluding old (old + newLen) old (old + oldLen) = true := by
  rw [MmState.roomAt, if_pos rfl, Bool.or_eq_true, decide_eq_true_eq] at h
  exact h.resolve_left (by omega)

section Sizes

variable (hinv : FrameInv w₀) (hmm : w₀.mms.get? pid = some mm) (hsound : mm.Sound)
  (hold : old % PGSIZE = 0) (holdLen : oldLen % PGSIZE = 0) (hnewLen : newLen % PGSIZE = 0)
  (hlt : old + oldLen < usizeMod) (hlt' : old + newLen < usizeMod)

include hinv hmm hsound hold holdLen hnewLen hlt

/-- The range shrinks in place. -/
theorem shrink_accepts (hless : newLen < oldLen) :
    Accepts World.Marked
      (do doMunmap pid (old + newLen) (oldLen - newLen)
          pure old) w₀ := by
  have hdiff : (oldLen - newLen) % PGSIZE = 0 :=
    Nat.mod_eq_zero_of_dvd
      (Nat.dvd_sub (Nat.dvd_of_mod_eq_zero holdLen) (Nat.dvd_of_mod_eq_zero hnewLen))
  have hround : alignUp (oldLen - newLen) = oldLen - newLen := alignUp_self hdiff (by omega)
  have hend : old + newLen + alignUp (oldLen - newLen) < usizeMod := by
    rw [hround]
    omega
  have hmunmap := doMunmap_serve hinv hmm hsound (by omega) (add_page hold hnewLen) hend
  exact Accepts.of_succeeds (Q := fun _ => World.Live pid)
    (Succeeds.bind hmunmap fun _ => Succeeds.pure fun _ h => h) rfl

/-- A range that stays where it is gets its new length, unless a service refuses a call. -/
theorem remapSame_accepts (hroom : mm.roomAt old oldLen newLen old = true) :
    Accepts World.Marked (remapSame pid old oldLen newLen perms) w₀ := by
  obtain ⟨task, hrun, htask⟩ := run_getProcess_known hmm
  refine Accepts.ite ?_ fun _ => Accepts.ite ?_ fun _ => Accepts.pure _
  · intro hless
    exact shrink_accepts hinv hmm hsound hold holdLen hnewLen hlt hless
  · intro hmore
    refine Accepts.after hrun (Accepts.ite (fun hbusy => ?_) fun _ => expand_accepts hmm _ _)
    rw [htask, roomAt_self hroom hmore] at hbusy
    cases hbusy

include hlt'

/-- A range with room at its target gets there, unless a service refuses a call. -/
theorem remapTo_accepts (hroom : mm.roomAt old oldLen newLen target = true) :
    Accepts World.Marked (remapTo pid old oldLen newLen target states perms) w₀ := by
  have hend : target + newLen < usizeMod := by
    by_cases heq : target = old
    · rw [heq]
      exact hlt'
    · rw [MmState.roomAt, if_neg heq, Bool.and_eq_true, Bool.and_eq_true,
        decide_eq_true_eq] at hroom
      exact hroom.1.1
  rw [remapTo, checkedAdd, if_pos hend, getSome_bind]
  refine Accepts.ite (fun heq => ?_) fun hne => remapMove_accepts hmm hne hroom
  rw [heq] at hroom
  exact remapSame_accepts hinv hmm hsound hold holdLen hnewLen hlt hroom

/-- A range that has room in place, or may move and has room elsewhere, gets its new length. -/
theorem remapAnywhere_accepts (mayMove : Bool) (hroom : mm.roomAt old oldLen newLen old = true ∨
    mayMove = true ∧ ∃ t, mm.findFreeRemapTarget newLen = some t ∧
      mm.roomAt old oldLen newLen t = true) :
    Accepts World.Marked (remapAnywhere pid old oldLen newLen mayMove states perms) w₀ := by
  obtain ⟨task, hrun, htask⟩ := run_getProcess_known hmm
  unfold remapAnywhere
  refine Accepts.ite (fun _ => ?_) ?_
  · refine Accepts.ite (fun hless => ?_) fun _ => Accepts.pure _
    exact shrink_accepts hinv hmm hsound hold holdLen hnewLen hlt hless
  intro hmore
  refine Accepts.after hrun (Accepts.ite (fun _ => expand_accepts hmm _ _) fun hbusy => ?_)
  rw [htask] at hbusy ⊢
  -- the pages after the range are in use, so it has to move
  have hmoves := hroom.resolve_left fun hself => hbusy (roomAt_self hself (by omega))
  obtain ⟨hmay, t, ht, hroomt⟩ := hmoves
  rw [hmay, ht, getSome_bind]
  exact remapTo_accepts hinv hmm hsound hold holdLen hnewLen hlt hlt' hroomt

end Sizes

/-- `mremap` succeeds when its checks pass and no service refuses a call. -/
theorem doMremap_accepts {oldSize newSize flags newAddr : Nat} (hinv : FrameInv w₀)
    (hmm : w₀.mms.get? pid = some mm) (hsound : mm.Sound)
    (h : mm.TakesRemap old oldSize newSize flags newAddr) :
    Accepts World.Marked (doMremap pid old oldSize newSize flags newAddr) w₀ := by
  obtain ⟨⟨hold₀, hnew₀⟩, hold, hflags, hlt, hlt', ⟨states, hstates⟩, hroom⟩ := h
  obtain ⟨task, hrun, rfl⟩ := run_getProcess_known hmm
  have hargs : ¬ (oldSize = 0 ∨ newSize = 0 ∨ old % PGSIZE ≠ 0) := by
    rw [not_or, not_or, not_not]
    exact ⟨hold₀, hnew₀, hold⟩
  rw [doMremap, if_neg hargs, hflags, Bool.not_true, if_neg Bool.false_ne_true]
  dsimp only
  rw [checkedAdd, if_pos hlt, getSome_bind, checkedAdd, if_pos hlt', getSome_bind]
  refine Accepts.after hrun (Accepts.after (b := states) (by rw [hstates]; rfl) ?_)
  rw [MmState.hasRoom] at hroom
  refine Accepts.ite ?_ fun hfixed => Accepts.ite ?_ ?_
  · intro hany
    rw [if_neg (not_not.mpr hany), Bool.or_eq_true, Bool.and_eq_true, Option.any_eq_true] at hroom
    exact remapAnywhere_accepts hinv hmm hsound hold (alignUp_page _)
      (alignUp_page _) hlt hlt' _ hroom
  · intro hpage
    rw [if_pos hfixed, Bool.and_eq_true, decide_eq_true_eq] at hroom
    exact absurd hroom.1 hpage
  · intro hpage
    rw [if_pos hfixed, Bool.and_eq_true] at hroom
    exact remapTo_accepts hinv hmm hsound hold (alignUp_page _) (alignUp_page _) hlt hlt' hroom.2

end Serves

/-! ### The calls that are refused -/

section Rejects

variable {w₀ : World} {pid old oldLen newLen target : Nat} {mm : MmState}
  {states : List RemapPageState} {perms : Perms}

/-- A range does not move to a place where there is no room. -/
theorem remapMove_rejects (hmm : w₀.mms.get? pid = some mm) (hne : target ≠ old)
    (hroom : mm.roomAt old oldLen newLen target = false) :
    Rejects (remapMove pid old oldLen newLen target states perms) w₀ := by
  obtain ⟨task, hrun, rfl⟩ := run_getProcess_known hmm
  by_cases hlt : target + newLen < usizeMod
  · rw [remapMove, checkedAdd, if_pos hlt, getSome_bind]
    refine Rejects.ite (fun _ => Rejects.throw _) fun hapart => ?_
    refine Rejects.after hrun (Rejects.ite (fun _ => Rejects.throw _) fun hfree => ?_)
    rw [MmState.roomAt, if_neg hne] at hroom
    simp only [hlt, hapart, decide_true, Bool.not_false, Bool.true_and] at hroom
    exact absurd (by rw [hroom]; rfl) hfree
  · exact Rejects.bind (Rejects.getSome _ (if_neg hlt))

/-- A range does not grow in place where there is no room. -/
theorem remapSame_rejects (hmm : w₀.mms.get? pid = some mm)
    (hroom : mm.roomAt old oldLen newLen old = false) :
    Rejects (remapSame pid old oldLen newLen perms) w₀ := by
  obtain ⟨task, hrun, rfl⟩ := run_getProcess_known hmm
  rw [MmState.roomAt, if_pos rfl, Bool.or_eq_false_iff, decide_eq_false_iff_not] at hroom
  rw [remapSame, if_neg (by omega), if_pos (by omega)]
  refine Rejects.after hrun (Rejects.ite (fun _ => Rejects.throw _) fun hfree => ?_)
  simp [hroom.2] at hfree

/-- A range without room at its target is refused. -/
theorem remapTo_rejects (hmm : w₀.mms.get? pid = some mm)
    (hroom : mm.roomAt old oldLen newLen target = false) :
    Rejects (remapTo pid old oldLen newLen target states perms) w₀ := by
  by_cases hlt : target + newLen < usizeMod
  · rw [remapTo, checkedAdd, if_pos hlt, getSome_bind]
    refine Rejects.ite (fun heq => ?_) fun hne => remapMove_rejects hmm hne hroom
    rw [heq] at hroom
    exact remapSame_rejects hmm hroom
  · exact Rejects.bind (Rejects.getSome _ (if_neg hlt))

/-- A range without room in place and without a target with room is refused. -/
theorem remapAnywhere_rejects (hmm : w₀.mms.get? pid = some mm) (mayMove : Bool)
    (hroom : mm.roomAt old oldLen newLen old = false)
    (hmove : mayMove = true → ∀ t, mm.findFreeRemapTarget newLen = some t →
      mm.roomAt old oldLen newLen t = false) :
    Rejects (remapAnywhere pid old oldLen newLen mayMove states perms) w₀ := by
  obtain ⟨task, hrun, rfl⟩ := run_getProcess_known hmm
  rw [MmState.roomAt, if_pos rfl, Bool.or_eq_false_iff, decide_eq_false_iff_not] at hroom
  rw [remapAnywhere, if_neg hroom.1]
  refine Rejects.after hrun ?_
  rw [if_neg (by rw [hroom.2]; decide)]
  refine Rejects.ite (fun _ => Rejects.throw _) fun hmay => ?_
  cases hfound : task.mm.state.findFreeRemapTarget newLen with
  | none => exact Rejects.bind (Rejects.getSome _ rfl)
  | some t =>
    rw [getSome_bind]
    exact remapTo_rejects hmm (hmove (by simpa using hmay) t hfound)

/-- `mremap` refuses what does not pass its checks, before it changes anything. -/
theorem doMremap_rejects {oldSize newSize flags newAddr : Nat} (hmm : w₀.mms.get? pid = some mm)
    (h : ¬ mm.TakesRemap old oldSize newSize flags newAddr) :
    Rejects (doMremap pid old oldSize newSize flags newAddr) w₀ := by
  obtain ⟨task, hrun, rfl⟩ := run_getProcess_known hmm
  refine Rejects.ite (fun _ => Rejects.throw _) fun hargs => ?_
  refine Rejects.ite (fun _ => Rejects.throw _) fun hflags => ?_
  rw [not_or, not_or, not_not] at hargs
  dsimp only
  by_cases hlt : old + alignUp oldSize < usizeMod
  swap
  · exact Rejects.bind (Rejects.getSome _ (if_neg hlt))
  rw [checkedAdd, if_pos hlt, getSome_bind]
  by_cases hlt' : old + alignUp newSize < usizeMod
  swap
  · exact Rejects.bind (Rejects.getSome _ (if_neg hlt'))
  rw [checkedAdd, if_pos hlt', getSome_bind]
  refine Rejects.after hrun ?_
  cases hstates : task.mm.state.collectRemapStates (pageRange old (old + alignUp oldSize)) with
  | error e => exact Rejects.bind (Rejects.ofExcept rfl)
  | ok states =>
    -- only the room is missing
    have hroom : task.mm.state.hasRoom old (alignUp oldSize)
      (alignUp newSize) flags newAddr = false := by
      by_contra hroom
      exact h ⟨⟨hargs.1, hargs.2.1⟩, hargs.2.2, by simpa using hflags, hlt, hlt', ⟨states, hstates⟩,
        by simpa using hroom⟩
    rw [MmState.hasRoom] at hroom
    refine Rejects.after (b := states) rfl ?_
    refine Rejects.ite ?_ fun hfixed =>
      Rejects.ite (fun _ => Rejects.throw _) fun hpage => remapTo_rejects hmm ?_
    · intro hany
      rw [if_neg (not_not.mpr hany), Bool.or_eq_false_iff] at hroom
      refine remapAnywhere_rejects hmm _ hroom.1 fun hmay t ht => ?_
      simpa [hmay, ht] using hroom.2
    · rw [if_pos hfixed] at hroom
      simpa [not_not.mp hpage] using hroom

end Rejects

/-! ### `mmap` of no page -/

/-- The file of a mapping is there: none is asked for, or the descriptor is open. -/
def World.opensFile (w : World) (pid flags fd : Nat) : Bool :=
  flags &&& MAP_ANONYMOUS ≠ 0 || fd < 2 ^ 32 && ((w.filesOf pid).bind (·.fds.get? fd)).isSome

/-- An `mmap` of no page that is not refused: it has passed the checks of the flags and of the file,
it is fixed at a page, and it splits an entry there or passes the checks of the fixed regions. -/
structure World.TakesEmpty (w : World) (pid : Nat) (mm : MmState) (addr flags fd : Nat) : Prop where
  isPrivate : flags &&& MAP_PRIVATE ≠ 0
  file : w.opensFile pid flags fd = true
  fixed : flags &&& MAP_FIXED ≠ 0
  page : addr % PGSIZE = 0
  passes : mm.splitPartialMultiPageTargets addr addr = [] → mm.checkFixed addr addr = .ok ()

section Mmap

variable {w : World} {pid addr len prot flags fd offset n : Nat} {mm : MmState} {perms : Perms}
  {backing : Option (Nat × Nat)}

/-- The file of a mapping is found when its descriptor is open. -/
theorem mmapFileBacking_run (hmm : w.mms.get? pid = some mm)
    (h : w.opensFile pid flags fd = true) :
    (mmapFileBacking pid flags fd offset).run w = (.ok (backingOf flags fd offset), w) := by
  rw [World.get?_mms] at hmm
  obtain ⟨t, ht, -⟩ := Option.map_eq_some_iff.mp hmm
  rw [World.opensFile, World.filesOf, ht] at h
  by_cases hanon : flags &&& MAP_ANONYMOUS ≠ 0
  · rw [mmapFileBacking, backingOf, if_pos hanon, if_pos hanon]
    rfl
  · simp only [hanon, decide_false, Bool.false_or, Bool.and_eq_true, decide_eq_true_eq] at h
    obtain ⟨hfd, hopen⟩ := h
    obtain ⟨file, hfile⟩ := Option.isSome_iff_exists.mp hopen
    rw [mmapFileBacking, backingOf, if_neg hanon, if_neg hanon, if_neg (by omega),
      run_bind_ok (run_getProcess ht), show t.files.fds.get? fd = some file
        from hfile, getSome_bind]
    rfl

/-- A file that is not open is refused. -/
theorem mmapFileBacking_rejects (hmm : w.mms.get? pid = some mm)
    (h : w.opensFile pid flags fd = false) :
    Rejects (mmapFileBacking pid flags fd offset) w := by
  rw [World.get?_mms] at hmm
  obtain ⟨t, ht, -⟩ := Option.map_eq_some_iff.mp hmm
  rw [World.opensFile, World.filesOf, ht, Bool.or_eq_false_iff, decide_eq_false_iff_not] at h
  obtain ⟨hanon, hclosed⟩ := h
  rw [mmapFileBacking, if_neg hanon]
  refine Rejects.ite (fun _ => Rejects.throw _) fun hfd => ?_
  refine Rejects.after (run_getProcess ht) (Rejects.bind (Rejects.getSome _ ?_))
  have hnone : fd < 4294967296 → t.files.fds.get? fd = none := by simpa using hclosed
  exact hnone (by omega)

/-- `mmap` is refused before it does anything, or goes one of its two ways. -/
theorem doMmap_ways (hmm : w.mms.get? pid = some mm) :
    Rejects (doMmap pid addr len prot flags fd offset) w ∨
    (len ≠ 0 ∧ flags &&& MAP_PRIVATE ≠ 0 ∧ w.opensFile pid flags fd = true) ∧
      (doMmap pid addr len prot flags fd offset).run w
        = (if flags &&& MAP_FIXED ≠ 0 then
            mmapFixed pid addr (alignUp len) (protToPerms prot) (backingOf flags fd offset)
          else mmapAnywhere pid addr (alignUp len) (protToPerms prot)
            (backingOf flags fd offset)).run w := by
  by_cases hlen : len = 0
  · exact .inl (by rw [doMmap, if_pos hlen]; exact Rejects.throw _)
  by_cases hshared : flags &&& MAP_PRIVATE = 0
  · exact .inl (by rw [doMmap, if_neg hlen, if_pos hshared]; exact Rejects.throw _)
  rw [doMmap, if_neg hlen, if_neg hshared]
  cases hfile : w.opensFile pid flags fd with
  | false => exact .inl (Rejects.bind (mmapFileBacking_rejects hmm hfile))
  | true => exact .inr ⟨⟨hlen, hshared, rfl⟩, run_bind_ok (mmapFileBacking_run hmm hfile)⟩

/-- The search finds no place for nothing, and none past the end of the word. -/
theorem mmapAnywhere_rejects (hmm : w.mms.get? pid = some mm) (hpage : n % PGSIZE = 0)
    (h : n = 0 ∨ addr ≠ 0 ∧ usizeMod ≤ addr + n) :
    Rejects (mmapAnywhere pid addr n perms backing) w := by
  obtain ⟨task, hrun, rfl⟩ := run_getProcess_known hmm
  refine Rejects.after hrun (Rejects.bind (Rejects.getSome _ ?_))
  rcases h with rfl | ⟨haddr, hpast⟩
  · exact MmState.findFree_empty _ _
  · rw [if_pos haddr, MmState.searchRounds, MmState.findFree, checkedAdd, if_neg]
    simp only [alignDown, PGSIZE, usizeMod] at *
    omega

/-- With no entry to split, the split does nothing. -/
theorem run_split_nothing {start stop : Nat} (hmm : w.mms.get? pid = some mm)
    (hnone : mm.splitPartialMultiPageTargets start stop = []) :
    (ensurePartialMultiPageRangesSplit pid start stop).run w = (.ok (), w) := by
  obtain ⟨task, hrun, rfl⟩ := run_getProcess_known hmm
  rw [ensurePartialMultiPageRangesSplit, run_bind_ok hrun, hnone]
  rfl

/-- An empty range has no pages. -/
theorem pageRange_empty (start : Nat) : pageRange start start = [] := by
  rw [pageRange, Nat.sub_self]
  rfl

/-- To map no page is to do nothing. -/
theorem mapNewRange_empty_serves : Serves pid (mapNewRange pid addr addr perms backing) := by
  cases backing with
  | none =>
    rw [mapNewRange, mapAnonymousRangeEager, pageRange_empty]
    exact Succeeds.pure fun _ h => h
  | some file =>
    obtain ⟨fd, offset⟩ := file
    rw [mapNewRange, mapFileRangeLazy, pageRange_empty]
    refine Succeeds.bind (serves_modify (fun _ => rfl) fun _ => rfl) fun _ => ?_
    exact Succeeds.bind getProcess_serves fun _ => Succeeds.pure fun _ h => h

/-- A fixed mapping of no page, when no service refuses a call: it fails only by the checks of the
fixed regions, after the split. -/
theorem mmapFixed_empty_error (hinv : FrameInv w) (hmm : w.mms.get? pid = some mm)
    (hsound : mm.Sound) (haddr : addr < usizeMod) (hpage : addr % PGSIZE = 0) :
    Triple (fun w' => w' = w) (mmapFixed pid addr 0 perms backing)
      (fun _ => Unless World.Marked fun _ => True)
      (fun e => Unless World.Marked fun w' => ∃ mm', w'.mms.get? pid = some mm' ∧
        Targets addr addr [] mm' ∧ mm'.checkFixed addr addr = .error e) := by
  -- nothing after the check of the room fails without a mark
  have hrest : ∀ ranges, Serves pid (do
      modifyMm pid (·.removeRanges (pageRange addr addr) ranges)
      unmapRanges pid ranges
      mapNewRange pid addr addr perms backing
      modifyMm pid fun mm => { mm with mmapNext := max mm.mmapNext addr }
      pure addr) := fun ranges =>
    Succeeds.bind (modifyMm_serves pid _) fun _ =>
      Succeeds.bind (unmapRanges_serves ranges) fun _ =>
      Succeeds.bind mapNewRange_empty_serves fun _ => Succeeds.bind (modifyMm_serves pid _) fun _ =>
        Succeeds.pure fun _ h => h
  rw [mmapFixed, if_neg (not_not.mpr hpage), checkedAdd, if_pos (by omega), getSome_bind,
    Nat.add_zero]
  refine Succeeds.bind_triple (ensurePartialMultiPageRangesSplit_serve hinv hmm hsound addr addr)
    (fun _ => ?_) fun _ => ?_
  · exact Keeps.bind (@getProcess_serves pid).stays fun task => Keeps.bind (Keeps.ofExcept _)
      fun _ => (hrest _).stays
  refine Triple.of_pre fun w₁ h₁ => ?_
  obtain ⟨-, mm₁, hsplit, -, ht⟩ := h₁
  refine Triple.bind (getProcess_known hsplit.mms) fun task => Triple.of_pre fun w₂ h₂ => ?_
  obtain ⟨rfl, rfl⟩ := h₂
  refine Triple.bind (R := fun _ w' => w' = w₂) (Triple.ofExcept (fun _ _ _ hw => hw)
    ?_) fun _ => ?_
  · intro e w' he hw _
    rw [hw]
    exact ⟨task.mm.state, hsplit.mms, ht, he⟩
  · exact (hrest _).good.imp (fun w' hw => hw ▸ World.live_of_mms hsplit.mms)
      (fun _ _ _ _ => trivial) fun _ _ hbad hn => absurd hbad hn

end Mmap

/-! ### The address that `mremap` returns -/

section Returned

variable {w₀ : World} {pid old oldLen newLen target : Nat} {mm : MmState}
  {states : List RemapPageState} {perms : Perms}

/-- What is returned in the end is a page. -/
theorem then_page {K : World → Prop} {c : M Unit} (hpage : target % PGSIZE = 0) :
    Triple K (do c; pure target) (fun t _ => t % PGSIZE = 0) (fun _ _ => True) :=
  Triple.bind ((triple_true c).pre fun _ _ => trivial) fun _ => Triple.pure fun _ _ => hpage

/-- A range comes to lie at a page boundary. -/
theorem remapTo_page (hold : old % PGSIZE = 0) (htarget : target % PGSIZE = 0) :
    Triple (fun _ => True) (remapTo pid old oldLen newLen target states perms)
      (fun t _ => t % PGSIZE = 0) (fun _ _ => True) := by
  unfold remapTo remapSame remapMove
  refine Triple.bind (triple_true _) fun _ => Triple.ite (fun _ => ?_) fun _ => ?_
  · refine Triple.ite (fun _ => then_page hold) fun _ => Triple.ite (fun _ => ?_) fun _ => ?_
    · refine Triple.bind (triple_true _) fun _ => ?_
      exact Triple.ite (fun _ => Triple.throw fun _ _ => trivial) fun _ => then_page hold
    · exact Triple.pure fun _ _ => hold
  · refine Triple.bind (triple_true _) fun _ => ?_
    refine Triple.ite (fun _ => Triple.throw fun _ _ => trivial) fun _ => ?_
    refine Triple.bind (triple_true _) fun _ => ?_
    refine Triple.ite (fun _ => Triple.throw fun _ _ => trivial) fun _ => ?_
    refine Triple.bind (triple_true _) fun _ => Triple.bind (triple_true _) fun _ => ?_
    exact Triple.bind (triple_true _) fun _ => then_page htarget

/-- A range comes to lie at a page boundary, wherever there is room. -/
theorem remapAnywhere_page (hmm : w₀.mms.get? pid = some mm) (hsound : mm.Sound)
    (hold : old % PGSIZE = 0) (mayMove : Bool) :
    Triple (fun w => w = w₀) (remapAnywhere pid old oldLen newLen mayMove states perms)
      (fun t _ => t % PGSIZE = 0) (fun _ _ => True) := by
  unfold remapAnywhere
  refine Triple.ite (fun _ => ?_) fun _ => ?_
  · exact Triple.ite (fun _ => then_page hold) fun _ => Triple.pure fun _ _ => hold
  refine Triple.bind (getProcess_known hmm) fun task => Triple.of_pre fun w₁ h₁ => ?_
  obtain ⟨-, rfl⟩ := h₁
  refine Triple.ite (fun _ => then_page hold) fun _ => ?_
  refine Triple.ite (fun _ => Triple.throw fun _ _ => trivial) fun _ => ?_
  refine Triple.bind (R := fun t _ => t % PGSIZE = 0) (Triple.getSome ?_
    fun _ _ _ => trivial) fun t => Triple.of_pre ?_
  · intro t _ hfound _
    exact (MmState.findFree_some _ _ (.inl hsound.aligned.searchStart) hfound).1
  · intro _ ht
    exact (remapTo_page hold ht).pre fun _ _ => trivial

/-- `mremap` returns a page boundary. -/
theorem doMremap_page {oldSize newSize flags newAddr : Nat} (hmm : w₀.mms.get? pid = some mm)
    (hsound : mm.Sound) :
    Triple (fun w => w = w₀) (doMremap pid old oldSize newSize flags newAddr)
      (fun t _ => old % PGSIZE = 0 ∧ t % PGSIZE = 0) (fun _ _ => True) := by
  unfold doMremap
  refine Triple.ite (fun _ => Triple.throw fun _ _ => trivial) fun hargs => ?_
  refine Triple.ite (fun _ => Triple.throw fun _ _ => trivial) fun _ => ?_
  rw [not_or, not_or, not_not] at hargs
  have hold : old % PGSIZE = 0 := hargs.2.2
  refine Triple.bind (R := fun _ w => w = w₀) (Triple.getSome (fun _ _ _ hw => hw)
    fun _ _ _ => trivial) fun _ => ?_
  refine Triple.bind (R := fun _ w => w = w₀) (Triple.getSome (fun _ _ _ hw => hw)
    fun _ _ _ => trivial) fun _ => ?_
  refine Triple.bind (R := fun _ w => w = w₀) ((getProcess_known hmm).post
    fun _ _ h => h.1) fun _ => ?_
  refine Triple.bind (R := fun _ w => w = w₀) (Triple.ofExcept (fun _ _ _ hw => hw)
    fun _ _ _ _ => trivial) fun _ => ?_
  refine Triple.ite (fun _ => ?_) fun _ => Triple.ite (fun _ => Triple.throw fun _ _ => trivial) ?_
  · exact (remapAnywhere_page hmm hsound hold _).post fun _ _ h => ⟨hold, h⟩
  · intro htarget
    exact (remapTo_page hold (not_not.mp htarget)).imp (fun _ _ => trivial)
      (fun _ _ h => ⟨hold, h⟩) fun _ _ h => h

end Returned

/-! ### The four calls -/

/-- A call that works on the pages of a range. -/
inductive RangeCall where
  | mmap (addr len prot flags fd offset : Nat)
  | munmap (addr len : Nat)
  | mprotect (addr len prot : Nat)
  | mremap (oldAddr oldSize newSize flags newAddr : Nat)

namespace RangeCall

/-- What the call returns, zero where the source returns nothing else. -/
def run (pid : Nat) : RangeCall → M Nat
  | .mmap addr len prot flags fd offset => doMmap pid addr len prot flags fd offset
  | .munmap addr len => do
    doMunmap pid addr len
    pure 0
  | .mprotect addr len prot => do
    doMprotect pid addr len prot
    pure 0
  | .mremap oldAddr oldSize newSize flags newAddr =>
    doMremap pid oldAddr oldSize newSize flags newAddr

/-- The addresses and lengths are `usize` values. -/
def Usize : RangeCall → Prop
  | .mmap addr len _ _ _ _ => addr < usizeMod ∧ len < usizeMod
  | .munmap addr len => addr < usizeMod ∧ len < usizeMod
  | .mprotect addr len _ => addr < usizeMod ∧ len < usizeMod
  | .mremap oldAddr oldSize newSize _ newAddr =>
    oldAddr < usizeMod ∧ oldSize < usizeMod ∧ newSize < usizeMod ∧ newAddr < usizeMod

/-- The rounded end of a range that the call names is past `usize::MAX`. -/
def PastEnd : RangeCall → Prop
  | .mmap addr len _ _ _ _ => usizeMod ≤ addr + roundUp len
  | .munmap addr len => usizeMod ≤ addr + roundUp len
  | .mprotect addr len _ => usizeMod ≤ roundUp (addr + len)
  | .mremap oldAddr oldSize newSize flags newAddr =>
    usizeMod ≤ oldAddr + roundUp oldSize ∨ usizeMod ≤ oldAddr + roundUp newSize ∨
      flags &&& MREMAP_FIXED ≠ 0 ∧ usizeMod ≤ newAddr + roundUp newSize

/-- The call that returned `ret` did what it is for to the pages that meet its range, and left the
others alone. A range of `n` bytes that starts at a page meets `roundUp n / PGSIZE` pages. -/
def Processed (pid ret : Nat) (v : MapView) (mm : MmState) (v' : MapView) (mm' : MmState) :
    RangeCall → Prop
  | .mmap addr len prot flags fd offset =>
    ret % PGSIZE = 0 ∧ (flags &&& MAP_FIXED ≠ 0 → ret = addr) ∧
      RangeMapped pid ret (roundUp len) (protToPerms prot) (backingOf flags fd offset) v mm v' mm'
  | .munmap addr len =>
    addr % PGSIZE = 0 ∧ RangeRemoved pid addr (addr + roundUp len) v mm v' mm'
  | .mprotect addr len prot =>
    v'.mms.get? pid = some mm' ∧
      (∀ p ∈ protectedPages addr len, mm'.flagsAt .mapped p = some (protToPerms prot)) ∧
      ∀ a, alignDown a ∉ protectedPages addr len → mm'.viewAt v'.frames a = mm.viewAt v.frames a
  | .mremap oldAddr oldSize newSize _ _ =>
    (oldAddr % PGSIZE = 0 ∧ ret % PGSIZE = 0) ∧
      Remapped pid oldAddr ret (roundUp oldSize / PGSIZE) (roundUp newSize / PGSIZE) v mm v' mm'

/-- What a call reports as done was done to all pages of the range, and a range that does not fit in
the word is refused, with nothing changed. -/
def Honest (c : RangeCall) (w : World) (pid : Nat) (mm : MmState) : Prop :=
  (∀ ret, ((c.run pid).run w).1 = .ok ret →
    ∃ mm', c.Processed pid ret w.mapView mm ((c.run pid).run w).2.mapView mm') ∧
  (c.PastEnd → Rejects (c.run pid) w)

/-- The calls whose lengths do not wrap when they are rounded, and those with a length that wraps
which the checks of the call refuse for another reason. The end of an `mprotect` may wrap before it
is rounded, since that addition is checked; otherwise its range may not cut an entry that is not
split. -/
def Fits (w : World) (pid : Nat) (mm : MmState) : RangeCall → Prop
  | .mmap addr len _ flags fd _ =>
    len + (PGSIZE - 1) < usizeMod ∨ ¬ w.TakesEmpty pid mm addr flags fd
  | .munmap addr len => len + (PGSIZE - 1) < usizeMod ∨ addr % PGSIZE ≠ 0
  | .mprotect addr len prot =>
    usizeMod ≤ addr + len ∨
      addr + len + (PGSIZE - 1) < usizeMod ∧
        ((∀ p ∈ protectedPages addr len, (mm.recordAt .mapped p).isSome) →
          mm.KeepsWithin (protectedPages addr len) (protToPerms prot))
  | .mremap oldAddr oldSize newSize flags newAddr =>
    (oldSize + (PGSIZE - 1) < usizeMod ∧ newSize + (PGSIZE - 1) < usizeMod) ∨
      ¬ mm.TakesRemap oldAddr oldSize newSize flags newAddr

/-- A call that is refused is honest. -/
theorem Honest.of_rejects {c : RangeCall} {w : World} {pid : Nat} {mm : MmState}
    (h : Rejects (c.run pid) w) : c.Honest w pid mm := by
  refine ⟨?_, fun _ => h⟩
  intro ret hok
  obtain ⟨e, he⟩ := h
  rw [he] at hok
  cases hok

section Results

variable {w : World} {pid addr len prot flags fd offset : Nat} {mm : MmState}

/-! ### `munmap` -/

/-- `munmap` refuses an address inside a page and a range past the end of the word. -/
theorem munmap_rejects (h : addr % PGSIZE ≠ 0 ∨ usizeMod ≤ addr + alignUp len) :
    Rejects ((munmap addr len).run pid) w := by
  refine Rejects.bind (Rejects.ite (fun _ => Rejects.throw _) fun hargs => ?_)
  refine Rejects.bind (Rejects.getSome _ (if_neg ?_))
  have haddr : addr % PGSIZE = 0 := by
    by_contra hno
    exact hargs (.inr hno)
  exact not_lt.mpr (h.resolve_left (not_not.mpr haddr))

/-- A range that fits is unmapped as a whole. -/
theorem munmap_honest (hinv : FrameInv w) (hmm : w.mms.get? pid = some mm) (hsound : mm.Sound)
    (hfits : (munmap addr len).Fits w pid mm) : (munmap addr len).Honest w pid mm := by
  by_cases haddr : addr % PGSIZE = 0
  swap
  · exact Honest.of_rejects (munmap_rejects (.inl haddr))
  have hup : alignUp len = roundUp len :=
    alignUp_eq_roundUp (hfits.resolve_right (not_not.mpr haddr))
  refine ⟨?_, fun hpast => munmap_rejects (.inr (hup ▸ hpast))⟩
  intro ret hok
  have hcall : Triple (fun w' => w' = w) ((munmap addr len).run pid)
      (fun _ w' => ∃ mm', RangeRemoved pid addr (addr + alignUp len) w.mapView mm w'.mapView mm')
      (fun _ _ => True) :=
    Triple.bind (doMunmap_view hinv hmm hsound) fun _ => Triple.pure
      fun _ ⟨_, _, mm', hremoved, _⟩ => ⟨mm', hremoved⟩
  obtain ⟨mm', hremoved⟩ := (hcall w rfl).1 ret hok
  rw [hup] at hremoved
  exact ⟨mm', haddr, hremoved⟩

/-- A range that was unmapped as a whole fits. -/
theorem munmap_fits (hinv : FrameInv w) (hmm : w.mms.get? pid = some mm) (hsound : mm.Sound)
    (husize : (munmap addr len).Usize)
    (hserved : ¬ (((munmap addr len).run pid).run w).2.Marked)
    (h : (munmap addr len).Honest w pid mm) : (munmap addr len).Fits w pid mm := by
  by_contra hno
  obtain ⟨hwraps, haddr⟩ := not_or.mp hno
  rw [not_lt] at hwraps
  have hzero : alignUp len = 0 := alignUp_eq_zero husize.2 hwraps
  have hpast : usizeMod ≤ addr + roundUp len :=
    (usizeMod_le_roundUp hwraps).trans (Nat.le_add_left _ _)
  have hlen : len ≠ 0 := by
    rintro rfl
    exact absurd hwraps (by decide)
  -- the wrapped call succeeds
  have hmunmap := doMunmap_serve hinv hmm hsound hlen (not_not.mp haddr)
    (by rw [hzero]; exact husize.1)
  exact (Accepts.of_succeeds (Q := fun _ => World.Live pid)
    (Succeeds.bind hmunmap fun _ => Succeeds.pure fun _ h => h) rfl).not_rejects hserved (h.2 hpast)

/-! ### `mmap` -/

/-- `mmap` refuses a range past the end of the word. -/
theorem mmap_rejects_past (hmm : w.mms.get? pid = some mm) (hlen : len + (PGSIZE - 1) < usizeMod)
    (hpast : (mmap addr len prot flags fd offset).PastEnd) :
    Rejects ((mmap addr len prot flags fd offset).run pid) w := by
  have hup : alignUp len = roundUp len := alignUp_eq_roundUp hlen
  have hend : usizeMod ≤ addr + alignUp len := hup ▸ hpast
  have hshort : alignUp len < usizeMod := hup ▸ roundUp_lt hlen
  refine (doMmap_ways hmm).elim id fun ⟨_, hrun⟩ => ?_
  show Rejects (doMmap pid addr len prot flags fd offset) w
  rw [Rejects, hrun]
  refine Rejects.ite (fun _ => ?_) fun _ => ?_
  · refine Rejects.ite (fun _ => Rejects.throw _) fun _ => ?_
    exact Rejects.bind (Rejects.getSome _ (if_neg (not_lt.mpr hend)))
  · exact mmapAnywhere_rejects hmm (alignUp_page len) (.inr ⟨by omega, hend⟩)

/-- With a length that wraps, the call maps no page, or is refused. -/
theorem mmap_rejects_empty (hmm : w.mms.get? pid = some mm) (hzero : alignUp len = 0)
    (haddr : addr < usizeMod) (hno : ¬ w.TakesEmpty pid mm addr flags fd) :
    Rejects ((mmap addr len prot flags fd offset).run pid) w := by
  refine (doMmap_ways hmm).elim id fun ⟨⟨_, hprivate, hfile⟩, hrun⟩ => ?_
  show Rejects (doMmap pid addr len prot flags fd offset) w
  rw [Rejects, hrun, hzero]
  refine Rejects.ite (fun hfixed => ?_) fun _ => ?_
  swap
  · exact mmapAnywhere_rejects hmm (by decide) (.inl rfl)
  refine Rejects.ite (fun _ => Rejects.throw _) fun hpage => ?_
  -- the split finds nothing, and the checks fail
  obtain ⟨hnone, hfail⟩ : mm.splitPartialMultiPageTargets addr addr = [] ∧
      mm.checkFixed addr addr ≠ .ok () := by
    by_contra hnot
    refine hno ⟨hprivate, hfile, hfixed, not_not.mp hpage, ?_⟩
    intro hnone
    by_contra hfail
    exact hnot ⟨hnone, hfail⟩
  obtain ⟨task, hget, rfl⟩ := run_getProcess_known hmm
  rw [checkedAdd, if_pos (by omega), getSome_bind, Nat.add_zero]
  refine Rejects.after (run_split_nothing hmm hnone) (Rejects.after hget (Rejects.bind ?_))
  cases hcheck : task.mm.state.checkFixed addr addr with
  | ok u => exact absurd hcheck hfail
  | error e => exact Rejects.ofExcept rfl

/-- A range that fits is mapped as a whole. -/
theorem mmap_honest (hinv : FrameInv w) (hmm : w.mms.get? pid = some mm) (hsound : mm.Sound)
    (husize : (mmap addr len prot flags fd offset).Usize)
    (hfits : (mmap addr len prot flags fd offset).Fits w pid mm) :
    (mmap addr len prot flags fd offset).Honest w pid mm := by
  by_cases hlen : len + (PGSIZE - 1) < usizeMod
  · refine ⟨?_, mmap_rejects_past hmm hlen⟩
    intro ret hok
    obtain ⟨hpage, -, hfixed, mm', hmapped, -⟩ := (doMmap_view hinv hmm hsound w rfl).1 ret hok
    rw [alignUp_eq_roundUp hlen] at hmapped
    exact ⟨mm', hpage, hfixed, hmapped⟩
  · have hzero := alignUp_eq_zero husize.2 (not_lt.mp hlen)
    exact Honest.of_rejects (mmap_rejects_empty hmm hzero husize.1 (hfits.resolve_left hlen))

/-- A range that was mapped as a whole fits. -/
theorem mmap_fits (hinv : FrameInv w) (hmm : w.mms.get? pid = some mm) (hsound : mm.Sound)
    (husize : (mmap addr len prot flags fd offset).Usize)
    (hserved : ¬ (((mmap addr len prot flags fd offset).run pid).run w).2.Marked)
    (h : (mmap addr len prot flags fd offset).Honest w pid mm) :
    (mmap addr len prot flags fd offset).Fits w pid mm := by
  by_contra hno
  obtain ⟨hwraps, htakes⟩ := not_or.mp hno
  rw [not_lt] at hwraps
  obtain ⟨hprivate, hfile, hfixed, hpage, hpasses⟩ := not_not.mp htakes
  have hzero : alignUp len = 0 := alignUp_eq_zero husize.2 hwraps
  have hpast : usizeMod ≤ addr + roundUp len :=
    (usizeMod_le_roundUp hwraps).trans (Nat.le_add_left _ _)
  have hlen : len ≠ 0 := by
    rintro rfl
    exact absurd hwraps (by decide)
  obtain ⟨e, hrej⟩ := h.2 hpast
  -- the call is the fixed mapping of no page
  have hrun : ((mmap addr len prot flags fd offset).run pid).run w
      = (mmapFixed pid addr 0 (protToPerms prot) (backingOf flags fd offset)).run w := by
    show (doMmap pid addr len prot flags fd offset).run w = _
    rw [doMmap, if_neg hlen, if_neg hprivate, run_bind_ok (mmapFileBacking_run hmm hfile),
      if_pos hfixed, hzero]
  rw [hrun] at hrej hserved
  obtain ⟨mm', hget, htargets, hcheck⟩ :=
    (mmapFixed_empty_error hinv hmm hsound husize.1 hpage w rfl).2 e (by rw [hrej]) hserved
  rw [hrej] at hget
  cases hmm.symm.trans hget
  rw [hpasses (List.eq_nil_iff_forall_not_mem.mpr fun v hv => by cases htargets v hv)] at hcheck
  cases hcheck

/-! ### `mprotect` -/

/-- A range that fits is protected as a whole. -/
theorem mprotect_honest (hinv : FrameInv w) (hmm : w.mms.get? pid = some mm) (hsound : mm.Sound)
    (husize : (mprotect addr len prot).Usize) (hfits : (mprotect addr len prot).Fits w pid mm) :
    (mprotect addr len prot).Honest w pid mm := by
  rcases hfits with hover | ⟨hend, hwithin⟩
  · -- the end is past the word before it is rounded
    refine Honest.of_rejects (Rejects.bind ?_)
    have hlen : len ≠ 0 := by
      have haddr := husize.1
      omega
    rw [doMprotect, if_neg hlen]
    exact Rejects.bind (Rejects.getSome _ (if_neg (not_lt.mpr hover)))
  refine ⟨?_, fun hpast => absurd hpast (not_le.mpr (roundUp_lt hend))⟩
  intro ret hok
  by_cases hlen : len = 0
  · subst hlen
    exact ⟨mm, hmm, fun p hp => (by cases hp), fun _ _ => rfl⟩
  have hcall : Triple (fun w' => w' = w) ((mprotect addr len prot).run pid)
      (fun _ => Reflagged w pid mm (alignDown addr) (alignUp (addr + len)) (protToPerms prot))
      (fun _ _ => True) :=
    Triple.bind (doMprotect_view hinv hmm hsound hlen (by omega)) fun _ => Triple.pure fun _ h => h
  -- the pages below the unrounded end are those of the rounded one
  obtain ⟨mm', hget, hmapped, hinside, houtside⟩ := ((hcall w rfl).1 ret hok).effect hlen hend
  refine ⟨mm', hget, ?_, houtside.mpr (hwithin hmapped)⟩
  intro p hp
  have hp' : alignDown p ∈ protectedPages addr len := by
    rw [alignDown_of_mem hp]
    exact hp
  rw [hinside p .mapped hp', MmState.flagsAt]
  obtain ⟨r, hr⟩ := Option.isSome_iff_exists.mp (hmapped p hp)
  rw [hr]
  rfl

/-- A range that was protected as a whole fits. -/
theorem mprotect_fits (hinv : FrameInv w) (hmm : w.mms.get? pid = some mm) (hsound : mm.Sound)
    (hserved : ¬ (((mprotect addr len prot).run pid).run w).2.Marked)
    (h : (mprotect addr len prot).Honest w pid mm) : (mprotect addr len prot).Fits w pid mm := by
  by_cases hlast : usizeMod ≤ addr + len
  · exact .inl hlast
  rw [not_le] at hlast
  -- an error says that a page of the range is missing
  have herror : len ≠ 0 → ∀ e, (((mprotect addr len prot).run pid).run w).1 = .error e →
      ¬ ∀ p ∈ pageRange (alignDown addr) (alignUp (addr + len)),
        (mm.recordAt .mapped p).isSome := by
    intro hlen e he
    have hcall : Triple (fun w' => w' = w) ((mprotect addr len prot).run pid)
        (fun _ => Unless World.Marked fun _ => True)
        (fun e => Unless World.Marked
          (Unprotected w pid mm (alignDown addr) (alignUp (addr + len)) e)) :=
      Triple.bind (doMprotect_error hinv hmm hsound hlen hlast) fun _ => Triple.pure fun _ h => h
    exact ((hcall w rfl).2 e he hserved).missing.2
  by_cases hend : addr + len + (PGSIZE - 1) < usizeMod
  swap
  · -- the rounded end wraps to zero, and the call finds no page to protect
    rw [not_lt] at hend
    obtain ⟨e, hrej⟩ := h.2 (usizeMod_le_roundUp hend)
    by_cases hlen : len = 0
    · subst hlen
      cases hrej
    · have hmissing := herror hlen e (by rw [hrej])
      rw [alignUp_eq_zero hlast hend, pageRange, Nat.zero_sub] at hmissing
      exact absurd (fun p hp => by cases hp) hmissing
  refine .inr ⟨hend, ?_⟩
  -- the empty length answers before it looks
  intro hmapped
  by_cases hlen : len = 0
  · subst hlen
    rintro k m - - ⟨p, hp, -⟩
    cases hp
  -- the call answers, or a page that the claim has mapped would be missing
  cases hr : (((mprotect addr len prot).run pid).run w).1 with
  | error e =>
    have hmissing := herror hlen e hr
    rw [pageRange_alignUp hlen hend] at hmissing
    exact absurd hmapped hmissing
  | ok ret =>
    have hcall : Triple (fun w' => w' = w) ((mprotect addr len prot).run pid)
        (fun _ => Reflagged w pid mm (alignDown addr) (alignUp (addr + len)) (protToPerms prot))
        (fun _ _ => True) :=
      Triple.bind (doMprotect_view hinv hmm hsound hlen hlast) fun _ => Triple.pure fun _ h => h
    obtain ⟨mm', hget, -, -, houtside⟩ := ((hcall w rfl).1 ret hr).effect hlen hend
    obtain ⟨mm'', hget', -, hviews⟩ := h.1 ret hr
    cases hget.symm.trans hget'
    exact houtside.mp hviews

/-! ### `mremap` -/

variable {oldAddr oldSize newSize newAddr : Nat}

/-- A range that fits is moved as a whole. -/
theorem mremap_honest (hinv : FrameInv w) (hmm : w.mms.get? pid = some mm) (hsound : mm.Sound)
    (hfits : (mremap oldAddr oldSize newSize flags newAddr).Fits w pid mm) :
    (mremap oldAddr oldSize newSize flags newAddr).Honest w pid mm := by
  by_cases htakes : mm.TakesRemap oldAddr oldSize newSize flags newAddr
  swap
  · exact Honest.of_rejects (doMremap_rejects hmm htakes)
  obtain ⟨hold, hnew⟩ := hfits.resolve_right (not_not.mpr htakes)
  -- the ends are below the word here, so rounding up is exact
  constructor
  · intro ret hok
    obtain ⟨mm', hmoved, -⟩ := (doMremap_view hinv hmm hsound w rfl).1 ret hok
    rw [alignUp_eq_roundUp hold, alignUp_eq_roundUp hnew] at hmoved
    exact ⟨mm', (doMremap_page hmm hsound w rfl).1 ret hok, hmoved⟩
  · -- the checks would have refused an end past the word
    intro hpast
    obtain ⟨-, -, -, holdEnd, hnewEnd, -, hroom⟩ := htakes
    rw [alignUp_eq_roundUp hold] at holdEnd hroom
    rw [alignUp_eq_roundUp hnew] at hnewEnd hroom
    exfalso
    rcases hpast with hpast | hpast | ⟨hfixed, hpast⟩
    · omega
    · omega
    · rw [MmState.hasRoom, if_pos hfixed, Bool.and_eq_true] at hroom
      obtain ⟨-, hroom⟩ := hroom
      rw [MmState.roomAt] at hroom
      by_cases heq : newAddr = oldAddr
      · omega
      · rw [if_neg heq, Bool.and_eq_true, Bool.and_eq_true, decide_eq_true_eq] at hroom
        omega

/-- A range that was moved as a whole fits. -/
theorem mremap_fits (hinv : FrameInv w) (hmm : w.mms.get? pid = some mm) (hsound : mm.Sound)
    (hserved : ¬ (((mremap oldAddr oldSize newSize flags newAddr).run pid).run w).2.Marked)
    (h : (mremap oldAddr oldSize newSize flags newAddr).Honest w pid mm) :
    (mremap oldAddr oldSize newSize flags newAddr).Fits w pid mm := by
  by_contra hno
  obtain ⟨hwraps, htakes⟩ := not_or.mp hno
  have hpast : (mremap oldAddr oldSize newSize flags newAddr).PastEnd := by
    rcases not_and_or.mp hwraps with hold | hnew
    · exact .inl ((usizeMod_le_roundUp (not_lt.mp hold)).trans (Nat.le_add_left _ _))
    · exact .inr (.inl ((usizeMod_le_roundUp (not_lt.mp hnew)).trans (Nat.le_add_left _ _)))
  exact (doMremap_accepts hinv hmm hsound (not_not.mp htakes)).not_rejects hserved (h.2 hpast)

end Results

end RangeCall

/-! ### The result -/

/-- A call whose lengths do not wrap when they are rounded, or which is refused for another
reason, does what it reports, in every run. In a run in which no service refuses a call, no other
call does. -/
theorem rounding_honest_iff {w : World} {pid : Nat} {mm : MmState} {c : RangeCall}
    (hinv : FrameInv w) (hmm : w.mms.get? pid = some mm) (hsound : mm.Sound) (husize : c.Usize) :
    (c.Fits w pid mm → c.Honest w pid mm) ∧
    (((c.run pid).run w).2.refused = false → c.Honest w pid mm → c.Fits w pid mm) := by
  have hunmarked : ((c.run pid).run w).2.refused = false → ¬ ((c.run pid).run w).2.Marked := by
    intro hserved
    rw [World.Marked, hserved]
    decide
  cases c with
  | mmap =>
    refine ⟨RangeCall.mmap_honest hinv hmm hsound husize, ?_⟩
    intro hserved
    exact RangeCall.mmap_fits hinv hmm hsound husize (hunmarked hserved)
  | munmap =>
    refine ⟨RangeCall.munmap_honest hinv hmm hsound, ?_⟩
    intro hserved
    exact RangeCall.munmap_fits hinv hmm hsound husize (hunmarked hserved)
  | mprotect =>
    refine ⟨RangeCall.mprotect_honest hinv hmm hsound husize, ?_⟩
    intro hserved
    exact RangeCall.mprotect_fits hinv hmm hsound (hunmarked hserved)
  | mremap =>
    refine ⟨RangeCall.mremap_honest hinv hmm hsound, ?_⟩
    intro hserved
    exact RangeCall.mremap_fits hinv hmm hsound (hunmarked hserved)

/-- `init` unmaps the second of its pages: the length fits, so the call does what it reports. -/
theorem rounding_honest_iff_sampleMapped :
    ∃ mm, sampleMapped.mms.get? 1 = some mm ∧
      (RangeCall.munmap 0x20001000 PGSIZE).Honest sampleMapped 1 mm := by
  obtain ⟨mm, hmm, hsound⟩ := @World.sound_of_check sampleMapped 1 (by decide +kernel)
  refine ⟨mm, hmm, (@rounding_honest_iff sampleMapped 1 mm (.munmap 0x20001000 PGSIZE)
    sampleMapped_reachable.frameInv hmm hsound ⟨by decide, by decide⟩).1 (.inl (by decide))⟩

/-- `init` grows its two pages to `usize::MAX` bytes. The length wraps to zero, and the call
succeeds and has unmapped both pages. -/
theorem mremap_wraps_to_nothing :
    ∃ mm, sampleMapped.mms.get? 1 = some mm ∧ mm.Sound ∧ FrameInv sampleMapped ∧
      (RangeCall.mremap 0x20000000 8192 usizeMax 0 0).Usize ∧
      ((doMremap 1 0x20000000 8192 usizeMax 0 0).run sampleMapped).2.refused = false ∧
      ((doMremap 1 0x20000000 8192 usizeMax 0 0).run sampleMapped).1 = .ok 0x20000000 ∧
      (((doMremap 1 0x20000000 8192 usizeMax 0 0).run sampleMapped).2.mms.get? 1).map
        (fun mm => (mm.lookupMemoryMap 0x20000000, mm.lookupMemoryMap 0x20001000))
          = some (none, none) ∧
      ¬ (RangeCall.mremap 0x20000000 8192 usizeMax 0 0).Honest sampleMapped 1 mm := by
  obtain ⟨mm, hmm, hsound⟩ := @World.sound_of_check sampleMapped 1 (by decide +kernel)
  have hrun : ((doMremap 1 0x20000000 8192 usizeMax 0 0).run sampleMapped).1 = .ok 0x20000000 := by
    decide +kernel
  refine ⟨mm, hmm, hsound, sampleMapped_reachable.frameInv,
    ⟨by decide, by decide, by decide, by decide⟩, by decide +kernel, hrun, by decide +kernel, ?_⟩
  rintro ⟨-, hpast⟩
  obtain ⟨e, he⟩ := hpast (.inr (.inl (by decide)))
  rw [show ((RangeCall.mremap 0x20000000 8192 usizeMax 0 0).run 1).run sampleMapped
    = (doMremap 1 0x20000000 8192 usizeMax 0 0).run sampleMapped from rfl] at he
  rw [he] at hrun
  cases hrun

end Ape
