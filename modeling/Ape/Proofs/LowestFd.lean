import Ape.Proofs.Endpoints
import Mathlib.Order.Bounds.Basic

/-!
# `Ape.Proofs.LowestFd`: which number a new descriptor gets

POSIX asks for the lowest number that is not open. `dup` and `F_DUPFD` search for it.
`openat` takes `next_fd` as it is, and `pipe2` searches from `next_fd` on. A `close` leaves
`next_fd` where it was, so after a `close` the two kinds of call disagree.

`FilesState.Packed` is the condition under which they agree: every number below `next_fd` is
open. `lowest_descriptor_iff` proves that this is exact for `pipe2`, and that `openat` needs
also that `next_fd` itself is not open. The two duplications need nothing.
-/

set_option autoImplicit false

namespace Ape

open Ape.Lib Cmd

namespace FilesState

variable {fs : FilesState} {start fd : Nat}

/-- The numbers from `start` on that are not open. -/
def freeFrom (fs : FilesState) (start : Nat) : Set Nat := {n | start ≤ n ∧ fs.fds.get? n = none}

/-- Every number below `next_fd` is open. -/
def Packed (fs : FilesState) : Prop := ∀ n < fs.nextFd, fs.fds.get? n ≠ none

/-- The numbers that the search has passed are open. -/
theorem searchFd_passed {n k : Nat} (hs : fs.searchFd n start = some fd) (hle : start ≤ k)
    (hlt : k < fd) : fs.fds.get? k ≠ none := by
  induction n generalizing start with
  | zero => cases hs
  | succ n ih =>
    unfold searchFd at hs
    split at hs
    · rename_i hopen
      rcases Nat.eq_or_lt_of_le hle with rfl | hlater
      · intro hnone
        rw [OrdMap.contains, hnone] at hopen
        cases hopen
      · exact ih hs hlater
    · cases hs
      omega

/-- The search returns the lowest number that is not open. -/
theorem freeFd_isLeast (hs : fs.freeFd start = some fd) : IsLeast (fs.freeFrom start) fd := by
  obtain ⟨hnone, hle, -⟩ := freeFd_some hs
  refine ⟨⟨hle, hnone⟩, ?_⟩
  intro k hk
  by_contra hlt
  exact searchFd_passed hs hk.1 (by omega) hk.2

/-- In a packed table the lowest number that is not open is the lowest one from `next_fd` on. -/
theorem Packed.freeFrom_zero (hp : fs.Packed) : fs.freeFrom 0 = fs.freeFrom fs.nextFd := by
  ext n
  refine ⟨fun hn => ⟨?_, hn.2⟩, fun hn => ⟨Nat.zero_le n, hn.2⟩⟩
  by_contra hlt
  exact hp n (by omega) hn.2

/-- A number from `next_fd` on is the lowest one that is not open only in a packed table. -/
theorem packed_of_isLeast (hle : fs.nextFd ≤ fd) (hfd : IsLeast (fs.freeFrom 0) fd) :
    fs.Packed := by
  intro n hn hnone
  have := hfd.2 ⟨Nat.zero_le n, hnone⟩
  omega

/-- `next_fd` is the lowest number that is not open. -/
theorem nextFd_isLeast_iff :
    IsLeast (fs.freeFrom 0) fs.nextFd ↔ fs.Packed ∧ fs.fds.get? fs.nextFd = none := by
  constructor
  · intro h
    exact ⟨packed_of_isLeast (le_refl _) h, h.1.2⟩
  · rintro ⟨hp, hnone⟩
    rw [hp.freeFrom_zero]
    exact ⟨⟨le_refl _, hnone⟩, fun n hn => hn.1⟩

/-- The search from `next_fd` on finds the lowest number that is not open. -/
theorem freeFd_nextFd_isLeast_iff (hs : fs.freeFd fs.nextFd = some fd) :
    IsLeast (fs.freeFrom 0) fd ↔ fs.Packed := by
  have hleast := freeFd_isLeast hs
  constructor
  · intro h
    exact packed_of_isLeast hleast.1.1 h
  · intro hp
    rw [hp.freeFrom_zero]
    exact hleast

end FilesState

/-- `dup` and `F_DUPFD` return the lowest number that is not open, from their minimum on.
`openat` does so exactly when the table is packed and `next_fd` is not open, and `pipe2` exactly
when the table is packed. -/
theorem lowest_descriptor_iff (w : World) (pid : Nat) (fs : FilesState)
    (hfs : w.filesOf pid = some fs) :
    (∀ pathname flags n w', (doOpenat pid pathname flags).run w = (.ok n, w') →
      (IsLeast (fs.freeFrom 0) n ↔ fs.Packed ∧ fs.fds.get? fs.nextFd = none)) ∧
    (∀ fd n w', (doDup pid fd).run w = (.ok n, w') → IsLeast (fs.freeFrom 0) n) ∧
    (∀ fd cmd arg n w', cmd = F_DUPFD ∨ cmd = F_DUPFD_CLOEXEC →
      (doFcntl pid fd cmd arg).run w = (.ok n, w') → IsLeast (fs.freeFrom arg) n) ∧
    ∀ pipefd flags w', (doPipe2 pid pipefd flags).run w = (.ok (), w') →
      ∃ readFd writeFd v,
        (copyToUser pid pipefd (leBytes 4 readFd ++ leBytes 4 writeFd)).run v = (.ok (), w') ∧
        ((IsLeast (fs.freeFrom 0) readFd ∧ IsLeast (fs.freeFrom (readFd + 1)) writeFd) ↔
          fs.Packed) := by
  have hdup : ∀ fd cmd arg n w', cmd = F_DUPFD ∨ cmd = F_DUPFD_CLOEXEC →
      (doFcntl pid fd cmd arg).run w = (.ok n, w') → IsLeast (fs.freeFrom arg) n := by
    intro fd cmd arg n w' hcmd hrun
    obtain ⟨hfree, -⟩ := (doFcntl_tables fd arg hcmd (T := w.tables) hfs w rfl).1 n (by rw [hrun])
    exact FilesState.freeFd_isLeast hfree
  refine ⟨?_, fun fd n w' => hdup fd F_DUPFD 0 n w' (.inl rfl), hdup, ?_⟩
  · intro pathname flags n w' hrun
    obtain ⟨rfl, -⟩ := (doOpenat_tables pathname flags (T := w.tables) hfs w rfl).1 n (by rw [hrun])
    exact FilesState.nextFd_isLeast_iff
  · intro pipefd flags w' hrun
    obtain ⟨readFd, writeFd, readSlot, writeSlot, cloexec, v, hread, hwrite, hcopy, -⟩ :=
      (doPipe2_tables pipefd flags (T := w.tables) hfs w rfl).1 () (by rw [hrun])
    rw [hrun] at hcopy
    refine ⟨readFd, writeFd, v, hcopy, ?_⟩
    rw [and_iff_left (FilesState.freeFd_isLeast hwrite)]
    exact FilesState.freeFd_nextFd_isLeast_iff hread

/-- The table of `init` is packed, and its first `openat` returns 3. -/
theorem lowest_descriptor_iff_init : ∃ fs, sampleBoot.filesOf 1 = some fs ∧
    ((doOpenat 1 0x3ffff000 0).run sampleBoot).1 = .ok 3 ∧ IsLeast (fs.freeFrom 0) 3 := by
  have hrun : ((doOpenat 1 0x3ffff000 0).run sampleBoot).1 = .ok 3 := by decide +kernel
  have htable : (sampleBoot.filesOf 1).map (fun fs =>
      (fs.nextFd, (List.range 3).all fs.fds.contains, fs.fds.contains 3))
        = some (3, true, false) := by
    decide +kernel
  obtain ⟨fs, hfs, hfields⟩ := Option.map_eq_some_iff.mp htable
  simp only [Prod.mk.injEq] at hfields
  obtain ⟨hnext, hopen, hfree⟩ := hfields
  refine ⟨fs, hfs, hrun, ?_⟩
  refine ((lowest_descriptor_iff sampleBoot 1 fs hfs).1 0x3ffff000 0 3 _
    (Prod.ext hrun rfl)).mpr ⟨?_, ?_⟩
  · intro n hn hnone
    have hmem := List.all_eq_true.mp hopen n (List.mem_range.mpr (hnext ▸ hn))
    rw [OrdMap.contains, hnone] at hmem
    cases hmem
  · rw [hnext]
    simpa [OrdMap.contains] using hfree

/-- `init` has closed its standard input. -/
def sampleClosedStdin : World := sampleBoot.after (.syscall 1 (.close 0))

/-- The next `openat` returns 3 and leaves 0 free. -/
theorem openat_skips_closed_fd :
    Reachable sampleClosedStdin ∧
    ¬ ∀ pathname flags n w', (doOpenat 1 pathname flags).run sampleClosedStdin = (.ok n, w') →
      ∀ fs, sampleClosedStdin.filesOf 1 = some fs → IsLeast (fs.freeFrom 0) n := by
  refine ⟨sampleBoot_reachable.after (by decide +kernel), ?_⟩
  intro h
  have hrun : ((doOpenat 1 0x3ffff000 0).run sampleClosedStdin).1 = .ok 3 := by decide +kernel
  have htable : (sampleClosedStdin.filesOf 1).map (fun fs => fs.fds.contains 0) = some false := by
    decide +kernel
  obtain ⟨fs, hfs, hfree⟩ := Option.map_eq_some_iff.mp htable
  have hle := (h 0x3ffff000 0 3 _ (Prod.ext hrun rfl) fs hfs).2
    (show 0 ∈ fs.freeFrom 0 from ⟨le_refl 0, by simpa [OrdMap.contains] using hfree⟩)
  exact absurd hle (by decide)

end Ape
