import Ape.Proofs.Views

/-!
# `Ape.Proofs.Handles`: a call through a descriptor

`with_fd_handle_mut` takes the handle out of the table, works on it and puts it back. The run of
such a call is the run of its body, on the handle and on the state without the descriptor.
-/

set_option autoImplicit false

namespace Ape

open Ape.Lib Cmd

/-- The handle that a call through `fd` works on. -/
def World.openAt (w : World) (pid fd : Nat) : Option FileHandle :=
  if 2 ^ 32 ≤ fd then none else (w.filesOf pid).bind (·.fds.get? fd)

/-- The state while a call works on the handle of `fd`. -/
def World.handleOut (w : World) (pid fd : Nat) : World :=
  ((modifyFiles pid (·.removeFd fd)).run w).2

/-- The state with the handle of `fd` back in the table. -/
def World.handleBack (w : World) (pid fd : Nat) (handle : FileHandle) : World :=
  ((modifyFiles pid (·.insertFd fd handle)).run w).2

section Run

variable {w : World} {pid fd : Nat} {handle : FileHandle} {α : Type}

/-- A call on a descriptor that is open runs its body. -/
theorem run_withFdHandleMut (h : w.openAt pid fd = some handle) (f : H α) :
    (withFdHandleMut pid fd f).run w = ((f.run (w.handleOut pid fd, handle)).1,
      (f.run (w.handleOut pid fd, handle)).2.1.handleBack pid fd
        (f.run (w.handleOut pid fd, handle)).2.2) := by
  unfold World.openAt at h
  split at h
  · cases h
  rename_i hfd
  obtain ⟨fs, hfs, hget⟩ := Option.bind_eq_some_iff.mp h
  obtain ⟨t, ht, rfl⟩ := Option.map_eq_some_iff.mp hfs
  have hremove : (modifyFiles pid (·.removeFd fd)).run w = (.ok (), w.handleOut pid fd) := rfl
  unfold withFdHandleMut
  rw [if_neg hfd, run_bind_ok (run_getProcess ht), hget, getSome_bind, run_bind_ok hremove,
    run_bind_ok (run_runWith _ _ _)]
  cases (f.run (w.handleOut pid fd, handle)).1 <;> rfl

/-- A call on a descriptor that is not open fails and changes nothing. -/
theorem run_withFdHandleMut_none (h : w.openAt pid fd = none) (f : H α) :
    ∃ e, (withFdHandleMut pid fd f).run w = (.error e, w) := by
  unfold withFdHandleMut
  unfold World.openAt at h
  split at h
  · rename_i hfd
    exact ⟨.invalidSlot, by rw [if_pos hfd]; rfl⟩
  rename_i hfd
  rw [if_neg hfd]
  cases ht : w.task? pid with
  | none =>
    have hgone : (getProcess pid).run w = (.error .notFound, w) := by
      rw [getProcess, run_gets_bind, ht]
      rfl
    exact ⟨.notFound, run_bind_error hgone⟩
  | some t =>
    have hget : t.files.fds.get? fd = none := by
      rw [World.filesOf, ht] at h
      exact h
    exact ⟨.invalidSlot, by rw [run_bind_ok (run_getProcess ht), hget]; rfl⟩

end Run

end Ape
