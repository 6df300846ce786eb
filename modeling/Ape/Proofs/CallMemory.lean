import Ape.Proofs.UserCopies

/-!
# `Ape.Proofs.CallMemory`: the memory of a caller during its call

A call reads buffers of its caller and stores into others. `World.Serving` is the state in between:
the tables of the processes are as they were, the caller reads a known memory, and a view that sees
no memory is as it was. The copies take one such state to another, and every other command that
sees no memory stays in it.
-/

set_option autoImplicit false

namespace Ape

open Ape.Lib Cmd

/-- The process `pid` has a buffer `[a, a + n)`: its tables are sound, and the buffer is outside of
the part of the stack that has not grown. -/
structure World.Buffer (w : World) (pid a n : Nat) : Prop where
  frames : FrameInv w
  tables : ∃ mm, w.mms.get? pid = some mm ∧ mm.Sound ∧ ∀ x, a ≤ x → x < a + n → ¬ mm.Reserved x

/-- The tables that a buffer is in are those of every buffer of the process. -/
theorem World.Buffer.outside {w : World} {mm : MmState} {pid a n : Nat} (h : w.Buffer pid a n)
    (hmm : w.mms.get? pid = some mm) : ∀ x, a ≤ x → x < a + n → ¬ mm.Reserved x := by
  obtain ⟨mm', hmm', -, hout⟩ := h.tables
  rw [hmm] at hmm'
  cases hmm'
  exact hout

/-! ### Memories -/

section Memory

variable {m : Memory} {a : Nat}

/-- Bytes that are there already. -/
theorem overlay_held {bs : List UInt8} (h : m.HoldsBytes a bs) : overlay m a bs = m := by
  funext x
  unfold overlay
  split
  · rename_i hx
    have hbyte := (Memory.holdsBytes_iff m a bs).mp h (x - a) (by omega)
    rw [Nat.add_sub_cancel' hx.1] at hbyte
    rw [hbyte, List.getElem?_eq_getElem (by omega)]
  · rfl

/-- A store somewhere else. -/
theorem holdsBytes_overlay {b : Nat} {bs src : List UInt8}
    (hout : b + bs.length ≤ a ∨ a + src.length ≤ b) :
    Memory.HoldsBytes (overlay m a src) b bs ↔ m.HoldsBytes b bs := by
  rw [Memory.holdsBytes_iff, Memory.holdsBytes_iff]
  refine forall₂_congr fun i hi => ?_
  rw [overlay, if_neg (by omega)]

end Memory

/-! ### A call at work -/

/-- A call of `pid` is at work since `w₀`: the tables are as they were, `pid` reads `m`, and the
view `V` is `v`. -/
structure World.Serving {γ : Type} (w₀ : World) (pid : Nat) (V : World → γ) (v : γ) (m : Memory)
    (w : World) : Prop where
  frames : FrameInv w
  reads : w₀.Reads pid m w
  view : V w = v

section Serving

variable {γ : Type} {w₀ : World} {mm : MmState} {pid : Nat} {V : World → γ} {v : γ} {m : Memory}

/-- At the start of a call the memory is that of its caller. -/
theorem World.Serving.start {w : World} (hinv : FrameInv w) :
    w.Serving pid V (V w) (w.userByte pid) w := ⟨hinv, .refl w pid, rfl⟩

instance : BlindSignals World.readView where
  signal w pid _ := congrArg (·, w.frames) (w.mms_modifyTask pid fun _ => rfl)
  dropped _ _ := rfl
  missedIntr _ _ := rfl

/-- What a process reads depends on tables and frames only. -/
theorem World.Reads.congr {w w' : World} (h : w₀.Reads pid m w) (hv : w'.readView = w.readView) :
    w₀.Reads pid m w' := by
  have hmms : w'.mms = w.mms := congrArg Prod.fst hv
  have hframes : w'.frames = w.frames := congrArg Prod.snd hv
  have hlengths : w'.frameLength = w.frameLength := by
    funext c
    rw [World.frameLength, hframes, World.frameLength]
  refine ⟨hmms.trans h.1, hlengths.trans h.2.1, ?_⟩
  intro x
  rw [World.userByte_congr hmms fun _ _ => by rw [hframes]]
  exact h.2.2 x

/-- A command that sees neither the memory nor the view. -/
theorem serving_keeps {α : Type} {c : M α} (hread : Frames World.readView c) (hview : Frames V c)
    (hinv : Keeps FrameInv c) : Keeps (w₀.Serving pid V v m) c :=
  fun w h => ⟨hinv w h.frames, h.reads.congr (hread w), (hview w).trans h.view⟩

variable [BlindSpace V] [BlindLedger V pid]

/-- `copy_from_user` reads what is there. -/
theorem copyFromUser_serving (hsound : mm.Sound) (hmm : w₀.mms.get? pid = some mm) {a n : Nat}
    (hout : ∀ x, a ≤ x → x < a + n → ¬ mm.Reserved x) :
    Triple (w₀.Serving pid V v m) (copyFromUser pid a n)
      (fun bytes w => (bytes.length = n ∧ m.HoldsBytes a bytes) ∧ w₀.Serving pid V v m w)
      (fun _ => w₀.Serving pid V v m) := by
  intro w h
  obtain rfl : m = w.userByte pid := (funext h.reads.2.2).symm
  have hcopy := copyFromUser_exact h.frames hsound (by rw [h.reads.1]; exact hmm) hout
  have hstays : w₀.Serving pid V v (w.userByte pid) ((copyFromUser pid a n).run w).2 := by
    refine ⟨copyFromUser_keeps _ _ _ w h.frames, ?_, ?_⟩
    · exact h.reads.since hcopy.unchanged
    · exact (copyFromUser_frames (V := V) pid a n w).trans h.view
  exact ⟨fun bytes hr => ⟨hcopy.bytes bytes hr, hstays⟩, fun _ _ => hstays⟩

/-- `copy_to_user` stores its bytes, or a part of them. -/
theorem copyToUser_serving (hsound : mm.Sound) (hmm : w₀.mms.get? pid = some mm) {a : Nat}
    {src : List UInt8} (hout : ∀ x, a ≤ x → x < a + src.length → ¬ mm.Reserved x) :
    Triple (w₀.Serving pid V v m) (copyToUser pid a src)
      (fun _ => w₀.Serving pid V v (overlay m a src))
      (fun _ w => ∃ k, w₀.Serving pid V v (overlay m a (src.take k)) w) := by
  intro w h
  obtain rfl : m = w.userByte pid := (funext h.reads.2.2).symm
  have hcopy := copyToUser_exact h.frames hsound (by rw [h.reads.1]; exact hmm) hout
  have hstays : ∀ m', w.Reads pid m' ((copyToUser pid a src).run w).2 →
      w₀.Serving pid V v m' ((copyToUser pid a src).run w).2 := by
    intro m' hm'
    refine ⟨copyToUser_keeps _ _ _ w h.frames, h.reads.since hm', ?_⟩
    exact (copyToUser_frames (V := V) pid a src w).trans h.view
  refine ⟨fun u hr => hstays _ (hcopy.stored hr), ?_⟩
  intro e hr
  obtain ⟨k, hk⟩ := hcopy.part e hr
  exact ⟨k, hstays _ hk⟩

end Serving

end Ape
