import Ape.Proofs.Pipes
import Ape.Proofs.Control

/-!
# `Ape.Proofs.PipeEof`: when a pipe reports the end of file

`pipe_read` returns whether no writer is left, next to the bytes. `PipeHandle::read` drops
it, so an empty pipe looks like a closed one, also while its writers are open.
`PipeHandle::write` uses the flag of `pipe_write`, but that flag is about readers: a full
pipe accepts nothing and reports success.

`pipe_zero_means_eof_iff` says in which states of a pipe a zero is what it should be, for
the two calls on a handle and for `do_read` on a descriptor of the pipe. `do_read` reads in
chunks, and it returns zero exactly when the service answered its first chunk with no
bytes (`doRead_eq_zero`). So the writers that come between two chunks do not matter.
-/

set_option autoImplicit false

namespace Ape

open Ape.Lib Cmd

/-- The service answers a read with `r`. -/
def Ext.AnswersRead (a : Ext) : Except Err (List UInt8) → Prop
  | .ok bytes => a.err = none ∧ a.val = bytes.length ∧ (List.range bytes.length).map a.bytes = bytes
  | .error e => a.err = some e

/-! ### The loop of `do_read` -/

/-- The loop returns at least what it has read so far. -/
theorem readLoop_ge (pid bufPtr len fuel total : Nat) :
    Triple (fun _ => True) (readLoop pid bufPtr len fuel total) (fun n _ => total ≤ n)
      fun _ _ => True := by
  have hany : ∀ {α : Type} (c : H α), Triple (fun _ => True) c (fun _ _ => True) fun _ _ => True :=
    fun c s _ => ⟨fun _ _ => trivial, fun _ _ => trivial⟩
  induction fuel generalizing total with
  | zero => exact Triple.pure fun _ _ => Nat.le_refl total
  | succ fuel ih =>
    unfold readLoop
    refine Triple.ite (fun _ => ?_) fun _ => Triple.pure fun _ _ => Nat.le_refl total
    refine Triple.bind (hany _) fun handle => Triple.bind (hany _) fun bytes => ?_
    refine Triple.ite (fun _ => Triple.pure fun _ _ => Nat.le_refl total) fun _ => ?_
    refine Triple.bind (hany _) fun _ => Triple.bind (hany _) fun _ => ?_
    refine Triple.bind (hany _) fun _ => ?_
    have hle : total ≤ total + bytes.length := Nat.le_add_right _ _
    refine Triple.ite (fun _ => Triple.pure fun _ _ => hle) fun _ => ?_
    exact (ih (total + bytes.length)).post fun n _ h => hle.trans h

/-- The next answer is that a read has no bytes. -/
def Ext.Empty (a : Ext) : Prop := a.err = none ∧ a.val = 0

/-- A read has no bytes exactly when the service says so. -/
theorem fsRead_empty {a : Ext} (slot offset : Nat) {len : Nat} (hlen : 0 < len) :
    Triple (fun w => w.env w.tick = a) (fsRead slot offset len)
      (fun bytes _ => bytes = [] ↔ a.Empty) fun _ _ => ¬ a.Empty := by
  -- the answer of the call is the one that the environment has for this tick
  have hext : Triple (fun w => w.env w.tick = a) ext (fun b _ => b = a ∧ a.err = none)
      fun _ _ => ¬ a.Empty := by
    rintro w rfl
    unfold ext
    dsimp only
    cases herr : (w.env w.tick).err with
    | some e =>
      have hfull : ¬ (w.env w.tick).Empty := fun hempty => nomatch herr.symm.trans hempty.1
      exact ⟨fun _ h => (nomatch h), fun _ _ => hfull⟩
    | none =>
      refine ⟨fun b hb => ?_, fun _ h => (nomatch h)⟩
      cases hb
      exact ⟨rfl, rfl⟩
  unfold fsRead
  refine Triple.bind hext fun b => ?_
  refine Triple.of_pre fun w h => ?_
  obtain ⟨rfl, herr⟩ := h
  refine Triple.bind (R := fun _ _ => True) (fun _ _ => ⟨fun _ _ => trivial, fun _ h => nomatch h⟩)
    fun _ => Triple.pure fun _ _ => ?_
  -- the bytes are as many as the answer and the request allow
  rw [List.map_eq_nil_iff, List.range_eq_nil]
  constructor
  · intro hmin
    exact ⟨herr, by omega⟩
  · intro hempty
    rw [hempty.2, Nat.zero_min]

/-- The loop returns zero exactly when its first chunk has no bytes. -/
theorem readLoop_eq_zero {a : Ext} (pid bufPtr fuel : Nat) {len : Nat} (hlen : 0 < len) :
    Triple (fun s => s.1.env s.1.tick = a) (readLoop pid bufPtr len (fuel + 1) 0)
      (fun n _ => n = 0 ↔ a.Empty) fun _ _ => ¬ a.Empty := by
  unfold readLoop
  refine Triple.ite (fun _ => ?_) fun hle => absurd hlen hle
  refine Triple.bind (R := fun _ s => s.1.env s.1.tick = a) (Triple.gets fun _ h => h)
    fun handle => ?_
  have hchunk : 0 < min (len - 0) FS_SYNC_RW_CHUNK := by
    have hpos : 0 < FS_SYNC_RW_CHUNK := by decide
    omega
  refine Triple.bind (R := fun bytes _ => bytes = [] ↔ a.Empty)
    (Triple.inFst fun _ => fsRead_empty _ _ hchunk) fun bytes => ?_
  refine Triple.of_pre fun s hs => ?_
  refine Triple.ite (fun hnil => Triple.pure fun _ _ => iff_of_true rfl (hs.mp hnil)) fun hne => ?_
  -- the rest of the round has bytes to count, and it may fail
  have hsome : ¬ a.Empty := fun h => hne (hs.mpr h)
  have hany : ∀ {α : Type} (c : H α), Triple (fun _ => True) c (fun _ _ => True)
    fun _ _ => ¬ a.Empty :=
    fun c s _ => ⟨fun _ _ => trivial, fun _ _ => hsome⟩
  have hpos : 0 < bytes.length := List.length_pos_iff.mpr hne
  refine Triple.pre (K := fun _ => True) ?_ fun _ _ => trivial
  refine Triple.bind (hany _) fun _ => Triple.bind (hany _) fun _ =>
    Triple.bind (hany _) fun _ => ?_
  have hcount : ∀ n, 0 + bytes.length ≤ n → (n = 0 ↔ a.Empty) := by
    intro n hn
    exact iff_of_false (by omega) hsome
  refine Triple.ite (fun _ => Triple.pure fun _ _ => hcount _ (Nat.le_refl _)) fun _ => ?_
  exact (readLoop_ge pid bufPtr len fuel (0 + bytes.length)).imp (fun _ h => h)
    (fun n _ h => hcount n h) fun _ _ _ => hsome

/-- `do_read` returns zero exactly when the service had no byte for its first chunk. -/
theorem doRead_eq_zero {w : World} {pid fd bufPtr len : Nat} {t : TaskStruct} {handle : FileHandle}
    (ht : w.task? pid = some t) (hget : t.files.fds.get? fd = some handle) (hfd : fd < 2 ^ 32)
    (hlen : 0 < len) :
    ((doRead pid fd bufPtr len).run w).1 = .ok 0 ↔ (w.env w.tick).Empty := by
  let w₁ : World := ((modifyFiles pid (·.removeFd fd)).run w).2
  have hremove : (modifyFiles pid (·.removeFd fd)).run w = (.ok (), w₁) := rfl
  -- the handle is taken out and put back, so the value is that of the loop
  have hvalue : ((doRead pid fd bufPtr len).run w).1
      = ((readLoop pid bufPtr len len 0).run (w₁, handle)).1 := by
    unfold doRead withFdHandleMut
    rw [if_neg (by omega), if_neg (by omega), run_bind_ok (run_getProcess ht), hget, getSome_bind,
      run_bind_ok hremove, run_bind_ok (run_runWith _ _ _)]
    show ((ofExcept ((readLoop pid bufPtr len len 0).run (w₁, handle)).1 : M Nat).run _).1 = _
    cases ((readLoop pid bufPtr len len 0).run (w₁, handle)).1 <;> rfl
  obtain ⟨fuel, hfuel⟩ : ∃ fuel, len = fuel + 1 := ⟨len - 1, by omega⟩
  have hloop := readLoop_eq_zero (a := w.env w.tick) pid bufPtr fuel hlen (w₁, handle) rfl
  rw [← hfuel] at hloop
  rw [hvalue]
  -- a value is the one of the loop; an error is one, and then the answer was not empty
  cases hr : ((readLoop pid bufPtr len len 0).run (w₁, handle)).1 with
  | ok n =>
    have hzero : n = 0 ↔ (w.env w.tick).Empty := hloop.1 n hr
    rw [← hzero]
    constructor
    · intro h
      cases h
      rfl
    · intro h
      rw [h]
  | error e => exact iff_of_false (fun h => nomatch h) (hloop.2 e hr)

/-! ### The states of a pipe in which zero says too much -/

/-- No byte is left, and a writer may still send one. -/
def PipeState.Starved (p : PipeState) : Prop := p.buf = [] ∧ 0 < p.writers

/-- No byte fits, and a reader may still take one. -/
def PipeState.Full (p : PipeState) : Prop := PIPE_DEFAULT_CAPACITY ≤ p.buf.length ∧ 0 < p.readers

instance (p : PipeState) : Decidable p.Starved := inferInstanceAs (Decidable (_ ∧ _))
instance (p : PipeState) : Decidable p.Full := inferInstanceAs (Decidable (_ ∧ _))

/-- A read of a pipe returns no byte exactly when its buffer is empty. -/
theorem pipeHandle_read_nil {reg : PipeRegistry} {pipeId : Nat} {p : PipeState}
    (hp : reg.pipes.get? pipeId = some p) {len : Nat} (hlen : 0 < len) :
    ((PipeHandle.mk pipeId .read).read reg len).1 = .ok [] ↔ p.buf = [] := by
  rw [PipeHandle.read_some hp]
  constructor
  · intro h
    have htake : p.buf.take len = [] := Except.ok.inj h
    rcases List.take_eq_nil_iff.mp htake with hzero | hnil
    · omega
    · exact hnil
  · intro h
    rw [h, List.take_nil]

/-- A write on a pipe accepts no byte of a buffer exactly when the pipe is full. -/
theorem pipeHandle_write_zero {reg : PipeRegistry} {pipeId : Nat} {p : PipeState}
    (hp : reg.pipes.get? pipeId = some p) {src : List UInt8} (hsrc : src ≠ []) :
    ((PipeHandle.mk pipeId .write).write reg src).1 = .ok 0 ↔ p.Full := by
  have hlen : 0 < src.length := List.length_pos_iff.mpr hsrc
  rw [PipeHandle.write_some hp, PipeState.Full]
  by_cases hzero : p.readers = 0
  · rw [if_pos hzero]
    exact iff_of_false (fun h => nomatch h) (by omega)
  · rw [if_neg hzero]
    constructor
    · intro h
      have hmin := Except.ok.inj h
      omega
    · intro h
      exact congrArg Except.ok (by omega)

/-- In every state of a pipe that a run reaches: a read returns zero exactly at the end of the
file, and `do_read` reports the end only there, if and only if the pipe is not empty with an
open writer. A write does not return zero if and only if the pipe is not full with an open
reader. -/
theorem pipe_zero_means_eof_iff (ops : List PipeOp) {pipeId : Nat} {p : PipeState}
    (hp : (PipeFs.run ops).pipe? pipeId = some p) :
    (∀ len, 0 < len →
      ((((PipeHandle.mk pipeId .read).read (PipeFs.run ops).reg len).1 = .ok []
        ↔ p.buf = [] ∧ p.writers = 0) ↔ ¬ p.Starved)) ∧
      (∀ src, src ≠ [] →
        (((PipeHandle.mk pipeId .write).write (PipeFs.run ops).reg src).1 ≠ .ok 0 ↔ ¬ p.Full)) ∧
      ∀ (w : World) pid t fd handle bufPtr len, w.task? pid = some t →
        t.files.fds.get? fd = some handle → fd < 2 ^ 32 → 0 < len →
        (w.env w.tick).AnswersRead
          ((PipeHandle.mk pipeId .read).read (PipeFs.run ops).reg (min len FS_SYNC_RW_CHUNK)).1 →
        ((((doRead pid fd bufPtr len).run w).1 = .ok 0 → p.writers = 0) ↔ ¬ p.Starved) := by
  refine ⟨?_, ?_, ?_⟩
  · intro len hlen
    rw [pipeHandle_read_nil hp hlen, PipeState.Starved]
    constructor
    · rintro hiff ⟨hnil, hwriters⟩
      have := (hiff.mp hnil).2
      omega
    · intro hfed
      refine ⟨?_, (·.1)⟩
      intro hnil
      exact ⟨hnil, Nat.eq_zero_of_not_pos fun hpos => hfed ⟨hnil, hpos⟩⟩
  · intro src hsrc
    exact not_congr (pipeHandle_write_zero hp hsrc)
  · intro w pid t fd handle bufPtr len ht hget hfd hlen hanswer
    rw [doRead_eq_zero ht hget hfd hlen]
    -- the service answers with what is in the buffer
    rw [PipeHandle.read_some hp] at hanswer
    obtain ⟨herr, hval, -⟩ := hanswer
    have hchunk : 0 < FS_SYNC_RW_CHUNK := by decide
    have hempty : (w.env w.tick).Empty ↔ p.buf = [] := by
      rw [Ext.Empty, hval, List.length_take]
      constructor
      · rintro ⟨-, hmin⟩
        exact List.eq_nil_of_length_eq_zero (by omega)
      · intro hnil
        exact ⟨herr, by rw [hnil]; exact Nat.min_zero _⟩
    rw [hempty, PipeState.Starved]
    constructor
    · rintro hzero ⟨hnil, hwriters⟩
      have := hzero hnil
      omega
    · intro hfed hnil
      exact Nat.eq_zero_of_not_pos fun hpos => hfed ⟨hnil, hpos⟩

/-- The pipe of the sample has a byte left, so its reads and writes report no zero. -/
theorem pipe_zero_means_eof_iff_sample :
    (((PipeHandle.mk 1 .read).read (PipeFs.run samplePipe).reg 8).1 = .ok []
        ↔ ([10] : List UInt8) = [] ∧ 1 = 0) ∧
      ((PipeHandle.mk 1 .write).write (PipeFs.run samplePipe).reg [1]).1 ≠ .ok 0 := by
  have hp : (PipeFs.run samplePipe).pipe? 1 = some ⟨[10], 1, 1⟩ := by decide +kernel
  have hiff := pipe_zero_means_eof_iff samplePipe hp
  exact ⟨(hiff.1 8 (by decide)).mpr (by decide), (hiff.2.1 [1] (by decide)).mpr (by decide)⟩

/-- A new pipe with both ends open. -/
def sampleStarved : List PipeOp :=
  samplePipe.take 3

/-- A read of an empty pipe returns zero while its writer is open. -/
theorem starved_pipe_reads_eof :
    ¬ ∀ ops pipeId p, (PipeFs.run ops).pipe? pipeId = some p → ∀ len, 0 < len →
      (((PipeHandle.mk pipeId .read).read (PipeFs.run ops).reg len).1 = .ok []
        ↔ p.buf = [] ∧ p.writers = 0) := by
  intro h
  have hp : (PipeFs.run sampleStarved).pipe? 1 = some ⟨[], 1, 1⟩ := by decide +kernel
  have hread : ((PipeHandle.mk 1 .read).read (PipeFs.run sampleStarved).reg 1).1 = .ok [] :=
    (pipeHandle_read_nil hp Nat.one_pos).mpr rfl
  have hzero := ((h sampleStarved 1 _ hp 1 Nat.one_pos).mp hread).2
  exact absurd hzero (by decide)

end Ape
