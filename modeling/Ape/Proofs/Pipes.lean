import Ape.Model.Pipes
import Mathlib.Order.Interval.Finset.Nat

/-!
# `Ape.Proofs.Pipes`: pipes are bounded queues

`PipeFs.accepted` and `PipeFs.returned` are the bytes that the writes on a pipe put in and
that the reads on it took out, over all the calls that were answered. `PipeFs.Ok` is the
invariant of a run: the bytes put in are the bytes taken out with the buffer behind them,
the buffer fits, the counters are the numbers of open handles, and a handle has its pipe.

The counters of the source saturate. The open handles have addresses of their own, so
there are fewer of them than a counter can hold (`PipeFs.openEnds_le`). A pipe number comes
back after `2 ^ 64` calls of `create_pipe`, so the invariant is about runs with fewer.

`pipes_are_bounded_fifos` adds what a call does to the other pipes and when a pipe goes.
-/

set_option autoImplicit false

namespace Ape

open Ape.Lib

/-! ### What a run has moved -/

/-- The bytes that a call put in a pipe. -/
def acceptedBy (pipeId : Nat) : PipeOp × PipeReply → List UInt8
  | (.write h src, .wrote n) => if h.pipeId = pipeId then src.take n else []
  | _ => []

/-- The bytes that a call took out of a pipe. -/
def returnedBy (pipeId : Nat) : PipeOp × PipeReply → List UInt8
  | (.read h _, .bytes bs) => if h.pipeId = pipeId then bs else []
  | _ => []

namespace PipeFs

/-- All bytes that writes put in a pipe, in order. -/
def accepted (s : PipeFs) (pipeId : Nat) : List UInt8 := s.trace.flatMap (acceptedBy pipeId)

/-- All bytes that reads took out of a pipe, in order. -/
def returned (s : PipeFs) (pipeId : Nat) : List UInt8 := s.trace.flatMap (returnedBy pipeId)

/-- The number of open handles that name one end of a pipe. -/
def openEnds (s : PipeFs) (h : PipeHandle) : Nat :=
  s.handles.total fun h' => if h' = h then 1 else 0

/-- The pipe with a number. -/
def pipe? (s : PipeFs) (pipeId : Nat) : Option PipeState := s.reg.pipes.get? pipeId

end PipeFs

/-- The counter of one end. -/
def PipeState.ends (p : PipeState) : PipeEnd → Nat
  | .read => p.readers
  | .write => p.writers

/-- The call creates a pipe. -/
def PipeOp.creates : PipeOp → Bool
  | .create => true
  | _ => false

/-- How many pipes a sequence of calls creates. -/
def createdPipes (ops : List PipeOp) : Nat := ops.countP (·.creates)

/-- The existing pipe that a call works on. -/
def PipeOp.target (s : PipeFs) : PipeOp → Option Nat
  | .create => none
  | .openPath _ path => (parsePipePath path).map (·.pipeId)
  | .read h _ => some h.pipeId
  | .write h _ => some h.pipeId
  | .close addr => (s.handles.get? addr).map (·.pipeId)

/-- The call closes the last open handle of a pipe. -/
def PipeOp.ClosesLast (s : PipeFs) (pipeId : Nat) : PipeOp → Prop
  | .close addr => ∃ h, s.handles.get? addr = some h ∧ h.pipeId = pipeId ∧
      ∀ addr' h', s.handles.get? addr' = some h' → h'.pipeId = pipeId → addr' = addr
  | _ => False

namespace PipeFs

/-- The bytes put in a pipe are those taken out, and then the buffer, while the pipe exists. -/
def Fifo (s : PipeFs) (pipeId : Nat) : Prop :=
  ∃ rest, s.accepted pipeId = s.returned pipeId ++ rest ∧
    ∀ p, s.pipe? pipeId = some p → p.buf = rest

/-- The invariant of a run that has created `n` pipes. -/
structure Ok (s : PipeFs) (n : Nat) : Prop where
  next : s.reg.nextPipeId = (n + 1) % usizeMod
  known : ∀ pipeId p, s.pipe? pipeId = some p → 0 < pipeId ∧ pipeId ≤ n
  fifo : ∀ pipeId, s.Fifo pipeId
  unused : ∀ pipeId, n < pipeId → s.accepted pipeId = [] ∧ s.returned pipeId = []
  room : ∀ pipeId p, s.pipe? pipeId = some p → p.buf.length ≤ PIPE_DEFAULT_CAPACITY
  ends : ∀ pipeId p, s.pipe? pipeId = some p → ∀ e, p.ends e = s.openEnds ⟨pipeId, e⟩
  held : ∀ addr h, s.handles.get? addr = some h → (s.pipe? h.pipeId).isSome

end PipeFs

/-! ### The registry -/

/-- The loop of a read takes the front of the buffer. -/
@[simp] theorem pipeReadLoop_eq (n : Nat) (buf : List UInt8) :
    pipeReadLoop n buf = (buf.take n, buf.drop n) := by
  induction n generalizing buf with
  | zero => rfl
  | succ n ih =>
    cases buf with
    | nil => rfl
    | cons b buf => simp [pipeReadLoop, ih]

/-- A read of a pipe that is there takes the front of its buffer. -/
theorem PipeHandle.read_some {reg : PipeRegistry} {pipeId : Nat} {p : PipeState}
    (hp : reg.pipes.get? pipeId = some p) (len : Nat) :
    (PipeHandle.mk pipeId .read).read reg len
      = (.ok (p.buf.take len), reg.set pipeId { p with buf := p.buf.drop len }) := by
  unfold PipeHandle.read PipeRegistry.pipeRead
  rw [if_neg (not_not.mpr rfl), hp]
  simp only [pipeReadLoop_eq]

/-- A write to a pipe that is there is refused without readers, and else puts in what fits. -/
theorem PipeHandle.write_some {reg : PipeRegistry} {pipeId : Nat} {p : PipeState}
    (hp : reg.pipes.get? pipeId = some p) (src : List UInt8) :
    (PipeHandle.mk pipeId .write).write reg src
      = if p.readers = 0 then (.error .ioError, reg)
        else
          let k := min (PIPE_DEFAULT_CAPACITY - p.buf.length) src.length
          (.ok k, reg.set pipeId { p with buf := p.buf ++ src.take k }) := by
  unfold PipeHandle.write PipeRegistry.pipeWrite
  rw [if_neg (not_not.mpr rfl), hp]
  by_cases hzero : p.readers = 0
  · simp only [hzero, if_true]
  · simp only [hzero, if_false]
    rfl

/-- A read of a pipe that is gone fails. -/
theorem PipeHandle.read_none {reg : PipeRegistry} {d : PipeHandle}
    (hp : reg.pipes.get? d.pipeId = none) (len : Nat) : ∃ e, d.read reg len = (.error e, reg) := by
  unfold PipeHandle.read PipeRegistry.pipeRead
  rw [hp]
  split
  · exact ⟨_, rfl⟩
  · exact ⟨_, rfl⟩

/-- A write to a pipe that is gone fails. -/
theorem PipeHandle.write_none {reg : PipeRegistry} {d : PipeHandle}
    (hp : reg.pipes.get? d.pipeId = none) (src : List UInt8) :
    ∃ e, d.write reg src = (.error e, reg) := by
  unfold PipeHandle.write PipeRegistry.pipeWrite
  rw [hp]
  split
  · exact ⟨_, rfl⟩
  · exact ⟨_, rfl⟩

/-- Fewer handles are open than a counter can count. -/
theorem PipeFs.openEnds_le (s : PipeFs) (h : PipeHandle) : s.openEnds h ≤ usizeMax := by
  -- a handle counts at most once, so the count is at most the number of addresses
  have hcount : s.openEnds h ≤ s.handles.keys.length := by
    show (s.handles.values.map _).sum ≤ _
    have hone : ∀ l : List PipeHandle,
        (l.map fun h' => if h' = h then 1 else 0).sum ≤ l.length := by
      intro l
      induction l with
      | nil => exact Nat.le_refl 0
      | cons h' l ih =>
        rw [List.map_cons, List.sum_cons, List.length_cons]
        split <;> omega
    have hlen : s.handles.values.length = s.handles.keys.length := by
      simp [OrdMap.values, OrdMap.keys]
    rw [← hlen]
    exact hone _
  -- the addresses are different numbers below the end of the word, and none of them is zero
  have hnodup : (s.handles.keys.map Subtype.val).Nodup :=
    s.handles.keys_nodup.map Subtype.val_injective
  have hsub : (s.handles.keys.map Subtype.val).toFinset ⊆ Finset.Ico 1 usizeMod := by
    intro a ha
    obtain ⟨addr, -, rfl⟩ := List.mem_map.mp (List.mem_toFinset.mp ha)
    exact Finset.mem_Ico.mpr addr.2
  have hcard := Finset.card_le_card hsub
  rw [List.toFinset_card_of_nodup hnodup, List.length_map, Nat.card_Ico] at hcard
  exact hcount.trans hcard

/-- An end that is opened is counted. -/
theorem PipeState.ends_opened (p : PipeState) (e e' : PipeEnd) :
    (p.opened e).ends e' = if e' = e then satAdd (p.ends e) 1 else p.ends e' := by
  cases e <;> cases e' <;> rfl

/-- An end that is closed is no longer counted. -/
theorem PipeState.ends_closed (p : PipeState) (e e' : PipeEnd) :
    (p.closed e).ends e' = if e' = e then p.ends e - 1 else p.ends e' := by
  cases e <;> cases e' <;> rfl

/-- An end that is opened leaves the buffer. -/
@[simp] theorem PipeState.buf_opened (p : PipeState) (e : PipeEnd) : (p.opened e).buf = p.buf := by
  cases e <;> rfl

/-- An end that is closed leaves the buffer. -/
@[simp] theorem PipeState.buf_closed (p : PipeState) (e : PipeEnd) : (p.closed e).buf = p.buf := by
  cases e <;> rfl

/-! ### The invariant -/

namespace PipeFs

variable {s : PipeFs} {n : Nat}

/-- The bytes that a pipe took in, after one more request. -/
@[simp] theorem accepted_append (reg : PipeRegistry) (handles : OrdMap HandleAddr PipeHandle)
    (e : PipeOp × PipeReply) (pipeId : Nat) :
    (PipeFs.mk reg handles (s.trace ++ [e])).accepted pipeId
      = s.accepted pipeId ++ acceptedBy pipeId e := by
  simp [accepted]

/-- The bytes that a pipe gave out, after one more request. -/
@[simp] theorem returned_append (reg : PipeRegistry) (handles : OrdMap HandleAddr PipeHandle)
    (e : PipeOp × PipeReply) (pipeId : Nat) :
    (PipeFs.mk reg handles (s.trace ++ [e])).returned pipeId
      = s.returned pipeId ++ returnedBy pipeId e := by
  simp [returned]

/-- A pipe without open handles on one end. -/
theorem openEnds_eq_zero {h : PipeHandle} :
    s.openEnds h = 0 ↔ ∀ addr h', s.handles.get? addr = some h' → h' ≠ h := by
  show OrdMap.total _ _ = 0 ↔ _
  rw [OrdMap.total_eq_zero]
  constructor
  · intro hz addr h' hget heq
    have := hz addr h' hget
    rw [if_pos heq] at this
    omega
  · intro hne addr h' hget
    exact if_neg (hne addr h' hget)

/-- A call that fails leaves all as it was. -/
theorem Ok.failed (h : s.Ok n) (op : PipeOp) (e : Err) :
    Ok ⟨s.reg, s.handles, s.trace ++ [(op, .failed e)]⟩ n := by
  -- a request that fails moves no bytes in either direction
  have hin : ∀ pipeId, acceptedBy pipeId (op, .failed e) = [] := by
    intro pipeId
    cases op <;> rfl
  have hout : ∀ pipeId, returnedBy pipeId (op, .failed e) = [] := by
    intro pipeId
    cases op <;> rfl
  exact {
    next := h.next
    known := h.known
    fifo := by
      intro pipeId
      rw [Fifo, accepted_append, returned_append, hin, hout, List.append_nil, List.append_nil]
      exact h.fifo pipeId
    unused := by
      intro pipeId hlt
      rw [accepted_append, returned_append, hin, hout, List.append_nil, List.append_nil]
      exact h.unused pipeId hlt
    room := h.room
    ends := h.ends
    held := h.held }

/-- A new pipe has a number that no pipe had before. -/
theorem Ok.create (h : s.Ok n) (hn : n + 1 < usizeMod) : (s.step .create).Ok (n + 1) := by
  have hnext : s.reg.nextPipeId = n + 1 := by
    rw [h.next]
    exact Nat.mod_eq_of_lt hn
  have hpipe : ∀ pipeId, (s.step .create).pipe? pipeId
      = if pipeId = n + 1 then some ⟨[], 0, 0⟩ else s.pipe? pipeId := by
    intro pipeId
    show (s.reg.pipes.insert s.reg.nextPipeId _).get? pipeId = _
    rw [OrdMap.get?_insert, hnext]
    rfl
  have hin : ∀ pipeId, (s.step .create).accepted pipeId = s.accepted pipeId := by
    intro pipeId
    exact (accepted_append _ _ _ _).trans (List.append_nil _)
  have hout : ∀ pipeId, (s.step .create).returned pipeId = s.returned pipeId := by
    intro pipeId
    exact (returned_append _ _ _ _).trans (List.append_nil _)
  -- a handle has its pipe, and the new number has none
  have hnone : ∀ e, s.openEnds ⟨n + 1, e⟩ = 0 := by
    intro e
    rw [openEnds_eq_zero]
    intro addr h' hget heq
    obtain ⟨p, hp⟩ := Option.isSome_iff_exists.mp (h.held addr h' hget)
    have hle := (h.known _ p hp).2
    rw [heq] at hle
    exact Nat.not_succ_le_self n hle
  exact {
    next := by
      show wAdd s.reg.nextPipeId 1 = _
      rw [hnext]
      rfl
    known := by
      intro pipeId p hp
      rw [hpipe] at hp
      split at hp
      · omega
      · have := h.known pipeId p hp
        omega
    fifo := by
      intro pipeId
      rw [Fifo, hin, hout]
      by_cases heq : pipeId = n + 1
      · obtain ⟨hacc, hret⟩ := h.unused pipeId (by omega)
        rw [hacc, hret]
        refine ⟨[], rfl, ?_⟩
        intro p hp
        rw [hpipe, if_pos heq] at hp
        cases hp
        rfl
      · rw [hpipe, if_neg heq]
        exact h.fifo pipeId
    unused := by
      intro pipeId hlt
      rw [hin, hout]
      exact h.unused pipeId (by omega)
    room := by
      intro pipeId p hp
      rw [hpipe] at hp
      split at hp
      · cases hp
        exact Nat.zero_le _
      · exact h.room pipeId p hp
    ends := by
      intro pipeId p hp e
      rw [hpipe] at hp
      split at hp
      · rename_i heq
        cases hp
        rw [heq]
        exact (by cases e <;> rfl : _ = 0).trans (hnone e).symm
      · exact h.ends pipeId p hp e
    held := by
      intro addr h' hget
      rw [hpipe]
      split
      · rfl
      · exact h.held addr h' hget }

/-- A call `e` that works on the pipe `p` alone and leaves `buf` in it. -/
structure Change (s s' : PipeFs) (pipeId : Nat) (p : PipeState) (e : PipeOp × PipeReply)
    (buf : List UInt8) : Prop where
  trace : s'.trace = s.trace ++ [e]
  next : s'.reg.nextPipeId = s.reg.nextPipeId
  frame : ∀ k, k ≠ pipeId → s'.pipe? k = s.pipe? k
  silent : ∀ k, k ≠ pipeId → acceptedBy k e = [] ∧ returnedBy k e = []
  others : ∀ k, k ≠ pipeId → ∀ e', s'.openEnds ⟨k, e'⟩ = s.openEnds ⟨k, e'⟩
  moved : p.buf ++ acceptedBy pipeId e = returnedBy pipeId e ++ buf
  after : ∀ p', s'.pipe? pipeId = some p' → p'.buf = buf ∧
    buf.length ≤ PIPE_DEFAULT_CAPACITY ∧ ∀ e', p'.ends e' = s'.openEnds ⟨pipeId, e'⟩
  gone : s'.pipe? pipeId = none → ∀ e', s'.openEnds ⟨pipeId, e'⟩ = 0

/-- A request adds to the bytes taken in what it reports. -/
theorem Change.accepted {s' : PipeFs} {pipeId : Nat} {p : PipeState} {e : PipeOp × PipeReply}
    {buf : List UInt8} (hc : Change s s' pipeId p e buf) (k : Nat) :
    s'.accepted k = s.accepted k ++ acceptedBy k e := by
  simp [PipeFs.accepted, hc.trace]

/-- A request adds to the bytes given out what it reports. -/
theorem Change.returned {s' : PipeFs} {pipeId : Nat} {p : PipeState} {e : PipeOp × PipeReply}
    {buf : List UInt8} (hc : Change s s' pipeId p e buf) (k : Nat) :
    s'.returned k = s.returned k ++ returnedBy k e := by
  simp [PipeFs.returned, hc.trace]

/-- An open handle keeps the count of its end positive. -/
theorem openEnds_pos {addr : HandleAddr} {h : PipeHandle} (hget : s.handles.get? addr = some h) :
    s.openEnds h ≠ 0 := by
  intro hz
  exact openEnds_eq_zero.mp hz addr h hget rfl

/-- A change of one pipe keeps the invariant. -/
theorem Ok.change (h : s.Ok n) {s' : PipeFs} {pipeId : Nat} {p : PipeState}
    {e : PipeOp × PipeReply} {buf : List UInt8} (hp : s.pipe? pipeId = some p)
    (hc : Change s s' pipeId p e buf) : s'.Ok n := by
  have hknown := h.known pipeId p hp
  exact {
    next := by
      rw [hc.next]
      exact h.next
    known := by
      -- the pipe of the call, and the others, which it leaves
      intro k p' hp'
      by_cases hk : k = pipeId
      · rw [hk]
        exact hknown
      · rw [hc.frame k hk] at hp'
        exact h.known k p' hp'
    fifo := by
      intro k
      obtain ⟨rest, hacc, hbuf⟩ := h.fifo k
      rw [Fifo, hc.accepted, hc.returned]
      by_cases hk : k = pipeId
      · -- what stood in the buffer, and what the call moved
        subst hk
        refine ⟨buf, ?_, fun p' hp' => (hc.after p' hp').1⟩
        rw [hacc, ← hbuf p hp, List.append_assoc, hc.moved, List.append_assoc]
      · obtain ⟨hin, hout⟩ := hc.silent k hk
        rw [hin, hout, List.append_nil, List.append_nil, hc.frame k hk]
        exact h.fifo k
    -- a number that is not given out has no traffic, so it is not the pipe of the call
    unused := by
      intro k hlt
      have hk : k ≠ pipeId := by omega
      obtain ⟨hin, hout⟩ := hc.silent k hk
      rw [hc.accepted, hc.returned, hin, hout, List.append_nil, List.append_nil]
      exact h.unused k hlt
    room := by
      intro k p' hp'
      by_cases hk : k = pipeId
      · subst hk
        obtain ⟨hbuf, hroom, -⟩ := hc.after p' hp'
        rw [hbuf]
        exact hroom
      · rw [hc.frame k hk] at hp'
        exact h.room k p' hp'
    ends := by
      intro k p' hp' e'
      by_cases hk : k = pipeId
      · subst hk
        exact (hc.after p' hp').2.2 e'
      · rw [hc.frame k hk] at hp'
        rw [h.ends k p' hp' e', hc.others k hk]
    held := by
      intro addr h' hget
      have hpos := openEnds_pos hget
      by_cases hk : h'.pipeId = pipeId
      · -- a pipe that went has no handle
        rw [Option.isSome_iff_ne_none]
        intro hnone
        rw [hk] at hnone
        exact hpos (by rw [← hc.gone hnone h'.pipeEnd, ← hk])
      · -- the handle was open before the call
        rw [hc.frame _ hk]
        rw [hc.others _ hk] at hpos
        by_contra hnone
        apply hpos
        rw [openEnds_eq_zero]
        intro addr₀ h₀ hget₀ heq
        have hheld := h.held addr₀ h₀ hget₀
        rw [heq] at hheld
        exact hnone hheld }

/-- A new handle on a pipe that exists. -/
theorem Ok.opened (h : s.Ok n) {addr : HandleAddr} {path : List Char} {d : PipeHandle}
    {p : PipeState} (haddr : s.handles.get? addr = none) (hp : s.pipe? d.pipeId = some p) :
    Ok ⟨s.reg.set d.pipeId (p.opened d.pipeEnd), s.handles.insert addr d,
      s.trace ++ [(.openPath addr path, .opened d)]⟩ n := by
  let s' : PipeFs := ⟨s.reg.set d.pipeId (p.opened d.pipeEnd), s.handles.insert addr d,
    s.trace ++ [(.openPath addr path, .opened d)]⟩
  have hpipe : s'.pipe? d.pipeId = some (p.opened d.pipeEnd) := OrdMap.get?_insert_self _ _ _
  have hcount : ∀ d', s'.openEnds d' = (if d = d' then 1 else 0) + s.openEnds d' := by
    intro d'
    show OrdMap.total _ (s.handles.insert addr d) = _
    rw [OrdMap.total_insert, OrdMap.erase_of_get?_none _ haddr]
    rfl
  have hc : Change s s' d.pipeId p (.openPath addr path, .opened d) p.buf := {
    trace := rfl
    next := rfl
    frame := fun k hk => OrdMap.get?_insert_ne _ _ hk
    silent := fun k _ => ⟨rfl, rfl⟩
    others := by
      intro k hk e'
      rw [hcount, if_neg, Nat.zero_add]
      intro heq
      exact hk (congrArg PipeHandle.pipeId heq).symm
    moved := List.append_nil _
    after := by
      intro p' hp'
      rw [hpipe] at hp'
      cases hp'
      refine ⟨p.buf_opened _, h.room _ p hp, ?_⟩
      intro e'
      -- the counter does not saturate: the new count is a number of addresses
      have hle := s'.openEnds_le ⟨d.pipeId, e'⟩
      rw [hcount] at hle ⊢
      rw [PipeState.ends_opened]
      by_cases heq : e' = d.pipeEnd
      · subst heq
        rw [if_pos rfl, if_pos rfl, h.ends _ p hp] at *
        show min _ _ = _
        omega
      · have hne : d ≠ ⟨d.pipeId, e'⟩ := by
          intro hd
          exact heq (congrArg PipeHandle.pipeEnd hd).symm
        rw [if_neg heq, if_neg hne, Nat.zero_add, h.ends _ p hp]
    gone := by
      intro hnone
      rw [hpipe] at hnone
      cases hnone }
  exact h.change hp hc

/-- A read takes a prefix of the buffer. -/
theorem Ok.read (h : s.Ok n) {pipeId len : Nat} {p : PipeState} (hp : s.pipe? pipeId = some p) :
    Ok ⟨s.reg.set pipeId { p with buf := p.buf.drop len }, s.handles,
      s.trace ++ [(.read ⟨pipeId, .read⟩ len, .bytes (p.buf.take len))]⟩ n := by
  have hc : Change s ⟨s.reg.set pipeId { p with buf := p.buf.drop len }, s.handles,
      s.trace ++ [(.read ⟨pipeId, .read⟩ len, .bytes (p.buf.take len))]⟩ pipeId p
      (.read ⟨pipeId, .read⟩ len, .bytes (p.buf.take len)) (p.buf.drop len) := {
    trace := rfl
    next := rfl
    frame := fun k hk => OrdMap.get?_insert_ne _ _ hk
    silent := fun k hk => ⟨rfl, if_neg fun heq => hk heq.symm⟩
    others := fun _ _ _ => rfl
    -- the bytes that are returned are the front of the buffer
    moved := by
      show p.buf ++ [] = (if pipeId = pipeId then _ else _) ++ _
      rw [if_pos rfl, List.append_nil, List.take_append_drop]
    after := by
      intro p' hp'
      have hp'' : some { p with buf := p.buf.drop len } = some p' :=
        (OrdMap.get?_insert_self _ _ _).symm.trans hp'
      cases hp''
      refine ⟨rfl, ?_, ?_⟩
      · have := h.room pipeId p hp
        rw [List.length_drop]
        omega
      · intro e'
        exact (by cases e' <;> rfl : _ = p.ends e').trans (h.ends pipeId p hp e')
    gone := by
      intro hnone
      cases (OrdMap.get?_insert_self _ _ _).symm.trans hnone }
  exact h.change hp hc

/-- A write puts what fits behind the buffer. -/
theorem Ok.write (h : s.Ok n) {pipeId : Nat} {src : List UInt8} {p : PipeState}
    (hp : s.pipe? pipeId = some p) {k : Nat}
    (hk : k = min (PIPE_DEFAULT_CAPACITY - p.buf.length) src.length) :
    Ok ⟨s.reg.set pipeId { p with buf := p.buf ++ src.take k }, s.handles,
      s.trace ++ [(.write ⟨pipeId, .write⟩ src, .wrote k)]⟩ n := by
  have hc : Change s ⟨s.reg.set pipeId { p with buf := p.buf ++ src.take k }, s.handles,
      s.trace ++ [(.write ⟨pipeId, .write⟩ src, .wrote k)]⟩ pipeId p
      (.write ⟨pipeId, .write⟩ src, .wrote k) (p.buf ++ src.take k) := {
    trace := rfl
    next := rfl
    frame := fun k hk => OrdMap.get?_insert_ne _ _ hk
    silent := fun k hk => ⟨if_neg fun heq => hk heq.symm, rfl⟩
    others := fun _ _ _ => rfl
    -- the bytes that are accepted come behind the buffer, as far as there is room
    moved := by
      show p.buf ++ (if pipeId = pipeId then _ else _) = [] ++ _
      rw [if_pos rfl, List.nil_append]
    after := by
      intro p' hp'
      have hp'' : some { p with buf := p.buf ++ src.take k } = some p' :=
        (OrdMap.get?_insert_self _ _ _).symm.trans hp'
      cases hp''
      refine ⟨rfl, ?_, ?_⟩
      · have := h.room pipeId p hp
        rw [List.length_append, List.length_take]
        omega
      · intro e'
        exact (by cases e' <;> rfl : _ = p.ends e').trans (h.ends pipeId p hp e')
    gone := by
      intro hnone
      cases (OrdMap.get?_insert_self _ _ _).symm.trans hnone }
  exact h.change hp hc

/-- The registry after `close`, by pipe. -/
theorem pipe?_closePipeEnd {reg : PipeRegistry} {pipeId : Nat} {p : PipeState} {e : PipeEnd}
    (hp : reg.pipes.get? pipeId = some p) (k : Nat) :
    (reg.closePipeEnd pipeId e).pipes.get? k
      = if k = pipeId then
          (if (p.closed e).readers = 0 ∧ (p.closed e).writers = 0 then none else some (p.closed e))
        else reg.pipes.get? k := by
  unfold PipeRegistry.closePipeEnd
  rw [hp]
  show (if (p.closed e).readers = 0 ∧ (p.closed e).writers = 0 then
    { reg with pipes := reg.pipes.erase pipeId } else reg.set pipeId (p.closed e)).pipes.get? k = _
  split
  · exact OrdMap.get?_erase _ _ _
  · exact OrdMap.get?_insert _ _ _ _

/-- The open handles after one is closed. -/
theorem openEnds_erase {addr : HandleAddr} {d : PipeHandle} (hget : s.handles.get? addr = some d)
    (d' : PipeHandle) :
    s.openEnds d' = (if d = d' then 1 else 0) +
      OrdMap.total (fun h => if h = d' then 1 else 0) (s.handles.erase addr) :=
  OrdMap.total_erase _ _ hget

/-- The counters go down with the handles. -/
theorem Ok.ends_closed (h : s.Ok n) {addr : HandleAddr} {d : PipeHandle} {p : PipeState}
    (hget : s.handles.get? addr = some d) (hp : s.pipe? d.pipeId = some p) (e' : PipeEnd) :
    (p.closed d.pipeEnd).ends e'
      = OrdMap.total (fun h => if h = ⟨d.pipeId, e'⟩ then 1 else 0) (s.handles.erase addr) := by
  have hone := openEnds_erase hget ⟨d.pipeId, e'⟩
  rw [PipeState.ends_closed]
  by_cases heq : e' = d.pipeEnd
  · subst heq
    rw [if_pos rfl, h.ends _ p hp]
    rw [if_pos rfl] at hone
    omega
  · have hne : d ≠ ⟨d.pipeId, e'⟩ := by
      intro hd
      exact heq (congrArg PipeHandle.pipeEnd hd).symm
    rw [if_neg hne] at hone
    rw [if_neg heq, h.ends _ p hp]
    omega

/-- A handle is closed, and its pipe goes with its last handle. -/
theorem Ok.closed (h : s.Ok n) {addr : HandleAddr} {d : PipeHandle} {p : PipeState}
    (hget : s.handles.get? addr = some d) (hp : s.pipe? d.pipeId = some p) :
    Ok ⟨d.close s.reg, s.handles.erase addr, s.trace ++ [(.close addr, .closed)]⟩ n := by
  let s' : PipeFs := ⟨d.close s.reg, s.handles.erase addr, s.trace ++ [(.close addr, .closed)]⟩
  -- the pipe goes when both of its ends have no opener left
  have hpipe : ∀ k, s'.pipe? k = if k = d.pipeId then
      (if (p.closed d.pipeEnd).readers = 0 ∧ (p.closed d.pipeEnd).writers = 0 then none
        else some (p.closed d.pipeEnd))
      else s.pipe? k := fun k => pipe?_closePipeEnd hp k
  have hcount : ∀ d', s.openEnds d' = (if d = d' then 1 else 0) + s'.openEnds d' :=
    fun d' => openEnds_erase hget d'
  have hends : ∀ e', (p.closed d.pipeEnd).ends e' = s'.openEnds ⟨d.pipeId, e'⟩ :=
    h.ends_closed hget hp
  have hc : Change s s' d.pipeId p (.close addr, .closed) p.buf := {
    trace := rfl
    next := by
      show (PipeRegistry.closePipeEnd s.reg d.pipeId d.pipeEnd).nextPipeId = _
      unfold PipeRegistry.closePipeEnd
      split
      · rfl
      · dsimp only
        split <;> rfl
    frame := by
      intro k hk
      rw [hpipe, if_neg hk]
    silent := fun k _ => ⟨rfl, rfl⟩
    others := by
      intro k hk e'
      have hone := hcount ⟨k, e'⟩
      rw [if_neg fun heq => hk (congrArg PipeHandle.pipeId heq).symm] at hone
      omega
    moved := List.append_nil _
    after := by
      intro p' hp'
      rw [hpipe, if_pos rfl] at hp'
      split at hp'
      · cases hp'
      · cases hp'
        exact ⟨p.buf_closed _, h.room _ p hp, hends⟩
    -- a pipe that goes has no handle on either end
    gone := by
      intro hnone e'
      rw [hpipe, if_pos rfl] at hnone
      split at hnone
      · rename_i hzero
        rw [← hends]
        cases e'
        · exact hzero.1
        · exact hzero.2
      · cases hnone }
  exact h.change hp hc

/-! ### Runs -/

/-- What a call can do. -/
inductive Stepped (s : PipeFs) : PipeOp → PipeFs → Prop
  | failed (op : PipeOp) (e : Err) (hop : op ≠ .create)
      (hclose : ∀ addr, op = .close addr → s.handles.get? addr = none) :
    Stepped s op ⟨s.reg, s.handles, s.trace ++ [(op, .failed e)]⟩
  | created : Stepped s .create (s.step .create)
  | opened {addr : HandleAddr} {path : List Char} {d : PipeHandle} {p : PipeState}
      (hpath : parsePipePath path = some d) (haddr : s.handles.get? addr = none)
      (hp : s.pipe? d.pipeId = some p) :
    Stepped s (.openPath addr path) ⟨s.reg.set d.pipeId (p.opened d.pipeEnd),
      s.handles.insert addr d, s.trace ++ [(.openPath addr path, .opened d)]⟩
  | read {pipeId len : Nat} {p : PipeState} (hp : s.pipe? pipeId = some p) :
    Stepped s (.read ⟨pipeId, .read⟩ len) ⟨s.reg.set pipeId { p with buf := p.buf.drop len },
      s.handles, s.trace ++ [(.read ⟨pipeId, .read⟩ len, .bytes (p.buf.take len))]⟩
  | wrote {pipeId k : Nat} {src : List UInt8} {p : PipeState} (hp : s.pipe? pipeId = some p)
      (hk : k = min (PIPE_DEFAULT_CAPACITY - p.buf.length) src.length) :
    Stepped s (.write ⟨pipeId, .write⟩ src) ⟨s.reg.set pipeId { p with buf := p.buf ++ src.take k },
      s.handles, s.trace ++ [(.write ⟨pipeId, .write⟩ src, .wrote k)]⟩
  | closed {addr : HandleAddr} {d : PipeHandle} (hget : s.handles.get? addr = some d) :
    Stepped s (.close addr)
      ⟨d.close s.reg, s.handles.erase addr, s.trace ++ [(.close addr, .closed)]⟩

/-- The step of a path that is opened. -/
theorem stepped_openPath (s : PipeFs) (addr : HandleAddr) (path : List Char) :
    Stepped s (.openPath addr path) (s.step (.openPath addr path)) := by
  have hfail : ∀ e, s.answer (.openPath addr path) = (.failed e, s.reg, s.handles) →
      Stepped s (.openPath addr path) (s.step (.openPath addr path)) := by
    intro e he
    rw [step, he]
    exact .failed _ e PipeOp.noConfusion fun _ => PipeOp.noConfusion
  -- the request fails at its first obstacle, and otherwise opens the end
  cases haddr : s.handles.get? addr with
  | some d => exact hfail .outOfMemory (by simp [answer, OrdMap.contains, haddr])
  | none =>
    cases hpath : parsePipePath path with
    | none =>
      exact hfail .invalidArgs
        (by simp [answer, OrdMap.contains, haddr, PipeRegistry.openPath, hpath])
    | some d =>
      cases hp : s.reg.pipes.get? d.pipeId with
      | none =>
        exact hfail .notFound (by
          simp [answer, OrdMap.contains, haddr, PipeRegistry.openPath, hpath,
            PipeRegistry.openPipe, hp])
      | some p =>
        have hanswer : s.answer (.openPath addr path) = (.opened d,
            s.reg.set d.pipeId (p.opened d.pipeEnd), s.handles.insert addr d) := by
          simp [answer, OrdMap.contains, haddr, PipeRegistry.openPath, hpath,
            PipeRegistry.openPipe, hp]
        rw [step, hanswer]
        exact .opened hpath haddr hp

/-- The step of a read. -/
theorem stepped_read (s : PipeFs) (d : PipeHandle) (len : Nat) :
    Stepped s (.read d len) (s.step (.read d len)) := by
  have hfail : ∀ e, d.read s.reg len = (.error e, s.reg) →
      Stepped s (.read d len) (s.step (.read d len)) := by
    intro e he
    simp only [step, answer, he]
    exact .failed _ e PipeOp.noConfusion fun _ => PipeOp.noConfusion
  obtain ⟨pipeId, pipeEnd⟩ := d
  cases pipeEnd with
  | write => exact hfail .invalidType rfl
  | read =>
    cases hp : s.reg.pipes.get? pipeId with
    | none =>
      obtain ⟨e, he⟩ := PipeHandle.read_none (d := ⟨pipeId, .read⟩) hp len
      exact hfail e he
    | some p =>
      simp only [step, answer, PipeHandle.read_some hp]
      exact .read hp

/-- The step of a write. -/
theorem stepped_write (s : PipeFs) (d : PipeHandle) (src : List UInt8) :
    Stepped s (.write d src) (s.step (.write d src)) := by
  have hfail : ∀ e, d.write s.reg src = (.error e, s.reg) →
      Stepped s (.write d src) (s.step (.write d src)) := by
    intro e he
    simp only [step, answer, he]
    exact .failed _ e PipeOp.noConfusion fun _ => PipeOp.noConfusion
  obtain ⟨pipeId, pipeEnd⟩ := d
  cases pipeEnd with
  -- the read end takes no bytes
  | read => exact hfail .invalidType rfl
  | write =>
    cases hp : s.reg.pipes.get? pipeId with
    | none =>
      obtain ⟨e, he⟩ := PipeHandle.write_none (d := ⟨pipeId, .write⟩) hp src
      exact hfail e he
    | some p =>
      have hwrite := PipeHandle.write_some hp src
      by_cases hzero : p.readers = 0
      · -- nobody will read the bytes
        rw [if_pos hzero] at hwrite
        exact hfail _ hwrite
      · rw [if_neg hzero] at hwrite
        simp only [step, answer, hwrite]
        exact .wrote hp rfl

/-- Every request takes one of the steps. -/
theorem stepped (s : PipeFs) (op : PipeOp) : Stepped s op (s.step op) := by
  cases op with
  | create => exact .created
  | openPath addr path => exact stepped_openPath s addr path
  | read d len => exact stepped_read s d len
  | write d src => exact stepped_write s d src
  | close addr =>
    cases hget : s.handles.get? addr with
    | none =>
      simp only [step, answer, hget]
      refine .failed (.close addr) .notFound PipeOp.noConfusion ?_
      intro addr' heq
      cases heq
      exact hget
    | some d =>
      simp only [step, answer, hget]
      exact .closed hget

/-- One call keeps the invariant. -/
theorem Ok.step (h : s.Ok n) (op : PipeOp) (hn : n + createdPipes [op] < usizeMod) :
    (s.step op).Ok (n + createdPipes [op]) := by
  have hstepped := stepped s op
  generalize s.step op = s' at hstepped ⊢
  cases hstepped with
  | failed op e hop _ =>
    have hzero : createdPipes [op] = 0 := by
      cases op <;> first | rfl | exact absurd rfl hop
    rw [hzero]
    exact h.failed op e
  | created => exact h.create hn
  | opened _ haddr hp => exact h.opened haddr hp
  | read hp => exact h.read hp
  | wrote hp hk => exact h.write hp hk
  | closed hget =>
    obtain ⟨p, hp⟩ := Option.isSome_iff_exists.mp (h.held _ _ hget)
    exact h.closed hget hp

/-- At the start there are no pipes. -/
theorem Ok.start : PipeFs.new.Ok 0 := {
  next := rfl
  known := by
    intro pipeId p hp
    cases hp
  fifo := by
    intro pipeId
    refine ⟨[], rfl, ?_⟩
    intro p hp
    cases hp
  unused := fun _ _ => ⟨rfl, rfl⟩
  room := by
    intro pipeId p hp
    cases hp
  ends := by
    intro pipeId p hp
    cases hp
  held := by
    intro addr d hget
    cases hget }

/-- A run of two lists of requests is a run of the one and then of the other. -/
theorem run_append (ops ops' : List PipeOp) : run (ops ++ ops') = ops'.foldl step (run ops) :=
  List.foldl_append

/-- The pipes that two lists of requests create add up. -/
theorem createdPipes_append (ops ops' : List PipeOp) :
    createdPipes (ops ++ ops') = createdPipes ops + createdPipes ops' :=
  List.countP_append

/-- Every run with fewer than `2 ^ 64` pipes keeps the invariant. -/
theorem run_ok (ops : List PipeOp) (hfew : createdPipes ops < usizeMod) :
    (run ops).Ok (createdPipes ops) := by
  induction ops using List.reverseRecOn with
  | nil => exact Ok.start
  | append_singleton ops op ih =>
    rw [createdPipes_append] at hfew ⊢
    rw [run_append]
    exact (ih (by omega)).step op hfew

/-! ### One call -/

/-- A call works on one pipe and leaves the others alone. -/
theorem Ok.step_frame (h : s.Ok n) (op : PipeOp) (hn : n + createdPipes [op] < usizeMod)
    {pipeId : Nat} {p : PipeState} (hp : s.pipe? pipeId = some p)
    (htarget : op.target s ≠ some pipeId) :
    (s.step op).pipe? pipeId = some p ∧ (s.step op).accepted pipeId = s.accepted pipeId ∧
      (s.step op).returned pipeId = s.returned pipeId := by
  have hstepped := stepped s op
  generalize s.step op = s' at hstepped ⊢
  cases hstepped with
  | failed op e hop _ =>
    refine ⟨hp, ?_, ?_⟩
    · rw [accepted_append]
      cases op <;> exact List.append_nil _
    · rw [returned_append]
      cases op <;> exact List.append_nil _
  | created =>
    -- the new number is above the numbers of all pipes
    have hle := (h.known pipeId p hp).2
    have hnext : s.reg.nextPipeId = n + 1 := by
      rw [h.next]
      exact Nat.mod_eq_of_lt hn
    refine ⟨?_, (accepted_append _ _ _ _).trans (List.append_nil _),
      (returned_append _ _ _ _).trans (List.append_nil _)⟩
    have hne : pipeId ≠ s.reg.nextPipeId := by omega
    exact (OrdMap.get?_insert_ne _ _ hne).trans hp
  | @opened addr path d p' hpath haddr hp' =>
    have hne : pipeId ≠ d.pipeId := by
      intro heq
      apply htarget
      show (parsePipePath path).map _ = _
      rw [hpath, heq]
      rfl
    exact ⟨(OrdMap.get?_insert_ne _ _ hne).trans hp,
      (accepted_append _ _ _ _).trans (List.append_nil _),
      (returned_append _ _ _ _).trans (List.append_nil _)⟩
  | @read k len p' hp' =>
    have hne : pipeId ≠ k := fun heq => htarget (congrArg some heq.symm)
    refine ⟨(OrdMap.get?_insert_ne _ _ hne).trans hp,
      (accepted_append _ _ _ _).trans (List.append_nil _), ?_⟩
    rw [returned_append]
    show _ ++ (if k = pipeId then _ else _) = _
    rw [if_neg (Ne.symm hne), List.append_nil]
  | @wrote k m src p' hp' hm =>
    have hne : pipeId ≠ k := fun heq => htarget (congrArg some heq.symm)
    refine ⟨(OrdMap.get?_insert_ne _ _ hne).trans hp, ?_,
      (returned_append _ _ _ _).trans (List.append_nil _)⟩
    rw [accepted_append]
    show _ ++ (if k = pipeId then _ else _) = _
    rw [if_neg (Ne.symm hne), List.append_nil]
  | @closed addr d hget =>
    have hne : pipeId ≠ d.pipeId := by
      intro heq
      apply htarget
      show (s.handles.get? addr).map _ = _
      rw [hget, heq]
      rfl
    obtain ⟨p', hp'⟩ := Option.isSome_iff_exists.mp (h.held _ _ hget)
    refine ⟨?_, (accepted_append _ _ _ _).trans (List.append_nil _),
      (returned_append _ _ _ _).trans (List.append_nil _)⟩
    have hpipe := pipe?_closePipeEnd (e := d.pipeEnd) hp' pipeId
    rw [if_neg hne] at hpipe
    exact hpipe.trans hp

/-- The last handle of a pipe, in terms of what stays open. -/
theorem closesLast_iff {addr : HandleAddr} {d : PipeHandle} (hget : s.handles.get? addr = some d) :
    (PipeOp.close addr).ClosesLast s d.pipeId ↔
      ∀ e, PipeFs.openEnds ⟨s.reg, s.handles.erase addr, s.trace⟩ ⟨d.pipeId, e⟩ = 0 := by
  constructor
  · rintro ⟨d', -, -, hlast⟩ e
    rw [openEnds_eq_zero]
    intro addr' h' hget' heq
    -- a handle that stays open has another address
    have hne : addr' ≠ addr := by
      intro ha
      rw [ha] at hget'
      cases (OrdMap.get?_erase_self s.handles addr).symm.trans hget'
    have hopen : s.handles.get? addr' = some h' :=
      (OrdMap.get?_erase_ne s.handles hne).symm.trans hget'
    have hpipe : h'.pipeId = d.pipeId := by rw [heq]
    exact hne (hlast addr' h' hopen hpipe)
  · intro hzero
    refine ⟨d, hget, rfl, ?_⟩
    intro addr' h' hget' hpipe
    by_contra hne
    have hstill := (OrdMap.get?_erase_ne s.handles hne).trans hget'
    exact openEnds_eq_zero.mp (hzero h'.pipeEnd) addr' h' hstill (by rw [← hpipe])

/-- A pipe goes exactly with its last handle. -/
theorem Ok.step_removed (h : s.Ok n) (op : PipeOp) {pipeId : Nat} {p : PipeState}
    (hp : s.pipe? pipeId = some p) :
    (s.step op).pipe? pipeId = none ↔ op.ClosesLast s pipeId := by
  have hstays : ∀ {k : Nat} {p' : PipeState}, (s.reg.pipes.insert k p').get? pipeId ≠ none := by
    intro k p' hnone
    rw [OrdMap.get?_insert] at hnone
    split at hnone
    · cases hnone
    · cases hp.symm.trans hnone
  have hstepped := stepped s op
  generalize s.step op = s' at hstepped ⊢
  cases hstepped with
  | failed op e _ hclose =>
    refine iff_of_false (fun hnone => by cases hp.symm.trans hnone) ?_
    intro hlast
    cases op with
    | close addr =>
      obtain ⟨d, hget, -⟩ := hlast
      cases hget.symm.trans (hclose addr rfl)
    | _ => exact hlast
  | created => exact iff_of_false hstays id
  | opened => exact iff_of_false hstays id
  | read => exact iff_of_false hstays id
  | wrote => exact iff_of_false hstays id
  | @closed addr d hget =>
    obtain ⟨p', hp'⟩ := Option.isSome_iff_exists.mp (h.held _ _ hget)
    have hpipe := pipe?_closePipeEnd (e := d.pipeEnd) hp' pipeId
    by_cases heq : pipeId = d.pipeId
    · subst heq
      -- the counters after the call are the handles that stay
      have hends := h.ends_closed hget hp'
      rw [if_pos rfl] at hpipe
      rw [closesLast_iff hget]
      show (d.close s.reg).pipes.get? d.pipeId = none ↔ _
      unfold PipeHandle.close
      rw [hpipe]
      constructor
      · intro hnone e'
        split at hnone
        · rename_i hzero
          show OrdMap.total _ _ = 0
          rw [← hends e']
          cases e' with
          | read => exact hzero.1
          | write => exact hzero.2
        · cases hnone
      · intro hzero
        exact if_pos ⟨(hends .read).trans (hzero .read), (hends .write).trans (hzero .write)⟩
    · rw [if_neg heq] at hpipe
      refine iff_of_false (fun hnone => by cases (hpipe.trans hp).symm.trans hnone) ?_
      rintro ⟨d', hget', hpipe', -⟩
      cases hget.symm.trans hget'
      exact heq hpipe'.symm

end PipeFs

/-- Over every run that creates fewer than `2 ^ 64` pipes, each pipe is a bounded queue of its
own. The bytes that writes put in are the bytes that reads took out, followed by the buffer.
The buffer fits, and the counters are the numbers of open handles. A call removes a pipe
exactly when it closes the last handle of the pipe, and it does nothing to another pipe. -/
theorem pipes_are_bounded_fifos (ops : List PipeOp) (hfew : createdPipes ops < 2 ^ 64) :
    (∀ pipeId, (PipeFs.run ops).Fifo pipeId) ∧
      (∀ pipeId p, (PipeFs.run ops).pipe? pipeId = some p →
        p.buf.length ≤ PIPE_DEFAULT_CAPACITY ∧
        p.readers = (PipeFs.run ops).openEnds ⟨pipeId, .read⟩ ∧
        p.writers = (PipeFs.run ops).openEnds ⟨pipeId, .write⟩) ∧
      (∀ before op after, ops = before ++ op :: after → ∀ pipeId p,
        (PipeFs.run before).pipe? pipeId = some p →
        (((PipeFs.run before).step op).pipe? pipeId = none
          ↔ op.ClosesLast (PipeFs.run before) pipeId) ∧
        (op.target (PipeFs.run before) ≠ some pipeId →
          ((PipeFs.run before).step op).pipe? pipeId = some p ∧
          ((PipeFs.run before).step op).accepted pipeId = (PipeFs.run before).accepted pipeId ∧
          ((PipeFs.run before).step op).returned pipeId
            = (PipeFs.run before).returned pipeId)) := by
  have hok := PipeFs.run_ok ops hfew
  refine ⟨hok.fifo, ?_, ?_⟩
  · intro pipeId p hp
    exact ⟨hok.room pipeId p hp, hok.ends pipeId p hp .read, hok.ends pipeId p hp .write⟩
  · rintro before op after rfl pipeId p hp
    -- a part of the run creates no more pipes than the run
    have hcount : createdPipes before + createdPipes [op] < usizeMod := by
      have hsum : createdPipes (before ++ op :: after)
          = createdPipes before + (createdPipes [op] + createdPipes after) := by
        rw [← PipeFs.createdPipes_append [op], ← PipeFs.createdPipes_append]
        rfl
      have hmod : (2 : Nat) ^ 64 = usizeMod := rfl
      omega
    have hbefore := PipeFs.run_ok before (by omega)
    exact ⟨hbefore.step_removed op hp, hbefore.step_frame op hcount hp⟩

/-- A pipe with both ends open, and four bytes through it. -/
def samplePipe : List PipeOp :=
  [.create, .openPath ⟨16, by decide⟩ ['/', '1', '/', 'r'],
    .openPath ⟨32, by decide⟩ ['/', '1', '/', 'w'], .write ⟨1, .write⟩ [7, 8, 9, 10],
    .read ⟨1, .read⟩ 3]

/-- A pipe into which three bytes were written and from which two were read has the last one. -/
theorem pipes_are_bounded_fifos_sample :
    (PipeFs.run samplePipe).Fifo 1 ∧ ((PipeFs.run samplePipe).pipe? 1).map (·.buf) = some [10] :=
  ⟨(pipes_are_bounded_fifos samplePipe (by decide)).1 1, by decide +kernel⟩

end Ape
