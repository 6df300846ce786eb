import Ape.Proofs.Munmap
import Ape.Proofs.StartBlock
import Ape.Proofs.UserMemory

/-!
# `Ape.Proofs.UserCopies`: copies are exact

`copy_from_user` and `copy_to_user` go through a buffer from entry to entry. Each round looks up the
entry of the cursor, gets a scratch window on its frame from the pool of the session, and moves the
bytes up to the end of the entry or of the buffer. The lookup may grow the stack, but only for an
address in the reservation that has not grown. For a buffer outside of it, the tables stay as they
are.

A round moves the bytes that belong to its addresses, whatever the pool did for its window
(`PoolOk`). So a copy succeeds exactly when every address of the buffer is in an entry with the
permission, and what it moved is the buffer. A copy that fails moved a prefix. A service that
refuses a window is the only other reason to fail.
-/

set_option autoImplicit false

namespace Ape

open Ape.Lib Cmd

/-! ### What a process may touch -/

/-- An entry of `memory_maps` has the address, with the permissions. -/
def MmState.Allows (mm : MmState) (perms : Perms) (x : Nat) : Prop :=
  ∃ k m, mm.memoryMaps.get? k = some m ∧ m.Contains x ∧ m.flags.contains perms = true

/-- Every address of the buffer `[a, a + n)` is in such an entry. -/
def MmState.AllowsAll (mm : MmState) (perms : Perms) (a n : Nat) : Prop :=
  ∀ x, a ≤ x → x < a + n → mm.Allows perms x

/-- Every frame that an entry of `mm` names is at least as long as the entry. -/
def World.FramesCover (w : World) (mm : MmState) : Prop :=
  ∀ k m, mm.memoryMaps.get? k = some m →
    ∃ len, w.frameLength m.frameCap = some len ∧ m.size ≤ len * PGSIZE

/-- The byte that `pid` reads at an address, when it is one of the bytes of the frame: beyond the
last page of a frame there is no byte. -/
def World.heldByte (w : World) (pid a : Nat) : Option UInt8 :=
  (w.lookup pid a).bind fun m => (w.frames m.frameCap).bind fun fr =>
    if a - m.vaddr < fr.pages * PGSIZE then some (fr.data (a - m.vaddr)) else none

/-- A chunk of the first entry of a buffer. -/
structure Chunk (w₀ : World) (pid cursor n : Nat) (m : MemoryMap) (chunk : Nat) : Prop where
  pos : 0 < chunk
  le : chunk ≤ n
  found : ∀ x, cursor ≤ x → x < cursor + chunk → w₀.lookup pid x = some m

section Buffers

variable {w₀ : World} {mm : MmState} {pid cursor n k : Nat} {perms : Perms} {g : Nat → Option UInt8}

/-- A buffer in two parts. -/
theorem MmState.allowsAll_append :
    mm.AllowsAll perms cursor (n + k) ↔
      mm.AllowsAll perms cursor n ∧ mm.AllowsAll perms (cursor + n) k := by
  constructor
  · intro h
    exact ⟨fun x hx hlt => h x hx (by omega), fun x hx hlt => h x (by omega) (by omega)⟩
  · intro h x hx hlt
    by_cases hfirst : x < cursor + n
    · exact h.1 x hx hfirst
    · exact h.2 x (by omega) (by omega)

/-- A lookup that finds an entry with the permissions. -/
theorem MmState.Sound.allows_iff (hsound : mm.Sound) (hmm : w₀.mms.get? pid = some mm) {x : Nat} :
    mm.Allows perms x ↔ ∃ m, w₀.lookup pid x = some m ∧ m.flags.contains perms = true := by
  have hfind : ∀ m, w₀.lookup pid x = some m ↔ ∃ k, mm.memoryMaps.get? k = some m ∧
    m.Contains x := by
    intro m
    rw [World.lookup, hmm, Option.bind_some]
    exact (hsound.lookups x m).1
  constructor
  · rintro ⟨k, m, hk, hin, hperms⟩
    exact ⟨m, (hfind m).mpr ⟨k, hk, hin⟩, hperms⟩
  · rintro ⟨m, hm, hperms⟩
    obtain ⟨k, hk, hin⟩ := (hfind m).mp hm
    exact ⟨k, m, hk, hin, hperms⟩

/-- The part of a buffer that the entry of the cursor has. -/
theorem MmState.Sound.chunk (hsound : mm.Sound) (hmm : w₀.mms.get? pid = some mm) {m : MemoryMap}
    (hm : w₀.lookup pid cursor = some m) (hpos : 0 < n) :
    Chunk w₀ pid cursor n m (min (m.size - (cursor - m.vaddr)) n) ∧
      m.vaddr ≤ cursor ∧
      satAdd cursor (min (m.size - (cursor - m.vaddr)) n)
        = cursor + min (m.size - (cursor - m.vaddr)) n := by
  have hlook : ∀ x, w₀.lookup pid x = mm.lookupMemoryMap x := by
    intro x
    rw [World.lookup, hmm, Option.bind_some]
  rw [hlook] at hm
  obtain ⟨key, hkey, hin⟩ := (hsound.lookups cursor m).1.mp hm
  have hbelow := hsound.below .mapped key m hkey
  have hstart := hin.1
  have hend := hin.2
  refine ⟨⟨by omega, Nat.min_le_right _ _, ?_⟩, hstart, ?_⟩
  · intro x hx hlt
    rw [hlook]
    exact (hsound.lookups x m).1.mpr ⟨key, hkey, by omega, by omega⟩
  · unfold satAdd usizeMax
    omega

/-- The chunk of an entry with the permissions. -/
theorem Chunk.allowsAll (hsound : mm.Sound) (hmm : w₀.mms.get? pid = some mm) {m : MemoryMap}
    (h : Chunk w₀ pid cursor n m k) (hperms : m.flags.contains perms = true) :
    mm.AllowsAll perms cursor k :=
  fun x hx hlt => (hsound.allows_iff hmm).mpr ⟨m, h.found x hx hlt, hperms⟩

end Buffers

/-! ### Lookups outside the reservation of the stack -/

section Lookups

variable {w : World} {mm : MmState} {pid x : Nat} {perms : Perms}

/-- The stack does not grow for an address outside of the reservation that has not grown. -/
theorem tryGrow_idle (hsound : mm.Sound) (hmm : w.mms.get? pid = some mm) (hout : ¬ mm.Reserved x) :
    (tryGrowStackForUserAddr pid x).run w = (.ok false, w) := by
  rw [World.get?_mms] at hmm
  -- the table is that of the process record
  obtain ⟨t, ht, rfl⟩ := Option.map_eq_some_iff.mp hmm
  have hget : (getProcess pid).run w = (.ok t, w) := by simp [getProcess, getSome, run_bind, ht]
  unfold tryGrowStackForUserAddr
  rw [run_bind_ok hget]
  dsimp only
  by_cases hstack : x < t.mm.state.stackBottom ∧
      t.mm.state.stackBottom - t.mm.state.maxStackSize ≤ x
  · -- the address is in the part that has grown, so its page is too
    have hlow : t.mm.state.stackBottom - t.mm.state.stackSize ≤ alignDown x := by
      have hpage := hsound.stackBottom
      have hsize := hsound.stackSize
      have habove : t.mm.state.stackBottom - t.mm.state.stackSize ≤ x := by
        by_contra hlt
        exact hout ⟨hstack.2, by omega⟩
      unfold alignDown PGSIZE at *
      omega
    rw [if_neg (not_not.mpr hstack), if_pos hlow]
    rfl
  · rw [if_pos hstack]
    rfl

/-- A lookup outside of the reservation changes nothing. It finds the entry of the address, when
that has the permissions, and is an error otherwise. -/
theorem lookupMap_exact (hsound : mm.Sound) (hmm : w.mms.get? pid = some mm)
    (hout : ¬ mm.Reserved x) (perms : Perms) :
    (∃ m, w.lookup pid x = some m ∧ m.flags.contains perms = true ∧
      (lookupMap pid x perms).run w = (.ok m, w)) ∨
    (¬ mm.Allows perms x ∧ (lookupMap pid x perms).run w = (.error .invalidAddress, w)) := by
  have hlook : w.lookup pid x = mm.lookupMemoryMap x := by
    rw [World.lookup, hmm, Option.bind_some]
  have hidle := tryGrow_idle hsound hmm hout
  obtain ⟨t, ht, rfl⟩ := Option.map_eq_some_iff.mp ((World.get?_mms w pid).symm.trans hmm)
  have hget : (getProcess pid).run w = (.ok t, w) := by simp [getProcess, getSome, run_bind, ht]
  -- what is found is the entry of the address
  have hfound : (lookupOrGrow pid x).run w = (.ok (w.lookup pid x), w) := by
    unfold lookupOrGrow
    rw [run_bind_ok hget, hlook]
    cases t.mm.state.lookupMemoryMap x with
    | some m => rfl
    | none =>
      dsimp only
      rw [run_bind_ok (by rw [run_attempt, hidle])]
      rfl
  unfold lookupMap
  rw [run_bind_ok hfound]
  cases hm : w.lookup pid x with
  | none =>
    refine .inr ⟨?_, rfl⟩
    intro hallows
    obtain ⟨m, hm', -⟩ := (hsound.allows_iff hmm).mp hallows
    rw [hm] at hm'
    cases hm'
  | some m =>
    obtain ⟨key, hkey, hin⟩ := (hsound.lookups x m).1.mp (hlook.symm.trans hm)
    have hbelow := hsound.below .mapped key m hkey
    have hframe := hsound.frame key m hkey
    rw [getSome_bind]
    by_cases hperms : m.flags.contains perms = true
    · refine .inl ⟨m, rfl, hperms, ?_⟩
      have hend : ¬ (x < m.vaddr ∨ satAdd m.vaddr m.size ≤ x) := by
        obtain ⟨hlo, hhi⟩ := hin
        unfold satAdd usizeMax
        omega
      rw [if_neg (by simp [hframe, hperms]), if_neg hend]
      rfl
    · refine .inr ⟨?_, ?_⟩
      · intro hallows
        obtain ⟨m', hm', hperms'⟩ := (hsound.allows_iff hmm).mp hallows
        cases hm.symm.trans hm'
        exact hperms hperms'
      · rw [if_pos (by simp [hperms])]
        rfl

end Lookups

/-! ### One round -/

section Rounds

variable {w₀ : World} {mm : MmState} {pid : Nat} {g : Nat → Option UInt8}

/-- A session over the tables of `w₀` whose process reads the bytes `g`. -/
def Session.Shows (w₀ : World) (pid : Nat) (g : Nat → Option UInt8) (s : Session) : Prop :=
  PoolOk s ∧ w₀.Reads pid g s.1

/-- There is a byte behind every address that has an entry. -/
def World.Backs (w₀ : World) (pid : Nat) (g : Nat → Option UInt8) : Prop :=
  ∀ x m, w₀.lookup pid x = some m → g x ≠ none

/-- The bytes of a process are backed by the frames of its entries. -/
theorem World.Backs.of_frames (hinv : FrameInv w₀) : w₀.Backs pid (w₀.userByte pid) := by
  intro x m hm
  have hlive := hinv.live_lookup hm
  rw [World.userByte, hm, Option.bind_some]
  cases hfr : w₀.frames m.frameCap with
  | none =>
    rw [hfr] at hlive
    cases hlive
  | some fr => exact Option.some_ne_none _

/-- Bytes that are stored are there. -/
theorem World.Backs.stored (h : w₀.Backs pid g) (a : Nat) (src : List UInt8) :
    w₀.Backs pid (overlay g a src) := by
  intro x m hm
  rw [overlay]
  split
  · rw [List.getElem?_eq_getElem (by omega)]
    exact Option.some_ne_none _
  · exact h x m hm

/-- The lookup of a round. -/
theorem lookup_round (hsound : mm.Sound) (hmm : w₀.mms.get? pid = some mm) {x : Nat}
    (hout : ¬ mm.Reserved x) (perms : Perms) :
    Triple (Session.Shows w₀ pid g) (inFst (lookupMap pid x perms))
      (fun m s => (w₀.lookup pid x = some m ∧ m.flags.contains perms = true) ∧ s.Shows w₀ pid g)
      (fun e s => (e = .invalidAddress ∧ ¬ mm.Allows perms x) ∧ s.Shows w₀ pid g) := by
  intro s hs
  have hmms : s.1.mms.get? pid = some mm := by
    rw [hs.2.1]
    exact hmm
  rw [run_inFst]
  rcases lookupMap_exact hsound hmms hout perms with ⟨m, hm, hperms, hrun⟩ | ⟨hnot,
    hrun⟩ <;> rw [hrun]
  · refine ⟨fun m' hm' => ?_, fun e he => by cases he⟩
    cases hm'
    exact ⟨⟨(hs.2.lookup x).symm.trans hm, hperms⟩, hs⟩
  · refine ⟨fun m' hm' => (by cases hm'), fun e he => ?_⟩
    cases he
    exact ⟨⟨rfl, hnot⟩, hs⟩

/-- The window of a round: it is on the frame of the entry, or a service refused it. -/
theorem window_round (m : MemoryMap) (perms : Perms) :
    Triple (Session.Shows w₀ pid g) (acquire m perms)
      (fun a s => (∃ sc, s.1.scratch a = some sc ∧ sc.slot = m.frameCap) ∧ s.Shows w₀ pid g)
      (fun _ s => s.Marked ∧ w₀.Reads pid g s.1) := by
  have hkeep : Keeps (fun s : Session => w₀.Reads pid g s.1) (acquire m perms) :=
    (acquire_frames m perms).keepsProp
  have hall := ((acquire_maps m perms).and hkeep.triple).and (acquire_accepts m perms).good
  refine hall.imp (fun s h => ⟨⟨h.1, h.2⟩, trivial⟩) (fun a s h => ?_) fun _ s h => ⟨h.2, h.1.2⟩
  exact ⟨h.1.1.2, h.1.1.1, h.1.2⟩

/-- The bytes in the window of an entry are those of its addresses. -/
theorem Session.Shows.window {s : Session} (h : s.Shows w₀ pid g) (hbacks : w₀.Backs pid g)
    {m : MemoryMap} {cursor n chunk scratch : Nat} {sc : Scratch}
    (hchunk : Chunk w₀ pid cursor n m chunk) (hle : m.vaddr ≤ cursor)
    (hsc : s.1.scratch scratch = some sc) (hslot : sc.slot = m.frameCap) :
    Memory.HoldsBytes g cursor
      ((List.range chunk).map fun i => s.1.scratchByte scratch (cursor - m.vaddr + i)) := by
  rw [Memory.holdsBytes_iff]
  intro i hi
  rw [List.length_map, List.length_range] at hi
  have hm := hchunk.found (cursor + i) (by omega) (by omega)
  have hbyte := h.2.2.2 (cursor + i)
  have hthere := hbacks _ _ hm
  rw [World.userByte, h.2.lookup, hm, Option.bind_some] at hbyte
  have hoff : cursor + i - m.vaddr = cursor - m.vaddr + i := by omega
  rw [List.getElem_map, List.getElem_range, World.scratchByte, hsc, ← hbyte, hoff]
  dsimp only
  rw [hslot]
  cases hfr : s.1.frames m.frameCap with
  | none =>
    rw [hfr] at hbyte
    exact absurd hbyte.symm hthere
  | some fr => rfl

end Rounds

/-! ### The loops -/

/-- Bytes one after the other. -/
theorem Memory.HoldsBytes.append {m : Memory} {a : Nat} {bs cs : List UInt8}
    (hbs : m.HoldsBytes a bs) (hcs : m.HoldsBytes (a + bs.length) cs) :
    m.HoldsBytes a (bs ++ cs) := by
  induction bs generalizing a with
  | nil => exact hcs
  | cons b bs ih =>
    refine ⟨hbs.1, ih hbs.2 ?_⟩
    rw [Nat.add_assoc, Nat.add_comm 1]
    exact hcs

section Loops

variable {w₀ : World} {mm : MmState} {pid : Nat} {g : Nat → Option UInt8}

/-- A fuel of the length is enough for the loop of `copy_from_user`. -/
theorem copyFromUserLoop_fuel (pid : Nat) (fuel : Nat) :
    ∀ cursor n, n ≤ fuel → copyFromUserLoop pid fuel cursor n
      = copyFromUserLoop pid n cursor n := by
  induction fuel using Nat.strong_induction_on with
  | _ fuel ih =>
    intro cursor n hle
    cases n with
    | zero => cases fuel <;> rfl
    | succ n =>
      obtain ⟨fuel, rfl⟩ : ∃ k, fuel = k + 1 := ⟨fuel - 1, by omega⟩
      unfold copyFromUserLoop
      rw [if_neg (Nat.succ_ne_zero n)]
      -- a round moves at least one byte, so both fuels are enough for the rest
      refine congrArg _ (funext fun m => ?_)
      dsimp only
      by_cases hzero : min (m.size - (cursor - m.vaddr)) (n + 1) = 0
      · rw [if_pos hzero, if_pos hzero]
      · rw [if_neg hzero, if_neg hzero, ih fuel (by omega) _ _ (by omega),
          ih n (by omega) _ _ (by omega)]

/-- A fuel of the length is enough for the loop of `copy_to_user`. -/
theorem copyToUserLoop_fuel (pid : Nat) (fuel : Nat) :
    ∀ cursor (src : List UInt8), src.length ≤ fuel →
      copyToUserLoop pid fuel cursor src = copyToUserLoop pid src.length cursor src := by
  induction fuel using Nat.strong_induction_on with
  | _ fuel ih =>
    intro cursor src hle
    by_cases hsrc : src = []
    · rw [hsrc, copyToUserLoop_nil, copyToUserLoop_nil]
    have hpos := List.length_pos_iff.mpr hsrc
    obtain ⟨fuel, rfl⟩ : ∃ k, fuel = k + 1 := ⟨fuel - 1, by omega⟩
    obtain ⟨n, hn⟩ : ∃ k, src.length = k + 1 := ⟨src.length - 1, by omega⟩
    rw [hn]
    unfold copyToUserLoop
    rw [if_neg hsrc, if_neg hsrc]
    -- one chunk, and the rest with the fuel that is left
    refine congrArg _ (funext fun m => ?_)
    dsimp only
    by_cases hzero : min (m.size - (cursor - m.vaddr)) src.length = 0
    · rw [if_pos hzero, if_pos hzero]
    · have hlen : (src.drop (min (m.size - (cursor - m.vaddr)) src.length)).length ≤ n := by
        rw [List.length_drop]
        omega
      rw [if_neg hzero, if_neg hzero, ih fuel (by omega) _ _ (by omega), ih n (by omega) _ _ hlen]

/-- The loop of `copy_from_user`: it returns the bytes of the buffer, or there is an address without
an entry to read from, or a service refused a window. -/
theorem copyFromUserLoop_exact (hsound : mm.Sound) (hmm : w₀.mms.get? pid = some mm)
    (hbacks : w₀.Backs pid g) (fuel : Nat) :
    ∀ cursor n, n ≤ fuel → (∀ x, cursor ≤ x → x < cursor + n → ¬ mm.Reserved x) →
      Triple (Session.Shows w₀ pid g) (copyFromUserLoop pid fuel cursor n)
        (fun bytes s => (mm.AllowsAll Perms.R cursor n ∧ bytes.length = n ∧
          Memory.HoldsBytes g cursor bytes) ∧ s.Shows w₀ pid g)
        (fun e s => (s.Marked ∨ e = .invalidAddress ∧ ¬ mm.AllowsAll Perms.R cursor n) ∧
          w₀.Reads pid g s.1) := by
  induction fuel with
  | zero =>
    intro cursor n hle _
    obtain rfl : n = 0 := Nat.le_zero.mp hle
    exact Triple.pure fun s h => ⟨⟨fun x hx hlt => absurd hlt (by omega), rfl, trivial⟩, h⟩
  | succ fuel ih =>
    intro cursor n hle hout
    unfold copyFromUserLoop
    refine Triple.ite (fun hzero => Triple.pure ?_) ?_
    · intro s h
      subst hzero
      exact ⟨⟨fun x hx hlt => absurd hlt (by omega), rfl, trivial⟩, h⟩
    intro hpos
    refine Triple.bind ((lookup_round hsound hmm (hout cursor le_rfl (by omega)) Perms.R).errors
      ?_) ?_
    · -- the address of the cursor has no entry
      intro e s h
      refine ⟨.inr ⟨h.1.1, fun hall => h.1.2 ?_⟩, h.2.2⟩
      exact hall cursor le_rfl (by omega)
    intro m
    refine Triple.of_fact fun hentry => ?_
    obtain ⟨hm, hperms⟩ := hentry
    obtain ⟨hchunk, hstart, hsat⟩ := hsound.chunk hmm hm (Nat.pos_of_ne_zero hpos)
    dsimp only
    rw [hsat]
    generalize min (m.size - (cursor - m.vaddr)) n = chunk at hchunk
    have hfirst := hchunk.allowsAll hsound hmm hperms
    have hn : n = chunk + (n - chunk) := by have := hchunk.le; omega
    rw [if_neg hchunk.pos.ne']
    refine Triple.bind ((window_round m Perms.R).errors
      fun e s h => ⟨.inl h.1, h.2⟩) fun scratch => ?_
    refine Triple.bind (R := fun bytes s => (bytes.length = chunk ∧
      Memory.HoldsBytes g cursor bytes) ∧ s.Shows w₀ pid g) (Triple.gets ?_) ?_
    · intro s h
      obtain ⟨⟨sc, hsc, hslot⟩, hshows⟩ := h
      refine ⟨⟨by rw [List.length_map, List.length_range], ?_⟩, hshows⟩
      exact hshows.window hbacks hchunk hstart hsc hslot
    intro bytes
    refine Triple.of_fact fun hread => ?_
    obtain ⟨hlen, hholds⟩ := hread
    -- the rest of the buffer
    have hpos := hchunk.pos
    have hrest := ih (cursor + chunk) (n - chunk) (by omega)
      fun x hx hlt => hout x (by omega) (by omega)
    refine Triple.bind (hrest.errors ?_) ?_
    · intro e s h
      refine ⟨h.1.imp id fun hnot => ⟨hnot.1, fun hall => hnot.2 ?_⟩, h.2⟩
      rw [hn] at hall
      exact (MmState.allowsAll_append.mp hall).2
    · intro rest
      refine Triple.pure fun s h => ⟨⟨?_, ?_, ?_⟩, h.2⟩
      · rw [hn]
        exact MmState.allowsAll_append.mpr ⟨hfirst, h.1.1⟩
      · rw [List.length_append, hlen, h.1.2.1]
        omega
      · refine hholds.append ?_
        rw [hlen]
        exact h.1.2.2

/-- The loop of `copy_to_user`: it stores the bytes in the buffer, or it stores a part of them, and
there is an address without an entry to write to, or a service refused a window. -/
theorem copyToUserLoop_exact (hinv : FrameInv w₀) (hsound : mm.Sound)
    (hmm : w₀.mms.get? pid = some mm) (fuel : Nat) :
    ∀ cursor (src : List UInt8) (g : Nat → Option UInt8), src.length ≤ fuel → w₀.Backs pid g →
      (∀ x, cursor ≤ x → x < cursor + src.length → ¬ mm.Reserved x) →
      Triple (Session.Shows w₀ pid g) (copyToUserLoop pid fuel cursor src)
        (fun _ s => mm.AllowsAll Perms.W cursor src.length ∧ s.Shows w₀ pid (overlay g cursor src))
        (fun e s => (s.Marked ∨ e = .invalidAddress ∧ ¬ mm.AllowsAll Perms.W cursor src.length) ∧
          ∃ k, w₀.Reads pid (overlay g cursor (src.take k)) s.1) := by
  induction fuel with
  | zero =>
    intro cursor src g hle _ _
    obtain rfl : src = [] := List.length_eq_zero_iff.mp (Nat.le_zero.mp hle)
    rw [overlay_nil]
    exact Triple.pure fun s h => ⟨fun x hx hlt => absurd hlt (by rw [List.length_nil]; omega), h⟩
  | succ fuel ih =>
    intro cursor src g hle hbacks hout
    -- nothing is stored when the round fails before its store
    have hnone : ∀ s : Session, w₀.Reads pid g s.1 →
        ∃ k, w₀.Reads pid (overlay g cursor (src.take k)) s.1 := by
      intro s hs
      refine ⟨0, ?_⟩
      rw [List.take_zero, overlay_nil]
      exact hs
    unfold copyToUserLoop
    refine Triple.ite (fun hnil => Triple.pure ?_) ?_
    · intro s h
      subst hnil
      rw [overlay_nil]
      exact ⟨fun x hx hlt => absurd hlt (by rw [List.length_nil]; omega), h⟩
    intro hsrc
    have hlen := List.length_pos_iff.mpr hsrc
    refine Triple.bind ((lookup_round hsound hmm (hout cursor le_rfl (by omega)) Perms.W).errors
      ?_) ?_
    · intro e s h
      refine ⟨.inr ⟨h.1.1, fun hall => h.1.2 ?_⟩, hnone s h.2.2⟩
      exact hall cursor le_rfl (by omega)
    intro m
    refine Triple.of_fact fun hentry => ?_
    obtain ⟨hm, hperms⟩ := hentry
    obtain ⟨hchunk, hstart, hsat⟩ := hsound.chunk hmm hm hlen
    dsimp only
    rw [hsat]
    generalize min (m.size - (cursor - m.vaddr)) src.length = chunk at hchunk
    have hfirst := hchunk.allowsAll hsound hmm hperms
    have hle' := hchunk.le
    have hpos := hchunk.pos
    have htake : (src.take chunk).length = chunk := by
      rw [List.length_take, Nat.min_eq_left hle']
    have hdrop : (src.drop chunk).length = src.length - chunk := List.length_drop
    have hn : src.length = chunk + (src.drop chunk).length := by omega
    rw [if_neg hpos.ne']
    refine Triple.bind ((window_round m Perms.RW).errors
      fun e s h => ⟨.inl h.1, hnone s h.2⟩) fun scratch => ?_
    refine Triple.bind (R := fun _ => Session.Shows w₀ pid (overlay g cursor (src.take chunk)))
      (Triple.inFst fun pool => Triple.modify ?_) fun _ => ?_
    · intro w h
      obtain ⟨⟨sc, hsc, hslot⟩, hpool, hreads⟩ := h
      rw [hsc]
      dsimp only
      rw [hslot]
      refine ⟨hpool.of_scratch rfl, hreads.store hinv hm ?_⟩
      intro x hx hlt
      rw [htake] at hlt
      exact ⟨hchunk.found x hx hlt, hbacks x m (hchunk.found x hx hlt)⟩
    -- the rest of the bytes, behind those that are stored
    have hbehind : ∀ j, overlay (overlay g cursor (src.take chunk)) (cursor + chunk)
        ((src.drop chunk).take j) = overlay g cursor (src.take (chunk + j)) := by
      intro j
      have hparts := overlay_overlay g cursor (src.take chunk) ((src.drop chunk).take j)
      rw [htake] at hparts
      rw [hparts, List.take_add]
    have hall : overlay (overlay g cursor (src.take chunk)) (cursor + chunk) (src.drop chunk)
        = overlay g cursor src := by
      have hparts := hbehind (src.drop chunk).length
      rwa [List.take_length, ← hn, List.take_length] at hparts
    have hrest := ih (cursor + chunk) (src.drop chunk)
      (overlay g cursor (src.take chunk)) (by omega)
      (hbacks.stored cursor _) fun x hx hlt => hout x (by omega) (by omega)
    refine hrest.imp (fun _ h => h) (fun _ s h => ⟨?_, ?_⟩) fun e s h => ⟨?_, ?_⟩
    · rw [hn]
      exact MmState.allowsAll_append.mpr ⟨hfirst, h.1⟩
    · rw [← hall]
      exact h.2
    · refine h.1.imp id fun hnot => ⟨hnot.1, fun hwhole => hnot.2 ?_⟩
      rw [hn] at hwhole
      exact (MmState.allowsAll_append.mp hwhole).2
    · obtain ⟨j, hj⟩ := h.2
      rw [hbehind] at hj
      exact ⟨chunk + j, hj⟩

end Loops

/-! ### Whole copies -/

/-- A session around a body: its cleanup leaves the memory as it is, and fails only when a service
refuses to unmap a window. -/
theorem withUserSession_exact {α : Type} {f : S α} {P G R : World → Prop} {Q : α → Prop}
    {F : Err → Prop} [BlindScratch G] [BlindScratch R] (hGR : ∀ w, G w → R w)
    (hf : Triple (fun s => PoolOk s ∧ P s.1) f (fun a s => Q a ∧ G s.1)
      fun e s => (s.Marked ∨ F e) ∧ R s.1) :
    Triple P (withUserSession f) (fun a w => Q a ∧ G w) fun e w => (w.Marked ∨ F e) ∧ R w := by
  unfold withUserSession
  -- the outcome of the body, before the mappings of the session are released
  have hbody : Triple P (runWith f SharedPagePool.new) (fun r => Triple.onOutcome
      (fun a w => Q a ∧ G w) (fun e w => (w.Marked ∨ F e) ∧ R w) r.1)
      fun e w => (w.Marked ∨ F e) ∧ R w := by
    refine Triple.runWith (hf.pre fun s h => ?_) (fun _ _ _ h => h) fun _ _ _ h => h
    have heq : s = (s.1, SharedPagePool.new) := Prod.ext rfl h.2
    rw [heq]
    exact ⟨PoolOk.new s.1, h.1⟩
  refine hbody.bind fun r => ?_
  have hblind : ∀ {I : World → Prop} [BlindScratch I], Keeps
    (fun s : Session => I s.1) releaseAll :=
    releaseAll_frames.keepsProp
  have hmark : Keeps (fun s : Session => s.1.Marked) releaseAll := releaseAll_accepts.stays
  rcases r with ⟨e | a, pool⟩
  · -- the error of the body is that of the session
    have hkeep : Keeps (fun s : Session => (s.1.Marked ∨ F e) ∧ R s.1) releaseAll := by
      intro s h
      refine ⟨h.1.imp (fun hm => hmark s hm) id, hblind (I := R) s h.2⟩
    refine Triple.bind (R := fun _ w => (w.Marked ∨ F e) ∧ R w)
      (Triple.runWith (hkeep.triple.pre fun s h => h.1) (fun _ _ _ h => h)
        fun _ _ _ h => h) fun c => ?_
    exact Triple.bind (R := fun _ _ => False) (Triple.throw fun _ h => h) fun _ _ h => h.elim
  -- the body succeeded, so only the release can fail
  · refine Triple.bind (R := fun c w => (Q a ∧ G w) ∧ ∀ e, c.1 = .error e → w.Marked)
      (Triple.runWith (R := fun _ s => Q a ∧ G s.1) (F := fun _ s => (Q a ∧ G s.1) ∧ s.1.Marked)
        ?_ (fun _ _ _ h => ⟨h, fun e he => by cases he⟩) fun _ _ _ h => ⟨h.1, fun _ _ => h.2⟩) ?_
    · have hkeep : Keeps (fun s : Session => Q a ∧ G s.1) releaseAll := by
        intro s h
        exact ⟨h.1, hblind (I := G) s h.2⟩
      exact (hkeep.triple.and releaseAll_accepts.good).imp (fun s h => ⟨h.1, trivial⟩)
        (fun _ _ h => h.1) fun _ _ h => h
    · intro c
      refine Triple.bind (R := fun b w => b = a ∧ (Q a ∧ G w) ∧ ∀ e, c.1 = .error e → w.Marked)
        (Triple.pure fun w h => ⟨rfl, h⟩) fun b => ?_
      refine Triple.of_fact fun hb => ?_
      refine Triple.bind (R := fun _ w => Q a ∧ G w) (Triple.ofExcept (fun _ _ _ h => h.1)
        fun e w he h => ⟨.inl (h.2 e he), hGR w h.1.2⟩) fun _ => Triple.pure fun w h => ?_
      rw [hb]
      exact h

/-- What `copy_from_user` does with the buffer `[a, a + n)`, when it takes `w` to `w'` and returns
`r`. -/
structure CopiedIn (w w' : World) (mm : MmState) (pid a n : Nat) (r : Except Err (List UInt8)) :
    Prop where
  ok_iff : w'.refused = false →
    ((∃ bytes, r = .ok bytes) ↔ (a ≠ 0 ∨ n = 0) ∧ mm.AllowsAll Perms.R a n)
  allowed : ∀ bytes, r = .ok bytes → (a ≠ 0 ∨ n = 0) ∧ mm.AllowsAll Perms.R a n
  bytes : ∀ bytes, r = .ok bytes → bytes.length = n ∧ Memory.HoldsBytes (w.userByte pid) a bytes
  unchanged : w.Reads pid (w.userByte pid) w'

/-- What `copy_to_user` does with the buffer of `src.length` bytes at `a`. -/
structure CopiedOut (w w' : World) (mm : MmState) (pid a : Nat) (src : List UInt8)
    (r : Except Err Unit) : Prop where
  ok_iff : w'.refused = false →
    (r = .ok () ↔ (a ≠ 0 ∨ src = []) ∧ mm.AllowsAll Perms.W a src.length)
  allowed : r = .ok () → (a ≠ 0 ∨ src = []) ∧ mm.AllowsAll Perms.W a src.length
  stored : r = .ok () → w.Reads pid (overlay (w.userByte pid) a src) w'
  part : ∀ e, r = .error e → ∃ k, w.Reads pid (overlay (w.userByte pid) a (src.take k)) w'

section Copies

variable {w w₀ : World} {mm : MmState} {pid : Nat} {g : Nat → Option UInt8}

/-- The addresses of an entry whose frame is as long as the entry are in the frame. -/
theorem World.FramesCover.held (hcover : w.FramesCover mm) (hsound : mm.Sound)
    (hmm : w.mms.get? pid = some mm) (x : Nat) : w.userByte pid x = w.heldByte pid x := by
  rw [World.userByte, World.heldByte]
  cases hm : w.lookup pid x with
  | none => rfl
  | some m =>
    rw [World.lookup, hmm, Option.bind_some] at hm
    obtain ⟨k, hk, hin⟩ := (hsound.lookups x m).1.mp hm
    obtain ⟨len, hlen, hsize⟩ := hcover k m hk
    obtain ⟨fr, hfr, rfl⟩ := Option.map_eq_some_iff.mp hlen
    have hoff : x - m.vaddr < fr.pages * PGSIZE := by
      have hlow := hin.1
      have hhigh := hin.2
      omega
    rw [Option.bind_some, Option.bind_some, hfr, Option.map_some, Option.bind_some, if_pos hoff]

/-- A copy leaves the tables and the lengths of the frames, so the process goes on to read bytes of
its frames. -/
theorem World.Reads.held {w' : World} (h : w.Reads pid g w') (hcover : w.FramesCover mm)
    (hsound : mm.Sound) (hmm : w.mms.get? pid = some mm) (x : Nat) :
    w'.userByte pid x = w'.heldByte pid x := by
  have hcover' : w'.FramesCover mm := by
    intro k m hk
    rw [h.2.1]
    exact hcover k m hk
  exact hcover'.held hsound (by rw [h.1]; exact hmm) x

instance (a : Nat) (src : List UInt8) :
    BlindScratch fun w => ∃ k, w₀.Reads pid (overlay g a (src.take k)) w where
  tick _ _ := rfl
  slots _ _ := rfl
  scratch _ _ _ := rfl

/-- `copy_from_user` inside a session. -/
theorem sessionCopyFromUser_exact (hsound : mm.Sound) (hmm : w₀.mms.get? pid = some mm)
    (hbacks : w₀.Backs pid g) {a n : Nat} (hout : ∀ x, a ≤ x → x < a + n → ¬ mm.Reserved x) :
    Triple (Session.Shows w₀ pid g) (sessionCopyFromUser pid a n)
      (fun bytes s => (((a ≠ 0 ∨ n = 0) ∧ mm.AllowsAll Perms.R a n) ∧ bytes.length = n ∧
        Memory.HoldsBytes g a bytes) ∧ s.Shows w₀ pid g)
      (fun e s => (s.Marked ∨ e = .invalidAddress ∧
        ¬ ((a ≠ 0 ∨ n = 0) ∧ mm.AllowsAll Perms.R a n)) ∧ w₀.Reads pid g s.1) := by
  unfold sessionCopyFromUser
  refine Triple.ite (fun hzero => Triple.pure ?_) ?_
  · intro s h
    subst hzero
    exact ⟨⟨⟨.inr rfl, fun x hx hlt => absurd hlt (by omega)⟩, rfl, trivial⟩, h⟩
  intro hpos
  refine Triple.ite (fun hnull => Triple.throw fun s h => ⟨.inr ⟨rfl, ?_⟩, h.2⟩) ?_
  · rintro ⟨hok | hok, -⟩
    · exact hok hnull
    · exact hpos hok
  · intro hne
    refine (copyFromUserLoop_exact hsound hmm hbacks n a n le_rfl hout).imp (fun _ h => h)
      (fun _ s h => ⟨⟨⟨.inl hne, h.1.1⟩, h.1.2⟩, h.2⟩) fun e s h => ⟨?_, h.2⟩
    exact h.1.imp id fun hnot => ⟨hnot.1, fun hall => hnot.2 hall.2⟩

/-- A copy from a process is exact. -/
theorem copyFromUser_exact (hinv : FrameInv w) (hsound : mm.Sound) (hmm : w.mms.get? pid = some mm)
    {a n : Nat} (hout : ∀ x, a ≤ x → x < a + n → ¬ mm.Reserved x) :
    CopiedIn w ((copyFromUser pid a n).run w).2 mm pid a n ((copyFromUser pid a n).run w).1 := by
  have hbody := sessionCopyFromUser_exact hsound hmm (World.Backs.of_frames hinv) hout
  have hcopy := withUserSession_exact (P := w.Reads pid (w.userByte pid)) (fun _ h => h)
    (hbody.post fun _ _ h => ⟨h.1, h.2.2⟩)
  obtain ⟨hok, herr⟩ := hcopy w (.refl w pid)
  change ∀ bytes, ((copyFromUser pid a n).run w).1 = .ok bytes → _ at hok
  change ∀ e, ((copyFromUser pid a n).run w).1 = .error e → _ at herr
  refine ⟨fun hserved => ⟨fun ⟨bytes, hr⟩ => (hok bytes hr).1.1, fun hall => ?_⟩,
    fun bytes hr => (hok bytes hr).1.1, fun bytes hr => (hok bytes hr).1.2, ?_⟩
  · cases hr : ((copyFromUser pid a n).run w).1 with
    | ok bytes => exact ⟨bytes, rfl⟩
    | error e =>
      rcases (herr e hr).1 with hmark | ⟨-, hnot⟩
      · exact absurd (hmark.symm.trans hserved) (by decide)
      · exact absurd hall hnot
  · cases hr : ((copyFromUser pid a n).run w).1 with
    | ok bytes => exact (hok bytes hr).2
    | error e => exact (herr e hr).2

/-- `copy_to_user` inside a session. -/
theorem sessionCopyToUser_exact (hinv : FrameInv w₀) (hsound : mm.Sound)
    (hmm : w₀.mms.get? pid = some mm) (hbacks : w₀.Backs pid g) {a : Nat} {src : List UInt8}
    (hout : ∀ x, a ≤ x → x < a + src.length → ¬ mm.Reserved x) :
    Triple (Session.Shows w₀ pid g) (sessionCopyToUser pid a src)
      (fun _ s => ((a ≠ 0 ∨ src = []) ∧ mm.AllowsAll Perms.W a src.length) ∧
        s.Shows w₀ pid (overlay g a src))
      (fun e s => (s.Marked ∨ e = .invalidAddress ∧
        ¬ ((a ≠ 0 ∨ src = []) ∧ mm.AllowsAll Perms.W a src.length)) ∧
        ∃ k, w₀.Reads pid (overlay g a (src.take k)) s.1) := by
  unfold sessionCopyToUser
  refine Triple.ite (fun hnil => Triple.pure ?_) ?_
  · intro s h
    subst hnil
    rw [overlay_nil]
    exact ⟨⟨.inr rfl, fun x hx hlt => absurd hlt (by rw [List.length_nil]; omega)⟩, h⟩
  intro hsrc
  refine Triple.ite (fun hnull => Triple.throw fun s h => ⟨.inr ⟨rfl, ?_⟩, 0, ?_⟩) ?_
  · rintro ⟨hok | hok, -⟩
    · exact hok hnull
    · exact hsrc hok
  · rw [List.take_zero, overlay_nil]
    exact h.2
  · intro hne
    refine (copyToUserLoop_exact hinv hsound hmm _ a src g le_rfl hbacks hout).imp (fun _ h => h)
      (fun _ s h => ⟨⟨.inl hne, h.1⟩, h.2⟩) fun e s h => ⟨?_, h.2⟩
    exact h.1.imp id fun hnot => ⟨hnot.1, fun hall => hnot.2 hall.2⟩

/-- A copy to a process is exact. -/
theorem copyToUser_exact (hinv : FrameInv w) (hsound : mm.Sound) (hmm : w.mms.get? pid = some mm)
    {a : Nat} {src : List UInt8} (hout : ∀ x, a ≤ x → x < a + src.length → ¬ mm.Reserved x) :
    CopiedOut w ((copyToUser pid a src).run w).2 mm pid a src ((copyToUser pid a src).run w).1 := by
  have hbody := sessionCopyToUser_exact hinv hsound hmm (World.Backs.of_frames hinv) hout
  have hcopy := withUserSession_exact (P := w.Reads pid (w.userByte pid))
    (G := w.Reads pid (overlay (w.userByte pid) a src))
    (R := fun w' => ∃ k, w.Reads pid (overlay (w.userByte pid) a (src.take k)) w')
    (fun w' h => ⟨src.length, by rw [List.take_length]; exact h⟩)
    (hbody.post fun _ _ h => ⟨h.1, h.2.2⟩)
  obtain ⟨hok, herr⟩ := hcopy w (.refl w pid)
  change ∀ u, ((copyToUser pid a src).run w).1 = .ok u → _ at hok
  change ∀ e, ((copyToUser pid a src).run w).1 = .error e → _ at herr
  refine ⟨fun hserved => ⟨fun hr => (hok () hr).1, fun hall => ?_⟩, fun hr => (hok () hr).1,
    fun hr => (hok () hr).2, fun e hr => (herr e hr).2⟩
  cases hr : ((copyToUser pid a src).run w).1 with
  | ok u => rfl
  | error e =>
    rcases (herr e hr).1 with hmark | ⟨-, hnot⟩
    · exact absurd (hmark.symm.trans hserved) (by decide)
    · exact absurd hall hnot

end Copies

/-- Copies are exact. For a process whose tables are sound and whose frames are as long as their
entries, and a buffer outside of the part of the stack that has not grown, a copy succeeds exactly
when every address of the buffer is in an entry with the permission, unless a service refuses a
window. A copy into the server returns the bytes of the buffer. A copy out of it changes these bytes
to those of the source, and no other; when it fails, it has changed a prefix. All these bytes are
bytes of the frames, before the copy and after it. The loops end: each moves a byte in every round,
from any state. -/
theorem user_copies_exact {w : World} {mm : MmState} {pid : Nat} (hinv : FrameInv w)
    (hmm : w.mms.get? pid = some mm) (hsound : mm.Sound) (hcover : w.FramesCover mm) :
    (∀ x, w.userByte pid x = w.heldByte pid x) ∧
    (∀ a n, (∀ x, a ≤ x → x < a + n → ¬ mm.Reserved x) →
      CopiedIn w ((copyFromUser pid a n).run w).2 mm pid a n ((copyFromUser pid a n).run w).1 ∧
      ∀ x, ((copyFromUser pid a n).run w).2.userByte pid x
        = ((copyFromUser pid a n).run w).2.heldByte pid x) ∧
    (∀ a src, (∀ x, a ≤ x → x < a + src.length → ¬ mm.Reserved x) →
      CopiedOut w ((copyToUser pid a src).run w).2 mm pid a src ((copyToUser pid a src).run w).1 ∧
      ∀ x, ((copyToUser pid a src).run w).2.userByte pid x
        = ((copyToUser pid a src).run w).2.heldByte pid x) ∧
    (∀ p fuel cursor n, n ≤ fuel →
      copyFromUserLoop p fuel cursor n = copyFromUserLoop p n cursor n) ∧
    (∀ p fuel cursor src, src.length ≤ fuel →
      copyToUserLoop p fuel cursor src = copyToUserLoop p src.length cursor src) := by
  refine ⟨hcover.held hsound hmm, ?_, ?_, ?_, ?_⟩
  · intro a n hout
    have hcopy := copyFromUser_exact hinv hsound hmm hout
    exact ⟨hcopy, hcopy.unchanged.held hcover hsound hmm⟩
  · intro a src hout
    have hcopy := copyToUser_exact hinv hsound hmm hout
    refine ⟨hcopy, ?_⟩
    -- also a copy that fails has read tables and lengths only
    cases hr : ((copyToUser pid a src).run w).1 with
    | ok u => exact (hcopy.stored hr).held hcover hsound hmm
    | error e =>
      obtain ⟨k, hk⟩ := hcopy.part e hr
      exact hk.held hcover hsound hmm
  · intro p fuel
    exact copyFromUserLoop_fuel p fuel
  · intro p fuel
    exact copyToUserLoop_fuel p fuel

/-- The frames of `init` are as long as its entries. -/
theorem sampleMapped_covered {mm : MmState} (hmm : sampleMapped.mms.get? 1 = some mm) :
    sampleMapped.FramesCover mm := by
  have hall : (sampleMapped.mms.get? 1).map (fun mm => mm.memoryMaps.values.all fun m =>
      (sampleMapped.frameLength m.frameCap).any fun len => decide (m.size ≤ len * PGSIZE))
      = some true := by decide +kernel
  rw [hmm, Option.map_some, Option.some.injEq, List.all_eq_true] at hall
  intro k m hk
  have hlen := hall m (OrdMap.mem_values.mpr ⟨k, hk⟩)
  rw [Option.any_eq_true] at hlen
  obtain ⟨len, hlen, hle⟩ := hlen
  exact ⟨len, hlen, of_decide_eq_true hle⟩

/-- `init` has two mappings of one page side by side. A buffer over both of them is written, and the
bytes around it stay. -/
theorem user_copies_exact_sampleMapped :
    ((copyToUser 1 0x20000ffe [1, 2, 3, 4]).run sampleMapped).1 = .ok () ∧
    sampleMapped.Reads 1 (overlay (sampleMapped.userByte 1) 0x20000ffe [1, 2, 3, 4])
      ((copyToUser 1 0x20000ffe [1, 2, 3, 4]).run sampleMapped).2 := by
  obtain ⟨mm, hmm, hsound⟩ := @World.sound_of_check sampleMapped 1 (by decide +kernel)
  have hregion : (sampleMapped.mms.get? 1).map (fun mm => decide (0x30000000 ≤
      mm.stackBottom - mm.maxStackSize)) = some true := by decide +kernel
  have hok : ((copyToUser 1 0x20000ffe [1, 2, 3, 4]).run sampleMapped).1 = .ok () := by
    decide +kernel
  rw [hmm, Option.map_some, Option.some.injEq, decide_eq_true_eq] at hregion
  refine ⟨hok, ((user_copies_exact sampleMapped_reachable.frameInv hmm hsound
    (sampleMapped_covered hmm)).2.2.1 0x20000ffe [1, 2, 3, 4] fun x hx hlt hres => ?_).1.stored hok⟩
  have hlow := hres.1
  simp only [List.length_cons, List.length_nil] at hlt
  omega

/-- A service that refuses the window makes a copy fail, although the buffer is mapped. -/
theorem refused_window_fails_copy :
    ¬ ∀ (w : World) (mm : MmState) (pid a n : Nat), FrameInv w → w.mms.get? pid = some mm →
      mm.Sound → w.FramesCover mm → (∀ x, a ≤ x → x < a + n → ¬ mm.Reserved x) →
      ((∃ bytes, ((copyFromUser pid a n).run w).1 = .ok bytes) ↔
        (a ≠ 0 ∨ n = 0) ∧ mm.AllowsAll Perms.R a n) := by
  intro h
  -- the backend refuses every mapping
  let env : Nat → Ext := fun _ => ⟨some .outOfMemory, 0, fun _ => 0⟩
  obtain ⟨mm, hmm, hsound⟩ := @World.sound_of_check sampleMapped 1 (by decide +kernel)
  have hregion : (sampleMapped.mms.get? 1).map (fun mm => decide (0x30000000 ≤
      mm.stackBottom - mm.maxStackSize)) = some true := by decide +kernel
  rw [hmm, Option.map_some, Option.some.injEq, decide_eq_true_eq] at hregion
  have hfound : (sampleMapped.mms.get? 1).map (fun mm => ((mm.lookupMemoryMap 0x20000000).map
      fun m => m.flags.contains Perms.R)) = some (some true) := by decide +kernel
  rw [hmm, Option.map_some, Option.some.injEq] at hfound
  obtain ⟨m, hm, hperms⟩ := Option.map_eq_some_iff.mp hfound
  obtain ⟨k, hk, hin⟩ := (hsound.lookups _ _).1.mp hm
  have hrun := (h (sampleMapped.withEnv env) mm 1 0x20000000 1 sampleMapped_reachable.frameInv hmm
    -- the specification allows the copy
    hsound (sampleMapped_covered hmm) fun x hx hlt hres => by have hlow := hres.1; omega).mpr
    ⟨.inl (by decide), fun x hx hlt => ⟨k, m, hk, by rwa [show x = 0x20000000 by omega], hperms⟩⟩
  obtain ⟨bytes, hbytes⟩ := hrun
  -- the code fails on it
  have herr : ((copyFromUser 1 0x20000000 1).run (sampleMapped.withEnv env)).1
      = .error .outOfMemory := by decide +kernel
  rw [herr] at hbytes
  cases hbytes

end Ape
