import Ape.Proofs.Answered
import Ape.Proofs.UserCopy

/-!
# `Ape.Proofs.UserMemory`: what a store moves

A session of `copy_to_user` or `copy_from_user` goes from entry to entry of the table, and maps the
frame of each one. A store into the frame of an entry changes the bytes at the addresses of the
entry and no other byte of the process: a frame has one place in the table of a process, so the
bytes of other addresses are elsewhere. The windows of a session fail only when a service refuses a
call.
-/

set_option autoImplicit false

namespace Ape

open Ape.Lib Cmd

/-! ### Buffers -/

/-- The bytes of `g`, with `src` from `a` on. -/
def overlay (g : Nat → Option UInt8) (a : Nat) (src : List UInt8) (x : Nat) : Option UInt8 :=
  if a ≤ x ∧ x < a + src.length then src[x - a]? else g x

/-- The length of the frame in a slot, in pages. -/
def World.frameLength (w : World) (slot : Nat) : Option Nat := (w.frames slot).map Frame.pages

/-- A store changes the bytes of a frame and not its length. -/
theorem World.frameLength_writeFrame (w : World) (slot : Nat) (f : Nat → UInt8 → UInt8) :
    (w.writeFrame slot f).frameLength = w.frameLength := by
  funext c
  show (if c = slot then _ else _ : Option Frame).map _ = _
  split
  · rw [Option.map_map]
    rfl
  · rfl

/-- The tables are those of `w₀`, the frames have their lengths, and `pid` reads the bytes `g`. -/
def World.Reads (w₀ : World) (pid : Nat) (g : Nat → Option UInt8) (w : World) : Prop :=
  w.mms = w₀.mms ∧ w.frameLength = w₀.frameLength ∧ ∀ x, w.userByte pid x = g x

/-- A state reads what it reads. -/
theorem World.Reads.refl (w : World) (pid : Nat) : w.Reads pid (w.userByte pid) w :=
  ⟨rfl, rfl, fun _ => rfl⟩

/-- What a process reads since an earlier state. -/
theorem World.Reads.since {w₀ w w' : World} {pid : Nat} {g g' : Nat → Option UInt8}
    (h : w₀.Reads pid g w) (h' : w.Reads pid g' w') : w₀.Reads pid g' w' :=
  ⟨h'.1.trans h.1, h'.2.1.trans h.2.1, h'.2.2⟩

/-- A service refused a call of the session. -/
def Session.Marked (s : Session) : Prop := s.1.Marked

/-- Without bytes there is nothing to overlay. -/
theorem overlay_nil (g : Nat → Option UInt8) (a : Nat) : overlay g a [] = g := by
  funext x
  rw [overlay, if_neg (by rw [List.length_nil]; omega)]

/-- A part first, and then the rest behind it. -/
theorem overlay_overlay (g : Nat → Option UInt8) (a : Nat) (src rest : List UInt8) :
    overlay (overlay g a src) (a + src.length) rest = overlay g a (src ++ rest) := by
  funext x
  simp only [overlay, List.length_append]
  by_cases hrest : a + src.length ≤ x ∧ x < a + src.length + rest.length
  · rw [if_pos hrest, if_pos (by omega), List.getElem?_append_right (by omega)]
    congr 1
    omega
  rw [if_neg hrest]
  by_cases hsrc : a ≤ x ∧ x < a + src.length
  · rw [if_pos hsrc, if_pos (by omega), List.getElem?_append_left (by omega)]
  · rw [if_neg hsrc, if_neg (by omega)]

section Buffers

variable {w w₀ : World} {pid : Nat} {g : Nat → Option UInt8}

/-- What a lookup finds has the address, and the address fits the word. -/
theorem World.lookup_within {x : Nat} {m : MemoryMap} (h : w.lookup pid x = some m) :
    x < m.vaddr + m.size ∧ x < usizeMod := by
  obtain ⟨mm, -, hlook⟩ := Option.bind_eq_some_iff.mp h
  unfold MmState.lookupMemoryMap entryAt at hlook
  split at hlook
  · split at hlook
    · rename_i hlt
      cases hlook
      have hmod := Nat.mod_lt (m.vaddr + m.size) (by decide : 0 < usizeMod)
      have hself := Nat.mod_le (m.vaddr + m.size) usizeMod
      unfold wAdd at hlt
      exact ⟨by omega, by omega⟩
    · cases hlook
  · cases hlook

/-- A process has one entry on a frame. -/
theorem FrameInv.lookup_unique (hinv : FrameInv w) {x y : Nat} {m m' : MemoryMap}
    (h : w.lookup pid x = some m) (h' : w.lookup pid y = some m')
    (hcap : m.frameCap = m'.frameCap) : m = m' := by
  obtain ⟨mm, hmm, hlook⟩ := Option.bind_eq_some_iff.mp h
  obtain ⟨mm', hmm', hlook'⟩ := Option.bind_eq_some_iff.mp h'
  cases hmm.symm.trans hmm'
  obtain ⟨i, hi, -⟩ := MmState.lookup_mem hlook
  obtain ⟨j, hj, -⟩ := MmState.lookup_mem hlook'
  have honce := Counted.once hinv pid mm m.frameCap hmm
  rw [MmState.uses, OrdMap.total_erase _ _ hi, if_pos rfl] at honce
  by_contra hne
  -- the other entry would be a second use
  have hij : j ≠ i := by
    rintro rfl
    exact hne (Option.some.inj (hi.symm.trans hj))
  have hother := OrdMap.le_total (fun m'' : MemoryMap => if m''.frameCap = m.frameCap then 1 else 0)
    (mm.memoryMaps.erase i) (by rw [OrdMap.get?_erase_ne _ hij]; exact hj)
  rw [if_pos hcap.symm] at hother
  omega

/-- Where the tables read as before, lookups find what they found. -/
theorem World.Reads.lookup (h : w₀.Reads pid g w) (x : Nat) : w.lookup pid x = w₀.lookup pid x := by
  rw [World.lookup, h.1, World.lookup]

/-- A store into the frame of an entry, from the place of an address on. -/
theorem World.Reads.store {cursor : Nat} {m : MemoryMap} {src : List UInt8} (hinv : FrameInv w₀)
    (h : w₀.Reads pid g w) (hm : w₀.lookup pid cursor = some m)
    (hthere : ∀ x, cursor ≤ x → x < cursor + src.length →
      w₀.lookup pid x = some m ∧ g x ≠ none) :
    w₀.Reads pid (overlay g cursor src)
      (w.writeFrame m.frameCap (storeBytes (cursor - m.vaddr) src)) := by
  refine ⟨h.1, (w.frameLength_writeFrame _ _).trans h.2.1, ?_⟩
  intro x
  have hlook : (w.writeFrame m.frameCap (storeBytes (cursor - m.vaddr) src)).lookup pid x
      = w₀.lookup pid x := h.lookup x
  have hle := hinv.lookup_le hm
  have hold := h.2.2 x
  rw [World.userByte, h.lookup] at hold
  rw [World.userByte, hlook, overlay]
  -- an address without a mapping is out of the range
  cases hmx : w₀.lookup pid x with
  | none =>
    rw [hmx] at hold
    have hout : ¬ (cursor ≤ x ∧ x < cursor + src.length) := by
      rintro ⟨hlo, hhi⟩
      rw [(hthere x hlo hhi).1] at hmx
      cases hmx
    rw [if_neg hout, ← hold]
    rfl
  | some m' =>
    rw [hmx] at hold
    have hle' := hinv.lookup_le hmx
    simp only [Option.bind_some] at hold ⊢
    show ((if m'.frameCap = m.frameCap then _ else _ : Option Frame).map _) = _
    -- each frame belongs to one mapping, so the others keep their bytes
    by_cases hcap : m'.frameCap = m.frameCap
    · obtain rfl := hinv.lookup_unique hmx hm hcap
      rw [if_pos rfl, Option.map_map]
      by_cases hin : cursor ≤ x ∧ x < cursor + src.length
      · rw [if_pos hin]
        obtain ⟨fr, hfr⟩ : ∃ fr, w.frames m'.frameCap = some fr := by
          refine Option.ne_none_iff_exists'.mp fun hnone => (hthere x hin.1 hin.2).2 ?_
          rw [← hold, hnone]
          rfl
        have hoff : x - m'.vaddr - (cursor - m'.vaddr) = x - cursor := by omega
        rw [hfr, Option.map_some]
        show some (storeBytes _ _ _ _) = _
        have hlt : x - cursor < src.length := by omega
        rw [storeBytes, if_pos (by omega), hoff, List.getD_eq_getElem?_getD,
          List.getElem?_eq_getElem hlt]
        rfl
      · rw [if_neg hin, ← hold]
        congr 1
        funext fr
        show storeBytes _ _ _ _ = _
        rw [storeBytes, if_neg (by omega)]
    · rw [if_neg hcap, hold, if_neg]
      rintro ⟨hlo, hhi⟩
      rw [(hthere x hlo hhi).1] at hmx
      exact hcap (congrArg MemoryMap.frameCap (Option.some.inj hmx)).symm

end Buffers

/-! ### The session -/

section Session

variable {w₀ : World} {pid : Nat} {g : Nat → Option UInt8}

instance : BlindScratch (World.Reads w₀ pid g) where
  tick _ _ := rfl
  slots _ _ := rfl
  scratch _ _ _ := rfl

/-- A call that only the service can refuse. -/
theorem mapScratch_accepts (slot : Nat) (perms : Perms) (pages : Nat) :
    Serve (fun _ => True) (mapScratch slot perms pages) fun _ _ => True where
  stays := (@mapScratch_serves 0 slot perms pages).stays
  good w _ := by
    rcases mapScratch_run slot perms pages w with ⟨e, hrun⟩ | ⟨a, -, hrun⟩ <;> rw [hrun]
    · exact ⟨fun _ ha => (by cases ha), fun _ _ => rfl⟩
    · exact ⟨fun _ _ _ => trivial, fun _ he => by cases he⟩

/-- The end of a scratch window is accepted. -/
theorem unmapScratch_accepts (base : Nat) :
    Serve (fun _ => True) (unmapScratch base) fun _ _ => True where
  stays := (@unmapScratch_serves 0 base).stays
  good w _ := by
    rcases unmapScratch_run base w with ⟨e, hrun⟩ | hrun <;> rw [hrun]
    · exact ⟨fun _ ha => (by cases ha), fun _ _ => rfl⟩
    · exact ⟨fun _ _ _ => trivial, fun _ he => by cases he⟩

/-- A command of a session that fails only when a service refuses a call. -/
abbrev SessionAccepts {α : Type} (c : S α) : Prop :=
  Succeeds Session.Marked (fun _ => True) c fun _ _ => True

/-- A window is given up unless a service refuses a call. -/
theorem unmapSlot_accepts (slot : Nat) : SessionAccepts (unmapSlot slot) := by
  refine Succeeds.bind (R := fun _ _ => True) (Succeeds.gets fun _ h => h) fun o => ?_
  refine Succeeds.whenSome (fun e _ => ?_) fun _ _ h => h
  refine Succeeds.bind (R := fun _ _ => True) (Succeeds.modify (fun _ h => h) fun _ h => h)
    fun _ => ?_
  refine Succeeds.bind (R := fun _ _ => True)
    (Succeeds.inFst fun _ => unmapScratch_accepts e.scratchVaddr) fun _ => ?_
  exact Succeeds.modify (fun _ h => h) fun _ h => h

/-- When no slot is free, the policy names one. -/
theorem SharedPagePool.victim_isSome {pool : SharedPagePool}
    (h : (List.range USER_SHARED_PAGE_POOL_SLOTS).find? (fun i => !pool.occupied i) = none) :
    ∃ slot, pool.victim.1 = some slot := by
  have hfirst : pool.occupied 0 = true := by
    simpa using List.find?_eq_none.mp h 0 (by decide)
  unfold SharedPagePool.victim
  dsimp only
  split
  · exact ⟨_, rfl⟩
  · exact Option.isSome_iff_exists.mp (List.find?_isSome.mpr ⟨0, by decide, hfirst⟩)

/-- A window is found or made unless a service refuses a call. -/
theorem acquire_accepts (m : MemoryMap) (perms : Perms) : SessionAccepts (acquire m perms) := by
  unfold acquire
  -- a hit counts the use, a miss takes a free slot or that of the victim
  refine Succeeds.bind (R := fun _ _ => True) (Succeeds.gets fun _ h => h) fun pool => ?_
  split
  · exact Succeeds.bind (R := fun _ _ => True) (Succeeds.modify (fun _ h => h) fun _ h => h)
      fun _ => Succeeds.pure fun _ h => h
  · refine Succeeds.bind (R := fun _ _ => True) ?_ ?_
    · unfold pickSlot
      refine Succeeds.bind (R := fun _ _ => True) (Succeeds.gets fun _ h => h) fun pool => ?_
      split
      · exact Succeeds.pure fun _ h => h
      · rename_i hfull
        obtain ⟨slot, hslot⟩ := SharedPagePool.victim_isSome hfull
        refine Succeeds.bind (R := fun _ _ => True) (Succeeds.modify (fun _ h => h) fun _ h => h)
          fun _ => Succeeds.getSome (fun _ _ _ h => h) fun _ hnone => ?_
        rw [hslot] at hnone
        cases hnone
    intro slot
    refine Succeeds.bind (R := fun _ _ => True) (Succeeds.gets fun _ h => h) fun busy => ?_
    refine Succeeds.bind (R := fun _ _ => True)
      (Succeeds.when (fun _ => unmapSlot_accepts slot) fun _ _ h => h) fun _ => ?_
    refine Succeeds.bind (R := fun _ _ => True)
      (Succeeds.inFst fun _ => mapScratch_accepts m.frameCap perms m.pages) fun scratch => ?_
    exact Succeeds.bind (R := fun _ _ => True) (Succeeds.modify (fun _ h => h) fun _ h => h)
      fun _ => Succeeds.pure fun _ h => h

/-- The windows of a session are given up unless a service refuses a call. -/
theorem releaseAll_accepts : SessionAccepts releaseAll :=
  Succeeds.forEach_const fun i _ => Succeeds.bind (R := fun _ _ => True)
    (Succeeds.gets fun _ h => h) fun _ =>
      Succeeds.when (fun _ => unmapSlot_accepts i) fun _ _ h => h

end Session

end Ape
