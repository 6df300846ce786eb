import Ape.Proofs.CallMemory
import Ape.Proofs.DemandPaging

/-!
# `Ape.Proofs.StoredBytes`: what a copy has stored

A call that gives something to its process stores it with `copy_to_user`. `UserCopies` says exactly
what such a copy changes, for a buffer outside of the part of the stack that has not grown. A buffer
on a stack that has to grow for it is a different case: the tables change while the copy is at work.
`copyToUser_held` is about every buffer: when the copy succeeds, the bytes are there.

`World.Copied` is a copy inside of a call. The memory before the copy is the memory that the call
was made with, and the memory after the call is the memory after the copy. So what the call has
stored is told by the two states of the call alone.
-/

set_option autoImplicit false

namespace Ape

open Ape.Lib Cmd

/-! ### The growth of a stack -/

section Growth

variable {w₀ : World} {pid : Nat} {mm₀ : MmState} {v₀ : MapView}

/-- A page of the stack, at a key that had no entry. -/
theorem growStackPage_enlarged {vaddr : Nat} (hfree : mm₀.memoryMaps.get? vaddr = none) :
    Triple (fun w => Enlarged pid mm₀ v₀ w.mapView) (growStackPage pid vaddr)
      (fun _ w => Enlarged pid mm₀ v₀ w.mapView) (fun _ w => Enlarged pid mm₀ v₀ w.mapView) := by
  refine Triple.bind (allocPageFrameNoCleanup_enlarged 1) fun slot => ?_
  refine Triple.bind (enlarged_step (by simp)) fun _ => ?_
  refine Triple.bind (enlarged_step (by simp)) fun _ => ?_
  refine Triple.bind (enlarged_step (by simp)) fun _ => Triple.modify fun w h => ?_
  exact h.1.modifyMm fun mm hext =>
    (hext.add (m := pageEntry vaddr Perms.RW .stack slot) hfree).congr rfl

/-- The growth of a stack for an address adds pages at keys that had no entry. -/
theorem tryGrow_enlarged (hmm : w₀.mms.get? pid = some mm₀) (hsound : mm₀.Sound) (a : Nat) :
    Triple (fun w => w = w₀) (tryGrowStackForUserAddr pid a)
      (fun _ w => Enlarged pid mm₀ w₀.mapView w.mapView)
      (fun _ w => Enlarged pid mm₀ w₀.mapView w.mapView) := by
  have hstart : ∀ w, w = w₀ → Enlarged pid mm₀ w₀.mapView w.mapView := by
    rintro w rfl
    exact ⟨fun _ _ => rfl, ⟨mm₀, hmm, .refl mm₀⟩, fun _ _ h => h⟩
  refine Triple.bind (getProcess_known hmm) fun t => Triple.of_pre fun w₁ h₁ => ?_
  obtain ⟨rfl, hstate⟩ := h₁
  rw [hstate]
  dsimp only
  refine Triple.ite (fun _ => Triple.pure hstart) fun hin => ?_
  refine Triple.ite (fun _ => Triple.pure hstart) fun hlow => ?_
  refine Triple.ite (fun _ => Triple.pure hstart) fun _ => ?_
  -- the pages between the stack and the page of the address have not grown yet
  have hreserved : mm₀.Reserved a := by
    obtain ⟨hbelow, habove⟩ := not_not.mp hin
    have hbottom := hsound.stackBottom
    have hsize := hsound.stackSize
    refine ⟨habove, ?_⟩
    unfold alignDown PGSIZE at *
    omega
  obtain ⟨-, -, hpages⟩ := hsound.growth hreserved rfl
  refine Triple.bind (R := fun _ w => Enlarged pid mm₀ w₁.mapView w.mapView) ?_ fun _ =>
    Triple.pure fun _ h => h
  have hgrow : Keeps (fun w => Enlarged pid mm₀ w₁.mapView w.mapView) (forEach
      (List.range ((mm₀.stackBottom - mm₀.stackSize - alignDown a) / PGSIZE)) fun idx =>
        growStackPage pid (mm₀.stackBottom - mm₀.stackSize - (idx + 1) * PGSIZE)) :=
    Keeps.forEach_mem fun idx hidx => (growStackPage_enlarged
      (hsound.reserved_free (hpages idx (List.mem_range.mp hidx)))).keeps
  exact hgrow.triple.pre hstart

end Growth

/-! ### The bytes that are there -/

/-- The tables of a process are sound. -/
def World.TablesSound (w : World) (pid : Nat) : Prop := ∀ mm, w.mms.get? pid = some mm → mm.Sound

/-- The frames are counted, the tables of `pid` are sound, and `pid` has the bytes at `a`. -/
structure World.HoldsAt (pid a : Nat) (bs : List UInt8) (w : World) : Prop where
  frames : FrameInv w
  tables : AllTabs (· = pid) True w
  bytes : Memory.HoldsBytes (w.userByte pid) a bs

section HoldsAt

variable {w w' : World} {pid a : Nat} {bs : List UInt8}

/-- The tables of the process are sound. -/
theorem World.HoldsAt.sound (h : w.HoldsAt pid a bs) {mm : MmState}
    (hmm : w.mms.get? pid = some mm) :
    mm.Sound := (h.tables pid mm rfl hmm).2 trivial

/-- The bytes do not depend on anything but tables and frames. -/
theorem World.HoldsAt.congr (h : w.HoldsAt pid a bs) (hv : w'.readView = w.readView)
    (hinv : FrameInv w') : w'.HoldsAt pid a bs where
  frames := hinv
  tables q mm hq hmm := h.tables q mm hq (by rwa [← show w'.mms = w.mms from congrArg Prod.fst hv])
  bytes := by
    rw [funext ((World.Reads.refl w pid).congr hv).2.2]
    exact h.bytes

/-- The growth of a stack leaves the bytes of its process. -/
theorem tryGrow_held (x : Nat) : Keeps (World.HoldsAt pid a bs)
    (tryGrowStackForUserAddr pid x) := by
  intro w h
  have hinv' : FrameInv ((tryGrowStackForUserAddr pid x).run w).2 :=
    tryGrow_keeps_of (growStackPage_keeps pid) x w h.frames
  have htabs' : AllTabs (· = pid) True ((tryGrowStackForUserAddr pid x).run w).2 :=
    GrowKeeps.grow pid x w h.tables
  refine ⟨hinv', htabs', ?_⟩
  rw [Memory.holdsBytes_iff]
  intro i hi
  have hbyte := (Memory.holdsBytes_iff _ a bs).mp h.bytes i hi
  cases hmm : w.mms.get? pid with
  | none =>
    -- a process that is gone has no bytes
    rw [World.userByte, World.lookup, hmm, Option.bind_none, Option.bind_none] at hbyte
    cases hbyte
  | some mm =>
    have hgrown : Enlarged pid mm w.mapView ((tryGrowStackForUserAddr pid x).run w).2.mapView := by
      obtain ⟨hok, herr⟩ := tryGrow_enlarged hmm (h.sound hmm) x w rfl
      cases hr : ((tryGrowStackForUserAddr pid x).run w).1 with
      | ok b => exact hok b hr
      | error e => exact herr e hr
    exact (Handled.grown hgrown).bytes_own hinv' hmm (h.sound hmm)
      (fun mm' hmm' => (htabs' pid mm' rfl hmm').2 trivial) hbyte

/-! ### The loop -/

/-- A store behind the bytes that are there. -/
theorem World.HoldsAt.store (h : w.HoldsAt pid a bs) {m : MemoryMap} {src : List UInt8}
    (hm : ∀ x, a + bs.length ≤ x → x < a + bs.length + src.length → w.lookup pid x = some m)
    (hsrc : src ≠ []) :
    (w.writeFrame m.frameCap (storeBytes (a + bs.length - m.vaddr) src)).HoldsAt pid a
    (bs ++ src) := by
  have hpos := List.length_pos_iff.mpr hsrc
  have hinv := h.frames
  have hreads : w.Reads pid (overlay (w.userByte pid) (a + bs.length) src)
      (w.writeFrame m.frameCap (storeBytes (a + bs.length - m.vaddr) src)) :=
    (World.Reads.refl w pid).store hinv (hm _ le_rfl (by omega)) fun x hx hlt =>
      ⟨hm x hx hlt, World.Backs.of_frames hinv x m (hm x hx hlt)⟩
  refine ⟨(BlindBytes.writeFrame w m.frameCap _).mpr hinv, h.tables, ?_⟩
  rw [funext hreads.2.2]
  refine Memory.HoldsBytes.append ((holdsBytes_overlay (.inl le_rfl)).mpr h.bytes) ?_
  rw [Memory.holdsBytes_iff]
  intro i hi
  rw [overlay, if_pos ⟨by omega, by omega⟩, Nat.add_sub_cancel_left, List.getElem?_eq_getElem hi]

/-- A round goes on with the bytes that are stored. -/
theorem copyToUserLoop_held (pid a fuel : Nat) :
    ∀ bs src : List UInt8, src.length ≤ fuel →
      Triple (fun s : Session => PoolOk s ∧ s.1.HoldsAt pid a bs)
        (copyToUserLoop pid fuel (a + bs.length) src)
        (fun _ s => s.1.HoldsAt pid a (bs ++ src)) (fun _ _ => True) := by
  induction fuel with
  | zero =>
    intro bs src hle
    obtain rfl : src = [] := List.length_eq_zero_iff.mp (Nat.le_zero.mp hle)
    rw [List.append_nil]
    exact Triple.pure fun s h => h.2
  | succ fuel ih =>
    intro bs src hle
    unfold copyToUserLoop
    refine Triple.ite (fun hnil => Triple.pure ?_) ?_
    · intro s h
      rw [hnil, List.append_nil]
      exact h.2
    intro hsrc
    have hlen := List.length_pos_iff.mpr hsrc
    -- the lookup may grow the stack, and leaves the bytes
    refine Triple.bind (R := fun m s => (PoolOk s ∧ s.1.HoldsAt pid a bs) ∧
      s.1.lookup pid (a + bs.length) = some m) (Triple.inFst ?_) ?_
    · intro pool
      have hgrow : Keeps (fun w => PoolOk (w, pool) ∧ w.HoldsAt pid a bs)
          (tryGrowStackForUserAddr pid (a + bs.length)) := fun w h =>
        ⟨h.1.of_scratch (tryGrowStackForUserAddr_frames (V := World.scratch) pid _ w),
          tryGrow_held _ w h.2⟩
      exact (lookupMap_found hgrow Perms.W).imp (fun _ h => h) (fun m w h => ⟨h.1, h.2.1⟩)
        fun _ _ _ => trivial
    intro m
    refine Triple.of_pre fun s₁ h₁ => ?_
    obtain ⟨⟨hpool, hheld⟩, hm⟩ := h₁
    obtain ⟨mm, hmm, -⟩ := Option.bind_eq_some_iff.mp hm
    obtain ⟨hchunk, hstart, hsat⟩ := (hheld.sound hmm).chunk hmm hm hlen
    dsimp only
    rw [hsat]
    generalize min (m.size - (a + bs.length - m.vaddr)) src.length = chunk at hchunk
    have hpos := hchunk.pos
    have htake : (src.take chunk).length = chunk := by
      rw [List.length_take, Nat.min_eq_left hchunk.le]
    have hfirst : src.take chunk ≠ [] := List.length_pos_iff.mp (by omega)
    rw [if_neg hpos.ne']
    -- the window is on the frame of the entry
    refine Triple.bind (R := fun b s => s.1.HoldsAt pid a bs ∧ s.1.readView = s₁.1.readView ∧
      PoolOk s ∧ ∃ sc, s.1.scratch b = some sc ∧ sc.slot = m.frameCap) ?_ ?_
    · have hkeep : Keeps (fun s : Session => s.1.HoldsAt pid a bs ∧ s.1.readView = s₁.1.readView)
          (acquire m Perms.RW) := by
        intro s h
        have hv := acquire_frames (V := World.readView) m Perms.RW s
        exact ⟨h.1.congr hv (acquire_keeps m Perms.RW s h.1.frames), hv.trans h.2⟩
      refine ((acquire_maps m Perms.RW).and hkeep.triple).imp ?_ ?_ fun _ _ _ => trivial
      · rintro s rfl
        exact ⟨hpool, hheld, rfl⟩
      · intro b s h
        exact ⟨h.2.1, h.2.2, h.1⟩
    intro b
    refine Triple.bind (R := fun _ s => PoolOk s ∧ s.1.HoldsAt pid a (bs ++ src.take chunk))
      (Triple.inFst fun pool => Triple.modify ?_) fun _ => ?_
    · intro w h
      obtain ⟨hheld', hv, hpool', sc, hsc, hslot⟩ := h
      rw [hsc]
      dsimp only
      rw [hslot]
      refine ⟨hpool'.of_scratch rfl, hheld'.store (fun x hx hlt => ?_) hfirst⟩
      rw [World.lookup, show w.mms = s₁.1.mms from congrArg Prod.fst hv]
      exact hchunk.found x hx (by omega)
    · have hrest := ih (bs ++ src.take chunk) (src.drop chunk) (by rw [List.length_drop]; omega)
      rw [List.length_append, htake, ← Nat.add_assoc, List.append_assoc,
        List.take_append_drop] at hrest
      exact hrest

/-- The end of a session leaves what is there. -/
theorem withUserSession_held {f : S Unit} {cs : List UInt8}
    (hf : Triple (fun s : Session => PoolOk s ∧ s.1.HoldsAt pid a bs) f
      (fun _ s => s.1.HoldsAt pid a cs) (fun _ _ => True)) :
    Triple (World.HoldsAt pid a bs) (withUserSession f) (fun _ w => w.HoldsAt pid a cs)
      (fun _ _ => True) := by
  unfold withUserSession
  -- the release at the end of the session copies nothing
  have hrelease : Keeps (fun s : Session => s.1.HoldsAt pid a cs) releaseAll := fun s h =>
    h.congr (releaseAll_frames s) (releaseAll_frames.keepsProp s h.frames)
  refine Triple.bind (R := fun r w => ∀ u, r.1 = .ok u → w.HoldsAt pid a cs)
    (Triple.runWith (hf.pre ?_) (fun u w _ h _ _ => h) fun _ _ _ _ _ hu => by cases hu) ?_
  · intro s h
    obtain ⟨w', pool⟩ := s
    obtain rfl : pool = SharedPagePool.new := h.2
    exact ⟨PoolOk.new w', h.1⟩
  · intro r
    refine Triple.bind (R := fun _ w => ∀ u, r.1 = .ok u → w.HoldsAt pid a cs) ?_ ?_
    · intro w h
      refine ⟨fun c hc u hu => ?_, fun _ hc => by cases hc⟩
      cases hc
      exact hrelease (w, r.2) (h u hu)
    · intro c
      rcases r with ⟨e | u, pool⟩
      · exact Triple.bind (R := fun _ _ => False) (Triple.throw fun _ _ => trivial)
          fun _ _ h => h.elim
      · refine Triple.bind (R := fun _ w => w.HoldsAt pid a cs) (Triple.pure fun w h => h u rfl)
          fun _ => ?_
        exact Triple.bind (R := fun _ w => w.HoldsAt pid a cs)
          (Triple.ofExcept (fun _ _ _ h => h) fun _ _ _ _ => trivial) fun _ =>
            Triple.pure fun _ h => h

/-- A copy to a process that succeeds has stored its bytes. -/
theorem copyToUser_held {src : List UInt8} (hinv : FrameInv w) (hsound : w.TablesSound pid)
    (hok : ((copyToUser pid a src).run w).1 = .ok ()) :
    Memory.HoldsBytes (((copyToUser pid a src).run w).2.userByte pid) a src := by
  have hsession : Triple (fun s : Session => PoolOk s ∧ s.1.HoldsAt pid a [])
      (sessionCopyToUser pid a src) (fun _ s => s.1.HoldsAt pid a src) (fun _ _ => True) := by
    unfold sessionCopyToUser
    refine Triple.ite (fun hnil => Triple.pure fun s h => hnil ▸ h.2) fun _ => ?_
    refine Triple.ite (fun _ => Triple.throw fun _ _ => trivial) fun _ => ?_
    exact copyToUserLoop_held pid a src.length [] src le_rfl
  have hstart : w.HoldsAt pid a [] := by
    refine ⟨hinv, ?_, trivial⟩
    intro q mm hq hmm
    subst hq
    exact ⟨(hsound mm hmm).aligned, fun _ => hsound mm hmm⟩
  have hcopy := withUserSession_held hsession w hstart
  exact (hcopy.1 () hok).bytes

end HoldsAt

/-! ### A copy inside of a call -/

/-- The tables and the frames of `w` are those of `w₀`. -/
def World.MemoryOf (w₀ w : World) : Prop :=
  w.readView = w₀.readView ∧ (FrameInv w₀ → FrameInv w)

/-- Between `w` and `w'` the bytes of `src` went to `ptr`, and the copy returned `r`: the memory of
`w'` is that after the copy. After a copy that succeeded the bytes are there. In a buffer of the
process nothing else has changed, also when the copy failed and stored a part of them. -/
structure World.Copied (w : World) (pid ptr : Nat) (src : List UInt8) (r : Except Err Unit)
    (w' : World) : Prop where
  copied : ∃ v v', v.readView = w.readView ∧ (copyToUser pid ptr src).run v = (r, v') ∧
    w'.readView = v'.readView
  held : r = .ok () → FrameInv w → w.TablesSound pid → Memory.HoldsBytes (w'.userByte pid) ptr src
  stored : r = .ok () → w.Buffer pid ptr src.length →
    w.Reads pid (overlay (w.userByte pid) ptr src) w'
  part : ∀ e, r = .error e → w.Buffer pid ptr src.length →
    ∃ k, w.Reads pid (overlay (w.userByte pid) ptr (src.take k)) w'

section Copied

variable {w v v' w' : World} {pid ptr : Nat} {src : List UInt8} {r : Except Err Unit}

/-- A state has its own memory. -/
theorem World.MemoryOf.refl (w : World) : w.MemoryOf w := ⟨rfl, id⟩

/-- A command that sees no memory. -/
theorem memoryOf_keeps {α : Type} {c : M α} (hread : Frames World.readView c)
    (hinv : Keeps FrameInv c) : Keeps w.MemoryOf c :=
  fun v h => ⟨(hread v).trans h.1, fun hw => hinv v (h.2 hw)⟩

/-- The tables are the same. -/
theorem World.MemoryOf.mms (h : w.MemoryOf v) : v.mms = w.mms := congrArg Prod.fst h.1

/-- A buffer stays one while the memory stays. -/
theorem World.MemoryOf.buffer (h : w.MemoryOf v) {n : Nat} (hbuf : w.Buffer pid ptr n) :
    v.Buffer pid ptr n where
  frames := h.2 hbuf.frames
  tables := by
    rw [h.mms]
    exact hbuf.tables

/-- What a process reads is read from the memory. -/
theorem World.MemoryOf.reads (h : w.MemoryOf v) {g : Nat → Option UInt8} (hv : v.Reads pid g v') :
    w.Reads pid g v' :=
  ((World.Reads.refl w pid).congr h.1).since hv

/-- A copy from the memory of `w`, with nothing after it that the memory shows. -/
theorem World.MemoryOf.copied (h : w.MemoryOf v) (hcopy : (copyToUser pid ptr src).run v = (r, v'))
    (hend : w'.readView = v'.readView) : w.Copied pid ptr src r w' := by
  have hbytes : v.userByte pid = w.userByte pid :=
    funext ((World.Reads.refl w pid).congr h.1).2.2
  have hexact : w.Buffer pid ptr src.length → ∃ mm, CopiedOut v v' mm pid ptr src r := by
    -- what the copy of a valid buffer does, in terms of the memory it found
    intro hbuf
    obtain ⟨mm, hmm, hsound, hout⟩ := (h.buffer hbuf).tables
    have hcopied := copyToUser_exact (h.2 hbuf.frames) hsound hmm hout
    rw [hcopy] at hcopied
    exact ⟨mm, hcopied⟩
  refine ⟨⟨v, v', h.1, hcopy, hend⟩, ?_, ?_, ?_⟩
  · intro hr hinv hsound
    subst hr
    have hok : ((copyToUser pid ptr src).run v).1 = .ok () := by rw [hcopy]
    have hheld := copyToUser_held (h.2 hinv) (fun mm hmm => hsound mm (h.mms ▸ hmm)) hok
    rw [hcopy] at hheld
    rw [funext ((World.Reads.refl v' pid).congr hend).2.2]
    exact hheld
  · intro hr hbuf
    obtain ⟨mm, hcopied⟩ := hexact hbuf
    have hstored := hcopied.stored hr
    rw [hbytes] at hstored
    exact (h.reads hstored).congr hend
  · intro e hr hbuf
    obtain ⟨mm, hcopied⟩ := hexact hbuf
    obtain ⟨k, hpart⟩ := hcopied.part e hr
    rw [hbytes] at hpart
    exact ⟨k, (h.reads hpart).congr hend⟩

/-- What comes after the copy leaves the memory. -/
theorem World.Copied.congr (h : w.Copied pid ptr src r v) (hv : w'.readView = v.readView) :
    w.Copied pid ptr src r w' := by
  obtain ⟨u, u', hu, hcopy, hend⟩ := h.copied
  refine ⟨⟨u, u', hu, hcopy, hv.trans hend⟩, ?_, fun hr hbuf => (h.stored hr hbuf).congr hv, ?_⟩
  · intro hr hinv hsound
    rw [funext ((World.Reads.refl v pid).congr hv).2.2]
    exact h.held hr hinv hsound
  · intro e hr hbuf
    obtain ⟨k, hpart⟩ := h.part e hr hbuf
    exact ⟨k, hpart.congr hv⟩

end Copied

end Ape
