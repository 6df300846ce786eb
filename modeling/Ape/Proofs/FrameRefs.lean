import Ape.Proofs.Calls

/-!
# `Ape.Proofs.FrameRefs`: the accounting of frames

A frame is in use through the entries of `memory_maps`, and through a command that has it in
hand: it was allocated and is not in a table yet, or was taken out of a table and is not
released yet. `Counted mms own held w` says that the counters of `w` cover the uses of the
tables `mms` and of the slots `held`. The tables are a parameter, so that the end of a process
can be followed after its table was given up and before its record is removed.

Each primitive has one rule: an allocation adds to `held`, a release takes from it, and a
change of a table moves slots between the table and `held`. A slot that is dropped from
`held` is a leak, which the claim about frames in use allows.
-/

set_option autoImplicit false

namespace Ape

open Ape.Lib Cmd

/-! ### What the accounting sees -/

/-- The memory tables of the processes. -/
def World.mms (w : World) : OrdMap Nat MmState := w.tasks.mapValues (·.mm.state)

/-- The memory state of a process is in its record. -/
theorem World.get?_mms (w : World) (pid : Nat) :
    w.mms.get? pid = (w.task? pid).map (·.mm.state) := OrdMap.get?_mapValues _ _ _

/-- The frames there are and their counters. -/
structure FrameView where
  live : Nat → Bool
  refs : Nat → Option Nat
  doubleFree : Bool

/-- The frames there are and their counters. -/
def World.frameView (w : World) : FrameView :=
  ⟨fun s => (w.frames s).isSome, w.frameCapRefs, w.doubleFree⟩

/-- The part of the state that the accounting reads. -/
def World.memView (w : World) : OrdMap Nat MmState × FrameView := (w.mms, w.frameView)

/-- A change of a record that keeps the memory state of every process. -/
theorem World.mms_modifyTask (w : World) (pid : Nat) {f : TaskStruct → TaskStruct}
    (hf : ∀ t, (f t).mm.state = t.mm.state) : (w.modifyTask pid f).mms = w.mms :=
  OrdMap.mapValues_modify_eq _ _ _ hf

instance : BlindControl World.mms where
  tick _ _ := rfl
  slots _ _ := rfl
  trace _ _ := rfl
  signal w pid _ := w.mms_modifyTask pid fun _ => rfl
  dropped _ _ := rfl
  missedIntr _ _ := rfl
  record w pid _ hf := w.mms_modifyTask pid fun t => by rw [(hf t).1]
  hostPidMap _ _ := rfl
  stale _ _ := rfl
  stopLog _ _ := rfl
  stopSkewed _ _ := rfl
  childEvents _ _ := rfl
  pendingWaits _ _ := rfl
  lifecycle _ _ := rfl
  missedWake _ _ := rfl
  waited _ _ := rfl
  leftEvents _ _ := rfl
  pendingSleeps _ _ := rfl
  requestId _ _ := rfl
  idSaturated _ _ := rfl
  sleepLog _ _ := rfl
  caller _ _ := rfl

instance : BlindFiles World.mms where
  files w pid _ := w.mms_modifyTask pid fun _ => rfl
  cloexecLog _ _ := rfl
  positionSplit _ _ := rfl
  endpoints _ _ := rfl
  doubleClose _ _ := rfl
  asyncFree _ _ := rfl
  asyncRegions _ _ := rfl
  asyncVaddr _ _ := rfl
  iouring _ _ := rfl
  fdOverflow _ _ := rfl
  earlyRecycle _ _ := rfl

instance : BlindSlots World.mms where
  ledger _ _ := rfl

instance : BlindMaps World.mms where
  fileMapLog _ _ := rfl

instance : BlindTables World.mms where
  vspace w pid _ := w.mms_modifyTask pid fun _ => rfl
  tables w pid _ := w.mms_modifyTask pid fun _ => rfl

instance : BlindBytes World.mms where
  scratch _ _ _ := rfl
  writeFrame _ _ _ := rfl

instance : BlindFrames World.mms where
  frames _ _ _ := rfl
  refs _ _ := rfl
  doubleFree _ _ := rfl

/-- A change of a record that the accounting does not see. -/
theorem World.memView_modifyTask (w : World) (pid : Nat) {f : TaskStruct → TaskStruct}
    (hf : ∀ t, (f t).mm.state = t.mm.state) : (w.modifyTask pid f).memView = w.memView := by
  simp only [World.memView, w.mms_modifyTask pid hf]
  rfl

instance : BlindControl World.memView where
  tick _ _ := rfl
  slots _ _ := rfl
  trace _ _ := rfl
  signal w pid _ := w.memView_modifyTask pid fun _ => rfl
  dropped _ _ := rfl
  missedIntr _ _ := rfl
  record w pid _ hf := w.memView_modifyTask pid fun t => by rw [(hf t).1]
  hostPidMap _ _ := rfl
  stale _ _ := rfl
  stopLog _ _ := rfl
  stopSkewed _ _ := rfl
  childEvents _ _ := rfl
  pendingWaits _ _ := rfl
  lifecycle _ _ := rfl
  missedWake _ _ := rfl
  waited _ _ := rfl
  leftEvents _ _ := rfl
  pendingSleeps _ _ := rfl
  requestId _ _ := rfl
  idSaturated _ _ := rfl
  sleepLog _ _ := rfl
  caller _ _ := rfl

instance : BlindFiles World.memView where
  files w pid _ := w.memView_modifyTask pid fun _ => rfl
  cloexecLog _ _ := rfl
  positionSplit _ _ := rfl
  endpoints _ _ := rfl
  doubleClose _ _ := rfl
  asyncFree _ _ := rfl
  asyncRegions _ _ := rfl
  asyncVaddr _ _ := rfl
  iouring _ _ := rfl
  fdOverflow _ _ := rfl
  earlyRecycle _ _ := rfl

instance : BlindMaps World.memView where
  fileMapLog _ _ := rfl

instance : BlindSlots World.memView where
  ledger _ _ := rfl

instance : BlindTables World.memView where
  vspace w pid _ := w.memView_modifyTask pid fun _ => rfl
  tables w pid _ := w.memView_modifyTask pid fun _ => rfl

instance : BlindBytes World.memView where
  scratch _ _ _ := rfl
  writeFrame w slot f := by
    have hlive : ∀ s, ((w.writeFrame slot f).frames s).isSome = (w.frames s).isSome := by
      intro s
      simp only [World.writeFrame]
      split <;> simp
    simp only [World.memView, World.frameView, hlive]
    rfl

/-! ### Uses of a frame -/

/-- The number of entries of a table with the frame `s`. -/
def MmState.uses (s : Nat) (mm : MmState) : Nat :=
  mm.memoryMaps.total fun m => if m.frameCap = s then 1 else 0

/-- The shape of the entries of a table: an entry is filed under its address, and has at least
one page and at most a huge page. -/
def MmState.Shaped (mm : MmState) : Prop :=
  ∀ k m, mm.memoryMaps.get? k = some m →
    m.vaddr = k ∧ 0 < m.size ∧ m.size ≤ L1_HUGE_SIZE ∧ m.size % PGSIZE = 0

/-- The counters cover the uses by the tables `mms` and by the slots `held`, and only frames have
counters. The slots in hand go to the process `own`, so they are not in its table. -/
structure Counted (mms : OrdMap Nat MmState) (own : Option Nat) (held : List Nat) (v : FrameView) :
    Prop where
  live : ∀ s, 0 < mms.total (MmState.uses s) + held.count s → v.live s
  counted : ∀ s, mms.total (MmState.uses s) + held.count s ≤ (v.refs s).getD 1
  once : ∀ q mm s, mms.get? q = some mm →
    mm.uses s + (if own = some q then held.count s else 0) ≤ 1
  stored : ∀ s n, v.refs s = some n → 1 ≤ n
  shared : ∀ s n, v.refs s = some n → v.live s
  null : v.live 0 = false
  noDoubleFree : v.doubleFree = false
  shaped : ∀ q mm, mms.get? q = some mm → mm.Shaped

section Rules

variable {mms mms' : OrdMap Nat MmState} {own : Option Nat} {held held' : List Nat} {v : FrameView}

/-- The rule of conservation: the uses only move between the tables and the hand. -/
theorem Counted.conserve (h : Counted mms own held v)
    (htotal : ∀ s, mms'.total (MmState.uses s) + held'.count s
      ≤ mms.total (MmState.uses s) + held.count s)
    {own' : Option Nat}
    (honce : ∀ q mm s, mms'.get? q = some mm →
      mm.uses s + (if own' = some q then held'.count s else 0) ≤ 1)
    (hshaped : ∀ q mm, mms'.get? q = some mm → mm.Shaped) : Counted mms' own' held' v where
  live s hs := h.live s (lt_of_lt_of_le hs (htotal s))
  counted s := (htotal s).trans (h.counted s)
  once := honce
  stored := h.stored
  shared := h.shared
  null := h.null
  noDoubleFree := h.noDoubleFree
  shaped := hshaped

/-- Slots may be dropped from the hand. -/
theorem Counted.drop (h : Counted mms own held v) (hle : ∀ s, held'.count s ≤ held.count s) :
    Counted mms own held' v := by
  refine h.conserve (fun s => Nat.add_le_add_left (hle s) _) (fun q mm s hq => ?_) h.shaped
  refine le_trans ?_ (h.once q mm s hq)
  split
  · exact Nat.add_le_add_left (hle s) _
  · exact le_rfl

/-- A frame in hand that is no longer counted for. -/
theorem Counted.drop_cons {s : Nat} (h : Counted mms own (s :: held) v) : Counted mms own held v :=
  h.drop fun t => by rw [List.count_cons]; omega

/-- An empty hand belongs to everybody. -/
theorem Counted.nil_own (h : Counted mms own held v) (own' : Option Nat) :
    Counted mms own' [] v := by
  refine h.conserve (fun s => by simp) (fun q mm s hq => ?_) h.shaped
  have := h.once q mm s hq
  simp
  omega

/-- An entry of a table uses its frame. -/
theorem MmState.uses_pos {mm : MmState} {k : Nat} {m : MemoryMap}
    (h : mm.memoryMaps.get? k = some m) : 0 < mm.uses m.frameCap :=
  lt_of_lt_of_le (by simp) (OrdMap.le_total (fun e => if e.frameCap = m.frameCap then 1 else 0)
    mm.memoryMaps h)

/-- A frame that a table uses is the frame of one of its entries. -/
theorem MmState.entry_of_uses {mm : MmState} {s : Nat} (h : 0 < mm.uses s) :
    ∃ k m, mm.memoryMaps.get? k = some m ∧ m.frameCap = s := by
  by_contra hno
  have hzero : mm.uses s = 0 :=
    OrdMap.total_eq_zero.mpr fun k m hk => if_neg fun heq => hno ⟨k, m, hk, heq⟩
  omega

/-- The frame of an entry is live. -/
theorem Counted.live_entry (h : Counted mms own held v) {q k : Nat} {mm : MmState} {m : MemoryMap}
    (hq : mms.get? q = some mm) (hk : mm.memoryMaps.get? k = some m) : v.live m.frameCap := by
  refine h.live _ (Nat.add_pos_left ?_ _)
  exact lt_of_lt_of_le (MmState.uses_pos hk) (OrdMap.le_total _ _ hq)

/-- A slot without a frame is not in use. -/
theorem Counted.unused (h : Counted mms own held v) {s : Nat} (hs : v.live s = false) :
    mms.total (MmState.uses s) = 0 ∧ held.count s = 0 := by
  by_contra hne
  have := h.live s (by omega)
  simp [hs] at this

/-- A new frame is in hand. -/
theorem Counted.put {slot : Nat} (h : Counted mms own held v) (hne : slot ≠ 0)
    (hdead : v.live slot = false) :
    Counted mms own (slot :: held)
      { v with live := fun s => if s = slot then true else v.live s } := by
  obtain ⟨htotal, hheld⟩ := h.unused hdead
  refine ⟨?_, ?_, ?_, h.stored, ?_, ?_, h.noDoubleFree, h.shaped⟩
  -- the new frame is live and held once, and no table uses it yet
  · intro s hs
    by_cases heq : s = slot
    · simp [heq]
    · rw [List.count_cons_of_ne (Ne.symm heq)] at hs
      simpa [heq] using h.live s hs
  · intro s
    by_cases heq : s = slot
    · subst heq
      rw [List.count_cons_self, htotal, hheld]
      cases hr : v.refs s with
      | none => exact le_rfl
      | some n => exact h.stored s n hr
    · rw [List.count_cons_of_ne (Ne.symm heq)]
      exact h.counted s
  · intro q mm s hq
    have honce := h.once q mm s hq
    by_cases heq : s = slot
    · subst heq
      have huse : mm.uses s ≤ 0 := htotal ▸ OrdMap.le_total (MmState.uses s) _ hq
      rw [List.count_cons_self, hheld]
      split <;> omega
    · rwa [List.count_cons_of_ne (Ne.symm heq)]
  · intro s n hn
    show (if s = slot then true else v.live s) = true
    split
    · rfl
    · exact h.shared s n hn
  · simpa [Ne.symm hne] using h.null

/-- A counter above one goes down with the use in hand. -/
theorem Counted.dropRef {slot n : Nat} (h : Counted mms own (slot :: held) v)
    (hn : v.refs slot = some n) (hlt : 1 < n) :
    Counted mms own held
      { v with refs := fun s => if s = slot then some (n - 1) else v.refs s } := by
  have hlive : v.live slot := h.live slot (by rw [List.count_cons_self]; omega)
  refine ⟨h.drop_cons.live, ?_, h.drop_cons.once, ?_, ?_, h.null, h.noDoubleFree, h.shaped⟩
  -- one use fewer in hand goes with one reference fewer
  · intro s
    by_cases heq : s = slot
    · have hslot := h.counted slot
      simp only [List.count_cons_self, hn, Option.getD_some] at hslot
      simp only [heq, if_true, Option.getD_some]
      exact Nat.le_sub_of_add_le hslot
    · simpa [heq] using h.drop_cons.counted s
  · intro s k hk
    by_cases heq : s = slot
    · simp only [heq, if_true, Option.some.injEq] at hk
      omega
    · simp only [heq, if_false] at hk
      exact h.stored s k hk
  · intro s k hk
    by_cases heq : s = slot
    · rw [heq]
      exact hlive
    · simp only [heq, if_false] at hk
      exact h.shared s k hk

/-- A counter that is absent or one has no other use. -/
theorem Counted.last {slot : Nat} (h : Counted mms own (slot :: held) v)
    (hn : (v.refs slot).getD 1 ≤ 1) :
    mms.total (MmState.uses slot) = 0 ∧ held.count slot = 0 := by
  have hslot := h.counted slot
  rw [List.count_cons_self] at hslot
  omega

/-- A counter of one may be left out. -/
theorem Counted.eraseRef {slot : Nat} (h : Counted mms own (slot :: held) v)
    (hn : (v.refs slot).getD 1 ≤ 1) :
    Counted mms own (slot :: held)
      { v with refs := fun s => if s = slot then none else v.refs s } := by
  obtain ⟨htotal, hheld⟩ := h.last hn
  refine ⟨h.live, ?_, h.once, ?_, ?_, h.null, h.noDoubleFree, h.shaped⟩
  · intro s
    by_cases heq : s = slot
    · subst heq
      rw [List.count_cons_self, htotal, hheld]
      simp
    · simpa [heq] using h.counted s
  · intro s k hk
    by_cases heq : s = slot
    · simp [heq] at hk
    · simp only [heq, if_false] at hk
      exact h.stored s k hk
  · intro s k hk
    by_cases heq : s = slot
    · simp [heq] at hk
    · simp only [heq, if_false] at hk
      exact h.shared s k hk

/-- The frame of a last use can be freed. -/
theorem Counted.free {slot : Nat} (h : Counted mms own (slot :: held) v)
    (hnone : v.refs slot = none) :
    Counted mms own held
      { v with
        doubleFree := v.doubleFree || !v.live slot
        live := fun s => if s = slot then false else v.live s } := by
  obtain ⟨htotal, hheld⟩ := h.last (by simp [hnone])
  have hlive : v.live slot := h.live slot (by rw [List.count_cons_self]; omega)
  refine ⟨?_, h.drop_cons.counted, h.drop_cons.once, h.stored, ?_, ?_, ?_, h.shaped⟩
  · intro s hs
    by_cases heq : s = slot
    · subst heq
      omega
    · simpa [heq] using h.drop_cons.live s hs
  · intro s n hn
    by_cases heq : s = slot
    · rw [heq, hnone] at hn
      cases hn
    · simpa [heq] using h.shared s n hn
  · simp [h.null]
  · simp [h.noDoubleFree, hlive]

/-- A retained frame is in hand once more. -/
theorem Counted.retain {slot : Nat} (h : Counted mms none held v) (hlive : v.live slot) :
    Counted mms none (slot :: held)
      { v with
        refs := fun s => if s = slot then some ((v.refs slot).getD 1 + 1) else v.refs s } := by
  refine ⟨?_, ?_, fun q mm s hq => by simpa using h.once q mm s hq,
    ?_, ?_, h.null, h.noDoubleFree, h.shaped⟩
  -- one use more in hand goes with one reference more
  · intro s hs
    by_cases heq : s = slot
    · subst heq; exact hlive
    · rw [List.count_cons_of_ne (Ne.symm heq)] at hs
      exact h.live s hs
  · intro s
    have hs := h.counted s
    by_cases heq : s = slot
    · subst heq
      simpa [← Nat.add_assoc] using hs
    · rw [List.count_cons_of_ne (Ne.symm heq)]
      simpa [heq] using hs
  · intro s k hk
    by_cases heq : s = slot
    · simp only [heq, if_true, Option.some.injEq] at hk
      omega
    · simp only [heq, if_false] at hk
      exact h.stored s k hk
  · intro s k hk
    by_cases heq : s = slot
    · rw [heq]
      exact hlive
    · simp only [heq, if_false] at hk
      exact h.shared s k hk

end Rules

/-! ### The rules of the primitives -/

/-- The accounting of a state, with the tables seen through `g`. -/
def Acct (g : OrdMap Nat MmState → OrdMap Nat MmState) (own : Option Nat) (held : List Nat)
    (w : World) : Prop := Counted (g w.mms) own held w.frameView

/-- The accounting at a request boundary. -/
def FrameInv (w : World) : Prop := Acct id none [] w

/-- A slot that was allocated and holds no frame yet. -/
def Fresh (slot : Nat) (w : World) : Prop := slot ≠ 0 ∧ w.frameView.live slot = false

section Primitives

variable {g : OrdMap Nat MmState → OrdMap Nat MmState} {own : Option Nat} {held : List Nat}

/-- The accounting is a function of its view. -/
theorem Acct.congr {w w' : World} (hv : w'.memView = w.memView) :
    Acct g own held w' = Acct g own held w := by
  have hmms : w'.mms = w.mms := congrArg Prod.fst hv
  have hframes : w'.frameView = w.frameView := congrArg Prod.snd hv
  rw [Acct, Acct, hmms, hframes]

instance : BlindControl (Acct g own held) where
  tick _ _ := rfl
  slots _ _ := rfl
  trace _ _ := rfl
  signal _ _ _ := Acct.congr (BlindSignals.signal _ _ _)
  dropped _ _ := rfl
  missedIntr _ _ := rfl
  record _ _ _ hf := Acct.congr (BlindRecords.record _ _ _ hf)
  hostPidMap _ _ := rfl
  stale _ _ := rfl
  stopLog _ _ := rfl
  stopSkewed _ _ := rfl
  childEvents _ _ := rfl
  pendingWaits _ _ := rfl
  lifecycle _ _ := rfl
  missedWake _ _ := rfl
  waited _ _ := rfl
  leftEvents _ _ := rfl
  pendingSleeps _ _ := rfl
  requestId _ _ := rfl
  idSaturated _ _ := rfl
  sleepLog _ _ := rfl
  caller _ _ := rfl

instance : BlindFiles (Acct g own held) where
  files _ _ _ := Acct.congr (BlindFiles.files _ _ _)
  cloexecLog _ _ := rfl
  positionSplit _ _ := rfl
  endpoints _ _ := rfl
  doubleClose _ _ := rfl
  asyncFree _ _ := rfl
  asyncRegions _ _ := rfl
  asyncVaddr _ _ := rfl
  iouring _ _ := rfl
  fdOverflow _ _ := rfl
  earlyRecycle _ _ := rfl

instance : BlindSlots (Acct g own held) where
  ledger _ _ := rfl

instance : BlindMaps (Acct g own held) where
  fileMapLog _ _ := rfl

instance : BlindTables (Acct g own held) where
  vspace _ _ _ := Acct.congr (BlindTables.vspace _ _ _)
  tables _ _ _ := Acct.congr (BlindPaths.tables _ _ _)

instance : BlindBytes (Acct g own held) where
  scratch _ _ _ := rfl
  writeFrame _ _ _ := Acct.congr (BlindBytes.writeFrame _ _ _)

instance : BlindControl FrameInv := inferInstanceAs (BlindControl (Acct id none []))
instance : BlindSlots FrameInv := inferInstanceAs (BlindSlots (Acct id none []))
instance : BlindFiles FrameInv := inferInstanceAs (BlindFiles (Acct id none []))
instance : BlindMaps FrameInv := inferInstanceAs (BlindMaps (Acct id none []))
instance : BlindTables FrameInv := inferInstanceAs (BlindTables (Acct id none []))
instance : BlindBytes FrameInv := inferInstanceAs (BlindBytes (Acct id none []))

/-- A new slot holds no frame. -/
theorem cspaceAlloc_acct :
    Triple (Acct g own held) cspaceAlloc (fun slot w => Acct g own held w ∧ Fresh slot w)
      (fun _ => Acct g own held) := by
  unfold cspaceAlloc
  refine Triple.bind ext_keeps.triple fun a => ?_
  refine Triple.bind (R := fun free w => Acct g own held w ∧ free = decide (w.SlotFree a.val))
    (Triple.gets fun w h => ⟨h, rfl⟩) fun free => ?_
  refine Triple.ite (fun hfree => ?_) fun _ => refuse_triple fun w h => h.1
  subst hfree
  refine Triple.bind (R := fun _ w => Acct g own held w ∧ Fresh a.val w)
    (Triple.modify fun w h => ⟨h.1, ?_⟩) fun _ => Triple.pure fun w h => h
  obtain ⟨hne, -, hnone, -⟩ := of_decide_eq_true h.2.symm
  exact ⟨hne, by simpa [World.frameView] using hnone⟩

/-- A page that is given out is in hand. -/
theorem putFrame_acct (slot : Nat) (fr : Frame) {w : World} (h : Acct g own held w)
    (hf : Fresh slot w) :
    Acct g own (slot :: held)
      { w with frames := fun s => if s = slot then some fr else w.frames s } := by
  have hlive : (fun s => (if s = slot then some fr else w.frames s).isSome)
      = fun s => if s = slot then true else w.frameView.live s := by
    funext s
    split <;> simp [World.frameView]
  unfold Acct World.frameView
  rw [hlive]
  exact Counted.put h hf.1 hf.2

/-- A new frame is in hand, or none was made. -/
theorem resAllocPage_acct (pages slot : Nat) :
    Triple (fun w => Acct g own held w ∧ Fresh slot w) (resAllocPage pages slot)
      (fun _ => Acct g own (slot :: held)) (fun _ => Acct g own held) := by
  have hext : Keeps (fun w => Acct g own held w ∧ Fresh slot w) ext :=
    (ext_frames (V := World.memView)).keeps fun v =>
      Counted (g v.1) own held v.2 ∧ slot ≠ 0 ∧ v.2.live slot = false
  refine Triple.bind (hext.triple.errors fun _ _ h => h.1) fun a => ?_
  exact Triple.modify fun w h => putFrame_acct slot _ h.1 h.2

/-- Frames that a file service lends are in hand, or none were lent. -/
theorem fsMapPages_acct (pages slot : Nat) :
    Triple (fun w => Acct g own held w ∧ Fresh slot w) (fsMapPages pages slot)
      (fun _ => Acct g own (slot :: held)) (fun _ => Acct g own held) := by
  have hext : Keeps (fun w => Acct g own held w ∧ Fresh slot w) ext :=
    (ext_frames (V := World.memView)).keeps fun v =>
      Counted (g v.1) own held v.2 ∧ slot ≠ 0 ∧ v.2.live slot = false
  refine Triple.bind (hext.triple.errors fun _ _ h => h.1) fun a => ?_
  exact Triple.bind (R := fun _ => Acct g own (slot :: held))
    (Triple.modify fun w h => putFrame_acct slot _ h.1 h.2) fun _ => Triple.pure fun _ h => h

/-- New page frames are in hand, or none were made. -/
theorem allocPageFrameNoCleanup_acct (pages : Nat) :
    Triple (Acct g own held) (allocPageFrameNoCleanup pages) (fun slot => Acct g own (slot :: held))
      (fun _ => Acct g own held) := by
  refine Triple.bind cspaceAlloc_acct fun slot => ?_
  exact Triple.bind (resAllocPage_acct pages slot) fun _ => Triple.pure fun _ h => h

/-- A new page frame is in hand, or none was made. -/
theorem allocPageFrame_acct :
    Triple (Acct g own held) allocPageFrame (fun slot => Acct g own (slot :: held))
      (fun _ => Acct g own held) := by
  refine Triple.bind cspaceAlloc_acct fun slot => ?_
  refine Triple.bind (R := fun _ => Acct g own (slot :: held)) ?_ fun _ => Triple.pure fun _ h => h
  exact Triple.onError (resAllocPage_acct 1 slot) fun _ => (cspaceFree_keeps slot).triple

/-- A release does not fail. -/
@[simp] theorem releaseProcessFrameSlot_total (pid slot : Nat) :
    Total (releaseProcessFrameSlot pid slot) := by
  have hcap : Total (releaseFrameCap slot) := by
    refine Total.bind (Total.gets _) fun count => ?_
    split
    · exact Total.pure _
    · exact Total.ite (by simp) (by simp)
  exact Total.bind hcap fun last => Total.when
    (Total.bind (Total.modify _) fun _ => Total.modify _)

/-- A release takes the slot out of the hand. -/
theorem releaseProcessFrameSlot_acct (pid slot : Nat) :
    Triple (Acct g own (slot :: held)) (releaseProcessFrameSlot pid slot)
      (fun _ => Acct g own held) (fun _ => Acct g own held) := by
  have hrelease : Triple (Acct g own (slot :: held)) (releaseFrameCap slot)
      (fun last w => if last then Acct g own (slot :: held) w ∧ w.frameCapRefs slot = none
        else Acct g own held w) (fun _ => Acct g own held) := by
    unfold releaseFrameCap
    refine Triple.bind (R := fun c w => Acct g own (slot :: held) w ∧ w.frameCapRefs slot = c)
      (Triple.gets fun w h => ⟨h, rfl⟩) fun count => ?_
    -- no counter: the frame has one user, and the release frees it
    cases count with
    | none => exact Triple.pure fun w h => by simpa using h
    | some n =>
      -- a counter above one is lowered, and a counter of one goes and frees the frame
      refine Triple.ite ?_ ?_
      · intro hlt
        refine Triple.bind (R := fun _ => Acct g own held) ?_ fun _ => Triple.pure fun w h => h
        exact Triple.modify fun w h => Counted.dropRef h.1 h.2 hlt
      · intro hle
        refine Triple.bind (R := fun _ w => Acct g own (slot :: held) w ∧
          w.frameCapRefs slot = none)
          (Triple.modify fun w h => ⟨?_, by simp⟩) fun _ => Triple.pure fun w h => by simpa using h
        refine Counted.eraseRef h.1 ?_
        have hn : w.frameView.refs slot = some n := h.2
        simpa [hn] using hle
  have hfree : Triple (fun w => Acct g own (slot :: held) w ∧ w.frameCapRefs slot = none)
      (freeFrame slot) (fun _ => Acct g own held) (fun _ => Acct g own held) := by
    refine Triple.modify fun w h => ?_
    have hlive : (fun s => (if s = slot then none else w.frames s).isSome)
        = fun s => if s = slot then false else w.frameView.live s := by
      funext s
      split <;> simp [World.frameView]
    have hnone : (w.frames slot).isNone = !w.frameView.live slot := by simp [World.frameView]
    unfold Acct World.frameView
    rw [hlive, hnone]
    exact Counted.free h.1 h.2
  refine Triple.bind hrelease fun last => Triple.when ?_ ?_
  · intro hlast
    simp only [hlast, if_true]
    exact Triple.bind hfree fun _ => (ledgerRecordFrameFree_frames pid slot).keepsProp.triple
  · intro w hlast h
    simpa [hlast] using h

/-- A frame that is live can be retained. -/
theorem retainFrameCap_acct (slot : Nat) :
    Triple (fun w => Acct g none held w ∧ w.frameView.live slot) (retainFrameCap slot)
      (fun _ => Acct g none (slot :: held)) (fun _ => Acct g none held) :=
  Triple.modify fun _ h => Counted.retain h.1 h.2

end Primitives

/-! ### Changes of a table -/

namespace MmState

variable {mm mm' : MmState} {m : MemoryMap} {s k : Nat}

/-- How often a table uses a frame depends on its mapped entries only. -/
theorem uses_congr (h : mm'.memoryMaps = mm.memoryMaps) (s : Nat) : mm'.uses s = mm.uses s := by
  rw [uses, h, uses]

/-- An entry that is added uses its frame at most once more. -/
theorem uses_add_le (mm : MmState) (m : MemoryMap) (s : Nat) :
    (mm.addMemoryMap m).uses s ≤ mm.uses s + [m.frameCap].count s := by
  rw [uses, addMemoryMap, OrdMap.total_insert, List.count_singleton]
  have := OrdMap.total_erase_le (fun e : MemoryMap => if e.frameCap = s then 1 else 0)
    mm.memoryMaps m.vaddr
  simp only [uses, beq_iff_eq]
  omega

/-- An entry that is removed gives its use of the frame up. -/
theorem uses_remove (h : mm.memoryMaps.get? k = some m) (s : Nat) :
    (mm.removeMemoryMap k).uses s + [m.frameCap].count s = mm.uses s := by
  have := OrdMap.total_erase (fun e : MemoryMap => if e.frameCap = s then 1 else 0)
    mm.memoryMaps h
  simp only [uses, removeMemoryMap, List.count_singleton, beq_iff_eq]
  omega

/-- A change of an entry that keeps its frame. -/
theorem uses_modify (mm : MmState) (k : Nat) {f : MemoryMap → MemoryMap}
    (hf : ∀ m, (f m).frameCap = m.frameCap) (s : Nat) :
    ({ mm with memoryMaps := mm.memoryMaps.modify k f } : MmState).uses s = mm.uses s :=
  OrdMap.total_modify _ _ _ fun m => by rw [hf]

/-- The shape of a table is that of its mapped entries. -/
theorem Shaped.congr (h : mm.Shaped) (hm : mm'.memoryMaps = mm.memoryMaps) : mm'.Shaped := by
  intro k m hk
  exact h k m (hm ▸ hk)

/-- An entry of whole pages keeps the shape of the table. -/
theorem Shaped.add (h : mm.Shaped) (hpos : 0 < m.size) (hle : m.size ≤ L1_HUGE_SIZE)
    (hdvd : m.size % PGSIZE = 0) : (mm.addMemoryMap m).Shaped := by
  intro k e hk
  rw [addMemoryMap, OrdMap.get?_insert] at hk
  split at hk
  · rename_i heq
    cases hk
    exact ⟨heq.symm, hpos, hle, hdvd⟩
  · exact h k e hk

/-- A removal keeps the shape of the table. -/
theorem Shaped.remove (h : mm.Shaped) (k : Nat) : (mm.removeMemoryMap k).Shaped := by
  intro j e hj
  rw [removeMemoryMap, OrdMap.get?_erase] at hj
  split at hj
  · cases hj
  · exact h j e hj

/-- Entries that stay where they are keep the shape of the table. -/
theorem Shaped.modify (h : mm.Shaped) (k : Nat) {f : MemoryMap → MemoryMap}
    (hf : ∀ m, (f m).vaddr = m.vaddr ∧ (f m).size = m.size) :
    ({ mm with memoryMaps := mm.memoryMaps.modify k f } : MmState).Shaped := by
  intro j e hj
  rw [OrdMap.get?_modify] at hj
  split at hj
  · obtain ⟨m, hm, rfl⟩ := Option.map_eq_some_iff.mp hj
    rw [(hf m).1, (hf m).2]
    exact h j m hm
  · exact h j e hj

/-- An entry of one page keeps the shape of a table. -/
theorem Shaped.addPage (h : mm.Shaped) (hs : m.size = PGSIZE) : (mm.addMemoryMap m).Shaped :=
  h.add (by simp [hs, PGSIZE]) (by simp [hs, PGSIZE, L1_HUGE_SIZE, L1_HUGE_PAGES]) (by simp [hs])

end MmState

section Table

variable {p : Nat} {held held' : List Nat} {f : MmState → MmState}

/-- A change of a memory state changes that of one process. -/
theorem World.mms_modifyMm (w : World) (p : Nat) (f : MmState → MmState) :
    (w.modifyMm p f).mms = w.mms.modify p f :=  by
  unfold World.mms World.modifyMm World.modifyTask
  exact OrdMap.mapValues_modify (fun t : TaskStruct => t.mm.state) w.tasks p fun _ => rfl

/-- A change of a table leaves the frames alone. -/
theorem Acct.modifyMm_eq {g : OrdMap Nat MmState → OrdMap Nat MmState}
    {own : Option Nat} (w : World)
    (p : Nat) (f : MmState → MmState) :
    Acct g own held (w.modifyMm p f) = Counted (g (w.mms.modify p f)) own held w.frameView := by
  rw [Acct, World.mms_modifyMm]
  rfl

/-- A change of the table of `p` moves slots between the table and the hand. -/
theorem modifyMm_acct {E : Err → World → Prop} :
    Triple
      (fun w => Acct id (some p) held w ∧ ∃ mm, w.mms.get? p = some mm ∧
        (mm.Shaped → (∀ s, (f mm).uses s + held'.count s ≤ mm.uses s + held.count s)
          ∧ (f mm).Shaped))
      (modifyMm p f) (fun _ => Acct id (some p) held') E := by
  refine Triple.modify fun w h => ?_
  obtain ⟨h, mm, hp, hf⟩ := h
  obtain ⟨huses, hshaped⟩ := hf (h.shaped p mm hp)
  rw [Acct.modifyMm_eq, OrdMap.modify_eq_insert _ f hp]
  refine h.conserve ?_ ?_ ?_
  -- what is held and what the table uses trade places, slot by slot
  · intro s
    have hs := huses s
    rw [id, OrdMap.total_insert, id, OrdMap.total_erase _ w.mms hp]
    omega
  -- the table of the process and the tables of the others
  · intro q mm' s hq
    rw [id, OrdMap.get?_insert] at hq
    split at hq
    · rename_i heq
      cases hq
      subst heq
      have honce := h.once q mm s hp
      simp only [if_true] at honce ⊢
      exact (huses s).trans honce
    · rename_i hne
      have honce := h.once q mm' s hq
      have hne' : ¬ some p = some q := fun h => hne (Option.some.inj h).symm
      simpa only [hne', if_false] using honce
  · intro q mm' hq
    rw [id, OrdMap.get?_insert] at hq
    split at hq
    · cases hq; exact hshaped
    · exact h.shaped q mm' hq

/-- The same, with a fact about the tables after the change. -/
theorem modifyMm_acct_at {R : OrdMap Nat MmState → Prop} {E : Err → World → Prop} :
    Triple
      (fun w => Acct id (some p) held w ∧ ∃ mm, w.mms.get? p = some mm ∧
        (mm.Shaped → (∀ s, (f mm).uses s + held'.count s ≤ mm.uses s + held.count s)
          ∧ (f mm).Shaped) ∧ R (w.mms.insert p (f mm)))
      (modifyMm p f) (fun _ w => Acct id (some p) held' w ∧ R w.mms) E := by
  refine Triple.modify fun w h => ?_
  obtain ⟨h, mm, hp, hf, hR⟩ := h
  refine ⟨(modifyMm_acct (E := E) w ⟨h, mm, hp, hf⟩).1 () rfl, ?_⟩
  rw [World.mms_modifyMm, OrdMap.modify_eq_insert _ f hp]
  exact hR

/-- A change of a table, whatever it holds, that takes slots out of the hand. -/
theorem modifyMm_acct_all {E : Err → World → Prop}
    (hheld : ∀ s, held'.count s ≤ held.count s)
    (hf : ∀ mm : MmState, mm.Shaped →
      (∀ s, (f mm).uses s + held'.count s ≤ mm.uses s + held.count s) ∧ (f mm).Shaped) :
    Triple (Acct id (some p) held) (modifyMm p f) (fun _ => Acct id (some p) held') E := by
  refine Triple.of_pre fun w h => ?_
  cases hp : w.mms.get? p with
  | some mm => exact modifyMm_acct.pre fun w' hw => by subst hw; exact ⟨h, mm, hp, hf mm⟩
  | none =>
    refine Triple.modify fun w' hw => ?_
    subst hw
    rw [Acct.modifyMm_eq, OrdMap.modify_of_get?_none _ f hp]
    exact Counted.drop h hheld

/-- A change of a table that does not touch its frames. -/
theorem modifyMm_keeps_frameInv
    (hf : ∀ mm : MmState, mm.Shaped → (∀ s, (f mm).uses s ≤ mm.uses s) ∧ (f mm).Shaped) :
    Keeps FrameInv (modifyMm p f) := by
  have h : Triple (Acct id (some p) []) (modifyMm p f) (fun _ => Acct id (some p) [])
      (fun _ => FrameInv) :=
    modifyMm_acct_all (fun _ => le_rfl) fun mm hmm =>
      ⟨fun s => by simpa using (hf mm hmm).1 s, (hf mm hmm).2⟩
  exact Triple.keeps (h.imp (fun w h => Counted.nil_own h _) (fun _ w h => Counted.nil_own h _)
    fun _ _ h => h)

/-- A change that leaves the entries alone. -/
theorem modifyMm_keeps_of_maps (hf : ∀ mm, (f mm).memoryMaps = mm.memoryMaps) :
    Keeps FrameInv (modifyMm p f) :=
  modifyMm_keeps_frameInv fun mm hmm =>
    ⟨fun s => (MmState.uses_congr (hf mm) s).le, hmm.congr (hf mm)⟩

/-- The slots in hand can be forgotten. -/
theorem FrameInv.of_acct {own : Option Nat} {w : World} (h : Acct id own held w) : FrameInv w :=
  Counted.nil_own h none

/-- With no frame in hand the accounting is the invariant. -/
theorem FrameInv.acct {w : World} (h : FrameInv w) (own : Option Nat) : Acct id own [] w :=
  Counted.nil_own h own

/-- The new frame in hand becomes an entry of one page. -/
theorem addPage_acct {slot : Nat} {E : Err → World → Prop}
    (hf : ∀ mm, ∃ m : MemoryMap, m.size = PGSIZE ∧ m.frameCap = slot ∧
      (f mm).memoryMaps = (mm.addMemoryMap m).memoryMaps) :
    Triple (Acct id (some p) (slot :: held)) (modifyMm p f) (fun _ => Acct id (some p) held) E := by
  refine modifyMm_acct_all (fun s => by rw [List.count_cons]; omega) fun mm hmm => ?_
  obtain ⟨m, hsize, hcap, hmaps⟩ := hf mm
  refine ⟨?_, (hmm.addPage hsize).congr hmaps⟩
  intro s
  have := mm.uses_add_le m s
  rw [hcap] at this
  rw [MmState.uses_congr hmaps, List.count_cons]
  simp only [List.count_singleton] at this
  omega

end Table

end Ape
