import Ape.Proofs.OpenFiles
import Ape.Proofs.Endpoints

/-!
# `Ape.Proofs.Positions`: the position of an open file

`dup`, `dup3`, `F_DUPFD` and `fork` make one more descriptor of an open file, and `do_close` treats
all of them as one: it closes the endpoint with the last of them. The position is stored by value
in each handle, so a read, a write or a seek moves it for one descriptor alone.

`duplicates_share_position` says exactly what is left of one position for all: it is there as long
as no call has moved the position of a handle while another descriptor had its endpoint, and each
such call ends it.
-/

set_option autoImplicit false

namespace Ape

open Ape.Lib Cmd

/-- The descriptor `fd` of `pid` is one of the open file in `slot`, with its position at `n`. -/
def World.PositionedAt (w : World) (pid fd slot n : Nat) : Prop :=
  ∃ t h, w.task? pid = some t ∧ t.files.fds.get? fd = some h ∧ h.fsEpSlot = slot ∧ h.offset = n

/-- All descriptors of an open file, of any processes, have one position. -/
def World.SharePositions (w : World) : Prop :=
  ∀ slot pid fd n pid' fd' n', w.PositionedAt pid fd slot n →
    w.PositionedAt pid' fd' slot n' → n = n'

/-- The view sees what a descriptor of some process sees. -/
theorem World.fdView_sees (w : World) (slot n : Nat) :
    w.fdView.Sees slot n ↔ ∃ pid fd, w.PositionedAt pid fd slot n := by
  constructor
  · rintro ⟨pid, fs, hfs, fd, h, hget, hrest⟩
    obtain ⟨t, ht, rfl⟩ := Option.map_eq_some_iff.mp hfs
    exact ⟨pid, fd, t, h, ht, hget, hrest⟩
  · rintro ⟨pid, fd, t, h, ht, hget, hrest⟩
    refine ⟨pid, t.files, ?_, fd, h, hget, hrest⟩
    show w.filesOf pid = _
    rw [World.filesOf, ht]
    rfl

/-- Whether positions are shared, in the state and in its view. -/
theorem World.sharePositions_iff (w : World) : w.SharePositions ↔ w.fdView.OnePosition := by
  constructor
  · intro h slot m n hm hn
    obtain ⟨pid, fd, hat⟩ := (w.fdView_sees slot m).mp hm
    obtain ⟨pid', fd', hat'⟩ := (w.fdView_sees slot n).mp hn
    exact h slot pid fd m pid' fd' n hat hat'
  · intro h slot pid fd n pid' fd' n' hat hat'
    exact h slot n n' ((w.fdView_sees slot n).mpr ⟨pid, fd, hat⟩)
      ((w.fdView_sees slot n').mpr ⟨pid', fd', hat'⟩)

/-! ### A call that moves a position apart -/

section Apart

variable {u : FdView} {handle : FileHandle}

/-- The handle is out of the table of `u`, and a move that was noted took it away from the other
descriptors of its file. -/
def Apart (u : FdView) (handle : FileHandle) (s : World × FileHandle) : Prop :=
  Taken u handle s ∧
    (s.1.fdView.split = true → s.2.offset ≠ handle.offset ∧ u.Referred handle.fsEpSlot)

/-- The same of a handle that only moves ahead. -/
def Ahead (u : FdView) (handle : FileHandle) (s : World × FileHandle) : Prop :=
  Apart u handle s ∧ (s.2.offset = handle.offset ∨ ∃ k, s.2.offset = satAdd handle.offset k)

/-- What a move that is noted says. -/
theorem moveTo_split {s : World × FileHandle} {n : Nat}
    (h : (moveTo n s).1.fdView.split = true) (hs : s.1.fdView.split = false) :
    n ≠ s.2.offset ∧ s.1.fdView.Referred s.2.fsEpSlot := by
  have hor : (s.1.positionSplit || (decide (n ≠ s.2.offset) && s.1.endpointShared s.2.fsEpSlot)) =
      true := h
  have hold : s.1.positionSplit = false := hs
  rw [hold, Bool.false_or, Bool.and_eq_true, decide_eq_true_eq] at hor
  exact ⟨hor.1, (s.1.endpointShared_iff_referred _).mp hor.2⟩

/-- Another descriptor of the file is in the table that the handle was taken from. -/
theorem Taken.referred {s : World × FileHandle} (h : Taken u handle s)
    (hr : s.1.fdView.Referred s.2.fsEpSlot) : u.Referred handle.fsEpSlot := by
  obtain ⟨htables, -, hslot, -⟩ := h
  unfold FdView.Referred FdView.Sees at hr ⊢
  rwa [htables, hslot] at hr

/-- A read or a write moves a handle ahead, and never back to where it was. -/
theorem Ahead.advance {s : World × FileHandle} (h : Ahead u handle s) (n : Nat) :
    Ahead u handle (moveTo (satAdd s.2.offset n) s) := by
  obtain ⟨⟨htaken, hsplit⟩, hahead⟩ := h
  have hnew : (∃ k, satAdd s.2.offset n = satAdd handle.offset k) ∧
      (s.2.offset ≠ handle.offset → satAdd s.2.offset n ≠ handle.offset) := by
    rcases hahead with heq | ⟨k, heq⟩
    · exact ⟨⟨n, by rw [heq]⟩, fun hne => absurd heq hne⟩
    · refine ⟨⟨k + n, ?_⟩, ?_⟩
      · rw [heq]
        unfold satAdd
        omega
      · intro hne
        rw [heq] at hne ⊢
        unfold satAdd at hne ⊢
        omega
  refine ⟨⟨htaken.move _, ?_⟩, .inr hnew.1⟩
  intro htrue
  show satAdd s.2.offset n ≠ handle.offset ∧ _
  cases hs : s.1.fdView.split with
  | true =>
    obtain ⟨hne, hr⟩ := hsplit hs
    exact ⟨hnew.2 hne, hr⟩
  | false =>
    obtain ⟨hne, hr⟩ := moveTo_split htrue hs
    refine ⟨?_, htaken.referred hr⟩
    -- a move that is noted leaves the position, and the first one leaves that of the handle
    intro heq
    rcases hahead with hsame | ⟨k, hk⟩
    · exact hne (heq.trans hsame.symm)
    · refine hnew.2 (fun hsame => hne (heq.trans hsame.symm)) heq

/-- A seek moves a handle once. -/
theorem seekHandle_apart (offset : Int) (whence : Nat) (hu : u.split = false) :
    Triple (fun s => s.1.fdView = u ∧ s.2 = handle) (seekHandle offset whence)
      (fun _ => Apart u handle) fun _ => Apart u handle := by
  -- until the last step the handle is the one of the start
  have hstay : ∀ s : World × FileHandle, s.1.fdView = u ∧ s.2 = handle → Apart u handle s := by
    rintro s ⟨hv, rfl⟩
    have hfalse : s.1.fdView.split = false := by rw [hv]; exact hu
    exact ⟨Taken.start hv, fun htrue => by rw [hfalse] at htrue; cases htrue⟩
  -- the size of the file is asked, which the descriptors do not see
  have hext : Keeps (fun s : World × FileHandle => s.1.fdView = u ∧ s.2 = handle) (inFst ext) := by
    rintro ⟨w, handle'⟩ ⟨hv, hh⟩
    rw [run_inFst]
    exact ⟨(ext_frames (V := World.fdView) w).trans hv, hh⟩
  have hbase : Keeps (fun s : World × FileHandle => s.1.fdView = u ∧ s.2 = handle)
      (seekBase whence) := by
    refine Keeps.ite (Keeps.pure _) (Keeps.ite ?_ (Keeps.ite ?_ (Keeps.throw _)))
    · exact Keeps.bind (Keeps.gets _) fun _ => Keeps.pure _
    · exact Keeps.bind hext fun _ => Keeps.pure _
  unfold seekHandle
  refine Triple.bind (hbase.triple.errors fun _ s h => hstay s h)
    fun base => ?_
  refine Triple.bind (R := fun _ s => s.1.fdView = u ∧ s.2 = handle)
    (Triple.getSome (fun _ _ _ h => h) fun s _ h => hstay s h) fun newOff => ?_
  refine Triple.ite (fun _ => Triple.throw fun s h => hstay s h) fun _ => ?_
  refine Triple.bind (R := fun _ => Apart u handle) (Triple.modify fun s h => ?_)
    fun _ => Triple.pure fun _ h => h
  -- the handle moves only here, and marks the split if another descriptor has the file
  obtain ⟨htaken, -⟩ := hstay s h
  refine ⟨htaken.move _, ?_⟩
  intro htrue
  have hfalse : s.1.fdView.split = false := by rw [h.1]; exact hu
  obtain ⟨hne, hr⟩ := moveTo_split htrue hfalse
  refine ⟨?_, htaken.referred hr⟩
  intro heq
  exact hne (heq.trans (congrArg FileHandle.offset h.2).symm)

/-- A read or a write moves a handle ahead. -/
theorem ahead_apart {α : Type} {f : H α} (hf : Keeps (Ahead u handle) f) (hu : u.split = false) :
    Triple (fun s => s.1.fdView = u ∧ s.2 = handle) f (fun _ => Apart u handle)
      fun _ => Apart u handle := by
  refine hf.triple.imp (fun s h => ⟨⟨h.2 ▸ Taken.start h.1, ?_⟩, .inl (by rw [h.2])⟩)
    (fun _ _ h => h.1) fun _ _ h => h.1
  intro htrue
  rw [h.1, hu] at htrue
  cases htrue

/-- A command of the server that leaves the view alone leaves the handle as it is. -/
theorem Ahead.frame {α : Type} {c : M α} (h : Frames World.fdView c) :
    Keeps (Ahead u handle) (inFst c) := by
  rintro ⟨w, handle'⟩ ⟨⟨htaken, hsplit⟩, hahead⟩
  have hview := h w
  have hkept := Taken.frame h (w, handle') htaken
  rw [run_inFst] at hkept ⊢
  refine ⟨⟨hkept, fun htrue => hsplit ?_⟩, hahead⟩
  exact (congrArg FdView.split hview).symm.trans htrue

end Apart

section Calls

variable {v : FdView} {pid fd : Nat} {fs : FilesState} {handle : FileHandle}

/-- A handle that goes back with another position, while a descriptor has its old one. -/
theorem Apart.restore (hone : v.OnePosition) (hfs : v.tables pid = some fs)
    (hget : fs.fds.get? fd = some handle) {s : World × FileHandle}
    (h : Apart (v.set pid (some (fs.removeFd fd))) handle s)
    (htrue : s.1.fdView.split = true) :
    ¬ (s.1.fdView.set pid (some ((fs.removeFd fd).insertFd fd s.2))).OnePosition := by
  obtain ⟨⟨htables, -, hslot, -⟩, hsplit⟩ := h
  obtain ⟨hne, m, q, fs₁, hq, f, h₁, hget₁, hslot₁, hm⟩ := hsplit htrue
  let fs' := (fs.removeFd fd).insertFd fd s.2
  have hnew : (s.1.fdView.set pid (some fs')).Sees handle.fsEpSlot s.2.offset :=
    ⟨pid, fs', FdView.set_tables _, fd, s.2, OrdMap.get?_insert_self _ _ _, hslot, rfl⟩
  -- the other descriptor is where it was
  have hold : v.Sees handle.fsEpSlot m ∧
      (s.1.fdView.set pid (some fs')).Sees handle.fsEpSlot m := by
    by_cases heq : q = pid
    · subst heq
      have hfs₁ : fs.removeFd fd = fs₁ := by simpa using hq
      subst hfs₁
      have hget₂ : (fs.fds.erase fd).get? f = some h₁ := hget₁
      rw [OrdMap.get?_erase] at hget₂
      split at hget₂
      · cases hget₂
      · rename_i hfd
        refine ⟨⟨q, fs, hfs, f, h₁, hget₂, hslot₁, hm⟩, q, fs', FdView.set_tables _, f, h₁, ?_,
          hslot₁, hm⟩
        show ((fs.fds.erase fd).insert fd s.2).get? f = some h₁
        rw [OrdMap.get?_insert, if_neg hfd]
        exact hget₁
    · have hq₁ : v.tables q = some fs₁ := by simpa [FdView.set, heq] using hq
      refine ⟨⟨q, fs₁, hq₁, f, h₁, hget₁, hslot₁, hm⟩, q, fs₁, ?_, f, h₁, hget₁, hslot₁, hm⟩
      show (if q = pid then _ else s.1.fdView.tables q) = _
      rw [if_neg heq, htables]
      exact hq
  intro hall
  have hmine : m = handle.offset := hone _ _ _ hold.1 ⟨pid, fs, hfs, fd, handle, hget, rfl, rfl⟩
  exact hne ((hall _ _ _ hnew hold.2).trans hmine)

/-- After a call on a handle the descriptors of a file have one position only if no move away from
the others was noted. -/
theorem withFdHandleMut_apart {α : Type} {f : H α} (hok : v.Ok) (hv : v.split = false)
    (hf : ∀ (u : FdView) (handle : FileHandle), u.split = false →
      Triple (fun s => s.1.fdView = u ∧ s.2 = handle) f (fun _ => Apart u handle)
        fun _ => Apart u handle) :
    Triple (fun w => w.fdView = v) (withFdHandleMut pid fd f)
      (fun _ w => w.fdView.OnePosition → w.positionSplit = false)
      fun _ w => w.fdView.OnePosition → w.positionSplit = false := by
  have hE : ∀ w : World, w.fdView = v → w.fdView.OnePosition → w.positionSplit = false :=
    fun w hw _ => (congrArg FdView.split hw).trans hv
  unfold withFdHandleMut
  refine Triple.ite (fun _ => Triple.throw hE) fun _ => ?_
  refine Triple.bind ((getProcess_task (P := fun w => w.fdView = v) pid).errors
    fun _ w h => hE w h) fun task => Triple.of_pre fun w₀ h₀ => ?_
  have hfs : v.tables pid = some task.files := by
    rw [← h₀.1]
    show w₀.filesOf pid = _
    rw [World.filesOf, h₀.2]
    rfl
  -- an error on the way leaves the mark as it was
  refine Triple.bind (R := fun h w => w.fdView = v ∧ task.files.fds.get? fd = some h)
    (Triple.getSome (fun _ _ hs hw => ⟨hw ▸ h₀.1, hs⟩) fun w _ hw => hE w (hw ▸ h₀.1))
    fun handle => Triple.of_pre fun w₁ h₁ => ?_
  refine Triple.bind ((modifyFiles_fdView pid (·.removeFd fd) hfs).pre fun _ hw => hw ▸ h₁.1)
    fun _ => ?_
  let u := v.set pid (some (task.files.removeFd fd))
  refine Triple.bind (R := fun r w => Apart u handle (w, r.2))
    (Triple.runWith (hf u handle hv) (fun _ _ _ h => h) fun _ _ _ h => h)
    fun r => Triple.of_pre fun w₂ h₂ => ?_
  have hfs₂ : w₂.fdView.tables pid = some (task.files.removeFd fd) := by
    rw [h₂.1.1]
    exact FdView.set_tables _
  refine Triple.bind ((modifyFiles_fdView pid (·.insertFd fd r.2) hfs₂).pre fun w hw => by rw [hw])
    fun _ => Triple.pre (Keeps.ofExcept _).triple fun w hw hall => ?_
  -- with the mark the restored handle stands apart from another one of its file
  cases hsplit : w.positionSplit with
  | false => rfl
  | true =>
    have htrue : w₂.fdView.split = true := (congrArg FdView.split hw).symm.trans hsplit
    rw [hw] at hall
    exact absurd hall (Apart.restore (s := (w₂, r.2)) (hok.position hv) hfs h₁.2 h₂ htrue)

end Calls

/-- A call keeps one position for each open file exactly when it noted no move. -/
theorem World.FdsOk.sharePositions_iff {w' : World} (hw' : w'.FdsOk)
    (h : w'.fdView.OnePosition → w'.positionSplit = false) :
    w'.SharePositions ↔ w'.positionSplit = false := by
  rw [w'.sharePositions_iff]
  exact ⟨h, hw'.2.position⟩

/-- As long as no call has moved the position of a handle while another descriptor had its
endpoint, all descriptors of an open file have one position. The next read, write or seek keeps that
exactly when it does not move a position so. -/
theorem duplicates_share_position (w : World) (hw : Reachable w)
    (hsplit : w.positionSplit = false) :
    w.SharePositions ∧
    ∀ env pid fd,
      (∀ buf len, ((doRead pid fd buf len).run (w.withEnv env)).2.SharePositions ↔
        ((doRead pid fd buf len).run (w.withEnv env)).2.positionSplit = false) ∧
      (∀ buf len, ((doWrite pid fd buf len).run (w.withEnv env)).2.SharePositions ↔
        ((doWrite pid fd buf len).run (w.withEnv env)).2.positionSplit = false) ∧
      ∀ offset whence, ((doLseek pid fd offset whence).run (w.withEnv env)).2.SharePositions ↔
        ((doLseek pid fd offset whence).run (w.withEnv env)).2.positionSplit = false := by
  have hok := hw.fdsOk
  refine ⟨w.sharePositions_iff.mpr (hok.2.position hsplit), ?_⟩
  intro env pid fd
  have hstart : (w.withEnv env).FdsOk := hok
  -- what a call leaves: with one position for each file the mark is unset, and the other way round
  have hend : ∀ {α : Type} {c : M α}, Keeps World.FdsOk c →
      Triple (fun w' => w'.fdView = w.fdView) c
        (fun _ w' => w'.fdView.OnePosition → w'.positionSplit = false)
        (fun _ w' => w'.fdView.OnePosition → w'.positionSplit = false) →
      ((c.run (w.withEnv env)).2.SharePositions
        ↔ (c.run (w.withEnv env)).2.positionSplit = false) :=
    fun hkeeps hc => World.FdsOk.sharePositions_iff (hkeeps _ hstart) (hc.ends rfl)
  have hzero : Triple (fun w' => w'.fdView = w.fdView) (pure 0 : M Nat)
      (fun _ w' => w'.fdView.OnePosition → w'.positionSplit = false)
      (fun _ w' => w'.fdView.OnePosition → w'.positionSplit = false) :=
    Triple.pure fun w' h _ => (congrArg FdView.split h).trans hsplit
  -- the two loops move ahead, and `lseek` moves anywhere
  refine ⟨fun buf len => hend (doRead_fdsOk pid fd buf len) ?_,
    fun buf len => hend (doWrite_fdsOk pid fd buf len) ?_,
    fun offset whence => hend (doLseek_fdsOk pid fd offset whence) ?_⟩
  · refine Triple.ite (fun _ => hzero) fun _ => withFdHandleMut_apart hok.2 hsplit fun u handle =>
      ahead_apart (readLoop_keeps_of (fun n s hs => hs.advance n)
        (fun _ _ _ => Ahead.frame (by simp [fsRead]))
        (fun _ _ => Ahead.frame (copyToUser_frames _ _ _)) _ _)
  · refine Triple.ite (fun _ => hzero) fun _ => withFdHandleMut_apart hok.2 hsplit fun u handle =>
      ahead_apart (writeLoop_keeps_of (fun n s hs => hs.advance n)
        (fun _ _ _ => Ahead.frame (by simp [fsWrite]))
        (fun _ _ => Ahead.frame (copyFromUser_frames _ _ _)) _ _)
  · exact withFdHandleMut_apart hok.2 hsplit fun u handle => seekHandle_apart offset whence

/-- `init` opens a file, writes to it and duplicates its descriptor. -/
def sampleWritten : World :=
  (sampleOpened.after (.syscall 1 (.write 3 0x3ffff000 8))).after (.syscall 1 (.dup 3))

/-- The sample after a write is reachable. -/
theorem sampleWritten_reachable : Reachable sampleWritten := by
  have hwrite : Reachable (sampleOpened.after (.syscall 1 (.write 3 0x3ffff000 8))) :=
    sampleOpened_reachable.after (by decide +kernel)
  exact hwrite.after (by decide +kernel)

/-- The position of the descriptor `fd` of `pid`. -/
def World.position (w : World) (pid fd : Nat) : Option Nat :=
  ((w.task? pid).bind fun t => t.files.fds.get? fd).map (·.offset)

/-- The write moved the only descriptor, and the duplicate has its position. -/
theorem duplicates_share_position_written :
    sampleWritten.positionSplit = false ∧ sampleWritten.SharePositions ∧
    sampleWritten.position 1 3 = some 8 ∧ sampleWritten.position 1 4 = some 8 := by
  have hsplit : sampleWritten.positionSplit = false := by decide +kernel
  exact ⟨hsplit, (duplicates_share_position _ sampleWritten_reachable hsplit).1,
    by decide +kernel, by decide +kernel⟩

/-- `init` opens a file, duplicates its descriptor and writes through both. -/
def sampleOverwritten : World :=
  ((sampleOpened.after (.syscall 1 (.dup 3))).after
    (.syscall 1 (.write 3 0x3ffff000 8))).after (.syscall 1 (.write 4 0x3ffff000 8))

/-- After the first write the two descriptors have the positions 8 and 0, and the second write puts
its bytes over those of the first. -/
theorem duplicates_overwrite :
    let dup := sampleOpened.after (.syscall 1 (.dup 3))
    let first := dup.after (.syscall 1 (.write 3 0x3ffff000 8))
    Reachable first ∧ ¬ first.SharePositions ∧ Reachable sampleOverwritten ∧
    ∃ slot, sampleOverwritten.trace.filter (· = .fileWritten slot 0 8) =
      [.fileWritten slot 0 8, .fileWritten slot 0 8] := by
  intro dup first
  have hdup : Reachable dup := sampleOpened_reachable.after (by decide +kernel)
  have hfirst : Reachable first := hdup.after (by decide +kernel)
  refine ⟨hfirst, fun hshare => ?_, hfirst.after (by decide +kernel), 1031, by decide +kernel⟩
  have h3 : ((first.task? 1).bind fun t => t.files.fds.get? 3).map
      (fun h => (h.fsEpSlot, h.offset)) = some (1031, 8) := by decide +kernel
  have h4 : ((first.task? 1).bind fun t => t.files.fds.get? 4).map
      (fun h => (h.fsEpSlot, h.offset)) = some (1031, 0) := by decide +kernel
  have hat : ∀ {fd slot n : Nat}, ((first.task? 1).bind fun t => t.files.fds.get? fd).map
      (fun h => (h.fsEpSlot, h.offset)) = some (slot, n) → first.PositionedAt 1 fd slot n := by
    intro fd slot n h
    obtain ⟨handle, hget, heq⟩ := Option.map_eq_some_iff.mp h
    obtain ⟨t, ht, hfd⟩ := Option.bind_eq_some_iff.mp hget
    cases heq
    exact ⟨t, handle, ht, hfd, rfl, rfl⟩
  have := hshare _ _ _ _ _ _ _ (hat h3) (hat h4)
  omega

end Ape
